import Thincan.UnixSocket.Numbering
import Thincan.UnixSocket.Receive

/-!
# Frames that have arrived

A frame that has arrived is in `rx_queue`, or in `rx_bytes` behind `rx_off`.  `recv` looks at
both before it turns to the socket.  `wait_not_empty` looks at the first only, and `try_recv`
reads from the socket before it looks at the second.

`wait_not_empty` blocks on a frame that is there if the call before it has left one in
`rx_bytes` and none in `rx_queue`; `leavesNone` is the condition on the steps of a run under
which this does not happen.  `try_recv` misses a frame that is there if the socket fails, or
has come to its end, at that moment.
-/

namespace Thincan.UnixSocket

open Process

/-! ## Waiting for a frame -/

/-- The calls that hand frames over. -/
def Call.receives : Call → Bool
  | .recv => true
  | .tryRecv => true
  | .recvTimeout => true
  | _ => false

namespace Client

variable (c : Client)

/-- A frame has arrived. -/
def HoldsFrame : Prop := c.can.rxQueue ≠ [] ∨ framesOf c.can.buffered ≠ []

/-- **`wait_not_empty` does not block on a frame that has arrived**: where it can be called, it
returns at once. -/
def ReadyNow : Prop :=
  ∀ c', c.step (.call .waitNotEmpty) = some c' → c.HoldsFrame →
    c'.task = none ∧ c'.log = c.log ++ [(.waitNotEmpty, .ok none)]

/-- A call that takes the last frame out of `rx_queue`, or that returns on a message of
`rx_bytes` with `rx_queue` empty, leaves no frame in `rx_bytes`. -/
def leavesNone : Label → Bool
  | .call call =>
      if call.receives ∧ c.can.rxQueue.length = 1 then (framesOf c.can.buffered).isEmpty else true
  | .scan =>
      match c.task, messagesOf c.can.buffered with
      | some (_, .scanning goal), msg :: rest =>
          match goal.react msg with
          | .ret _ =>
              if c.can.rxQueue = [] then (rest.filterMap DecodedMsg.frame?).isEmpty else true
          | _ => true
      | _, _ => true
  | _ => true

/-- The call going on is about to look at the buffer. -/
def Scanning : Prop := ∃ call goal, c.task = some (call, .scanning goal)

/-- Outside of a scan, `rx_queue` holds a frame if `rx_bytes` does. -/
structure Clear : Prop where
  numbered : c.Numbered
  /-- Every call but `connect` needs a connection. -/
  connected : ∀ call pc, c.task = some (call, pc) → call = .connect ∧ c.log = [] ∨ c.connected = true
  clear : ¬c.Scanning → c.can.rxQueue = [] → framesOf c.can.buffered = []

variable {c} {c' : Client} {call : Call} {l : Label}

theorem framesOf_eq_nil {bs : Bytes} (h : messagesOf bs = []) : framesOf bs = [] := by
  rw [framesOf, h]
  rfl

theorem not_scanning (hidle : c.task = none) : ¬c.Scanning := by
  rintro ⟨call', goal, htask⟩
  cases hidle.symm.trans htask

theorem Clear.start (stream : Bytes) : (Client.start stream).Clear where
  numbered := .start stream
  connected := by
    rintro call pc ⟨⟩
    exact .inl ⟨rfl, rfl⟩
  clear := fun _ _ ↦ rfl

/-- A log that begins with a connection goes on so. -/
theorem connected_go (next : Next) (h : c.connected = true) : (c.go call next).connected = true := by
  have hhead := of_decide_eq_true h
  cases next with
  | goto pc => exact h
  | ret r =>
      apply decide_eq_true
      change (c.log ++ _).head? = _
      cases hlog : c.log with
      | nil =>
          rw [hlog] at hhead
          cases hhead
      | cons e es =>
          rw [hlog] at hhead
          exact hhead

/-! ## How calls begin -/

/-- A call that begins pops a frame, or leaves queue and buffer as they are. -/
theorem rxQueue_start (can : UnixCan) (call : Call) :
    (∃ f, call.receives = true ∧ can.rxQueue = f :: (call.start can).1.rxQueue ∧
        (call.start can).2 = .ret (.ok (some f))) ∨
      (call.start can).1.rxQueue = can.rxQueue ∧ (call.receives = true → can.rxQueue = []) := by
  cases call with
  | connect | send | trySend | sendTimeout | setFilters | waitNotEmpty => exact .inr ⟨rfl, nofun⟩
  | recv | tryRecv | recvTimeout =>
      rw [Call.start, popOr]
      split
      · next f rest hqueue => exact .inl ⟨f, rfl, hqueue, rfl⟩
      · next hqueue => exact .inr ⟨rfl, fun _ ↦ hqueue⟩

/-- A call begins between calls only. -/
theorem step_call (h : c.step (.call call) = some c') :
    c.task = none ∧ c.connected = true ∧ c' = c.begin call := by
  unfold Client.step at h
  cases htask : c.task with
  | some t =>
      rw [htask] at h
      change c.resume t.1 t.2 (.call call) = some c' at h
      cases hpc : t.2 with
      | writing | pollOut | scanning | reading | pollIn | pollReady =>
          rw [hpc] at h
          cases h
  | none =>
      rw [htask] at h
      have hbegin : (if c.connected then some (c.begin call) else none) = some c' := by
        cases call with
        | connect => cases h
        | send | trySend | sendTimeout | setFilters | recv | tryRecv | recvTimeout | waitNotEmpty =>
            exact h
      split at hbegin
      · next hconnected => exact ⟨rfl, hconnected, (Option.some.inj hbegin).symm⟩
      · cases hbegin

/-- Between calls any of them may begin. -/
theorem step_begin (hidle : c.task = none) (hconnected : c.connected = true) (hcall : call ≠ .connect) :
    c.step (.call call) = some (c.begin call) := by
  unfold Client.step
  rw [hidle]
  cases call with
  | connect => exact absurd rfl hcall
  | send | trySend | sendTimeout | setFilters | recv | tryRecv | recvTimeout | waitNotEmpty =>
      exact if_pos hconnected

theorem Clear.begin (h : c.Clear) (hidle : c.task = none) (hconnected : c.connected = true)
    (hleaves : c.leavesNone (.call call) = true) : (c.begin call).Clear := by
  refine ⟨h.numbered.begin hidle, fun _ _ _ ↦ .inr (connected_go _ hconnected), ?_⟩
  intro _ hempty
  have hcan : (c.begin call).can = (call.start c.can).1 := by
    unfold Client.begin
    cases (call.start c.can).2 with
    | goto | ret => rfl
  rw [hcan] at hempty ⊢
  rw [buffered_start]
  rcases rxQueue_start c.can call with ⟨f, hreceives, hqueue, -⟩ | ⟨hqueue, -⟩
  · have hlen : c.can.rxQueue.length = 1 := by
      rw [hqueue, hempty]
      rfl
    rw [leavesNone, if_pos ⟨hreceives, hlen⟩] at hleaves
    exact List.isEmpty_iff.mp hleaves
  · exact h.clear (not_scanning hidle) (hqueue.symm.trans hempty)

/-! ## How calls go on -/

/-- The call going on goes on or ends, with no frame in the buffer if there is none in the
queue. -/
theorem Clear.goOf {c₁ : Client} {pc : Pc} {next : Next} (h : c.Clear)
    (htask : c.task = some (call, pc)) (hlog : c₁.log = c.log)
    (hclear : c₁.can.rxQueue = [] → framesOf c₁.can.buffered = [])
    (hn : (c₁.go call next).Numbered) : (c₁.go call next).Clear := by
  cases next with
  | goto pc' =>
      refine ⟨hn, ?_, fun _ ↦ hclear⟩
      rintro call' pc'' ⟨⟩
      have hconnected := h.connected call pc htask
      rw [Client.connected, ← hlog] at hconnected
      exact hconnected
  | ret r =>
      refine ⟨hn, ?_, fun _ ↦ hclear⟩
      rintro call' pc' ⟨⟩

/-- A step of a call that is not about to look at the buffer leaves it as it is, or reads. -/
theorem Clear.other (h : c.Clear) (hmove : c.Move l c') (hleaves : c.leavesNone l = true)
    (hnot : ¬c.Scanning) : c'.Clear := by
  have hclear := h.clear hnot
  have hn := h.numbered.move hmove
  cases hmove with
  | begin hl hidle hconnected =>
      subst hl
      exact h.begin hidle hconnected hleaves
  | @wait call pc pc' htask _ _ _ =>
      change (c.go call (.goto pc')).Clear
      exact h.goOf htask rfl hclear hn
  | wrote htask _ =>
      refine h.goOf htask ?_ hclear hn
      rfl
  | read htask _ =>
      refine ⟨hn, ?_, fun hscan ↦ absurd ⟨_, _, rfl⟩ hscan⟩
      rintro call' pc' ⟨⟩
      exact h.connected _ _ htask
  | msg htask _ => exact absurd ⟨_, _, htask⟩ hnot
  | ret htask _ => exact h.goOf htask rfl hclear hn

/-- Only a call that is about to look at the buffer does so. -/
theorem scanning_of_step (h : c.step .scan = some c') : c.Scanning := by
  unfold Client.step at h
  cases htask : c.task with
  | none =>
      rw [htask] at h
      cases h
  | some t =>
      rw [htask] at h
      change c.resume t.1 t.2 .scan = some c' at h
      cases hpc : t.2 with
      | scanning goal => exact ⟨t.1, goal, by rw [htask, ← hpc]⟩
      | writing | pollOut | reading | pollIn | pollReady =>
          rw [hpc] at h
          cases h

/-- A call that is about to look at the buffer does so. -/
theorem step_scanning {goal : Goal} (htask : c.task = some (call, .scanning goal))
    (h : c.step l = some c') : l = .scan ∧ c' = c.onScan call goal := by
  unfold step at h
  rw [htask] at h
  cases l with
  | scan => exact ⟨rfl, (Option.some.inj h).symm⟩
  | _ => cases h

/-- What comes of it: a message is passed over, ends the call, or there is none. -/
theorem onScan_cases (c : Client) (call : Call) (goal : Goal) :
    (∃ msg rest can, messagesOf c.can.buffered = msg :: rest ∧ (∀ r, goal.react msg ≠ .ret r) ∧
        c.onScan call goal = { c with can := can } ∧ messagesOf can.buffered = rest) ∨
      (∃ msg rest r can, messagesOf c.can.buffered = msg :: rest ∧ goal.react msg = .ret r ∧
        c.onScan call goal = { c with can := can }.go call (.ret r) ∧
        can.rxQueue = c.can.rxQueue ∧ messagesOf can.buffered = rest) ∨
      messagesOf c.can.buffered = [] ∧ ∃ next, c.onScan call goal = c.go call next ∧
        (next = .goto (.reading goal) ∨ ∃ e, next = .ret (.error e)) := by
  unfold onScan
  rcases c.can.nextDecodedMsg_cases with ⟨msg, can, htakes⟩ | ⟨hnone, hr | ⟨e, hr⟩⟩
  · have hmessages := htakes.messagesOf_eq []
    rw [List.append_nil, List.append_nil] at hmessages
    rw [htakes.result]
    dsimp only
    unfold onMsg
    cases hreact : goal.react msg with
    | queue f =>
        refine .inl ⟨msg, _, _, hmessages, ?_, rfl, rfl⟩
        rw [hreact]
        nofun
    | skip =>
        refine .inl ⟨msg, _, _, hmessages, ?_, rfl, rfl⟩
        rw [hreact]
        nofun
    | ret r => exact .inr (.inl ⟨msg, _, r, can, hmessages, hreact, rfl, htakes.rxQueue_eq, rfl⟩)
  · rw [hr]
    refine .inr (.inr ⟨hnone, _, rfl, ?_⟩)
    split
    · exact .inr ⟨_, rfl⟩
    · exact .inl rfl
  · rw [hr]
    exact .inr (.inr ⟨hnone, _, rfl, .inr ⟨_, rfl⟩⟩)

/-- What `leavesNone` says about a call that returns on a message. -/
theorem leavesNone_scan {goal : Goal} {msg : DecodedMsg} {rest : List DecodedMsg} {r : Ret}
    (htask : c.task = some (call, .scanning goal)) (hmsg : messagesOf c.can.buffered = msg :: rest)
    (hreact : goal.react msg = .ret r) :
    c.leavesNone .scan =
      if c.can.rxQueue = [] then (rest.filterMap DecodedMsg.frame?).isEmpty else true := by
  simp only [leavesNone, htask, hmsg, hreact]

/-- Looking at the buffer. -/
theorem Clear.scan {goal : Goal} (h : c.Clear) (htask : c.task = some (call, .scanning goal))
    (hleaves : c.leavesNone .scan = true) (hn : (c.onScan call goal).Numbered) :
    (c.onScan call goal).Clear := by
  rcases c.onScan_cases call goal with
    ⟨-, -, can, -, -, hon, -⟩ | ⟨msg, rest, r, can, hmsg, hreact, hon, hqueue, hrest⟩ |
    ⟨hnone, next, hon, -⟩
  · rw [hon] at hn ⊢
    exact ⟨hn, h.connected, fun hscan ↦ absurd ⟨call, goal, htask⟩ hscan⟩
  · rw [hon] at hn ⊢
    refine h.goOf htask rfl (fun hempty ↦ ?_) hn
    rw [leavesNone_scan htask hmsg hreact, if_pos (hqueue.symm.trans hempty)] at hleaves
    rw [framesOf, hrest]
    exact List.isEmpty_iff.mp hleaves
  · rw [hon] at hn ⊢
    exact h.goOf htask rfl (fun _ ↦ framesOf_eq_nil hnone) hn

theorem Clear.step (h : c.Clear) (hleaves : c.leavesNone l = true) (hstep : c.step l = some c') :
    c'.Clear := by
  have hmove := move_of_step hstep
  by_cases hscan : c.Scanning
  · obtain ⟨call, goal, htask⟩ := hscan
    have hn := h.numbered.move hmove
    obtain ⟨rfl, rfl⟩ := step_scanning htask hstep
    exact h.scan htask hleaves hn
  · exact h.other hmove hleaves hscan

/-! ## Ready, and not -/

/-- Where the queue holds a frame if the buffer does, `wait_not_empty` does not block. -/
theorem Clear.readyNow (h : c.Clear) : c.ReadyNow := by
  intro c' hstep hholds
  obtain ⟨hidle, -, rfl⟩ := step_call hstep
  have hqueue : c.can.rxQueue ≠ [] := by
    intro hempty
    rcases hholds with hqueue | hframes
    · exact hqueue hempty
    · exact hframes (h.clear (not_scanning hidle) hempty)
  have hstart : (Call.start c.can .waitNotEmpty).2 = .ret (.ok none) := by
    rw [Call.start, if_neg (by rwa [List.isEmpty_iff])]
  unfold Client.begin
  rw [hstart]
  exact ⟨rfl, rfl⟩

/-- With nothing in the queue, `wait_not_empty` polls. -/
theorem begin_waitNotEmpty (hqueue : c.can.rxQueue = []) :
    c.begin .waitNotEmpty = { c with task := some (.waitNotEmpty, .pollReady) } := by
  have hstart : (Call.start c.can .waitNotEmpty).2 = .goto .pollReady := by
    rw [Call.start, if_pos (List.isEmpty_iff.mpr hqueue)]
  unfold Client.begin
  rw [hstart]
  rfl

theorem not_readyNow (hidle : c.task = none) (hconnected : c.connected = true)
    (hqueue : c.can.rxQueue = []) (hframes : framesOf c.can.buffered ≠ []) : ¬c.ReadyNow := by
  intro h
  obtain ⟨htask, -⟩ := h _ (step_begin hidle hconnected nofun) (.inr hframes)
  rw [begin_waitNotEmpty hqueue] at htask
  cases htask

/-- A call that ends on a message leaves a client that is connected. -/
theorem Clear.connected_ret {goal : Goal} {msg : DecodedMsg} {r : Ret} {can : UnixCan} (h : c.Clear)
    (htask : c.task = some (call, .scanning goal)) (hreact : goal.react msg = .ret r) :
    ({ c with can := can }.go call (.ret r)).connected = true := by
  rcases h.connected call _ htask with ⟨rfl, hlog⟩ | hconnected
  · have hgoal : goal = .hello := Option.some.inj (h.numbered.goal_eq _ _ htask)
    subst hgoal
    have hr : r = .ok none := by
      cases msg with
      | hello => exact (Reaction.ret.inj hreact).symm
      | frame | ack | filtersAck | unknown => cases hreact
    apply decide_eq_true
    change (c.log ++ [(Call.connect, Call.connect.result r)]).head? = _
    rw [hlog, hr]
    rfl
  · exact connected_go (.ret r) hconnected

/-- A step that leaves a frame in the buffer, and none in the queue, ends a call. -/
theorem Clear.not_readyNow (h : c.Clear) (hleaves : c.leavesNone l = false)
    (hstep : c.step l = some c') : ¬c'.ReadyNow := by
  cases l with
  | call call =>
      rw [leavesNone] at hleaves
      split at hleaves
      swap
      · cases hleaves
      next hlast =>
      obtain ⟨hreceives, hlen⟩ := hlast
      have hframes : framesOf c.can.buffered ≠ [] := List.isEmpty_eq_false_iff.mp hleaves
      obtain ⟨hidle, hconnected, rfl⟩ := step_call hstep
      rcases rxQueue_start c.can call with ⟨f, -, hqueue, hret⟩ | ⟨-, hempty⟩
      · have hlast : (call.start c.can).1.rxQueue = [] := by
          rw [hqueue, List.length_cons] at hlen
          exact List.length_eq_zero_iff.mp (Nat.succ.inj hlen)
        unfold Client.begin
        rw [hret]
        refine Client.not_readyNow rfl (connected_go (.ret _) hconnected) hlast ?_
        change framesOf (call.start c.can).1.buffered ≠ []
        rwa [buffered_start]
      · rw [hempty hreceives] at hlen
        cases hlen
  | scan =>
      obtain ⟨call, goal, htask⟩ := scanning_of_step hstep
      obtain ⟨-, rfl⟩ := step_scanning htask hstep
      rcases c.onScan_cases call goal with
        ⟨msg, rest, can, hmsg, hnot, -⟩ | ⟨msg, rest, r, can, hmsg, hreact, hon, hqueue, hrest⟩ |
        ⟨hnone, -⟩
      · simp only [leavesNone, htask, hmsg] at hleaves
        cases hleaves
      · rw [leavesNone_scan htask hmsg hreact] at hleaves
        split at hleaves
        · next hempty =>
            rw [hon]
            refine Client.not_readyNow rfl (h.connected_ret htask hreact) (hqueue.trans hempty) ?_
            change framesOf can.buffered ≠ []
            rw [framesOf, hrest]
            exact List.isEmpty_eq_false_iff.mp hleaves
        · cases hleaves
      · simp only [leavesNone, htask, hnone] at hleaves
        cases hleaves
  | wrote | writeFailed | read | readFailed | ready | timeout | pollFailed => cases hleaves

end Client

/-- **`wait_not_empty` blocks on no frame that has arrived, all along a run, if and only if
every call of the run that ends leaves no frame in `rx_bytes` unless there is one in
`rx_queue`.** -/
theorem readyNow_iff (stream : Bytes) {ls : List Label} {c : Client}
    (hexec : clientMachine.exec (Client.start stream) ls = some c) :
    clientMachine.Along Client.ReadyNow (Client.start stream) ls ↔
      clientMachine.Meets (fun d l ↦ d.leavesNone l = true) (Client.start stream) ls := by
  refine Machine.along_iff_meets ?_ ?_ ?_ (Client.Clear.start stream) hexec
  · intro a l b ha hleaves hstep
    exact ha.step hleaves hstep
  · intro a ha
    exact ha.readyNow
  · intro a l b ha hleaves hstep
    exact ha.not_readyNow (Bool.eq_false_iff.mpr hleaves) hstep

/-- The first frame is read by itself, and the second while `set_filters` waits, which queues
it. -/
def singlyRun : List Label :=
  [.scan, .read 5, .scan, .call .recv, .scan, .read 13, .scan, .call (.setFilters []), .wrote 5,
    .wrote 10, .scan, .read 27, .scan, .scan, .scan, .readFailed .wouldBlock, .pollFailed .other]

theorem readyNow_singly :
    ∃ c, clientMachine.exec (.start sampleStream) singlyRun = some c ∧ c.HoldsFrame ∧ c.ReadyNow := by
  have hrun : ((clientMachine.exec (.start sampleStream) singlyRun).any fun c ↦
      c.can.rxQueue ≠ []) = true := by decide +kernel
  have hmeets : clientMachine.Meets (fun d l ↦ d.leavesNone l = true) (.start sampleStream) singlyRun := by
    decide +kernel
  obtain ⟨c, hc, hqueue⟩ := (Option.any_eq_true ..).mp hrun
  exact ⟨c, hc, .inl (of_decide_eq_true hqueue),
    (readyNow_iff sampleStream hc).mpr hmeets singlyRun c List.prefix_rfl hc⟩

/-- Two frames are read at once, and `recv` returns the first. -/
def pairRun : List Label := [.scan, .read 5, .scan, .call .recv, .scan, .read 40, .scan]

/-- `rx_queue` is empty then, and the second frame is in `rx_bytes`. -/
theorem exec_pairRun :
    ∃ c f, clientMachine.exec (.start sampleStream) pairRun = some c ∧ c.unread = [] ∧
      c.task = none ∧ c.connected = true ∧ c.can.rxQueue = [] ∧
      (framesOf c.can.buffered).head? = some f := by
  have hrun : ((clientMachine.exec (.start sampleStream) pairRun).any fun c ↦
      c.unread = [] ∧ c.task = none ∧ c.connected = true ∧ c.can.rxQueue = [] ∧
      (framesOf c.can.buffered).head?.isSome = true) = true := by decide +kernel
  obtain ⟨c, hc, hstate⟩ := (Option.any_eq_true ..).mp hrun
  obtain ⟨hunread, hidle, hconnected, hqueue, hframe⟩ := of_decide_eq_true hstate
  obtain ⟨f, hf⟩ := Option.isSome_iff_exists.mp hframe
  exact ⟨c, f, hc, hunread, hidle, hconnected, hqueue, hf⟩

/-- The second frame has arrived, the server has nothing more to send, and `wait_not_empty`
waits for the socket. -/
theorem pairRun_not_readyNow :
    ∃ c c', clientMachine.exec (.start sampleStream) pairRun = some c ∧ c.unread = [] ∧
      c.HoldsFrame ∧ c.step (.call .waitNotEmpty) = some c' ∧
      c'.task = some (.waitNotEmpty, .pollReady) ∧ ¬c.ReadyNow := by
  obtain ⟨c, f, hc, hunread, hidle, hconnected, hqueue, hframe⟩ := exec_pairRun
  have hframes : framesOf c.can.buffered ≠ [] := by
    intro hnil
    rw [hnil] at hframe
    cases hframe
  refine ⟨c, _, hc, hunread, .inr hframes, Client.step_begin hidle hconnected nofun, ?_,
    Client.not_readyNow hidle hconnected hqueue hframes⟩
  rw [Client.begin_waitNotEmpty hqueue]

/-! ## Receiving without waiting -/

namespace Client

variable (c : Client)

/-- The call, with these answers of the socket, returns `r`. -/
def Returns (call : Call) (ls : List Label) (r : Ret) : Prop :=
  ∃ c', clientMachine.exec c (.call call :: ls) = some c' ∧ c'.task = none ∧
    c'.log = c.log ++ [(call, r)]

/-- `recv` returns the frame, and asks nothing of the socket. -/
def RecvNow (f : UnixFrame) : Prop := ∃ n, c.Returns .recv (List.replicate n .scan) (.ok (some f))

/-- The answers of the socket to `try_recv`, which reads once if nothing is queued. -/
def readOnce (l : Label) : List Label := if c.can.rxQueue.isEmpty then [l] else []

/-- `try_recv` returns the frame where the socket answers its read with `l`. -/
def TryRecvs (l : Label) (f : UnixFrame) : Prop :=
  ∃ n, c.Returns .tryRecv (c.readOnce l ++ List.replicate n .scan) (.ok (some f))

end Client

/-- A read has brought bytes, or there are none for now. -/
def Label.delivers : Label → Bool
  | .read n => n ≠ 0
  | .readFailed kind => kind = .wouldBlock
  | _ => false

/-- A call that hands frames over returns on the first one. -/
theorem react_of_takes {goal : Goal} (h : goal.takes = true) (msg : DecodedMsg) :
    goal.react msg = match msg.frame? with
      | some f => .ret (.ok (some f))
      | none => .skip := by
  cases goal with
  | frame | buffered =>
      cases msg with
      | frame | ack | filtersAck | hello | unknown => rfl
  | hello | filtersAck | ack => cases h

namespace Client

variable {c c' : Client} {call : Call} {goal : Goal} {f : UnixFrame} {l : Label}

/-- Nothing more is scanned when the call does something else, or has returned. -/
theorem exec_scan_eq {n : Nat} (hnot : ¬c.Scanning)
    (h : clientMachine.exec c (List.replicate n .scan) = some c') : c' = c := by
  cases n with
  | zero => exact (Option.some.inj h).symm
  | succ n =>
      obtain ⟨d, hd, -⟩ := Machine.exec_cons.mp (List.replicate_succ ▸ h)
      exact absurd (scanning_of_step hd) hnot

/-- A scan begins with its first message. -/
theorem exec_scan_iff {P : Client → Prop} (htask : c.task = some (call, .scanning goal))
    (hP : ¬P c) :
    (∃ n c', clientMachine.exec c (List.replicate n .scan) = some c' ∧ P c') ↔
      ∃ n c', clientMachine.exec (c.onScan call goal) (List.replicate n .scan) = some c' ∧ P c' := by
  have hstep : clientMachine.step c .scan = some (c.onScan call goal) := by
    change c.step .scan = _
    unfold Client.step
    rw [htask]
    rfl
  have hexec (n : Nat) : clientMachine.exec c (List.replicate (n + 1) .scan) =
      clientMachine.exec (c.onScan call goal) (List.replicate n .scan) := by
    rw [List.replicate_succ, Machine.exec_cons_of_step hstep]
  constructor
  · rintro ⟨n, c', hn, hc'⟩
    cases n with
    | zero =>
        obtain rfl := Option.some.inj hn
        exact absurd hc' hP
    | succ n => exact ⟨n, c', hexec n ▸ hn, hc'⟩
  · rintro ⟨n, c', hn, hc'⟩
    exact ⟨n + 1, c', hexec n ▸ hn, hc'⟩

/-- The call has returned the frame. -/
def Returned (c : Client) (call : Call) (f : UnixFrame) (c' : Client) : Prop :=
  c'.task = none ∧ c'.log = c.log ++ [(call, .ok (some f))]

theorem result_ok (call : Call) (v : Option UnixFrame) : call.result (.ok v) = .ok v := by
  cases call with
  | connect | send | trySend | sendTimeout | setFilters | recv | tryRecv | recvTimeout
  | waitNotEmpty => rfl

/-- A call that has returned stays so. -/
theorem exec_scan_ret {P : Client → Prop} {r : Ret} :
    (∃ n c', clientMachine.exec (c.go call (.ret r)) (List.replicate n .scan) = some c' ∧ P c') ↔
      P (c.go call (.ret r)) := by
  constructor
  · rintro ⟨n, c', hexec, hc'⟩
    obtain rfl := exec_scan_eq (by rintro ⟨_, _, ⟨⟩⟩) hexec
    exact hc'
  · intro hP
    exact ⟨0, _, rfl, hP⟩

/-- A call that returns a frame has returned that one. -/
theorem returned_ret_iff {c₁ : Client} {g : UnixFrame} (hlog : c₁.log = c.log) :
    c.Returned call f (c₁.go call (.ret (.ok (some g)))) ↔ some g = some f := by
  rw [Returned, go, result_ok, hlog]
  constructor
  · rintro ⟨-, hlog⟩
    have hresult := (Prod.mk.inj (List.singleton_inj.mp (List.append_cancel_left hlog))).2
    exact Except.ok.inj hresult
  · intro hg
    rw [hg]
    exact ⟨rfl, rfl⟩

theorem not_returned {pc : Pc} (htask : c.task = some (call, pc)) : ¬c.Returned call f c := by
  rintro ⟨hidle, -⟩
  cases hidle.symm.trans htask

theorem not_returned_error {c₁ : Client} {e : UnixCanError} :
    ¬c.Returned call f (c₁.go call (.ret (.error e))) := by
  rintro ⟨-, hlog⟩
  change c₁.log ++ [(call, call.result (.error e))] = c.log ++ [(call, .ok (some f))] at hlog
  have hlast := (List.append_inj' hlog rfl).2
  have hresult := (Prod.mk.inj (List.singleton_inj.mp hlast)).2
  have hframe := congrArg retFrame hresult
  rw [retFrame_result] at hframe
  cases hframe

/-- **What a scan of the buffer finds**: a call that hands frames over returns the first frame
of the buffer, and none without the socket if there is none. -/
theorem scan_returns_iff (hgoal : goal.takes = true) (htask : c.task = some (call, .scanning goal)) :
    (∃ n c', clientMachine.exec c (List.replicate n .scan) = some c' ∧ c.Returned call f c') ↔
      (framesOf c.can.buffered).head? = some f := by
  induction hms : messagesOf c.can.buffered generalizing c with
  | nil =>
      rw [exec_scan_iff htask (not_returned htask), framesOf_eq_nil hms]
      refine ⟨fun ⟨n, c', hexec, hidle, hlog⟩ ↦ ?_, nofun⟩
      rcases c.onScan_cases call goal with
        ⟨msg, rest, -, hmsg, -⟩ | ⟨msg, rest, -, -, hmsg, -⟩ | ⟨-, next, hon, rfl | ⟨e, rfl⟩⟩
      · cases hms.symm.trans hmsg
      · cases hms.symm.trans hmsg
      · rw [hon] at hexec
        obtain rfl := exec_scan_eq (by rintro ⟨_, _, ⟨⟩⟩) hexec
        cases hidle
      · rw [hon] at hexec
        exact absurd (exec_scan_ret.mp ⟨n, c', hexec, hidle, hlog⟩) not_returned_error
  | cons msg rest ih =>
      rw [exec_scan_iff htask (not_returned htask), framesOf, hms, List.filterMap_cons]
      rcases c.onScan_cases call goal with
        ⟨msg', rest', can, hmsg, hnot, hon, hrest⟩ | ⟨msg', rest', r, can, hmsg, hreact, hon, -⟩ | ⟨hnone, -⟩
      · obtain ⟨rfl, rfl⟩ := List.cons.inj (hms.symm.trans hmsg)
        have hframe : msg.frame? = none := by
          cases hframe : msg.frame? with
          | none => rfl
          | some g =>
              have hreact := react_of_takes hgoal msg
              rw [hframe] at hreact
              exact absurd hreact (hnot _)
        rw [hframe, hon, ← hrest]
        exact ih (c := { c with can := can }) htask hrest
      · obtain ⟨rfl, rfl⟩ := List.cons.inj (hms.symm.trans hmsg)
        rw [react_of_takes hgoal] at hreact
        cases hframe : msg.frame? with
        | none =>
            rw [hframe] at hreact
            cases hreact
        | some g =>
            rw [hframe] at hreact
            obtain rfl := Reaction.ret.inj hreact
            rw [hon, exec_scan_ret]
            exact returned_ret_iff rfl
      · cases hms.symm.trans hnone

/-! ## What is there already -/

/-- What a call returns depends on its beginning. -/
theorem returns_iff (call : Call) {ls : List Label} (hidle : c.task = none) (hconnected : c.connected = true)
    (hcall : call ≠ .connect) :
    c.Returns call ls (.ok (some f)) ↔
      ∃ c', clientMachine.exec (c.begin call) ls = some c' ∧ c.Returned call f c' := by
  rw [Returns, Machine.exec_cons_of_step (step_begin hidle hconnected hcall)]
  rfl

/-- A frame that is queued is returned at once. -/
theorem begin_queued {pc : Pc} {g : UnixFrame} {rest : List UnixFrame}
    (hstart : call.start c.can = popOr c.can pc) (hqueue : c.can.rxQueue = g :: rest) :
    (∃ n c', clientMachine.exec (c.begin call) (List.replicate n .scan) = some c' ∧
        c.Returned call f c') ↔ some g = some f := by
  unfold Client.begin
  rw [hstart, popOr, hqueue, exec_scan_ret]
  exact returned_ret_iff rfl

/-- With nothing queued the call goes on. -/
theorem begin_empty {pc : Pc} (hstart : call.start c.can = popOr c.can pc)
    (hqueue : c.can.rxQueue = []) : c.begin call = c.go call (.goto pc) := by
  unfold Client.begin
  rw [hstart, popOr, hqueue]

/-- `recv` without the socket: the first frame of the queue, or else of the buffer. -/
theorem recvNow_iff (hidle : c.task = none) (hconnected : c.connected = true) :
    c.RecvNow f ↔ (c.can.rxQueue ++ framesOf c.can.buffered).head? = some f := by
  unfold RecvNow
  simp only [returns_iff .recv hidle hconnected nofun]
  cases hqueue : c.can.rxQueue with
  | cons g rest => exact begin_queued rfl hqueue
  | nil =>
      rw [begin_empty rfl hqueue, List.nil_append]
      exact scan_returns_iff (c := c.go .recv _) rfl rfl

theorem recvNow_of_buffered (hidle : c.task = none) (hconnected : c.connected = true)
    (hqueue : c.can.rxQueue = []) (hframe : (framesOf c.can.buffered).head? = some f) :
    c.RecvNow f := by
  rw [recvNow_iff hidle hconnected, hqueue]
  exact hframe

/-- `try_recv` reads first.  It goes on to the buffer if the read has brought bytes or none yet,
and returns an error if not. -/
theorem reading_returns_iff (htask : c.task = some (.tryRecv, .reading .buffered))
    (hread : c.step l = some c') (hframe : (framesOf c.can.buffered).head? = some f) :
    (∃ n c₁, clientMachine.exec c' (List.replicate n .scan) = some c₁ ∧ c.Returned .tryRecv f c₁) ↔
      l.delivers = true := by
  unfold Client.step at hread
  rw [htask] at hread
  cases l with
  | read n =>
      change c.onRead .tryRecv .buffered n = some c' at hread
      unfold onRead at hread
      split at hread
      · next hn =>
          split at hread
          · obtain rfl := Option.some.inj hread
            refine iff_of_false (exec_scan_ret.not.mpr not_returned_error) ?_
            rw [Label.delivers, hn]
            nofun
          · cases hread
      · next hn =>
          split at hread
          · obtain rfl := Option.some.inj hread
            refine iff_of_true ?_ (decide_eq_true hn)
            refine (scan_returns_iff (by rfl) rfl).mpr ?_
            change (framesOf (c.can.extend (c.unread.take n)).buffered).head? = some f
            rw [UnixCan.buffered_extend, framesOf_append, List.head?_append, hframe]
            rfl
          · cases hread
  | readFailed kind =>
      obtain rfl := Option.some.inj hread
      cases kind with
      | wouldBlock =>
          refine iff_of_true ?_ rfl
          exact (scan_returns_iff (c := c.go .tryRecv (.goto (.scanning .buffered))) rfl rfl).mpr hframe
      | timedOut | interrupted | other =>
          exact iff_of_false (exec_scan_ret.not.mpr not_returned_error) nofun
  | call | wrote | writeFailed | scan | ready | timeout | pollFailed => cases hread

/-- `try_recv` with nothing queued, up to the answer of the socket. -/
theorem exec_tryRecv {ls : List Label} (hidle : c.task = none) (hconnected : c.connected = true)
    (hqueue : c.can.rxQueue = []) :
    clientMachine.exec c (.call .tryRecv :: ls) =
      clientMachine.exec (c.go .tryRecv (.goto (.reading .buffered))) ls := by
  have hstep : clientMachine.step c (.call .tryRecv) = some (c.begin .tryRecv) :=
    step_begin hidle hconnected nofun
  rw [Machine.exec_cons_of_step hstep, begin_empty rfl hqueue]

/-- `try_recv` with nothing queued. -/
theorem tryRecvs_empty_iff (hidle : c.task = none) (hconnected : c.connected = true)
    (hqueue : c.can.rxQueue = [])
    (hread : (clientMachine.exec c [.call .tryRecv, l]).isSome = true)
    (hframe : (framesOf c.can.buffered).head? = some f) : c.TryRecvs l f ↔ l.delivers = true := by
  obtain ⟨c₂, hexec⟩ := Option.isSome_iff_exists.mp hread
  rw [exec_tryRecv hidle hconnected hqueue] at hexec
  obtain ⟨c₁, hstep, -⟩ := Machine.exec_cons.mp hexec
  have hreading := reading_returns_iff (c := c.go .tryRecv (.goto (.reading .buffered))) rfl hstep hframe
  have hrest (n : Nat) :
      clientMachine.exec c (.call .tryRecv :: (c.readOnce l ++ List.replicate n .scan)) =
        clientMachine.exec c₁ (List.replicate n .scan) := by
    rw [exec_tryRecv hidle hconnected hqueue, readOnce, hqueue]
    exact Machine.exec_cons_of_step hstep
  simp only [TryRecvs, Returns, hrest]
  exact hreading

end Client

/-- **Where `recv` would return a frame without the socket, `try_recv` returns it if and only if
the frame is queued, or the read that comes first brings bytes or would block.** -/
theorem tryRecvs_iff {c : Client} {f : UnixFrame} {l : Label} (hrecv : c.RecvNow f)
    (hread : c.can.rxQueue = [] → (clientMachine.exec c [.call .tryRecv, l]).isSome = true) :
    c.TryRecvs l f ↔ c.can.rxQueue ≠ [] ∨ l.delivers = true := by
  have ⟨_, _, hexec, _⟩ := hrecv
  obtain ⟨d, hcall, -⟩ := Machine.exec_cons.mp hexec
  obtain ⟨hidle, hconnected, -⟩ := Client.step_call hcall
  have hfirst := (Client.recvNow_iff hidle hconnected).mp hrecv
  cases hqueue : c.can.rxQueue with
  | cons g rest =>
      rw [hqueue] at hfirst
      refine iff_of_true ?_ (.inl nofun)
      rw [Client.TryRecvs, Client.readOnce, hqueue]
      simp only [Client.returns_iff .tryRecv hidle hconnected nofun]
      exact (Client.begin_queued rfl hqueue).mpr hfirst
  | nil =>
      rw [hqueue] at hfirst
      rw [Client.tryRecvs_empty_iff hidle hconnected hqueue (hread hqueue) hfirst]
      exact (or_iff_right fun hne ↦ hne rfl).symm

/-- After `pairRun` the second frame is in the buffer, and the socket would block. -/
theorem tryRecvs_pairRun :
    ∃ c f, clientMachine.exec (.start sampleStream) pairRun = some c ∧ c.can.rxQueue = [] ∧
      c.RecvNow f ∧ c.TryRecvs (.readFailed .wouldBlock) f := by
  obtain ⟨c, f, hc, -, hidle, hconnected, hqueue, hframe⟩ := exec_pairRun
  have hrecv := Client.recvNow_of_buffered hidle hconnected hqueue hframe
  have hread : (clientMachine.exec c [.call .tryRecv, .readFailed .wouldBlock]).isSome = true := by
    rw [Client.exec_tryRecv hidle hconnected hqueue]
    rfl
  exact ⟨c, f, hc, hqueue, hrecv, (tryRecvs_iff hrecv fun _ ↦ hread).mpr (.inr rfl)⟩

/-- The server has closed the connection: `recv` would return the frame, and `try_recv` returns
`Disconnected`. -/
theorem pairRun_disconnected :
    ∃ c f, clientMachine.exec (.start sampleStream) pairRun = some c ∧ c.RecvNow f ∧
      c.Returns .tryRecv [.read 0] (.error .disconnected) ∧ ¬c.TryRecvs (.read 0) f := by
  obtain ⟨c, f, hc, hunread, hidle, hconnected, hqueue, hframe⟩ := exec_pairRun
  have hrecv := Client.recvNow_of_buffered hidle hconnected hqueue hframe
  have heof : clientMachine.exec c [.call .tryRecv, .read 0] =
      some (c.go .tryRecv (.ret (.error .disconnected))) := by
    rw [Client.exec_tryRecv hidle hconnected hqueue]
    refine Machine.exec_cons_of_step ?_
    change (if c.unread.isEmpty then _ else none) = _
    rw [hunread]
    rfl
  refine ⟨c, f, hc, hrecv, ⟨_, heof, rfl, rfl⟩, ?_⟩
  rw [Client.tryRecvs_empty_iff hidle hconnected hqueue (heof ▸ rfl) hframe]
  nofun

end Thincan.UnixSocket
