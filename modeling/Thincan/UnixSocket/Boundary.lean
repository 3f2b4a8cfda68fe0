import Thincan.UnixSocket.Incremental
import Thincan.UnixSocket.Numbering
import Thincan.UnixSocket.Receive

/-!
# Where a failed send leaves the stream

`write_msg_deadline` writes a header and then a payload, each in a loop that the deadline of
`send_timeout` can end after any number of bytes.  Nothing is kept of the rest, and the next
call writes its message where the last one stopped.

`AtBoundary` says that what a client has written is whole messages, and that
`read_msg_into` gets exactly these.  With a socket whose only vice is to take less than it is
given (`steadyMachine`), it holds in every idle state after a `Timeout` if and only if no
deadline passes in the middle of a message, `Unbroken`: nothing of it is written, or all.
-/

namespace Thincan.UnixSocket

open Process

/-! ## What was sent -/

/-- The message of a request. -/
def Request.msg (seq : UInt64) (r : Request) : Msg := (r.msgType, r.payload seq)

/-- The message of a call that follows those of the log, if it has one. -/
def Call.message (log : List (Call × Ret)) (call : Call) : Bytes :=
  (call.request.map fun r ↦ r.bytes (UInt64.ofNat ((requestsIn log).length + 1))).getD []

/-- `Sent log ms`: some of the calls that have returned have written their messages, which are
`ms`; the others have written nothing, and have not returned `Ok` if they had a message. -/
inductive Sent : List (Call × Ret) → List Msg → Prop
  | nil : Sent [] []
  | whole {log : List (Call × Ret)} {ms : List Msg} {call : Call} {r : Request} (ret : Ret) :
      Sent log ms → call.request = some r → r.fits = true →
      Sent (log ++ [(call, ret)]) (ms ++ [r.msg (UInt64.ofNat ((requestsIn log).length + 1))])
  | nothing {log : List (Call × Ret)} {ms : List Msg} {call : Call} {ret : Ret} :
      Sent log ms → (call.request.isSome = true → ∀ v, ret ≠ .ok v) →
      Sent (log ++ [(call, ret)]) ms

/-- A message that was written has a length that the header can hold. -/
theorem Sent.length_lt {log : List (Call × Ret)} {ms : List Msg} (h : Sent log ms) :
    ∀ m ∈ ms, m.2.length < 2 ^ 32 := by
  induction h with
  | nil => nofun
  | @whole log ms call r ret _ _ hfits ih =>
      intro m hm
      rcases List.mem_append.mp hm with hm | hm
      · exact ih m hm
      · rw [List.mem_singleton.mp hm, Request.msg, r.length_payload _ 0]
        exact Nat.lt_of_le_of_lt (of_decide_eq_true hfits) (by decide)
  | nothing _ _ ih => exact ih

namespace Client

variable (c : Client)

/-- **The stream is at a message boundary**: what was written is whole messages of calls, and
the server reads exactly these, up to the first that is above its limit. -/
def AtBoundary : Prop :=
  ∃ ms, Sent c.log ms ∧ c.written = Framing.frames ms ∧
    ∀ reader : List Bytes, reader.flatten = c.written →
      readLoop reader = ms.takeWhile fun m ↦ m.2.length ≤ maxPayloadLen

/-- No call is going on, and one has returned `Timeout`. -/
def AfterTimeout : Prop := c.task = none ∧ ∃ call, (call, .error .timeout) ∈ c.log

/-- The message of the call going on. -/
def message : Bytes := (c.task.map fun t ↦ t.1.message c.log).getD []

/-- The call going on is not in the middle of its message. -/
def Unbroken : Prop := c.rest = [] ∨ c.rest = c.message

instance : Decidable c.Unbroken := inferInstanceAs (Decidable (_ ∨ _))

/-- A socket that takes some of the bytes it is given, or none for now. -/
def steady : Label → Bool
  | .wrote n => n ≠ 0
  | .writeFailed kind => kind = .wouldBlock || kind = .interrupted
  | .pollFailed kind => kind = .interrupted || c.rest.isEmpty
  | _ => true

end Client

/-- A client with such a socket. -/
def steadyMachine : Machine Client Label where
  step c l := if c.steady l then c.step l else none

/-! ## The invariant -/

namespace Client

/-- **What was written is whole messages and a part of one**, to which the call going on adds
the rest. -/
structure Partly (c : Client) (ms : List Msg) (part : Bytes) : Prop where
  sent : Sent c.log ms
  written_eq : c.written = Framing.frames ms ++ part
  part_eq : part ++ c.rest = c.message
  fits : ∀ call pc r, c.task = some (call, pc) → call.request = some r → r.fits = true

variable {c c₁ c' : Client} {ms : List Msg} {part : Bytes} {call : Call} {pc : Pc} {l : Label}

theorem rest_of_task (h : c.task = some (call, pc)) : c.rest = pc.rest := by
  rw [rest, h]
  rfl

theorem message_of_task (h : c.task = some (call, pc)) : c.message = call.message c.log := by
  rw [message, h]
  rfl

/-- A result is an error for the caller if it is one. -/
theorem result_ne_ok {r : Ret} (h : ∀ v, r ≠ .ok v) (v : Option UnixFrame) :
    call.result r ≠ .ok v := by
  cases r with
  | ok a => exact absurd rfl (h a)
  | error e =>
      unfold Call.result
      split
      · nofun
      · nofun
      · exact h v

/-- A call ends with its message written as a whole or not at all. -/
theorem Partly.ret {r : Ret} (hsent : Sent c.log ms) (hwritten : c.written = Framing.frames ms ++ part)
    (hpart : (part = call.message c.log ∧ ∀ r, call.request = some r → r.fits = true) ∨
      part = [] ∧ ∀ v, r ≠ .ok v) :
    ∃ ms part, (c.go call (.ret r)).Partly ms part := by
  have hnofits : ∀ call' pc r', (c.go call (.ret r)).task = some (call', pc) →
      call'.request = some r' → r'.fits = true := fun _ _ _ h ↦ by cases h
  rcases hpart with ⟨hwhole, hfits⟩ | ⟨hnone, hr⟩
  · cases hreq : call.request with
    | some q =>
        refine ⟨_, [], hsent.whole _ hreq (hfits q hreq), ?_, rfl, hnofits⟩
        rw [Framing.frames_snoc, List.append_nil]
        refine hwritten.trans (congrArg (Framing.frames ms ++ ·) ?_)
        rw [hwhole, Call.message, hreq]
        rfl
    | none =>
        refine ⟨ms, [], hsent.nothing fun h ↦ ?_, ?_, rfl, hnofits⟩
        · rw [hreq] at h
          cases h
        · refine hwritten.trans (congrArg (Framing.frames ms ++ ·) ?_)
          rw [hwhole, Call.message, hreq]
          rfl
  · exact ⟨ms, [], hsent.nothing fun _ ↦ result_ne_ok hr, hwritten.trans (by rw [hnone]), rfl, hnofits⟩

/-- A call goes on. -/
theorem Partly.goto {pc' : Pc} (hsent : Sent c.log ms)
    (hwritten : c.written = Framing.frames ms ++ part)
    (hfits : ∀ r, call.request = some r → r.fits = true)
    (hpart : part ++ pc'.rest = call.message c.log) :
    (c.go call (.goto pc')).Partly ms part where
  sent := hsent
  written_eq := hwritten
  part_eq := hpart
  fits := by
    rintro call' pc r ⟨⟩ hr
    exact hfits r hr

/-- The invariant, with the numbers the messages are written with. -/
structure InStep (c : Client) : Prop where
  numbered : c.Numbered
  partly : ∃ ms part, c.Partly ms part

theorem InStep.start (stream : Bytes) : (Client.start stream).InStep where
  numbered := .start stream
  partly := ⟨[], [], .nil, rfl, rfl, by rintro _ _ _ ⟨⟩ ⟨⟩⟩

/-- A call begins where the messages end. -/
theorem Partly.begin (h : c.Partly ms part) (hn : c.Numbered) (hidle : c.task = none) (call : Call) :
    ∃ ms part, (c.begin call).Partly ms part := by
  have hnone : part = [] := by
    have heq := h.part_eq
    rw [message, hidle] at heq
    exact (List.append_eq_nil_iff.mp heq).1
  have hwritten : c.written = Framing.frames ms ++ [] := h.written_eq.trans (by rw [hnone])
  unfold Client.begin
  cases hr : call.request with
  | some r =>
      obtain ⟨-, -, hstart⟩ := start_of_request c.can hr
      have hseq : c.can.nextSeq = UInt64.ofNat ((requestsIn c.log).length + 1) := by
        rw [hn.nextSeq_eq, requests_of_idle hidle]
        rfl
      rw [hstart]
      by_cases hfits : r.fits = true
      · have hlen : (r.payload c.can.nextSeq).length ≤ 0xFFFFFFFF := by
          rw [r.length_payload c.can.nextSeq 0]
          exact of_decide_eq_true hfits
        rw [writeMsgDeadline_eq _ _ hlen]
        refine ⟨ms, [], .goto h.sent hwritten (fun r' hr' ↦ ?_) ?_⟩
        · obtain rfl := Option.some.inj (hr.symm.trans hr')
          exact hfits
        · change (r.msgType :: leBytes 4 (r.payload c.can.nextSeq).length) ++
            [r.payload c.can.nextSeq].flatten = call.message c.log
          rw [List.flatten_singleton, Call.message, hr, ← hseq]
          rfl
      · have hlong : (r.payload c.can.nextSeq).length > 0xFFFFFFFF := by
          rw [r.length_payload c.can.nextSeq 0]
          exact Nat.not_le.mp fun hle ↦ hfits (decide_eq_true hle)
        rw [writeMsgDeadline, if_pos hlong]
        exact Partly.ret (c := { c with can := (call.start c.can).1 }) h.sent hwritten
          (.inr ⟨rfl, nofun⟩)
  | none =>
      obtain ⟨-, -, hstart⟩ := start_of_no_request c.can hr
      cases hnext : (call.start c.can).2 with
      | goto pc =>
          rw [hnext] at hstart
          refine ⟨ms, [], .goto h.sent hwritten (fun r' hr' ↦ ?_) ?_⟩
          · cases hr.symm.trans hr'
          · rw [hstart.2.1, Call.message, hr]
            rfl
      | ret r =>
          refine Partly.ret (c := { c with can := (call.start c.can).1 }) h.sent hwritten
            (.inl ⟨?_, fun r' hr' ↦ by cases hr.symm.trans hr'⟩)
          rw [Call.message, hr]
          rfl

/-- Bytes are written. -/
theorem Partly.wrote {bytes : Bytes} {later : List Bytes} {goal : Option Goal} {n : Nat}
    (h : c.Partly ms part) (htask : c.task = some (call, .writing bytes later goal)) :
    ∃ ms part, (Client.go { c with written := c.written ++ bytes.take n } call
      (writeNext (bytes.drop n :: later) goal)).Partly ms part := by
  have hfits : ∀ r, call.request = some r → r.fits = true := fun r hr ↦ h.fits call _ r htask hr
  have hwritten : c.written ++ bytes.take n = Framing.frames ms ++ (part ++ bytes.take n) := by
    rw [h.written_eq, List.append_assoc]
  have hmessage : part ++ bytes.take n ++ (bytes.drop n :: later).flatten = call.message c.log := by
    rw [← message_of_task htask, ← h.part_eq, rest_of_task htask, List.flatten_cons, List.append_assoc,
      ← List.append_assoc (bytes.take n), List.take_append_drop]
    rfl
  rcases writeNext_cases (bytes.drop n :: later) goal with ⟨pc', hnext, -, hrest, -⟩ | ⟨hnext, -, hempty⟩
  · rw [hnext]
    exact ⟨ms, _, .goto h.sent hwritten hfits (by rw [hrest, hmessage])⟩
  · rw [hnext]
    rw [hempty, List.append_nil] at hmessage
    exact Partly.ret (c := { c with written := c.written ++ bytes.take n }) h.sent hwritten
      (.inl ⟨hmessage, hfits⟩)

/-- The call going on goes elsewhere with the same rest, or ends with none. -/
theorem Partly.goOf {next : Next} (h : c.Partly ms part) (htask : c.task = some (call, pc))
    (hlog : c₁.log = c.log) (hwritten : c₁.written = c.written) (hrest : next.rest = pc.rest) :
    ∃ ms part, (c₁.go call next).Partly ms part := by
  have hfits : ∀ r, call.request = some r → r.fits = true := fun r hr ↦ h.fits call pc r htask hr
  have hsent : Sent c₁.log ms := hlog ▸ h.sent
  have hmessage : part ++ next.rest = call.message c₁.log := by
    rw [hrest, ← rest_of_task htask, h.part_eq, message_of_task htask, hlog]
  cases next with
  | goto pc' => exact ⟨ms, part, .goto hsent (hwritten.trans h.written_eq) hfits hmessage⟩
  | ret r =>
      rw [Next.rest, List.append_nil] at hmessage
      exact Partly.ret hsent (hwritten.trans h.written_eq) (.inl ⟨hmessage, hfits⟩)

/-- A call ends where its message does, or gives up before it. -/
theorem Partly.ends {r : Ret} (h : c.Partly ms part) (htask : c.task = some (call, pc))
    (hsteady : c.steady l = true) (hunbroken : l = .timeout → c.Unbroken) (hends : c.Ends pc l r) :
    ∃ ms part, (c.go call (.ret r)).Partly ms part := by
  have hnone : pc.rest = [] → ∃ ms part, (c.go call (.ret r)).Partly ms part :=
    fun hrest ↦ h.goOf htask rfl rfl hrest.symm
  cases hends with
  | writeZero => cases hsteady
  | @writeFailed _ _ _ kind hblock hint =>
      rcases Bool.or_eq_true_iff.mp hsteady with hk | hk
      · exact absurd (of_decide_eq_true hk) hblock
      · exact absurd (of_decide_eq_true hk) hint
  | timeout _ =>
      rcases hunbroken rfl with hrest | hrest
      · exact hnone (rest_of_task htask ▸ hrest)
      · have hpart : part = [] := by
          have heq := h.part_eq
          rw [hrest] at heq
          exact List.append_left_eq_self.mp heq
        exact Partly.ret h.sent h.written_eq (.inr ⟨hpart, nofun⟩)
  | pollFailed hint =>
      rcases Bool.or_eq_true_iff.mp hsteady with hk | hk
      · exact absurd (of_decide_eq_true hk) hint
      · exact hnone (rest_of_task htask ▸ List.isEmpty_iff.mp hk)
  | malformed | noFrame | eof | readFailed | notEmpty => exact hnone rfl

/-- **Every step keeps the invariant**, if no deadline passes in the middle of a message. -/
theorem InStep.move (h : c.InStep) (hmove : c.Move l c') (hsteady : c.steady l = true)
    (hunbroken : l = .timeout → c.Unbroken) : c'.InStep := by
  obtain ⟨ms, part, hp⟩ := h.partly
  refine ⟨h.numbered.move hmove, ?_⟩
  cases hmove with
  | begin _ hidle _ => exact hp.begin h.numbered hidle _
  | @wait call pc pc' htask _ hrest _ =>
      change ∃ ms part, (c.go call (.goto pc')).Partly ms part
      exact hp.goOf htask rfl rfl hrest
  | wrote htask _ => exact hp.wrote htask
  | @read call goal n htask _ =>
      change ∃ ms part, (Client.go { c with
        can := c.can.extend (c.unread.take n), unread := c.unread.drop n } call
        (.goto (.scanning goal))).Partly ms part
      exact hp.goOf htask rfl rfl rfl
  | msg htask _ =>
      unfold Client.onMsg
      split
      · exact ⟨ms, part, hp.sent, hp.written_eq, hp.part_eq, hp.fits⟩
      · exact ⟨ms, part, hp.sent, hp.written_eq, hp.part_eq, hp.fits⟩
      · exact hp.goOf htask rfl rfl rfl
  | ret htask hends => exact hp.ends htask hsteady hunbroken hends

/-! ## Whole messages, and broken ones -/

/-- Between two calls the stream is at a boundary. -/
theorem InStep.atBoundary (h : c.InStep) (hidle : c.task = none) : c.AtBoundary := by
  obtain ⟨ms, part, hp⟩ := h.partly
  have hnone : part = [] := by
    have heq := hp.part_eq
    rw [message, hidle] at heq
    exact (List.append_eq_nil_iff.mp heq).1
  have hwritten : c.written = Framing.frames ms := by
    rw [hp.written_eq, hnone, List.append_nil]
  refine ⟨ms, hp.sent, hwritten, fun reader hreader ↦ ?_⟩
  rw [readLoop_eq, hreader, hwritten, Framing.parse_frames hp.sent.length_lt]

/-- A deadline that passes while something is to be written ends the call. -/
theorem eq_of_timeout (htask : c.task = some (call, pc)) (hrest : pc.rest ≠ [])
    (h : c.step .timeout = some c') : c' = c.go call (.ret (.error .timeout)) := by
  have hresume : c.resume call pc .timeout = some c' := by
    unfold step at h
    rw [htask] at h
    exact h
  cases pc with
  | pollOut bytes later goal =>
      change c.onTimeout call (goal.any Goal.timed) = some c' at hresume
      unfold onTimeout at hresume
      split at hresume
      · exact (Option.some.inj hresume).symm
      · cases hresume
  | writing bytes later goal => cases hresume
  | scanning | reading | pollIn | pollReady => exact absurd rfl hrest

/-- A deadline that passes in the middle of a message leaves a part of it in the stream. -/
theorem InStep.broken (h : c.InStep) (hstep : c.step .timeout = some c') (hbroken : ¬c.Unbroken) :
    c'.AfterTimeout ∧ ¬c'.AtBoundary := by
  obtain ⟨ms, part, hp⟩ := h.partly
  have hrest : c.rest ≠ [] := fun hnil ↦ hbroken (.inl hnil)
  have hpart : part ≠ [] := fun hnil ↦ hbroken (.inr (by rw [← hp.part_eq, hnil, List.nil_append]))
  cases htask : c.task with
  | none =>
      rw [rest, htask] at hrest
      exact absurd rfl hrest
  | some t =>
  obtain ⟨call, pc⟩ := t
  have hmessage := hp.part_eq
  rw [message_of_task htask] at hmessage
  cases hreq : call.request with
  | none =>
      rw [Call.message, hreq] at hmessage
      exact absurd (List.append_eq_nil_iff.mp hmessage).1 hpart
  | some r =>
  rw [Call.message, hreq] at hmessage
  obtain rfl := eq_of_timeout htask (rest_of_task htask ▸ hrest) hstep
  have hresult : call.result (.error .timeout) = .error .timeout := by
    cases call with
    | connect => cases hreq
    | _ => rfl
  refine ⟨⟨rfl, call, ?_⟩, ?_⟩
  · change _ ∈ c.log ++ [(call, call.result (.error .timeout))]
    rw [hresult]
    exact List.mem_append_right _ List.mem_cons_self
  · rintro ⟨ms', hsent', hwritten', -⟩
    have hlen : (r.payload (UInt64.ofNat ((requestsIn c.log).length + 1))).length < 2 ^ 32 := by
      rw [r.length_payload _ 0]
      exact Nat.lt_of_le_of_lt (of_decide_eq_true (hp.fits call pc r htask hreq)) (by decide)
    exact Framing.frames_append_part_ne hp.sent.length_lt hsent'.length_lt hlen hmessage hpart hrest
      (hp.written_eq.symm.trans hwritten')

end Client

theorem step_of_steady {c c' : Client} {l : Label} (h : steadyMachine.step c l = some c') :
    c.steady l = true ∧ c.step l = some c' := by
  change (if c.steady l then c.step l else none) = some c' at h
  split at h
  · next hsteady => exact ⟨hsteady, h⟩
  · cases h

/-- **After a `Timeout` the stream is at a message boundary, all along a run, if and only if
no deadline of the run passes in the middle of a message.** -/
theorem timeout_atBoundary_iff (stream : Bytes) {ls : List Label} {c : Client}
    (hexec : steadyMachine.exec (Client.start stream) ls = some c) :
    steadyMachine.Along (fun d ↦ d.AfterTimeout → d.AtBoundary) (Client.start stream) ls ↔
      steadyMachine.Meets (fun d l ↦ l = .timeout → d.Unbroken) (Client.start stream) ls := by
  refine Machine.along_iff_meets ?_ ?_ ?_ (Client.InStep.start stream) hexec
  · intro a l b ha hmeets hstep
    obtain ⟨hsteady, hb⟩ := step_of_steady hstep
    exact ha.move (Client.move_of_step hb) hsteady hmeets
  · intro a ha hafter
    exact ha.atBoundary hafter.1
  · intro a l b ha hnot hstep
    obtain ⟨rfl, hbroken⟩ := Classical.not_imp.mp hnot
    obtain ⟨hafter, hb⟩ := ha.broken (step_of_steady hstep).2 hbroken
    exact fun h ↦ hb (h hafter)

theorem timeout_atBoundary_sample :
    ∃ c, steadyMachine.exec (.start sampleStream) sampleRun = some c ∧ c.AfterTimeout ∧ c.AtBoundary := by
  have hrun : ((steadyMachine.exec (.start sampleStream) sampleRun).any fun c ↦
      c.task = none ∧ (.sendTimeout (sampleFrame 0x7FF (by decide)), .error .timeout) ∈ c.log) = true := by
    decide +kernel
  obtain ⟨c, hc, hstate⟩ := (Option.any_eq_true ..).mp hrun
  obtain ⟨hidle, hlog⟩ := of_decide_eq_true hstate
  have hafter : c.AfterTimeout := ⟨hidle, _, hlog⟩
  have hmeets : steadyMachine.Meets (fun d l ↦ l = .timeout → d.Unbroken) (.start sampleStream)
      sampleRun := by decide +kernel
  exact ⟨c, hc, hafter, (timeout_atBoundary_iff sampleStream hc).mpr hmeets sampleRun c List.prefix_rfl hc
    hafter⟩

/-- The socket takes the header of a message, and no more until the deadline has passed; the
next call finds it ready again. -/
def tornRun : List Label :=
  [.scan, .read 5, .scan, .call (.sendTimeout (sampleFrame 0x100 id100_le)), .wrote 5,
    .writeFailed .wouldBlock, .timeout, .call (.trySend (sampleFrame 0x101 id101_le)), .wrote 5,
    .wrote 16]

/-- The frame of the second call, which has returned `Ok`, is not among the messages that the
server reads. -/
theorem tornRun_not_atBoundary :
    ∃ c, steadyMachine.exec (.start sampleStream) tornRun = some c ∧ c.AfterTimeout ∧ ¬c.AtBoundary ∧
      c.log = [(.connect, .ok none), (.sendTimeout (sampleFrame 0x100 (by decide)), .error .timeout),
        (.trySend (sampleFrame 0x101 (by decide)), .ok none)] ∧
      (Request.send false (sampleFrame 0x101 (by decide))).msg 2 ∉ readLoop [c.written] := by
  have hrun : ((steadyMachine.exec (.start sampleStream) tornRun).any fun c ↦
      c.task = none ∧
      c.log = [(.connect, .ok none), (.sendTimeout (sampleFrame 0x100 (by decide)), .error .timeout),
        (.trySend (sampleFrame 0x101 (by decide)), .ok none)] ∧
      c.written ≠ Framing.frames (Framing.parse (2 ^ 32 - 1) c.written) ∧
      (Request.send false (sampleFrame 0x101 (by decide))).msg 2 ∉
        Framing.parse maxPayloadLen [c.written].flatten) = true := by decide +kernel
  obtain ⟨c, hc, hstate⟩ := (Option.any_eq_true ..).mp hrun
  obtain ⟨hidle, hlog, hwritten, hmsg⟩ := of_decide_eq_true hstate
  refine ⟨c, hc, ⟨hidle, .sendTimeout (sampleFrame 0x100 (by decide)), ?_⟩, ?_, hlog, ?_⟩
  · rw [hlog]
    decide
  · rintro ⟨ms, hsent, heq, -⟩
    have hparse : Framing.parse (2 ^ 32 - 1) (Framing.frames ms) = ms :=
      Framing.parse_frames_eq_self (by decide) fun m hm ↦ Nat.le_pred_of_lt (hsent.length_lt m hm)
    rw [heq, hparse] at hwritten
    exact hwritten rfl
  · rwa [readLoop_eq]

end Thincan.UnixSocket
