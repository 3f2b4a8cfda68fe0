import Thincan.UnixSocket.Steps

/-!
# The client loses no frame

A frame the server has sent is at one of four places: returned to the caller, in `rx_queue`,
in `rx_bytes` behind `rx_off`, or still in the socket.  `held` is the four of them in this
order, and no step of any call changes it.  A call that hands a frame straight from
`rx_bytes` to the caller found `rx_queue` empty when it began (`Conserves.empty`), so that
nothing is overtaken.

A stream ends for the client at its first malformed message, which stays where it is: every
later call meets it again.
-/

namespace Thincan.UnixSocket

open Process

/-! ## The frames of a stream -/

/-- The frame of a `MSG_FRAME`. -/
def DecodedMsg.frame? : DecodedMsg → Option UnixFrame
  | .frame f => some f
  | _ => none

/-- The frames of a stream, up to the first malformed message. -/
def framesOf (bs : Bytes) : List UnixFrame := (messagesOf bs).filterMap DecodedMsg.frame?

/-- The frames of a stream in two pieces. -/
theorem framesOf_append (bs more : Bytes) :
    framesOf (bs ++ more) = framesOf bs ++ framesOf (remainderOf bs ++ more) := by
  rw [framesOf, messagesOf, Framing.messages_append, List.filterMap_append]
  rfl

/-! ## Conservation -/

/-- The frame a call returns. -/
def retFrame : Ret → Option UnixFrame
  | .ok o => o
  | .error _ => none

theorem retFrame_result (call : Call) (r : Ret) : retFrame (call.result r) = retFrame r := by
  cases r with
  | ok o =>
      cases call with
      | connect | send | trySend | sendTimeout | setFilters | recv | tryRecv | recvTimeout
      | waitNotEmpty => rfl
  | error e =>
      cases call with
      | connect => cases e with
        | io | protocol | timeout | wouldBlock | disconnected | noAck => rfl
      | send | trySend | sendTimeout | setFilters | recv | tryRecv | recvTimeout
      | waitNotEmpty => rfl

/-- Only a message can be a frame. -/
theorem Client.Ends.retFrame_eq {c : Client} {pc : Pc} {l : Label} {r : Ret} (h : c.Ends pc l r) :
    retFrame r = none := by
  cases h with
  | writeZero | writeFailed | timeout | pollFailed | malformed | noFrame | eof | readFailed
  | notEmpty => rfl

/-- The frame that is returned where the code goes. -/
def Next.frame? : Next → Option UnixFrame
  | .goto _ => none
  | .ret r => retFrame r

/-- The call hands frames over instead of queueing them. -/
def Goal.takes : Goal → Bool
  | .frame _ => true
  | .buffered => true
  | _ => false

namespace Client

variable (c : Client)

/-- The frames that were returned, in order. -/
def returned : List UnixFrame := c.log.filterMap fun e ↦ retFrame e.2

/-- What the client will find in the stream. -/
def ahead : List DecodedMsg := messagesOf (c.can.buffered ++ c.unread)

/-- Every frame the server has sent. -/
def held : List UnixFrame :=
  c.returned ++ c.can.rxQueue ++ c.ahead.filterMap DecodedMsg.frame?

/-- Reading moves bytes from the socket to the buffer. -/
theorem held_read (n : Nat) :
    { c with can := c.can.extend (c.unread.take n), unread := c.unread.drop n }.held = c.held := by
  have hbytes : (c.can.extend (c.unread.take n)).buffered ++ c.unread.drop n =
      c.can.buffered ++ c.unread := by
    rw [UnixCan.buffered_extend, List.append_assoc, List.take_append_drop]
  rw [held, ahead, hbytes]
  rfl

end Client

/-- The invariant: where the frames of `stream` are. -/
structure Conserves (stream : Bytes) (c : Client) : Prop where
  held_eq : c.held = framesOf stream
  /-- A call that hands over frames has found the queue empty. -/
  empty : ∀ call pc goal, c.task = some (call, pc) → pc.goal = some goal → goal.takes = true →
    c.can.rxQueue = []

/-! ## Steps -/

/-- A call that queues frames returns none, and one that hands them over queues none. -/
theorem react_cases (goal : Goal) (msg : DecodedMsg) :
    (∃ f, msg = .frame f ∧ goal.takes = false ∧ goal.react msg = .queue f) ∨
      (∃ f, msg = .frame f ∧ goal.takes = true ∧ goal.react msg = .ret (.ok (some f))) ∨
      msg.frame? = none ∧
        (goal.react msg = .skip ∨ ∃ r, goal.react msg = .ret r ∧ retFrame r = none) := by
  cases msg with
  | frame f =>
      cases goal with
      | hello | filtersAck | ack => exact .inl ⟨f, rfl, rfl, rfl⟩
      | frame | buffered => exact .inr (.inl ⟨f, rfl, rfl, rfl⟩)
  | ack seq status =>
      refine .inr (.inr ⟨rfl, ?_⟩)
      cases goal with
      | ack want timed =>
          simp only [Goal.react, waitForAck]
          split
          · refine .inr ⟨_, rfl, ?_⟩
            repeat' split
            all_goals rfl
          · exact .inl rfl
      | hello | filtersAck | frame | buffered => exact .inl rfl
  | filtersAck seq status =>
      refine .inr (.inr ⟨rfl, ?_⟩)
      cases goal with
      | filtersAck want =>
          simp only [Goal.react, waitForFiltersAck]
          split
          · refine .inr ⟨_, rfl, ?_⟩
            repeat' split
            all_goals rfl
          · exact .inl rfl
      | hello | ack | frame | buffered => exact .inl rfl
  | hello =>
      refine .inr (.inr ⟨rfl, ?_⟩)
      cases goal with
      | hello => exact .inr ⟨_, rfl, rfl⟩
      | filtersAck | ack | frame | buffered => exact .inl rfl
  | unknown =>
      refine .inr (.inr ⟨rfl, ?_⟩)
      cases goal with
      | hello | filtersAck | ack | frame | buffered => exact .inl rfl

namespace Conserves

variable {stream : Bytes} {c : Client} {call : Call} {pc : Pc}

/-- The call goes on; a frame that it returns is the last one returned. -/
theorem go {next : Next}
    (hheld : c.returned ++ next.frame?.toList ++ c.can.rxQueue ++ c.ahead.filterMap DecodedMsg.frame? =
      framesOf stream)
    (hempty : ∀ goal, next.goal = some goal → goal.takes = true → c.can.rxQueue = []) :
    Conserves stream (c.go call next) := by
  cases next with
  | goto pc =>
      constructor
      · rw [← hheld, show (Next.goto pc).frame? = none from rfl, Option.toList_none, List.append_nil]
        rfl
      · intro call' pc' goal htask hgoal htakes
        obtain ⟨rfl, rfl⟩ := Prod.mk.inj (Option.some.inj htask)
        exact hempty goal hgoal htakes
  | ret r =>
      constructor
      · have hreturned : (c.go call (.ret r)).returned = c.returned ++ (Next.ret r).frame?.toList := by
          simp only [Client.returned, Client.go, List.filterMap_append, List.filterMap_cons,
            List.filterMap_nil, retFrame_result, Next.frame?]
          cases retFrame r with
          | none | some => rfl
        rw [← hheld, ← hreturned]
        rfl
      · intro _ _ _ htask
        cases htask

/-- The call goes on without a frame for its caller. -/
theorem go_of_none {next : Next} (hheld : c.held = framesOf stream) (hnext : next.frame? = none)
    (hempty : ∀ goal, next.goal = some goal → goal.takes = true → c.can.rxQueue = []) :
    Conserves stream (c.go call next) := by
  refine go ?_ hempty
  rw [hnext, Option.toList_none, List.append_nil]
  exact hheld

/-- A call that fails, or that returns nothing. -/
theorem ret {r : Ret} (h : Conserves stream c) (hr : retFrame r = none) :
    Conserves stream (c.go call (.ret r)) :=
  go_of_none h.held_eq hr fun _ hgoal ↦ by cases hgoal

/-- A call that goes on waiting. -/
theorem goto (hheld : c.held = framesOf stream)
    (hempty : ∀ goal, pc.goal = some goal → goal.takes = true → c.can.rxQueue = []) :
    Conserves stream { c with task := some (call, pc) } := by
  change Conserves stream (c.go call (.goto pc))
  exact go_of_none hheld rfl hempty

/-- A call begins that writes a message, or goes on writing. -/
theorem writeNext {parts : List Bytes} {goal : Option Goal} (hheld : c.held = framesOf stream)
    (hempty : ∀ g, goal = some g → g.takes = true → c.can.rxQueue = []) :
    Conserves stream (c.go call (writeNext parts goal)) := by
  rcases writeNext_cases parts goal with ⟨pc, hnext, hgoal, -⟩ | ⟨hnext, -, -⟩
  · rw [hnext]
    exact go_of_none hheld rfl fun g hg ↦ hempty g (hgoal ▸ hg)
  · rw [hnext]
    exact go_of_none hheld rfl fun g hg ↦ by cases hg

/-- A call begins that writes a message. -/
theorem writeNumbered {can : UnixCan} {msgType : UInt8} {payload : UInt64 → Bytes}
    {goal : UInt64 → Option Goal} (h : Conserves stream c) (hqueue : can.rxQueue = c.can.rxQueue)
    (hbuffered : can.buffered = c.can.buffered)
    (htakes : ∀ g, goal can.nextSeq = some g → g.takes = false) :
    Conserves stream ({ c with can := (writeNumbered can msgType payload goal).1 }.go call
      (writeNumbered can msgType payload goal).2) := by
  have hheld : { c with can := (UnixSocket.writeNumbered can msgType payload goal).1 }.held = framesOf stream := by
    rw [← h.held_eq]
    change _ ++ can.rxQueue ++ (messagesOf (can.buffered ++ _)).filterMap _ = _
    rw [hqueue, hbuffered]
    rfl
  change Conserves stream (Client.go _ call (writeMsgDeadline msgType (payload can.nextSeq) (goal can.nextSeq)))
  unfold writeMsgDeadline
  split
  · exact go_of_none hheld rfl fun g hg ↦ by cases hg
  · refine writeNext hheld ?_
    intro g hg ht
    rw [htakes g hg] at ht
    cases ht

/-- A call begins that takes what is queued first. -/
theorem popOr (h : Conserves stream c) (pc : Pc) :
    Conserves stream ({ c with can := (popOr c.can pc).1 }.go call (popOr c.can pc).2) := by
  unfold UnixSocket.popOr
  split
  · next f rest hqueue =>
      refine go ?_ fun g hg ↦ by cases hg
      rw [← h.held_eq, Client.held, hqueue]
      simp only [Next.frame?, retFrame, Option.toList_some, List.append_assoc, List.cons_append,
        List.nil_append]
      rfl
  · next hqueue => exact go_of_none h.held_eq rfl fun _ _ _ ↦ hqueue

/-- A call begins. -/
theorem begin (h : Conserves stream c) (call : Call) : Conserves stream (c.begin call) := by
  unfold Client.begin
  cases call with
  | connect =>
      refine go_of_none h.held_eq rfl ?_
      rintro g ⟨⟩ ⟨⟩
  | send frame =>
      refine h.writeNumbered rfl rfl ?_
      rintro g ⟨⟩
      rfl
  | trySend frame =>
      refine h.writeNumbered rfl rfl ?_
      rintro g ⟨⟩
  | sendTimeout frame =>
      refine h.writeNumbered rfl rfl ?_
      rintro g ⟨⟩
      rfl
  | setFilters filters =>
      refine h.writeNumbered rfl rfl ?_
      rintro g ⟨⟩
      rfl
  | recv | tryRecv | recvTimeout => exact h.popOr _
  | waitNotEmpty =>
      unfold Call.start
      dsimp only
      split
      · exact go_of_none h.held_eq rfl fun _ hg ↦ by cases hg
      · exact h.ret rfl

/-- A message is passed over; its frame, if it is one, is queued or returned. -/
theorem onMsg {goal : Goal} {msg : DecodedMsg} {can : UnixCan} (h : Conserves stream c)
    (htask : c.task = some (call, .scanning goal)) (htakes : c.can.Takes msg can) :
    Conserves stream (c.onMsg call goal msg can) := by
  have hqueue := htakes.rxQueue_eq
  have hsplit : c.ahead = msg :: messagesOf (can.buffered ++ c.unread) := htakes.messagesOf_eq c.unread
  have hheld := h.held_eq
  rw [Client.held, hsplit] at hheld
  unfold Client.onMsg
  rcases react_cases goal msg with
    ⟨f, rfl, htakes, hreact⟩ | ⟨f, rfl, htakes, hreact⟩ | ⟨hframe, hreact | ⟨r, hreact, hret⟩⟩
  · rw [hreact]
    constructor
    · rw [← hheld]
      simp only [Client.held, Client.ahead, Client.returned, UnixCan.pushBack, hqueue,
        List.filterMap_cons, DecodedMsg.frame?, List.append_assoc, List.cons_append, List.nil_append]
      rfl
    · intro call' pc' goal' htask' hgoal htakes'
      rw [htask] at htask'
      obtain ⟨rfl, rfl⟩ := Prod.mk.inj (Option.some.inj htask')
      obtain rfl := Option.some.inj hgoal
      rw [htakes] at htakes'
      cases htakes'
  · -- nothing is queued, so the frame is the next one
    have hempty := h.empty call _ goal htask rfl htakes
    rw [hreact]
    refine go ?_ fun g hg ↦ by cases hg
    rw [← hheld]
    simp only [Client.ahead, Client.returned, hqueue, hempty, List.filterMap_cons, DecodedMsg.frame?,
      Next.frame?, retFrame, Option.toList_some, List.append_assoc, List.cons_append, List.nil_append]
  · rw [hreact]
    constructor
    · rw [← hheld, List.filterMap_cons, hframe]
      simp only [Client.held, Client.ahead, Client.returned, hqueue]
    · intro call' pc' goal' htask' hgoal htakes
      exact hqueue.trans (h.empty call' pc' goal' htask' hgoal htakes)
  · rw [hreact]
    refine go_of_none ?_ hret fun g hg ↦ by cases hg
    rw [← hheld, List.filterMap_cons, hframe]
    simp only [Client.held, Client.ahead, Client.returned, hqueue]

/-- Every step of every call keeps every frame. -/
theorem step {l : Label} {c' : Client} (h : Conserves stream c) (hstep : c.step l = some c') :
    Conserves stream c' := by
  cases Client.move_of_step hstep with
  | begin _ _ _ => exact h.begin _
  | wait htask hgoal _ _ =>
      exact goto h.held_eq fun g hg ht ↦ h.empty _ _ g htask (hgoal ▸ hg) ht
  | wrote htask _ => exact writeNext h.held_eq fun g hg ht ↦ h.empty _ _ g htask hg ht
  | read htask _ =>
      constructor
      · rw [← h.held_eq]
        exact c.held_read _
      · rintro call' pc' goal' ⟨⟩ hgoal htakes
        exact h.empty _ _ goal' htask hgoal htakes
  | msg htask htakes => exact h.onMsg htask htakes
  | ret htask hends => exact h.ret hends.retFrame_eq

theorem start (stream : Bytes) : Conserves stream (.start stream) := by
  constructor
  · rfl
  · rintro call pc goal ⟨⟩ ⟨⟩ ⟨⟩

end Conserves

/-- **No frame is lost**: whatever the server sends, however the socket cuts it up and whatever
the client calls, the frames returned, those in the queue, those in the buffer and those
not yet read are the frames of the stream.  The frames returned are its first ones. -/
theorem frames_conserved (stream : Bytes) {c : Client}
    (h : clientMachine.Reachable (.start stream) c) :
    c.returned ++ c.can.rxQueue ++ framesOf c.can.buffered ++
        framesOf (remainderOf c.can.buffered ++ c.unread) = framesOf stream ∧
      c.returned <+: framesOf stream := by
  have hc : Conserves stream c :=
    h.invariant (Conserves.start stream) fun _ _ _ ha hs ↦ ha.step hs
  have hheld : c.held = framesOf stream := hc.held_eq
  constructor
  · rw [List.append_assoc, ← framesOf_append]
    exact hheld
  · rw [← hheld, Client.held, List.append_assoc]
    exact List.prefix_append ..

/-- A frame with two bytes. -/
def sampleFrame (id : UInt16) (h : id.toNat ≤ 0x7FF) : UnixFrame :=
  ⟨.standard ⟨id, h⟩, [1, 2], false, by decide⟩

theorem id100_le : (0x100 : UInt16).toNat ≤ 0x7FF := by decide

theorem id101_le : (0x101 : UInt16).toNat ≤ 0x7FF := by decide

/-- A greeting, a frame, an acknowledgement and a frame. -/
def sampleStream : Bytes :=
  Framing.frame msgHello [] ++
    (Framing.frame msgFrame (encodeFrameInto (sampleFrame 0x100 id100_le)) ++
      (Framing.frame msgAck (encodeAckInto 1 ackOk) ++
        Framing.frame msgFrame (encodeFrameInto (sampleFrame 0x101 id101_le))))

/-- A `send_timeout` gives up in the middle of the acknowledgement, and queues a frame on the
way; `recv` gets that one, and `try_recv` the one behind the acknowledgement. -/
def sampleRun : List Label :=
  [.scan, .read 7, .scan,
    .call (.sendTimeout (sampleFrame 0x7FF (by decide))), .wrote 5, .writeFailed .wouldBlock, .ready,
    .wrote 3, .wrote 13, .scan, .read 20, .scan, .scan, .readFailed .wouldBlock, .timeout,
    .call .recv,
    .call .tryRecv, .read 18, .scan, .scan]

theorem frames_conserved_sample :
    ∃ c, clientMachine.exec (.start sampleStream) sampleRun = some c ∧
      c.returned = [sampleFrame 0x100 (by decide), sampleFrame 0x101 (by decide)] ∧
      c.returned <+: framesOf sampleStream := by
  have hrun : (clientMachine.exec (.start sampleStream) sampleRun).map Client.returned =
      some [sampleFrame 0x100 (by decide), sampleFrame 0x101 (by decide)] := by decide +kernel
  obtain ⟨c, hc, hreturned⟩ := Option.map_eq_some_iff.mp hrun
  exact ⟨c, hc, hreturned, (frames_conserved sampleStream ⟨sampleRun, hc⟩).2⟩

end Thincan.UnixSocket
