import Thincan.UnixSocket.Client

/-!
# What a step of the client can do

`Client.Move` says once what the steps of the client's machine are, and `Client.Ends` how a
call can end other than with a message of the server.  Everything proved about runs of a
client goes through `Client.move_of_step`.
-/

namespace Thincan.UnixSocket

open Process

/-! ## The messages of a stream -/

/-- A message that is not malformed. -/
def decoded (msgType : UInt8) (payload : Bytes) : Option DecodedMsg :=
  (decodeMsg msgType payload).toOption

theorem decoded_of_ok {msgType : UInt8} {payload : Bytes} {msg : DecodedMsg}
    (h : decodeMsg msgType payload = .ok msg) : decoded msgType payload = some msg := by
  rw [decoded, h]
  rfl

theorem decoded_of_error {msgType : UInt8} {payload : Bytes} {e : UnixCanError}
    (h : decodeMsg msgType payload = .error e) : decoded msgType payload = none := by
  rw [decoded, h]
  rfl

/-- What is wrong with a message is a matter of the protocol. -/
theorem decodeMsg_error {msgType : UInt8} {payload : Bytes} {e : UnixCanError}
    (h : decodeMsg msgType payload = .error e) : ∃ msg, e = .protocol msg := by
  unfold decodeMsg at h
  repeat' split at h
  all_goals first
    | exact ⟨_, (Except.error.inj h).symm⟩
    | cases h

/-- The messages of a stream, up to the first malformed one. -/
abbrev messagesOf (bs : Bytes) : List DecodedMsg := Framing.messages maxPayloadLen decoded bs

/-- What of a stream is behind its messages. -/
abbrev remainderOf (bs : Bytes) : Bytes := Framing.remainder maxPayloadLen decoded bs

/-! ## The buffer -/

namespace UnixCan

variable (c : UnixCan)

@[simp] theorem buffered_extend (bs : Bytes) : (c.extend bs).buffered = c.buffered ++ bs :=
  List.drop_append_of_le_length c.off_le

theorem length_buffered : c.buffered.length = c.rxBytes.length - c.rxOff := List.length_drop

section Advance

variable {c} {total : Nat} (h : c.rxOff + total ≤ c.rxBytes.length)
include h

/-- Draining moves no byte past another. -/
@[simp] theorem buffered_advance : (c.advance total h).buffered = c.buffered.drop total := by
  unfold advance buffered
  rw [List.drop_drop]
  split
  · rfl
  · rfl

@[simp] theorem rxQueue_advance : (c.advance total h).rxQueue = c.rxQueue := by
  unfold advance
  split
  · rfl
  · rfl

@[simp] theorem nextSeq_advance : (c.advance total h).nextSeq = c.nextSeq := by
  unfold advance
  split
  · rfl
  · rfl

end Advance

variable {c} {R : Type} {f : UInt8 → Bytes → Except UnixCanError R}

/-- `with_next_msg` looks at the front of the buffer.  Only a message that the callback takes
changes anything. -/
theorem withNextMsg_cases (c : UnixCan) (f : UInt8 → Bytes → Except UnixCanError R) :
    (readMsg c.buffered = .incomplete ∧ c.withNextMsg f = (.ok none, c)) ∨
      (readMsg c.buffered = .tooLong ∧
        c.withNextMsg f = (.error (.protocol "payload exceeds limit"), c)) ∨
      ∃ msgType payload rest, readMsg c.buffered = .message msgType payload rest ∧
        ((∃ e, f msgType payload = .error e ∧ c.withNextMsg f = (.error e, c)) ∨
          ∃ out c', f msgType payload = .ok out ∧ c.withNextMsg f = (.ok (some out), c') ∧
            c'.buffered = rest ∧ c'.rxQueue = c.rxQueue ∧ c'.nextSeq = c.nextSeq) := by
  have hfront : c.rxBytes.getD c.rxOff 0 = c.buffered.getD 0 0 := by
    rw [buffered, List.getD_eq_getElem?_getD, List.getD_eq_getElem?_getD, List.getElem?_drop, Nat.add_zero]
  have hdrop : ∀ n, c.rxBytes.drop (c.rxOff + n) = c.buffered.drop n := fun n ↦ (List.drop_drop ..).symm
  rw [readMsg, Framing.next_eq, withNextMsg]
  simp only [hfront, hdrop, ← length_buffered]
  split
  · exact .inl ⟨rfl, rfl⟩
  · split
    · exact .inr (.inl ⟨rfl, rfl⟩)
    · split
      · exact .inl ⟨rfl, rfl⟩
      · refine .inr (.inr ⟨_, _, _, rfl, ?_⟩)
        split
        · next e he => exact .inl ⟨e, he, rfl⟩
        · next out hout => exact .inr ⟨out, _, hout, rfl, by simp, by simp, by simp⟩

/-- `next_decoded_msg` takes a message off the buffer. -/
structure Takes (c : UnixCan) (msg : DecodedMsg) (c' : UnixCan) : Prop where
  result : c.nextDecodedMsg = (.ok (some msg), c')
  rxQueue_eq : c'.rxQueue = c.rxQueue
  nextSeq_eq : c'.nextSeq = c.nextSeq
  /-- It is the first message of whatever the stream turns out to be. -/
  front : ∃ msgType payload, decodeMsg msgType payload = .ok msg ∧
    ∀ more, readMsg (c.buffered ++ more) = .message msgType payload (c'.buffered ++ more)

theorem Takes.messagesOf_eq {msg : DecodedMsg} {c' : UnixCan} (h : c.Takes msg c') (more : Bytes) :
    messagesOf (c.buffered ++ more) = msg :: messagesOf (c'.buffered ++ more) := by
  obtain ⟨msgType, payload, hmsg, hfront⟩ := h.front
  exact Framing.messages_cons (hfront more) (decoded_of_ok hmsg)

/-- `next_decoded_msg` takes a message, or there is none in the buffer and nothing changes. -/
theorem nextDecodedMsg_cases (c : UnixCan) :
    (∃ msg c', c.Takes msg c') ∨
      messagesOf c.buffered = [] ∧
        (c.nextDecodedMsg = (.ok none, c) ∨ ∃ e, c.nextDecodedMsg = (.error (.protocol e), c)) := by
  have hstuck : ∀ {p : Prop}, p → Framing.Stuck maxPayloadLen decoded c.buffered →
      messagesOf c.buffered = [] ∧ p := fun hp h ↦ ⟨h.messages_eq, hp⟩
  rcases c.withNextMsg_cases decodeMsg with
    ⟨hnext, hr⟩ | ⟨hnext, hr⟩ | ⟨msgType, payload, rest, hnext, hcallback⟩
  · refine .inr (hstuck (.inl hr) fun tag payload rest hmessage ↦ ?_)
    cases hnext.symm.trans hmessage
  · refine .inr (hstuck (.inr ⟨_, hr⟩) fun tag payload rest hmessage ↦ ?_)
    cases hnext.symm.trans hmessage
  · rcases hcallback with ⟨e, he, hr⟩ | ⟨msg, c', hmsg, hr, rfl, hqueue, hseq⟩
    · obtain ⟨e, rfl⟩ := decodeMsg_error he
      refine .inr (hstuck (.inr ⟨_, hr⟩) fun tag payload' rest' hmessage ↦ ?_)
      obtain ⟨rfl, rfl, rfl⟩ := Framing.Next.message.inj (hnext.symm.trans hmessage)
      exact decoded_of_error he
    · exact .inl ⟨msg, c', hr, hqueue, hseq, msgType, payload, hmsg, Framing.next_append hnext⟩

end UnixCan

/-! ## Where the code goes -/

/-- What the call waits for. -/
def Pc.goal : Pc → Option Goal
  | .writing _ _ goal => goal
  | .pollOut _ _ goal => goal
  | .scanning goal => some goal
  | .reading goal => some goal
  | .pollIn goal => some goal
  | .pollReady => none

/-- What the call has still to write. -/
def Pc.rest : Pc → Bytes
  | .writing bytes later _ => bytes ++ later.flatten
  | .pollOut bytes later _ => bytes ++ later.flatten
  | _ => []

/-- The call is at a `poll` that its deadline can end. -/
def Pc.timed : Pc → Bool
  | .pollOut _ _ goal => goal.any Goal.timed
  | .pollIn goal => goal.timed
  | _ => false

def Next.goal : Next → Option Goal
  | .goto pc => pc.goal
  | .ret _ => none

def Next.rest : Next → Bytes
  | .goto pc => pc.rest
  | .ret _ => []

/-- Writing does not change what the call waits for, and a call that waits for nothing has
returned when all is written. -/
theorem writeNext_cases (parts : List Bytes) (goal : Option Goal) :
    (∃ pc, writeNext parts goal = .goto pc ∧ pc.goal = goal ∧ pc.rest = parts.flatten ∧
        ∀ g, pc ≠ .reading g) ∨
      writeNext parts goal = .ret (.ok none) ∧ goal = none ∧ parts.flatten = [] := by
  induction parts with
  | nil =>
      cases goal with
      | none => exact .inr ⟨rfl, rfl, rfl⟩
      | some goal => exact .inl ⟨_, rfl, rfl, rfl, fun g hg ↦ by cases hg⟩
  | cons part later ih =>
      rw [writeNext, List.flatten_cons]
      split
      · next hempty =>
          rw [List.isEmpty_iff.mp hempty, List.nil_append]
          exact ih
      · exact .inl ⟨_, rfl, rfl, rfl, fun g hg ↦ by cases hg⟩

theorem rest_writeNext (parts : List Bytes) (goal : Option Goal) :
    (writeNext parts goal).rest = parts.flatten := by
  rcases writeNext_cases parts goal with ⟨pc, hnext, -, hrest, -⟩ | ⟨hnext, -, hempty⟩
  · rw [hnext]
    exact hrest
  · rw [hnext, hempty]
    rfl

theorem goal_of_writeNext {parts : List Bytes} {goal : Option Goal} {pc : Pc}
    (h : writeNext parts goal = .goto pc) : pc.goal = goal ∧ ∀ g, pc ≠ .reading g := by
  rcases writeNext_cases parts goal with ⟨pc', hnext, hgoal, -, hread⟩ | ⟨hnext, -⟩
  · obtain rfl := Next.goto.inj (hnext.symm.trans h)
    exact ⟨hgoal, hread⟩
  · cases hnext.symm.trans h

theorem goal_of_writeMsgDeadline {msgType : UInt8} {payload : Bytes} {goal : Option Goal} {pc : Pc}
    (h : writeMsgDeadline msgType payload goal = .goto pc) : pc.goal = goal ∧ ∀ g, pc ≠ .reading g := by
  unfold writeMsgDeadline at h
  split at h
  · cases h
  · exact goal_of_writeNext h

theorem writeMsgDeadline_eq (msgType : UInt8) {payload : Bytes} (goal : Option Goal)
    (h : payload.length ≤ 0xFFFFFFFF) :
    writeMsgDeadline msgType payload goal =
      writeNext [msgType :: leBytes 4 payload.length, payload] goal :=
  if_neg (Nat.not_lt.mpr h)

namespace Client

variable (c : Client)

/-! ## Moves -/

/-- How a call ends without a message of the server. -/
inductive Ends : Pc → Label → Ret → Prop where
  | /-- The socket takes nothing any more. -/
    writeZero {bytes : Bytes} {later : List Bytes} {goal : Option Goal} :
      Ends (.writing bytes later goal) (.wrote 0) (.error .disconnected)
  | writeFailed {bytes : Bytes} {later : List Bytes} {goal : Option Goal} {kind : IoErrorKind}
      (hblock : kind ≠ .wouldBlock) (hint : kind ≠ .interrupted) :
      Ends (.writing bytes later goal) (.writeFailed kind) (.error (.ofIo kind))
  | timeout {pc : Pc} (htimed : pc.timed = true) : Ends pc .timeout (.error .timeout)
  | pollFailed {pc : Pc} {kind : IoErrorKind} (hint : kind ≠ .interrupted) :
      Ends pc (.pollFailed kind) (.error (.io kind))
  | malformed {goal : Goal} {e : String}
      (hnext : c.can.nextDecodedMsg = (.error (.protocol e), c.can)) :
      Ends (.scanning goal) .scan (.error (.protocol e))
  | /-- `try_recv` has found no frame. -/
    noFrame : Ends (.scanning .buffered) .scan (.error .wouldBlock)
  | eof {goal : Goal} (hunread : c.unread = []) :
      Ends (.reading goal) (.read 0) (.error .disconnected)
  | readFailed {goal : Goal} {kind : IoErrorKind} (hblock : kind ≠ .wouldBlock) :
      Ends (.reading goal) (.readFailed kind) (.error (.ofIo kind))
  | /-- `wait_not_empty` is through. -/
    notEmpty : Ends .pollReady .ready (.ok none)

/-- What one step can do. -/
inductive Move (l : Label) : Client → Prop where
  | begin {call : Call} (hl : l = .call call) (hidle : c.task = none) (hconnected : c.connected = true) :
      Move l (c.begin call)
  | /-- The call waits for something else.  Before it reads it has found no message. -/
    wait {call : Call} {pc pc' : Pc} (htask : c.task = some (call, pc)) (hgoal : pc'.goal = pc.goal)
      (hrest : pc'.rest = pc.rest)
      (hread : ∀ goal, pc' = .reading goal → messagesOf c.can.buffered = []) :
      Move l { c with task := some (call, pc') }
  | wrote {call : Call} {bytes : Bytes} {later : List Bytes} {goal : Option Goal} {n : Nat}
      (htask : c.task = some (call, .writing bytes later goal)) (hn : n ≤ bytes.length) :
      Move l ({ c with written := c.written ++ bytes.take n }.go call
        (writeNext (bytes.drop n :: later) goal))
  | read {call : Call} {goal : Goal} {n : Nat} (htask : c.task = some (call, .reading goal))
      (hn : n ≤ c.unread.length) :
      Move l { c with
        can := c.can.extend (c.unread.take n), unread := c.unread.drop n,
        task := some (call, .scanning goal) }
  | msg {call : Call} {goal : Goal} {msg : DecodedMsg} {can : UnixCan}
      (htask : c.task = some (call, .scanning goal)) (htakes : c.can.Takes msg can) :
      Move l (c.onMsg call goal msg can)
  | ret {call : Call} {pc : Pc} {r : Ret} (htask : c.task = some (call, pc)) (hends : c.Ends pc l r) :
      Move l (c.go call (.ret r))

variable {c} {c' : Client} {call : Call} {goal : Goal}

/-- A system call that was interrupted is made again. -/
theorem move_again {pc : Pc} {l : Label} (htask : c.task = some (call, pc))
    (hpc : ∀ goal, pc ≠ .reading goal) : c.Move l c := by
  have hmove : c.Move l { c with task := some (call, pc) } :=
    .wait htask rfl rfl fun goal h ↦ absurd h (hpc goal)
  rwa [← htask] at hmove

theorem move_onWrote {bytes : Bytes} {later : List Bytes} {g : Option Goal} {n : Nat}
    (htask : c.task = some (call, .writing bytes later g))
    (h : c.onWrote call bytes later g n = some c') : c.Move (.wrote n) c' := by
  unfold onWrote at h
  split at h
  · cases h
  · next hn =>
      split at h
      · next hzero =>
          subst hzero
          obtain rfl := Option.some.inj h
          exact .ret htask .writeZero
      · obtain rfl := Option.some.inj h
        exact .wrote htask (Nat.not_lt.mp hn)

theorem move_onWriteFailed {bytes : Bytes} {later : List Bytes} {g : Option Goal}
    (htask : c.task = some (call, .writing bytes later g)) (kind : IoErrorKind) :
    c.Move (.writeFailed kind) (c.onWriteFailed call bytes later g kind) := by
  cases kind with
  | wouldBlock => exact .wait htask rfl rfl fun goal h ↦ by cases h
  | interrupted => exact move_again htask fun goal h ↦ by cases h
  | timedOut => exact .ret htask (.writeFailed (by decide) (by decide))
  | other => exact .ret htask (.writeFailed (by decide) (by decide))

theorem move_onPollFailed {pc : Pc} (htask : c.task = some (call, pc))
    (hpc : ∀ goal, pc ≠ .reading goal) (kind : IoErrorKind) :
    c.Move (.pollFailed kind) (c.onPollFailed call kind) := by
  cases kind with
  | interrupted => exact move_again htask hpc
  | wouldBlock => exact .ret htask (.pollFailed (by decide))
  | timedOut => exact .ret htask (.pollFailed (by decide))
  | other => exact .ret htask (.pollFailed (by decide))

theorem move_onTimeout {pc : Pc} (htask : c.task = some (call, pc))
    (h : c.onTimeout call pc.timed = some c') : c.Move .timeout c' := by
  unfold onTimeout at h
  split at h
  · next htimed =>
      obtain rfl := Option.some.inj h
      exact .ret htask (.timeout htimed)
  · cases h

theorem move_onScan (htask : c.task = some (call, .scanning goal)) :
    c.Move .scan (c.onScan call goal) := by
  unfold onScan
  rcases c.can.nextDecodedMsg_cases with ⟨msg, can, htakes⟩ | ⟨hnone, hr | ⟨e, hr⟩⟩
  · rw [htakes.result]
    exact .msg htask htakes
  · rw [hr]
    dsimp only
    split
    · next hgoal =>
        subst hgoal
        exact .ret htask .noFrame
    · exact .wait htask rfl rfl fun _ _ ↦ hnone
  · rw [hr]
    exact .ret htask (.malformed hr)

theorem move_onRead {n : Nat} (htask : c.task = some (call, .reading goal))
    (h : c.onRead call goal n = some c') : c.Move (.read n) c' := by
  unfold onRead at h
  split at h
  · next hzero =>
      subst hzero
      split at h
      · next hempty =>
          obtain rfl := Option.some.inj h
          exact .ret htask (.eof (List.isEmpty_iff.mp hempty))
      · cases h
  · split at h
    · next hn =>
        obtain rfl := Option.some.inj h
        exact .read htask hn.2
    · cases h

theorem move_onReadFailed (htask : c.task = some (call, .reading goal)) (kind : IoErrorKind) :
    c.Move (.readFailed kind) (c.onReadFailed call goal kind) := by
  cases kind with
  | wouldBlock =>
      refine .wait htask ?_ ?_ fun g h ↦ ?_
      · split
        · rfl
        · rfl
      · split
        · rfl
        · rfl
      · split at h
        · cases h
        · cases h
  | timedOut => exact .ret htask (.readFailed (by decide))
  | interrupted => exact .ret htask (.readFailed (by decide))
  | other => exact .ret htask (.readFailed (by decide))

theorem move_resume {pc : Pc} {l : Label} (htask : c.task = some (call, pc))
    (h : c.resume call pc l = some c') : c.Move l c' := by
  unfold resume at h
  split at h
  · exact move_onWrote htask h
  · next kind =>
      obtain rfl := Option.some.inj h
      exact move_onWriteFailed htask kind
  · obtain rfl := Option.some.inj h
    exact .wait htask rfl rfl fun goal h ↦ by cases h
  · exact move_onTimeout htask h
  · next kind =>
      obtain rfl := Option.some.inj h
      exact move_onPollFailed htask (fun goal h ↦ by cases h) kind
  · obtain rfl := Option.some.inj h
    exact move_onScan htask
  · exact move_onRead htask h
  · next kind =>
      obtain rfl := Option.some.inj h
      exact move_onReadFailed htask kind
  · obtain rfl := Option.some.inj h
    exact .wait htask rfl rfl fun goal h ↦ by cases h
  · exact move_onTimeout htask h
  · next kind =>
      obtain rfl := Option.some.inj h
      exact move_onPollFailed htask (fun goal h ↦ by cases h) kind
  · obtain rfl := Option.some.inj h
    exact .ret htask .notEmpty
  · next kind =>
      obtain rfl := Option.some.inj h
      exact move_onPollFailed htask (fun goal h ↦ by cases h) kind
  · cases h

/-- Every step is a move. -/
theorem move_of_step {l : Label} (h : c.step l = some c') : c.Move l c' := by
  unfold step at h
  split at h
  · cases h
  · next _ hidle =>
      split at h
      · next hconnected =>
          obtain rfl := Option.some.inj h
          exact .begin rfl hidle hconnected
      · cases h
  · next htask => exact move_resume htask h
  · cases h

end Client

end Thincan.UnixSocket
