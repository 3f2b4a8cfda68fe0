import Thincan.UnixSocket.Steps

/-!
# Three readers and writers of one grammar

A message on the socket is a type byte, a length and a payload of at most
`MAX_PAYLOAD_LEN` bytes.  The client reads messages out of a buffer that grows with every
`read` and is compacted now and then (`read_more_once`, `with_next_msg`); the server waits
for the bytes of each (`read_msg_into`); and messages are written by `write_msg` and, in two
parts, by `write_msg_deadline`.

`Framing.parse` says what the messages of a whole stream are.  A `Reader` drives the
client's buffer with any reads and any calls of `with_next_msg`, and `Reader.Sound` is the
invariant that ties it to `parse`: what was read is the messages that were yielded, byte for
byte, and then what is buffered.
-/

namespace Thincan.UnixSocket

open Process

/-- The type and the payload of a message. -/
abbrev Msg := UInt8 × Bytes

/-! ## The client's buffer -/

/-- `read_more_once`, with the answer of `read`. -/
def UnixCan.readMoreOnce (c : UnixCan) : Except IoErrorKind Bytes → Except UnixCanError Bool × UnixCan
  | .ok [] => (.error .disconnected, c)
  | .ok bs => (.ok true, c.extend bs)
  | .error .wouldBlock => (.ok false, c)
  | .error kind => (.error (.ofIo kind), c)

/-- A client at its `read` goes on with `read_more_once`. -/
theorem Client.can_onRead {c c' : Client} {call : Call} {goal : Goal} {n : Nat}
    (h : c.onRead call goal n = some c') :
    c'.can = (c.can.readMoreOnce (.ok (c.unread.take n))).2 := by
  unfold Client.onRead at h
  split at h
  · next hzero =>
      split at h
      · obtain rfl := Option.some.inj h
        rw [hzero, List.take_zero]
        rfl
      · cases h
  · next hpos =>
      split at h
      · next hn =>
          obtain rfl := Option.some.inj h
          change c.can.extend (c.unread.take n) = _
          cases htake : c.unread.take n with
          | nil =>
              have hlen := congrArg List.length htake
              rw [List.length_take, List.length_nil] at hlen
              omega
          | cons b bs => rfl
      · cases h

/-- A callback that accepts every payload. -/
def accept (msgType : UInt8) (payload : Bytes) : Except UnixCanError Msg := .ok (msgType, payload)

/-- What can be done with the buffer. -/
inductive BufferOp where
  | read (answer : Except IoErrorKind Bytes)
  | next

/-- A client's buffer, with all that was read into it and the messages that came out. -/
structure Reader where
  can : UnixCan := {}
  stream : Bytes := []
  yielded : List Msg := []

namespace Reader

/-- One `read_more_once` or `with_next_msg`. -/
def op (r : Reader) : BufferOp → Reader
  | .read answer =>
      { r with can := (r.can.readMoreOnce answer).2, stream := r.stream ++ answer.toOption.getD [] }
  | .next =>
      match r.can.withNextMsg accept with
      | (.ok (some m), can) => { r with can := can, yielded := r.yielded ++ [m] }
      | (_, can) => { r with can := can }

/-- One after the other. -/
def run (r : Reader) (ops : List BufferOp) : Reader := ops.foldl op r

/-- `with_next_msg` has nothing more to give. -/
def Exhausted (r : Reader) : Prop := ∀ m can, r.can.withNextMsg accept ≠ (.ok (some m), can)

/-- **What was read is what was yielded, and then what is buffered.** -/
structure Sound (r : Reader) : Prop where
  stream_eq : r.stream = Framing.frames r.yielded ++ r.can.buffered
  within : ∀ m ∈ r.yielded, m.2.length ≤ maxPayloadLen

variable {r : Reader}

theorem buffered_readMoreOnce (c : UnixCan) (answer : Except IoErrorKind Bytes) :
    (c.readMoreOnce answer).2.buffered = c.buffered ++ answer.toOption.getD [] := by
  unfold UnixCan.readMoreOnce
  split
  · exact (List.append_nil _).symm
  · exact c.buffered_extend _
  · exact (List.append_nil _).symm
  · exact (List.append_nil _).symm

/-- `with_next_msg` yields the first message of the buffer, or there is none. -/
theorem op_next_cases (r : Reader) :
    (∃ m can, r.op .next = { r with can := can, yielded := r.yielded ++ [m] } ∧
        readMsg r.can.buffered = .message m.1 m.2 can.buffered ∧ ¬r.Exhausted) ∨
      r.op .next = r ∧ Framing.parse maxPayloadLen r.can.buffered = [] := by
  unfold op
  rcases r.can.withNextMsg_cases accept with
    ⟨hnext, hr⟩ | ⟨hnext, hr⟩ | ⟨msgType, payload, rest, hnext, ⟨e, he, -⟩ | ⟨m, can, hm, hr, rfl, -⟩⟩
  · rw [hr]
    refine .inr ⟨rfl, Framing.parse_eq_nil fun tag payload rest h ↦ ?_⟩
    cases hnext.symm.trans h
  · rw [hr]
    refine .inr ⟨rfl, Framing.parse_eq_nil fun tag payload rest h ↦ ?_⟩
    cases hnext.symm.trans h
  · cases he
  · obtain rfl := Except.ok.inj hm
    refine .inl ⟨(msgType, payload), can, ?_, hnext, fun hex ↦ hex _ can hr⟩
    rw [hr]

theorem Sound.op (h : r.Sound) (o : BufferOp) : (r.op o).Sound := by
  cases o with
  | read answer =>
      refine ⟨?_, h.within⟩
      change r.stream ++ _ = Framing.frames r.yielded ++ (r.can.readMoreOnce answer).2.buffered
      rw [h.stream_eq, buffered_readMoreOnce, List.append_assoc]
  | next =>
      rcases r.op_next_cases with ⟨m, can, hop, hnext, -⟩ | ⟨hop, -⟩
      · obtain ⟨hbytes, hlen⟩ := Framing.eq_frame_of_next hnext
        rw [hop]
        constructor
        · rw [h.stream_eq, hbytes, Framing.frames_snoc, List.append_assoc]
        · intro m' hm'
          rcases List.mem_append.mp hm' with hm' | hm'
          · exact h.within m' hm'
          · rw [List.mem_singleton.mp hm']
            exact hlen
      · rwa [hop]

theorem Sound.run (h : r.Sound) (ops : List BufferOp) : (r.run ops).Sound := by
  induction ops generalizing r with
  | nil => exact h
  | cons o ops ih => exact ih (h.op o)

theorem Sound.start : ({} : Reader).Sound := ⟨rfl, nofun⟩

/-- The messages of a stream that goes on: those that were yielded, and those of what is
buffered and still to come. -/
theorem Sound.parse_eq (h : r.Sound) (more : Bytes) :
    Framing.parse maxPayloadLen (r.stream ++ more) =
      r.yielded ++ Framing.parse maxPayloadLen (r.can.buffered ++ more) := by
  rw [h.stream_eq, List.append_assoc, Framing.parse_frames_append (by decide) h.within]

/-- Nothing is yielded that is not in the stream, whatever is still to come of it. -/
theorem Sound.yields_of_stream (h : r.Sound) {stream : Bytes} (hs : r.stream <+: stream) :
    r.yielded <+: Framing.parse maxPayloadLen stream := by
  obtain ⟨more, rfl⟩ := hs
  rw [h.parse_eq]
  exact List.prefix_append _ _

/-- Calls that are repeated yield the messages of the buffer one after the other. -/
theorem run_replicate_next (h : r.Sound) (n : Nat) :
    (r.run (List.replicate n .next)).yielded =
      r.yielded ++ (Framing.parse maxPayloadLen r.can.buffered).take n := by
  induction n generalizing r with
  | zero => exact (List.append_nil _).symm
  | succ n ih =>
      rw [List.replicate_succ]
      change ((r.op .next).run (List.replicate n .next)).yielded = _
      rw [ih (h.op .next)]
      rcases r.op_next_cases with ⟨m, can, hop, hnext, -⟩ | ⟨hop, hnil⟩
      · rw [hop, Framing.parse_cons hnext, List.take_succ_cons, List.append_assoc]
        rfl
      · rw [hop, hnil, List.take_nil, List.take_nil]

/-- A buffer with no message left has yielded all there is. -/
theorem Sound.yielded_eq (h : r.Sound) (hex : r.Exhausted) :
    r.yielded = Framing.parse maxPayloadLen r.stream := by
  have hparse := h.parse_eq []
  rw [List.append_nil, List.append_nil] at hparse
  rcases r.op_next_cases with ⟨m, can, -, -, hnot⟩ | ⟨-, hnil⟩
  · exact absurd hex hnot
  · rw [hparse, hnil, List.append_nil]

end Reader

/-! ## The server's loop -/

/-- `read_msg_into` fails in two ways. -/
inductive ReadMsgError where
  | unexpectedEof
  | /-- "payload exceeds limit" -/
    invalidData
deriving DecidableEq, Repr

/-- `read_msg_into` on a stream that arrives in pieces: the message, and the pieces that are
left. -/
def readMsgInto (reader : List Bytes) : Except ReadMsgError (Msg × List Bytes) :=
  match Framing.readExact 5 reader with
  | none => .error .unexpectedEof
  | some (header, reader) =>
      let msgType := header.getD 0 0
      let len := leNat ((header.drop 1).take 4)
      if len > maxPayloadLen then .error .invalidData
      else
        match Framing.readExact len reader with
        | none => .error .unexpectedEof
        | some (payload, reader) => .ok ((msgType, payload), reader)

/-- `read_msg_into` takes the message at the front of the stream, or there is none. -/
theorem readMsgInto_cases (reader : List Bytes) :
    (∃ m left, readMsgInto reader = .ok (m, left) ∧
        readMsg reader.flatten = .message m.1 m.2 left.flatten) ∨
      (readMsgInto reader = .error .invalidData ∧ readMsg reader.flatten = .tooLong) ∨
      readMsgInto reader = .error .unexpectedEof ∧ readMsg reader.flatten = .incomplete := by
  rw [readMsgInto, readMsg, Framing.next_eq]
  rcases Framing.readExact_spec 5 reader with ⟨hshort, hnone⟩ | ⟨hlong, left, hleft, hsome⟩
  · rw [hnone, if_pos hshort]
    exact .inr (.inr ⟨rfl, rfl⟩)
  rw [hsome, if_neg (Nat.not_lt.mpr hlong)]
  have hheader : ((reader.flatten.take 5).drop 1).take 4 = (reader.flatten.drop 1).take 4 := by
    rw [List.drop_take, List.take_take]
    rfl
  have htype : (reader.flatten.take 5).getD 0 0 = reader.flatten.getD 0 0 := by
    rw [List.getD_eq_getElem?_getD, List.getElem?_take_of_lt (by decide), ← List.getD_eq_getElem?_getD]
  simp only [hheader, htype]
  split
  · exact .inr (.inl ⟨rfl, rfl⟩)
  rcases Framing.readExact_spec (leNat ((reader.flatten.drop 1).take 4)) left with
    ⟨hshort, hnone⟩ | ⟨hlong', left', hleft', hsome'⟩
  · rw [hleft, List.length_drop] at hshort
    rw [hnone, if_pos (by omega)]
    exact .inr (.inr ⟨rfl, rfl⟩)
  · rw [hleft, List.length_drop] at hlong'
    rw [hsome', if_neg (by omega)]
    refine .inl ⟨_, left', rfl, ?_⟩
    rw [hleft', hleft, List.drop_drop]

/-- The loop around `read_msg_into`, as far as it gets messages. -/
def readLoop (reader : List Bytes) : List Msg :=
  match _h : readMsgInto reader with
  | .ok (m, left) => m :: readLoop left
  | .error _ => []
termination_by reader.flatten.length
decreasing_by
  rcases readMsgInto_cases reader with ⟨m', left', hok, hnext⟩ | ⟨herr, -⟩ | ⟨herr, -⟩
  · obtain ⟨rfl, rfl⟩ := Prod.mk.inj (Except.ok.inj (_h.symm.trans hok))
    have := Framing.length_of_next hnext
    omega
  · cases _h.symm.trans herr
  · cases _h.symm.trans herr

theorem readLoop_of_ok {reader left : List Bytes} {m : Msg} (h : readMsgInto reader = .ok (m, left)) :
    readLoop reader = m :: readLoop left := by
  rw [readLoop]
  split
  · next m' left' hok =>
      obtain ⟨rfl, rfl⟩ := Prod.mk.inj (Except.ok.inj (h.symm.trans hok))
      rfl
  · next e herr => cases h.symm.trans herr

theorem readLoop_of_error {reader : List Bytes} {e : ReadMsgError}
    (h : readMsgInto reader = .error e) : readLoop reader = [] := by
  rw [readLoop]
  split
  · next m' left' hok => cases h.symm.trans hok
  · rfl

/-- **The server reads the messages of the stream**, however it arrives. -/
theorem readLoop_eq (reader : List Bytes) :
    readLoop reader = Framing.parse maxPayloadLen reader.flatten := by
  induction hn : reader.flatten.length using Nat.strong_induction_on generalizing reader with
  | h n ih =>
      rcases readMsgInto_cases reader with ⟨m, left, hok, hnext⟩ | ⟨herr, hnext⟩ | ⟨herr, hnext⟩
      · have hlen := Framing.length_of_next hnext
        rw [readLoop_of_ok hok, Framing.parse_cons hnext, ih _ (by omega) left rfl]
      · rw [readLoop_of_error herr, Framing.parse_eq_nil fun tag payload rest h ↦ ?_]
        cases hnext.symm.trans h
      · rw [readLoop_of_error herr, Framing.parse_eq_nil fun tag payload rest h ↦ ?_]
        cases hnext.symm.trans h

/-! ## The writers -/

/-- `write_msg` for one message after the other. -/
def writeMsgs : List Msg → Except String Bytes
  | [] => .ok []
  | m :: ms => do
      let bytes ← writeMsg m.1 m.2
      let rest ← writeMsgs ms
      return bytes ++ rest

/-- `write_msg` writes what fits a `u32`. -/
theorem writeMsgs_eq {ms : List Msg} (h : ∀ m ∈ ms, m.2.length ≤ maxPayloadLen) :
    writeMsgs ms = .ok (Framing.frames ms) := by
  induction ms with
  | nil => rfl
  | cons m ms ih =>
      have hm : ¬m.2.length > 0xFFFFFFFF :=
        Nat.not_lt.mpr (Nat.le_trans (h m List.mem_cons_self) (by decide))
      rw [writeMsgs, writeMsg, if_neg hm, ih fun m' hm' ↦ h m' (List.mem_cons_of_mem m hm')]
      rfl

/-- `write_msg_deadline` has the same bytes to write. -/
theorem rest_writeMsgDeadline (msgType : UInt8) {payload : Bytes} (goal : Option Goal)
    (h : payload.length ≤ 0xFFFFFFFF) :
    (writeMsgDeadline msgType payload goal).rest = Framing.frame msgType payload := by
  rw [writeMsgDeadline_eq msgType goal h, rest_writeNext, Framing.frame]
  simp

/-! ## Agreement -/

/-- Only a message that the callback takes changes anything. -/
theorem UnixCan.withNextMsg_error {R : Type} {c c' : UnixCan}
    {f : UInt8 → Bytes → Except UnixCanError R} {e : UnixCanError}
    (h : c.withNextMsg f = (.error e, c')) : c' = c := by
  rcases c.withNextMsg_cases f with
    ⟨-, hr⟩ | ⟨-, hr⟩ | ⟨msgType, payload, rest, -, ⟨e', -, hr⟩ | ⟨out, can, -, hr, -⟩⟩
  · cases h.symm.trans hr
  · exact (Prod.mk.inj (h.symm.trans hr)).2
  · exact (Prod.mk.inj (h.symm.trans hr)).2
  · cases h.symm.trans hr

/-- **All readers and writers of the socket agree on the messages of a stream.** -/
structure FramingAgrees : Prop where
  /-- What the client yields is a prefix of the messages of the stream it reads from. -/
  yields : ∀ (stream : Bytes) (ops : List BufferOp), (Reader.run {} ops).stream <+: stream →
    (Reader.run {} ops).yielded <+: Framing.parse maxPayloadLen stream
  /-- It is all of them when the stream was read and `with_next_msg` gives no more. -/
  exhausts : ∀ ops : List BufferOp, (Reader.run {} ops).Exhausted →
    (Reader.run {} ops).yielded = Framing.parse maxPayloadLen (Reader.run {} ops).stream
  /-- That comes with enough calls. -/
  ends : ∀ (ops : List BufferOp) (n : Nat),
    (Framing.parse maxPayloadLen (Reader.run {} ops).stream).length ≤ n →
    (Reader.run {} (ops ++ List.replicate n .next)).yielded =
      Framing.parse maxPayloadLen (Reader.run {} ops).stream
  /-- The buffer has lost, repeated and moved no byte. -/
  conserves : ∀ ops : List BufferOp, (Reader.run {} ops).stream =
    Framing.frames (Reader.run {} ops).yielded ++
      (Reader.run {} ops).can.rxBytes.drop (Reader.run {} ops).can.rxOff
  /-- An error leaves the buffer as it is. -/
  keeps : ∀ (R : Type) (f : UInt8 → Bytes → Except UnixCanError R) (c : UnixCan) (e : UnixCanError)
    (c' : UnixCan), c.withNextMsg f = (.error e, c') → c' = c
  /-- The server reads the same messages, however the stream arrives. -/
  server : ∀ reader : List Bytes, readLoop reader = Framing.parse maxPayloadLen reader.flatten
  /-- Messages that are written, by either writer, are read back. -/
  writes : ∀ ms : List Msg, (∀ m ∈ ms, m.2.length ≤ maxPayloadLen) →
    (∃ bytes, writeMsgs ms = .ok bytes ∧ Framing.parse maxPayloadLen bytes = ms) ∧
      ∀ m ∈ ms, ∀ goal, writeMsg m.1 m.2 = .ok (writeMsgDeadline m.1 m.2 goal).rest

theorem framing_agrees : FramingAgrees where
  yields stream ops h := (Reader.Sound.start.run ops).yields_of_stream h
  exhausts ops h := (Reader.Sound.start.run ops).yielded_eq h
  ends ops n h := by
    have hs := Reader.Sound.start.run ops
    have hparse := hs.parse_eq []
    rw [List.append_nil, List.append_nil] at hparse
    have hlen : (Framing.parse maxPayloadLen (Reader.run {} ops).can.buffered).length ≤ n := by
      rw [hparse, List.length_append] at h
      omega
    rw [Reader.run, List.foldl_append]
    change ((Reader.run {} ops).run (List.replicate n .next)).yielded = _
    rw [Reader.run_replicate_next hs, List.take_of_length_le hlen, ← hparse]
  conserves ops := (Reader.Sound.start.run ops).stream_eq
  keeps R f c e c' h := UnixCan.withNextMsg_error h
  server := readLoop_eq
  writes ms h := by
    refine ⟨⟨_, writeMsgs_eq h, ?_⟩, ?_⟩
    · exact Framing.parse_frames_eq_self (by decide) h
    · intro m hm goal
      have hle : m.2.length ≤ 0xFFFFFFFF := Nat.le_trans (h m hm) (by decide)
      rw [rest_writeMsgDeadline m.1 goal hle, writeMsg, if_neg (Nat.not_lt.mpr hle)]

end Thincan.UnixSocket
