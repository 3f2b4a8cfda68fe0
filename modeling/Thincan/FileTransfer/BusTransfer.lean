import Thincan.Bus.Stack
import Thincan.FileTransfer.Network

/-!
# The parties of a file transfer on a bus

A `Network` hands messages over as values, and a predicate says what it can deliver.
Here the sender and the receive calls of its peer are tasks of two stations of a
`Bus.Stack`, and nothing is said about deliveries: a message is encoded into the
buffer of its station, read from there by the endpoint, put into a mailbox by a pump of
the other station, taken by a receive call and decoded again, while anything else may
happen on the bus.

A function of the bundle makes one call on the bus at a time.  `BusTransfer.Label.issueSend`
makes it and `resumeSend` continues with what it has returned; a timeout around a wait
drops the receive call.  A task that is dropped from outside never returns, so a
`send_file` that is cancelled is a `BusTransfer` in which the sender does not go on.
-/

namespace Thincan.FileTransfer

open Process

/-! ## Values on the bus -/

/-- The implementations of `EncodeCapnp`: that of `alloc_encode.rs`, whose scratch has some number
of words, and that of `heapless_encode.rs`. -/
inductive Encoder where
  | alloc (scratch : Nat)
  | heapless
deriving DecidableEq, Repr

/-- `EncodeCapnp::encode`. -/
def Encoder.encode (e : Encodable) : Encoder → Bytes → Encoded
  | .alloc scratch => e.encodeAlloc scratch
  | .heapless => e.encodeSegmentedRoot

/-- What an encoder reports and leaves in `out`. -/
def Encoded.into (out : Bytes) : Encoded → Except ErrorKind Nat × Bytes
  | some (.ok (used, out')) => (.ok used, out')
  | some (.error e) => (.error e, out)
  -- a panic, of which there is none for values that have an encoding (`Writes.encodes`)
  | none => (.error .other, out)

section Values

variable {e : Encodable} {out : Bytes}

theorem length_splice_zero {bytes : Bytes} (h : bytes.length ≤ out.length) :
    (Capnp.splice out 0 bytes).length = out.length := by
  simp only [Capnp.splice, List.length_append, List.length_take, List.length_drop]
  omega

theorem Encodable.length_le_of_build {len : Nat} {bytes : Bytes}
    (h : e.build len = some (.ok bytes)) : bytes.length ≤ e.maxEncodedLen := by
  obtain ⟨root, -, h⟩ := Option.map_eq_some_iff.mp h
  split at h
  · cases h
  · next hle =>
      rw [← Except.ok.inj h]
      exact Nat.le_of_not_lt hle

theorem Encodable.exists_of_map {f : Bytes → Nat × Bytes} {r : Option (Except ErrorKind Bytes)}
    {p : Nat × Bytes} (h : r.map (·.map f) = some (.ok p)) :
    ∃ bytes, r = some (.ok bytes) ∧ f bytes = p := by
  obtain ⟨r, rfl, hr⟩ := Option.map_eq_some_iff.mp h
  cases r with
  | error e => cases hr
  | ok bytes => exact ⟨bytes, rfl, Except.ok.inj hr⟩

/-- Where there is no room, nothing is encoded. -/
theorem Encoder.encode_small (k : Encoder) (h : out.length < e.maxEncodedLen) :
    k.encode e out = some (.error .other) := by
  cases k with
  | alloc scratch => exact if_pos h
  | heapless => exact if_pos h

/-- Where there is room, the output keeps its length. -/
theorem Encoder.length_encode {k : Encoder} {used : Nat} {out' : Bytes}
    (hout : e.maxEncodedLen ≤ out.length) (h : k.encode e out = some (.ok (used, out'))) :
    out'.length = out.length := by
  cases k with
  | alloc scratch =>
      rw [encode, Encodable.encodeAlloc, if_neg (Nat.not_lt_of_le hout), Encodable.buildAndCopy] at h
      split at h
      · cases h
      · obtain ⟨bytes, hbuild, heq⟩ := Encodable.exists_of_map h
        rw [← (Prod.mk.inj heq).2]
        exact length_splice_zero ((Encodable.length_le_of_build hbuild).trans hout)
  | heapless =>
      rw [encode, Encodable.encodeSegmentedRoot, if_neg (Nat.not_lt_of_le hout)] at h
      obtain ⟨bytes, hbuild, heq⟩ := Encodable.exists_of_map h
      have hzero : (Capnp.splice out 0 (List.replicate e.maxEncodedLen 0)).length = out.length :=
        length_splice_zero (by rwa [List.length_replicate])
      rw [← (Prod.mk.inj heq).2, length_splice_zero, hzero]
      rw [hzero]
      exact (Encodable.length_le_of_build hbuild).trans hout

variable (e) in
/-- A value of the bundle, as the bus takes it. -/
def Encodable.value (k : Encoder) : Bus.Value where
  maxEncodedLen := e.maxEncodedLen
  encode out := (k.encode e out).into out
  length_encode out := by
    rcases Nat.lt_or_ge out.length e.maxEncodedLen with hsmall | hfits
    · rw [k.encode_small hsmall]
      rfl
    · cases h : k.encode e out with
      | none => rfl
      | some r =>
          cases r with
          | error e => rfl
          | ok p => exact Encoder.length_encode hfits h

/-- Both implementations leave the encoding of a value in the output. -/
theorem Encodable.Writes.encode {body : Bytes} (h : e.Writes body) (k : Encoder)
    (hout : e.maxEncodedLen ≤ out.length) :
    ∃ out', k.encode e out = some (.ok (body.length, out')) ∧ out'.take body.length = body := by
  cases k with
  | alloc scratch => exact ⟨_, h.encodeAlloc scratch hout, take_splice_zero _ _⟩
  | heapless => exact ⟨_, h.encodeSegmentedRoot hout, take_splice_zero _ _⟩

theorem Encodable.Writes.encodes {body : Bytes} (h : e.Writes body) (k : Encoder) :
    (e.value k).Encodes body := by
  refine ⟨h.length_le, fun out hout ↦ ?_⟩
  obtain ⟨out', heq, htake⟩ : ∃ out', k.encode e out = some (.ok (body.length, out')) ∧
      out'.take body.length = body := h.encode k hout.ge
  show (Encoded.into out (k.encode e out)).1 = _ ∧ (Encoded.into out (k.encode e out)).2.take _ = _
  rw [heq]
  exact ⟨rfl, htake⟩

end Values

/-! ## Calls on the bus -/

/-- The message ids an atlas gives the bundle. -/
structure Atlas where
  fileReq : UInt16
  fileChunk : UInt16
  fileAck : UInt16
  nodup : [fileReq, fileChunk, fileAck].Nodup

/-- The stations of the sender and of its peer. -/
structure Route where
  atlas : Atlas
  sender : UInt8
  receiver : UInt8

/-- A call on the bus: `send_to`, or `recv_next_from`. -/
inductive BusCall where
  | send (c : Bus.SendCall)
  | recv (id : UInt16) (source : UInt8)

/-- What such a call returns: the body of a message, or none where the wait failed. -/
inductive BusReturn where
  | sent (outcome : SendOutcome)
  | received (body : Option Bytes)

/-- The call a request of the sender is. -/
def SendReq.busCall (R : Route) (k : Encoder) : SendReq → BusCall
  | .sendOffer offer => .send ⟨false, R.receiver, R.atlas.fileReq, offer.encodable.value k⟩
  | .sendChunk chunk => .send ⟨false, R.receiver, R.atlas.fileChunk, chunk.encodable.value k⟩
  | .recvAck => .recv R.atlas.fileAck R.receiver

/-- What the sender makes of the return of its call. -/
def SendReq.answer : SendReq → BusReturn → Option SendResp
  | .sendOffer _, .sent outcome | .sendChunk _, .sent outcome => some (.sent outcome)
  | .recvAck, .received (some body) => some (.ack (.received (readFileAck body)))
  | .recvAck, .received none => some (.ack .unavailable)
  | _, _ => none

/-- The call a request of a receive call is, if it is not for the store. -/
def RecvReq.busCall {H : Type} (R : Route) (k : Encoder) : RecvReq H → Option BusCall
  | .recvReq => some (.recv R.atlas.fileReq R.sender)
  | .recvChunk => some (.recv R.atlas.fileChunk R.sender)
  | .send ack => some (.send ⟨false, R.sender, R.atlas.fileAck, ack.encodable.value k⟩)
  | .beginWrite _ _ | .writeAt _ _ _ | .commit _ | .abort _ => none

/-- What a receive call makes of the return of its call. -/
def RecvReq.answer {H E : Type} : RecvReq H → BusReturn → Option (RecvResp H E)
  | .recvReq, .received body => some (.req (body.map readFileReq))
  | .recvChunk, .received (some body) => some (.chunk (.received (readFileChunk body)))
  | .recvChunk, .received none => some (.chunk .unavailable)
  | .send _, .sent outcome => some (.sent outcome)
  | _, _ => none

/-- The response is one of the store. -/
def RecvResp.ofStore {H E : Type} : RecvResp H E → Bool
  | .began _ | .wrote _ | .committed _ | .aborted => true
  | .req _ | .chunk _ | .sent _ => false

section BusCall

variable {types depth maxBody : Nat} {π : Type}

/-- The move that makes the call, under the name `n`. -/
def BusCall.label (station : UInt8) (n : Nat) : BusCall → Bus.Stack.Label π
  | .send c => .tx station (.call n c)
  | .recv id source => .rx station (.iface (.call n (.recvNext id source)))

/-- What the call has returned. -/
def BusCall.returned (s : Bus.Stack types depth maxBody π) (station : UInt8) (n : Nat) :
    BusCall → Option BusReturn
  | .send _ =>
      match (s.tx station).tasks n with
      | some ⟨_, .returned (.ok _)⟩ => some (.sent .ok)
      | some ⟨_, .returned (.error e)⟩ =>
          some (.sent (.failed e (n ∈ (s.tx station).wire.map Bus.Pdu.call)))
      | _ => none
  | .recv _ _ =>
      match (s.rx station).iface.tasks n with
      | some ⟨_, .received (.ok r)⟩ => some (.received (some r.bytes))
      | some ⟨_, .received (.error _)⟩ => some (.received none)
      | _ => none

end BusCall

/-! ## The parties -/

/-- The bus, the sender and the receive calls of its peer, the newest first, each with the call on
the bus it waits for. -/
structure BusTransfer (types depth maxBody : Nat) (π H E : Type) where
  stack : Bus.Stack types depth maxBody π
  sender : SendPc
  sendHist : List SendEvent := []
  sendCall : Option (Nat × BusCall) := none
  calls : List (RecvCall H E) := []
  recvCall : Option (Nat × BusCall) := none

namespace BusTransfer

variable {types depth maxBody : Nat} {π H E : Type}

/-- What can happen. -/
inductive Label (π H E : Type) where
  | /-- Anything on the bus. -/
    bus (l : Bus.Stack.Label π)
  | /-- The sender makes its next call. -/
    issueSend (n : Nat) (k : Encoder)
  | resumeSend
  | timeoutSend
  | /-- The receive call makes its next call. -/
    issueRecv (n : Nat) (k : Encoder)
  | resumeRecv
  | timeoutRecv
  | /-- The store answers. -/
    store (r : RecvResp H E)
  | /-- The peer calls a receive function, after the last one has returned. -/
    call (variant : Variant) (cfg : ReceiverConfig)

variable (W : Bus.Wiring types π) (R : Route) (sha256 : Bytes → Digest) (x : SendCall)
  (s : BusTransfer types depth maxBody π H E)

/-- The sender goes on with `r`. -/
def continueSend (r : SendResp) : Option (BusTransfer types depth maxBody π H E) :=
  ((sendFileWithId sha256 x).fire s.sender r).map fun es ↦
    { s with sender := es.2, sendHist := s.sendHist ++ [es.1], sendCall := none }

/-- The receive call goes on with `r`. -/
def continueRecv (r : RecvResp H E) : Option (BusTransfer types depth maxBody π H E) :=
  match s.calls with
  | [] => none
  | c :: cs =>
      ((receiver sha256 c.variant.intake c.cfg).fire c.pc r).map fun es ↦
        { s with calls := { c with pc := es.2, hist := c.hist ++ [es.1] } :: cs, recvCall := none }

/-- What the sender waits for. -/
def sendReq : Option SendReq := (sendFileWithId sha256 x).request s.sender

/-- What the receive call waits for. -/
def recvReq : Option (RecvReq H) :=
  s.calls.head?.bind fun c ↦ (receiver sha256 c.variant.intake c.cfg (E := E)).request c.pc

/-- One move. -/
def step : Label π H E → Option (BusTransfer types depth maxBody π H E)
  | .bus l => (s.stack.step W l).map fun stack ↦ { s with stack }
  | .issueSend n k =>
      if s.sendCall.isNone then
        (s.sendReq sha256 x).bind fun q ↦
          (s.stack.step W ((q.busCall R k).label R.sender n)).map fun stack ↦
            { s with stack, sendCall := some (n, q.busCall R k) }
      else none
  | .resumeSend =>
      s.sendCall.bind fun (n, c) ↦ (c.returned s.stack R.sender n).bind fun ret ↦
        (s.sendReq sha256 x).bind fun q ↦ (q.answer ret).bind (s.continueSend sha256 x)
  | .timeoutSend =>
      match s.sendCall with
      | some (n, .recv _ _) =>
          (s.stack.step W (.rx R.sender (.iface (.act n .drop)))).bind fun stack ↦
            { s with stack }.continueSend sha256 x (.ack .timeout)
      | _ => none
  | .issueRecv n k =>
      if s.recvCall.isNone then
        ((s.recvReq sha256).bind (·.busCall R k)).bind fun c ↦
          (s.stack.step W (c.label R.receiver n)).map fun stack ↦
            { s with stack, recvCall := some (n, c) }
      else none
  | .resumeRecv =>
      s.recvCall.bind fun (n, c) ↦ (c.returned s.stack R.receiver n).bind fun ret ↦
        (s.recvReq sha256).bind fun q ↦ (q.answer ret).bind (s.continueRecv sha256)
  | .timeoutRecv =>
      match s.recvCall with
      | some (n, .recv _ _) =>
          (s.stack.step W (.rx R.receiver (.iface (.act n .drop)))).bind fun stack ↦
            { s with stack }.continueRecv sha256 (.chunk .timeout)
      | _ => none
  | .store r => if r.ofStore then s.continueRecv sha256 r else none
  | .call variant cfg =>
      if s.calls.all (·.pc.isDone) then some { s with calls := { variant, cfg } :: s.calls } else none

/-- The parties as a machine. -/
def machine : Machine (BusTransfer types depth maxBody π H E) (Label π H E) where
  step s l := s.step W R sha256 x l

/-- The state when `send_file_with_id` is called, over stations with the given buffers. -/
def init (buf : UInt8 → Bytes) : BusTransfer types depth maxBody π H E where
  stack := { tx := fun a ↦ { buf := buf a } }
  sender := x.start

end BusTransfer

section Answers

variable {H E : Type}

/-- What the sender hears it reads. -/
theorem SendReq.answer_ack {q : SendReq} {ret : BusReturn} {body : Read FileAckRoot}
    (h : q.answer ret = some (.ack (.received body))) :
    ∃ bytes, body = readFileAck bytes ∧ ret = .received (some bytes) := by
  unfold SendReq.answer at h
  split at h <;> cases h
  exact ⟨_, rfl, rfl⟩

/-- What a receive call hears it reads. -/
theorem RecvReq.answer_req {q : RecvReq H} {ret : BusReturn} {body : Read FileReqRoot}
    (h : q.answer ret = some (.req (some body) : RecvResp H E)) :
    ∃ bytes, body = readFileReq bytes ∧ ret = .received (some bytes) := by
  unfold RecvReq.answer at h
  split at h
  · next body' =>
      cases body' with
      | none => cases h
      | some bytes =>
          cases h
          exact ⟨bytes, rfl, rfl⟩
  all_goals cases h

theorem RecvReq.answer_chunk {q : RecvReq H} {ret : BusReturn} {body : Read FileChunkRoot}
    (h : q.answer ret = some (.chunk (.received body) : RecvResp H E)) :
    ∃ bytes, body = readFileChunk bytes ∧ ret = .received (some bytes) := by
  unfold RecvReq.answer at h
  split at h <;> cases h
  exact ⟨_, rfl, rfl⟩

/-- The bus does not answer for the store. -/
theorem RecvReq.answer_ofStore {q : RecvReq H} {ret : BusReturn} {r : RecvResp H E}
    (h : q.answer ret = some r) : r.ofStore = false := by
  unfold RecvReq.answer at h
  split at h <;> cases h <;> rfl

end Answers

namespace BusTransfer

variable {types depth maxBody : Nat} {π H E : Type} {W : Bus.Wiring types π} {R : Route}
  {sha256 : Bytes → Digest} {x : SendCall} {buf : UInt8 → Bytes}
  {s s' : BusTransfer types depth maxBody π H E}

/-! ## What a move can do -/

/-- The call has brought the body `bytes` to the station. -/
def Heard (stack : Bus.Stack types depth maxBody π) (station : UInt8) (call : Option (Nat × BusCall))
    (bytes : Bytes) : Prop :=
  ∃ n id source c r, call = some (n, .recv id source) ∧
    (stack.rx station).iface.tasks n = some ⟨c, .received (.ok r)⟩ ∧ r.bytes = bytes

theorem heard_of_returned {stack : Bus.Stack types depth maxBody π} {station : UInt8} {n : Nat}
    {c : BusCall} {bytes : Bytes} (h : c.returned stack station n = some (.received (some bytes))) :
    Heard stack station (some (n, c)) bytes := by
  cases c with
  | send c =>
      simp only [BusCall.returned] at h
      split at h <;> cases h
  | recv id source =>
      simp only [BusCall.returned] at h
      split at h
      · next c r ht =>
          cases h
          exact ⟨n, id, source, c, r, rfl, ht, rfl⟩
      · cases h
      · cases h

/-- The moves there are.  The bus moves, or one side goes on, with a receive call that is dropped
if the wait has timed out. -/
inductive Moves (W : Bus.Wiring types π) (R : Route) (sha256 : Bytes → Digest) (x : SendCall)
    (s : BusTransfer types depth maxBody π H E) : Label π H E → BusTransfer types depth maxBody π H E → Prop
  | bus (l : Bus.Stack.Label π) (stack : Bus.Stack types depth maxBody π)
      (hs : s.stack.step W l = some stack) : Moves W R sha256 x s (.bus l) { s with stack }
  | issueSend (n : Nat) (k : Encoder) (q : SendReq) (stack : Bus.Stack types depth maxBody π)
      (hq : (sendFileWithId sha256 x).request s.sender = some q)
      (hs : s.stack.step W ((q.busCall R k).label R.sender n) = some stack) :
      Moves W R sha256 x s (.issueSend n k) { s with stack, sendCall := some (n, q.busCall R k) }
  | send (l : Label π H E) (stack : Bus.Stack types depth maxBody π) (e : SendEvent) (pc : SendPc)
      (hs : stack = s.stack ∨
        ∃ n, s.stack.step W (.rx R.sender (.iface (.act n .drop))) = some stack)
      (hf : (sendFileWithId sha256 x).fire s.sender e.2 = some (e, pc))
      (hread : ∀ body, e.2 = .ack (.received body) → ∃ bytes, body = readFileAck bytes ∧
        Heard s.stack R.sender s.sendCall bytes) :
      Moves W R sha256 x s l
        { s with stack, sender := pc, sendHist := s.sendHist ++ [e], sendCall := none }
  | issueRecv (n : Nat) (k : Encoder) (c : RecvCall H E) (cs : List (RecvCall H E)) (q : RecvReq H)
      (b : BusCall) (stack : Bus.Stack types depth maxBody π) (hcalls : s.calls = c :: cs)
      (hq : (receiver sha256 c.variant.intake c.cfg).request c.pc = some q)
      (hb : q.busCall R k = some b) (hs : s.stack.step W (b.label R.receiver n) = some stack) :
      Moves W R sha256 x s (.issueRecv n k) { s with stack, recvCall := some (n, b) }
  | recv (l : Label π H E) (stack : Bus.Stack types depth maxBody π) (c : RecvCall H E)
      (cs : List (RecvCall H E)) (e : RecvEvent H E) (pc : RecvPc H E)
      (hs : stack = s.stack ∨
        ∃ n, s.stack.step W (.rx R.receiver (.iface (.act n .drop))) = some stack)
      (hcalls : s.calls = c :: cs)
      (hf : (receiver sha256 c.variant.intake c.cfg).fire c.pc e.2 = some (e, pc))
      (hreq : ∀ body, e.2 = .req (some body) → ∃ bytes, body = readFileReq bytes ∧
        Heard s.stack R.receiver s.recvCall bytes)
      (hchunk : ∀ body, e.2 = .chunk (.received body) → ∃ bytes, body = readFileChunk bytes ∧
        Heard s.stack R.receiver s.recvCall bytes)
      (hstore : e.2.ofStore = true → l = .store e.2) :
      Moves W R sha256 x s l
        { s with stack, calls := { c with pc, hist := c.hist ++ [e] } :: cs, recvCall := none }
  | call (variant : Variant) (cfg : ReceiverConfig) (hdone : s.calls.all (·.pc.isDone) = true) :
      Moves W R sha256 x s (.call variant cfg) { s with calls := { variant, cfg } :: s.calls }

theorem moves_of_continueSend {l : Label π H E} {stack : Bus.Stack types depth maxBody π}
    {r : SendResp} (h : { s with stack }.continueSend sha256 x r = some s')
    (hs : stack = s.stack ∨ ∃ n, s.stack.step W (.rx R.sender (.iface (.act n .drop))) = some stack)
    (hread : ∀ body, r = .ack (.received body) → ∃ bytes, body = readFileAck bytes ∧
      Heard s.stack R.sender s.sendCall bytes) : Moves W R sha256 x s l s' := by
  obtain ⟨⟨e, pc⟩, hf, rfl⟩ := Option.map_eq_some_iff.mp h
  obtain rfl : e.2 = r := (Coroutine.fire_eq_some.mp hf).2.1
  exact .send l stack e pc hs hf hread

theorem moves_of_continueRecv {l : Label π H E} {stack : Bus.Stack types depth maxBody π}
    {r : RecvResp H E} (h : { s with stack }.continueRecv sha256 r = some s')
    (hs : stack = s.stack ∨ ∃ n, s.stack.step W (.rx R.receiver (.iface (.act n .drop))) = some stack)
    (hreq : ∀ body, r = .req (some body) → ∃ bytes, body = readFileReq bytes ∧
      Heard s.stack R.receiver s.recvCall bytes)
    (hchunk : ∀ body, r = .chunk (.received body) → ∃ bytes, body = readFileChunk bytes ∧
      Heard s.stack R.receiver s.recvCall bytes)
    (hstore : r.ofStore = true → l = .store r) : Moves W R sha256 x s l s' := by
  unfold continueRecv at h
  split at h
  · cases h
  · next c cs hcalls =>
      obtain ⟨⟨e, pc⟩, hf, rfl⟩ := Option.map_eq_some_iff.mp h
      obtain rfl : e.2 = r := (Coroutine.fire_eq_some.mp hf).2.1
      exact .recv l stack c cs e pc hs hcalls hf hreq hchunk hstore

theorem moves_of_step {l : Label π H E} (h : s.step W R sha256 x l = some s') :
    Moves W R sha256 x s l s' := by
  cases l with
  | bus l =>
      obtain ⟨stack, hs, rfl⟩ := Option.map_eq_some_iff.mp h
      exact .bus l stack hs
  | issueSend n k =>
      obtain ⟨-, h⟩ := Option.ite_none_right_eq_some.mp h
      obtain ⟨q, hq, h⟩ := Option.bind_eq_some_iff.mp h
      obtain ⟨stack, hs, rfl⟩ := Option.map_eq_some_iff.mp h
      exact .issueSend n k q stack hq hs
  | resumeSend =>
      obtain ⟨⟨n, c⟩, hcall, h⟩ := Option.bind_eq_some_iff.mp h
      obtain ⟨ret, hret, h⟩ := Option.bind_eq_some_iff.mp h
      obtain ⟨q, -, h⟩ := Option.bind_eq_some_iff.mp h
      obtain ⟨r, hr, h⟩ := Option.bind_eq_some_iff.mp h
      refine moves_of_continueSend h (.inl (Eq.refl s.stack)) ?_
      rintro body rfl
      obtain ⟨bytes, rfl, rfl⟩ := SendReq.answer_ack hr
      exact ⟨bytes, rfl, hcall ▸ heard_of_returned hret⟩
  | timeoutSend =>
      simp only [step] at h
      split at h
      · next n id source hcall =>
          obtain ⟨stack, hs, h⟩ := Option.bind_eq_some_iff.mp h
          exact moves_of_continueSend h (.inr ⟨n, hs⟩) nofun
      · cases h
  | issueRecv n k =>
      obtain ⟨-, h⟩ := Option.ite_none_right_eq_some.mp h
      obtain ⟨b, hb, h⟩ := Option.bind_eq_some_iff.mp h
      obtain ⟨q, hq, hb⟩ := Option.bind_eq_some_iff.mp hb
      obtain ⟨c, hc, hq⟩ := Option.bind_eq_some_iff.mp hq
      obtain ⟨cs, hcalls⟩ := List.head?_eq_some_iff.mp hc
      obtain ⟨stack, hs, rfl⟩ := Option.map_eq_some_iff.mp h
      exact .issueRecv n k c cs q b stack hcalls hq hb hs
  | resumeRecv =>
      obtain ⟨⟨n, c⟩, hcall, h⟩ := Option.bind_eq_some_iff.mp h
      obtain ⟨ret, hret, h⟩ := Option.bind_eq_some_iff.mp h
      obtain ⟨q, -, h⟩ := Option.bind_eq_some_iff.mp h
      obtain ⟨r, hr, h⟩ := Option.bind_eq_some_iff.mp h
      refine moves_of_continueRecv h (.inl (Eq.refl s.stack)) ?_ ?_ ?_
      · rintro body rfl
        obtain ⟨bytes, rfl, rfl⟩ := RecvReq.answer_req hr
        exact ⟨bytes, rfl, hcall ▸ heard_of_returned hret⟩
      · rintro body rfl
        obtain ⟨bytes, rfl, rfl⟩ := RecvReq.answer_chunk hr
        exact ⟨bytes, rfl, hcall ▸ heard_of_returned hret⟩
      · intro hstore
        rw [RecvReq.answer_ofStore hr] at hstore
        cases hstore
  | timeoutRecv =>
      simp only [step] at h
      split at h
      · next n id source hcall =>
          obtain ⟨stack, hs, h⟩ := Option.bind_eq_some_iff.mp h
          exact moves_of_continueRecv h (.inr ⟨n, hs⟩) nofun nofun nofun
      · cases h
  | store r =>
      obtain ⟨hstore, h⟩ := Option.ite_none_right_eq_some.mp h
      refine moves_of_continueRecv h (.inl (Eq.refl s.stack)) ?_ ?_ fun _ ↦ rfl
      · rintro body rfl
        cases hstore
      · rintro body rfl
        cases hstore
  | call variant cfg =>
      obtain ⟨hdone, h⟩ := Option.ite_none_right_eq_some.mp h
      obtain rfl := Option.some.inj h
      exact .call variant cfg hdone

end BusTransfer

end Thincan.FileTransfer
