import Thincan.FileTransfer.Agreement
import Thincan.FileTransfer.BusTransfer

/-!
# A file transfer on a bus

The results about the `Network` hold in a `BusTransfer` too.  Other tasks of the two stations
may send what they like, except messages of the same transfer (`Foreign`), and the bus may
do what it likes with the messages.  So every message of the transfer that one side takes
is one the other side has come to send (`Known`), and the histories are those of a network
(`BusTransfer.Inv`).

A receive call may get a message before the send call that has sent it has returned, or has
failed.  So `Asked` and `Known` are about the point where the code comes to send something,
and not about what was handed over.
-/

namespace Thincan.FileTransfer

open Process

/-! ## Messages of the transfer -/

/-- No payload the call can put on the wire, from a buffer of `size` bytes, is read as a message of
the transfer `t`. -/
structure Foreign (A : Atlas) (t : UInt32) (size : Nat) (c : Bus.SendCall) : Prop where
  req : ∀ payload body root, c.Payload size payload → Bus.decodeWire payload = .ok ⟨A.fileReq, body⟩ →
    readFileReq body = .ok root → root.transferId ≠ t
  chunk : ∀ payload body root, c.Payload size payload →
    Bus.decodeWire payload = .ok ⟨A.fileChunk, body⟩ → readFileChunk body = .ok root →
    root.transferId ≠ t
  ack : ∀ payload body root, c.Payload size payload → Bus.decodeWire payload = .ok ⟨A.fileAck, body⟩ →
    readFileAck body = .ok root → root.transferId ≠ t

/-- Calls for other message types are foreign. -/
theorem Foreign.of_id {A : Atlas} {c : Bus.SendCall} (t : UInt32) (size : Nat)
    (h : c.id ∉ [A.fileReq, A.fileChunk, A.fileAck]) : Foreign A t size c := by
  have key : ∀ {id payload body}, c.Payload size payload → Bus.decodeWire payload = .ok ⟨id, body⟩ →
      id ∈ [A.fileReq, A.fileChunk, A.fileAck] → False := by
    intro id payload body hpayload hraw hid
    obtain ⟨body', hraw', -⟩ := hpayload.decodeWire
    obtain ⟨rfl, -⟩ := Bus.RawMessage.mk.inj (Except.ok.inj (hraw'.symm.trans hraw))
    exact h hid
  refine ⟨?_, ?_, ?_⟩
  · intro payload body root hpayload hraw
    exact (key hpayload hraw (by simp)).elim
  · intro payload body root hpayload hraw
    exact (key hpayload hraw (by simp)).elim
  · intro payload body root hpayload hraw
    exact (key hpayload hraw (by simp)).elim

section Known

variable {H E : Type} {R : Route} {sha256 : Bytes → Digest} {x : SendCall} {size : Nat}
  {calls calls' : List (RecvCall H E)}

/-- One of the receive calls has come to send the acknowledgement. -/
def Asked (sha256 : Bytes → Digest) (calls : List (RecvCall H E)) (a : FileAckValue) : Prop :=
  ∃ c ∈ calls, ∃ k pc, k <+: c.hist ∧ (receiver sha256 c.variant.intake c.cfg).Run .recvReq k pc ∧
    (receiver sha256 c.variant.intake c.cfg).request pc = some (.send a)

/-- What a send call of one of the two stations is for. -/
inductive Known (R : Route) (sha256 : Bytes → Digest) (x : SendCall) (size : Nat)
    (calls : List (RecvCall H E)) : Bus.SendCall → Prop
  | offer (dest : UInt8) (k : Encoder) (hx : x.Accepted) :
      Known R sha256 x size calls ⟨false, dest, R.atlas.fileReq, (x.offer sha256).encodable.value k⟩
  | chunk (dest : UInt8) (k : Encoder) (c : FileChunkValue) (hc : x.Slice c)
      (hlen : c.data.length < 2 ^ 29) :
      Known R sha256 x size calls ⟨false, dest, R.atlas.fileChunk, c.encodable.value k⟩
  | ack (dest : UInt8) (k : Encoder) (a : FileAckValue) (ha : Asked sha256 calls a) :
      Known R sha256 x size calls ⟨false, dest, R.atlas.fileAck, a.encodable.value k⟩
  | foreign (c : Bus.SendCall) (h : Foreign R.atlas x.transferId size c) :
      Known R sha256 x size calls c

theorem Known.mono {c : Bus.SendCall} (h : Known R sha256 x size calls c)
    (hmono : ∀ a, Asked sha256 calls a → Asked sha256 calls' a) : Known R sha256 x size calls' c := by
  cases h with
  | offer dest k hx => exact .offer dest k hx
  | chunk dest k c hc hlen => exact .chunk dest k c hc hlen
  | ack dest k a ha => exact .ack dest k a (hmono a ha)
  | foreign c h => exact .foreign c h

/-- The newest call goes on. -/
theorem Asked.cons {c : RecvCall H E} {cs : List (RecvCall H E)} {e : RecvEvent H E} {pc : RecvPc H E}
    {a : FileAckValue} (h : Asked sha256 (c :: cs) a) :
    Asked sha256 ({ c with pc, hist := c.hist ++ [e] } :: cs) a := by
  obtain ⟨d, hd, k, pc', hk, hrun, hq⟩ := h
  rcases List.mem_cons.mp hd with rfl | hd
  · exact ⟨_, List.mem_cons_self, k, pc', hk.trans (List.prefix_append _ _), hrun, hq⟩
  · exact ⟨d, List.mem_cons_of_mem _ hd, k, pc', hk, hrun, hq⟩

theorem Atlas.ne (A : Atlas) :
    A.fileReq ≠ A.fileChunk ∧ A.fileReq ≠ A.fileAck ∧ A.fileChunk ≠ A.fileAck := by
  have h := A.nodup
  simp only [List.nodup_cons, List.mem_cons, List.not_mem_nil, or_false, not_or] at h
  exact ⟨h.1.1, h.1.2, h.2.1⟩

theorem readFileReq_offer (sha256 : Bytes → Digest) (x : SendCall) :
    (x.offer sha256).encodable.Writes (x.offer sha256).body ∧
      readFileReq (x.offer sha256).body = .ok (x.offer sha256).root := by
  have hmetadata : (x.offer sha256).fileMetadata.length < 2 ^ 29 := Nat.two_pow_pos 29
  have hhash : (x.offer sha256).fileHash.length < 2 ^ 29 := by
    show (sha256 x.bytes).1.length < _
    rw [(sha256 x.bytes).2]
    decide
  exact ⟨FileOfferValue.writes hmetadata hhash, readFileReq_output _ _ _ _ _ hmetadata hhash⟩

variable {c : Bus.SendCall} {payload body : Bytes}

/-- An offer of this transfer is that of the sender. -/
theorem Known.req (h : Known R sha256 x size calls c) (hpayload : c.Payload size payload)
    (hraw : Bus.decodeWire payload = .ok ⟨R.atlas.fileReq, body⟩) {root : FileReqRoot}
    (hroot : readFileReq body = .ok root) (hid : root.transferId = x.transferId) :
    root = (x.offer sha256).root ∧ x.Accepted := by
  obtain ⟨body', hraw', -⟩ := hpayload.decodeWire
  obtain ⟨hcid, -⟩ := Bus.RawMessage.mk.inj (Except.ok.inj (hraw'.symm.trans hraw))
  cases h with
  | offer dest k hx =>
      obtain ⟨hwrites, hread⟩ := readFileReq_offer sha256 x
      obtain rfl : body = _ := hpayload.body_eq (hwrites.encodes k) hraw
      exact ⟨Except.ok.inj (hroot.symm.trans hread), hx⟩
  | chunk dest k c hc hlen => exact absurd hcid.symm R.atlas.ne.1
  | ack dest k a ha => exact absurd hcid.symm R.atlas.ne.2.1
  | foreign c h => exact absurd hid (h.req payload body root hpayload hraw hroot)

/-- A chunk of this transfer is a piece of the file. -/
theorem Known.piece (h : Known R sha256 x size calls c) (hpayload : c.Payload size payload)
    (hraw : Bus.decodeWire payload = .ok ⟨R.atlas.fileChunk, body⟩) {root : FileChunkRoot}
    (hroot : readFileChunk body = .ok root) (hid : root.transferId = x.transferId) :
    ∃ c, x.Slice c ∧ root = c.root := by
  obtain ⟨body', hraw', -⟩ := hpayload.decodeWire
  obtain ⟨hcid, -⟩ := Bus.RawMessage.mk.inj (Except.ok.inj (hraw'.symm.trans hraw))
  cases h with
  | offer dest k hx => exact absurd hcid R.atlas.ne.1
  | chunk dest k c hc hlen =>
      obtain rfl : body = _ := hpayload.body_eq ((FileChunkValue.writes hlen).encodes k) hraw
      exact ⟨c, hc, Except.ok.inj (hroot.symm.trans (readFileChunk_body hlen))⟩
  | ack dest k a ha => exact absurd hcid.symm R.atlas.ne.2.2
  | foreign c h => exact absurd hid (h.chunk payload body root hpayload hraw hroot)

/-- An acknowledgement of this transfer is one that a receive call has come to send. -/
theorem Known.asked (h : Known R sha256 x size calls c) (hpayload : c.Payload size payload)
    (hraw : Bus.decodeWire payload = .ok ⟨R.atlas.fileAck, body⟩) {root : FileAckRoot}
    (hroot : readFileAck body = .ok root) (hid : root.transferId = x.transferId) :
    ∃ a, Asked sha256 calls a ∧ root = a.root := by
  obtain ⟨body', hraw', -⟩ := hpayload.decodeWire
  obtain ⟨hcid, -⟩ := Bus.RawMessage.mk.inj (Except.ok.inj (hraw'.symm.trans hraw))
  cases h with
  | offer dest k hx => exact absurd hcid R.atlas.ne.2.1
  | chunk dest k c hc hlen => exact absurd hcid R.atlas.ne.2.2
  | ack dest k a ha =>
      obtain rfl : body = _ := hpayload.body_eq (a.writes.encodes k) hraw
      exact ⟨a, ha, Except.ok.inj (hroot.symm.trans (readFileAck_body a))⟩
  | foreign c h => exact absurd hid (h.ack payload body root hpayload hraw hroot)

/-- A send is answered in any case. -/
theorem receiver_fire_send {rx : Intake} {cfg : ReceiverConfig} {pc : RecvPc H E} {a : FileAckValue}
    (h : (receiver sha256 rx cfg).request pc = some (.send a)) :
    ∃ pc', (receiver sha256 rx cfg).fire pc (.sent .ok) = some ((.send a, .sent .ok), pc') := by
  cases pc with
  | sendReject | sendAccept | sendGap | sendProgress | sendComplete | sendAbort =>
      exact ⟨_, Coroutine.fire_eq_some.mpr ⟨h, rfl, rfl⟩⟩
  | _ => cases h

/-- An acknowledgement of the whole file is that of a call that has committed it. -/
theorem Asked.committed {a : FileAckValue} (h : Asked sha256 calls a) (hx : x.Accepted)
    (hcalled : ∀ c ∈ calls, (receiver sha256 c.variant.intake c.cfg).Run .recvReq c.hist c.pc)
    (hhonest : ∀ c ∈ calls, Honest sha256 x c.hist) (hid : a.transferId = x.transferId)
    (hk : a.kind = .ack ∨ a.kind = .complete) (hn : a.nextOffset.toNat = x.totalLen) :
    ∃ c ∈ calls, offered c.hist = some (x.offer sha256).root ∧
      (∃ h, .committed h (.ok ()) ∈ storeLog c.hist) ∧ written c.hist = x.bytes := by
  obtain ⟨c, hc, k, pc, ⟨t, ht⟩, hrun, hq⟩ := h
  obtain ⟨pc', hf⟩ := receiver_fire_send hq
  have hhonest' := hhonest c hc
  rw [← ht] at hhonest'
  -- a network in which the acknowledgement was handed over
  let d : RecvCall H E := { c with pc := pc', hist := k ++ [(.send a, .sent .ok)] }
  let w : Network H E := { sender := x.start, calls := [d] }
  have hsent : (sendFileWithId sha256 x).Run x.start w.sendHist w.sender := .nil
  have hinv : Network.Inv sha256 x w := by
    refine ⟨hsent, ?_, ?_, nofun⟩
    · intro c' hc'
      obtain rfl := List.mem_singleton.mp hc'
      exact hrun.snoc hf
    · intro c' hc'
      obtain rfl := List.mem_singleton.mp hc'
      exact (hhonest'.of_append).snoc (w := w) hsent rfl
  have ha : a ∈ acks d.hist := by
    rw [acks_snoc_handed rfl]
    exact List.mem_append_right _ List.mem_cons_self
  obtain ⟨-, hoffer, ⟨h, hmem⟩, -⟩ := committed_of_ack hinv hx List.mem_cons_self ha hid hk hn
  have hoffer' : offered c.hist = some (x.offer sha256).root := by
    rw [← ht]
    exact offered_append (offered_of_snoc hoffer nofun)
  have hmem' : .committed h (.ok ()) ∈ storeLog c.hist := by
    rw [storeLog_append, show storeLog [((.send a, .sent .ok) : RecvEvent H E)] = [] from rfl,
      List.append_nil] at hmem
    rw [← ht, storeLog_append]
    exact List.mem_append_left _ hmem
  exact ⟨c, hc, hoffer', ⟨h, hmem'⟩,
    Intact.of_committed (hcalled c hc) (hhonest c hc) hoffer' hmem'⟩

end Known

namespace BusTransfer

variable {types depth maxBody : Nat} {π H E : Type} {W : Bus.Wiring types π} {R : Route}
  {sha256 : Bytes → Digest} {x : SendCall} {buf : UInt8 → Bytes}
  {s s' : BusTransfer types depth maxBody π H E}

/-! ## The invariant -/

/-- **The invariant**: the histories are runs, and what was taken of this transfer comes from the
other side, for that is all there is on the bus. -/
structure Inv (W : Bus.Wiring types π) (R : Route) (sha256 : Bytes → Digest) (x : SendCall)
    (buf : UInt8 → Bytes) (s : BusTransfer types depth maxBody π H E) : Prop where
  stack : Bus.Stack.Inv W buf s.stack
  sent : (sendFileWithId sha256 x).Run x.start s.sendHist s.sender
  called : ∀ c ∈ s.calls, (receiver sha256 c.variant.intake c.cfg).Run .recvReq c.hist c.pc
  honest : ∀ c ∈ s.calls, Honest sha256 x c.hist
  acked : ∀ root, (.recvAck, .ack (.received (.ok root))) ∈ s.sendHist →
    root.transferId = x.transferId → ∃ a, Asked sha256 s.calls a ∧ root = a.root
  known : ∀ a, a = R.sender ∨ a = R.receiver → ∀ n t, (s.stack.tx a).tasks n = some t →
    Known R sha256 x (buf a).length s.calls t.call
  /-- The sender waits for acknowledgements of its peer. -/
  sendWaits : ∀ n id source, s.sendCall = some (n, .recv id source) → id = R.atlas.fileAck ∧
    source = R.receiver ∧ (s.stack.rx R.sender).iface.call n = some (.recvNext id source)
  /-- A receive call waits for the messages of the sender it has asked for. -/
  recvWaits : ∀ n id source, s.recvCall = some (n, .recv id source) → source = R.sender ∧
    (s.stack.rx R.receiver).iface.call n = some (.recvNext id source) ∧
    ∃ c cs q k, s.calls = c :: cs ∧
      (receiver sha256 c.variant.intake c.cfg).request c.pc = some q ∧
      q.busCall R k = some (.recv id source)

theorem Inv.init : Inv W R sha256 x buf (init x buf : BusTransfer types depth maxBody π H E) := by
  have hsent : (sendFileWithId sha256 x).Run x.start [] x.start := .nil
  constructor
  case stack => exact .init W buf
  case sent => exact hsent
  case called | honest | acked =>
    intro a ha
    cases ha
  case known =>
    intro a _ n t ht
    cases ht
  case sendWaits | recvWaits =>
    intro n id source hcall
    cases hcall

/-- What a receive call has brought is what one of the known send calls has encoded. -/
theorem Inv.heard (hi : Inv W R sha256 x buf s) {station a : UInt8} {n : Nat} {id : UInt16}
    {bytes : Bytes} (ha : a = R.sender ∨ a = R.receiver)
    (hcall : (s.stack.rx station).iface.call n = some (.recvNext id a))
    (hheard : Heard s.stack station (some (n, .recv id a)) bytes) :
    ∃ c payload, Known R sha256 x (buf a).length s.calls c ∧ c.Payload (buf a).length payload ∧
      Bus.decodeWire payload = .ok ⟨id, bytes⟩ := by
  obtain ⟨m, _, _, c, r, heq, ht, rfl⟩ := hheard
  obtain ⟨rfl, -⟩ := Prod.mk.inj (Option.some.inj heq)
  have hc : c = .recvNext id a := by
    rw [Bus.Interface.call, ht] at hcall
    exact Option.some.inj hcall
  subst hc
  obtain ⟨hid, hsource, p, t, hcarried⟩ := hi.stack.received ht
  obtain rfl : id = r.id := Option.some.inj hid
  obtain rfl : a = r.source := hsource
  exact ⟨t.call, p.payload, hi.known _ ha _ t hcarried.task, hcarried.payload, hcarried.decoded⟩

/-- The bus moves. -/
theorem Inv.onBus (hi : Inv W R sha256 x buf s) {l : Bus.Stack.Label π}
    {stack : Bus.Stack types depth maxBody π} (hs : s.stack.step W l = some stack)
    (hnew : ∀ a n c, a = R.sender ∨ a = R.receiver → l = .tx a (.call n c) →
      Known R sha256 x (buf a).length s.calls c) : Inv W R sha256 x buf { s with stack } := by
  refine { hi with stack := ?_, known := ?_, sendWaits := ?_, recvWaits := ?_ }
  · exact hi.stack.moves (Bus.Stack.moves_of_step hs)
  · intro a ha n t ht
    rcases Bus.Stack.send_back hs ht with ⟨pc, ht⟩ | hl
    · exact hi.known a ha n ⟨t.call, pc⟩ ht
    · exact hnew a n t.call ha hl
  · intro n id source hcall
    obtain ⟨hid, hsource, hc⟩ := hi.sendWaits n id source hcall
    exact ⟨hid, hsource, Bus.Stack.call_stays hs hc⟩
  · intro n id source hcall
    obtain ⟨hsource, hc, hq⟩ := hi.recvWaits n id source hcall
    exact ⟨hsource, Bus.Stack.call_stays hs hc, hq⟩

/-- A receive call is dropped, or nothing happens on the bus. -/
theorem Inv.onDrop (hi : Inv W R sha256 x buf s) {stack : Bus.Stack types depth maxBody π}
    {station : UInt8} (hs : stack = s.stack ∨
      ∃ n, s.stack.step W (.rx station (.iface (.act n .drop))) = some stack) :
    Inv W R sha256 x buf { s with stack } := by
  rcases hs with rfl | ⟨n, hs⟩
  · exact hi
  · exact hi.onBus hs nofun

/-- What the sender sends is known. -/
theorem Inv.known_send (hi : Inv W R sha256 x buf s)
    (hsize : min x.config.senderMaxChunkSize x.totalLen < 2 ^ 29)
    {q : SendReq} (hq : (sendFileWithId sha256 x).request s.sender = some q) {k : Encoder}
    {c : Bus.SendCall} (hc : q.busCall R k = .send c) (size : Nat) :
    Known R sha256 x size s.calls c := by
  have hsend := SendInv.of_run hi.sent
  cases hpc : s.sender with
  | offerSend n =>
      rw [hpc] at hq hsend
      obtain rfl := Option.some.inj hq
      obtain rfl := BusCall.send.inj hc
      exact .offer _ k hsend
  | chunkSend v =>
      rw [hpc] at hq hsend
      obtain rfl := Option.some.inj hq
      obtain rfl := BusCall.send.inj hc
      obtain ⟨-, hv, -, -⟩ := hsend
      have hlen : (x.chunk v).data.length = _ := x.length_chunkData hv.next_le
      have hle := hv.chunk_le
      exact .chunk _ k _ (x.slice_chunk v) (by omega)
  | offerWait n | ackWait v =>
      rw [hpc] at hq
      obtain rfl := Option.some.inj hq
      cases hc
  | done r =>
      rw [hpc] at hq
      cases hq

/-- The sender goes on. -/
theorem Inv.onSend (hi : Inv W R sha256 x buf s) {e : SendEvent} {pc : SendPc}
    (hf : (sendFileWithId sha256 x).fire s.sender e.2 = some (e, pc))
    (hack : ∀ root, e = (.recvAck, .ack (.received (.ok root))) → root.transferId = x.transferId →
      ∃ a, Asked sha256 s.calls a ∧ root = a.root) :
    Inv W R sha256 x buf { s with sender := pc, sendHist := s.sendHist ++ [e], sendCall := none } := by
  refine { hi with sent := hi.sent.snoc hf, acked := ?_, sendWaits := nofun }
  intro root hr hid
  rcases List.mem_append.mp hr with hr | hr
  · exact hi.acked root hr hid
  · exact hack root (List.mem_singleton.mp hr).symm hid

/-- The receive call goes on. -/
theorem Inv.onRecv (hi : Inv W R sha256 x buf s) {c : RecvCall H E} {cs : List (RecvCall H E)}
    {e : RecvEvent H E} {pc : RecvPc H E} (hcalls : s.calls = c :: cs)
    (hf : (receiver sha256 c.variant.intake c.cfg).fire c.pc e.2 = some (e, pc))
    (hhonest : Honest sha256 x (c.hist ++ [e])) :
    Inv W R sha256 x buf
      { s with calls := { c with pc, hist := c.hist ++ [e] } :: cs, recvCall := none } := by
  have hmono : ∀ a, Asked sha256 s.calls a →
      Asked sha256 ({ c with pc, hist := c.hist ++ [e] } :: cs) a := by
    intro a ha
    rw [hcalls] at ha
    exact ha.cons
  have hc : c ∈ s.calls := hcalls ▸ List.mem_cons_self
  have hcs : ∀ d ∈ cs, d ∈ s.calls := fun d hd ↦ hcalls ▸ List.mem_cons_of_mem c hd
  refine { hi with called := ?_, honest := ?_, acked := ?_, known := ?_, recvWaits := nofun }
  · intro d hd
    rcases List.mem_cons.mp hd with rfl | hd
    · exact (hi.called c hc).snoc hf
    · exact hi.called d (hcs d hd)
  · intro d hd
    rcases List.mem_cons.mp hd with rfl | hd
    · exact hhonest
    · exact hi.honest d (hcs d hd)
  · intro root hr hid
    obtain ⟨a, ha, hroot⟩ := hi.acked root hr hid
    exact ⟨a, hmono a ha, hroot⟩
  · intro a ha n t ht
    exact (hi.known a ha n t ht).mono hmono

/-- What the receive call has heard is honest. -/
theorem Inv.honest_snoc (hi : Inv W R sha256 x buf s) {c : RecvCall H E} {cs : List (RecvCall H E)}
    {e : RecvEvent H E} {pc : RecvPc H E} (hcalls : s.calls = c :: cs)
    (hf : (receiver sha256 c.variant.intake c.cfg).fire c.pc e.2 = some (e, pc))
    (hreq : ∀ body, e.2 = .req (some body) → ∃ bytes, body = readFileReq bytes ∧
      Heard s.stack R.receiver s.recvCall bytes)
    (hchunk : ∀ body, e.2 = .chunk (.received body) → ∃ bytes, body = readFileChunk bytes ∧
      Heard s.stack R.receiver s.recvCall bytes) : Honest sha256 x (c.hist ++ [e]) := by
  have hhonest := hi.honest c (hcalls ▸ List.mem_cons_self)
  have hrequest := (Coroutine.fire_eq_some.mp hf).1
  -- what was heard is a message of the type the call has asked for
  have hheard : ∀ bytes, Heard s.stack R.receiver s.recvCall bytes → ∃ id k c payload,
      e.1.busCall R k = some (.recv id R.sender) ∧
        Known R sha256 x (buf R.sender).length s.calls c ∧
        c.Payload (buf R.sender).length payload ∧ Bus.decodeWire payload = .ok ⟨id, bytes⟩ := by
    intro bytes hheard
    obtain ⟨n, id, source, _, _, hcall, -⟩ := id hheard
    obtain ⟨rfl, hmade, c', cs', q, k, hcalls', hq, hb⟩ := hi.recvWaits n id source hcall
    obtain ⟨rfl, rfl⟩ := List.cons.inj (hcalls.symm.trans hcalls')
    obtain rfl := Option.some.inj (hrequest.symm.trans hq)
    obtain ⟨d, payload, hknown, hpayload, hraw⟩ := hi.heard (.inl rfl) hmade (hcall ▸ hheard)
    exact ⟨id, k, d, payload, hb, hknown, hpayload, hraw⟩
  constructor
  · intro root hr hid
    rcases List.mem_append.mp hr with hr | hr
    · exact hhonest.offer root hr hid
    · obtain rfl := List.mem_singleton.mp hr
      obtain ⟨bytes, hbody, hh⟩ := hreq _ rfl
      obtain ⟨id, k, d, payload, hb, hknown, hpayload, hraw⟩ := hheard bytes hh
      obtain ⟨rfl, -⟩ := BusCall.recv.inj (Option.some.inj hb)
      exact hknown.req hpayload hraw hbody.symm hid
  · intro root hr hid
    rcases List.mem_append.mp hr with hr | hr
    · exact hhonest.chunk root hr hid
    · obtain rfl := List.mem_singleton.mp hr
      obtain ⟨bytes, hbody, hh⟩ := hchunk _ rfl
      obtain ⟨id, k, d, payload, hb, hknown, hpayload, hraw⟩ := hheard bytes hh
      obtain ⟨rfl, -⟩ := BusCall.recv.inj (Option.some.inj hb)
      exact hknown.piece hpayload hraw hbody.symm hid

/-- The other send calls of the two stations are foreign. -/
def Undisturbed (R : Route) (t : UInt32) (buf : UInt8 → Bytes) (l : Label π H E) : Prop :=
  ∀ a n c, a = R.sender ∨ a = R.receiver → l = .bus (.tx a (.call n c)) →
    Foreign R.atlas t (buf a).length c

/-- **Every move keeps the invariant.** -/
theorem Inv.moves (hi : Inv W R sha256 x buf s)
    (hsize : min x.config.senderMaxChunkSize x.totalLen < 2 ^ 29)
    {l : Label π H E} (hl : Undisturbed R x.transferId buf l) (h : Moves W R sha256 x s l s') :
    Inv W R sha256 x buf s' := by
  cases h with
  | bus l stack hs =>
      refine hi.onBus hs fun a n c ha hc ↦ .foreign c (hl a n c ha ?_)
      rw [hc]
  | issueSend n k q stack hq hs =>
      have hnew : ∀ a m c, a = R.sender ∨ a = R.receiver →
          (q.busCall R k).label R.sender n = (.tx a (.call m c) : Bus.Stack.Label π) →
          Known R sha256 x (buf a).length s.calls c := by
        intro a m c _ hlabel
        cases hb : q.busCall R k with
        | recv id source =>
            rw [hb] at hlabel
            cases hlabel
        | send c' =>
            rw [hb] at hlabel
            obtain ⟨-, hlabel⟩ := Bus.Stack.Label.tx.inj hlabel
            obtain ⟨-, rfl⟩ := Bus.SendLabel.call.inj hlabel
            exact hi.known_send hsize hq hb _
      refine { hi.onBus hs hnew with sendWaits := ?_ }
      intro m id source hcall
      obtain ⟨rfl, hb⟩ := Prod.mk.inj (Option.some.inj hcall)
      rw [hb] at hs
      cases q with
      | sendOffer | sendChunk => cases hb
      | recvAck =>
          obtain ⟨rfl, rfl⟩ := BusCall.recv.inj hb
          exact ⟨rfl, rfl, Bus.Stack.call_of_label hs⟩
  | send l stack e pc hs hf hread =>
      refine (hi.onDrop hs).onSend hf ?_
      rintro root rfl hid
      obtain ⟨bytes, hbody, hheard⟩ := hread _ rfl
      obtain ⟨n, id, source, _, _, hcall, -⟩ := id hheard
      obtain ⟨rfl, rfl, hmade⟩ := hi.sendWaits n id source hcall
      obtain ⟨d, payload, hknown, hpayload, hraw⟩ := hi.heard (.inr rfl) hmade (hcall ▸ hheard)
      exact hknown.asked hpayload hraw hbody.symm hid
  | issueRecv n k c cs q b stack hcalls hq hb hs =>
      have hnew : ∀ a m d, a = R.sender ∨ a = R.receiver →
          b.label R.receiver n = (.tx a (.call m d) : Bus.Stack.Label π) →
          Known R sha256 x (buf a).length s.calls d := by
        intro a m d _ hlabel
        cases b with
        | recv id source => cases hlabel
        | send d' =>
            obtain ⟨-, hlabel⟩ := Bus.Stack.Label.tx.inj hlabel
            obtain ⟨-, rfl⟩ := Bus.SendLabel.call.inj hlabel
            cases q with
            | send ack =>
                obtain rfl := BusCall.send.inj (Option.some.inj hb)
                have hc : c ∈ s.calls := hcalls ▸ List.mem_cons_self
                exact .ack _ k ack ⟨c, hc, c.hist, c.pc, List.prefix_rfl, hi.called c hc, hq⟩
            | _ => cases hb
      refine { hi.onBus hs hnew with recvWaits := ?_ }
      intro m id source hcall
      obtain ⟨rfl, rfl⟩ := Prod.mk.inj (Option.some.inj hcall)
      have hsource : source = R.sender := by
        cases q with
        | recvReq | recvChunk => exact (BusCall.recv.inj (Option.some.inj hb)).2.symm
        | _ => cases hb
      exact ⟨hsource, Bus.Stack.call_of_label hs, c, cs, q, k, hcalls, hq, hb⟩
  | recv l stack c cs e pc hs hcalls hf hreq hchunk _ =>
      exact (hi.onDrop hs).onRecv hcalls hf (hi.honest_snoc hcalls hf hreq hchunk)
  | call variant cfg hdone =>
      have hmono : ∀ a, Asked sha256 s.calls a → Asked sha256 ({ variant, cfg } :: s.calls) a := by
        rintro a ⟨c, hc, hasked⟩
        exact ⟨c, List.mem_cons_of_mem _ hc, hasked⟩
      refine { hi with called := ?_, honest := ?_, acked := ?_, known := ?_, recvWaits := ?_ }
      · intro c hc
        rcases List.mem_cons.mp hc with rfl | hc
        · exact .nil
        · exact hi.called c hc
      · intro c hc
        rcases List.mem_cons.mp hc with rfl | hc
        · exact .nil
        · exact hi.honest c hc
      · intro root hr hid
        obtain ⟨a, ha, hroot⟩ := hi.acked root hr hid
        exact ⟨a, hmono a ha, hroot⟩
      · intro a ha n t ht
        exact (hi.known a ha n t ht).mono hmono
      · -- a call that has returned waits for nothing
        intro n id source hcall
        obtain ⟨-, -, c, cs, q, k, hcalls, hq, -⟩ := hi.recvWaits n id source hcall
        rw [hcalls, List.all_cons, Bool.and_eq_true] at hdone
        cases hpc : c.pc with
        | done r =>
            rw [hpc] at hq
            cases hq
        | _ =>
            rw [hpc] at hdone
            cases hdone.1

theorem Inv.of_exec (hsize : min x.config.senderMaxChunkSize x.totalLen < 2 ^ 29)
    {ls : List (Label π H E)}
    (h : (machine W R sha256 x).exec (BusTransfer.init x buf) ls = some s)
    (hl : ∀ l ∈ ls, Undisturbed R x.transferId buf l) : Inv W R sha256 x buf s := by
  have hmeets : (machine W R sha256 x).Meets (fun _ l ↦ Undisturbed R x.transferId buf l)
      (BusTransfer.init x buf : BusTransfer types depth maxBody π H E) ls := .of_forall hl _
  exact hmeets.invariant (fun _ _ _ hi hl hs ↦ hi.moves hsize hl (moves_of_step hs)) .init h

/-! ## A transfer -/

/-- Two stations with the ids of the examples, and one more message type. -/
def fourTypes : Bus.Wiring 4 Unit where
  ask p _ := (true, p)
  maplet _ := ⟨#v[0x1001, 0x1002, 0x1003, 0x2001]⟩
  maxWaiters := 2
  listens _ _ := false

/-- From station `0x11` to station `0x22`. -/
def fromFirst : Route := ⟨⟨0x1001, 0x1002, 0x1003, by decide⟩, 0x11, 0x22⟩

/-- The file `abc` in one chunk. -/
def wholeCall : SendCall := ⟨.bits64, 7, abc, {}⟩

/-- The send call `n` of a station is carried out: `len` bytes. -/
def carryOut {E : Type} (a : UInt8) (n len : Nat) : List (Label Unit Unit E) :=
  [.bus (.tx a (.lock n)), .bus (.tx a (.read n len)), .bus (.tx a (.answer n (.ok ())))]

/-- A pump of a station gets what is number `i` on the wire of another. -/
def fetch {E : Type} (b : UInt8) (pump : Nat) (a : UInt8) (i : Nat) : List (Label Unit Unit E) :=
  [.bus (.rx b (.call pump 96)), .bus (.rx b (.lock pump)), .bus (.deliver b pump a i),
    .bus (.rx b (.iface (.act pump .lock))), .bus (.rx b (.iface (.act pump .notify)))]

/-- The offer is sent. -/
def offering {E : Type} : List (Label Unit Unit E) :=
  [.call .recvFile {}, .issueSend 0 .heapless] ++ carryOut 0x11 0 74

/-- A message of another type. -/
def greeting : Bus.SendCall := ⟨false, 0x22, 0x2001, Bus.Transmitter.plain [1, 2]⟩

/-- Both are received, the second one first, and the offer is taken. -/
def takingOffer {E : Type} : List (Label Unit Unit E) :=
  carryOut 0x11 9 4 ++ [.resumeSend, .issueSend 1 .heapless, .issueRecv 0 .heapless] ++
  fetch 0x22 10 0x11 1 ++ fetch 0x22 11 0x11 0 ++ [.bus (.rx 0x22 (.iface (.act 0 .lock))), .resumeRecv]

/-- It is accepted. -/
def accepting {E : Type} : List (Label Unit Unit E) :=
  [.store (.began (.ok ())), .issueRecv 1 .heapless] ++ carryOut 0x22 1 26 ++
  [.resumeRecv, .issueRecv 2 .heapless] ++ fetch 0x11 10 0x22 0 ++
  [.bus (.rx 0x11 (.iface (.act 1 .lock))), .resumeSend]

/-- The chunk is sent and stored. -/
def storing {E : Type} : List (Label Unit Unit E) :=
  [.issueSend 2 (.alloc 0)] ++ carryOut 0x11 2 34 ++ [.resumeSend, .issueSend 3 .heapless] ++
  fetch 0x22 12 0x11 2 ++ [.bus (.rx 0x22 (.iface (.act 2 .lock))), .resumeRecv,
    .store (.wrote (.ok ())), .store (.committed (.ok ()))]

/-- Its completion is acknowledged. -/
def completing {E : Type} : List (Label Unit Unit E) :=
  [.issueRecv 3 .heapless] ++ carryOut 0x22 3 26 ++ fetch 0x11 11 0x22 1 ++
  [.bus (.rx 0x11 (.iface (.act 3 .lock))), .resumeSend]

/-- What follows the other message. -/
def transferring {E : Type} : List (Label Unit Unit E) := takingOffer ++ accepting ++ storing ++ completing

/-- The transfer of `abc`, with the other message in between. -/
def transferRun {E : Type} : List (Label Unit Unit E) :=
  offering ++ .bus (.tx 0x11 (.call 9 greeting)) :: transferring

/-- The buffers of the stations. -/
def ninetySix : UInt8 → Bytes := fun _ ↦ List.replicate 96 0

/-- Somebody else calls `send_to`. -/
def Label.sends : Label π H E → Bool
  | .bus (.tx _ (.call _ _)) => true
  | _ => false

theorem transferRun_undisturbed {E : Type} (l : Label Unit Unit E) (h : l ∈ transferRun) :
    Undisturbed fromFirst 7 ninetySix l := by
  have hoffering : (offering : List (Label Unit Unit E)).all (!·.sends) = true := rfl
  have htransferring : (transferring : List (Label Unit Unit E)).all (!·.sends) = true := rfl
  rintro a n c - rfl
  rcases List.mem_append.mp h with h | h
  · cases List.all_eq_true.mp hoffering _ h
  rcases List.mem_cons.mp h with h | h
  · cases h
    exact Foreign.of_id _ _ (by decide)
  · cases List.all_eq_true.mp htransferring _ h

/-! ## The results -/

/-- **Integrity on the bus.**  Whatever else happens on the bus, short of messages of the same
transfer: a receive call that has taken an offer of this transfer has taken that of the sender; what
it has stored is a prefix of the file, no mismatch of digests is found, and once `commit` was called
it is the whole file.  No chunk may be as long as 2^29 bytes, which is more than a blob can have:
the file is shorter, or the limit on the chunk size is. -/
theorem overBus_intact (W : Bus.Wiring types π) (R : Route) (sha256 : Bytes → Digest) (x : SendCall)
    (buf : UInt8 → Bytes) (hsize : min x.config.senderMaxChunkSize x.totalLen < 2 ^ 29)
    (ls : List (Label π H E)) (s : BusTransfer types depth maxBody π H E)
    (h : (machine W R sha256 x).exec (BusTransfer.init x buf) ls = some s)
    (hl : ∀ l ∈ ls, Undisturbed R x.transferId buf l) (c : RecvCall H E) (hc : c ∈ s.calls)
    (root : FileReqRoot) (hroot : offered c.hist = some root)
    (hid : root.transferId = x.transferId) :
    root = (x.offer sha256).root ∧ Intact x.bytes c.hist c.pc ∧
      ∀ h r, .committed h r ∈ storeLog c.hist → written c.hist = x.bytes := by
  have hi := Inv.of_exec hsize h hl
  have hrun := hi.called c hc
  have hhonest := hi.honest c hc
  obtain ⟨rfl, -⟩ := hhonest.offered_eq hroot hid
  exact ⟨rfl, Intact.of_run hrun hhonest hroot, fun h r hmem ↦
    Intact.of_committed hrun hhonest hroot hmem⟩

theorem overBus_intact_transfer : ∃ (s : BusTransfer 4 2 96 Unit Unit Unit) (c : RecvCall Unit Unit),
    (machine fourTypes fromFirst shortSha256 wholeCall).exec (BusTransfer.init wholeCall ninetySix)
        transferRun = some s ∧ c ∈ s.calls ∧ written c.hist = abc ∧ Intact abc c.hist c.pc := by
  have hrun : ((machine fourTypes fromFirst shortSha256 wholeCall).exec
      (BusTransfer.init wholeCall ninetySix : BusTransfer 4 2 96 Unit Unit Unit) transferRun).any (fun s ↦
        s.calls.any fun c ↦ offered c.hist = some (wholeCall.offer shortSha256).root ∧
          written c.hist = abc) = true := by decide +kernel
  obtain ⟨s, hexec, hcalls⟩ := Option.any_eq_true _ _ |>.mp hrun
  obtain ⟨c, hc, hoffer⟩ := List.any_eq_true.mp hcalls
  obtain ⟨hoffer, hwritten⟩ := of_decide_eq_true hoffer
  exact ⟨s, c, hexec, hc, hwritten, (overBus_intact fourTypes fromFirst shortSha256 wholeCall
    ninetySix (by decide) transferRun s hexec transferRun_undisturbed c hc _ hoffer rfl).2.1⟩

/-- Where the sender has returned `Ok`, a receive call has committed the file. -/
theorem Inv.committed_of_ok (hi : Inv W R sha256 x buf s) (hne : x.bytes ≠ [])
    {res : SendFileResult} (hok : s.sender = .done (.ok res)) :
    ∃ c ∈ s.calls, offered c.hist = some (x.offer sha256).root ∧
      (∃ h, .committed h (.ok ()) ∈ storeLog c.hist) ∧ written c.hist = x.bytes := by
  have hsend := SendInv.of_run hi.sent
  rw [hok] at hsend
  obtain ⟨hx, hzero | ⟨k, body, ack, hhist, hdec, hid, hkind, hn⟩⟩ := hsend
  · exact absurd (List.length_eq_zero_iff.mp hzero) hne
  obtain ⟨root, rfl, hroot⟩ := decodeFileAck_eq_ok hdec
  have hmem : (.recvAck, .ack (.received (.ok root))) ∈ s.sendHist := by
    rw [hhist]
    exact List.mem_append_right _ (List.mem_singleton.mpr rfl)
  obtain ⟨a, ha, rfl⟩ := hi.acked root hmem (hroot.trans hid)
  obtain rfl : a.decoded = ack := Except.ok.inj hdec
  exact ha.committed hx hi.called hi.honest hid hkind hn

/-- **Agreement on the bus.**  When the sender of a non-empty file, with chunks of less than 2^29
bytes, has returned `Ok`, a receive call of the peer has committed exactly the bytes of the
sender. -/
theorem overBus_agreement (W : Bus.Wiring types π) (R : Route) (sha256 : Bytes → Digest)
    (x : SendCall) (buf : UInt8 → Bytes)
    (hsize : min x.config.senderMaxChunkSize x.totalLen < 2 ^ 29)
    (ls : List (Label π H E)) (s : BusTransfer types depth maxBody π H E)
    (h : (machine W R sha256 x).exec (BusTransfer.init x buf) ls = some s)
    (hl : ∀ l ∈ ls, Undisturbed R x.transferId buf l) (hne : x.bytes ≠ []) (res : SendFileResult)
    (hok : s.sender = .done (.ok res)) :
    ∃ c ∈ s.calls, offered c.hist = some (x.offer sha256).root ∧
      (∃ h, .committed h (.ok ()) ∈ storeLog c.hist) ∧ written c.hist = x.bytes :=
  (Inv.of_exec hsize h hl).committed_of_ok hne hok

theorem overBus_agreement_transfer : ∃ s : BusTransfer 4 2 96 Unit Unit Unit,
    (machine fourTypes fromFirst shortSha256 wholeCall).exec (BusTransfer.init wholeCall ninetySix)
        transferRun = some s ∧ s.sender = .done (.ok ⟨7, 3, 64, 1, 0⟩) ∧
      ∃ c ∈ s.calls, written c.hist = abc := by
  have hrun : ((machine fourTypes fromFirst shortSha256 wholeCall).exec
      (BusTransfer.init wholeCall ninetySix : BusTransfer 4 2 96 Unit Unit Unit) transferRun).any
      (fun s ↦ s.sender = .done (.ok ⟨7, 3, 64, 1, 0⟩)) = true := by decide +kernel
  obtain ⟨s, hexec, hok⟩ := Option.any_eq_true _ _ |>.mp hrun
  have hok := of_decide_eq_true hok
  obtain ⟨c, hc, -, -, hwritten⟩ := overBus_agreement fourTypes fromFirst shortSha256 wholeCall
    ninetySix (by decide) transferRun s hexec transferRun_undisturbed (by decide) _ hok
  exact ⟨s, hexec, hok, c, hc, hwritten⟩

end BusTransfer

end Thincan.FileTransfer
