import Thincan.FileTransfer.AckSoundness
import Thincan.FileTransfer.SenderSteps
import Thincan.Process.Machine

/-!
# A sender and its peer over an arbitrary network

One `send_file_with_id` call and the receive calls its peer makes, one after
another, connected by a network that may lose, duplicate, delay and reorder
every message: whatever was handed to the transport by one side can be delivered
to the other at any later moment, any number of times.  Messages of other
transfers, and bodies that cannot be read, may arrive at any moment too; what is
excluded is a message that carries the id of this transfer and was sent by
neither side.  Waits may time out, sends may fail and the stores may answer
anything.

The state keeps the history of every call, and the pools of messages are read
off the histories.  `Network.Inv` is the one invariant: each history is a run of
its function, and each message of this transfer that was taken had been handed
over by the other side.
-/

namespace Thincan.FileTransfer

open Process

/-- One receive call of the peer. -/
structure RecvCall (H E : Type) where
  variant : Variant
  cfg : ReceiverConfig
  pc : RecvPc H E := .recvReq
  hist : List (RecvEvent H E) := []

/-- The sender, and the receive calls of its peer, the newest first. -/
structure Network (H E : Type) where
  sender : SendPc
  sendHist : List SendEvent := []
  calls : List (RecvCall H E) := []

/-- Who moves, and what it is answered. -/
inductive Network.Label (H E : Type) where
  | send (r : SendResp)
  | recv (r : RecvResp H E)
  | call (variant : Variant) (cfg : ReceiverConfig)

/-- A body the network can deliver: unreadable, of another transfer, or handed
over by the other side. -/
def deliverable {α : Type} [DecidableEq α] (id : α → UInt32) (t : UInt32) (pool : List α) :
    Read α → Bool
  | .error _ => true
  | .ok root => id root ≠ t ∨ root ∈ pool

theorem deliverable_of_mem {α : Type} [DecidableEq α] {id : α → UInt32} {t : UInt32}
    {pool : List α} {root : α} (h : root ∈ pool) : deliverable id t pool (.ok root) = true :=
  decide_eq_true (.inr h)

theorem mem_of_deliverable {α : Type} [DecidableEq α] {id : α → UInt32} {t : UInt32}
    {pool : List α} {root : α} (h : deliverable id t pool (.ok root) = true) (hid : id root = t) :
    root ∈ pool := by
  simp only [deliverable, decide_eq_true_eq] at h
  rcases h with h | h
  · exact absurd hid h
  · exact h

variable {H E : Type}

/-- The call has returned. -/
def RecvPc.isDone : RecvPc H E → Bool
  | .done _ => true
  | _ => false

namespace Network

/-- The acknowledgements handed over by the receive calls. -/
def ackPool (w : Network H E) : List FileAckRoot :=
  w.calls.flatMap fun c ↦ (acks c.hist).map FileAckValue.root

/-- The offers handed over by the sender. -/
def offerPool (w : Network H E) : List FileReqRoot :=
  (offers w.sendHist).map FileOfferValue.root

/-- The chunks handed over by the sender. -/
def chunkPool (w : Network H E) : List FileChunkRoot :=
  (chunks w.sendHist).map FileChunkValue.root

/-- The network can answer the sender so. -/
def admitsSend (x : SendCall) (w : Network H E) : SendResp → Bool
  | .ack (.received body) => deliverable FileAckRoot.transferId x.transferId w.ackPool body
  | _ => true

/-- The network can answer the current receive call so. -/
def admitsRecv (x : SendCall) (w : Network H E) : RecvResp H E → Bool
  | .req (some body) => deliverable FileReqRoot.transferId x.transferId w.offerPool body
  | .chunk (.received body) =>
      deliverable FileChunkRoot.transferId x.transferId w.chunkPool body
  | _ => true

/-- One move of the network. -/
def step (sha256 : Bytes → Digest) (x : SendCall) (w : Network H E) :
    Label H E → Option (Network H E)
  | .send r =>
      if w.admitsSend x r then
        ((sendFileWithId sha256 x).fire w.sender r).map fun es ↦
          { w with sender := es.2, sendHist := w.sendHist ++ [es.1] }
      else none
  | .recv r =>
      match w.calls with
      | [] => none
      | c :: cs =>
          if w.admitsRecv x r then
            ((receiver sha256 c.variant.intake c.cfg).fire c.pc r).map fun es ↦
              { w with calls := { c with pc := es.2, hist := c.hist ++ [es.1] } :: cs }
          else none
  | .call variant cfg =>
      if w.calls.all (·.pc.isDone) then some { w with calls := { variant, cfg } :: w.calls }
      else none

/-- The network as a machine. -/
def machine (sha256 : Bytes → Digest) (x : SendCall) : Machine (Network H E) (Label H E) where
  step := step sha256 x

/-- The network when `send_file_with_id` is called. -/
def init (x : SendCall) : Network H E where
  sender := x.start

/-! ## What one move can do -/

variable {sha256 : Bytes → Digest} {x : SendCall}

/-- The moves of the network. -/
inductive Move (sha256 : Bytes → Digest) (x : SendCall) (w : Network H E) : Network H E → Prop
  | send (e : SendEvent) (s : SendPc) (ha : w.admitsSend x e.2 = true)
      (hf : (sendFileWithId sha256 x).fire w.sender e.2 = some (e, s)) :
      Move sha256 x w { w with sender := s, sendHist := w.sendHist ++ [e] }
  | recv (c : RecvCall H E) (cs : List (RecvCall H E)) (e : RecvEvent H E) (s : RecvPc H E)
      (hcalls : w.calls = c :: cs) (ha : w.admitsRecv x e.2 = true)
      (hf : (receiver sha256 c.variant.intake c.cfg).fire c.pc e.2 = some (e, s)) :
      Move sha256 x w { w with calls := { c with pc := s, hist := c.hist ++ [e] } :: cs }
  | call (variant : Variant) (cfg : ReceiverConfig) (hdone : w.calls.all (·.pc.isDone) = true) :
      Move sha256 x w { w with calls := { variant, cfg } :: w.calls }

theorem step_move {w w' : Network H E} {l : Label H E} (h : step sha256 x w l = some w') :
    Move sha256 x w w' := by
  cases l with
  | send r =>
      simp only [step] at h
      split at h
      · next ha =>
          obtain ⟨⟨e, s⟩, hf, rfl⟩ := Option.map_eq_some_iff.mp h
          obtain rfl : e.2 = r := (Coroutine.fire_eq_some.mp hf).2.1
          exact .send e s ha hf
      · cases h
  | recv r =>
      simp only [step] at h
      split at h
      · cases h
      next c cs hcalls =>
      split at h
      · next ha =>
          obtain ⟨⟨e, s⟩, hf, rfl⟩ := Option.map_eq_some_iff.mp h
          obtain rfl : e.2 = r := (Coroutine.fire_eq_some.mp hf).2.1
          exact .recv c cs e s hcalls ha hf
      · cases h
  | call variant cfg =>
      simp only [step] at h
      split at h
      · next hdone =>
          obtain rfl := Option.some.inj h
          exact .call variant cfg hdone
      · cases h

/-- And every move can be made. -/
theorem Move.step {w w' : Network H E} (hm : Move sha256 x w w') :
    ∃ l, Network.step sha256 x w l = some w' := by
  cases hm with
  | send e s ha hf => exact ⟨.send e.2, by simp only [Network.step, ha, if_true, hf, Option.map_some]⟩
  | recv c cs e s hcalls ha hf =>
      exact ⟨.recv e.2, by simp only [Network.step, hcalls, ha, if_true, hf, Option.map_some]⟩
  | call variant cfg hdone => exact ⟨.call variant cfg, by simp only [Network.step, hdone, if_true]⟩

/-- A run can be continued by any move. -/
theorem Move.reachable {w₀ w w' : Network H E} (hm : Move sha256 x w w')
    (hw : (machine sha256 x).Reachable w₀ w) : (machine sha256 x).Reachable w₀ w' := by
  obtain ⟨l, hl⟩ := hm.step
  exact hw.tail hl

end Network

/-! ## The offer -/

/-- What a receive call keeps of the offer of the sender. -/
def SendCall.kept (x : SendCall) (sha256 : Bytes → Digest) (cfg : ReceiverConfig) : Offer where
  transferId := x.transferId
  totalLen := x.totalLenU32
  senderMaxChunkSize := x.maxChunkU32
  negotiatedChunkSize := negotiate cfg.maxChunkSize x.maxChunkU32
  metadata := []
  fileHashAlgo := .sha256
  expectedHash := sha256 x.bytes

/-- The metadata of the sender is empty and its hash has the right length, so
both receivers let its offer through. -/
theorem Variant.precheck_offer (k : Variant) (sha256 : Bytes → Digest) (x : SendCall) :
    k.intake.precheck (x.offer sha256).root = none := by
  cases k with
  | recvFile => rfl
  | recvFileNoAlloc maxMetadata maxChunk =>
      have hhash : (x.offer sha256).root.hash.length ≤ 32 := Nat.le_of_eq (sha256 x.bytes).2
      have hmeta : (x.offer sha256).root.metadata.length ≤ maxMetadata := Nat.zero_le _
      simp only [Variant.intake, Intake.noAlloc, hmeta, hhash, not_true_eq_false, if_false]

theorem SendCall.Accepted.negotiate_bounds {x : SendCall} (hx : x.Accepted) (cfg : ReceiverConfig) :
    0 < (negotiate cfg.maxChunkSize x.maxChunkU32).toNat ∧
      (negotiate cfg.maxChunkSize x.maxChunkU32).toNat ≤ x.config.senderMaxChunkSize := by
  have hpos : 0 < x.maxChunkU32.toNat := by
    rw [hx.toNat_maxChunkU32]
    exact hx.config.chunk_pos
  have := FileTransfer.negotiate_bounds cfg.maxChunkSize hpos
  rwa [hx.toNat_maxChunkU32] at this

/-- **The offer of the sender is never rejected.** -/
theorem SendCall.Accepted.onReq_offer {x : SendCall} (hx : x.Accepted) (k : Variant)
    (sha256 : Bytes → Digest) (cfg : ReceiverConfig) :
    (k.intake.onReq cfg (some (.ok (x.offer sha256).root)) : RecvPc H E) =
      .beginWrite (x.kept sha256 cfg) :=
  Intake.onReqRoot_taken cfg (k.precheck_offer sha256 x) rfl rfl (hx.negotiate_bounds cfg).1

/-! ## Honest histories -/

/-- What a receive call has taken of this transfer came from the sender. -/
structure Honest (sha256 : Bytes → Digest) (x : SendCall) (hist : List (RecvEvent H E)) :
    Prop where
  offer : ∀ root, (.recvReq, .req (some (.ok root))) ∈ hist →
    root.transferId = x.transferId → root = (x.offer sha256).root ∧ x.Accepted
  chunk : ∀ root, (.recvChunk, .chunk (.received (.ok root))) ∈ hist →
    root.transferId = x.transferId → ∃ c, x.Slice c ∧ root = c.root

section Honest

variable {sha256 : Bytes → Digest} {x : SendCall} {hist : List (RecvEvent H E)}

theorem Honest.nil : Honest sha256 x ([] : List (RecvEvent H E)) := ⟨nofun, nofun⟩

theorem Honest.of_append {t : List (RecvEvent H E)} (h : Honest sha256 x (hist ++ t)) :
    Honest sha256 x hist :=
  ⟨fun root hr ↦ h.offer root (List.mem_append_left _ hr),
    fun root hr ↦ h.chunk root (List.mem_append_left _ hr)⟩

/-- The next event is honest too if the network can deliver it. -/
theorem Honest.snoc {w : Network H E} {e : RecvEvent H E} (h : Honest sha256 x hist)
    (hs : (sendFileWithId sha256 x).Run x.start w.sendHist w.sender)
    (ha : w.admitsRecv x e.2 = true) : Honest sha256 x (hist ++ [e]) := by
  constructor
  · intro root hr hid
    rcases List.mem_append.mp hr with hr | hr
    · exact h.offer root hr hid
    · obtain rfl := List.mem_singleton.mp hr
      obtain ⟨o, ho, rfl⟩ := List.mem_map.mp (mem_of_deliverable ha hid)
      obtain ⟨rfl, hx⟩ := offers_eq hs ho
      exact ⟨rfl, hx⟩
  · intro root hr hid
    rcases List.mem_append.mp hr with hr | hr
    · exact h.chunk root hr hid
    · obtain rfl := List.mem_singleton.mp hr
      obtain ⟨c, hc, rfl⟩ := List.mem_map.mp (mem_of_deliverable ha hid)
      exact ⟨c, chunks_slice hs hc, rfl⟩

/-- An offer of this transfer that the call took is the offer of the sender. -/
theorem Honest.offered_eq (h : Honest sha256 x hist) {root : FileReqRoot}
    (hroot : offered hist = some root) (hid : root.transferId = x.transferId) :
    root = (x.offer sha256).root ∧ x.Accepted := by
  obtain ⟨t, rfl⟩ := offered_eq_some hroot
  exact h.offer root List.mem_cons_self hid

end Honest

/-! ## The invariant -/

namespace Network

variable {sha256 : Bytes → Digest} {x : SendCall}

/-- **The invariant of the network.** -/
structure Inv (sha256 : Bytes → Digest) (x : SendCall) (w : Network H E) : Prop where
  /-- The sender's history is a run of `send_file_with_id`. -/
  sent : (sendFileWithId sha256 x).Run x.start w.sendHist w.sender
  /-- The history of each receive call is a run of its function. -/
  called : ∀ c ∈ w.calls, (receiver sha256 c.variant.intake c.cfg).Run .recvReq c.hist c.pc
  /-- The calls took only what the sender handed over. -/
  honest : ∀ c ∈ w.calls, Honest sha256 x c.hist
  /-- The sender took only what the calls handed over. -/
  acked : ∀ root, (.recvAck, .ack (.received (.ok root))) ∈ w.sendHist →
    root.transferId = x.transferId → root ∈ w.ackPool

theorem Inv.init : Inv sha256 x (Network.init x : Network H E) := by
  have hsent : (sendFileWithId sha256 x).Run x.start [] x.start := .nil
  refine ⟨hsent, ?_, ?_, ?_⟩
  · intro c hc
    cases hc
  · intro c hc
    cases hc
  · intro root hr
    cases hr

/-- What a call has handed over stays in the pool. -/
theorem mem_ackPool_of_recv {w : Network H E} {c : RecvCall H E} {cs : List (RecvCall H E)}
    {e : RecvEvent H E} {s : RecvPc H E} {root : FileAckRoot} (hcalls : w.calls = c :: cs)
    (h : root ∈ w.ackPool) :
    root ∈ ackPool { w with calls := { c with pc := s, hist := c.hist ++ [e] } :: cs } := by
  simp only [ackPool, hcalls, List.flatMap_cons, List.mem_append] at h ⊢
  rcases h with h | h
  · left
    rw [acks_snoc, List.map_append]
    exact List.mem_append_left _ h
  · exact .inr h

/-- **Every move keeps the invariant.** -/
theorem Inv.step {w w' : Network H E} (hi : Inv sha256 x w) (hm : Move sha256 x w w') :
    Inv sha256 x w' := by
  cases hm with
  | send e s ha hf =>
      have hsent := hi.sent.snoc hf
      refine ⟨hsent, hi.called, hi.honest, ?_⟩
      intro root hr hid
      rcases List.mem_append.mp hr with hr | hr
      · exact hi.acked root hr hid
      · obtain rfl := List.mem_singleton.mp hr
        exact mem_of_deliverable ha hid
  | recv c cs e s hcalls ha hf =>
      have hmem : ∀ d ∈ cs, d ∈ w.calls := fun d hd ↦ hcalls ▸ List.mem_cons_of_mem c hd
      have hc : c ∈ w.calls := hcalls ▸ List.mem_cons_self
      refine ⟨hi.sent, ?_, ?_, ?_⟩
      · intro d hd
        rcases List.mem_cons.mp hd with rfl | hd
        · exact (hi.called c hc).snoc hf
        · exact hi.called d (hmem d hd)
      · intro d hd
        rcases List.mem_cons.mp hd with rfl | hd
        · exact (hi.honest c hc).snoc hi.sent ha
        · exact hi.honest d (hmem d hd)
      · intro root hr hid
        exact mem_ackPool_of_recv hcalls (hi.acked root hr hid)
  | call variant cfg hdone =>
      refine ⟨hi.sent, ?_, ?_, ?_⟩
      · intro d hd
        rcases List.mem_cons.mp hd with rfl | hd
        · exact .nil
        · exact hi.called d hd
      · intro d hd
        rcases List.mem_cons.mp hd with rfl | hd
        · exact .nil
        · exact hi.honest d hd
      · intro root hr hid
        simp only [ackPool, List.flatMap_cons, List.mem_append]
        exact .inr (hi.acked root hr hid)

/-- The invariant holds in every reachable state. -/
theorem Inv.of_reachable {w : Network H E} (hw : (machine sha256 x).Reachable (Network.init x) w) :
    Inv sha256 x w :=
  hw.invariant .init fun _ _ _ hi hs ↦ hi.step (step_move hs)

end Network

end Thincan.FileTransfer
