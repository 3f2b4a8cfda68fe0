import Thincan.FileTransfer.SenderSteps
import Thincan.Process.Chunking

/-!
# How much the sender sends

The sender against a peer that acknowledges what it likes: offsets between two chunks, the
same offset again, an offset before what was sent since.  Nothing here is about the receiver.

A chunk always lies in the window above the last acknowledged offset.  A timeout sends the
cursor back to that offset, at most a window; everything else moves it forward.  So the chunks
sent and those still to send are at most the chunks of the file and a window for each timeout
(`Tally.work`).

The counts are taken from the history of the call (`SendCall.dataPhase` and the predicates
before it) and compared with the variables the code keeps.
-/

namespace Thincan.FileTransfer

open Process

/-! ## What is counted -/

/-- The acknowledgement of this transfer that an event delivers. -/
def SendCall.ownAck (x : SendCall) : SendEvent → Option Ack
  | (.recvAck, .ack (.received body)) =>
      match decodeFileAck body with
      | .ok ack => if ack.transferId = x.transferId then some ack else none
      | .error _ => none
  | _ => none

/-- The event ends a wait for an acknowledgement.  One of another transfer does not. -/
def SendCall.endsWait (x : SendCall) : SendEvent → Bool
  | (.recvAck, .ack (.received body)) =>
      match decodeFileAck body with
      | .ok ack => ack.transferId = x.transferId
      | .error _ => true
  | (.recvAck, _) => true
  | _ => false

/-- The event delivers an acknowledgement of another transfer, and the wait goes on. -/
def SendCall.skips (x : SendCall) : SendEvent → Bool
  | (.recvAck, r) => !x.endsWait (.recvAck, r)
  | _ => false

/-- The event is a wait that timed out. -/
def timedOut : SendEvent → Bool
  | (.recvAck, .ack .timeout) => true
  | _ => false

/-- The event sends a chunk. -/
def sendsChunk : SendEvent → Bool
  | (.sendChunk _, _) => true
  | _ => false

/-- The event sends the offer. -/
def sendsOffer : SendEvent → Bool
  | (.sendOffer _, _) => true
  | _ => false

/-- The acknowledgement that accepted the offer, and what happened after it. -/
def SendCall.dataPhase (x : SendCall) : List SendEvent → Option (Ack × List SendEvent)
  | [] => none
  | e :: hist =>
      match x.ownAck e with
      | some ack => if ack.kind = .accept then some (ack, hist) else x.dataPhase hist
      | none => x.dataPhase hist

/-- The waits that have ended. -/
def SendCall.waits (x : SendCall) (hist : List SendEvent) : Nat := hist.countP x.endsWait

/-- The acknowledgements of this transfer that were delivered. -/
def SendCall.ownAcks (x : SendCall) (hist : List SendEvent) : Nat :=
  hist.countP fun e ↦ (x.ownAck e).isSome

/-- The acknowledgements of other transfers that were delivered. -/
def SendCall.foreignAcks (x : SendCall) (hist : List SendEvent) : Nat := hist.countP x.skips

/-- The chunks that were sent. -/
def chunksSent (hist : List SendEvent) : Nat := hist.countP sendsChunk

/-- The offers that were sent. -/
def offersSent (hist : List SendEvent) : Nat := hist.countP sendsOffer

/-- The timeouts. -/
def timeouts (hist : List SendEvent) : Nat := hist.countP timedOut

section Snoc

variable {x : SendCall} {hist : List SendEvent} {e : SendEvent}

theorem countP_snoc {α : Type} (p : α → Bool) (l : List α) (a : α) :
    (l ++ [a]).countP p = l.countP p + (p a).toNat := by
  rw [List.countP_append, List.countP_singleton]
  cases p a <;> rfl

theorem SendCall.waits_snoc : x.waits (hist ++ [e]) = x.waits hist + (x.endsWait e).toNat :=
  countP_snoc ..

theorem SendCall.ownAcks_snoc :
    x.ownAcks (hist ++ [e]) = x.ownAcks hist + (x.ownAck e).isSome.toNat := countP_snoc ..

theorem SendCall.foreignAcks_snoc :
    x.foreignAcks (hist ++ [e]) = x.foreignAcks hist + (x.skips e).toNat := countP_snoc ..

theorem chunksSent_snoc : chunksSent (hist ++ [e]) = chunksSent hist + (sendsChunk e).toNat :=
  countP_snoc ..

theorem offersSent_snoc : offersSent (hist ++ [e]) = offersSent hist + (sendsOffer e).toNat :=
  countP_snoc ..

theorem timeouts_snoc : timeouts (hist ++ [e]) = timeouts hist + (timedOut e).toNat := countP_snoc ..

theorem SendCall.dataPhase_of_some {ack : Ack} {es : List SendEvent}
    (h : x.dataPhase hist = some (ack, es)) : x.dataPhase (hist ++ [e]) = some (ack, es ++ [e]) := by
  induction hist with
  | nil => cases h
  | cons d hist ih =>
      simp only [List.cons_append, dataPhase] at h ⊢
      split
      · next a ha =>
          rw [ha] at h
          dsimp only at h
          split at h
          · next hk =>
              obtain ⟨rfl, rfl⟩ := Prod.mk.inj (Option.some.inj h)
              rw [if_pos hk]
          · next hk =>
              rw [if_neg hk]
              exact ih h
      · next ha =>
          rw [ha] at h
          exact ih h

theorem SendCall.dataPhase_of_none (h : x.dataPhase hist = none) :
    x.dataPhase (hist ++ [e]) = x.dataPhase [e] := by
  induction hist with
  | nil => rfl
  | cons d hist ih =>
      simp only [List.cons_append, dataPhase] at h ⊢
      split
      · next a ha =>
          rw [ha] at h
          dsimp only at h
          split at h
          · cases h
          · next hk =>
              rw [if_neg hk]
              exact ih h
      · next ha =>
          rw [ha] at h
          exact ih h

end Snoc

/-! ## The invariant -/

variable {sha256 : Bytes → Digest} {x : SendCall} {hist : List SendEvent} {e : SendEvent}

/-- The offer loop after `n` timeouts; `waiting` is one while an offer waits for its answer. -/
structure OfferTally (x : SendCall) (hist : List SendEvent) (n waiting : Nat) : Prop where
  phase : x.dataPhase hist = none
  chunks : chunksSent hist = 0
  waits : x.waits hist = x.ownAcks hist + n
  le : n ≤ x.config.maxRetries
  offers : offersSent hist ≤ x.waits hist + waiting

/-- The variables of the data phase against its history. -/
structure Tally (x : SendCall) (hist : List SendEvent) (v : SendVars) : Prop where
  phase : ∃ ack es, x.dataPhase hist = some (ack, es) ∧ v.chunkSize = ack.chunkSize.toNat ∧
    v.retries = timeouts es
  chunks : v.chunksSent = chunksSent hist
  waits : x.waits hist ≤ x.ownAcks hist + x.config.maxRetries + v.retries
  offers : offersSent hist ≤ x.waits hist
  retries_le : v.retries ≤ x.config.maxRetries
  window : v.nextToSend.toNat ≤ v.lastAcked.toNat + x.config.windowChunks * v.chunkSize
  covers : v.nextToSend.toNat ≤ v.chunksSent * v.chunkSize
  work : v.chunksSent + (x.totalLen - v.nextToSend.toNat) ⌈/⌉ v.chunkSize ≤
    x.totalLen ⌈/⌉ v.chunkSize + v.retries * min x.config.windowChunks x.totalLen

/-- The timeouts of the data phase after which the call went on. -/
def SendCall.survived (x : SendCall) (es : List SendEvent) : Nat :=
  min (timeouts es) x.config.maxRetries

/-- What is never exceeded. -/
structure Bounded (x : SendCall) (hist : List SendEvent) : Prop where
  waits : x.waits hist ≤ x.ownAcks hist + 2 * x.config.maxRetries + 1
  offers : offersSent hist ≤ x.waits hist + 1
  before : x.dataPhase hist = none → chunksSent hist = 0
  chunks : ∀ ack es, x.dataPhase hist = some (ack, es) →
    chunksSent hist ≤ x.totalLen ⌈/⌉ ack.chunkSize.toNat +
      x.survived es * min x.config.windowChunks x.totalLen

/-- The returned counts against the history. -/
structure Reported (x : SendCall) (hist : List SendEvent) (r : SendFileResult) : Prop where
  phase : ∃ ack es, x.dataPhase hist = some (ack, es) ∧ r.chunkSize = ack.chunkSize.toNat ∧
    r.retries = timeouts es
  chunks : r.chunksSent = chunksSent hist
  retries_le : r.retries ≤ x.config.maxRetries
  covers : x.totalLen ⌈/⌉ r.chunkSize ≤ r.chunksSent

/-- **The invariant of the work done**, against any peer. -/
def WorkInv (x : SendCall) (hist : List SendEvent) : SendPc → Prop
  | .offerSend n => OfferTally x hist n 0
  | .offerWait n => OfferTally x hist n 1
  | .chunkSend v => Tally x hist v ∧
      (v.nextToSend.toNat - v.lastAcked.toNat) ⌈/⌉ v.chunkSize < x.config.windowChunks
  | .ackWait v => Tally x hist v
  | .done (.ok r) => Bounded x hist ∧ Reported x hist r
  | .done (.error _) => Bounded x hist

/-! ## One more event -/

/-- Whatever ends the offer loop, the bounds hold. -/
theorem OfferTally.bounded_snoc {n waiting : Nat} (h : OfferTally x hist n waiting)
    (hw : (sendsOffer e).toNat + waiting ≤ 1) (hc : sendsChunk e = false) :
    Bounded x (hist ++ [e]) := by
  have hwaits := h.waits
  have hle := h.le
  have hoffers := h.offers
  have hend : (x.endsWait e).toNat ≤ 1 := Bool.toNat_le _
  have hchunks : chunksSent (hist ++ [e]) = 0 := by
    rw [chunksSent_snoc, h.chunks, hc]
    rfl
  constructor
  · rw [x.waits_snoc, x.ownAcks_snoc]
    omega
  · rw [x.waits_snoc, offersSent_snoc]
    omega
  · exact fun _ ↦ hchunks
  · intro ack es _
    rw [hchunks]
    exact Nat.zero_le _

/-- The bounds leave room for one more wait, and for a chunk as long as there is one to send. -/
theorem Tally.bounded_of {v : SendVars} {hist' : List SendEvent} {ack : Ack} {es : List SendEvent}
    (h : Tally x hist v) (hphase : x.dataPhase hist' = some (ack, es))
    (hsize : v.chunkSize = ack.chunkSize.toNat) (hretries : v.retries ≤ timeouts es)
    (hwaits : x.waits hist' ≤ x.waits hist + 1) (hown : x.ownAcks hist ≤ x.ownAcks hist')
    (hoffers : offersSent hist' ≤ x.waits hist' + 1)
    (hchunks : chunksSent hist' ≤
      chunksSent hist + (x.totalLen - v.nextToSend.toNat) ⌈/⌉ v.chunkSize) :
    Bounded x hist' := by
  have hle := h.retries_le
  have hbound := h.waits
  refine ⟨by omega, hoffers, by rw [hphase]; nofun, ?_⟩
  intro ack' es' h'
  rw [hphase] at h'
  obtain ⟨rfl, rfl⟩ := Prod.mk.inj (Option.some.inj h')
  have hsurvived : v.retries ≤ x.survived es := Nat.le_min.mpr ⟨hretries, hle⟩
  have hmul := Nat.mul_le_mul_right (min x.config.windowChunks x.totalLen) hsurvived
  have hwork := h.work
  rw [h.chunks, hsize] at hwork
  rw [hsize] at hchunks
  omega

/-- Whatever ends the data phase, the bounds hold. -/
theorem Tally.bounded_snoc {v : SendVars} (h : Tally x hist v) (ho : sendsOffer e = false)
    (hc : (sendsChunk e).toNat ≤ (x.totalLen - v.nextToSend.toNat) ⌈/⌉ v.chunkSize) :
    Bounded x (hist ++ [e]) := by
  obtain ⟨ack, es, hphase, hsize, hretries⟩ := h.phase
  have hoffers := h.offers
  have hend : (x.endsWait e).toNat ≤ 1 := Bool.toNat_le _
  apply h.bounded_of (x.dataPhase_of_some hphase) hsize
  · rw [timeouts_snoc, hretries]
    exact Nat.le_add_right ..
  · rw [x.waits_snoc]
    omega
  · rw [x.ownAcks_snoc]
    exact Nat.le_add_right ..
  · rw [x.waits_snoc, offersSent_snoc, ho]
    exact Nat.le_add_right_of_le (Nat.le_add_right_of_le hoffers)
  · rw [chunksSent_snoc]
    exact Nat.add_le_add_left hc _

theorem Tally.bounded {v : SendVars} (h : Tally x hist v) : Bounded x hist := by
  obtain ⟨ack, es, hphase, hsize, hretries⟩ := h.phase
  exact h.bounded_of hphase hsize (Nat.le_of_eq hretries) (Nat.le_add_right ..) (Nat.le_refl _)
    (Nat.le_add_right_of_le h.offers) (Nat.le_add_right ..)

/-- A call that ends with everything acknowledged has sent every chunk. -/
theorem Tally.reported {v : SendVars} (h : Tally x hist v) (hv : x.Cursors v)
    (hend : x.totalLen ≤ v.nextToSend.toNat) : Reported x hist (x.result v) := by
  refine ⟨h.phase, h.chunks, h.retries_le, ?_⟩
  have hcovers := h.covers
  change x.totalLen ⌈/⌉ v.chunkSize ≤ v.chunksSent
  rw [ceilDiv_le_iff_le_mul hv.chunk_pos, Nat.mul_comm]
  omega

/-- The counts of the data phase follow an event; what is about the cursors is left. -/
theorem Tally.snoc {v v' : SendVars} (h : Tally x hist v) (ho : sendsOffer e = false)
    (hwait : (x.endsWait e).toNat ≤ (x.ownAck e).isSome.toNat + (timedOut e).toNat)
    (hsize : v'.chunkSize = v.chunkSize) (hretries : v'.retries = v.retries + (timedOut e).toNat)
    (hsent : v'.chunksSent = v.chunksSent + (sendsChunk e).toNat)
    (hle : v'.retries ≤ x.config.maxRetries)
    (hwindow : v'.nextToSend.toNat ≤ v'.lastAcked.toNat + x.config.windowChunks * v.chunkSize)
    (hcovers : v'.nextToSend.toNat ≤ v'.chunksSent * v.chunkSize)
    (hwork : v'.chunksSent + (x.totalLen - v'.nextToSend.toNat) ⌈/⌉ v.chunkSize ≤
      x.totalLen ⌈/⌉ v.chunkSize + v'.retries * min x.config.windowChunks x.totalLen) :
    Tally x (hist ++ [e]) v' := by
  obtain ⟨ack, es, hphase, hc, hr⟩ := h.phase
  have hwaits := h.waits
  have hoffers := h.offers
  refine ⟨⟨ack, es ++ [e], x.dataPhase_of_some hphase, hsize.trans hc, ?_⟩, ?_, ?_, ?_, hle,
    hsize ▸ hwindow, hsize ▸ hcovers, hsize ▸ hwork⟩
  · rw [hretries, timeouts_snoc, hr]
  · rw [hsent, chunksSent_snoc, h.chunks]
  · rw [x.waits_snoc, x.ownAcks_snoc]
    omega
  · rw [x.waits_snoc, offersSent_snoc, ho]
    exact Nat.le_add_right_of_le hoffers

/-- An event of a wait that leaves the cursors where they are. -/
theorem Tally.snoc_same {v : SendVars} (h : Tally x hist v) (ho : sendsOffer e = false)
    (hc : sendsChunk e = false) (ht : timedOut e = false)
    (hwait : (x.endsWait e).toNat ≤ (x.ownAck e).isSome.toNat) : Tally x (hist ++ [e]) v := by
  exact h.snoc ho (Nat.le_add_right_of_le hwait) rfl (by rw [ht]; rfl) (by rw [hc]; rfl) h.retries_le
    h.window h.covers h.work

/-- The loop conditions keep the invariant; when they end the call, its counts are right. -/
theorem Tally.dataLoop {v : SendVars} (h : Tally x hist v) (hv : x.Cursors v) :
    WorkInv x hist (x.dataLoop v) := by
  have hcase := x.dataLoop_case v
  generalize x.dataLoop v = s at hcase ⊢
  cases hcase with
  | finished hge => exact ⟨h.bounded, h.reported hv (Nat.le_trans hge hv.acked_le)⟩
  | send hlt hnext hwin => exact ⟨h, hwin⟩
  | wait hlt hfull => exact h

/-! ## Events of the two phases -/

theorem SendCall.endsWait_received {body : Read FileAckRoot} {ack : Ack}
    (h : decodeFileAck body = .ok ack) :
    x.endsWait (.recvAck, .ack (.received body)) = decide (ack.transferId = x.transferId) := by
  simp only [endsWait, h]

theorem SendCall.ownAck_received {body : Read FileAckRoot} {ack : Ack}
    (h : decodeFileAck body = .ok ack) :
    x.ownAck (.recvAck, .ack (.received body)) =
      if ack.transferId = x.transferId then some ack else none := by
  simp only [ownAck, h]

/-- An acknowledgement of this transfer is a wait that ended with one. -/
theorem SendCall.own_event {body : Read FileAckRoot} {ack : Ack} (h : decodeFileAck body = .ok ack)
    (hid : ack.transferId = x.transferId) :
    x.endsWait (.recvAck, .ack (.received body)) = true ∧
      x.ownAck (.recvAck, .ack (.received body)) = some ack := by
  rw [endsWait_received h, ownAck_received h, if_pos hid, decide_eq_true hid]
  exact ⟨rfl, rfl⟩

/-- One of another transfer is nothing that is counted. -/
theorem SendCall.foreign_event {body : Read FileAckRoot} {ack : Ack} (h : decodeFileAck body = .ok ack)
    (hid : ack.transferId ≠ x.transferId) :
    x.endsWait (.recvAck, .ack (.received body)) = false ∧
      x.ownAck (.recvAck, .ack (.received body)) = none := by
  rw [endsWait_received h, ownAck_received h, if_neg hid, decide_eq_false hid]
  exact ⟨rfl, rfl⟩

/-- The offer loop goes on. -/
theorem OfferTally.snoc {n n' waiting waiting' : Nat} (h : OfferTally x hist n waiting)
    (hphase : x.dataPhase [e] = none) (hc : sendsChunk e = false) (hle : n' ≤ x.config.maxRetries)
    (hwait : (x.endsWait e).toNat + n = (x.ownAck e).isSome.toNat + n')
    (hoffer : (sendsOffer e).toNat + waiting ≤ (x.endsWait e).toNat + waiting') :
    OfferTally x (hist ++ [e]) n' waiting' := by
  have hwaits := h.waits
  have hoffers := h.offers
  refine ⟨?_, ?_, ?_, hle, ?_⟩
  · rw [x.dataPhase_of_none h.phase, hphase]
  · rw [chunksSent_snoc, h.chunks, hc]
    rfl
  · rw [x.waits_snoc, x.ownAcks_snoc]
    omega
  · rw [x.waits_snoc, offersSent_snoc]
    omega

/-- The acknowledgement that starts the data phase. -/
theorem OfferTally.accepted {n : Nat} {body : Read FileAckRoot} {ack : Ack}
    (h : OfferTally x hist n 1) (hdecode : decodeFileAck body = .ok ack)
    (hid : ack.transferId = x.transferId) (hk : ack.kind = .accept) :
    Tally x (hist ++ [(.recvAck, .ack (.received body))]) { chunkSize := ack.chunkSize.toNat } := by
  obtain ⟨hend, hown⟩ := x.own_event hdecode hid
  have hwaits := h.waits
  have hoffers := h.offers
  have hle := h.le
  refine ⟨⟨ack, [], ?_, rfl, rfl⟩, ?_, ?_, ?_, Nat.zero_le _, Nat.zero_le _, Nat.zero_le _, ?_⟩
  · rw [x.dataPhase_of_none h.phase]
    simp only [SendCall.dataPhase, hown, hk, if_true]
  · rw [chunksSent_snoc, h.chunks]
    rfl
  · rw [x.waits_snoc, x.ownAcks_snoc, hend, hown, Option.isSome_some, Bool.toNat_true]
    omega
  · rw [x.waits_snoc, offersSent_snoc, hend]
    exact hoffers
  · exact Nat.le_of_eq (by simp)

/-- A timeout sends the cursor back by a window at most. -/
theorem Tally.rewound {v : SendVars} (h : Tally x hist v) (hv : x.Cursors v)
    (hle : v.retries + 1 ≤ x.config.maxRetries) :
    Tally x (hist ++ [(.recvAck, .ack .timeout)])
      { v with retries := v.retries + 1, nextToSend := v.lastAcked } := by
  have hcovers := h.covers
  have hacked := hv.acked_le
  have hnext := hv.next_le
  have hback : (v.nextToSend.toNat - v.lastAcked.toNat) ⌈/⌉ v.chunkSize ≤
      min x.config.windowChunks x.totalLen := by
    apply Nat.le_min.mpr
    constructor
    · have hwindow := h.window
      rw [ceilDiv_le_iff_le_mul hv.chunk_pos, Nat.mul_comm]
      omega
    · have hself := Chunking.ceilDiv_le_self hv.chunk_pos (v.nextToSend.toNat - v.lastAcked.toNat)
      omega
  have hrewind := Chunking.ceilDiv_rewind hv.chunk_pos hacked hnext
  have hwork := h.work
  refine h.snoc rfl (Nat.le_refl 1) rfl rfl rfl hle ?_ ?_ ?_
  · exact Nat.le_add_right ..
  · exact Nat.le_trans hacked hcovers
  · change v.chunksSent + (x.totalLen - v.lastAcked.toNat) ⌈/⌉ v.chunkSize ≤
      _ + (v.retries + 1) * min x.config.windowChunks x.totalLen
    rw [Nat.add_mul, Nat.one_mul]
    omega

/-- A chunk moves the cursor on, inside the window. -/
theorem Tally.advanced {v : SendVars} {n : UInt32} {c : FileChunkValue} (h : Tally x hist v)
    (hv : x.Cursors v) (hnext : v.nextToSend.toNat < x.totalLen)
    (hwin : (v.nextToSend.toNat - v.lastAcked.toNat) ⌈/⌉ v.chunkSize < x.config.windowChunks)
    (hn : n.toNat = min (v.nextToSend.toNat + v.chunkSize) x.totalLen) :
    Tally x (hist ++ [(.sendChunk c, .sent .ok)])
      { v with nextToSend := n, chunksSent := v.chunksSent + 1 } := by
  have hcovers := h.covers
  have hwork := h.work
  have hwindow := Chunking.add_le_of_ceilDiv_lt hv.chunk_pos hwin
  have hadvance := Chunking.ceilDiv_advance hv.chunk_pos hnext
  rw [← hn] at hadvance
  refine h.snoc rfl (Nat.zero_le _) rfl rfl rfl h.retries_le ?_ ?_ ?_
  · change n.toNat ≤ v.lastAcked.toNat + _
    omega
  · change n.toNat ≤ (v.chunksSent + 1) * v.chunkSize
    rw [Nat.add_mul, Nat.one_mul]
    omega
  · change v.chunksSent + 1 + (x.totalLen - n.toNat) ⌈/⌉ v.chunkSize ≤
      _ + v.retries * min x.config.windowChunks x.totalLen
    omega

/-- An acknowledgement that fits moves the start of the window. -/
theorem Tally.acknowledged {v : SendVars} {body : Read FileAckRoot} {ack : Ack} (h : Tally x hist v)
    (hdecode : decodeFileAck body = .ok ack) (hid : ack.transferId = x.transferId)
    (hfit : x.Fits v ack.nextOffset) :
    Tally x (hist ++ [(.recvAck, .ack (.received body))]) { v with lastAcked := ack.nextOffset } := by
  obtain ⟨hend, hown⟩ := x.own_event hdecode hid
  have hwindow := h.window
  have hge := hfit.ge
  refine h.snoc rfl (by rw [hend, hown]; exact Nat.le_refl 1) rfl rfl rfl h.retries_le ?_ h.covers h.work
  change v.nextToSend.toNat ≤ ack.nextOffset.toNat + _
  omega

/-- What the data loop makes of its wait. -/
theorem WorkInv.onAck {v : SendVars} {a : Arrival (Read FileAckRoot)} {s : SendPc}
    (h : Tally x hist v) (hv : x.Cursors v) (hcase : AckCase x v a s) :
    WorkInv x (hist ++ [(.recvAck, .ack a)]) s := by
  cases hcase with
  | foreign body ack hdecode hid =>
      obtain ⟨hend, hown⟩ := x.foreign_event hdecode hid
      exact h.snoc_same rfl rfl rfl (by rw [hend]; exact Nat.zero_le _)
  | timeout hle =>
      exact (h.rewound hv hle).dataLoop ⟨hv.chunk_pos, hv.chunk_le, Nat.le_refl _,
        Nat.le_trans hv.acked_le hv.next_le⟩
  | exhausted | failed | refused | invalid => exact h.bounded_snoc rfl (Nat.zero_le _)
  | accept body ack hdecode hid hk =>
      obtain ⟨hend, hown⟩ := x.own_event hdecode hid
      exact (h.snoc_same rfl rfl rfl (by rw [hend, hown]; exact Nat.le_refl 1)).dataLoop hv
  | progress body ack hdecode hid hk hfit =>
      exact (h.acknowledged hdecode hid hfit).dataLoop ⟨hv.chunk_pos, hv.chunk_le, hfit.le_sent,
        hv.next_le⟩
  | complete body ack hdecode hid hk hfit htotal =>
      have h' := h.acknowledged hdecode hid hfit
      refine ⟨h'.bounded, h'.reported ⟨hv.chunk_pos, hv.chunk_le, hfit.le_sent, hv.next_le⟩ ?_⟩
      change x.totalLen ≤ v.nextToSend.toNat
      rw [← htotal]
      exact hfit.le_sent

/-- What the offer loop makes of its wait. -/
theorem WorkInv.onOfferAck {n : Nat} {a : Arrival (Read FileAckRoot)} {s : SendPc}
    (h : OfferTally x hist n 1) (hcase : OfferAckCase x n a s) :
    WorkInv x (hist ++ [(.recvAck, .ack a)]) s := by
  cases hcase with
  | foreign body ack hdecode hid =>
      obtain ⟨hend, hown⟩ := x.foreign_event hdecode hid
      apply h.snoc (by simp only [SendCall.dataPhase, hown]) rfl h.le
      · rw [hend, hown]
        rfl
      · rw [hend]
        rfl
  | timeout hle =>
      have hone : 1 + n = 0 + (n + 1) := by omega
      exact h.snoc rfl rfl hle hone (Nat.le_refl 1)
  | exhausted | failed | refused | badSize => exact h.bounded_snoc (Nat.le_refl 1) rfl
  | late body ack hdecode hid hk =>
      obtain ⟨hend, hown⟩ := x.own_event hdecode hid
      have hno : ack.kind ≠ .accept := by
        rcases hk with hk | hk <;> rw [hk] <;> nofun
      apply h.snoc (by simp only [SendCall.dataPhase, hown, hno, if_false]) rfl h.le
      · rw [hend, hown]
        rfl
      · rw [hend]
        exact Nat.le_refl 1
  | accepted body ack hdecode hid hk hpos hle =>
      exact (h.accepted hdecode hid hk).dataLoop ⟨hpos, hle, Nat.le_refl _, Nat.zero_le _⟩

/-- **Every step keeps the invariant of the work done.** -/
theorem WorkInv.step {s s' : SendPc} (hi : SendInv x hist s) (h : WorkInv x hist s)
    (ht : SendTransition sha256 x s e s') : WorkInv x (hist ++ [e]) s' := by
  cases ht with
  | offerSent n r =>
      have h : OfferTally x hist n 0 := h
      have hsent (r : SendOutcome) :
          OfferTally x (hist ++ [(.sendOffer (x.offer sha256), .sent r)]) n 1 :=
        h.snoc rfl rfl h.le rfl (Nat.le_refl 1)
      cases r with
      | ok => exact hsent .ok
      | failed kind handed =>
          simp only [onOfferSent]
          split
          · exact h.bounded_snoc (Nat.le_refl 1) rfl
          · exact hsent (.failed kind handed)
  | offerAck n a => exact WorkInv.onOfferAck h (x.onOfferAck_case n a)
  | chunkSent v r =>
      obtain ⟨hx, hv, hacked, hnext⟩ := hi
      obtain ⟨h, hwin⟩ := h
      have hcase := hx.onChunkSent_case (Nat.le_of_lt hnext) r
      generalize x.onChunkSent v r = s at hcase ⊢
      cases hcase with
      | failed kind handed =>
          exact h.bounded_snoc rfl (Nat.le_trans (Nat.le_add_left ..)
            (Chunking.ceilDiv_advance hv.chunk_pos hnext))
      | ok n hn =>
          have hle := hv.acked_le
          apply (h.advanced hv hnext hwin hn).dataLoop
          refine ⟨hv.chunk_pos, hv.chunk_le, ?_, ?_⟩
          · show v.lastAcked.toNat ≤ n.toNat
            omega
          · show n.toNat ≤ x.totalLen
            omega
  | ack v a =>
      obtain ⟨hx, hv, hacked⟩ := hi
      exact WorkInv.onAck h hv (x.onAck_case v a)

/-- The invariant of the work done holds along every run. -/
theorem WorkInv.of_run {s : SendPc} (hr : (sendFileWithId sha256 x).Run x.start hist s) :
    WorkInv x hist s := by
  induction hr with
  | nil =>
      rcases x.start_eq with ⟨-, hs⟩ | ⟨-, hs⟩
      · rw [hs]
        exact ⟨rfl, rfl, rfl, Nat.zero_le _, Nat.zero_le _⟩
      · rw [hs]
        exact ⟨Nat.zero_le _, Nat.zero_le _, fun _ ↦ rfl, nofun⟩
  | snoc hr hf ih => exact ih.step (SendInv.of_run hr) (sender_fire hf)

/-! ## The window -/

/-- The local variables at an await point of the data phase. -/
def SendPc.vars : SendPc → Option SendVars
  | .chunkSend v | .ackWait v => some v
  | _ => none

/-- Later values of the variables: the chunk size is the accepted one, and nothing
acknowledged is taken back. -/
structure SendVars.Precedes (v w : SendVars) : Prop where
  chunkSize_eq : w.chunkSize = v.chunkSize
  acked_le : v.lastAcked.toNat ≤ w.lastAcked.toNat

/-- What can follow a state of the data phase with the variables `v`. -/
def After (v : SendVars) : SendPc → Prop
  | .offerSend _ | .offerWait _ => False
  | .chunkSend w | .ackWait w => v.Precedes w
  | .done _ => True

theorem After.dataLoop {v w : SendVars} (h : v.Precedes w) : After v (x.dataLoop w) := by
  have hcase := x.dataLoop_case w
  generalize x.dataLoop w = s at hcase ⊢
  cases hcase with
  | finished hge => trivial
  | send hlt hnext hwin => exact h
  | wait hlt hfull => exact h

theorem After.step {v : SendVars} {s s' : SendPc} (h : After v s)
    (ht : SendTransition sha256 x s e s') : After v s' := by
  cases ht with
  | offerSent | offerAck => exact h.elim
  | chunkSent w r =>
      have h : v.Precedes w := h
      cases r with
      | failed kind handed => trivial
      | ok =>
          simp only [SendCall.onChunkSent]
          split
          · trivial
          · split
            · trivial
            · exact After.dataLoop ⟨h.chunkSize_eq, h.acked_le⟩
  | ack w a =>
      have h : v.Precedes w := h
      have hcase := x.onAck_case w a
      generalize x.onAck w (waitForTransferAck x.transferId a) = s at hcase ⊢
      cases hcase with
      | foreign => exact h
      | exhausted | failed | refused | invalid | complete => trivial
      | timeout => exact After.dataLoop ⟨h.chunkSize_eq, h.acked_le⟩
      | accept => exact After.dataLoop h
      | progress body ack hdecode hid hk hfit =>
          exact After.dataLoop ⟨h.chunkSize_eq, Nat.le_trans h.acked_le hfit.ge⟩

theorem After.of_run {v : SendVars} {s s' : SendPc} (hv : s.vars = some v)
    (hr : (sendFileWithId sha256 x).Run s hist s') : After v s' := by
  induction hr with
  | nil =>
      cases s with
      | chunkSend w | ackWait w =>
          obtain rfl := Option.some.inj hv
          exact ⟨rfl, Nat.le_refl _⟩
      | offerSend | offerWait | done => cases hv
  | snoc hr hf ih => exact ih.step (sender_fire hf)

theorem SendInv.cursors {s : SendPc} {v : SendVars} (hi : SendInv x hist s) (hv : s.vars = some v) :
    x.Cursors v := by
  cases s with
  | chunkSend w | ackWait w =>
      obtain rfl := Option.some.inj hv
      exact hi.2.1
  | offerSend | offerWait | done => cases hv

theorem WorkInv.tally {s : SendPc} {v : SendVars} (h : WorkInv x hist s) (hv : s.vars = some v) :
    Tally x hist v := by
  cases s with
  | chunkSend w =>
      obtain rfl := Option.some.inj hv
      exact h.1
  | ackWait w =>
      obtain rfl := Option.some.inj hv
      exact h
  | offerSend | offerWait | done => cases hv

/-- The chunk at the cursor: a piece of the file, of the accepted size unless it is the last. -/
theorem SendCall.chunkData_spec {v : SendVars} (hpos : 0 < v.chunkSize)
    (hnext : v.nextToSend.toNat < x.totalLen) :
    x.chunkData v = (x.bytes.drop v.nextToSend.toNat).take (x.chunkData v).length ∧
      1 ≤ (x.chunkData v).length ∧ (x.chunkData v).length ≤ v.chunkSize ∧
      ((x.chunkData v).length < v.chunkSize →
        v.nextToSend.toNat + (x.chunkData v).length = x.totalLen) := by
  have hlen := x.length_chunkData (Nat.le_of_lt hnext)
  refine ⟨?_, by omega, by omega, by omega⟩
  rw [hlen]
  rfl

/-- **The window and its content**, against any peer: what the sender hands over is a piece of
the file inside the window above the last acknowledged offset; the cursors stay in order and
inside the file, and the acknowledged one only grows.  The chunk size is that of the `Accept`
that was taken, within the limit of the configuration, and does not change. -/
theorem sender_window {s : SendPc} (hr : (sendFileWithId sha256 x).Run x.start hist s) :
    (∀ ch, (sendFileWithId sha256 x).request s = some (.sendChunk ch) →
      ∃ v, s.vars = some v ∧ ch.transferId = x.transferId ∧
        ch.data = (x.bytes.drop ch.offset.toNat).take ch.data.length ∧
        1 ≤ ch.data.length ∧ ch.data.length ≤ v.chunkSize ∧
        (ch.data.length < v.chunkSize → ch.offset.toNat + ch.data.length = x.totalLen) ∧
        v.lastAcked.toNat ≤ ch.offset.toNat ∧
        ch.offset.toNat + ch.data.length ≤
          min x.totalLen (v.lastAcked.toNat + x.config.windowChunks * v.chunkSize)) ∧
    (∀ v, s.vars = some v → v.lastAcked.toNat ≤ v.nextToSend.toNat ∧
      v.nextToSend.toNat ≤ x.totalLen ∧ 1 ≤ v.chunkSize ∧
      v.chunkSize ≤ x.config.senderMaxChunkSize ∧
      ∃ accept es, x.dataPhase hist = some (accept, es) ∧ v.chunkSize = accept.chunkSize.toNat) ∧
    ∀ v hist' s' v', s.vars = some v → (sendFileWithId sha256 x).Run s hist' s' →
      s'.vars = some v' → v.lastAcked ≤ v'.lastAcked ∧ v'.chunkSize = v.chunkSize := by
  have hi := SendInv.of_run hr
  have hw := WorkInv.of_run hr
  refine ⟨?_, ?_, ?_⟩
  · intro ch hch
    cases s with
    | chunkSend v =>
        obtain rfl : x.chunk v = ch := SendReq.sendChunk.inj (Option.some.inj hch)
        obtain ⟨hx, hv, hacked, hnext⟩ := hi
        obtain ⟨hdata, hpos, hle, hlast⟩ := x.chunkData_spec hv.chunk_pos hnext
        have hwindow := Chunking.add_le_of_ceilDiv_lt hv.chunk_pos hw.2
        have hlen := x.length_chunkData (Nat.le_of_lt hnext)
        have hle' := hv.acked_le
        refine ⟨v, rfl, rfl, hdata, hpos, hle, hlast, hle', ?_⟩
        change v.nextToSend.toNat + (x.chunkData v).length ≤ _
        omega
    | offerSend | offerWait | ackWait | done => cases hch
  · intro v hv
    have hcur := hi.cursors hv
    obtain ⟨accept, es, hphase, hsize, -⟩ := (hw.tally hv).phase
    exact ⟨hcur.acked_le, hcur.next_le, hcur.chunk_pos, hcur.chunk_le, accept, es, hphase, hsize⟩
  · intro v hist' s' v' hv hr' hv'
    have hafter := After.of_run hv hr'
    cases s' with
    | chunkSend w | ackWait w =>
        obtain rfl := Option.some.inj hv'
        exact ⟨UInt32.le_iff_toNat_le.mpr hafter.acked_le, hafter.chunkSize_eq⟩
    | offerSend | offerWait | done => cases hv'

/-- Both chunks of `abc` are sent, the peer acknowledges the first byte, and the wait after
that times out. -/
def abcUnaligned : List SendResp :=
  [.sent .ok, .ack (.received (.ok (fileAckAccept 7 2).root)), .sent .ok, .sent .ok,
    .ack (.received (.ok (fileAckProgress 7 1).root)), .ack .timeout]

/-- After an acknowledgement between two chunks, the next chunk starts there and has the
accepted size. -/
theorem sender_window_unaligned : ∃ hist v hist' v',
    (sendFileWithId shortSha256 abcCall).Run abcCall.start hist (.chunkSend v) ∧
      v.lastAcked = 1 ∧ v.nextToSend = 1 ∧ v.lastAcked.toNat ≤ v.nextToSend.toNat ∧
      v.nextToSend.toNat ≤ abcCall.totalLen ∧
      (∃ accept es, abcCall.dataPhase hist = some (accept, es) ∧
        v.chunkSize = accept.chunkSize.toNat) ∧
      (abcCall.chunk v).data = (abc.drop 1).take (abcCall.chunk v).data.length ∧
      (abcCall.chunk v).offset.toNat + (abcCall.chunk v).data.length ≤ 3 ∧
      (sendFileWithId shortSha256 abcCall).Run (.chunkSend v) hist' (.ackWait v') ∧
      v.lastAcked ≤ v'.lastAcked ∧ v'.chunkSize = v.chunkSize := by
  have hexec : (sendFileWithId shortSha256 abcCall).exec abcCall.start abcUnaligned =
      some (_, .chunkSend ⟨2, 2, 1, 1, 1⟩) := rfl
  have hrun : (sendFileWithId shortSha256 abcCall).Run abcCall.start _ (.chunkSend ⟨2, 2, 1, 1, 1⟩) :=
    .of_exec .nil hexec
  have hexec' : (sendFileWithId shortSha256 abcCall).exec (.chunkSend ⟨2, 2, 1, 1, 1⟩) [.sent .ok] =
      some (_, .ackWait ⟨2, 3, 1, 1, 3⟩) := rfl
  have hlater : (sendFileWithId shortSha256 abcCall).Run (.chunkSend ⟨2, 2, 1, 1, 1⟩) _
      (.ackWait ⟨2, 3, 1, 1, 3⟩) := .of_exec .nil hexec'
  obtain ⟨hchunk, hvars, hafter⟩ := sender_window hrun
  obtain ⟨hacked, hnext, -, -, haccept⟩ := hvars _ rfl
  obtain ⟨v, hv, -, hdata, -, -, -, -, hend⟩ := hchunk _ rfl
  obtain rfl := Option.some.inj hv
  obtain ⟨hle, hsize⟩ := hafter _ _ _ _ rfl hlater rfl
  exact ⟨_, _, _, _, hrun, rfl, rfl, hacked, hnext, haccept, hdata,
    Nat.le_trans hend (Nat.min_le_left ..), hlater, hle, hsize⟩

/-! ## The work -/

/-- Every event is counted once. -/
theorem SendCall.length_eq (x : SendCall) (hist : List SendEvent) :
    hist.length = x.waits hist + x.foreignAcks hist + offersSent hist + chunksSent hist := by
  induction hist using List.reverseRecOn with
  | nil => rfl
  | append_singleton hist e ih =>
      have hone : 1 = (x.endsWait e).toNat + (x.skips e).toNat + (sendsOffer e).toNat +
          (sendsChunk e).toNat := by
        obtain ⟨q, r⟩ := e
        cases q with
        | sendOffer | sendChunk => rfl
        | recvAck =>
            simp only [skips, sendsOffer, sendsChunk]
            cases x.endsWait (.recvAck, r) <;> rfl
      rw [List.length_append, List.length_singleton, x.waits_snoc, x.foreignAcks_snoc, offersSent_snoc,
        chunksSent_snoc]
      omega

/-- The answers a request can get. -/
def SendReq.admits : SendReq → SendResp → Bool
  | .sendOffer _, .sent _ | .sendChunk _, .sent _ | .recvAck, .ack _ => true
  | _, _ => false

/-- A call that has not returned goes on with every answer to its request. -/
theorem sender_progress (sha256 : Bytes → Digest) (x : SendCall) (s : SendPc) :
    (∃ r, s = .done r) ∨ ∃ q, (sendFileWithId sha256 x).request s = some q ∧
      ∀ r, q.admits r = true → ∃ s', (sendFileWithId sha256 x).resume s r = some s' := by
  cases s with
  | done r => exact .inl ⟨r, rfl⟩
  | offerSend n | offerWait n | chunkSend v | ackWait v =>
      refine .inr ⟨_, rfl, ?_⟩
      intro r hr
      cases r with
      | sent | ack =>
          first
          | exact ⟨_, rfl⟩
          | cases hr

theorem Bounded.of_workInv {s : SendPc} (h : WorkInv x hist s) : Bounded x hist := by
  cases s with
  | offerSend n | offerWait n =>
      have hwaits := h.waits
      have hle := h.le
      have hoffers := h.offers
      refine ⟨by omega, by omega, fun _ ↦ h.chunks, ?_⟩
      intro ack es hphase
      rw [h.phase] at hphase
      cases hphase
  | chunkSend v => exact h.1.bounded
  | ackWait v => exact Tally.bounded h
  | done r =>
      cases r with
      | ok r => exact h.1
      | error e => exact h

/-- A call that has not returned has waits left. -/
theorem waits_of_workInv {s : SendPc} (h : WorkInv x hist s) (hs : ¬ ∃ r, s = .done r) :
    x.waits hist ≤ x.ownAcks hist + 2 * x.config.maxRetries := by
  cases s with
  | offerSend n | offerWait n =>
      have hwaits := h.waits
      have hle := h.le
      omega
  | chunkSend v =>
      have hwaits := h.1.waits
      have hle := h.1.retries_le
      omega
  | ackWait v =>
      have hwaits := Tally.waits h
      have hle := Tally.retries_le h
      omega
  | done r => exact absurd ⟨r, rfl⟩ hs

theorem Bounded.chunks_le (hb : Bounded x hist) :
    chunksSent hist ≤ x.totalLen + x.config.maxRetries * x.config.windowChunks := by
  cases hphase : x.dataPhase hist with
  | none =>
      rw [hb.before hphase]
      exact Nat.zero_le _
  | some p =>
      obtain ⟨ack, es⟩ := p
      have hfile : x.totalLen ⌈/⌉ ack.chunkSize.toNat ≤ x.totalLen := by
        rcases Nat.eq_zero_or_pos ack.chunkSize.toNat with hz | hpos
        · rw [hz, ceilDiv_zero]
          exact Nat.zero_le _
        · exact Chunking.ceilDiv_le_self hpos _
      have hwindows : x.survived es * min x.config.windowChunks x.totalLen ≤
          x.config.maxRetries * x.config.windowChunks :=
        Nat.mul_le_mul (Nat.min_le_right ..) (Nat.min_le_left ..)
      have := hb.chunks ack es hphase
      omega

/-- **The work is bounded and reported as it is**, against any peer.  With at most `n`
acknowledgements of the transfer, the call has at most `n + 2 * max_retries + 1` waits and a
bounded number of events but for what other transfers' acknowledgements add, and goes on with
every answer until it returns; the chunks it sends are those of the file and at most a window
for each timeout it survives; and the counts it returns are those of its history. -/
theorem sender_work {s : SendPc} {n : Nat} (hr : (sendFileWithId sha256 x).Run x.start hist s)
    (hn : x.ownAcks hist ≤ n) :
    (x.waits hist ≤ n + 2 * x.config.maxRetries + 1 ∧
      hist.length ≤ x.foreignAcks hist + 2 * (n + 2 * x.config.maxRetries + 1) + 1 +
        (x.totalLen + x.config.maxRetries * x.config.windowChunks) ∧
      ((∃ r, s = .done r) ∨ x.waits hist < n + 2 * x.config.maxRetries + 1 ∧
        ∃ q, (sendFileWithId sha256 x).request s = some q ∧
          ∀ r, q.admits r = true → ∃ s', (sendFileWithId sha256 x).resume s r = some s')) ∧
    (x.dataPhase hist = none → chunksSent hist = 0) ∧
    (∀ ack es, x.dataPhase hist = some (ack, es) → x.survived es ≤ x.config.maxRetries ∧
      chunksSent hist ≤
        x.totalLen ⌈/⌉ ack.chunkSize.toNat + x.survived es * x.config.windowChunks) ∧
    ∀ result, s = .done (.ok result) → ∃ ack es, x.dataPhase hist = some (ack, es) ∧
      result.chunkSize = ack.chunkSize.toNat ∧ result.chunksSent = chunksSent hist ∧
      result.retries = x.survived es ∧ timeouts es = x.survived es ∧
      x.totalLen ⌈/⌉ ack.chunkSize.toNat ≤ result.chunksSent ∧
      result.chunksSent ≤ x.totalLen ⌈/⌉ ack.chunkSize.toNat + result.retries * x.config.windowChunks := by
  have hw := WorkInv.of_run hr
  have hb := Bounded.of_workInv hw
  have hchunks (ack : Ack) (es : List SendEvent) (h : x.dataPhase hist = some (ack, es)) :
      chunksSent hist ≤
        x.totalLen ⌈/⌉ ack.chunkSize.toNat + x.survived es * x.config.windowChunks := by
    have hmin := Nat.mul_le_mul_left (x.survived es) (Nat.min_le_left x.config.windowChunks x.totalLen)
    have := hb.chunks ack es h
    omega
  have hwaits := hb.waits
  refine ⟨⟨by omega, ?_, ?_⟩, hb.before, fun ack es h ↦ ⟨Nat.min_le_right .., hchunks ack es h⟩, ?_⟩
  · have hlength := x.length_eq hist
    have hoffers := hb.offers
    have := hb.chunks_le
    omega
  · by_cases hdone : ∃ r, s = .done r
    · exact .inl hdone
    · have hleft := waits_of_workInv hw hdone
      refine .inr ⟨by omega, ?_⟩
      rcases sender_progress sha256 x s with h | h
      · exact absurd h hdone
      · exact h
  · rintro result rfl
    obtain ⟨-, ⟨ack, es, hphase, hsize, hretries⟩, hsent, hle, hcovers⟩ := hw
    have hsurvived : timeouts es = x.survived es :=
      (Nat.min_eq_left (hretries ▸ hle)).symm
    refine ⟨ack, es, hphase, hsize, hsent, hretries.trans hsurvived, hsurvived, hsize ▸ hcovers, ?_⟩
    rw [hsent, hretries, hsurvived]
    exact hchunks ack es hphase

/-- One timeout costs `abc` a third chunk. -/
theorem sender_work_rewound : ∃ hist,
    (sendFileWithId shortSha256 abcCall).Run abcCall.start hist (.done (.ok ⟨7, 3, 2, 3, 1⟩)) ∧
      abcCall.ownAcks hist ≤ 3 ∧ abcCall.waits hist ≤ 3 + 2 * 5 + 1 ∧ chunksSent hist = 3 := by
  have hexec : (sendFileWithId shortSha256 abcCall).exec abcCall.start
      (abcUnaligned ++ [.sent .ok, .ack (.received (.ok (fileAckComplete 7 3).root))]) =
        some (_, .done (.ok ⟨7, 3, 2, 3, 1⟩)) := rfl
  have hrun : (sendFileWithId shortSha256 abcCall).Run abcCall.start _
      (.done (.ok ⟨7, 3, 2, 3, 1⟩)) := .of_exec .nil hexec
  obtain ⟨⟨hwaits, -⟩, -, -, hreport⟩ := sender_work (n := 3) hrun (by decide)
  obtain ⟨ack, es, -, -, hsent, -⟩ := hreport _ rfl
  exact ⟨_, hrun, by decide, hwaits, hsent.symm⟩

end Thincan.FileTransfer
