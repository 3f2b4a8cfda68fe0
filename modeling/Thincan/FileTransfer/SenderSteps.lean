import Thincan.FileTransfer.Sender

/-!
# What one step of the sender can do

The counterpart of `ReceiverSteps` for `send_file_with_id`: `SendTransition`
lists the await points with their events, and `OfferAckCase`, `AckCase` and
`LoopCase` say what the branching code between them can do.

`SendCall.Accepted` names the calls that get past the checks on the arguments.
`SendInv` is the invariant of the data phase against any peer whatever: the
cursors stay ordered and inside the file.
-/

namespace Thincan.FileTransfer

open Process

/-- One request of the sender with its answer. -/
abbrev SendEvent := SendReq × SendResp

/-- The steps of the sender, one constructor per await point. -/
inductive SendTransition (sha256 : Bytes → Digest) (x : SendCall) :
    SendPc → SendEvent → SendPc → Prop
  | offerSent (n : Nat) (r : SendOutcome) :
      SendTransition sha256 x (.offerSend n) (.sendOffer (x.offer sha256), .sent r)
        (onOfferSent n r)
  | offerAck (n : Nat) (a : Arrival (Read FileAckRoot)) :
      SendTransition sha256 x (.offerWait n) (.recvAck, .ack a)
        (x.onOfferAck n (waitForTransferAck x.transferId a))
  | chunkSent (v : SendVars) (r : SendOutcome) :
      SendTransition sha256 x (.chunkSend v) (.sendChunk (x.chunk v), .sent r)
        (x.onChunkSent v r)
  | ack (v : SendVars) (a : Arrival (Read FileAckRoot)) :
      SendTransition sha256 x (.ackWait v) (.recvAck, .ack a)
        (x.onAck v (waitForTransferAck x.transferId a))

variable {sha256 : Bytes → Digest} {x : SendCall}

/-- Every step of the sender is one of the transitions. -/
theorem sender_fire {s s' : SendPc} {e : SendEvent}
    (hf : (sendFileWithId sha256 x).fire s e.2 = some (e, s')) :
    SendTransition sha256 x s e s' := by
  obtain ⟨hq, -, hr⟩ := Coroutine.fire_eq_some.mp hf
  obtain ⟨q, r⟩ := e
  simp only at hq hr
  cases s <;> simp only [sendFileWithId, Option.some.injEq, reduceCtorEq] at hq <;> subst hq <;>
    cases r <;> simp only [sendFileWithId, Option.some.injEq, reduceCtorEq] at hr
  case offerSend.sent n r => subst hr; exact .offerSent n r
  case offerWait.ack n a => subst hr; exact .offerAck n a
  case chunkSend.sent v r => subst hr; exact .chunkSent v r
  case ackWait.ack v a => subst hr; exact .ack v a

/-! ## The arguments -/

/-- The arguments get past the checks before the offer. -/
structure SendCall.Accepted (x : SendCall) : Prop where
  config : x.config.Valid
  total_lt : x.totalLen < UInt32.size
  chunk_lt : x.config.senderMaxChunkSize < UInt32.size

theorem u32TryFrom_eq_ok {n : Nat} (h : n < UInt32.size) :
    u32TryFrom n = .ok (UInt32.ofNat n) := by
  rw [u32TryFrom, UInt32.tryFrom_eq_some h]

theorem u32TryFrom_eq_error {n : Nat} (h : ¬n < UInt32.size) : u32TryFrom n = .error .other := by
  rw [u32TryFrom, UInt32.tryFrom, if_neg h]

/-- Accepted arguments lead to the offer loop, others to an error. -/
theorem SendCall.start_eq (x : SendCall) :
    x.Accepted ∧ x.start = .offerSend 0 ∨
      ¬x.Accepted ∧ x.start = .done (.error .other) := by
  by_cases hv : x.config.Valid
  · by_cases ht : x.totalLen < UInt32.size
    · by_cases hc : x.config.senderMaxChunkSize < UInt32.size
      · refine .inl ⟨⟨hv, ht, hc⟩, ?_⟩
        simp only [start, SendConfig.validate_eq_ok.mpr hv, u32TryFrom_eq_ok ht,
          u32TryFrom_eq_ok hc]
      · refine .inr ⟨fun h ↦ hc h.chunk_lt, ?_⟩
        simp only [start, SendConfig.validate_eq_ok.mpr hv, u32TryFrom_eq_ok ht,
          u32TryFrom_eq_error hc]
    · refine .inr ⟨fun h ↦ ht h.total_lt, ?_⟩
      simp only [start, SendConfig.validate_eq_ok.mpr hv, u32TryFrom_eq_error ht]
  · refine .inr ⟨fun h ↦ hv h.config, ?_⟩
    simp only [start, SendConfig.validate_eq_error hv]

theorem SendCall.Accepted.start_eq (h : x.Accepted) : x.start = .offerSend 0 := by
  rcases x.start_eq with ⟨-, hs⟩ | ⟨hn, -⟩
  · exact hs
  · exact absurd h hn

theorem SendCall.Accepted.toNat_totalLenU32 (h : x.Accepted) :
    x.totalLenU32.toNat = x.totalLen := UInt32.toNat_ofNat_lt h.total_lt

theorem SendCall.Accepted.toNat_maxChunkU32 (h : x.Accepted) :
    x.maxChunkU32.toNat = x.config.senderMaxChunkSize := UInt32.toNat_ofNat_lt h.chunk_lt

/-! ## The loop conditions -/

/-- What the two `while` conditions can decide. -/
inductive LoopCase (x : SendCall) (v : SendVars) : SendPc → Prop
  | finished (hge : x.totalLen ≤ v.lastAcked.toNat) : LoopCase x v (.done (.ok (x.result v)))
  | send (hlt : v.lastAcked.toNat < x.totalLen) (hnext : v.nextToSend.toNat < x.totalLen)
      (hwin : (v.nextToSend.toNat - v.lastAcked.toNat) ⌈/⌉ v.chunkSize < x.config.windowChunks) :
      LoopCase x v (.chunkSend v)
  | wait (hlt : v.lastAcked.toNat < x.totalLen)
      (hfull : x.config.windowChunks ≤ (v.nextToSend.toNat - v.lastAcked.toNat) ⌈/⌉ v.chunkSize ∨
        x.totalLen ≤ v.nextToSend.toNat) :
      LoopCase x v (.ackWait v)

theorem SendCall.dataLoop_case (x : SendCall) (v : SendVars) : LoopCase x v (x.dataLoop v) := by
  unfold dataLoop
  rw [inflightChunkCount_eq_ok]
  split
  · next hlt =>
      dsimp only
      split
      · next h => exact .send hlt h.2 h.1
      · next h => exact .wait hlt (by omega)
  · next hge => exact .finished (Nat.le_of_not_lt hge)

theorem SendCall.dataLoop_ne_error (x : SendCall) (v : SendVars) (e : ErrorKind) :
    x.dataLoop v ≠ .done (.error e) := by
  have hcase := x.dataLoop_case v
  generalize x.dataLoop v = s at hcase ⊢
  cases hcase <;> nofun

/-! ## Waiting for an acknowledgement -/

/-- What one round of `wait_for_transfer_ack` can make of an arrival. -/
inductive WaitCase (t : UInt32) : Arrival (Read FileAckRoot) → Option (Except ErrorKind Ack) → Prop
  | timeout : WaitCase t .timeout (some (.error .timeout))
  | unavailable : WaitCase t .unavailable (some (.error .other))
  | unreadable (body : Read FileAckRoot) (h : decodeFileAck body = .error .other) :
      WaitCase t (.received body) (some (.error .other))
  | foreign (body : Read FileAckRoot) (a : Ack) (h : decodeFileAck body = .ok a)
      (hid : a.transferId ≠ t) : WaitCase t (.received body) none
  | taken (body : Read FileAckRoot) (a : Ack) (h : decodeFileAck body = .ok a)
      (hid : a.transferId = t) : WaitCase t (.received body) (some (.ok a))

theorem decodeFileAck_error {body : Read FileAckRoot} {e : ErrorKind}
    (h : decodeFileAck body = .error e) : e = .other := by
  unfold decodeFileAck at h
  split at h
  · exact (Except.error.inj h).symm
  · split at h
    · cases h
    · exact (Except.error.inj h).symm

theorem waitForTransferAck_case (t : UInt32) (a : Arrival (Read FileAckRoot)) :
    WaitCase t a (waitForTransferAck t a) := by
  cases a with
  | timeout => exact .timeout
  | unavailable => exact .unavailable
  | received body =>
      simp only [waitForTransferAck]
      split
      · next e he =>
          obtain rfl := decodeFileAck_error he
          exact .unreadable body he
      · next ack hack =>
          split
          · next hid => exact .taken body ack hack hid
          · next hid => exact .foreign body ack hack hid

/-- What cannot be read is of no transfer. -/
theorem not_taken_of_unreadable {body : Read FileAckRoot} {e : ErrorKind} {t : UInt32}
    (h : decodeFileAck body = .error e) : ∀ b ack, Arrival.received body = .received b →
      decodeFileAck b = .ok ack → ack.transferId ≠ t := by
  intro b ack hb hack
  cases hb
  rw [h] at hack
  cases hack

/-- What the offer loop can make of its wait. -/
inductive OfferAckCase (x : SendCall) (n : Nat) : Arrival (Read FileAckRoot) → SendPc → Prop
  | foreign (body : Read FileAckRoot) (ack : Ack) (h : decodeFileAck body = .ok ack)
      (hid : ack.transferId ≠ x.transferId) : OfferAckCase x n (.received body) (.offerWait n)
  | timeout (h : n + 1 ≤ x.config.maxRetries) : OfferAckCase x n .timeout (.offerSend (n + 1))
  | exhausted : OfferAckCase x n .timeout (.done (.error .timeout))
  | failed (a : Arrival (Read FileAckRoot)) (ha : a ≠ .timeout)
      (hno : ∀ b ack, a = .received b → decodeFileAck b = .ok ack → ack.transferId ≠ x.transferId) :
      OfferAckCase x n a (.done (.error .other))
  | refused (body : Read FileAckRoot) (ack : Ack) (h : decodeFileAck body = .ok ack)
      (hid : ack.transferId = x.transferId) (hk : ack.kind = .reject ∨ ack.kind = .abort) :
      OfferAckCase x n (.received body) (.done (.error .other))
  | late (body : Read FileAckRoot) (ack : Ack) (h : decodeFileAck body = .ok ack)
      (hid : ack.transferId = x.transferId) (hk : ack.kind = .ack ∨ ack.kind = .complete) :
      OfferAckCase x n (.received body) (.offerSend n)
  | badSize (body : Read FileAckRoot) (ack : Ack) (h : decodeFileAck body = .ok ack)
      (hid : ack.transferId = x.transferId) (hk : ack.kind = .accept)
      (hsize : ack.chunkSize.toNat = 0 ∨ x.config.senderMaxChunkSize < ack.chunkSize.toNat) :
      OfferAckCase x n (.received body) (.done (.error .other))
  | accepted (body : Read FileAckRoot) (ack : Ack) (h : decodeFileAck body = .ok ack)
      (hid : ack.transferId = x.transferId) (hk : ack.kind = .accept)
      (hpos : 0 < ack.chunkSize.toNat) (hle : ack.chunkSize.toNat ≤ x.config.senderMaxChunkSize) :
      OfferAckCase x n (.received body) (x.dataLoop { chunkSize := ack.chunkSize.toNat })

theorem SendCall.onOfferAck_case (x : SendCall) (n : Nat) (a : Arrival (Read FileAckRoot)) :
    OfferAckCase x n a (x.onOfferAck n (waitForTransferAck x.transferId a)) := by
  have hwait := waitForTransferAck_case x.transferId a
  generalize waitForTransferAck x.transferId a = w at hwait ⊢
  cases hwait with
  | timeout =>
      simp only [onOfferAck, if_true]
      split
      · exact .exhausted
      · next h => exact .timeout (by omega)
  | unavailable =>
      refine .failed _ nofun ?_
      intro b ack hb
      cases hb
  | unreadable body h => exact .failed _ nofun (not_taken_of_unreadable h)
  | foreign body ack h hid => exact .foreign body ack h hid
  | taken body ack h hid =>
      cases hk : ack.kind with
      | accept =>
          simp only [onOfferAck, hk, onAccept, usizeTryFrom_eq_ok]
          split
          · next hs => exact .badSize body ack h hid hk (by omega)
          · next hs => exact .accepted body ack h hid hk (by omega) (by omega)
      | reject =>
          simp only [onOfferAck, hk]
          exact .refused body ack h hid (.inl hk)
      | abort =>
          simp only [onOfferAck, hk]
          exact .refused body ack h hid (.inr hk)
      | ack =>
          simp only [onOfferAck, hk]
          exact .late body ack h hid (.inl hk)
      | complete =>
          simp only [onOfferAck, hk]
          exact .late body ack h hid (.inr hk)

/-- An acknowledgement the data loop goes on with. -/
structure SendCall.Fits (x : SendCall) (v : SendVars) (n : UInt32) : Prop where
  ge : v.lastAcked.toNat ≤ n.toNat
  le_total : n.toNat ≤ x.totalLen
  le_sent : n.toNat ≤ v.nextToSend.toNat

theorem SendCall.ackRefused_eq_false {v : SendVars} {n : UInt32} :
    x.ackRefused v n = false ↔ x.Fits v n := by
  simp only [ackRefused, decide_eq_false_iff_not, UInt32.lt_iff_toNat_lt, gt_iff_lt]
  constructor
  · intro h
    exact ⟨by omega, by omega, by omega⟩
  · rintro ⟨h₁, h₂, h₃⟩
    omega

/-- What the data loop can make of its wait. -/
inductive AckCase (x : SendCall) (v : SendVars) : Arrival (Read FileAckRoot) → SendPc → Prop
  | foreign (body : Read FileAckRoot) (ack : Ack) (h : decodeFileAck body = .ok ack)
      (hid : ack.transferId ≠ x.transferId) : AckCase x v (.received body) (.ackWait v)
  | timeout (h : v.retries + 1 ≤ x.config.maxRetries) :
      AckCase x v .timeout
        (x.dataLoop { v with retries := v.retries + 1, nextToSend := v.lastAcked })
  | exhausted : AckCase x v .timeout (.done (.error .timeout))
  | failed (a : Arrival (Read FileAckRoot)) (ha : a ≠ .timeout)
      (hno : ∀ b ack, a = .received b → decodeFileAck b = .ok ack → ack.transferId ≠ x.transferId) :
      AckCase x v a (.done (.error .other))
  | refused (body : Read FileAckRoot) (ack : Ack) (h : decodeFileAck body = .ok ack)
      (hid : ack.transferId = x.transferId) (hk : ack.kind = .reject ∨ ack.kind = .abort) :
      AckCase x v (.received body) (.done (.error .other))
  | accept (body : Read FileAckRoot) (ack : Ack) (h : decodeFileAck body = .ok ack)
      (hid : ack.transferId = x.transferId) (hk : ack.kind = .accept) :
      AckCase x v (.received body) (x.dataLoop v)
  | invalid (body : Read FileAckRoot) (ack : Ack) (h : decodeFileAck body = .ok ack)
      (hid : ack.transferId = x.transferId) (hk : ack.kind = .ack ∨ ack.kind = .complete)
      (hbad : ¬x.Fits v ack.nextOffset ∨
        ack.kind = .complete ∧ ack.nextOffset.toNat ≠ x.totalLen) :
      AckCase x v (.received body) (.done (.error .other))
  | progress (body : Read FileAckRoot) (ack : Ack) (h : decodeFileAck body = .ok ack)
      (hid : ack.transferId = x.transferId) (hk : ack.kind = .ack)
      (hfit : x.Fits v ack.nextOffset) :
      AckCase x v (.received body) (x.dataLoop { v with lastAcked := ack.nextOffset })
  | complete (body : Read FileAckRoot) (ack : Ack) (h : decodeFileAck body = .ok ack)
      (hid : ack.transferId = x.transferId) (hk : ack.kind = .complete)
      (hfit : x.Fits v ack.nextOffset) (htotal : ack.nextOffset.toNat = x.totalLen) :
      AckCase x v (.received body)
        (.done (.ok (x.result { v with lastAcked := ack.nextOffset })))

theorem SendCall.onAck_case (x : SendCall) (v : SendVars) (a : Arrival (Read FileAckRoot)) :
    AckCase x v a (x.onAck v (waitForTransferAck x.transferId a)) := by
  have hwait := waitForTransferAck_case x.transferId a
  generalize waitForTransferAck x.transferId a = w at hwait ⊢
  cases hwait with
  | timeout =>
      simp only [onAck, if_true]
      split
      · exact .exhausted
      · next h => exact .timeout (by omega)
  | unavailable =>
      refine .failed _ nofun ?_
      intro b ack hb
      cases hb
  | unreadable body h => exact .failed _ nofun (not_taken_of_unreadable h)
  | foreign body ack h hid => exact .foreign body ack h hid
  | taken body ack h hid =>
      cases hk : ack.kind with
      | accept =>
          simp only [onAck, hk]
          exact .accept body ack h hid hk
      | reject =>
          simp only [onAck, hk]
          exact .refused body ack h hid (.inl hk)
      | abort =>
          simp only [onAck, hk]
          exact .refused body ack h hid (.inr hk)
      | ack =>
          simp only [onAck, hk, onProgress]
          cases hr : x.ackRefused v ack.nextOffset with
          | true =>
              refine .invalid body ack h hid (.inl hk) (.inl fun hfit ↦ ?_)
              rw [ackRefused_eq_false.mpr hfit] at hr
              cases hr
          | false => exact .progress body ack h hid hk (ackRefused_eq_false.mp hr)
      | complete =>
          simp only [onAck, hk, onProgress, if_true]
          cases hr : x.ackRefused v ack.nextOffset with
          | true =>
              refine .invalid body ack h hid (.inr hk) (.inl fun hfit ↦ ?_)
              rw [ackRefused_eq_false.mpr hfit] at hr
              cases hr
          | false =>
              by_cases htotal : ack.nextOffset.toNat = x.totalLen
              · simp only [htotal, ne_eq, not_true_eq_false, if_false]
                exact .complete body ack h hid hk (ackRefused_eq_false.mp hr) htotal
              · simp only [ne_eq, htotal, not_false_eq_true, if_true]
                exact .invalid body ack h hid (.inr hk) (.inr ⟨hk, htotal⟩)

/-! ## Acknowledgements that were sent as values -/

section Values

variable {v : SendVars} {n : UInt32}

theorem SendCall.onAck_accept (x : SendCall) (v : SendVars) (size : UInt32) :
    x.onAck v (waitForTransferAck x.transferId
      (.received (.ok (fileAckAccept x.transferId size).root))) = x.dataLoop v := by
  simp only [waitForTransferAck, decodeFileAck_root, FileAckValue.decoded, fileAckAccept, if_true,
    onAck]

theorem SendCall.Fits.onAck_progress (hfit : x.Fits v n) :
    x.onAck v (waitForTransferAck x.transferId
      (.received (.ok (fileAckProgress x.transferId n).root))) =
        x.dataLoop { v with lastAcked := n } := by
  simp only [waitForTransferAck, decodeFileAck_root, FileAckValue.decoded, fileAckProgress,
    if_true, onAck, onProgress, ackRefused_eq_false.mpr hfit, Bool.false_eq_true, if_false,
    reduceCtorEq]

theorem SendCall.Fits.onAck_complete (hfit : x.Fits v n) (htotal : n.toNat = x.totalLen) :
    x.onAck v (waitForTransferAck x.transferId
      (.received (.ok (fileAckComplete x.transferId n).root))) =
        .done (.ok (x.result { v with lastAcked := n })) := by
  simp only [waitForTransferAck, decodeFileAck_root, FileAckValue.decoded, fileAckComplete,
    if_true, onAck, onProgress, ackRefused_eq_false.mpr hfit, Bool.false_eq_true, if_false,
    htotal, ne_eq, not_true_eq_false]

/-- The accepted size is used as it is when it is within the limit. -/
theorem SendCall.onOfferAck_accept (x : SendCall) (k : Nat) {size : UInt32}
    (hpos : 0 < size.toNat) (hle : size.toNat ≤ x.config.senderMaxChunkSize) :
    x.onOfferAck k (waitForTransferAck x.transferId
      (.received (.ok (fileAckAccept x.transferId size).root))) =
        x.dataLoop { chunkSize := size.toNat } := by
  have hsize : ¬(size.toNat = 0 ∨ x.config.senderMaxChunkSize < size.toNat) := by omega
  simp only [waitForTransferAck, decodeFileAck_root, FileAckValue.decoded, fileAckAccept, if_true,
    onOfferAck, onAccept, usizeTryFrom_eq_ok, gt_iff_lt, if_neg hsize]

/-- Anything but an answer to the offer makes the offer loop start over. -/
theorem SendCall.onOfferAck_late (x : SendCall) (k : Nat) {a : FileAckValue}
    (hid : a.transferId = x.transferId) (hk : a.kind = .ack ∨ a.kind = .complete) :
    x.onOfferAck k (waitForTransferAck x.transferId (.received (.ok a.root))) = .offerSend k := by
  simp only [waitForTransferAck, decodeFileAck_root, FileAckValue.decoded, hid, if_true, onOfferAck]
  rcases hk with hk | hk <;> simp only [hk]

end Values

/-! ## Sending a chunk -/

theorem SendCall.length_chunkData {v : SendVars} (h : v.nextToSend.toNat ≤ x.totalLen) :
    (x.chunkData v).length = min (v.nextToSend.toNat + v.chunkSize) x.totalLen -
      v.nextToSend.toNat := by
  have hlen : x.bytes.length = x.totalLen := rfl
  simp only [chunkData, List.length_take, List.length_drop, hlen]
  omega

/-- What the inner loop can make of the send of a chunk. -/
inductive ChunkSentCase (x : SendCall) (v : SendVars) : SendOutcome → SendPc → Prop
  | failed (kind : ErrorKind) (handed : Bool) :
      ChunkSentCase x v (.failed kind handed) (.done (.error kind))
  | ok (n : UInt32) (hn : n.toNat = min (v.nextToSend.toNat + v.chunkSize) x.totalLen) :
      ChunkSentCase x v .ok
        (x.dataLoop { v with nextToSend := n, chunksSent := v.chunksSent + 1 })

/-- Inside the file the cursor moves by one chunk, and neither conversion nor
addition can fail. -/
theorem SendCall.Accepted.onChunkSent_case (hx : x.Accepted) {v : SendVars}
    (hv : v.nextToSend.toNat ≤ x.totalLen) (r : SendOutcome) :
    ChunkSentCase x v r (x.onChunkSent v r) := by
  cases r with
  | failed kind handed => exact .failed kind handed
  | ok =>
      have hlen := x.length_chunkData hv
      have htotal := hx.total_lt
      have hlt : (x.chunkData v).length < UInt32.size := by omega
      have hsum : v.nextToSend.toNat + (UInt32.ofNat (x.chunkData v).length).toNat <
          UInt32.size := by
        rw [UInt32.toNat_ofNat_lt hlt]
        omega
      simp only [onChunkSent, u32TryFrom_eq_ok hlt, UInt32.checkedAdd_eq_some hsum]
      refine .ok _ ?_
      rw [UInt32.toNat_add_lt hsum, UInt32.toNat_ofNat_lt hlt]
      omega

/-! ## The invariant of the sender -/

/-- The cursors of the data phase. -/
structure SendCall.Cursors (x : SendCall) (v : SendVars) : Prop where
  chunk_pos : 0 < v.chunkSize
  chunk_le : v.chunkSize ≤ x.config.senderMaxChunkSize
  acked_le : v.lastAcked.toNat ≤ v.nextToSend.toNat
  next_le : v.nextToSend.toNat ≤ x.totalLen

/-- The acknowledgement with which a transfer of some bytes ends. -/
def SendCall.Finishing (x : SendCall) (hist : List SendEvent) : Prop :=
  ∃ k body ack, hist = k ++ [(.recvAck, .ack (.received body))] ∧ decodeFileAck body = .ok ack ∧
    ack.transferId = x.transferId ∧ (ack.kind = .ack ∨ ack.kind = .complete) ∧
    ack.nextOffset.toNat = x.totalLen

/-- **The invariant of the sender**, against any peer. -/
def SendInv (x : SendCall) (hist : List SendEvent) : SendPc → Prop
  | .offerSend _ => x.Accepted
  | .offerWait _ => x.Accepted
  | .chunkSend v => x.Accepted ∧ x.Cursors v ∧ v.lastAcked.toNat < x.totalLen ∧
      v.nextToSend.toNat < x.totalLen
  | .ackWait v => x.Accepted ∧ x.Cursors v ∧ v.lastAcked.toNat < x.totalLen
  | .done (.ok _) => x.Accepted ∧ (x.totalLen = 0 ∨ x.Finishing hist)
  | .done (.error _) => True

variable {hist : List SendEvent}

/-- The loop conditions keep the invariant, if the outer one can only be false at
the end. -/
theorem SendInv.dataLoop (hx : x.Accepted) {v : SendVars} (hv : x.Cursors v)
    (hfin : x.totalLen ≤ v.lastAcked.toNat → x.totalLen = 0 ∨ x.Finishing hist) :
    SendInv x hist (x.dataLoop v) := by
  have hcase := x.dataLoop_case v
  generalize x.dataLoop v = s at hcase ⊢
  cases hcase with
  | finished hge => exact ⟨hx, hfin hge⟩
  | send hlt hnext hwin => exact ⟨hx, hv, hlt, hnext⟩
  | wait hlt hfull => exact ⟨hx, hv, hlt⟩

/-- **Every step keeps the invariant of the sender.** -/
theorem SendInv.step {s s' : SendPc} {e : SendEvent} (hi : SendInv x hist s)
    (ht : SendTransition sha256 x s e s') : SendInv x (hist ++ [e]) s' := by
  cases ht with
  | offerSent n r =>
      cases r with
      | ok => exact hi
      | failed kind handed =>
          simp only [onOfferSent]
          split
          · trivial
          · exact hi
  | offerAck n a =>
      have hx : x.Accepted := hi
      have hcase := x.onOfferAck_case n a
      generalize x.onOfferAck n (waitForTransferAck x.transferId a) = s at hcase ⊢
      cases hcase with
      | foreign | timeout | late => exact hx
      | exhausted | failed | refused | badSize => trivial
      | accepted body ack h hid hk hpos hle =>
          refine SendInv.dataLoop hx ⟨hpos, hle, Nat.le_refl _, Nat.zero_le _⟩ fun hz ↦ .inl ?_
          exact Nat.le_zero.mp hz
  | chunkSent v r =>
      obtain ⟨hx, hv, hacked, hnext⟩ := hi
      have hcase := hx.onChunkSent_case (Nat.le_of_lt hnext) r
      generalize x.onChunkSent v r = s at hcase ⊢
      cases hcase with
      | failed kind handed => trivial
      | ok n hn =>
          have hle := hv.acked_le
          refine SendInv.dataLoop hx ⟨hv.chunk_pos, hv.chunk_le, ?_, ?_⟩ fun hge ↦ ?_
          · show v.lastAcked.toNat ≤ n.toNat
            omega
          · show n.toNat ≤ x.totalLen
            omega
          · exact absurd hge (Nat.not_le_of_lt hacked)
  | ack v a =>
      obtain ⟨hx, hv, hacked⟩ := hi
      have hcase := x.onAck_case v a
      generalize x.onAck v (waitForTransferAck x.transferId a) = s at hcase ⊢
      cases hcase with
      | foreign => exact ⟨hx, hv, hacked⟩
      | exhausted | failed | refused | invalid => trivial
      | timeout h =>
          refine SendInv.dataLoop hx ⟨hv.chunk_pos, hv.chunk_le, Nat.le_refl _,
            Nat.le_of_lt hacked⟩ ?_
          intro hge
          exact absurd hge (Nat.not_le_of_lt hacked)
      | accept body ack h hid hk =>
          exact SendInv.dataLoop hx hv fun hge ↦ absurd hge (Nat.not_le_of_lt hacked)
      | progress body ack h hid hk hfit =>
          refine SendInv.dataLoop hx ⟨hv.chunk_pos, hv.chunk_le, hfit.le_sent, hv.next_le⟩
            fun hge ↦ .inr ⟨hist, body, ack, rfl, h, hid, .inl hk, ?_⟩
          exact Nat.le_antisymm hfit.le_total hge
      | complete body ack h hid hk hfit htotal =>
          exact ⟨hx, .inr ⟨hist, body, ack, rfl, h, hid, .inr hk, htotal⟩⟩

/-- The invariant of the sender holds along every run. -/
theorem SendInv.of_run {s : SendPc} (hr : (sendFileWithId sha256 x).Run x.start hist s) :
    SendInv x hist s := by
  refine hr.invariant ?_ fun h s e s' hi hf ↦ hi.step (sender_fire hf)
  rcases x.start_eq with ⟨hx, hs⟩ | ⟨-, hs⟩
  · rw [hs]
    exact hx
  · rw [hs]
    trivial

/-! ## What the sender hands to the transport -/

/-- The offer of an event that was handed to the transport. -/
def handedOffer : SendEvent → Option FileOfferValue
  | (.sendOffer offer, .sent r) => if r.handed then some offer else none
  | _ => none

/-- The chunk of an event that was handed to the transport. -/
def handedChunk : SendEvent → Option FileChunkValue
  | (.sendChunk chunk, .sent r) => if r.handed then some chunk else none
  | _ => none

/-- The offers handed to the transport, in order. -/
def offers (hist : List SendEvent) : List FileOfferValue := hist.filterMap handedOffer

/-- The chunks handed to the transport, in order. -/
def chunks (hist : List SendEvent) : List FileChunkValue := hist.filterMap handedChunk

/-- The chunk carries a piece of the file, at its offset. -/
structure SendCall.Slice (x : SendCall) (c : FileChunkValue) : Prop where
  transferId_eq : c.transferId = x.transferId
  data_prefix : c.data <+: x.bytes.drop c.offset.toNat

theorem SendCall.slice_chunk (x : SendCall) (v : SendVars) : x.Slice (x.chunk v) :=
  ⟨rfl, List.take_prefix _ _⟩

/-- Every offer the sender hands over is the offer of the call, and the call has
passed its checks. -/
theorem offers_eq {s : SendPc} (hr : (sendFileWithId sha256 x).Run x.start hist s)
    {o : FileOfferValue} (ho : o ∈ offers hist) : o = x.offer sha256 ∧ x.Accepted := by
  obtain ⟨e, he, hhanded⟩ := List.mem_filterMap.mp ho
  obtain ⟨k, t, rfl⟩ := List.append_of_mem he
  refine hr.at_event (P := fun _ e ↦ handedOffer e = some o → o = x.offer sha256 ∧ x.Accepted)
    ?_ rfl hhanded
  intro k s e s' hr hf hhanded
  have hi := SendInv.of_run hr
  cases sender_fire hf with
  | offerSent n r =>
      simp only [handedOffer] at hhanded
      split at hhanded
      · exact ⟨(Option.some.inj hhanded).symm, hi⟩
      · cases hhanded
  | offerAck | chunkSent | ack => cases hhanded

/-- Every chunk the sender hands over is a piece of the file. -/
theorem chunks_slice {s : SendPc} (hr : (sendFileWithId sha256 x).Run x.start hist s)
    {c : FileChunkValue} (hc : c ∈ chunks hist) : x.Slice c := by
  obtain ⟨e, he, hhanded⟩ := List.mem_filterMap.mp hc
  obtain ⟨k, t, rfl⟩ := List.append_of_mem he
  refine hr.at_event (P := fun _ e ↦ handedChunk e = some c → x.Slice c) ?_ rfl hhanded
  intro k s e s' hr hf hhanded
  cases sender_fire hf with
  | chunkSent v r =>
      simp only [handedChunk] at hhanded
      split at hhanded
      · rw [← Option.some.inj hhanded]
        exact x.slice_chunk v
      · cases hhanded
  | offerAck | offerSent | ack => cases hhanded

end Thincan.FileTransfer
