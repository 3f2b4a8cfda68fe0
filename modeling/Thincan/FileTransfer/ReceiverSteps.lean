import Thincan.FileTransfer.Receiver

/-!
# What one step of a receiver can do

Every proof about the receivers is an induction over histories, so every proof
splits on the same steps.  The split is made once here: `Transition` lists the
await points with their events and `receiver_fire` says that these are all the
steps there are; `OfferCase` and `ChunkCase` do the same for the two branching
continuations, the offer and the chunk.

The two branches of the source that re-check a chunk `wait_for_transfer_chunk`
has already checked (its root and its transfer id) do not appear in `ChunkCase`:
the body is the same, so they cannot be taken.
-/

namespace Thincan.FileTransfer

open Process

variable {H E : Type} (sha256 : Bytes → Digest) (rx : Intake) (cfg : ReceiverConfig)

/-- The steps of a receiver, one constructor per await point and outcome. -/
inductive Transition : RecvPc H E → RecvEvent H E → RecvPc H E → Prop
  | req (body : Option (Read FileReqRoot)) :
      Transition .recvReq (.recvReq, .req body) (rx.onReq cfg body)
  | rejected (ack : FileAckValue) (r : SendOutcome) :
      Transition (.sendReject ack) (.send ack, .sent r) (.done (.error .protocol))
  | notBegun (o : Offer) (e : E) :
      Transition (.beginWrite o) (.beginWrite o.transferId o.totalLen, .began (.error e))
        (.done (.error (.store e)))
  | begun (o : Offer) (h : H) :
      Transition (.beginWrite o) (.beginWrite o.transferId o.totalLen, .began (.ok h))
        (.sendAccept o h)
  | accepted (o : Offer) (h : H) (r : SendOutcome) :
      Transition (.sendAccept o h)
        (.send (fileAckAccept o.transferId o.negotiatedChunkSize), .sent r)
        (if r.isErr then .abort h none .protocol else onAccepted sha256 o h)
  | committedEmpty (o : Offer) (h : H) :
      Transition (.commitEmpty o h) (.commit h, .committed (.ok ())) (.done (.ok (o.result 0)))
  | notCommittedEmpty (o : Offer) (h : H) (e : E) :
      Transition (.commitEmpty o h) (.commit h, .committed (.error e))
        (.done (.error (.store e)))
  | chunk (o : Offer) (h : H) (v : RecvVars) (a : Arrival (Read FileChunkRoot)) :
      Transition (.waitChunk o h v) (.recvChunk, .chunk a) (rx.onChunk o h v a)
  | gapSent (o : Offer) (h : H) (v : RecvVars) (r : SendOutcome) :
      Transition (.sendGap o h v) (.send (fileAckProgress o.transferId v.nextOffset), .sent r)
        (onProgressSent o h v r)
  | written (o : Offer) (h : H) (v : RecvVars) (bs : Bytes) :
      Transition (.writeAt o h v bs) (.writeAt h v.nextOffset bs, .wrote (.ok ()))
        (onWritten sha256 o h v bs)
  | notWritten (o : Offer) (h : H) (v : RecvVars) (bs : Bytes) (e : E) :
      Transition (.writeAt o h v bs) (.writeAt h v.nextOffset bs, .wrote (.error e))
        (.abort h none (.store e))
  | progressSent (o : Offer) (h : H) (v : RecvVars) (r : SendOutcome) :
      Transition (.sendProgress o h v)
        (.send (fileAckProgress o.transferId v.nextOffset), .sent r) (onProgressSent o h v r)
  | committed (o : Offer) (h : H) :
      Transition (.commit o h) (.commit h, .committed (.ok ())) (.sendComplete o)
  | notCommitted (o : Offer) (h : H) (e : E) :
      Transition (.commit o h) (.commit h, .committed (.error e)) (.done (.error (.store e)))
  | completed (o : Offer) (r : SendOutcome) :
      Transition (.sendComplete o) (.send (fileAckComplete o.transferId o.totalLen), .sent r)
        (.done (if r.isErr then .error .protocol else .ok (o.result o.totalLen)))
  | aborted (h : H) (last : Option FileAckValue) (err : Error E) :
      Transition (.abort h last err) (.abort h, .aborted) (onAborted last err)
  | abortSent (ack : FileAckValue) (err : Error E) (r : SendOutcome) :
      Transition (.sendAbort ack err) (.send ack, .sent r) (.done (.error err))

variable {sha256 rx cfg}

/-- Every step of a receiver is one of the transitions. -/
theorem receiver_fire {s s' : RecvPc H E} {e : RecvEvent H E}
    (hf : (receiver sha256 rx cfg).fire s e.2 = some (e, s')) :
    Transition sha256 rx cfg s e s' := by
  obtain ⟨hq, -, hr⟩ := Coroutine.fire_eq_some.mp hf
  obtain ⟨q, r⟩ := e
  simp only at hq hr
  -- the request names the await point; the response is the one its `resume` takes
  cases s with
  | recvReq =>
      cases hq
      cases r with
      | req body => cases hr; exact .req body
      | _ => cases hr
  | sendReject ack =>
      cases hq
      cases r with
      | sent r => cases hr; exact .rejected ack r
      | _ => cases hr
  | beginWrite o =>
      cases hq
      cases r with
      | began r =>
          cases r with
          | error e => cases hr; exact .notBegun o e
          | ok a => cases hr; exact .begun o a
      | _ => cases hr
  | sendAccept o h =>
      cases hq
      cases r with
      | sent r => cases hr; exact .accepted o h r
      | _ => cases hr
  | commitEmpty o h =>
      cases hq
      cases r with
      | committed r =>
          cases r with
          | error e => cases hr; exact .notCommittedEmpty o h e
          | ok a => cases hr; exact .committedEmpty o h
      | _ => cases hr
  | waitChunk o h v =>
      cases hq
      cases r with
      | chunk a => cases hr; exact .chunk o h v a
      | _ => cases hr
  | sendGap o h v =>
      cases hq
      cases r with
      | sent r => cases hr; exact .gapSent o h v r
      | _ => cases hr
  | writeAt o h v bs =>
      cases hq
      cases r with
      | wrote r =>
          cases r with
          | error e => cases hr; exact .notWritten o h v bs e
          | ok a => cases hr; exact .written o h v bs
      | _ => cases hr
  | sendProgress o h v =>
      cases hq
      cases r with
      | sent r => cases hr; exact .progressSent o h v r
      | _ => cases hr
  | commit o h =>
      cases hq
      cases r with
      | committed r =>
          cases r with
          | error e => cases hr; exact .notCommitted o h e
          | ok a => cases hr; exact .committed o h
      | _ => cases hr
  | sendComplete o =>
      cases hq
      cases r with
      | sent r => cases hr; exact .completed o r
      | _ => cases hr
  | abort h last err =>
      cases hq
      cases r with
      | aborted => cases hr; exact .aborted h last err
      | _ => cases hr
  | sendAbort ack err =>
      cases hq
      cases r with
      | sent r => cases hr; exact .abortSent ack err r
      | _ => cases hr
  | done => cases hq

/-! ## The offer -/

variable (cfg)

/-- `o` is what a receiver keeps of the offer `root` it is going to accept. -/
structure Offer.Of (root : FileReqRoot) (o : Offer) : Prop where
  transferId_eq : o.transferId = root.transferId
  totalLen_eq : o.totalLen = root.totalLen
  senderMax_eq : o.senderMaxChunkSize = root.senderMaxChunkSize
  negotiated_eq : o.negotiatedChunkSize = negotiate cfg.maxChunkSize root.senderMaxChunkSize
  negotiated_pos : 0 < o.negotiatedChunkSize.toNat
  metadata_eq : o.metadata = root.metadata
  algo_eq : root.fileHashAlgo = some o.fileHashAlgo
  hash_eq : o.expectedHash.1 = root.hash

/-- What a receiver can make of its wait for an offer. -/
inductive OfferCase (rx : Intake) : Option (Read FileReqRoot) → RecvPc H E → Prop
  | failed (body : Option (Read FileReqRoot)) (err : Error E) (h : ∀ root, body ≠ some (.ok root)) :
      OfferCase rx body (.done (.error err))
  | rejected (root : FileReqRoot) (err : FileAckError) :
      OfferCase rx (some (.ok root)) (.sendReject (fileAckReject root.transferId err))
  | taken (root : FileReqRoot) (o : Offer) (hp : rx.precheck root = none) (h : o.Of cfg root) :
      OfferCase rx (some (.ok root)) (.beginWrite o)

theorem Intake.onReq_case (body : Option (Read FileReqRoot)) :
    OfferCase (H := H) (E := E) cfg rx body (rx.onReq cfg body) := by
  cases body with
  | none => exact .failed _ _ nofun
  | some r =>
      cases r with
      | error e => exact .failed _ _ nofun
      | ok root =>
          change OfferCase cfg rx (some (.ok root)) (rx.onReqRoot cfg root)
          unfold Intake.onReqRoot
          split
          · exact .rejected _ _
          next hp =>
          split
          · exact .rejected _ _
          next algo halgo =>
          split
          · exact .rejected _ _
          split
          · exact .rejected _ _
          next d hd =>
          dsimp only
          split
          · exact .rejected _ _
          next hneg =>
          rw [UInt32.eq_zero_iff] at hneg
          exact .taken root _ hp ⟨rfl, rfl, rfl, rfl, Nat.pos_of_ne_zero hneg, rfl, halgo,
            (validateSha256FileHash_eq_ok.mp hd).symm⟩

/-- An offer with a well-formed SHA-256 hash and a chunk size, that passes the
precheck, is taken. -/
theorem Intake.onReqRoot_taken {root : FileReqRoot} {d : Digest} (hp : rx.precheck root = none)
    (halgo : root.fileHashAlgo = some .sha256) (hhash : root.hash = d.1)
    (hneg : 0 < (negotiate cfg.maxChunkSize root.senderMaxChunkSize).toNat) :
    (rx.onReqRoot cfg root : RecvPc H E) = .beginWrite
      { transferId := root.transferId, totalLen := root.totalLen
        senderMaxChunkSize := root.senderMaxChunkSize
        negotiatedChunkSize := negotiate cfg.maxChunkSize root.senderMaxChunkSize
        metadata := root.metadata, fileHashAlgo := .sha256, expectedHash := d } := by
  have hd : validateSha256FileHash root.hash = .ok d := validateSha256FileHash_eq_ok.mpr hhash
  have hz : ¬negotiate cfg.maxChunkSize root.senderMaxChunkSize = 0 := by
    rw [UInt32.eq_zero_iff]
    omega
  simp only [Intake.onReqRoot, hp, halgo, hd, hz, ne_eq, not_true_eq_false, if_false]

/-! ## A chunk -/

/-- What a receiver can make of its wait for a chunk. -/
inductive ChunkCase (rx : Intake) (o : Offer) (h : H) (v : RecvVars) :
    Arrival (Read FileChunkRoot) → RecvPc H E → Prop
  | silent (a : Arrival (Read FileChunkRoot)) (ha : ∀ c, a ≠ .received (.ok c)) :
      ChunkCase rx o h v a (.abort h none .protocol)
  | foreign (c : FileChunkRoot) (hid : c.transferId ≠ o.transferId) :
      ChunkCase rx o h v (.received (.ok c)) (.waitChunk o h v)
  | tooLarge (c : FileChunkRoot) (hid : c.transferId = o.transferId)
      (hsize : rx.oversize o.negotiatedChunkSize c.bytes = true) :
      ChunkCase rx o h v (.received (.ok c)) (o.abortWith h v.nextOffset .chunkSizeTooLarge)
  | gap (c : FileChunkRoot) (hid : c.transferId = o.transferId)
      (hsize : rx.oversize o.negotiatedChunkSize c.bytes = false)
      (hoff : c.offset ≠ v.nextOffset) :
      ChunkCase rx o h v (.received (.ok c)) (.sendGap o h v)
  | empty (c : FileChunkRoot) (hid : c.transferId = o.transferId)
      (hsize : rx.oversize o.negotiatedChunkSize c.bytes = false)
      (hoff : c.offset = v.nextOffset)
      (hlen : rx.writeLen c.bytes (o.totalLen.saturatingSub v.nextOffset) = 0) :
      ChunkCase rx o h v (.received (.ok c)) (chunkLoop o h v)
  | write (c : FileChunkRoot) (w : Bytes) (hid : c.transferId = o.transferId)
      (hsize : rx.oversize o.negotiatedChunkSize c.bytes = false)
      (hoff : c.offset = v.nextOffset)
      (hw : w = (rx.held c.bytes).take
        (rx.writeLen c.bytes (o.totalLen.saturatingSub v.nextOffset)))
      (hlen : w.length = rx.writeLen c.bytes (o.totalLen.saturatingSub v.nextOffset))
      (hne : w ≠ []) :
      ChunkCase rx o h v (.received (.ok c)) (.writeAt o h v w)

theorem Intake.onChunk_case (o : Offer) (h : H) (v : RecvVars)
    (a : Arrival (Read FileChunkRoot)) :
    ChunkCase (E := E) rx o h v a (rx.onChunk o h v a) := by
  cases a with
  | unavailable => exact .silent _ nofun
  | timeout => exact .silent _ nofun
  | received body =>
      cases body with
      | error e => exact .silent _ nofun
      | ok c =>
          by_cases hid : c.transferId = o.transferId
          · have hon : (rx.onChunk o h v (.received (.ok c)) : RecvPc H E) =
                rx.onChunkRoot o h v c := if_pos hid
            rw [hon, Intake.onChunkRoot, if_neg (not_not.mpr hid)]
            split
            · next hsize => exact .tooLarge c hid hsize
            next hsize =>
            rw [Bool.not_eq_true] at hsize
            split
            · next hoff => exact .gap c hid hsize hoff
            next hoff =>
            rw [not_not] at hoff
            dsimp only
            split
            · next hlen => exact .empty c hid hsize hoff hlen
            · next hlen =>
                have hle := rx.writeLen_le_held c.bytes (o.totalLen.saturatingSub v.nextOffset)
                have hlen' : ((rx.held c.bytes).take
                    (rx.writeLen c.bytes (o.totalLen.saturatingSub v.nextOffset))).length =
                    rx.writeLen c.bytes (o.totalLen.saturatingSub v.nextOffset) := by
                  rw [List.length_take]
                  omega
                refine .write c _ hid hsize hoff rfl hlen' fun hnil ↦ hlen ?_
                rw [← hlen', hnil]
                rfl
          · have hon : (rx.onChunk o h v (.received (.ok c)) : RecvPc H E) =
                .waitChunk o h v := if_neg hid
            rw [hon]
            exact .foreign c hid

/-! ## Inside the loop -/

/-- Inside the file, the loop condition holds. -/
theorem chunkLoop_of_lt {o : Offer} {h : H} {v : RecvVars}
    (hlt : v.nextOffset.toNat < o.totalLen.toNat) :
    (chunkLoop o h v : RecvPc H E) = .waitChunk o h v :=
  if_pos (UInt32.lt_iff_toNat_lt.mpr hlt)

/-- What a receiver can make of a successful write that stays inside the file. -/
inductive WriteCase (sha256 : Bytes → Digest) (o : Offer) (h : H) (v : RecvVars) (bs : Bytes) :
    RecvPc H E → Prop
  | mismatch (hfull : v.nextOffset.toNat + bs.length = o.totalLen.toNat)
      (hsha : sha256 (v.hasher ++ bs) ≠ o.expectedHash) :
      WriteCase sha256 o h v bs (o.abortWith h o.totalLen .hashMismatch)
  | full (hfull : v.nextOffset.toNat + bs.length = o.totalLen.toNat)
      (hsha : sha256 (v.hasher ++ bs) = o.expectedHash) :
      WriteCase sha256 o h v bs (.commit o h)
  | progress (v' : RecvVars) (hlt : v.nextOffset.toNat + bs.length < o.totalLen.toNat)
      (hnext : v'.nextOffset.toNat = v.nextOffset.toNat + bs.length)
      (hlast : v'.lastProgressOffset = v.lastProgressOffset)
      (hhash : v'.hasher = v.hasher ++ bs) :
      WriteCase sha256 o h v bs (.sendProgress o h v')
  | quiet (v' : RecvVars) (hlt : v.nextOffset.toNat + bs.length < o.totalLen.toNat)
      (hnext : v'.nextOffset.toNat = v.nextOffset.toNat + bs.length)
      (hlast : v'.lastProgressOffset = v.lastProgressOffset)
      (hhash : v'.hasher = v.hasher ++ bs)
      (hstride : v'.nextOffset.toNat - v'.lastProgressOffset.toNat <
        o.negotiatedChunkSize.toNat) :
      WriteCase sha256 o h v bs (.waitChunk o h v')

theorem onWritten_case {o : Offer} {h : H} {v : RecvVars} {bs : Bytes}
    (hle : v.nextOffset.toNat + bs.length ≤ o.totalLen.toNat) :
    WriteCase (E := E) sha256 o h v bs (onWritten sha256 o h v bs) := by
  have hsize : o.totalLen.toNat < UInt32.size := o.totalLen.toNat_lt_size
  have hbs : (UInt32.ofNat bs.length).toNat = bs.length := UInt32.toNat_ofNat_lt (by omega)
  have hnext : (v.nextOffset.saturatingAdd (UInt32.ofNat bs.length)).toNat =
      v.nextOffset.toNat + bs.length := by
    rw [UInt32.toNat_saturatingAdd (by omega), hbs]
  have hstride : o.ackStride = o.negotiatedChunkSize :=
    UInt32.saturatingMul_one o.negotiatedChunkSize
  unfold onWritten
  dsimp only
  split
  · next hge =>
      rw [ge_iff_le, UInt32.le_iff_toNat_le, hnext] at hge
      split
      · next hsha => exact .mismatch (by omega) hsha
      · next hsha => exact .full (by omega) (not_not.mp hsha)
  · next hlt =>
      rw [ge_iff_le, UInt32.le_iff_toNat_le, hnext] at hlt
      split
      · exact .progress _ (by omega) hnext rfl rfl
      · next hs =>
          rw [ge_iff_le, UInt32.le_iff_toNat_le, UInt32.toNat_saturatingSub, hstride] at hs
          rw [chunkLoop_of_lt (by rw [hnext]; omega)]
          exact .quiet _ (by omega) hnext rfl rfl (Nat.lt_of_not_le hs)

end Thincan.FileTransfer
