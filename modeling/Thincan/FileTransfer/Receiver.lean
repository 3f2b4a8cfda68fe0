import Thincan.FileTransfer.Message
import Thincan.Process.Coroutine

/-!
# The two receivers

`recv_file_impl` and `recv_file_no_alloc_impl` of `tokio_impl.rs` as one
`Process.Coroutine`, `receiver`, parameterised by what the two do differently.
The code from the negotiation on is written twice in the source, token for
token, except at two places:

* **the offer**: `recv_file_no_alloc` copies metadata and hash into fixed-size
  vectors while reading and rejects what does not fit, before anything else is
  checked;
* **a chunk**: `recv_file` copies the whole payload and compares its length,
  narrowed to 32 bits, with the negotiated size; `recv_file_no_alloc` copies at
  most `MAX_CHUNK` bytes, also refuses payloads longer than that, and takes the
  minimum with the remaining length in `usize`.

An `Intake` holds these two places, with the facts about lengths the common code
relies on.  `recvFile` and `recvFileNoAlloc` are its two instances.

`Sha256` is fed incrementally; the hasher state is the string of bytes fed so
far, and finalising it applies `sha256`.
-/

namespace Thincan.FileTransfer

open Process

/-- What a receiver does with an offer and a chunk before the common code. -/
structure Intake where
  /-- A reason to reject an offer before its hash is looked at. -/
  precheck : FileReqRoot → Option FileAckError
  /-- The payload is refused as too large for the negotiated size. -/
  oversize : (negotiated : UInt32) → (data : Bytes) → Bool
  /-- The copy of the payload the receiver works with. -/
  held : (data : Bytes) → Bytes
  /-- How much of it is written when `remaining` bytes of the file are missing. -/
  writeLen : (data : Bytes) → (remaining : UInt32) → Nat
  held_prefix : ∀ data, held data <+: data
  writeLen_le_held : ∀ data remaining, writeLen data remaining ≤ (held data).length
  writeLen_le_remaining : ∀ data remaining, writeLen data remaining ≤ remaining.toNat
  writeLen_le_negotiated : ∀ negotiated data remaining, data.length < UInt32.size →
    oversize negotiated data = false → writeLen data remaining ≤ negotiated.toNat

/-- The intake of `recv_file_impl`. -/
def Intake.alloc : Intake where
  precheck _ := none
  oversize negotiated data := UInt32.ofNat data.length > negotiated
  held data := data
  writeLen data remaining := (min (UInt32.ofNat data.length) remaining).toNat
  held_prefix _ := List.prefix_rfl
  writeLen_le_held data remaining := by
    have : data.length % 2 ^ 32 ≤ data.length := Nat.mod_le _ _
    rw [UInt32.toNat_min, UInt32.toNat_ofNat']
    omega
  writeLen_le_remaining data remaining := by
    rw [UInt32.toNat_min]
    omega
  writeLen_le_negotiated negotiated data remaining _ h := by
    simp only [gt_iff_lt, decide_eq_false_iff_not, UInt32.lt_iff_toNat_lt] at h
    rw [UInt32.toNat_min]
    omega

/-- The intake of `recv_file_no_alloc_impl`. -/
def Intake.noAlloc (maxMetadata maxChunk : Nat) : Intake where
  precheck root :=
    if ¬root.metadata.length ≤ maxMetadata then some .invalidRequest
    else if ¬root.hash.length ≤ 32 then some .hashInvalidLength
    else none
  oversize negotiated data :=
    data.length > maxChunk ∨ UInt32.ofNat data.length > negotiated
  held data := data.take (min data.length maxChunk)
  writeLen data remaining := min (min data.length maxChunk) remaining.toNat
  held_prefix data := List.take_prefix _ _
  writeLen_le_held data remaining := by
    rw [List.length_take]
    omega
  writeLen_le_remaining data remaining := Nat.min_le_right _ _
  writeLen_le_negotiated negotiated data remaining hlen h := by
    simp only [gt_iff_lt, decide_eq_false_iff_not, UInt32.lt_iff_toNat_lt,
      UInt32.toNat_ofNat_lt hlen] at h
    omega

/-! ## States, requests and responses -/

/-- What a receiver keeps of an offer it will accept. -/
structure Offer where
  transferId : UInt32
  totalLen : UInt32
  senderMaxChunkSize : UInt32
  negotiatedChunkSize : UInt32
  metadata : Bytes
  fileHashAlgo : FileHashAlgo
  expectedHash : Digest
deriving DecidableEq, Repr

/-- The local variables of the chunk loop. -/
structure RecvVars where
  nextOffset : UInt32 := 0
  lastProgressOffset : UInt32 := 0
  /-- The bytes fed to the hasher. -/
  hasher : Bytes := []
deriving DecidableEq, Repr

/-- The await points of a receiver; `H` is the store's `WriteHandle` and `E` its
`Error`. -/
inductive RecvPc (H E : Type) where
  | recvReq
  | sendReject (ack : FileAckValue)
  | beginWrite (o : Offer)
  | sendAccept (o : Offer) (h : H)
  | commitEmpty (o : Offer) (h : H)
  | waitChunk (o : Offer) (h : H) (v : RecvVars)
  | sendGap (o : Offer) (h : H) (v : RecvVars)
  | writeAt (o : Offer) (h : H) (v : RecvVars) (bytes : Bytes)
  | sendProgress (o : Offer) (h : H) (v : RecvVars)
  | commit (o : Offer) (h : H)
  | sendComplete (o : Offer)
  | abort (h : H) (last : Option FileAckValue) (err : Error E)
  | sendAbort (ack : FileAckValue) (err : Error E)
  | done (result : Except (Error E) RecvFileResult)
deriving DecidableEq

/-- What a receiver asks of the bus and of the store. -/
inductive RecvReq (H : Type) where
  | recvReq
  | recvChunk
  | send (ack : FileAckValue)
  | beginWrite (transferId totalLen : UInt32)
  | writeAt (h : H) (offset : UInt32) (bytes : Bytes)
  | commit (h : H)
  | abort (h : H)
deriving DecidableEq, Repr

/-- What the bus and the store answer. -/
inductive RecvResp (H E : Type) where
  | /-- The next offer, or `none` if the bus could not serve the wait, which has no
    timeout around it. -/
    req (body : Option (Read FileReqRoot))
  | chunk (arrival : Arrival (Read FileChunkRoot))
  | sent (outcome : SendOutcome)
  | began (r : Except E H)
  | wrote (r : Except E Unit)
  | committed (r : Except E Unit)
  | aborted
deriving DecidableEq

/-- One request of a receiver with its answer. -/
abbrev RecvEvent (H E : Type) := RecvReq H × RecvResp H E

/-! ## The code between await points -/

variable {H E : Type}

/-- The value returned on success. -/
def Offer.result (o : Offer) (receivedLen : UInt32) : RecvFileResult :=
  ⟨o.transferId, o.totalLen, receivedLen, o.senderMaxChunkSize, o.negotiatedChunkSize,
    o.metadata, o.fileHashAlgo, o.expectedHash⟩

/-- `ack_stride`. -/
def Offer.ackStride (o : Offer) : UInt32 :=
  o.negotiatedChunkSize.saturatingMul progressAckEveryChunks

/-- Reject the offer and return. -/
def reject (transferId : UInt32) (error : FileAckError) : RecvPc H E :=
  .sendReject (fileAckReject transferId error)

/-- Release the handle, tell the sender, return `Protocol`. -/
def Offer.abortWith (o : Offer) (h : H) (nextOffset : UInt32) (error : FileAckError) :
    RecvPc H E :=
  .abort h (some (fileAckAbort o.transferId nextOffset error)) .protocol

/-- The condition of the `while` loop.  Leaving it falls through to the last
line of the function, which returns an error and drops the handle. -/
def chunkLoop (o : Offer) (h : H) (v : RecvVars) : RecvPc H E :=
  if v.nextOffset < o.totalLen then .waitChunk o h v else .done (.error .protocol)

namespace Intake

variable (rx : Intake)

/-- From the offer as read to `begin_write`. -/
def onReqRoot (cfg : ReceiverConfig) (root : FileReqRoot) : RecvPc H E :=
  match rx.precheck root with
  | some e => reject root.transferId e
  | none =>
      match root.fileHashAlgo with
      | none => reject root.transferId .hashAlgoUnsupported
      | some algo =>
          if algo ≠ .sha256 then reject root.transferId .hashAlgoUnsupported
          else
            match validateSha256FileHash root.hash with
            | .error e => reject root.transferId e
            | .ok expectedHash =>
                let negotiated := negotiate cfg.maxChunkSize root.senderMaxChunkSize
                if negotiated = 0 then reject root.transferId .chunkSizeTooSmall
                else
                  .beginWrite
                    { transferId := root.transferId, totalLen := root.totalLen
                      senderMaxChunkSize := root.senderMaxChunkSize
                      negotiatedChunkSize := negotiated, metadata := root.metadata
                      fileHashAlgo := algo, expectedHash }

/-- After the wait for an offer. -/
def onReq (cfg : ReceiverConfig) : Option (Read FileReqRoot) → RecvPc H E
  | some (.ok root) => rx.onReqRoot cfg root
  | some (.error e) => .done (.error (.capnp e))
  | none => .done (.error .protocol)

/-- The checks on a chunk of this transfer, up to the write. -/
def onChunkRoot (o : Offer) (h : H) (v : RecvVars) (c : FileChunkRoot) : RecvPc H E :=
  if c.transferId ≠ o.transferId then o.abortWith h v.nextOffset .invalidRequest
  else if rx.oversize o.negotiatedChunkSize c.bytes then
    o.abortWith h v.nextOffset .chunkSizeTooLarge
  else if c.offset ≠ v.nextOffset then .sendGap o h v
  else
    let remaining := o.totalLen.saturatingSub v.nextOffset
    let writeLen := rx.writeLen c.bytes remaining
    if writeLen = 0 then chunkLoop o h v
    else .writeAt o h v ((rx.held c.bytes).take writeLen)

/-- After `wait_for_transfer_chunk` returned a body, which is read again. -/
def onChunkBody (o : Offer) (h : H) (v : RecvVars) : Read FileChunkRoot → RecvPc H E
  | .error e =>
      .abort h (some (fileAckAbort o.transferId v.nextOffset .invalidRequest)) (.capnp e)
  | .ok c => rx.onChunkRoot o h v c

/-- One round of the loop of `wait_for_transfer_chunk`: a chunk of another
transfer is skipped, any failure aborts silently. -/
def onChunk (o : Offer) (h : H) (v : RecvVars) :
    Arrival (Read FileChunkRoot) → RecvPc H E
  | .received body =>
      match chunkTransferId body with
      | .error _ => .abort h none .protocol
      | .ok id => if id = o.transferId then rx.onChunkBody o h v body else .waitChunk o h v
  | .unavailable | .timeout => .abort h none .protocol

end Intake

variable (sha256 : Bytes → Digest)

/-- After the offer was accepted. -/
def onAccepted (o : Offer) (h : H) : RecvPc H E :=
  if o.totalLen = 0 then
    if sha256 [] ≠ o.expectedHash then o.abortWith h 0 .hashMismatch else .commitEmpty o h
  else chunkLoop o h {}

/-- After a successful write. -/
def onWritten (o : Offer) (h : H) (v : RecvVars) (bytes : Bytes) : RecvPc H E :=
  let hasher := v.hasher ++ bytes
  let nextOffset := v.nextOffset.saturatingAdd (UInt32.ofNat bytes.length)
  if nextOffset ≥ o.totalLen then
    if sha256 hasher ≠ o.expectedHash then o.abortWith h o.totalLen .hashMismatch
    else .commit o h
  else if nextOffset.saturatingSub v.lastProgressOffset ≥ o.ackStride then
    .sendProgress o h { v with nextOffset, hasher }
  else chunkLoop o h { v with nextOffset, hasher }

/-- After a progress acknowledgement, sent from either of its two places. -/
def onProgressSent (o : Offer) (h : H) (v : RecvVars) (outcome : SendOutcome) : RecvPc H E :=
  if outcome.isErr then .abort h none .protocol
  else chunkLoop o h { v with lastProgressOffset := v.nextOffset }

/-- After the handle was released. -/
def onAborted (last : Option FileAckValue) (err : Error E) : RecvPc H E :=
  match last with
  | none => .done (.error err)
  | some ack => .sendAbort ack err

/-- A receiver with the given intake. -/
def receiver (rx : Intake) (cfg : ReceiverConfig) :
    Coroutine (RecvPc H E) (RecvReq H) (RecvResp H E) where
  request
    | .recvReq => some .recvReq
    | .sendReject ack => some (.send ack)
    | .beginWrite o => some (.beginWrite o.transferId o.totalLen)
    | .sendAccept o _ => some (.send (fileAckAccept o.transferId o.negotiatedChunkSize))
    | .commitEmpty _ h => some (.commit h)
    | .waitChunk _ _ _ => some .recvChunk
    | .sendGap o _ v => some (.send (fileAckProgress o.transferId v.nextOffset))
    | .writeAt _ h v bytes => some (.writeAt h v.nextOffset bytes)
    | .sendProgress o _ v => some (.send (fileAckProgress o.transferId v.nextOffset))
    | .commit _ h => some (.commit h)
    | .sendComplete o => some (.send (fileAckComplete o.transferId o.totalLen))
    | .abort h _ _ => some (.abort h)
    | .sendAbort ack _ => some (.send ack)
    | .done _ => none
  resume
    | .recvReq, .req body => some (rx.onReq cfg body)
    | .sendReject _, .sent _ => some (.done (.error .protocol))
    | .beginWrite _, .began (.error e) => some (.done (.error (.store e)))
    | .beginWrite o, .began (.ok h) => some (.sendAccept o h)
    | .sendAccept o h, .sent outcome =>
        some (if outcome.isErr then .abort h none .protocol else onAccepted sha256 o h)
    | .commitEmpty _ _, .committed (.error e) => some (.done (.error (.store e)))
    | .commitEmpty o _, .committed (.ok _) => some (.done (.ok (o.result 0)))
    | .waitChunk o h v, .chunk arrival => some (rx.onChunk o h v arrival)
    | .sendGap o h v, .sent outcome => some (onProgressSent o h v outcome)
    | .writeAt _ h _ _, .wrote (.error e) => some (.abort h none (.store e))
    | .writeAt o h v bytes, .wrote (.ok _) => some (onWritten sha256 o h v bytes)
    | .sendProgress o h v, .sent outcome => some (onProgressSent o h v outcome)
    | .commit _ _, .committed (.error e) => some (.done (.error (.store e)))
    | .commit o _, .committed (.ok _) => some (.sendComplete o)
    | .sendComplete o, .sent outcome =>
        some (.done (if outcome.isErr then .error .protocol else .ok (o.result o.totalLen)))
    | .abort _ last err, .aborted => some (onAborted last err)
    | .sendAbort _ err, .sent _ => some (.done (.error err))
    | _, _ => none

/-- The two receive functions of the bundle. -/
inductive Variant where
  | recvFile
  | recvFileNoAlloc (maxMetadata maxChunk : Nat)
deriving DecidableEq, Repr

/-- The intake of each. -/
def Variant.intake : Variant → Intake
  | .recvFile => .alloc
  | .recvFileNoAlloc maxMetadata maxChunk => .noAlloc maxMetadata maxChunk

/-- `recv_file_impl`. -/
abbrev recvFile (cfg : ReceiverConfig) : Coroutine (RecvPc H E) (RecvReq H) (RecvResp H E) :=
  receiver sha256 .alloc cfg

/-- `recv_file_no_alloc_impl`. -/
abbrev recvFileNoAlloc (maxMetadata maxChunk : Nat) (cfg : ReceiverConfig) :
    Coroutine (RecvPc H E) (RecvReq H) (RecvResp H E) :=
  receiver sha256 (.noAlloc maxMetadata maxChunk) cfg

end Thincan.FileTransfer
