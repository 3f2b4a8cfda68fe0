import Mathlib.Algebra.Order.Floor.Div
import Thincan.FileTransfer.Message
import Thincan.Process.Coroutine

/-!
# The sender

`send_file_with_id_impl` of `tokio_impl.rs` as a `Process.Coroutine`: one state
per await point, with the local variables alive there.

* `SendPc.offerSend` and `offerWait` are the two awaits of the offer loop;
* `SendPc.chunkSend` is the send inside the window-filling inner loop and
  `ackWait` the wait after it;
* `dataLoop` is what the code does between two awaits of the data phase: the
  conditions of the outer and of the inner `while`.  The inner loop does not
  change `last_acked`, so re-entering through the outer condition after each
  chunk is the same loop.

`usize` values are natural numbers.  The one conversion that depends on the word
size, `usize::try_from` of a `u32`, keeps it as `UsizeWidth`.
-/

namespace Thincan.FileTransfer

open Process

/-- The word sizes the crate is built for. -/
inductive UsizeWidth where
  | bits32
  | bits64
deriving DecidableEq, Repr

/-- The number of bits of `usize`. -/
def UsizeWidth.bits : UsizeWidth → Nat
  | .bits32 => 32
  | .bits64 => 64

/-- `usize::try_from` of a `u32`. -/
def usizeTryFrom (w : UsizeWidth) (n : UInt32) : Except ErrorKind Nat :=
  if n.toNat < 2 ^ w.bits then .ok n.toNat else .error .other

@[simp] theorem usizeTryFrom_eq_ok (w : UsizeWidth) (n : UInt32) :
    usizeTryFrom w n = .ok n.toNat := by
  have hn : n.toNat < 2 ^ 32 := n.toNat_lt
  have hw : 2 ^ 32 ≤ 2 ^ w.bits := Nat.pow_le_pow_right (by decide) (by cases w <;> decide)
  exact if_pos (Nat.lt_of_lt_of_le hn hw)

/-- `u32::try_from` of a `usize`. -/
def u32TryFrom (n : Nat) : Except ErrorKind UInt32 :=
  match UInt32.tryFrom n with
  | some m => .ok m
  | none => .error .other

/-- `inflight_chunk_count`. -/
def inflightChunkCount (w : UsizeWidth) (lastAcked nextToSend : UInt32) (chunkSize : Nat) :
    Except ErrorKind Nat :=
  if nextToSend ≤ lastAcked then .ok 0
  else do
    let outstanding ← usizeTryFrom w (nextToSend - lastAcked)
    return outstanding ⌈/⌉ chunkSize

/-- The count is the rounded-up distance between the two cursors. -/
theorem inflightChunkCount_eq_ok (w : UsizeWidth) (a n : UInt32) (c : Nat) :
    inflightChunkCount w a n c = .ok ((n.toNat - a.toNat) ⌈/⌉ c) := by
  unfold inflightChunkCount
  split
  · next h =>
      rw [UInt32.le_iff_toNat_le] at h
      rw [Nat.sub_eq_zero_of_le h, zero_ceilDiv]
  · next h =>
      rw [UInt32.le_iff_toNat_le] at h
      have hle : a ≤ n := UInt32.le_iff_toNat_le.mpr (by omega)
      rw [usizeTryFrom_eq_ok, UInt32.toNat_sub_of_le n a hle]
      rfl

/-! ## Transfer ids -/

/-- `SendState`. -/
structure SendState where
  nextTransferId : UInt32 := 1
deriving DecidableEq, Repr

/-- `SendState::alloc_transfer_id`. -/
def SendState.allocTransferId (s : SendState) : UInt32 × SendState :=
  (s.nextTransferId, ⟨s.nextTransferId + 1⟩)

/-- `SendState::observe_transfer_id`. -/
def SendState.observeTransferId (s : SendState) (transferId : UInt32) : SendState :=
  if transferId ≥ s.nextTransferId then ⟨transferId + 1⟩ else s

/-! ## States, requests and responses -/

/-- The arguments of one `send_file_with_id` call. -/
structure SendCall where
  usize : UsizeWidth
  transferId : UInt32
  bytes : Bytes
  config : SendConfig
deriving DecidableEq, Repr

namespace SendCall

variable (x : SendCall)

/-- `total_len`. -/
def totalLen : Nat := x.bytes.length

/-- `total_len_u32`, once the conversion has succeeded. -/
def totalLenU32 : UInt32 := UInt32.ofNat x.bytes.length

/-- `max_chunk_u32`, once the conversion has succeeded. -/
def maxChunkU32 : UInt32 := UInt32.ofNat x.config.senderMaxChunkSize

/-- The offer of the call. -/
def offer (sha256 : Bytes → Digest) : FileOfferValue where
  transferId := x.transferId
  totalLen := x.totalLenU32
  fileMetadata := []
  senderMaxChunkSize := x.maxChunkU32
  fileHashAlgo := .sha256
  fileHash := (sha256 x.bytes).1

end SendCall

/-- The local variables of the data phase. -/
structure SendVars where
  chunkSize : Nat
  chunksSent : Nat := 0
  retries : Nat := 0
  lastAcked : UInt32 := 0
  nextToSend : UInt32 := 0
deriving DecidableEq, Repr

/-- The await points of `send_file_with_id_impl`. -/
inductive SendPc where
  | offerSend (offerRetries : Nat)
  | offerWait (offerRetries : Nat)
  | chunkSend (v : SendVars)
  | ackWait (v : SendVars)
  | done (result : Except ErrorKind SendFileResult)
deriving DecidableEq

/-- What the sender asks of the bus. -/
inductive SendReq where
  | sendOffer (offer : FileOfferValue)
  | sendChunk (chunk : FileChunkValue)
  | recvAck
deriving DecidableEq, Repr

/-- What the bus answers. -/
inductive SendResp where
  | sent (outcome : SendOutcome)
  | ack (arrival : Arrival (Read FileAckRoot))
deriving DecidableEq

/-! ## The code between await points -/

/-- One round of the loop of `wait_for_transfer_ack`; `none` is an
acknowledgement of another transfer, after which the loop waits again. -/
def waitForTransferAck (transferId : UInt32) :
    Arrival (Read FileAckRoot) → Option (Except ErrorKind Ack)
  | .received body =>
      match decodeFileAck body with
      | .error e => some (.error e)
      | .ok ack => if ack.transferId = transferId then some (.ok ack) else none
  | .unavailable => some (.error .other)
  | .timeout => some (.error .timeout)

/-- After the send of the offer loop: a timeout is not an error there. -/
def onOfferSent (offerRetries : Nat) : SendOutcome → SendPc
  | .failed kind _ => if kind ≠ .timeout then .done (.error kind) else .offerWait offerRetries
  | .ok => .offerWait offerRetries

namespace SendCall

variable (x : SendCall)

/-- The payload of the chunk at `next_to_send`: `&bytes[offset..end]`. -/
def chunkData (v : SendVars) : Bytes :=
  let offset := v.nextToSend.toNat
  let stop := min (offset + v.chunkSize) x.totalLen
  (x.bytes.drop offset).take (stop - offset)

/-- The chunk at `next_to_send`. -/
def chunk (v : SendVars) : FileChunkValue := ⟨x.transferId, v.nextToSend, x.chunkData v⟩

/-- The value returned when the data loop is left. -/
def result (v : SendVars) : SendFileResult :=
  ⟨x.transferId, x.totalLen, v.chunkSize, v.chunksSent, v.retries⟩

/-- The conditions of the two `while` loops. -/
def dataLoop (v : SendVars) : SendPc :=
  if v.lastAcked.toNat < x.totalLen then
    match inflightChunkCount x.usize v.lastAcked v.nextToSend v.chunkSize with
    | .error e => .done (.error e)
    | .ok inflight =>
        if inflight < x.config.windowChunks ∧ v.nextToSend.toNat < x.totalLen then .chunkSend v
        else .ackWait v
  else .done (.ok (x.result v))

/-- After the offer was accepted. -/
def onAccept (accept : Ack) : SendPc :=
  match usizeTryFrom x.usize accept.chunkSize with
  | .error e => .done (.error e)
  | .ok chunkSize =>
      if chunkSize = 0 ∨ chunkSize > x.config.senderMaxChunkSize then .done (.error .other)
      else x.dataLoop { chunkSize }

/-- After the wait of the offer loop. -/
def onOfferAck (offerRetries : Nat) : Option (Except ErrorKind Ack) → SendPc
  | none => .offerWait offerRetries
  | some (.error e) =>
      if e = .timeout then
        if offerRetries + 1 > x.config.maxRetries then .done (.error e)
        else .offerSend (offerRetries + 1)
      else .done (.error e)
  | some (.ok ack) =>
      match ack.kind with
      | .accept => x.onAccept ack
      | .reject | .abort => .done (.error .other)
      | .ack | .complete => .offerSend offerRetries

/-- After the send of the inner loop. -/
def onChunkSent (v : SendVars) : SendOutcome → SendPc
  | .failed kind _ => .done (.error kind)
  | .ok =>
      match u32TryFrom (x.chunkData v).length with
      | .error e => .done (.error e)
      | .ok len =>
          match v.nextToSend.checkedAdd len with
          | none => .done (.error .other)
          | some next => x.dataLoop { v with nextToSend := next, chunksSent := v.chunksSent + 1 }

/-- The check on the offset of a progress or completion acknowledgement. -/
def ackRefused (v : SendVars) (next : UInt32) : Bool :=
  next < v.lastAcked ∨ next.toNat > x.totalLen ∨ next > v.nextToSend

/-- After a progress or completion acknowledgement. -/
def onProgress (v : SendVars) (ack : Ack) : SendPc :=
  if x.ackRefused v ack.nextOffset then .done (.error .other)
  else
    let v' := { v with lastAcked := ack.nextOffset }
    if ack.kind = .complete then
      if v'.lastAcked.toNat ≠ x.totalLen then .done (.error .other)
      else .done (.ok (x.result v'))
    else x.dataLoop v'

/-- After the wait of the data loop. -/
def onAck (v : SendVars) : Option (Except ErrorKind Ack) → SendPc
  | none => .ackWait v
  | some (.error e) =>
      if e = .timeout then
        if v.retries + 1 > x.config.maxRetries then .done (.error e)
        else x.dataLoop { v with retries := v.retries + 1, nextToSend := v.lastAcked }
      else .done (.error e)
  | some (.ok ack) =>
      match ack.kind with
      | .ack | .complete => x.onProgress v ack
      | .reject | .abort => .done (.error .other)
      | .accept => x.dataLoop v

/-- The sender before its first await: the checks on the arguments. -/
def start : SendPc :=
  match x.config.validate with
  | .error e => .done (.error e)
  | .ok config =>
      match u32TryFrom x.totalLen, u32TryFrom config.senderMaxChunkSize with
      | .error e, _ => .done (.error e)
      | .ok _, .error e => .done (.error e)
      | .ok _, .ok _ => .offerSend 0

/-- The id bookkeeping of the call: an id is observed once the configuration
has been validated. -/
def observe (s : SendState) : SendState :=
  match x.config.validate with
  | .error _ => s
  | .ok _ => s.observeTransferId x.transferId

end SendCall

/-- `send_file_with_id_impl`. -/
def sendFileWithId (sha256 : Bytes → Digest) (x : SendCall) :
    Coroutine SendPc SendReq SendResp where
  request
    | .offerSend _ => some (.sendOffer (x.offer sha256))
    | .offerWait _ => some .recvAck
    | .chunkSend v => some (.sendChunk (x.chunk v))
    | .ackWait _ => some .recvAck
    | .done _ => none
  resume
    | .offerSend n, .sent outcome => some (onOfferSent n outcome)
    | .offerWait n, .ack arrival => some (x.onOfferAck n (waitForTransferAck x.transferId arrival))
    | .chunkSend v, .sent outcome => some (x.onChunkSent v outcome)
    | .ackWait v, .ack arrival => some (x.onAck v (waitForTransferAck x.transferId arrival))
    | _, _ => none

/-- `send_file_impl`: the id comes from the counter. -/
def sendFile (s : SendState) (usize : UsizeWidth) (bytes : Bytes) (config : SendConfig) :
    SendCall × SendState :=
  let (transferId, s) := s.allocTransferId
  let x : SendCall := ⟨usize, transferId, bytes, config⟩
  (x, x.observe s)

/-- The transfer of `abc` in chunks of two bytes. -/
def abcCall : SendCall := ⟨.bits64, 7, abc, { senderMaxChunkSize := 2 }⟩

end Thincan.FileTransfer
