import Thincan.Bus.Wire
import Thincan.Process.Word

/-!
# Messages, configurations and results of the file-transfer bundle

The values of `thincan-file-transfer/src/lib.rs` and the schema
`file_transfer.capnp`, and the pure helper functions of `tokio_impl.rs`.

## Bodies

The bundle never looks at the bytes of a body: it hands them to capnp and works
with what the reader answers.  A received body is therefore modelled by that
answer, `Read Root`: either the root could not be read, or it could and its
fields have the values of `Root`.  A pointer field can still fail on its own,
and an enumerant can be one the schema does not have (`none`).  The body of a
message that was sent as a value reads back as that value (`FileOfferValue.root`
and so on).

## Digests

SHA-256 comes from the `sha2` crate.  It enters as a parameter
`sha256 : List UInt8 → Digest`, a function of the hashed bytes and nothing else.
-/

namespace Thincan.FileTransfer

/-- `capnp::Error`, kept only to be handed on. -/
structure CapnpError where
  description : String
deriving DecidableEq, Repr

/-- `Error<E>` of the receiving side. -/
inductive Error (E : Type) where
  | store (e : E)
  | protocol
  | capnp (e : CapnpError)
deriving DecidableEq, Repr

/-! ## Enumerations of the schema -/

/-- `FileHashAlgo`. -/
inductive FileHashAlgo where
  | sha256
deriving DecidableEq, Repr

/-- `FileAckKind`. -/
inductive FileAckKind where
  | accept
  | ack
  | reject
  | complete
  | abort
deriving DecidableEq, Repr

/-- `FileAckError`. -/
inductive FileAckError where
  | none
  | invalidRequest
  | chunkSizeTooLarge
  | chunkSizeTooSmall
  | hashMissing
  | hashInvalidLength
  | hashAlgoUnsupported
  | hashMismatch
deriving DecidableEq, Repr

/-! ## What the reader answers -/

/-- The answer of capnp's reader to a body. -/
abbrev Read (α : Type) := Except CapnpError α

/-- The root of a `FileReq` as read. -/
structure FileReqRoot where
  transferId : UInt32
  totalLen : UInt32
  fileMetadata : Read Bytes
  senderMaxChunkSize : UInt32
  /-- `none` for an enumerant the schema does not have. -/
  fileHashAlgo : Option FileHashAlgo
  fileHash : Read Bytes
deriving DecidableEq

/-- The root of a `FileChunk` as read. -/
structure FileChunkRoot where
  transferId : UInt32
  offset : UInt32
  data : Read Bytes
deriving DecidableEq

/-- The root of a `FileAck` as read. -/
structure FileAckRoot where
  transferId : UInt32
  /-- `none` for an enumerant the schema does not have. -/
  kind : Option FileAckKind
  nextOffset : UInt32
  chunkSize : UInt32
  /-- `none` for an enumerant the schema does not have. -/
  error : Option FileAckError
deriving DecidableEq

/-- `.unwrap_or(&[])`. -/
def unwrapOrEmpty : Read Bytes → Bytes
  | .ok bs => bs
  | .error _ => []

/-- The metadata bytes the receivers take from an offer. -/
def FileReqRoot.metadata (r : FileReqRoot) : Bytes := unwrapOrEmpty r.fileMetadata

/-- The hash bytes the receivers take from an offer. -/
def FileReqRoot.hash (r : FileReqRoot) : Bytes := unwrapOrEmpty r.fileHash

/-- The payload bytes the receivers take from a chunk. -/
def FileChunkRoot.bytes (c : FileChunkRoot) : Bytes := unwrapOrEmpty c.data

/-! ## Values that are sent -/

/-- `FileOfferValue`. -/
structure FileOfferValue where
  transferId : UInt32
  totalLen : UInt32
  fileMetadata : Bytes
  senderMaxChunkSize : UInt32
  fileHashAlgo : FileHashAlgo
  fileHash : Bytes
deriving DecidableEq, Repr

/-- `FileChunkValue`. -/
structure FileChunkValue where
  transferId : UInt32
  offset : UInt32
  data : Bytes
deriving DecidableEq, Repr

/-- `FileAckValue`. -/
structure FileAckValue where
  transferId : UInt32
  kind : FileAckKind
  nextOffset : UInt32
  chunkSize : UInt32
  error : FileAckError
deriving DecidableEq, Repr

/-- What the reader answers to the encoding of an offer. -/
def FileOfferValue.root (v : FileOfferValue) : FileReqRoot where
  transferId := v.transferId
  totalLen := v.totalLen
  fileMetadata := .ok v.fileMetadata
  senderMaxChunkSize := v.senderMaxChunkSize
  fileHashAlgo := some v.fileHashAlgo
  fileHash := .ok v.fileHash

/-- What the reader answers to the encoding of a chunk. -/
def FileChunkValue.root (v : FileChunkValue) : FileChunkRoot where
  transferId := v.transferId
  offset := v.offset
  data := .ok v.data

/-- What the reader answers to the encoding of an acknowledgement. -/
def FileAckValue.root (v : FileAckValue) : FileAckRoot where
  transferId := v.transferId
  kind := some v.kind
  nextOffset := v.nextOffset
  chunkSize := v.chunkSize
  error := some v.error

@[simp] theorem FileOfferValue.root_transferId (v : FileOfferValue) :
    v.root.transferId = v.transferId := rfl
@[simp] theorem FileOfferValue.root_totalLen (v : FileOfferValue) :
    v.root.totalLen = v.totalLen := rfl
@[simp] theorem FileOfferValue.root_metadata (v : FileOfferValue) :
    v.root.metadata = v.fileMetadata := rfl
@[simp] theorem FileOfferValue.root_hash (v : FileOfferValue) : v.root.hash = v.fileHash := rfl
@[simp] theorem FileChunkValue.root_transferId (v : FileChunkValue) :
    v.root.transferId = v.transferId := rfl
@[simp] theorem FileChunkValue.root_offset (v : FileChunkValue) : v.root.offset = v.offset := rfl
@[simp] theorem FileChunkValue.root_bytes (v : FileChunkValue) : v.root.bytes = v.data := rfl
@[simp] theorem FileAckValue.root_transferId (v : FileAckValue) :
    v.root.transferId = v.transferId := rfl

/-- `file_ack_accept`. -/
def fileAckAccept (transferId chunkSize : UInt32) : FileAckValue :=
  ⟨transferId, .accept, 0, chunkSize, .none⟩

/-- `file_ack_progress`. -/
def fileAckProgress (transferId nextOffset : UInt32) : FileAckValue :=
  ⟨transferId, .ack, nextOffset, 0, .none⟩

/-- `file_ack_reject`. -/
def fileAckReject (transferId : UInt32) (error : FileAckError) : FileAckValue :=
  ⟨transferId, .reject, 0, 0, error⟩

/-- The `Abort` value the receivers build in place. -/
def fileAckAbort (transferId nextOffset : UInt32) (error : FileAckError) : FileAckValue :=
  ⟨transferId, .abort, nextOffset, 0, error⟩

/-- The `Complete` value the receivers build in place. -/
def fileAckComplete (transferId totalLen : UInt32) : FileAckValue :=
  ⟨transferId, .complete, totalLen, 0, .none⟩

/-! ## Configurations and results -/

/-- `DEFAULT_CHUNK_SIZE`. -/
def defaultChunkSize : Nat := 64

/-- `SendConfig`. -/
structure SendConfig where
  senderMaxChunkSize : Nat := defaultChunkSize
  windowChunks : Nat := 4
  maxRetries : Nat := 5
deriving DecidableEq, Repr

/-- `SendConfig::validate`. -/
def SendConfig.validate (c : SendConfig) : Except ErrorKind SendConfig :=
  if c.senderMaxChunkSize = 0 ∨ c.windowChunks = 0 then .error .other else .ok c

/-- The configurations `validate` lets through. -/
structure SendConfig.Valid (c : SendConfig) : Prop where
  chunk_pos : 0 < c.senderMaxChunkSize
  window_pos : 0 < c.windowChunks

theorem SendConfig.validate_eq_ok {c : SendConfig} : c.validate = .ok c ↔ c.Valid := by
  unfold validate
  split
  · next h => exact ⟨nofun, fun hv ↦ by have := hv.1; have := hv.2; omega⟩
  · next h => exact ⟨fun _ ↦ ⟨by omega, by omega⟩, fun _ ↦ rfl⟩

theorem SendConfig.validate_eq_error {c : SendConfig} (h : ¬c.Valid) :
    c.validate = .error .other := by
  unfold validate
  split
  · rfl
  · exact absurd ⟨by omega, by omega⟩ h

/-- `ReceiverConfig`; a `maxChunkSize` of zero means no limit. -/
structure ReceiverConfig where
  maxChunkSize : UInt32 := 0
deriving DecidableEq, Repr

/-- A SHA-256 digest, `[u8; SHA256_HASH_LEN]`. -/
abbrev Digest := { bs : Bytes // bs.length = 32 }

/-- The digest of the empty string. -/
def emptyDigest : Digest :=
  ⟨[0xe3, 0xb0, 0xc4, 0x42, 0x98, 0xfc, 0x1c, 0x14, 0x9a, 0xfb, 0xf4, 0xc8, 0x99, 0x6f, 0xb9, 0x24,
    0x27, 0xae, 0x41, 0xe4, 0x64, 0x9b, 0x93, 0x4c, 0xa4, 0x95, 0x99, 0x1b, 0x78, 0x52, 0xb8, 0x55],
    rfl⟩

/-- The string `abc`. -/
def abc : Bytes := [0x61, 0x62, 0x63]

/-- The digest of `abc`. -/
def abcDigest : Digest :=
  ⟨[0xba, 0x78, 0x16, 0xbf, 0x8f, 0x01, 0xcf, 0xea, 0x41, 0x41, 0x40, 0xde, 0x5d, 0xae, 0x22, 0x23,
    0xb0, 0x03, 0x61, 0xa3, 0x96, 0x17, 0x7a, 0x9c, 0xb4, 0x10, 0xff, 0x61, 0xf2, 0x00, 0x15, 0xad],
    rfl⟩

/-- A function that agrees with SHA-256 on the empty string and on `abc`, the
two files used in concrete runs. -/
def shortSha256 (bs : Bytes) : Digest := if bs = abc then abcDigest else emptyDigest

/-- `SendFileResult`. -/
structure SendFileResult where
  transferId : UInt32
  totalLen : Nat
  chunkSize : Nat
  chunksSent : Nat
  retries : Nat
deriving DecidableEq, Repr

/-- `RecvFileResult` and `RecvFileResultNoAlloc`, which differ only in the
container of the metadata bytes. -/
structure RecvFileResult where
  transferId : UInt32
  totalLen : UInt32
  receivedLen : UInt32
  senderMaxChunkSize : UInt32
  negotiatedChunkSize : UInt32
  metadata : Bytes
  fileHashAlgo : FileHashAlgo
  fileHash : Digest
deriving DecidableEq, Repr

/-! ## Helper functions -/

/-- `Ack`, the decoded fields of a `FileAck`. -/
structure Ack where
  transferId : UInt32
  kind : FileAckKind
  nextOffset : UInt32
  chunkSize : UInt32
  error : FileAckError
deriving DecidableEq, Repr

/-- `decode_file_ack`. -/
def decodeFileAck : Read FileAckRoot → Except ErrorKind Ack
  | .error _ => .error .other
  | .ok root =>
      match root.kind, root.error with
      | some kind, some error =>
          .ok ⟨root.transferId, kind, root.nextOffset, root.chunkSize, error⟩
      | _, _ => .error .other

/-- The decoded form of an acknowledgement that was sent as a value. -/
def FileAckValue.decoded (v : FileAckValue) : Ack :=
  ⟨v.transferId, v.kind, v.nextOffset, v.chunkSize, v.error⟩

@[simp] theorem decodeFileAck_root (v : FileAckValue) :
    decodeFileAck (.ok v.root) = .ok v.decoded := rfl

/-- `chunk_transfer_id`. -/
def chunkTransferId : Read FileChunkRoot → Except ErrorKind UInt32
  | .ok root => .ok root.transferId
  | .error _ => .error .other

/-- `validate_sha256_file_hash`. -/
def validateSha256FileHash (hash : Bytes) : Except FileAckError Digest :=
  if hash = [] then .error .hashMissing
  else if h : hash.length = 32 then .ok ⟨hash, h⟩
  else .error .hashInvalidLength

theorem validateSha256FileHash_eq_ok {hash : Bytes} {d : Digest} :
    validateSha256FileHash hash = .ok d ↔ hash = d.1 := by
  unfold validateSha256FileHash
  obtain ⟨bs, hbs⟩ := d
  split
  · next h =>
      refine ⟨nofun, ?_⟩
      intro he
      simp only at he
      simp [← he, h] at hbs
  · split
    · simp only [Except.ok.injEq, Subtype.mk.injEq]
    · next hl =>
        refine ⟨nofun, ?_⟩
        intro he
        simp only at he
        exact absurd (he ▸ hbs) hl

/-- The negotiated chunk size; zero on either side means no limit there. -/
def negotiate (receiverMax senderMax : UInt32) : UInt32 :=
  if receiverMax = 0 then senderMax
  else if senderMax = 0 then receiverMax
  else min receiverMax senderMax

/-- Against a sender that states a limit the negotiated size is positive and
within it. -/
theorem negotiate_bounds (receiverMax : UInt32) {senderMax : UInt32} (h : 0 < senderMax.toNat) :
    0 < (negotiate receiverMax senderMax).toNat ∧
      (negotiate receiverMax senderMax).toNat ≤ senderMax.toNat := by
  unfold negotiate
  split
  · exact ⟨h, Nat.le_refl _⟩
  · next hr =>
      rw [UInt32.eq_zero_iff] at hr
      rw [if_neg (by rw [UInt32.eq_zero_iff]; omega), UInt32.toNat_min]
      omega

/-- `PROGRESS_ACK_EVERY_CHUNKS`. -/
def progressAckEveryChunks : UInt32 := 1

/-- The outcome of handing a message to the bus.  A failed send still reports
whether the encoded message had reached the transport, which may then deliver
it all the same. -/
inductive SendOutcome where
  | ok
  | failed (kind : ErrorKind) (handed : Bool)
deriving DecidableEq, Repr

/-- The message was handed to the transport. -/
def SendOutcome.handed : SendOutcome → Bool
  | .ok => true
  | .failed _ handed => handed

/-- The result `send_to_with_timeout` returns. -/
def SendOutcome.isErr : SendOutcome → Bool
  | .ok => false
  | .failed _ _ => true

/-- How a wait on a mailbox ends: with the next body from the peer, with a bus
error (no waiter slot, or a type the maplet does not have), or with the
timeout around it. -/
inductive Arrival (α : Type) where
  | received (body : α)
  | unavailable
  | timeout
deriving DecidableEq, Repr

end Thincan.FileTransfer
