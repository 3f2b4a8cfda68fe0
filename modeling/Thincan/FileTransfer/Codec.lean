import Thincan.Capnp.Segment
import Thincan.FileTransfer.Message

/-!
# The codec of the file-transfer messages

The encoders of `alloc_encode.rs` and `heapless_encode.rs`, the size bounds of
`lib.rs` and `TxState::encode_capnp_into_buf`, over the layout the schema
`file_transfer.capnp` has:

* `FileReq`: two data words (`transferId`, `totalLen`; `senderMaxChunkSize`,
  `fileHashAlgo`) and the pointers to `fileMetadata` and `fileHash`;
* `FileChunk`: one data word (`transferId`, `offset`) and the pointer to `data`;
* `FileAck`: two data words (`transferId`, `kind`, `error`; `nextOffset`,
  `chunkSize`).

All encoders do the same to a new message, `Encodable.init`, and differ in where its
segment is: in scratch that is copied from, or in the output itself.  A panic is
`none`.  A `usize` has 64 bits.
-/

namespace Thincan.FileTransfer

open Process Capnp

/-! ## Sizes -/

/-- `capnp_padded_len`. -/
def capnpPaddedLen (len : Nat) : Nat := len + 7 &&& (2 ^ 64 - 1 - 7)

/-- `file_req_max_encoded_len`. -/
def fileReqMaxEncodedLen : Nat := 40

/-- `file_offer_max_encoded_len`. -/
def fileOfferMaxEncodedLen (metadataLen hashLen : Nat) : Nat :=
  40 + capnpPaddedLen metadataLen + capnpPaddedLen hashLen

/-- `file_chunk_max_encoded_len`. -/
def fileChunkMaxEncodedLen (dataLen : Nat) : Nat := 32 + capnpPaddedLen dataLen

/-- `file_ack_max_encoded_len`. -/
def fileAckMaxEncodedLen : Nat := 24

/-- `capnp_scratch_words_for_bytes`. -/
def capnpScratchWordsForBytes (bytes : Nat) : Nat := (bytes + 7) / 8

theorem capnpPaddedLen_eq {len : Nat} (h : len < 2 ^ 29) : capnpPaddedLen len = 8 * wordsFor len := by
  rw [capnpPaddedLen, and_not_seven (by decide) (by omega), wordsFor, Nat.mul_comm]

/-! ## What is read -/

/-- The number of an algorithm in the schema. -/
def FileHashAlgo.number : FileHashAlgo → Nat
  | .sha256 => 0

/-- The algorithm with a number. -/
def FileHashAlgo.ofNumber? : Nat → Option FileHashAlgo
  | 0 => some .sha256
  | _ => none

/-- The number of a kind in the schema. -/
def FileAckKind.number : FileAckKind → Nat
  | .accept => 0
  | .ack => 1
  | .reject => 2
  | .complete => 3
  | .abort => 4

/-- The kind with a number. -/
def FileAckKind.ofNumber? : Nat → Option FileAckKind
  | 0 => some .accept
  | 1 => some .ack
  | 2 => some .reject
  | 3 => some .complete
  | 4 => some .abort
  | _ => none

/-- The number of an error in the schema. -/
def FileAckError.number : FileAckError → Nat
  | .none => 0
  | .invalidRequest => 1
  | .chunkSizeTooLarge => 2
  | .chunkSizeTooSmall => 3
  | .hashMissing => 4
  | .hashInvalidLength => 5
  | .hashAlgoUnsupported => 6
  | .hashMismatch => 7

/-- The error with a number. -/
def FileAckError.ofNumber? : Nat → Option FileAckError
  | 0 => some .none
  | 1 => some .invalidRequest
  | 2 => some .chunkSizeTooLarge
  | 3 => some .chunkSizeTooSmall
  | 4 => some .hashMissing
  | 5 => some .hashInvalidLength
  | 6 => some .hashAlgoUnsupported
  | 7 => some .hashMismatch
  | _ => none

theorem FileHashAlgo.ofNumber?_number (a : FileHashAlgo) :
    FileHashAlgo.ofNumber? a.number = some a ∧ a.number < 2 ^ 16 := by
  cases a with
  | sha256 => decide

theorem FileAckKind.ofNumber?_number (k : FileAckKind) :
    FileAckKind.ofNumber? k.number = some k ∧ k.number < 2 ^ 16 := by
  cases k with
  | accept | ack | reject | complete | abort => decide

theorem FileAckError.ofNumber?_number (e : FileAckError) :
    FileAckError.ofNumber? e.number = some e ∧ e.number < 2 ^ 16 := by
  cases e with
  | none | invalidRequest | chunkSizeTooLarge | chunkSizeTooSmall | hashMissing
    | hashInvalidLength | hashAlgoUnsupported | hashMismatch => decide

/-- A failed read, as capnp reports it. -/
def capnpError : ReadError → CapnpError
  | .outOfBounds => ⟨"MessageContainsOutOfBoundsPointer"⟩
  | .wrongKind => ⟨"ExistingPointerIsNotOfTheExpectedType"⟩

/-- `CapnpTyped::with_root`, and what is read of the root. -/
def withRoot {α : Type} (body : Bytes) (f : StructReader → α) : Read α :=
  (readRoot body).map f |>.mapError capnpError

/-- A `Data` field. -/
def readData (body : Bytes) (r : StructReader) (i : Nat) : Read Bytes :=
  (r.blob body i).mapError capnpError

/-- A `FileReq` body. -/
def readFileReq (body : Bytes) : Read FileReqRoot :=
  withRoot body fun r ↦
    { transferId := .ofNat (r.field 4 0), totalLen := .ofNat (r.field 4 4)
      fileMetadata := readData body r 0, senderMaxChunkSize := .ofNat (r.field 4 8)
      fileHashAlgo := FileHashAlgo.ofNumber? (r.field 2 12), fileHash := readData body r 1 }

/-- A `FileChunk` body. -/
def readFileChunk (body : Bytes) : Read FileChunkRoot :=
  withRoot body fun r ↦
    { transferId := .ofNat (r.field 4 0), offset := .ofNat (r.field 4 4)
      data := readData body r 0 }

/-- A `FileAck` body. -/
def readFileAck (body : Bytes) : Read FileAckRoot :=
  withRoot body fun r ↦
    { transferId := .ofNat (r.field 4 0), kind := FileAckKind.ofNumber? (r.field 2 4)
      nextOffset := .ofNat (r.field 4 8), chunkSize := .ofNat (r.field 4 12)
      error := FileAckError.ofNumber? (r.field 2 6) }

/-! ## What is written -/

/-- `FileReqValue`. -/
structure FileReqValue where
  transferId : UInt32
  totalLen : UInt32
deriving DecidableEq, Repr

/-- What the reader answers to the encoding of a bare request. -/
def FileReqValue.root (v : FileReqValue) : FileReqRoot where
  transferId := v.transferId
  totalLen := v.totalLen
  fileMetadata := .ok []
  senderMaxChunkSize := 0
  fileHashAlgo := some .sha256
  fileHash := .ok []

/-- A value with an `EncodeCapnp` implementation: `max_encoded_len`, and what
`encode` does to a message in a segment of the given number of words. -/
structure Encodable where
  maxEncodedLen : Nat
  init : (capacity : Nat) → Option Builder

/-- The fields of a `FileReq`, in the order they are set. -/
def initFileReq (transferId totalLen : UInt32) (metadata : Bytes) (senderMaxChunkSize : UInt32)
    (algo : FileHashAlgo) (hash : Bytes) (capacity : Nat) : Option Builder := do
  let root ← Builder.initRoot capacity 2 2
  let root := root.setField 4 0 transferId.toNat
  let root := root.setField 4 4 totalLen.toNat
  let root ← root.setData 0 metadata
  let root := root.setField 4 8 senderMaxChunkSize.toNat
  let root := root.setField 2 12 algo.number
  root.setData 1 hash

/-- `FileReqValue`. -/
def FileReqValue.encodable (v : FileReqValue) : Encodable where
  maxEncodedLen := fileReqMaxEncodedLen
  init := initFileReq v.transferId v.totalLen [] 0 .sha256 []

/-- `FileOfferValue`. -/
def FileOfferValue.encodable (v : FileOfferValue) : Encodable where
  maxEncodedLen := fileOfferMaxEncodedLen v.fileMetadata.length v.fileHash.length
  init := initFileReq v.transferId v.totalLen v.fileMetadata v.senderMaxChunkSize v.fileHashAlgo
    v.fileHash

/-- `FileChunkValue`. -/
def FileChunkValue.encodable (v : FileChunkValue) : Encodable where
  maxEncodedLen := fileChunkMaxEncodedLen v.data.length
  init capacity := do
    let root ← Builder.initRoot capacity 1 1
    let root := root.setField 4 0 v.transferId.toNat
    let root := root.setField 4 4 v.offset.toNat
    root.setData 0 v.data

/-- `FileAckValue`. -/
def FileAckValue.encodable (v : FileAckValue) : Encodable where
  maxEncodedLen := fileAckMaxEncodedLen
  init capacity := do
    let root ← Builder.initRoot capacity 2 0
    let root := root.setField 4 0 v.transferId.toNat
    let root := root.setField 2 4 v.kind.number
    let root := root.setField 4 8 v.nextOffset.toNat
    let root := root.setField 4 12 v.chunkSize.toNat
    some (root.setField 2 6 v.error.number)

/-! ## The encoders -/

/-- What an encoder leaves in its output, with the number of bytes it reports; `none`
is a panic. -/
abbrev Encoded := Option (Except ErrorKind (Nat × Bytes))

namespace Encodable

variable (e : Encodable)

/-- Build the message in a segment of `len` bytes, and check its size. -/
def build (len : Nat) : Option (Except ErrorKind Bytes) :=
  (e.init (len / 8)).map fun root ↦
    if root.output.length > e.maxEncodedLen then .error .other else .ok root.output

/-- The closure of the encoders that copy: build in the first `max_len` bytes of
`words` words of scratch, then copy. -/
def buildAndCopy (words : Nat) (out : Bytes) : Encoded :=
  if 8 * words < e.maxEncodedLen then none
  else (e.build e.maxEncodedLen).map fun r ↦ r.map fun bytes ↦ (bytes.length, splice out 0 bytes)

/-- `EncodeCapnp::encode` of `alloc_encode.rs`, on scratch that has `scratch` words
before it is grown; without `std` it always has none. -/
def encodeAlloc (scratch : Nat) (out : Bytes) : Encoded :=
  if out.length < e.maxEncodedLen then some (.error .other)
  else e.buildAndCopy (max scratch ((e.maxEncodedLen + 7) / 8)) out

/-- `encode_segmented_root`, by which `heapless_encode.rs` implements
`EncodeCapnp::encode`.  The allocator clears the segment first. -/
def encodeSegmentedRoot (out : Bytes) : Encoded :=
  if out.length < e.maxEncodedLen then some (.error .other)
  else (e.build e.maxEncodedLen).map fun r ↦ r.map fun bytes ↦
    (bytes.length, splice (splice out 0 (List.replicate e.maxEncodedLen 0)) 0 bytes)

/-- The `encode_*_into` functions, with a `CapnpScratch<WORDS>` of which `scratch`
words are in use. -/
def encodeInto (words scratch : Nat) (out : Bytes) : Encoded :=
  if out.length < e.maxEncodedLen then some (.error .other)
  else if capnpScratchWordsForBytes e.maxEncodedLen > words then some (.error .other)
  else e.buildAndCopy (max scratch (capnpScratchWordsForBytes e.maxEncodedLen)) out

end Encodable

/-- `encode_file_offer_into`. -/
def encodeFileOfferInto (words scratch : Nat) (v : FileOfferValue) : Bytes → Encoded :=
  v.encodable.encodeInto words scratch

/-- `encode_file_chunk_into`. -/
def encodeFileChunkInto (words scratch : Nat) (v : FileChunkValue) : Bytes → Encoded :=
  v.encodable.encodeInto words scratch

/-- `encode_file_ack_into`. -/
def encodeFileAckInto (words scratch : Nat) (v : FileAckValue) : Bytes → Encoded :=
  v.encodable.encodeInto words scratch

/-- `TxState::encode_capnp_into_buf`, with the `encode` of the value. -/
def encodeCapnpIntoBuf (id : UInt16) (maxLen : Nat) (encode : Bytes → Encoded) (buf : Bytes) :
    Option (Except ErrorKind Bytes) :=
  let needed := Bus.headerLen + maxLen
  if buf.length < needed then some (.error (.bufferTooSmall needed buf.length))
  else
    let buf := splice buf 0 (leBytes 2 id.toNat)
    (encode ((buf.drop Bus.headerLen).take maxLen)).map fun r ↦ r.bind fun (used, out) ↦
      if used > maxLen then .error .other
      else .ok ((splice buf Bus.headerLen out).take (Bus.headerLen + used))

/-! ## What the encoders have in common -/

/-- The value has the encoding `body`, which fits its bound. -/
structure Encodable.Writes (e : Encodable) (body : Bytes) : Prop where
  init : ∀ capacity, e.maxEncodedLen ≤ 8 * capacity →
    ∃ root, e.init capacity = some root ∧ root.output = body
  length_le : body.length ≤ e.maxEncodedLen
  whole : e.maxEncodedLen % 8 = 0

section Writes

variable {e : Encodable} {body out : Bytes}

theorem Encodable.Writes.build (h : e.Writes body) : e.build e.maxEncodedLen = some (.ok body) := by
  have hwhole := h.whole
  obtain ⟨root, hroot, hbody⟩ := h.init (e.maxEncodedLen / 8) (by omega)
  rw [Encodable.build, hroot, Option.map_some, hbody, if_neg (Nat.not_lt_of_le h.length_le)]

theorem Encodable.Writes.buildAndCopy (h : e.Writes body) {words : Nat}
    (hwords : (e.maxEncodedLen + 7) / 8 ≤ words) :
    e.buildAndCopy words out = some (.ok (body.length, splice out 0 body)) := by
  rw [Encodable.buildAndCopy, if_neg (by omega), h.build]
  rfl

/-- The encoder with growing scratch. -/
theorem Encodable.Writes.encodeAlloc (h : e.Writes body) (scratch : Nat)
    (hout : e.maxEncodedLen ≤ out.length) :
    e.encodeAlloc scratch out = some (.ok (body.length, splice out 0 body)) := by
  rw [Encodable.encodeAlloc, if_neg (Nat.not_lt_of_le hout), h.buildAndCopy (Nat.le_max_right _ _)]

/-- The encoder without scratch. -/
theorem Encodable.Writes.encodeSegmentedRoot (h : e.Writes body)
    (hout : e.maxEncodedLen ≤ out.length) :
    e.encodeSegmentedRoot out = some (.ok (body.length,
      splice (splice out 0 (List.replicate e.maxEncodedLen 0)) 0 body)) := by
  rw [Encodable.encodeSegmentedRoot, if_neg (Nat.not_lt_of_le hout), h.build]
  rfl

/-- The encoder with fixed scratch. -/
theorem Encodable.Writes.encodeInto (h : e.Writes body) {words : Nat} (scratch : Nat)
    (hout : e.maxEncodedLen ≤ out.length) (hwords : capnpScratchWordsForBytes e.maxEncodedLen ≤ words) :
    e.encodeInto words scratch out = some (.ok (body.length, splice out 0 body)) := by
  rw [Encodable.encodeInto, if_neg (Nat.not_lt_of_le hout), if_neg (Nat.not_lt_of_le hwords)]
  exact h.buildAndCopy (Nat.le_max_right _ _)

theorem take_splice_zero (out body : Bytes) : (splice out 0 body).take body.length = body := by
  rw [splice, List.take_zero, List.nil_append, List.take_left]

/-- A payload is the id, then the body. -/
theorem encodeCapnpIntoBuf_eq {id : UInt16} {maxLen : Nat} {encode : Bytes → Encoded} {buf : Bytes}
    {f : Bytes → Bytes} (hbuf : Bus.headerLen + maxLen ≤ buf.length) (hbody : body.length ≤ maxLen)
    (hencode : ∀ out : Bytes, out.length = maxLen →
      encode out = some (.ok (body.length, splice (f out) 0 body))) :
    encodeCapnpIntoBuf id maxLen encode buf = some (.ok (leBytes 2 id.toNat ++ body)) := by
  have hheader : splice buf 0 (leBytes 2 id.toNat) =
      leBytes 2 id.toNat ++ buf.drop Bus.headerLen := by
    rw [splice, List.take_zero, List.nil_append, length_leBytes, Nat.zero_add]
    rfl
  have hdrop : (leBytes 2 id.toNat ++ buf.drop Bus.headerLen).drop Bus.headerLen =
      buf.drop Bus.headerLen := List.drop_left' (length_leBytes 2 _)
  have htake : (leBytes 2 id.toNat ++ buf.drop Bus.headerLen).take Bus.headerLen =
      leBytes 2 id.toNat := List.take_left' (length_leBytes 2 _)
  have hslot : ((buf.drop Bus.headerLen).take maxLen).length = maxLen := by
    rw [List.length_take, List.length_drop]
    omega
  have hlength : (leBytes 2 id.toNat ++ body).length = Bus.headerLen + body.length := by
    rw [List.length_append, length_leBytes]
    rfl
  rw [encodeCapnpIntoBuf]
  simp only
  rw [if_neg (Nat.not_lt_of_le hbuf), hheader, hdrop, hencode _ hslot]
  simp only [Option.map_some, Except.bind, if_neg (Nat.not_lt_of_le hbody)]
  rw [splice, htake, splice, List.take_zero, List.nil_append, List.append_assoc, ← List.append_assoc,
    List.take_left' hlength]

/-- A payload is taken apart again. -/
theorem decodeWire_payload (id : UInt16) (body : Bytes) :
    Bus.decodeWire (leBytes 2 id.toNat ++ body) = .ok ⟨id, body⟩ := by
  have hid : Bus.fromLeBytes (UInt8.ofNat id.toNat) (UInt8.ofNat (id.toNat / 256)) = id := by
    have hlt := id.toNat_lt
    have hhi : id.toNat / 256 < 256 := by omega
    rw [← UInt16.toNat_inj, Bus.fromLeBytes, UInt16.toNat_or, UInt16.toNat_shiftLeft,
      UInt8.toNat_toUInt16, UInt8.toNat_toUInt16, UInt8.toNat_ofNat', UInt8.toNat_ofNat',
      Nat.mod_eq_of_lt hhi, Nat.or_comm]
    have hshift : (id.toNat / 256) <<< ((8 : UInt16).toNat % 16) % 2 ^ 16 = (id.toNat / 256) <<< 8 := by
      rw [Nat.mod_eq_of_lt]
      · rfl
      · rw [Nat.shiftLeft_eq]
        show id.toNat / 256 * 256 < 65536
        omega
    rw [hshift, ← Nat.shiftLeft_add_eq_or_of_lt (Nat.mod_lt _ (by decide)), Nat.shiftLeft_eq]
    omega
  show Except.ok (⟨_, body⟩ : Bus.RawMessage) = _
  rw [hid]

end Writes

/-! ## The four values -/

/-- The data section of a `FileReq`. -/
def fileReqData (transferId totalLen senderMaxChunkSize : UInt32) (algo : FileHashAlgo) : Bytes :=
  leBytes 4 transferId.toNat ++ (leBytes 4 totalLen.toNat ++
    (leBytes 4 senderMaxChunkSize.toNat ++ (leBytes 2 algo.number ++ [0, 0])))

/-- A `FileReq` that has been built. -/
def fileReqBuilder (transferId totalLen : UInt32) (metadata : Bytes) (senderMaxChunkSize : UInt32)
    (algo : FileHashAlgo) (hash : Bytes) (capacity : Nat) : Builder where
  capacity
  data := fileReqData transferId totalLen senderMaxChunkSize algo
  pointers := listPointer 1 metadata.length ++ listPointer (wordsFor metadata.length) hash.length
  blobs := padded metadata ++ padded hash

theorem initFileReq_eq (transferId totalLen : UInt32) (metadata : Bytes) (senderMaxChunkSize : UInt32)
    (algo : FileHashAlgo) (hash : Bytes) {capacity : Nat}
    (h : 5 + wordsFor metadata.length + wordsFor hash.length ≤ capacity) :
    initFileReq transferId totalLen metadata senderMaxChunkSize algo hash capacity =
      some (fileReqBuilder transferId totalLen metadata senderMaxChunkSize algo hash capacity) := by
  have hroot : Builder.initRoot capacity 2 2 =
      some ⟨capacity, List.replicate 16 0, List.replicate 16 0, []⟩ := if_pos (by omega)
  have hmetadata : ∀ data : Bytes, data.length = 16 →
      Builder.setData 0 metadata ⟨capacity, data, List.replicate 16 0, []⟩ =
        some ⟨capacity, data, listPointer 1 metadata.length ++ List.replicate 8 0, padded metadata⟩ := by
    intro data hdata
    refine Builder.setData_eq [] (List.replicate 8 0) 1 0 rfl rfl rfl rfl ?_
    simp only [Builder.words, hdata, List.length_replicate, List.length_nil]
    omega
  have hhash : ∀ data : Bytes, data.length = 16 →
      Builder.setData 1 hash ⟨capacity, data, listPointer 1 metadata.length ++ List.replicate 8 0,
          padded metadata⟩ =
        some ⟨capacity, data,
          listPointer 1 metadata.length ++ listPointer (wordsFor metadata.length) hash.length,
          padded metadata ++ padded hash⟩ := by
    intro data hdata
    refine (Builder.setData_eq _ [] 0 _ rfl (length_listPointer _ _) rfl (length_padded _) ?_).trans ?_
    · simp only [Builder.words, hdata, List.length_append, length_listPointer, List.length_replicate,
        length_padded]
      omega
    · rw [List.append_nil, Nat.zero_add]
  rw [initFileReq, hroot]
  simp only [bind, Option.bind, Builder.setField]
  rw [hmetadata _ rfl]
  simp only
  rw [hhash _ rfl]
  rfl

section FileReq

variable (transferId totalLen : UInt32) {metadata : Bytes} (senderMaxChunkSize : UInt32)
  (algo : FileHashAlgo) {hash : Bytes} (capacity : Nat)

/-- What is read of a `FileReq` that has been built. -/
theorem readFileReq_output (hm : metadata.length < 2 ^ 29) (hh : hash.length < 2 ^ 29) :
    readFileReq (fileReqBuilder transferId totalLen metadata senderMaxChunkSize algo hash
        capacity).output =
      .ok ⟨transferId, totalLen, .ok metadata, senderMaxChunkSize, some algo, .ok hash⟩ := by
  set b := fileReqBuilder transferId totalLen metadata senderMaxChunkSize algo hash capacity with hb
  have hd : b.data.length = 8 * 2 := rfl
  have hp : b.pointers.length = 8 * 2 := rfl
  have hwords : wordsFor metadata.length < 2 ^ 29 := by
    rw [wordsFor]
    omega
  have hmetadata : StructReader.blob ⟨b.data, 1 + (2 : Nat), 2⟩ b.output 0 = .ok metadata :=
    blob_output hd hp [] (listPointer (wordsFor metadata.length) hash.length) [] (padded hash) rfl rfl
      rfl rfl (by decide) hm
  have hhash : StructReader.blob ⟨b.data, 1 + (2 : Nat), 2⟩ b.output 1 = .ok hash := by
    refine blob_output hd hp (listPointer 1 metadata.length) [] (padded metadata) [] ?_
      (length_listPointer _ _) ?_ ?_ hwords hh
    · exact (List.append_nil _).symm ▸ rfl
    · rw [List.append_nil]
      rfl
    · rw [length_padded, hp]
      omega
  rw [readFileReq, withRoot, readRoot_output hd hp (by decide) (by decide) (by decide)]
  simp only [Except.map, Except.mapError, readData, hmetadata, hhash]
  have htransfer : StructReader.field ⟨b.data, 1 + (2 : Nat), 2⟩ 4 0 = transferId.toNat :=
    field_eq [] _ rfl transferId.toNat_lt
  have htotal : StructReader.field ⟨b.data, 1 + (2 : Nat), 2⟩ 4 4 = totalLen.toNat :=
    field_eq (leBytes 4 transferId.toNat) _ rfl totalLen.toNat_lt
  have hmax : StructReader.field ⟨b.data, 1 + (2 : Nat), 2⟩ 4 8 = senderMaxChunkSize.toNat :=
    field_eq (leBytes 4 transferId.toNat ++ leBytes 4 totalLen.toNat) _ rfl senderMaxChunkSize.toNat_lt
  have halgo : StructReader.field ⟨b.data, 1 + (2 : Nat), 2⟩ 2 12 = algo.number :=
    field_eq (leBytes 4 transferId.toNat ++ (leBytes 4 totalLen.toNat ++
      leBytes 4 senderMaxChunkSize.toNat)) [0, 0] rfl algo.ofNumber?_number.2
  rw [htransfer, htotal, hmax, halgo, algo.ofNumber?_number.1, UInt32.ofNat_toNat, UInt32.ofNat_toNat,
    UInt32.ofNat_toNat]

theorem length_fileReq :
    (fileReqBuilder transferId totalLen metadata senderMaxChunkSize algo hash capacity).output.length =
      40 + 8 * wordsFor metadata.length + 8 * wordsFor hash.length := by
  have hdata : (fileReqData transferId totalLen senderMaxChunkSize algo).length = 16 := rfl
  rw [Builder.length_output]
  simp only [fileReqBuilder, hdata, List.length_append, length_listPointer, length_padded]
  omega

end FileReq

/-- The body of a bare request. -/
def FileReqValue.body (v : FileReqValue) : Bytes :=
  (fileReqBuilder v.transferId v.totalLen [] 0 .sha256 [] 0).output

/-- The body of an offer. -/
def FileOfferValue.body (v : FileOfferValue) : Bytes :=
  (fileReqBuilder v.transferId v.totalLen v.fileMetadata v.senderMaxChunkSize v.fileHashAlgo v.fileHash
    0).output

theorem FileReqValue.writes (v : FileReqValue) : v.encodable.Writes v.body := by
  refine ⟨fun capacity hcap ↦ ⟨_, initFileReq_eq _ _ _ _ _ _ ?_, rfl⟩, ?_, (rfl : 40 % 8 = 0)⟩
  · simp only [FileReqValue.encodable, fileReqMaxEncodedLen] at hcap
    simp only [List.length_nil, wordsFor]
    omega
  · rw [FileReqValue.body, length_fileReq]
    exact Nat.le_refl 40

theorem FileOfferValue.writes {v : FileOfferValue} (hm : v.fileMetadata.length < 2 ^ 29)
    (hh : v.fileHash.length < 2 ^ 29) : v.encodable.Writes v.body := by
  have hmax : v.encodable.maxEncodedLen =
      40 + 8 * wordsFor v.fileMetadata.length + 8 * wordsFor v.fileHash.length := by
    simp only [FileOfferValue.encodable, fileOfferMaxEncodedLen, capnpPaddedLen_eq hm,
      capnpPaddedLen_eq hh]
  refine ⟨fun capacity hcap ↦ ⟨_, initFileReq_eq _ _ _ _ _ _ ?_, rfl⟩, ?_, ?_⟩
  · rw [hmax] at hcap
    omega
  · rw [FileOfferValue.body, length_fileReq, hmax]
  · rw [hmax]
    omega

/-- A `FileChunk` that has been built. -/
def FileChunkValue.builder (v : FileChunkValue) (capacity : Nat) : Builder where
  capacity
  data := leBytes 4 v.transferId.toNat ++ leBytes 4 v.offset.toNat
  pointers := listPointer 0 v.data.length
  blobs := padded v.data

/-- The body of a chunk. -/
def FileChunkValue.body (v : FileChunkValue) : Bytes := (v.builder 0).output

theorem FileChunkValue.init_eq (v : FileChunkValue) {capacity : Nat}
    (h : 3 + wordsFor v.data.length ≤ capacity) :
    v.encodable.init capacity = some (v.builder capacity) := by
  have hroot : Builder.initRoot capacity 1 1 =
      some ⟨capacity, List.replicate 8 0, List.replicate 8 0, []⟩ := if_pos (by omega)
  have hdata : ∀ data : Bytes, data.length = 8 →
      Builder.setData 0 v.data ⟨capacity, data, List.replicate 8 0, []⟩ =
        some ⟨capacity, data, listPointer 0 v.data.length, padded v.data⟩ := by
    intro data hdata
    refine Builder.setData_eq [] [] 0 0 rfl rfl rfl rfl ?_
    simp only [Builder.words, hdata, List.length_replicate, List.length_nil]
    omega
  simp only [FileChunkValue.encodable, hroot, bind, Option.bind, Builder.setField]
  rw [hdata _ rfl]
  rfl

theorem FileChunkValue.length_body (v : FileChunkValue) :
    v.body.length = 24 + 8 * wordsFor v.data.length := by
  have hdata : (v.builder 0).data.length = 8 := rfl
  rw [FileChunkValue.body, Builder.length_output, hdata]
  simp only [FileChunkValue.builder, length_listPointer, length_padded]
  omega

theorem FileChunkValue.writes {v : FileChunkValue} (h : v.data.length < 2 ^ 29) :
    v.encodable.Writes v.body := by
  have hmax : v.encodable.maxEncodedLen = 32 + 8 * wordsFor v.data.length := by
    simp only [FileChunkValue.encodable, fileChunkMaxEncodedLen, capnpPaddedLen_eq h]
  refine ⟨fun capacity hcap ↦ ⟨_, v.init_eq ?_, rfl⟩, ?_, ?_⟩
  · rw [hmax] at hcap
    omega
  · rw [v.length_body, hmax]
    omega
  · rw [hmax]
    omega

/-- What is read of a chunk that has been encoded. -/
theorem readFileChunk_body {v : FileChunkValue} (h : v.data.length < 2 ^ 29) :
    readFileChunk v.body = .ok v.root := by
  rw [FileChunkValue.body]
  set b := v.builder 0 with hb
  have hd : b.data.length = 8 * 1 := rfl
  have hp : b.pointers.length = 8 * 1 := rfl
  have hdata : StructReader.blob ⟨b.data, 1 + (1 : Nat), 1⟩ b.output 0 = .ok v.data := by
    have hpointers : b.pointers = [] ++ (listPointer 0 v.data.length ++ []) :=
      (List.append_nil _).symm
    have hblobs : b.blobs = [] ++ (padded v.data ++ []) := (List.append_nil _).symm
    exact blob_output hd hp [] [] [] [] hpointers rfl hblobs rfl (by decide) h
  have htransfer : StructReader.field ⟨b.data, 1 + (1 : Nat), 1⟩ 4 0 = v.transferId.toNat :=
    field_eq [] _ rfl v.transferId.toNat_lt
  have hoffset : StructReader.field ⟨b.data, 1 + (1 : Nat), 1⟩ 4 4 = v.offset.toNat :=
    field_eq (leBytes 4 v.transferId.toNat) [] rfl v.offset.toNat_lt
  rw [readFileChunk, withRoot, readRoot_output hd hp (by decide) (by decide) (by decide)]
  simp only [Except.map, Except.mapError, readData, hdata]
  rw [htransfer, hoffset, UInt32.ofNat_toNat, UInt32.ofNat_toNat]
  rfl

/-- A `FileAck` that has been built. -/
def FileAckValue.builder (v : FileAckValue) (capacity : Nat) : Builder where
  capacity
  data := leBytes 4 v.transferId.toNat ++ (leBytes 2 v.kind.number ++ (leBytes 2 v.error.number ++
    (leBytes 4 v.nextOffset.toNat ++ leBytes 4 v.chunkSize.toNat)))
  pointers := []
  blobs := []

/-- The body of an acknowledgement. -/
def FileAckValue.body (v : FileAckValue) : Bytes := (v.builder 0).output

theorem FileAckValue.writes (v : FileAckValue) : v.encodable.Writes v.body := by
  refine ⟨fun capacity hcap ↦ ⟨v.builder capacity, ?_, rfl⟩, Nat.le_refl 24, (rfl : 24 % 8 = 0)⟩
  have hroot : Builder.initRoot capacity 2 0 = some ⟨capacity, List.replicate 16 0, [], []⟩ := by
    simp only [FileAckValue.encodable, fileAckMaxEncodedLen] at hcap
    exact if_pos (by omega)
  simp only [FileAckValue.encodable, hroot, bind, Option.bind]
  rfl

/-- What is read of an acknowledgement that has been encoded. -/
theorem readFileAck_body (v : FileAckValue) : readFileAck v.body = .ok v.root := by
  rw [FileAckValue.body]
  set b := v.builder 0 with hb
  have hd : b.data.length = 8 * 2 := rfl
  have hp : b.pointers.length = 8 * 0 := rfl
  have htransfer : StructReader.field ⟨b.data, 1 + (2 : Nat), 0⟩ 4 0 = v.transferId.toNat :=
    field_eq [] _ rfl v.transferId.toNat_lt
  have hkind : StructReader.field ⟨b.data, 1 + (2 : Nat), 0⟩ 2 4 = v.kind.number :=
    field_eq (leBytes 4 v.transferId.toNat) _ rfl v.kind.ofNumber?_number.2
  have herror : StructReader.field ⟨b.data, 1 + (2 : Nat), 0⟩ 2 6 = v.error.number :=
    field_eq (leBytes 4 v.transferId.toNat ++ leBytes 2 v.kind.number) _ rfl
      v.error.ofNumber?_number.2
  have hnext : StructReader.field ⟨b.data, 1 + (2 : Nat), 0⟩ 4 8 = v.nextOffset.toNat :=
    field_eq (leBytes 4 v.transferId.toNat ++ (leBytes 2 v.kind.number ++ leBytes 2 v.error.number)) _
      rfl v.nextOffset.toNat_lt
  have hchunk : StructReader.field ⟨b.data, 1 + (2 : Nat), 0⟩ 4 12 = v.chunkSize.toNat :=
    field_eq (leBytes 4 v.transferId.toNat ++ (leBytes 2 v.kind.number ++ (leBytes 2 v.error.number ++
      leBytes 4 v.nextOffset.toNat))) [] rfl v.chunkSize.toNat_lt
  rw [readFileAck, withRoot, readRoot_output hd hp (by decide) (by decide) (by decide)]
  simp only [Except.map, Except.mapError]
  rw [htransfer, hkind, herror, hnext, hchunk, v.kind.ofNumber?_number.1, v.error.ofNumber?_number.1,
    UInt32.ofNat_toNat, UInt32.ofNat_toNat, UInt32.ofNat_toNat]
  rfl

/-! ## The round trip -/

/-- An encoder has reported the length of `body` and left `body` at the beginning of its
output. -/
def Encodes (r : Encoded) (body : Bytes) : Prop :=
  ∃ out, r = some (.ok (body.length, out)) ∧ out.take body.length = body

/-- What the codec guarantees of a value with the encoding `body`, of `len` bytes;
`into` is its `encode_*_into` function, where there is one. -/
structure RoundTrip (e : Encodable) (into : Option (Nat → Nat → Bytes → Encoded)) (body : Bytes)
    (len : Nat) : Prop where
  length : body.length = len
  length_le : len ≤ e.maxEncodedLen
  /-- A payload is refused exactly when the buffer is too small, -/
  tooSmall : ∀ id buf encode, encode = e.encodeSegmentedRoot ∨ (∃ scratch, encode = e.encodeAlloc scratch) →
    (encodeCapnpIntoBuf id e.maxEncodedLen encode buf =
        some (.error (.bufferTooSmall (2 + e.maxEncodedLen) buf.length)) ↔
      buf.length < 2 + e.maxEncodedLen)
  /-- and otherwise it is the id and the body, -/
  payload : ∀ id buf encode, encode = e.encodeSegmentedRoot ∨ (∃ scratch, encode = e.encodeAlloc scratch) →
    2 + e.maxEncodedLen ≤ buf.length → ∃ payload,
      encodeCapnpIntoBuf id e.maxEncodedLen encode buf = some (.ok payload) ∧
        Bus.decodeWire payload = .ok ⟨id, body⟩
  /-- whichever encoder is used. -/
  agree : ∀ out scratch, e.maxEncodedLen ≤ out.length →
    Encodes (e.encodeAlloc scratch out) body ∧ Encodes (e.encodeSegmentedRoot out) body ∧
      ∀ f ∈ into, ∀ words, capnpScratchWordsForBytes e.maxEncodedLen ≤ words →
        Encodes (f words scratch out) body

theorem Encodable.Writes.roundTrip {e : Encodable} {body : Bytes} {len : Nat}
    {into : Option (Nat → Nat → Bytes → Encoded)} (h : e.Writes body) (hlen : body.length = len)
    (hinto : ∀ f ∈ into, f = e.encodeInto) : RoundTrip e into body len := by
  have hpayload : ∀ id buf encode,
      encode = e.encodeSegmentedRoot ∨ (∃ scratch, encode = e.encodeAlloc scratch) →
      2 + e.maxEncodedLen ≤ buf.length →
      encodeCapnpIntoBuf id e.maxEncodedLen encode buf = some (.ok (leBytes 2 id.toNat ++ body)) := by
    rintro id buf encode (rfl | ⟨scratch, rfl⟩) hbuf
    · exact encodeCapnpIntoBuf_eq hbuf h.length_le fun out hout ↦ h.encodeSegmentedRoot hout.ge
    · exact encodeCapnpIntoBuf_eq (f := fun out ↦ out) hbuf h.length_le fun out hout ↦
        h.encodeAlloc scratch hout.ge
  constructor
  case length => exact hlen
  case length_le => exact hlen ▸ h.length_le
  case tooSmall =>
    intro id buf encode hencode
    constructor
    · intro herr
      by_contra hbuf
      rw [hpayload id buf encode hencode (Nat.le_of_not_lt hbuf)] at herr
      cases herr
    · exact fun hbuf ↦ if_pos hbuf
  case payload =>
    intro id buf encode hencode hbuf
    exact ⟨_, hpayload id buf encode hencode hbuf, decodeWire_payload id body⟩
  case agree =>
    intro out scratch hout
    refine ⟨⟨_, h.encodeAlloc scratch hout, take_splice_zero _ _⟩,
      ⟨_, h.encodeSegmentedRoot hout, take_splice_zero _ _⟩, ?_⟩
    intro f hf words hwords
    rw [hinto f hf]
    exact ⟨_, h.encodeInto scratch hout hwords, take_splice_zero _ _⟩

/-- **The codec of the file-transfer messages.**  Every value has one encoding, of the
length the layout gives, which is within `max_encoded_len`: no encoder panics, all
produce it, and what it is decoded to is the value. -/
theorem codec_roundTrip :
    (∀ v : FileReqValue, ∃ body, RoundTrip v.encodable none body 40 ∧
      readFileReq body = .ok v.root) ∧
    (∀ v : FileOfferValue, v.fileMetadata.length < 2 ^ 29 → v.fileHash.length < 2 ^ 29 →
      ∃ body, RoundTrip v.encodable (some fun words scratch ↦ encodeFileOfferInto words scratch v) body
          (40 + capnpPaddedLen v.fileMetadata.length + capnpPaddedLen v.fileHash.length) ∧
        readFileReq body = .ok v.root) ∧
    (∀ v : FileChunkValue, v.data.length < 2 ^ 29 →
      ∃ body, RoundTrip v.encodable (some fun words scratch ↦ encodeFileChunkInto words scratch v) body
          (24 + capnpPaddedLen v.data.length) ∧
        readFileChunk body = .ok v.root) ∧
    ∀ v : FileAckValue,
      ∃ body, RoundTrip v.encodable (some fun words scratch ↦ encodeFileAckInto words scratch v) body 24 ∧
        readFileAck body = .ok v.root ∧ decodeFileAck (readFileAck body) = .ok v.decoded := by
  refine ⟨?_, ?_, ?_, ?_⟩
  · intro v
    refine ⟨v.body, v.writes.roundTrip ?_ nofun, ?_⟩
    · rw [FileReqValue.body, length_fileReq]
      rfl
    · exact readFileReq_output _ _ _ _ _ (by decide) (by decide)
  · intro v hm hh
    refine ⟨v.body, (FileOfferValue.writes hm hh).roundTrip ?_ ?_, ?_⟩
    · rw [FileOfferValue.body, length_fileReq, capnpPaddedLen_eq hm, capnpPaddedLen_eq hh]
    · exact fun f hf ↦ (Option.some.inj hf).symm
    · exact readFileReq_output _ _ _ _ _ hm hh
  · intro v h
    refine ⟨v.body, (FileChunkValue.writes h).roundTrip ?_ ?_, readFileChunk_body h⟩
    · rw [v.length_body, capnpPaddedLen_eq h]
    · exact fun f hf ↦ (Option.some.inj hf).symm
  · intro v
    refine ⟨v.body, v.writes.roundTrip rfl ?_, readFileAck_body v, ?_⟩
    · exact fun f hf ↦ (Option.some.inj hf).symm
    · rw [readFileAck_body, decodeFileAck_root]

/-- A chunk with three bytes, in a buffer that is one byte too small and in one that is
not. -/
example :
    encodeCapnpIntoBuf 0x1002 40 ((FileChunkValue.mk 7 9 abc).encodable.encodeAlloc 0)
        (List.replicate 41 0xFF) = some (.error (.bufferTooSmall 42 41)) ∧
      encodeCapnpIntoBuf 0x1002 40 ((FileChunkValue.mk 7 9 abc).encodable.encodeAlloc 0)
        (List.replicate 42 0xFF) = some (.ok [0x02, 0x10, 0, 0, 0, 0, 1, 0, 1, 0, 7, 0, 0, 0, 9, 0, 0, 0,
          1, 0, 0, 0, 26, 0, 0, 0, 0x61, 0x62, 0x63, 0, 0, 0, 0, 0]) := by decide

theorem codec_roundTrip_abc :
    (∃ body, RoundTrip (FileChunkValue.mk 7 9 abc).encodable
        (some fun words scratch ↦ encodeFileChunkInto words scratch ⟨7, 9, abc⟩) body
        (24 + capnpPaddedLen abc.length) ∧ readFileChunk body = .ok (FileChunkValue.mk 7 9 abc).root) ∧
      ∃ body, RoundTrip (FileOfferValue.mk 7 3 [0x2A] 64 .sha256 abcDigest.1).encodable
          (some fun words scratch ↦
            encodeFileOfferInto words scratch ⟨7, 3, [0x2A], 64, .sha256, abcDigest.1⟩) body
          (40 + capnpPaddedLen 1 + capnpPaddedLen 32) ∧
        readFileReq body = .ok (FileOfferValue.mk 7 3 [0x2A] 64 .sha256 abcDigest.1).root :=
  ⟨codec_roundTrip.2.2.1 ⟨7, 9, abc⟩ (by decide),
    codec_roundTrip.2.1 ⟨7, 3, [0x2A], 64, .sha256, abcDigest.1⟩ (by decide) (by decide)⟩

end Thincan.FileTransfer
