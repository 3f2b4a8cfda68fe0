import Thincan.Bus.Wire
import Thincan.Process.Framing

/-!
# The wire format of the Unix-socket bus

`embedded-can-unix-socket/src/frame.rs` and `wire.rs`.  Identifiers and filters are those of
the crates `embedded-can` and `embedded-can-interface`: an identifier has 11 bits or 29,
and carries the proof of it; a mask is any word of its width.

A frame is an identifier, its data, and the remote flag.  `UnixFrame` has an array of 64
bytes and a length; every constructor fills the rest with zeros, so the data here are the
first `dlc` bytes.
-/

namespace Thincan.UnixSocket

open Process

/-! ## Identifiers, filters and frames -/

/-- `StandardId`. -/
structure StandardId where
  raw : UInt16
  le : raw.toNat ≤ 0x7FF
deriving DecidableEq, Repr

/-- `ExtendedId`. -/
structure ExtendedId where
  raw : UInt32
  le : raw.toNat ≤ 0x1FFFFFFF
deriving DecidableEq, Repr

/-- `StandardId::new`. -/
def StandardId.new (raw : UInt16) : Option StandardId :=
  if h : raw.toNat ≤ 0x7FF then some ⟨raw, h⟩ else none

/-- `ExtendedId::new`. -/
def ExtendedId.new (raw : UInt32) : Option ExtendedId :=
  if h : raw.toNat ≤ 0x1FFFFFFF then some ⟨raw, h⟩ else none

/-- `Id`. -/
inductive Id where
  | standard (id : StandardId)
  | extended (id : ExtendedId)
deriving DecidableEq, Repr

/-- `IdMask`. -/
inductive IdMask where
  | standard (mask : UInt16)
  | extended (mask : UInt32)
deriving DecidableEq, Repr

/-- `IdMaskFilter`. -/
structure IdMaskFilter where
  id : Id
  mask : IdMask
deriving DecidableEq, Repr

/-- `MAX_DLC`, which is also `MAX_DATA_LEN`. -/
def maxDataLen : Nat := 64

/-- `UnixFrame`. -/
structure UnixFrame where
  id : Id
  data : Bytes
  remote : Bool
  fits : data.length ≤ maxDataLen
deriving DecidableEq, Repr

/-- `dlc_u8`. -/
def UnixFrame.dlcU8 (f : UnixFrame) : UInt8 := UInt8.ofNat f.data.length

/-! ## Messages -/

def msgSendFrame : UInt8 := 1
def msgFrame : UInt8 := 2
def msgAck : UInt8 := 3
def msgSetFilters : UInt8 := 4
def msgHello : UInt8 := 5
def msgFiltersAck : UInt8 := 6

def ackOk : UInt8 := 0
def ackNoAck : UInt8 := 1
def ackBadFrame : UInt8 := 2
def ackServerErr : UInt8 := 3

def flagRemote : UInt8 := 1
def flagExtended : UInt8 := 2
def flagExpectAck : UInt8 := 4

/-- `MAX_PAYLOAD_LEN`. -/
def maxPayloadLen : Nat := 4096

def sendFrameHdrLen : Nat := 14
def frameHdrLen : Nat := 6
def ackLen : Nat := 9

/-- `write_msg`: the bytes that are written.  The length field holds every length up to
`u32::MAX`. -/
def writeMsg (msgType : UInt8) (payload : Bytes) : Except String Bytes :=
  if payload.length > 0xFFFFFFFF then .error "payload too large"
  else .ok (Framing.frame msgType payload)

/-- `read_msg_into` on the bytes that have arrived: it waits while the message is
incomplete. -/
abbrev readMsg : Bytes → Framing.Next := Framing.next maxPayloadLen

/-! ## Frames -/

/-- `frame_flags`. -/
def frameFlags (f : UnixFrame) (expectAck : Bool) : UInt8 :=
  (if f.remote then flagRemote else 0) |||
    (match f.id with | .extended _ => flagExtended | .standard _ => 0) |||
    (if expectAck then flagExpectAck else 0)

/-- `frame_id_raw`. -/
def frameIdRaw : Id → UInt32
  | .standard id => id.raw.toUInt32
  | .extended id => id.raw

/-- The identifier of the low bits of a word, of the width a flag announces. -/
def decodeId (flags : UInt8) (idRaw : UInt32) : Except String Id :=
  if flags &&& flagExtended ≠ 0 then
    match ExtendedId.new idRaw with
    | some id => .ok (.extended id)
    | none => .error "invalid extended id"
  else
    match StandardId.new idRaw.toUInt16 with
    | some id => .ok (.standard id)
    | none => .error "invalid standard id"

/-- `decode_frame_from_parts`; the last error is that of `UnixFrame::from_parts`. -/
def decodeFrameFromParts (flags : UInt8) (idRaw : UInt32) (data : Bytes) : Except String UnixFrame :=
  match decodeId flags idRaw with
  | .error e => .error e
  | .ok id =>
      if h : data.length ≤ maxDataLen then .ok ⟨id, data, flags &&& flagRemote ≠ 0, h⟩
      else .error "invalid frame"

/-- Flags, id, length and data of a frame, as both messages with a frame have them. -/
def encodeFields (f : UnixFrame) (expectAck : Bool) : Bytes :=
  frameFlags f expectAck :: (leBytes 4 (frameIdRaw f.id).toNat ++ f.dlcU8 :: f.data)

/-- The fields read back, with the flags; `short` is the error for a wrong length. -/
def decodeFields (short : String) : Bytes → Except String (UInt8 × UnixFrame)
  | flags :: b₀ :: b₁ :: b₂ :: b₃ :: dlc :: data =>
      if dlc.toNat > maxDataLen then .error "invalid dlc"
      else if data.length ≠ dlc.toNat then .error short
      else
        match decodeFrameFromParts flags (UInt32.ofNat (leNat [b₀, b₁, b₂, b₃])) data with
        | .ok f => .ok (flags, f)
        | .error e => .error e
  | _ => .error short

/-- `SendFrame`. -/
structure SendFrame where
  seq : UInt64
  expectAck : Bool
  frame : UnixFrame
deriving DecidableEq, Repr

/-- `encode_send_frame_into`: the bytes up to the length it returns. -/
def encodeSendFrameInto (m : SendFrame) : Bytes :=
  leBytes 8 m.seq.toNat ++ encodeFields m.frame m.expectAck

/-- `decode_send_frame`. -/
def decodeSendFrame (payload : Bytes) : Except String SendFrame :=
  if payload.length < sendFrameHdrLen then .error "invalid send frame payload length"
  else
    match decodeFields "invalid send frame payload length" (payload.drop 8) with
    | .error e => .error e
    | .ok (flags, f) =>
        .ok ⟨UInt64.ofNat (leNat (payload.take 8)), flags &&& flagExpectAck ≠ 0, f⟩

/-- `encode_frame_into`: the bytes up to the length it returns. -/
def encodeFrameInto (f : UnixFrame) : Bytes := encodeFields f false

/-- `decode_frame`. -/
def decodeFrame (payload : Bytes) : Except String UnixFrame :=
  if payload.length < frameHdrLen then .error "invalid frame payload length"
  else
    match decodeFields "invalid frame payload length" payload with
    | .error e => .error e
    | .ok (_, f) => .ok f

/-- `encode_ack_into`. -/
def encodeAckInto (seq : UInt64) (status : UInt8) : Bytes := leBytes 8 seq.toNat ++ [status]

/-- `decode_ack`. -/
def decodeAck (payload : Bytes) : Except String (UInt64 × UInt8) :=
  if payload.length ≠ ackLen then .error "invalid ack payload length"
  else .ok (UInt64.ofNat (leNat (payload.take 8)), payload.getD 8 0)

/-! ## Filters -/

/-- Flags, id and mask of a filter.  A mask of the other width is written as zero. -/
def filterFields (f : IdMaskFilter) : UInt8 × UInt32 × UInt32 :=
  match f.id with
  | .standard id =>
      match f.mask with
      | .standard mask => (0, id.raw.toUInt32, mask.toUInt32)
      | .extended _ => (0, id.raw.toUInt32, 0)
  | .extended id =>
      match f.mask with
      | .extended mask => (flagExtended, id.raw, mask)
      | .standard _ => (flagExtended, id.raw, 0)

/-- One entry of a filters message. -/
def encodeFilter (f : IdMaskFilter) : Bytes :=
  let (flags, idRaw, maskRaw) := filterFields f
  flags :: (leBytes 4 idRaw.toNat ++ leBytes 4 maskRaw.toNat)

/-- `encode_filters`. -/
def encodeFilters (seq : UInt64) (filters : List IdMaskFilter) : Bytes :=
  leBytes 8 seq.toNat ++ (leBytes 2 (UInt16.ofNat filters.length).toNat ++
    filters.flatMap encodeFilter)

/-- One entry read back. -/
def decodeFilter (flags : UInt8) (idRaw maskRaw : UInt32) : Except String IdMaskFilter :=
  match decodeId flags idRaw with
  | .error e => .error e
  | .ok (.extended id) => .ok ⟨.extended id, .extended maskRaw⟩
  | .ok (.standard id) => .ok ⟨.standard id, .standard maskRaw.toUInt16⟩

/-- The loop over the entries.  `none` is an index out of range. -/
def decodeEntries : (count : Nat) → Bytes → Option (Except String (List IdMaskFilter))
  | 0, _ => some (.ok [])
  | count + 1, flags :: i₀ :: i₁ :: i₂ :: i₃ :: m₀ :: m₁ :: m₂ :: m₃ :: rest =>
      match decodeFilter flags (UInt32.ofNat (leNat [i₀, i₁, i₂, i₃]))
          (UInt32.ofNat (leNat [m₀, m₁, m₂, m₃])) with
      | .error e => some (.error e)
      | .ok f => (decodeEntries count rest).map (Except.map (f :: ·))
  | _ + 1, _ => none

/-- `decode_filters`.  `none` is an index out of range. -/
def decodeFilters (payload : Bytes) : Option (Except String (UInt64 × List IdMaskFilter)) :=
  if payload.length < 10 then some (.error "invalid filters payload length")
  else
    let seq := UInt64.ofNat (leNat (payload.take 8))
    let count := leNat ((payload.drop 8).take 2)
    if payload.length ≠ 10 + count * 9 then some (.error "invalid filters payload length")
    else (decodeEntries count (payload.drop 10)).map (Except.map (seq, ·))

end Thincan.UnixSocket
