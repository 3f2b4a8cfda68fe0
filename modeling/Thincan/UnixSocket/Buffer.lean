import Thincan.Process.Slice
import Thincan.UnixSocket.RoundTrip

/-!
# The codecs on their arrays

`wire.rs` and `frame.rs` once more, this time with the arrays and the indices the code has:
a frame is an array of 64 bytes and a length, an encoder fills a caller's array and returns
how much of it is the message, a decoder reads its payload by offsets.  `none` is a panic.

The lists of `Thincan.UnixSocket.Wire` are what these compute.  A frame in an array is a
frame of a list with zeros behind it (`UnixFrame.padded`); that is how `new`, `new_remote`
and the decoders build it.
-/

namespace Thincan.UnixSocket.Buffer

open Process

/-! ## The code -/

/-- `UnixFrame`. -/
structure UnixFrame where
  id : Id
  data : Vector UInt8 maxDataLen
  dlc : UInt8
  remote : Bool
  le : dlc.toNat ≤ maxDataLen
deriving DecidableEq, Repr

/-- `[0u8; MAX_DLC]`. -/
def zeros : Vector UInt8 maxDataLen := Vector.replicate maxDataLen 0

theorem toNat_ofNat_le {n : Nat} (h : ¬ n > maxDataLen) :
    (UInt8.ofNat n).toNat ≤ maxDataLen := by
  rw [UInt8.toNat_ofNat']
  exact Nat.le_trans (Nat.mod_le ..) (Nat.not_lt.mp h)

namespace UnixFrame

/-- `UnixFrame::new`. -/
def new (id : Id) (data : Bytes) : Option (Option UnixFrame) :=
  if h : data.length > maxDataLen then some none
  else do
    let buf ← overwrite zeros 0 data.length data
    return some ⟨id, buf, UInt8.ofNat data.length, false, toNat_ofNat_le h⟩

/-- `UnixFrame::new_remote`. -/
def newRemote (id : Id) (dlc : Nat) : Option UnixFrame :=
  if h : dlc > maxDataLen then none
  else some ⟨id, zeros, UInt8.ofNat dlc, true, toNat_ofNat_le h⟩

/-- `UnixFrame::from_parts`. -/
def fromParts (id : Id) (dlc : UInt8) (data : Vector UInt8 maxDataLen) (remote : Bool) :
    Option UnixFrame :=
  if h : dlc.toNat > maxDataLen then none else some ⟨id, data, dlc, remote, Nat.not_lt.mp h⟩

/-- The frame without what is behind its data. -/
def view (f : UnixFrame) : UnixSocket.UnixFrame where
  id := f.id
  data := f.data.toList.take f.dlc.toNat
  remote := f.remote
  fits := Nat.le_trans (List.length_take_le ..) f.le

end UnixFrame

/-- `SendFrame`. -/
structure SendFrame where
  seq : UInt64
  expectAck : Bool
  frame : UnixFrame
deriving DecidableEq, Repr

/-- `encode_send_frame_into`. -/
def encodeSendFrameInto (out : Vector UInt8 (sendFrameHdrLen + maxDataLen)) (m : SendFrame) :
    Option (Vector UInt8 (sendFrameHdrLen + maxDataLen) × Nat) := do
  let out ← overwrite out 0 8 (leBytes 8 m.seq.toNat)
  let out ← put out 8 (frameFlags m.frame.view m.expectAck)
  let out ← overwrite out 9 13 (leBytes 4 (frameIdRaw m.frame.id).toNat)
  let out ← put out 13 m.frame.dlc
  let dlc := m.frame.dlc.toNat
  let data ← slice m.frame.data.toList 0 dlc
  let out ← overwrite out 14 (14 + dlc) data
  return (out, sendFrameHdrLen + dlc)

/-- `decode_frame_from_parts`. -/
def decodeFrameFromParts (flags : UInt8) (idRaw : UInt32) (dlc : UInt8)
    (data : Vector UInt8 maxDataLen) : Except String UnixFrame :=
  match decodeId flags idRaw with
  | .error e => .error e
  | .ok id =>
      match UnixFrame.fromParts id dlc data (flags &&& flagRemote ≠ 0) with
      | some f => .ok f
      | none => .error "invalid frame"

/-- `decode_send_frame`. -/
def decodeSendFrame (payload : Bytes) : Option (Except String SendFrame) :=
  if payload.length < sendFrameHdrLen then some (.error "invalid send frame payload length")
  else do
    let seq ← (slice payload 0 8).bind (fromLeBytes 8)
    let flags ← payload[8]?
    let idRaw ← (slice payload 9 13).bind (fromLeBytes 4)
    let dlc ← payload[13]?
    if dlc.toNat > maxDataLen then return .error "invalid dlc"
    else if payload.length ≠ sendFrameHdrLen + dlc.toNat then
      return .error "invalid send frame payload length"
    else
      let src ← slice payload 14 (14 + dlc.toNat)
      let data ← overwrite zeros 0 dlc.toNat src
      return (decodeFrameFromParts flags (UInt32.ofNat idRaw) dlc data).map fun f ↦
        ⟨UInt64.ofNat seq, flags &&& flagExpectAck ≠ 0, f⟩

/-- `encode_frame_into`. -/
def encodeFrameInto (out : Vector UInt8 (frameHdrLen + maxDataLen)) (f : UnixFrame) :
    Option (Vector UInt8 (frameHdrLen + maxDataLen) × Nat) := do
  let out ← put out 0 (frameFlags f.view false)
  let out ← overwrite out 1 5 (leBytes 4 (frameIdRaw f.id).toNat)
  let out ← put out 5 f.dlc
  let dlc := f.dlc.toNat
  let data ← slice f.data.toList 0 dlc
  let out ← overwrite out 6 (6 + dlc) data
  return (out, frameHdrLen + dlc)

/-- `decode_frame`. -/
def decodeFrame (payload : Bytes) : Option (Except String UnixFrame) :=
  if payload.length < frameHdrLen then some (.error "invalid frame payload length")
  else do
    let flags ← payload[0]?
    let idRaw ← (slice payload 1 5).bind (fromLeBytes 4)
    let dlc ← payload[5]?
    if dlc.toNat > maxDataLen then return .error "invalid dlc"
    else if payload.length ≠ frameHdrLen + dlc.toNat then
      return .error "invalid frame payload length"
    else
      let src ← slice payload 6 (6 + dlc.toNat)
      let data ← overwrite zeros 0 dlc.toNat src
      return decodeFrameFromParts flags (UInt32.ofNat idRaw) dlc data

/-- `encode_ack_into`. -/
def encodeAckInto (out : Vector UInt8 ackLen) (seq : UInt64) (status : UInt8) :
    Option (Vector UInt8 ackLen) := do
  let out ← overwrite out 0 8 (leBytes 8 seq.toNat)
  put out 8 status

/-- `decode_ack`. -/
def decodeAck (payload : Bytes) : Option (Except String (UInt64 × UInt8)) :=
  if payload.length ≠ ackLen then some (.error "invalid ack payload length")
  else do
    let seq ← (slice payload 0 8).bind (fromLeBytes 8)
    let status ← payload[8]?
    return .ok (UInt64.ofNat seq, status)

/-- The loop of `decode_filters`: `filters` are those of the entries before `offset`. -/
def decodeEntries (payload : Bytes) :
    (count offset : Nat) → List IdMaskFilter → Option (Except String (List IdMaskFilter))
  | 0, _, filters => some (.ok filters)
  | count + 1, offset, filters => do
      let flags ← payload[offset]?
      let idRaw ← (slice payload (offset + 1) (offset + 5)).bind (fromLeBytes 4)
      let maskRaw ← (slice payload (offset + 5) (offset + 9)).bind (fromLeBytes 4)
      match decodeFilter flags (UInt32.ofNat idRaw) (UInt32.ofNat maskRaw) with
      | .error e => return .error e
      | .ok f => decodeEntries payload count (offset + 9) (filters ++ [f])

/-- `decode_filters`. -/
def decodeFilters (payload : Bytes) : Option (Except String (UInt64 × List IdMaskFilter)) :=
  if payload.length < 10 then some (.error "invalid filters payload length")
  else do
    let seq ← (slice payload 0 8).bind (fromLeBytes 8)
    let count ← (slice payload 8 10).bind (fromLeBytes 2)
    if payload.length ≠ 10 + count * 9 then return .error "invalid filters payload length"
    else
      let filters ← decodeEntries payload count 10 []
      return filters.map (UInt64.ofNat seq, ·)

/-! ## Frames with zeros behind the data -/

/-- A frame in its array. -/
def padded (f : UnixSocket.UnixFrame) : UnixFrame where
  id := f.id
  data := ⟨(f.data ++ List.replicate (maxDataLen - f.data.length) 0).toArray, by
    have := f.fits
    simp only [List.size_toArray, List.length_append, List.length_replicate]
    omega⟩
  dlc := f.dlcU8
  remote := f.remote
  le := by
    rw [f.toNat_dlcU8]
    exact f.fits

theorem toList_zeros : zeros.toList = List.replicate maxDataLen 0 := rfl

/-- Copying the data of a frame into a fresh array. -/
theorem overwrite_zeros (f : UnixSocket.UnixFrame) :
    overwrite zeros 0 f.data.length f.data = some (padded f).data := by
  obtain ⟨v, hv, hlist⟩ := overwrite_zero zeros f.fits
  rw [hv, Option.some_inj, ← Vector.toList_inj, hlist, toList_zeros, List.drop_replicate]
  rfl

/-- The frames the constructors of the trait build. -/
def UnixFrame.Built (f : UnixFrame) : Prop :=
  (∃ id data, UnixFrame.new id data = some (some f)) ∨ ∃ id dlc, UnixFrame.newRemote id dlc = some f

theorem new_eq (id : Id) {data : Bytes} (h : data.length ≤ maxDataLen) :
    UnixFrame.new id data = some (some (padded ⟨id, data, false, h⟩)) := by
  rw [UnixFrame.new, dif_neg (Nat.not_lt.mpr h), overwrite_zeros ⟨id, data, false, h⟩]
  rfl

theorem newRemote_eq (id : Id) {dlc : Nat} (h : dlc ≤ maxDataLen) :
    UnixFrame.newRemote id dlc =
      some (padded ⟨id, List.replicate dlc 0, true, by rw [List.length_replicate]; exact h⟩) := by
  have hdata : List.replicate maxDataLen (0 : UInt8) =
      List.replicate dlc 0 ++ List.replicate (maxDataLen - dlc) 0 := by
    rw [List.replicate_append_replicate, Nat.add_sub_cancel' h]
  rw [UnixFrame.newRemote, dif_neg (Nat.not_lt.mpr h), Option.some_inj, UnixFrame.mk.injEq]
  refine ⟨rfl, ?_, ?_, rfl⟩
  · rw [← Vector.toList_inj, toList_zeros, hdata]
    simp only [padded, List.length_replicate]
    rfl
  · simp only [padded, UnixSocket.UnixFrame.dlcU8, List.length_replicate]

/-- The constructors leave zeros behind the data. -/
theorem UnixFrame.Built.exists_padded {f : UnixFrame} (h : f.Built) : ∃ g, f = padded g := by
  rcases h with ⟨id, data, h⟩ | ⟨id, dlc, h⟩
  · rcases Nat.lt_or_ge maxDataLen data.length with hlen | hlen
    · rw [UnixFrame.new, dif_pos hlen] at h
      exact absurd (Option.some.inj h) nofun
    · rw [new_eq id hlen, Option.some_inj, Option.some_inj] at h
      exact ⟨_, h.symm⟩
  · rcases Nat.lt_or_ge maxDataLen dlc with hlen | hlen
    · rw [UnixFrame.newRemote, dif_pos hlen] at h
      exact absurd h nofun
    · rw [newRemote_eq id hlen, Option.some_inj] at h
      exact ⟨_, h.symm⟩

theorem view_padded (f : UnixSocket.UnixFrame) : (padded f).view = f := by
  have hdata : (f.data ++ List.replicate (maxDataLen - f.data.length) 0).take f.dlcU8.toNat = f.data := by
    rw [f.toNat_dlcU8, List.take_left' rfl]
  obtain ⟨id, data, remote, fits⟩ := f
  rw [UnixFrame.view, UnixSocket.UnixFrame.mk.injEq]
  exact ⟨rfl, hdata, rfl⟩

@[simp] theorem UnixFrame.view_id (f : UnixFrame) : f.view.id = f.id := rfl

theorem UnixFrame.length_view_data (f : UnixFrame) : f.view.data.length = f.dlc.toNat := by
  have hle := f.le
  rw [UnixFrame.view, List.length_take, Vector.length_toList, Nat.min_eq_left hle]

theorem UnixFrame.view_dlcU8 (f : UnixFrame) : f.view.dlcU8 = f.dlc := by
  rw [UnixSocket.UnixFrame.dlcU8, f.length_view_data, UInt8.ofNat_toNat]

/-! ## Encoders fill their arrays with the message -/

/-- The data of a frame are read from its array. -/
theorem UnixFrame.slice_data (f : UnixFrame) :
    slice f.data.toList 0 f.dlc.toNat = some f.view.data := by
  rw [slice_eq (Nat.zero_le _) (by rw [Vector.length_toList]; exact f.le)]
  rfl

theorem take_of_prefix {xs ys : Bytes} {k : Nat} (h : xs <+: ys) (hk : xs.length = k) :
    ys.take k = xs := by
  rw [← hk]
  exact (List.prefix_iff_eq_take.mp h).symm

/-- The fields of a frame, written behind what is in the array already. -/
theorem write_fields {n : Nat} {out : Vector UInt8 n} {xs : Bytes} (k : Nat) (f : UnixFrame)
    (expectAck : Bool) (h : xs <+: out.toList) (hk : xs.length = k)
    (hn : k + (frameHdrLen + maxDataLen) ≤ n) :
    ∃ out₁ out₂ out₃ out₄, put out k (frameFlags f.view expectAck) = some out₁ ∧
      overwrite out₁ (k + 1) (k + 5) (leBytes 4 (frameIdRaw f.id).toNat) = some out₂ ∧
      put out₂ (k + 5) f.dlc = some out₃ ∧
      overwrite out₃ (k + 6) (k + 6 + f.dlc.toNat) f.view.data = some out₄ ∧
      xs ++ encodeFields f.view expectAck <+: out₄.toList := by
  have hdata := f.length_view_data
  have hle := f.le
  have hroom : k + 6 + maxDataLen ≤ n := hn
  obtain ⟨out₁, h₁, hp₁, -⟩ := put_append k (frameFlags f.view expectAck) h hk (by omega)
  obtain ⟨out₂, h₂, hp₂, -⟩ := overwrite_append (k + 1) (k + 5) (leBytes 4 (frameIdRaw f.id).toNat)
    hp₁ (by rw [List.length_append, hk]; rfl) rfl (by omega)
  obtain ⟨out₃, h₃, hp₃, -⟩ := put_append (k + 5) f.dlc hp₂
    (by rw [List.length_append, List.length_append, hk]; rfl) (by omega)
  obtain ⟨out₄, h₄, hp₄, -⟩ := overwrite_append (k + 6) (k + 6 + f.dlc.toNat) f.view.data hp₃
    (by rw [List.length_append, List.length_append, List.length_append, hk]; rfl) (by rw [hdata])
    (by omega)
  refine ⟨out₁, out₂, out₃, out₄, h₁, h₂, h₃, h₄, ?_⟩
  rw [encodeFields, f.view_dlcU8, f.view_id]
  simpa only [List.append_assoc, List.cons_append, List.nil_append] using hp₄

theorem encodeFrameInto_eq (out : Vector UInt8 (frameHdrLen + maxDataLen)) (f : UnixFrame) :
    ∃ out', encodeFrameInto out f = some (out', frameHdrLen + f.dlc.toNat) ∧
      out'.toList.take (frameHdrLen + f.dlc.toNat) = UnixSocket.encodeFrameInto f.view := by
  have hnil : [] <+: out.toList := List.nil_prefix
  obtain ⟨out₁, out₂, out₃, out₄, h₁, h₂, h₃, h₄, hp⟩ := write_fields 0 f false hnil rfl (by decide)
  simp only [Nat.zero_add] at h₂ h₃ h₄
  refine ⟨out₄, ?_, ?_⟩
  · simp only [encodeFrameInto, h₁, h₂, h₃, h₄, f.slice_data, Option.bind_eq_bind, Option.bind_some]
    rfl
  · apply take_of_prefix hp
    rw [List.nil_append, length_encodeFields, f.length_view_data]

theorem encodeSendFrameInto_eq (out : Vector UInt8 (sendFrameHdrLen + maxDataLen)) (m : SendFrame) :
    ∃ out', encodeSendFrameInto out m = some (out', sendFrameHdrLen + m.frame.dlc.toNat) ∧
      out'.toList.take (sendFrameHdrLen + m.frame.dlc.toNat) =
        UnixSocket.encodeSendFrameInto ⟨m.seq, m.expectAck, m.frame.view⟩ := by
  have hnil : [] <+: out.toList := List.nil_prefix
  obtain ⟨out₀, h₀, hp₀, -⟩ := overwrite_append 0 8 (leBytes 8 m.seq.toNat) hnil rfl rfl (by decide)
  obtain ⟨out₁, out₂, out₃, out₄, h₁, h₂, h₃, h₄, hp⟩ :=
    write_fields 8 m.frame m.expectAck hp₀ rfl (by decide)
  have h₁ : put out₀ 8 _ = some out₁ := h₁
  have h₂ : overwrite out₁ 9 13 _ = some out₂ := h₂
  have h₃ : put out₂ 13 _ = some out₃ := h₃
  have h₄ : overwrite out₃ 14 (14 + m.frame.dlc.toNat) _ = some out₄ := h₄
  refine ⟨out₄, ?_, ?_⟩
  · simp only [encodeSendFrameInto, h₀, h₁, h₂, h₃, h₄, m.frame.slice_data, Option.bind_eq_bind,
      Option.bind_some]
    rfl
  · apply take_of_prefix hp
    rw [List.nil_append, List.length_append, length_leBytes, length_encodeFields,
      m.frame.length_view_data, sendFrameHdrLen, frameHdrLen]
    omega

theorem encodeAckInto_eq (out : Vector UInt8 ackLen) (seq : UInt64) (status : UInt8) :
    ∃ out', encodeAckInto out seq status = some out' ∧
      out'.toList = UnixSocket.encodeAckInto seq status := by
  have hnil : [] <+: out.toList := List.nil_prefix
  obtain ⟨out₁, h₁, hp₁, -⟩ := overwrite_append 0 8 (leBytes 8 seq.toNat) hnil rfl rfl (by decide)
  obtain ⟨out₂, h₂, hp₂, -⟩ := put_append 8 status hp₁ rfl (by decide)
  refine ⟨out₂, ?_, ?_⟩
  · simp only [encodeAckInto, h₁, h₂, Option.bind_eq_bind, Option.bind_some]
  · symm
    apply List.IsPrefix.eq_of_length hp₂
    rw [Vector.length_toList]
    rfl

/-! ## Decoders stay inside their payload -/

/-- What the decoders do with the fields of a frame they have read. -/
theorem decodeFrameFromParts_eq (flags : UInt8) (idRaw : UInt32) {dlc : UInt8} {data : Bytes}
    (hle : dlc.toNat ≤ maxDataLen) (hdata : data.length = dlc.toNat) :
    ∃ v, overwrite zeros 0 dlc.toNat data = some v ∧
      decodeFrameFromParts flags idRaw dlc v =
        (UnixSocket.decodeFrameFromParts flags idRaw data).map padded := by
  have hfits : data.length ≤ maxDataLen := hdata ▸ hle
  cases hid : decodeId flags idRaw with
  | error e =>
      obtain ⟨v, hv, -⟩ := overwrite_zero zeros hfits
      refine ⟨v, hdata ▸ hv, ?_⟩
      simp only [UnixSocket.decodeFrameFromParts, decodeFrameFromParts, hid, Except.map]
  | ok id =>
      let g : UnixSocket.UnixFrame := ⟨id, data, flags &&& flagRemote ≠ 0, hfits⟩
      have hdlc : g.dlcU8 = dlc := by
        rw [UnixSocket.UnixFrame.dlcU8, hdata, UInt8.ofNat_toNat]
      have hparts : UnixFrame.fromParts id dlc (padded g).data (flags &&& flagRemote ≠ 0) =
          some (padded g) := by
        simp only [UnixFrame.fromParts, dif_neg (Nat.not_lt.mpr hle), padded, hdlc, g]
      refine ⟨(padded g).data, hdata ▸ overwrite_zeros g, ?_⟩
      simp only [UnixSocket.decodeFrameFromParts, decodeFrameFromParts, hid, hparts, dif_pos hfits,
        Except.map, g]

/-- The part the two decoders of a frame share: the checks of the length byte, then the data
behind the header `pre`. -/
theorem decode_data {α : Type} (short : String) (pre : Bytes) (flags b₀ b₁ b₂ b₃ dlc : UInt8)
    (data : Bytes) (k : UnixFrame → α) :
    (if dlc.toNat > maxDataLen then some (.error "invalid dlc")
      else if (pre ++ data).length ≠ pre.length + dlc.toNat then some (.error short)
      else do
        let src ← slice (pre ++ data) pre.length (pre.length + dlc.toNat)
        let data ← overwrite zeros 0 dlc.toNat src
        return (decodeFrameFromParts flags (UInt32.ofNat (leNat [b₀, b₁, b₂, b₃])) dlc data).map k) =
      some ((decodeFields short (flags :: b₀ :: b₁ :: b₂ :: b₃ :: dlc :: data)).map
        fun r ↦ k (padded r.2)) := by
  have hlen : (pre ++ data).length ≠ pre.length + dlc.toNat ↔ data.length ≠ dlc.toNat := by
    rw [List.length_append]
    omega
  simp only [decodeFields_cons, hlen]
  split
  · rfl
  · split
    · rfl
    · rename_i hle hdata
      have hdata : data.length = dlc.toNat := not_not.mp hdata
      obtain ⟨v, hv, hparts⟩ := decodeFrameFromParts_eq flags
        (UInt32.ofNat (leNat [b₀, b₁, b₂, b₃])) (Nat.not_lt.mp hle) hdata
      have hsrc : slice (pre ++ data) pre.length (pre.length + dlc.toNat) = some data :=
        slice_right pre data rfl (by rw [hdata])
      simp only [hsrc, hv, hparts, Option.bind_eq_bind, Option.bind_some]
      cases UnixSocket.decodeFrameFromParts flags (UInt32.ofNat (leNat [b₀, b₁, b₂, b₃])) data <;> rfl

/-- The header of a frame message, byte by byte, and the data behind it. -/
theorem exists_frame_fields {payload : Bytes} (h : frameHdrLen ≤ payload.length) :
    ∃ flags b₀ b₁ b₂ b₃ dlc data, payload = flags :: b₀ :: b₁ :: b₂ :: b₃ :: dlc :: data := by
  match payload, h with
  | _ :: _ :: _ :: _ :: _ :: _ :: _, _ => exact ⟨_, _, _, _, _, _, _, rfl⟩

/-- A send request has its sequence number before that. -/
theorem exists_sendFrame_fields {payload : Bytes} (h : sendFrameHdrLen ≤ payload.length) :
    ∃ s₀ s₁ s₂ s₃ s₄ s₅ s₆ s₇ flags b₀ b₁ b₂ b₃ dlc data, payload = s₀ :: s₁ :: s₂ :: s₃ :: s₄ ::
      s₅ :: s₆ :: s₇ :: flags :: b₀ :: b₁ :: b₂ :: b₃ :: dlc :: data := by
  match payload, h with
  | _ :: _ :: _ :: _ :: _ :: _ :: _ :: _ :: rest, h =>
    obtain ⟨flags, b₀, b₁, b₂, b₃, dlc, data, rfl⟩ :=
      exists_frame_fields (Nat.le_of_add_le_add_right (b := 8) h)
    exact ⟨_, _, _, _, _, _, _, _, flags, b₀, b₁, b₂, b₃, dlc, data, rfl⟩

theorem exists_ack_fields {payload : Bytes} (h : payload.length = ackLen) :
    ∃ s₀ s₁ s₂ s₃ s₄ s₅ s₆ s₇ status,
      payload = [s₀, s₁, s₂, s₃, s₄, s₅, s₆, s₇, status] := by
  match payload, h with
  | [_, _, _, _, _, _, _, _, _], _ => exact ⟨_, _, _, _, _, _, _, _, _, rfl⟩

theorem decodeFrame_eq (payload : Bytes) :
    decodeFrame payload = some ((UnixSocket.decodeFrame payload).map padded) := by
  rw [decodeFrame, UnixSocket.decodeFrame]
  rcases Nat.lt_or_ge payload.length frameHdrLen with hlen | hlen
  · rw [if_pos hlen, if_pos hlen]
    rfl
  · rw [if_neg (Nat.not_lt.mpr hlen), if_neg (Nat.not_lt.mpr hlen)]
    obtain ⟨flags, b₀, b₁, b₂, b₃, dlc, data, rfl⟩ := exists_frame_fields hlen
    have hid : (slice (flags :: b₀ :: b₁ :: b₂ :: b₃ :: dlc :: data) 1 5).bind (fromLeBytes 4) =
        some (leNat [b₀, b₁, b₂, b₃]) :=
      slice_fromLeBytes [flags] [b₀, b₁, b₂, b₃] (dlc :: data) rfl rfl rfl
    have hmap (x : Except String UnixFrame) : x.map (fun f ↦ f) = x := by cases x <;> rfl
    have hdata := decode_data "invalid frame payload length" [flags, b₀, b₁, b₂, b₃, dlc]
      flags b₀ b₁ b₂ b₃ dlc data (fun f ↦ f)
    simp only [hmap] at hdata
    simp only [List.getElem?_cons_zero, List.getElem?_cons_succ, hid, Option.bind_eq_bind,
      Option.bind_some]
    refine hdata.trans ?_
    cases decodeFields "invalid frame payload length"
      (flags :: b₀ :: b₁ :: b₂ :: b₃ :: dlc :: data) <;> rfl

theorem decodeFields_ok {short : String} {flags b₀ b₁ b₂ b₃ dlc : UInt8} {data : Bytes}
    {r : UInt8 × UnixSocket.UnixFrame}
    (h : decodeFields short (flags :: b₀ :: b₁ :: b₂ :: b₃ :: dlc :: data) = .ok r) :
    r.1 = flags ∧ data.length = dlc.toNat := by
  rw [decodeFields_cons] at h
  split at h
  · exact absurd h nofun
  · split at h
    · exact absurd h nofun
    · rename_i _ hdata
      cases hparts : UnixSocket.decodeFrameFromParts flags
          (UInt32.ofNat (leNat [b₀, b₁, b₂, b₃])) data with
      | error e =>
          rw [hparts] at h
          exact absurd h nofun
      | ok f =>
          rw [hparts] at h
          exact ⟨congrArg Prod.fst (Except.ok.inj h).symm, not_not.mp hdata⟩

/-- A send request in its array. -/
def paddedRequest (m : UnixSocket.SendFrame) : SendFrame := ⟨m.seq, m.expectAck, padded m.frame⟩

theorem decodeSendFrame_eq (payload : Bytes) :
    decodeSendFrame payload = some ((UnixSocket.decodeSendFrame payload).map paddedRequest) := by
  rw [decodeSendFrame, UnixSocket.decodeSendFrame]
  rcases Nat.lt_or_ge payload.length sendFrameHdrLen with hlen | hlen
  · rw [if_pos hlen, if_pos hlen]
    rfl
  · rw [if_neg (Nat.not_lt.mpr hlen), if_neg (Nat.not_lt.mpr hlen)]
    obtain ⟨s₀, s₁, s₂, s₃, s₄, s₅, s₆, s₇, flags, b₀, b₁, b₂, b₃, dlc, data, rfl⟩ :=
      exists_sendFrame_fields hlen
    let seq : Bytes := [s₀, s₁, s₂, s₃, s₄, s₅, s₆, s₇]
    have hseq : (slice (seq ++ flags :: b₀ :: b₁ :: b₂ :: b₃ :: dlc :: data) 0 8).bind
        (fromLeBytes 8) = some (leNat seq) :=
      slice_fromLeBytes [] seq (flags :: b₀ :: b₁ :: b₂ :: b₃ :: dlc :: data) rfl rfl rfl
    have hid : (slice (seq ++ flags :: b₀ :: b₁ :: b₂ :: b₃ :: dlc :: data) 9 13).bind
        (fromLeBytes 4) = some (leNat [b₀, b₁, b₂, b₃]) :=
      slice_fromLeBytes (seq ++ [flags]) [b₀, b₁, b₂, b₃] (dlc :: data) rfl rfl rfl
    have hdata := decode_data "invalid send frame payload length"
      (seq ++ [flags, b₀, b₁, b₂, b₃, dlc]) flags b₀ b₁ b₂ b₃ dlc data fun f ↦
        SendFrame.mk (UInt64.ofNat (leNat seq)) (flags &&& flagExpectAck ≠ 0) f
    simp only [seq, List.cons_append, List.nil_append] at hseq hid
    simp only [List.getElem?_cons_zero, List.getElem?_cons_succ, hseq, hid, Option.bind_eq_bind,
      Option.bind_some]
    refine hdata.trans ?_
    simp only [List.drop_succ_cons, List.drop_zero, List.take_succ_cons, List.take_zero]
    cases hfields : decodeFields "invalid send frame payload length"
        (flags :: b₀ :: b₁ :: b₂ :: b₃ :: dlc :: data) with
    | error e => rfl
    | ok r =>
        obtain ⟨flags', f⟩ := r
        obtain rfl : flags' = flags := (decodeFields_ok hfields).1
        rfl

theorem decodeAck_eq (payload : Bytes) :
    decodeAck payload = some (UnixSocket.decodeAck payload) := by
  rw [decodeAck, UnixSocket.decodeAck]
  rcases Decidable.em (payload.length = ackLen) with hlen | hlen
  · rw [if_neg (not_not.mpr hlen), if_neg (not_not.mpr hlen)]
    obtain ⟨s₀, s₁, s₂, s₃, s₄, s₅, s₆, s₇, status, rfl⟩ := exists_ack_fields hlen
    have hseq : (slice [s₀, s₁, s₂, s₃, s₄, s₅, s₆, s₇, status] 0 8).bind (fromLeBytes 8) =
        some (leNat [s₀, s₁, s₂, s₃, s₄, s₅, s₆, s₇]) :=
      slice_fromLeBytes [] [s₀, s₁, s₂, s₃, s₄, s₅, s₆, s₇] [status] rfl rfl rfl
    rw [hseq]
    rfl
  · rw [if_pos hlen, if_pos hlen]

/-- The loop over the entries, from the entries behind `pre` on. -/
theorem decodeEntries_eq (count : Nat) (pre rest : Bytes) (filters : List IdMaskFilter)
    (h : count * 9 ≤ rest.length) :
    ∃ r, UnixSocket.decodeEntries count rest = some r ∧
      decodeEntries (pre ++ rest) count pre.length filters = some (r.map (filters ++ ·)) := by
  induction count generalizing pre rest filters with
  | zero =>
      refine ⟨.ok [], rfl, ?_⟩
      rw [decodeEntries, Except.map, List.append_nil]
  | succ count ih =>
      have hone : 9 ≤ rest.length := by omega
      match rest, hone, h with
      | flags :: i₀ :: i₁ :: i₂ :: i₃ :: m₀ :: m₁ :: m₂ :: m₃ :: rest, _, h =>
        let entry : Bytes := [flags, i₀, i₁, i₂, i₃, m₀, m₁, m₂, m₃]
        have hflags : (pre ++ (entry ++ rest))[pre.length]? = some flags := by
          rw [List.getElem?_append_right (Nat.le_refl _), Nat.sub_self]
          rfl
        have hid : (slice (pre ++ (entry ++ rest)) (pre.length + 1) (pre.length + 5)).bind
            (fromLeBytes 4) = some (leNat [i₀, i₁, i₂, i₃]) := by
          have := slice_fromLeBytes (pre ++ [flags]) [i₀, i₁, i₂, i₃] (m₀ :: m₁ :: m₂ :: m₃ :: rest)
            List.length_append (Nat.add_assoc _ 1 4) rfl
          rwa [List.append_assoc] at this
        have hmask : (slice (pre ++ (entry ++ rest)) (pre.length + 5) (pre.length + 9)).bind
            (fromLeBytes 4) = some (leNat [m₀, m₁, m₂, m₃]) := by
          have := slice_fromLeBytes (pre ++ [flags, i₀, i₁, i₂, i₃]) [m₀, m₁, m₂, m₃] rest
            List.length_append (Nat.add_assoc _ 5 4) rfl
          rwa [List.append_assoc] at this
        have hrest : count * 9 ≤ rest.length := by
          simp only [List.length_cons] at h
          omega
        have hsucc := decodeEntries_succ count flags [i₀, i₁, i₂, i₃] [m₀, m₁, m₂, m₃] rest rfl rfl
        change ∃ r, UnixSocket.decodeEntries (count + 1)
            (flags :: ([i₀, i₁, i₂, i₃] ++ ([m₀, m₁, m₂, m₃] ++ rest))) = some r ∧
          decodeEntries (pre ++ (entry ++ rest)) (count + 1) pre.length filters = _
        simp only [hsucc, decodeEntries, hflags, hid, hmask, Option.bind_eq_bind, Option.bind_some]
        cases decodeFilter flags (UInt32.ofNat (leNat [i₀, i₁, i₂, i₃]))
            (UInt32.ofNat (leNat [m₀, m₁, m₂, m₃])) with
        | error e => exact ⟨.error e, rfl, rfl⟩
        | ok f =>
            obtain ⟨r, hr, hloop⟩ := ih (pre ++ entry) rest (filters ++ [f]) hrest
            have hlen : (pre ++ entry).length = pre.length + 9 := List.length_append
            rw [List.append_assoc, hlen] at hloop
            refine ⟨r.map (f :: ·), ?_, ?_⟩
            · simp only [hr, Option.map_some]
            · simp only [hloop]
              cases r with
              | error e => rfl
              | ok fs => simp only [Except.map, List.append_assoc, List.cons_append, List.nil_append]

/-- The loop never leaves the payload: its length is the one the count announces. -/
theorem decodeFilters_eq (payload : Bytes) :
    ∃ r, UnixSocket.decodeFilters payload = some r ∧ decodeFilters payload = some r := by
  rw [decodeFilters, UnixSocket.decodeFilters]
  rcases Nat.lt_or_ge payload.length 10 with hlen | hlen
  · rw [if_pos hlen, if_pos hlen]
    exact ⟨_, rfl, rfl⟩
  · rw [if_neg (Nat.not_lt.mpr hlen), if_neg (Nat.not_lt.mpr hlen)]
    match payload, hlen with
    | s₀ :: s₁ :: s₂ :: s₃ :: s₄ :: s₅ :: s₆ :: s₇ :: c₀ :: c₁ :: rest, _ =>
      let seq : Bytes := [s₀, s₁, s₂, s₃, s₄, s₅, s₆, s₇]
      have hseq : (slice (seq ++ c₀ :: c₁ :: rest) 0 8).bind (fromLeBytes 8) = some (leNat seq) :=
        slice_fromLeBytes [] seq (c₀ :: c₁ :: rest) rfl rfl rfl
      have hcount : (slice (seq ++ c₀ :: c₁ :: rest) 8 10).bind (fromLeBytes 2) =
          some (leNat [c₀, c₁]) :=
        slice_fromLeBytes seq [c₀, c₁] rest rfl rfl rfl
      simp only [seq, List.cons_append, List.nil_append] at hseq hcount
      simp only [hseq, hcount, Option.bind_eq_bind, Option.bind_some, List.take_succ_cons,
        List.take_zero, List.drop_succ_cons, List.drop_zero]
      split
      · exact ⟨_, rfl, rfl⟩
      · rename_i hlen
        have hrest : leNat [c₀, c₁] * 9 ≤ rest.length := by
          simp only [List.length_cons] at hlen
          omega
        obtain ⟨r, hr, hloop⟩ := decodeEntries_eq (leNat [c₀, c₁]) (seq ++ [c₀, c₁]) rest [] hrest
        have hloop : decodeEntries (s₀ :: s₁ :: s₂ :: s₃ :: s₄ :: s₅ :: s₆ :: s₇ :: c₀ :: c₁ :: rest)
            (leNat [c₀, c₁]) 10 [] = some (r.map ([] ++ ·)) := hloop
        refine ⟨r.map (UInt64.ofNat (leNat seq), ·), ?_, ?_⟩
        · simp only [hr, Option.map_some, seq]
        · simp only [hloop, Option.bind_some]
          cases r <;> rfl

/-! ## Only what is announced is accepted -/

theorem decodeFrame_total (payload : Bytes) :
    ∃ r, decodeFrame payload = some r ∧ ∀ f, r = .ok f →
      ∃ dlc, payload[5]? = some dlc ∧ payload.length = frameHdrLen + dlc.toNat := by
  refine ⟨_, decodeFrame_eq payload, ?_⟩
  intro f hf
  rw [UnixSocket.decodeFrame] at hf
  rcases Nat.lt_or_ge payload.length frameHdrLen with hlen | hlen
  · rw [if_pos hlen] at hf
    cases hf
  · rw [if_neg (Nat.not_lt.mpr hlen)] at hf
    obtain ⟨flags, b₀, b₁, b₂, b₃, dlc, data, rfl⟩ := exists_frame_fields hlen
    refine ⟨dlc, rfl, ?_⟩
    cases hfields : decodeFields "invalid frame payload length"
        (flags :: b₀ :: b₁ :: b₂ :: b₃ :: dlc :: data) with
    | error e =>
        rw [hfields] at hf
        cases hf
    | ok r =>
        rw [← (decodeFields_ok hfields).2]
        exact Nat.add_comm data.length 6

theorem decodeSendFrame_total (payload : Bytes) :
    ∃ r, decodeSendFrame payload = some r ∧ ∀ m, r = .ok m →
      ∃ dlc, payload[13]? = some dlc ∧ payload.length = sendFrameHdrLen + dlc.toNat := by
  refine ⟨_, decodeSendFrame_eq payload, ?_⟩
  intro m hm
  rw [UnixSocket.decodeSendFrame] at hm
  rcases Nat.lt_or_ge payload.length sendFrameHdrLen with hlen | hlen
  · rw [if_pos hlen] at hm
    cases hm
  · rw [if_neg (Nat.not_lt.mpr hlen)] at hm
    obtain ⟨s₀, s₁, s₂, s₃, s₄, s₅, s₆, s₇, flags, b₀, b₁, b₂, b₃, dlc, data, rfl⟩ :=
      exists_sendFrame_fields hlen
    refine ⟨dlc, rfl, ?_⟩
    simp only [List.drop_succ_cons, List.drop_zero] at hm
    cases hfields : decodeFields "invalid send frame payload length"
        (flags :: b₀ :: b₁ :: b₂ :: b₃ :: dlc :: data) with
    | error e =>
        rw [hfields] at hm
        cases hm
    | ok r =>
        rw [← (decodeFields_ok hfields).2]
        exact Nat.add_comm data.length 14

theorem decodeAck_total (payload : Bytes) :
    ∃ r, decodeAck payload = some r ∧ ∀ a, r = .ok a → payload.length = ackLen := by
  refine ⟨_, decodeAck_eq payload, ?_⟩
  intro a ha
  rw [UnixSocket.decodeAck] at ha
  rcases Decidable.em (payload.length = ackLen) with hlen | hlen
  · exact hlen
  · rw [if_pos hlen] at ha
    cases ha

theorem decodeFilters_total (payload : Bytes) :
    ∃ r, decodeFilters payload = some r ∧ ∀ seq filters, r = .ok (seq, filters) →
      10 ≤ payload.length ∧ payload.length = 10 + leNat ((payload.drop 8).take 2) * 9 := by
  obtain ⟨r, hr, hbuf⟩ := decodeFilters_eq payload
  refine ⟨r, hbuf, ?_⟩
  rintro seq filters rfl
  rw [UnixSocket.decodeFilters] at hr
  split at hr
  · exact absurd (Option.some.inj hr) nofun
  · rename_i hten
    dsimp only at hr
    split at hr
    · exact absurd (Option.some.inj hr) nofun
    · rename_i hlen
      exact ⟨Nat.not_lt.mp hten, not_not.mp hlen⟩

/-! ## The codecs -/

/-- **The codecs are exact**: whatever array it is written to, a message is read back as it
was, and every payload is either refused or as long as its own field says. -/
theorem decode_encode_total (seq : UInt64) (expectAck : Bool) (status : UInt8) {frame : UnixFrame}
    (hframe : frame.Built) {filters : List IdMaskFilter} (hcount : filters.length ≤ 65535)
    (hwidth : ∀ f ∈ filters, f.sameWidth = true)
    (outSend : Vector UInt8 (sendFrameHdrLen + maxDataLen))
    (outFrame : Vector UInt8 (frameHdrLen + maxDataLen)) (outAck : Vector UInt8 ackLen)
    (payload : Bytes) :
    (∃ out len, encodeSendFrameInto outSend ⟨seq, expectAck, frame⟩ = some (out, len) ∧
      (slice out.toList 0 len).bind decodeSendFrame = some (.ok ⟨seq, expectAck, frame⟩)) ∧
    (∃ out len, encodeFrameInto outFrame frame = some (out, len) ∧
      (slice out.toList 0 len).bind decodeFrame = some (.ok frame)) ∧
    (∃ out, encodeAckInto outAck seq status = some out ∧
      decodeAck out.toList = some (.ok (seq, status))) ∧
    decodeFilters (encodeFilters seq filters) = some (.ok (seq, filters)) ∧
    (∃ r, decodeSendFrame payload = some r ∧ ∀ m, r = .ok m →
      ∃ dlc, payload[13]? = some dlc ∧ payload.length = sendFrameHdrLen + dlc.toNat) ∧
    (∃ r, decodeFrame payload = some r ∧ ∀ f, r = .ok f →
      ∃ dlc, payload[5]? = some dlc ∧ payload.length = frameHdrLen + dlc.toNat) ∧
    (∃ r, decodeAck payload = some r ∧ ∀ a, r = .ok a → payload.length = ackLen) ∧
    ∃ r, decodeFilters payload = some r ∧ ∀ seq filters, r = .ok (seq, filters) →
      10 ≤ payload.length ∧ payload.length = 10 + leNat ((payload.drop 8).take 2) * 9 := by
  obtain ⟨f, rfl⟩ := hframe.exists_padded
  have hdlc : (padded f).dlc.toNat ≤ maxDataLen := (padded f).le
  refine ⟨?_, ?_, ?_, ?_, decodeSendFrame_total payload, decodeFrame_total payload,
    decodeAck_total payload, decodeFilters_total payload⟩
  · obtain ⟨out, hout, htake⟩ := encodeSendFrameInto_eq outSend ⟨seq, expectAck, padded f⟩
    refine ⟨out, _, hout, ?_⟩
    rw [slice_eq (Nat.zero_le _) (by rw [Vector.length_toList]; exact Nat.add_le_add_left hdlc _),
      Option.bind_some, List.drop_zero, Nat.sub_zero, htake, view_padded, decodeSendFrame_eq,
      decodeSendFrame_encodeSendFrameInto]
    rfl
  · obtain ⟨out, hout, htake⟩ := encodeFrameInto_eq outFrame (padded f)
    refine ⟨out, _, hout, ?_⟩
    rw [slice_eq (Nat.zero_le _) (by rw [Vector.length_toList]; exact Nat.add_le_add_left hdlc _),
      Option.bind_some, List.drop_zero, Nat.sub_zero, htake, view_padded, decodeFrame_eq,
      decodeFrame_encodeFrameInto]
    rfl
  · obtain ⟨out, hout, hlist⟩ := encodeAckInto_eq outAck seq status
    refine ⟨out, hout, ?_⟩
    rw [hlist, decodeAck_eq, decodeAck_encodeAckInto]
  · obtain ⟨r, hr, hbuf⟩ := decodeFilters_eq (encodeFilters seq filters)
    rw [decodeFilters_encodeFilters seq filters (Nat.lt_succ_of_le hcount), map_received hwidth] at hr
    rw [hbuf, ← hr]

/-- A remote frame with an extended identifier and a filter of each width. -/
theorem decode_encode_total_remote :
    ∃ frame : UnixFrame, frame.Built ∧
      (∃ out len, encodeFrameInto (Vector.replicate _ 0xFF) frame = some (out, len) ∧
        (slice out.toList 0 len).bind decodeFrame = some (.ok frame)) ∧
      decodeFilters (encodeFilters 7 [⟨.standard ⟨0x123, by decide⟩, .standard 0x7FF⟩,
          ⟨.extended ⟨0x12345, by decide⟩, .extended 0xFFFFFFFF⟩]) =
        some (.ok (7, [⟨.standard ⟨0x123, by decide⟩, .standard 0x7FF⟩,
          ⟨.extended ⟨0x12345, by decide⟩, .extended 0xFFFFFFFF⟩])) := by
  have hnew := newRemote_eq (.extended ⟨0x12345, by decide⟩) (show 8 ≤ maxDataLen by decide)
  have hbuilt : UnixFrame.Built _ := .inr ⟨_, _, hnew⟩
  obtain ⟨-, hframe, -, hfilters, -⟩ := decode_encode_total 7 true ackOk hbuilt
    (show [⟨.standard ⟨0x123, by decide⟩, .standard 0x7FF⟩,
      ⟨.extended ⟨0x12345, by decide⟩, .extended 0xFFFFFFFF⟩].length ≤ 65535 by decide) (by decide)
    (Vector.replicate _ 0) (Vector.replicate _ 0xFF) (Vector.replicate _ 0) []
  exact ⟨_, hbuilt, hframe, hfilters⟩

end Thincan.UnixSocket.Buffer
