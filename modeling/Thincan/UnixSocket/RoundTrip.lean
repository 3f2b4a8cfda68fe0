import Thincan.UnixSocket.Wire

/-!
# What is encoded is decoded

Frames, acknowledgements and filters come back as they were.  A filter whose mask has
another width than its identifier does not: its mask comes back as zero
(`IdMaskFilter.received`).
-/

namespace Thincan.UnixSocket

open Process

/-! ## Words -/

theorem ofNat_u32 (v : UInt32) : UInt32.ofNat (leNat (leBytes 4 v.toNat)) = v := by
  rw [leNat_u32, UInt32.ofNat_toNat]

theorem ofNat_u64 (v : UInt64) : UInt64.ofNat (leNat (leBytes 8 v.toNat)) = v := by
  rw [leNat_u64, UInt64.ofNat_toNat]

/-! ## Identifiers and flags -/

theorem StandardId.new_raw (id : StandardId) : StandardId.new id.raw = some id := dif_pos id.le

theorem ExtendedId.new_raw (id : ExtendedId) : ExtendedId.new id.raw = some id := dif_pos id.le

theorem StandardId.raw_of_new {raw : UInt16} {id : StandardId} (h : StandardId.new raw = some id) :
    id.raw = raw := by
  unfold StandardId.new at h
  split at h
  · exact congrArg StandardId.raw (Option.some.inj h).symm
  · cases h

theorem ExtendedId.raw_of_new {raw : UInt32} {id : ExtendedId} (h : ExtendedId.new raw = some id) :
    id.raw = raw := by
  unfold ExtendedId.new at h
  split at h
  · exact congrArg ExtendedId.raw (Option.some.inj h).symm
  · cases h

/-- The identifier has 29 bits. -/
def Id.isExtended : Id → Bool
  | .extended _ => true
  | .standard _ => false

/-- Three flags in a byte. -/
def flagBits (remote extended expectAck : Bool) : UInt8 :=
  (if remote then flagRemote else 0) ||| (if extended then flagExtended else 0) |||
    (if expectAck then flagExpectAck else 0)

theorem frameFlags_eq (f : UnixFrame) (expectAck : Bool) :
    frameFlags f expectAck = flagBits f.remote f.id.isExtended expectAck := by
  obtain ⟨id, data, remote, fits⟩ := f
  cases id with
  | standard | extended => rfl

/-- Each flag can be read without the others. -/
theorem flagBits_and : ∀ remote extended expectAck,
    decide (flagBits remote extended expectAck &&& flagRemote ≠ 0) = remote ∧
      decide (flagBits remote extended expectAck &&& flagExtended ≠ 0) = extended ∧
      decide (flagBits remote extended expectAck &&& flagExpectAck ≠ 0) = expectAck := by
  decide

/-- An identifier is read back from its word and its flag. -/
theorem decodeId_frameIdRaw (id : Id) {flags : UInt8}
    (h : decide (flags &&& flagExtended ≠ 0) = id.isExtended) :
    decodeId flags (frameIdRaw id) = .ok id := by
  unfold decodeId
  cases id with
  | standard id =>
      have hraw : id.raw.toUInt32.toUInt16 = id.raw := UInt16.toUInt16_toUInt32 id.raw
      rw [if_neg (of_decide_eq_false h)]
      simp only [frameIdRaw, hraw, StandardId.new_raw]
  | extended id =>
      rw [if_pos (of_decide_eq_true h)]
      simp only [frameIdRaw, ExtendedId.new_raw]

/-! ## Frames -/

theorem UnixFrame.toNat_dlcU8 (f : UnixFrame) : f.dlcU8.toNat = f.data.length := by
  have hfits := f.fits
  rw [dlcU8, UInt8.toNat_ofNat']
  exact Nat.mod_eq_of_lt (Nat.lt_of_le_of_lt hfits (by decide))

theorem decodeFields_cons (short : String) (flags b₀ b₁ b₂ b₃ dlc : UInt8) (data : Bytes) :
    decodeFields short (flags :: b₀ :: b₁ :: b₂ :: b₃ :: dlc :: data) =
      if dlc.toNat > maxDataLen then .error "invalid dlc"
      else if data.length ≠ dlc.toNat then .error short
      else (decodeFrameFromParts flags (UInt32.ofNat (leNat [b₀, b₁, b₂, b₃])) data).map (flags, ·) := by
  rw [decodeFields]
  cases decodeFrameFromParts flags (UInt32.ofNat (leNat [b₀, b₁, b₂, b₃])) data <;> rfl

theorem decodeFields_encodeFields (short : String) (f : UnixFrame) (expectAck : Bool) :
    decodeFields short (encodeFields f expectAck) = .ok (frameFlags f expectAck, f) := by
  have hparts : decodeFrameFromParts (frameFlags f expectAck)
      (UInt32.ofNat (leNat (leBytes 4 (frameIdRaw f.id).toNat))) f.data = .ok f := by
    obtain ⟨hremote, hextended, -⟩ := flagBits_and f.remote f.id.isExtended expectAck
    rw [frameFlags_eq, ofNat_u32, decodeFrameFromParts, decodeId_frameIdRaw f.id hextended]
    simp only [dif_pos f.fits, hremote]
  have hdlc := f.toNat_dlcU8
  have hfits := f.fits
  apply (decodeFields_cons ..).trans
  rw [if_neg (hdlc ▸ Nat.not_lt.mpr hfits), if_neg (not_not.mpr hdlc.symm)]
  exact congrArg (Except.map _) hparts

theorem length_encodeFields (f : UnixFrame) (expectAck : Bool) :
    (encodeFields f expectAck).length = frameHdrLen + f.data.length := by
  rw [encodeFields, List.length_cons, List.length_append, length_leBytes, List.length_cons, frameHdrLen]
  omega

/-- A frame is read back. -/
theorem decodeFrame_encodeFrameInto (f : UnixFrame) : decodeFrame (encodeFrameInto f) = .ok f := by
  have hlen : ¬ (encodeFrameInto f).length < frameHdrLen := by
    rw [encodeFrameInto, length_encodeFields]
    exact Nat.not_lt.mpr (Nat.le_add_right ..)
  rw [decodeFrame, if_neg hlen, encodeFrameInto, decodeFields_encodeFields]

/-- A send request is read back. -/
theorem decodeSendFrame_encodeSendFrameInto (m : SendFrame) :
    decodeSendFrame (encodeSendFrameInto m) = .ok m := by
  have hseq : (leBytes 8 m.seq.toNat).length = 8 := length_leBytes ..
  have hlen : ¬ (encodeSendFrameInto m).length < sendFrameHdrLen := by
    rw [encodeSendFrameInto, List.length_append, hseq, length_encodeFields, sendFrameHdrLen, frameHdrLen]
    omega
  rw [decodeSendFrame, if_neg hlen, encodeSendFrameInto, List.drop_left' hseq, List.take_left' hseq,
    decodeFields_encodeFields, ofNat_u64, frameFlags_eq]
  simp only [(flagBits_and m.frame.remote m.frame.id.isExtended m.expectAck).2.2]

/-- An acknowledgement is read back. -/
theorem decodeAck_encodeAckInto (seq : UInt64) (status : UInt8) :
    decodeAck (encodeAckInto seq status) = .ok (seq, status) := by
  have hseq : (leBytes 8 seq.toNat).length = 8 := length_leBytes ..
  have hlen : (encodeAckInto seq status).length = ackLen := by
    rw [encodeAckInto, List.length_append, hseq]
    rfl
  rw [decodeAck, if_neg (not_not.mpr hlen), encodeAckInto, List.take_left' hseq, ofNat_u64]
  rfl

/-! ## Filters -/

/-- A filter as it is read back. -/
def IdMaskFilter.received (f : IdMaskFilter) : IdMaskFilter :=
  match f.id, f.mask with
  | .standard id, .standard mask => ⟨.standard id, .standard mask⟩
  | .standard id, .extended _ => ⟨.standard id, .standard 0⟩
  | .extended id, .extended mask => ⟨.extended id, .extended mask⟩
  | .extended id, .standard _ => ⟨.extended id, .extended 0⟩

/-- The identifier and the mask have the same width. -/
def IdMaskFilter.sameWidth (f : IdMaskFilter) : Bool :=
  match f.id, f.mask with
  | .standard _, .standard _ => true
  | .extended _, .extended _ => true
  | _, _ => false

theorem IdMaskFilter.received_of_sameWidth {f : IdMaskFilter} (h : f.sameWidth = true) :
    f.received = f := by
  obtain ⟨id, mask⟩ := f
  cases id with
  | standard id =>
      cases mask with
      | standard mask => rfl
      | extended mask => exact absurd h Bool.false_ne_true
  | extended id =>
      cases mask with
      | standard mask => exact absurd h Bool.false_ne_true
      | extended mask => rfl

theorem map_received {fs : List IdMaskFilter} (h : ∀ f ∈ fs, f.sameWidth = true) :
    fs.map IdMaskFilter.received = fs := by
  induction fs with
  | nil => rfl
  | cons f fs ih =>
      rw [List.forall_mem_cons] at h
      rw [List.map_cons, IdMaskFilter.received_of_sameWidth h.1, ih h.2]

theorem decodeFilter_filterFields (f : IdMaskFilter) :
    decodeFilter (filterFields f).1 (filterFields f).2.1 (filterFields f).2.2 = .ok f.received := by
  obtain ⟨id, mask⟩ := f
  cases id with
  | standard id =>
      have hflag : decide ((0 : UInt8) &&& flagExtended ≠ 0) = false := by decide
      have hid : decodeId 0 id.raw.toUInt32 = .ok (.standard id) :=
        decodeId_frameIdRaw (.standard id) hflag
      cases mask with
      | standard mask =>
          have hmask : mask.toUInt32.toUInt16 = mask := UInt16.toUInt16_toUInt32 mask
          simp only [filterFields, decodeFilter, hid, IdMaskFilter.received, hmask]
      | extended mask =>
          simp only [filterFields, decodeFilter, hid, IdMaskFilter.received]
          rfl
  | extended id =>
      have hflag : decide (flagExtended &&& flagExtended ≠ 0) = true := by decide
      have hid : decodeId flagExtended id.raw = .ok (.extended id) :=
        decodeId_frameIdRaw (.extended id) hflag
      cases mask with
      | standard | extended => simp only [filterFields, decodeFilter, hid, IdMaskFilter.received]

theorem length_encodeFilter (f : IdMaskFilter) : (encodeFilter f).length = 9 := by
  simp only [encodeFilter, List.length_cons, List.length_append, length_leBytes]

theorem length_flatMap_encodeFilter (fs : List IdMaskFilter) :
    (fs.flatMap encodeFilter).length = fs.length * 9 := by
  induction fs with
  | nil => rfl
  | cons f fs ih =>
      rw [List.flatMap_cons, List.length_append, length_encodeFilter, ih, List.length_cons,
        Nat.succ_mul, Nat.add_comm]

/-- The loop reads one entry and goes on behind it. -/
theorem decodeEntries_succ (count : Nat) (flags : UInt8) (id mask rest : Bytes)
    (hid : id.length = 4) (hmask : mask.length = 4) :
    decodeEntries (count + 1) (flags :: (id ++ (mask ++ rest))) =
      match decodeFilter flags (UInt32.ofNat (leNat id)) (UInt32.ofNat (leNat mask)) with
      | .error e => some (.error e)
      | .ok f => (decodeEntries count rest).map (Except.map (f :: ·)) := by
  match id, hid, mask, hmask with
  | [i₀, i₁, i₂, i₃], _, [m₀, m₁, m₂, m₃], _ => rfl

/-- The entries are read back one after the other. -/
theorem decodeEntries_flatMap (fs : List IdMaskFilter) :
    decodeEntries fs.length (fs.flatMap encodeFilter) =
      some (.ok (fs.map IdMaskFilter.received)) := by
  induction fs with
  | nil => rfl
  | cons f fs ih =>
      have hone := decodeFilter_filterFields f
      have hentry : encodeFilter f = (filterFields f).1 ::
          (leBytes 4 (filterFields f).2.1.toNat ++ leBytes 4 (filterFields f).2.2.toNat) := rfl
      rw [List.flatMap_cons, List.length_cons, hentry, List.cons_append, List.append_assoc,
        decodeEntries_succ _ _ _ _ _ (length_leBytes ..) (length_leBytes ..), ofNat_u32, ofNat_u32,
        hone, ih]
      rfl

theorem length_encodeFilters (seq : UInt64) (fs : List IdMaskFilter) :
    (encodeFilters seq fs).length = 10 + fs.length * 9 := by
  simp only [encodeFilters, List.length_append, length_leBytes, length_flatMap_encodeFilter]
  omega

/-- A list of filters that the count can hold is read back, each filter as `received`. -/
theorem decodeFilters_encodeFilters (seq : UInt64) (fs : List IdMaskFilter)
    (h : fs.length < 2 ^ 16) :
    decodeFilters (encodeFilters seq fs) = some (.ok (seq, fs.map IdMaskFilter.received)) := by
  have hseq : (leBytes 8 seq.toNat).length = 8 := length_leBytes ..
  have hcount : (leBytes 2 (UInt16.ofNat fs.length).toNat).length = 2 := length_leBytes ..
  have hn : leNat (leBytes 2 (UInt16.ofNat fs.length).toNat) = fs.length := by
    rw [leNat_u16, UInt16.toNat_ofNat', Nat.mod_eq_of_lt h]
  have hlen := length_encodeFilters seq fs
  have htake : (encodeFilters seq fs).take 8 = leBytes 8 seq.toNat := List.take_left' hseq
  have hdrop : (encodeFilters seq fs).drop 8 =
      leBytes 2 (UInt16.ofNat fs.length).toNat ++ fs.flatMap encodeFilter := List.drop_left' hseq
  have hrest : (encodeFilters seq fs).drop 10 = fs.flatMap encodeFilter := by
    rw [show 10 = 8 + 2 from rfl, ← List.drop_drop, hdrop, List.drop_left' hcount]
  unfold decodeFilters
  rw [if_neg (by omega)]
  simp only [htake, hdrop, List.take_left' hcount, hn, hrest, hlen, ne_eq, not_true_eq_false, if_false,
    decodeEntries_flatMap, ofNat_u64]
  rfl

end Thincan.UnixSocket
