import Thincan.UnixSocket.Buffer

/-!
# Identifiers that are too wide

An id field has 32 bits, and a flag announces whether the identifier in it has 11 or 29.
`ExtendedId::new` sees the whole field.  `StandardId::new` takes a `u16`, and the decoders
drop the upper half of the field before they ask it: `0x10001` is read as the identifier 1.

The decoders are exact on every payload but those whose lengths are right, whose fields all
pass, and of whose fields one has passed only for what was dropped (`Slips`).
-/

namespace Thincan.UnixSocket.Buffer

open Process

/-! ## Id fields -/

/-- An id field, with the flags that announce its width. -/
structure IdField where
  flags : UInt8
  raw : UInt32
deriving DecidableEq, Repr

namespace IdField

variable (x : IdField)

/-- 29 bits are announced. -/
def extended : Bool := x.flags &&& flagExtended ≠ 0

/-- The field holds an identifier of the width it announces. -/
def inRange : Bool := x.raw.toNat ≤ if x.extended then 0x1FFFFFFF else 0x7FF

/-- The field does not fit into 16 bits, and its lower half is a standard identifier. -/
def aliased : Bool := !x.extended && 0xFFFF < x.raw.toNat && x.raw.toNat % 0x10000 ≤ 0x7FF

/-- The identifier is the one in the field. -/
def Is : Id → Prop
  | .standard id => x.extended = false ∧ x.raw.toNat = id.raw.toNat
  | .extended id => x.extended = true ∧ x.raw.toNat = id.raw.toNat

/-- `decode_frame_from_parts` and the loop of `decode_filters`, up to the identifier. -/
def decode : Except String Id := decodeId x.flags x.raw

variable {x}

/-- An extended field is compared as it is. -/
theorem decode_extended (h : x.extended = true) :
    x.inRange = true ∧ (∃ id, x.decode = .ok id ∧ x.Is id) ∨
      x.inRange = false ∧ ∃ e, x.decode = .error e := by
  have hflag : x.flags &&& flagExtended ≠ 0 := of_decide_eq_true h
  have hrange : x.inRange = decide (x.raw.toNat ≤ 0x1FFFFFFF) := by
    rw [inRange, h]
    rfl
  rw [decode, decodeId, if_pos hflag, ExtendedId.new, hrange]
  by_cases hle : x.raw.toNat ≤ 0x1FFFFFFF
  · rw [dif_pos hle]
    exact .inl ⟨decide_eq_true hle, _, rfl, h, rfl⟩
  · rw [dif_neg hle]
    exact .inr ⟨decide_eq_false hle, _, rfl⟩

/-- A standard field is compared without its upper half. -/
theorem decode_standard (h : x.extended = false) :
    (x.raw.toNat % 0x10000 ≤ 0x7FF ∧
        ∃ id, x.decode = .ok (.standard id) ∧ id.raw.toNat = x.raw.toNat % 0x10000) ∨
      0x7FF < x.raw.toNat % 0x10000 ∧ ∃ e, x.decode = .error e := by
  have hflag : ¬x.flags &&& flagExtended ≠ 0 := of_decide_eq_false h
  have hlow : x.raw.toUInt16.toNat = x.raw.toNat % 0x10000 := UInt32.toNat_toUInt16 x.raw
  rw [decode, decodeId, if_neg hflag, StandardId.new, ← hlow]
  by_cases hle : x.raw.toUInt16.toNat ≤ 0x7FF
  · rw [dif_pos hle]
    exact .inl ⟨hle, _, rfl, rfl⟩
  · rw [dif_neg hle]
    exact .inr ⟨Nat.not_le.mp hle, _, rfl⟩

/-- **What becomes of a field**: it is read, or refused, or read as something else. -/
theorem decode_cases (x : IdField) :
    (x.inRange = true ∧ x.aliased = false ∧ ∃ id, x.decode = .ok id ∧ x.Is id) ∨
      (x.inRange = false ∧ x.aliased = true ∧ ∃ id, x.decode = .ok id) ∨
      (x.inRange = false ∧ x.aliased = false ∧ ∃ e, x.decode = .error e) := by
  cases h : x.extended with
  | true =>
      have haliased : x.aliased = false := by
        rw [aliased, h]
        rfl
      rcases decode_extended h with ⟨hrange, hid⟩ | ⟨hrange, he⟩
      · exact .inl ⟨hrange, haliased, hid⟩
      · exact .inr (.inr ⟨hrange, haliased, he⟩)
  | false =>
      have hrange : x.inRange = decide (x.raw.toNat ≤ 0x7FF) := by
        rw [inRange, h]
        rfl
      have haliased : x.aliased =
          (decide (0xFFFF < x.raw.toNat) && decide (x.raw.toNat % 0x10000 ≤ 0x7FF)) := by
        rw [aliased, h]
        rfl
      rw [hrange, haliased]
      rcases decode_standard h with ⟨hlow, id, hid, hraw⟩ | ⟨hlow, e, he⟩
      · by_cases hwide : 0xFFFF < x.raw.toNat
        · refine .inr (.inl ⟨decide_eq_false (by omega), ?_, _, hid⟩)
          rw [decide_eq_true hwide, decide_eq_true hlow]
          rfl
        · have hmod : x.raw.toNat % 0x10000 = x.raw.toNat := Nat.mod_eq_of_lt (by omega)
          refine .inl ⟨decide_eq_true (hmod ▸ hlow), ?_, _, hid, h, hmod ▸ hraw.symm⟩
          rw [decide_eq_false hwide]
          rfl
      · have hle := Nat.mod_le x.raw.toNat 0x10000
        refine .inr (.inr ⟨decide_eq_false (by omega), ?_, e, he⟩)
        rw [decide_eq_false (Nat.not_le.mpr hlow), Bool.and_false]

end IdField

/-! ## Payloads with several fields -/

/-- The identifiers of the fields, or the first refusal. -/
def decodeIds : List IdField → Except String (List Id)
  | [] => .ok []
  | x :: xs =>
      match x.decode with
      | .error e => .error e
      | .ok id => (decodeIds xs).map (id :: ·)

/-- **The decoder does not alias**: it reads the identifiers in the fields, and refuses a
payload with a field that is out of range. -/
structure Exact (fields : List IdField) (r : Option (Except String (List Id))) : Prop where
  reads : ∀ ids, r = some (.ok ids) → List.Forall₂ IdField.Is fields ids
  refuses : ∀ x ∈ fields, x.inRange = false → ∃ e, r = some (.error e)

/-- Every field passes, and one of them for its lower half only. -/
def Slips (fields : List IdField) : Prop :=
  (∀ x ∈ fields, x.inRange = true ∨ x.aliased = true) ∧ ∃ x ∈ fields, x.aliased = true

theorem Exact.of_error (fields : List IdField) (e : String) : Exact fields (some (.error e)) where
  reads := nofun
  refuses := fun _ _ _ ↦ ⟨e, rfl⟩

variable {fields : List IdField}

/-- A field that does not pass is the end of it. -/
theorem decodeIds_error {x : IdField} (hx : x ∈ fields) (hrange : x.inRange = false)
    (haliased : x.aliased = false) : ∃ e, decodeIds fields = .error e := by
  induction fields with
  | nil => cases hx
  | cons y ys ih =>
      rw [decodeIds]
      cases hy : y.decode with
      | error e => exact ⟨e, rfl⟩
      | ok id =>
          rcases List.mem_cons.mp hx with rfl | hmem
          · rcases x.decode_cases with ⟨htrue, -⟩ | ⟨-, htrue, -⟩ | ⟨-, -, e, he⟩
            · cases hrange.symm.trans htrue
            · cases haliased.symm.trans htrue
            · cases he.symm.trans hy
          · obtain ⟨e, he⟩ := ih hmem
            exact ⟨e, by rw [he]; rfl⟩

theorem decodeIds_ok (h : ∀ x ∈ fields, x.inRange = true ∨ x.aliased = true) :
    ∃ ids, decodeIds fields = .ok ids ∧
      ((∀ x ∈ fields, x.aliased = false) → List.Forall₂ IdField.Is fields ids) := by
  induction fields with
  | nil => exact ⟨[], rfl, fun _ ↦ .nil⟩
  | cons x xs ih =>
      obtain ⟨ids, hids, his⟩ := ih fun y hy ↦ h y (List.mem_cons_of_mem x hy)
      rw [decodeIds]
      rcases x.decode_cases with ⟨-, -, id, hid, hx⟩ | ⟨-, haliased, id, hid⟩ | ⟨hrange, hnot, -⟩
      · refine ⟨id :: ids, by rw [hid, hids]; rfl, ?_⟩
        intro hnone
        exact .cons hx (his fun y hy ↦ hnone y (List.mem_cons_of_mem x hy))
      · refine ⟨id :: ids, by rw [hid, hids]; rfl, ?_⟩
        intro hnone
        cases haliased.symm.trans (hnone x List.mem_cons_self)
      · rcases h x List.mem_cons_self with htrue | htrue
        · cases hrange.symm.trans htrue
        · cases hnot.symm.trans htrue

/-- The decoding of the fields alone is exact unless they slip. -/
theorem exact_decodeIds_iff : Exact fields (some (decodeIds fields)) ↔ ¬Slips fields := by
  constructor
  · rintro hexact ⟨hpass, x, hx, haliased⟩
    obtain ⟨ids, hids, -⟩ := decodeIds_ok hpass
    have hrange : x.inRange = false := by
      rcases x.decode_cases with ⟨-, hnot, -⟩ | ⟨hrange, -⟩ | ⟨hrange, -⟩
      · cases haliased.symm.trans hnot
      · exact hrange
      · exact hrange
    obtain ⟨e, he⟩ := hexact.refuses x hx hrange
    cases hids.symm.trans (Option.some.inj he)
  · intro hslips
    by_cases hpass : ∀ x ∈ fields, x.inRange = true ∨ x.aliased = true
    · have hnone : ∀ x ∈ fields, x.aliased = false := by
        intro x hx
        exact Bool.eq_false_iff.mpr fun htrue ↦ hslips ⟨hpass, x, hx, htrue⟩
      obtain ⟨ids, hids, his⟩ := decodeIds_ok hpass
      rw [hids]
      constructor
      · intro ids' hids'
        obtain rfl := Except.ok.inj (Option.some.inj hids')
        exact his hnone
      · intro x hx hrange
        rcases hpass x hx with htrue | htrue
        · cases hrange.symm.trans htrue
        · cases (hnone x hx).symm.trans htrue
    · simp only [not_forall, not_or, Bool.not_eq_true] at hpass
      obtain ⟨x, hx, hrange, haliased⟩ := hpass
      obtain ⟨e, he⟩ := decodeIds_error hx hrange haliased
      rw [he]
      exact .of_error fields e

/-- A decoder that looks at the lengths first, and then at the fields. -/
theorem exact_iff {r : Option (Except String (List Id))} {shaped : Prop}
    (hok : shaped → r = some (decodeIds fields)) (hbad : ¬shaped → ∃ e, r = some (.error e)) :
    Exact fields r ↔ ¬(shaped ∧ Slips fields) := by
  by_cases h : shaped
  · rw [hok h, exact_decodeIds_iff]
    exact not_congr (and_iff_right h).symm
  · obtain ⟨e, he⟩ := hbad h
    rw [he]
    exact iff_of_true (.of_error fields e) fun hboth ↦ h hboth.1

/-! ## The decoders -/

/-- The id field behind the flags at `off`. -/
def idFieldAt (payload : Bytes) (off : Nat) : IdField :=
  ⟨payload.getD off 0, UInt32.ofNat (leNat ((payload.drop (off + 1)).take 4))⟩

/-- The lengths of a payload with a frame behind `hdrLen` bytes are right. -/
def FrameShaped (hdrLen : Nat) (payload : Bytes) : Prop :=
  payload.length = hdrLen + (payload.getD (hdrLen - 1) 0).toNat ∧
    (payload.getD (hdrLen - 1) 0).toNat ≤ maxDataLen

/-- The number of filters that is announced. -/
def filterCount (payload : Bytes) : Nat := leNat ((payload.drop 8).take 2)

/-- The id fields of a payload with filters. -/
def filterIdFields (payload : Bytes) : List IdField :=
  (List.range (filterCount payload)).map fun i ↦ idFieldAt payload (10 + i * 9)

/-- The length of a payload with filters is right. -/
def FiltersShaped (payload : Bytes) : Prop := payload.length = 10 + filterCount payload * 9

section Fields

variable (short : String) (flags b₀ b₁ b₂ b₃ : UInt8) {dlc : UInt8} {data : Bytes}

theorem decodeFields_shaped (hdlc : dlc.toNat ≤ maxDataLen) (hdata : data.length = dlc.toNat) :
    (decodeFields short (flags :: b₀ :: b₁ :: b₂ :: b₃ :: dlc :: data)).map (fun r ↦ [r.2.id]) =
      decodeIds [⟨flags, UInt32.ofNat (leNat [b₀, b₁, b₂, b₃])⟩] := by
  rw [decodeFields_cons, if_neg (Nat.not_lt.mpr hdlc), if_neg (not_not.mpr hdata),
    UnixSocket.decodeFrameFromParts, decodeIds, IdField.decode]
  cases decodeId flags (UInt32.ofNat (leNat [b₀, b₁, b₂, b₃])) with
  | error e => rfl
  | ok id =>
      dsimp only
      rw [dif_pos (hdata ▸ hdlc)]
      rfl

theorem decodeFields_not_shaped (h : ¬(data.length = dlc.toNat ∧ dlc.toNat ≤ maxDataLen)) :
    ∃ e, decodeFields short (flags :: b₀ :: b₁ :: b₂ :: b₃ :: dlc :: data) = .error e := by
  rw [decodeFields_cons]
  split
  · exact ⟨_, rfl⟩
  · next hdlc =>
      rw [if_pos fun hdata ↦ h ⟨hdata, Nat.not_lt.mp hdlc⟩]
      exact ⟨_, rfl⟩

/-- A decoder that goes on to the fields of a frame. -/
theorem exact_decodeFields_iff (dlc : UInt8) (data : Bytes) {r : Option (Except String (List Id))}
    {shaped : Prop}
    (hr : r = some ((decodeFields short (flags :: b₀ :: b₁ :: b₂ :: b₃ :: dlc :: data)).map
      fun x ↦ [x.2.id]))
    (hshape : shaped ↔ data.length = dlc.toNat ∧ dlc.toNat ≤ maxDataLen) :
    Exact [⟨flags, UInt32.ofNat (leNat [b₀, b₁, b₂, b₃])⟩] r ↔
      ¬(shaped ∧ Slips [⟨flags, UInt32.ofNat (leNat [b₀, b₁, b₂, b₃])⟩]) := by
  refine exact_iff (fun hshaped ↦ ?_) fun hnot ↦ ?_
  · obtain ⟨hdata, hdlc⟩ := hshape.mp hshaped
    rw [hr, decodeFields_shaped short flags b₀ b₁ b₂ b₃ hdlc hdata]
  · obtain ⟨e, he⟩ := decodeFields_not_shaped short flags b₀ b₁ b₂ b₃ fun h ↦ hnot (hshape.mpr h)
    rw [hr, he]
    exact ⟨e, rfl⟩

end Fields

theorem FrameShaped.le_length {hdrLen : Nat} {payload : Bytes} (h : FrameShaped hdrLen payload) :
    hdrLen ≤ payload.length := h.1 ▸ Nat.le_add_right ..

theorem decodeFrame_exact_iff (payload : Bytes) :
    Exact [idFieldAt payload 0] ((decodeFrame payload).map (Except.map fun f ↦ [f.id])) ↔
      ¬(FrameShaped frameHdrLen payload ∧ Slips [idFieldAt payload 0]) := by
  rw [decodeFrame_eq, UnixSocket.decodeFrame]
  rcases Nat.lt_or_ge payload.length frameHdrLen with hlen | hlen
  · rw [if_pos hlen]
    refine exact_iff (fun hshaped ↦ ?_) fun _ ↦ ⟨_, rfl⟩
    exact absurd hlen (Nat.not_lt.mpr hshaped.le_length)
  · rw [if_neg (Nat.not_lt.mpr hlen)]
    obtain ⟨flags, b₀, b₁, b₂, b₃, dlc, data, rfl⟩ := exists_frame_fields hlen
    refine exact_decodeFields_iff "invalid frame payload length" flags b₀ b₁ b₂ b₃ dlc data ?_ ?_
    · cases decodeFields "invalid frame payload length"
        (flags :: b₀ :: b₁ :: b₂ :: b₃ :: dlc :: data) <;> rfl
    · change data.length + 6 = 6 + dlc.toNat ∧ _ ↔ _
      rw [Nat.add_comm, Nat.add_left_cancel_iff]
      rfl

theorem decodeSendFrame_exact_iff (payload : Bytes) :
    Exact [idFieldAt payload 8] ((decodeSendFrame payload).map (Except.map fun m ↦ [m.frame.id])) ↔
      ¬(FrameShaped sendFrameHdrLen payload ∧ Slips [idFieldAt payload 8]) := by
  rw [decodeSendFrame_eq, UnixSocket.decodeSendFrame]
  rcases Nat.lt_or_ge payload.length sendFrameHdrLen with hlen | hlen
  · rw [if_pos hlen]
    refine exact_iff (fun hshaped ↦ ?_) fun _ ↦ ⟨_, rfl⟩
    exact absurd hlen (Nat.not_lt.mpr hshaped.le_length)
  · rw [if_neg (Nat.not_lt.mpr hlen)]
    obtain ⟨s₀, s₁, s₂, s₃, s₄, s₅, s₆, s₇, flags, b₀, b₁, b₂, b₃, dlc, data, rfl⟩ :=
      exists_sendFrame_fields hlen
    refine exact_decodeFields_iff "invalid send frame payload length" flags b₀ b₁ b₂ b₃ dlc data ?_ ?_
    · simp only [List.drop_succ_cons, List.drop_zero]
      cases decodeFields "invalid send frame payload length"
        (flags :: b₀ :: b₁ :: b₂ :: b₃ :: dlc :: data) <;> rfl
    · change data.length + 14 = 14 + dlc.toNat ∧ _ ↔ _
      rw [Nat.add_comm, Nat.add_left_cancel_iff]
      rfl

theorem idFieldAt_append (pre rest : Bytes) (k : Nat) :
    idFieldAt (pre ++ rest) (pre.length + k) = idFieldAt rest k := by
  simp only [idFieldAt, List.getD_eq_getElem?_getD, Nat.add_assoc, Nat.add_sub_cancel_left,
    List.getElem?_append_right (Nat.le_add_right ..), List.drop_length_add_append]

/-- The loop over the entries reads their id fields, one after the other. -/
theorem decodeEntries_ids {count : Nat} {rest : Bytes} (h : rest.length = count * 9) :
    ∃ r, UnixSocket.decodeEntries count rest = some r ∧
      r.map (List.map IdMaskFilter.id) =
        decodeIds ((List.range count).map fun i ↦ idFieldAt rest (i * 9)) := by
  induction count generalizing rest with
  | zero => exact ⟨.ok [], rfl, rfl⟩
  | succ count ih =>
      have hone : 9 ≤ rest.length := by omega
      match rest, hone, h with
      | flags :: i₀ :: i₁ :: i₂ :: i₃ :: m₀ :: m₁ :: m₂ :: m₃ :: rest, _, h =>
        let entry : Bytes := [flags, i₀, i₁, i₂, i₃, m₀, m₁, m₂, m₃]
        have hrest : rest.length = count * 9 := by
          simp only [List.length_cons] at h
          omega
        obtain ⟨r, hr, hids⟩ := ih hrest
        -- the fields of the other entries are those of what is left
        have hfields : (List.range (count + 1)).map (fun i ↦ idFieldAt (entry ++ rest) (i * 9)) =
            ⟨flags, UInt32.ofNat (leNat [i₀, i₁, i₂, i₃])⟩ ::
              (List.range count).map fun i ↦ idFieldAt rest (i * 9) := by
          rw [List.range_succ_eq_map, List.map_cons, List.map_map]
          refine congrArg₂ List.cons rfl (List.map_congr_left ?_)
          intro i _
          have hlen : (i + 1) * 9 = entry.length + i * 9 := by
            rw [Nat.succ_mul, Nat.add_comm]
            rfl
          rw [Function.comp_apply, Nat.succ_eq_add_one, hlen, idFieldAt_append]
        have hsucc := decodeEntries_succ count flags [i₀, i₁, i₂, i₃] [m₀, m₁, m₂, m₃] rest rfl rfl
        change ∃ r, UnixSocket.decodeEntries (count + 1)
            (flags :: ([i₀, i₁, i₂, i₃] ++ ([m₀, m₁, m₂, m₃] ++ rest))) = some r ∧
          _ = decodeIds ((List.range (count + 1)).map fun i ↦ idFieldAt (entry ++ rest) (i * 9))
        rw [hsucc, hfields, decodeIds, IdField.decode, ← hids, decodeFilter, hr]
        cases decodeId flags (UInt32.ofNat (leNat [i₀, i₁, i₂, i₃])) with
        | error e => exact ⟨.error e, rfl, rfl⟩
        | ok id =>
            cases id with
            | standard id | extended id =>
                refine ⟨_, rfl, ?_⟩
                cases r <;> rfl

/-- The filters are behind ten bytes. -/
theorem filterIdFields_eq {pre : Bytes} (rest : Bytes) (hpre : pre.length = 10) :
    filterIdFields (pre ++ rest) =
      (List.range (filterCount (pre ++ rest))).map fun i ↦ idFieldAt rest (i * 9) := by
  refine List.map_congr_left ?_
  intro i _
  rw [← hpre, idFieldAt_append]

theorem decodeFilters_exact_iff (payload : Bytes) :
    Exact (filterIdFields payload)
        ((decodeFilters payload).map (Except.map fun r ↦ r.2.map IdMaskFilter.id)) ↔
      ¬(FiltersShaped payload ∧ Slips (filterIdFields payload)) := by
  obtain ⟨r, hr, hbuf⟩ := decodeFilters_eq payload
  rw [hbuf]
  rw [UnixSocket.decodeFilters] at hr
  split at hr
  · next hten =>
      rw [← hr]
      refine exact_iff (fun hshaped ↦ ?_) fun _ ↦ ⟨_, rfl⟩
      rw [FiltersShaped] at hshaped
      omega
  · next hten =>
      dsimp only at hr
      split at hr
      · next hlen =>
          rw [← hr]
          exact exact_iff (fun hshaped ↦ absurd hshaped hlen) fun _ ↦ ⟨_, rfl⟩
      · next hlen =>
          refine exact_iff (fun _ ↦ ?_) fun hnot ↦ absurd (not_not.mp hlen) hnot
          have hsplit : payload = payload.take 10 ++ payload.drop 10 := (List.take_append_drop ..).symm
          have hpre : (payload.take 10).length = 10 := by
            rw [List.length_take]
            omega
          have hrest : (payload.drop 10).length = filterCount payload * 9 := by
            rw [List.length_drop]
            have := not_not.mp hlen
            change payload.length = 10 + filterCount payload * 9 at this
            omega
          obtain ⟨fs, hfs, hids⟩ := decodeEntries_ids hrest
          have hfields := filterIdFields_eq (payload.drop 10) hpre
          rw [← hsplit] at hfields
          change (UnixSocket.decodeEntries (filterCount payload) _).map _ = some r at hr
          rw [hfs] at hr
          rw [← Option.some.inj hr, hfields, ← hids]
          cases fs <;> rfl

/-- **The three decoders take every identifier as it stands, or refuse it, if and only if no
standard id field with a bit above the lower half slips through.** -/
theorem decoders_exact_iff (payload : Bytes) :
    (Exact [idFieldAt payload 8] ((decodeSendFrame payload).map (Except.map fun m ↦ [m.frame.id])) ↔
        ¬(FrameShaped sendFrameHdrLen payload ∧ Slips [idFieldAt payload 8])) ∧
      (Exact [idFieldAt payload 0] ((decodeFrame payload).map (Except.map fun f ↦ [f.id])) ↔
        ¬(FrameShaped frameHdrLen payload ∧ Slips [idFieldAt payload 0])) ∧
      (Exact (filterIdFields payload)
          ((decodeFilters payload).map (Except.map fun r ↦ r.2.map IdMaskFilter.id)) ↔
        ¬(FiltersShaped payload ∧ Slips (filterIdFields payload))) := by
  refine ⟨?_, ?_, ?_⟩
  · exact decodeSendFrame_exact_iff payload
  · exact decodeFrame_exact_iff payload
  · exact decodeFilters_exact_iff payload

/-- A data frame without data whose id field is `0x10001`, and which announces 11 bits. -/
def widePayload : Bytes := [0, 1, 0, 1, 0, 0]

/-- It is read as a frame with the identifier 1. -/
theorem widePayload_aliased :
    (idFieldAt widePayload 0).raw = 0x10001 ∧ (idFieldAt widePayload 0).inRange = false ∧
      ((decodeFrame widePayload).map (Except.map fun f ↦ [f.id]) = some (.ok [.standard ⟨1, by decide⟩])) ∧
      ¬Exact [idFieldAt widePayload 0]
        ((decodeFrame widePayload).map (Except.map fun f ↦ [f.id])) := by
  have hread : (decodeFrame widePayload).map (Except.map fun f ↦ [f.id]) =
      some (.ok [.standard ⟨1, by decide⟩]) := by decide +kernel
  have hrange : (idFieldAt widePayload 0).inRange = false := by decide
  refine ⟨by decide, hrange, hread, ?_⟩
  intro hexact
  obtain ⟨e, he⟩ := hexact.refuses _ List.mem_cons_self hrange
  rw [hread] at he
  cases Option.some.inj he

end Thincan.UnixSocket.Buffer
