import Thincan.UnixSocket.Server

/-!
# Acceptance filters of bxCAN

`embedded-can-embassy-stm32/src/bxcan.rs`.  The peripheral has a few filter banks.  A bank
holds two masks of 16 bits or one of 32: two standard filters that follow each other share a
bank, and every other filter has its own.

`set_filters` goes through the list twice.  The first pass checks the filters and counts the
banks; the second one programs them.  Both carry a standard filter that waits for its partner.
What they are about is `pack`, which has the partners side by side.

The banks are those of the crate `embassy-stm32`; what is used of them is `MasterFilters`.
-/

namespace Thincan.EmbassyStm32

open UnixSocket

/-! ## The banks -/

/-- `EmbassyStm32CanError`, as far as `set_filters` makes one. -/
inductive Error where
  | tooManyFilters
  | maskWidthMismatch
  | maskOutOfRange
deriving DecidableEq, Repr

/-- What a bank is enabled with: `[Mask16; 2]` or `Mask32`. -/
inductive BankConfig (M₁₆ M₃₂ : Type) where
  | mask16 (first second : M₁₆)
  | mask32 (mask : M₃₂)
deriving DecidableEq, Repr

/-- A call of `MasterFilters`; the queue is always `Fifo0`. -/
inductive BankOp (M₁₆ M₃₂ : Type) where
  | clear
  | enableBank (index : UInt8) (config : BankConfig M₁₆ M₃₂)
deriving DecidableEq, Repr

/-- `can::filter`: the masks and the banks of a peripheral with the state `σ`, and the frames
`F` that they let through. -/
structure MasterFilters (σ M₁₆ M₃₂ F : Type) where
  /-- `Mask16::frames_with_std_id`. -/
  framesWithStdId16 : StandardId → StandardId → M₁₆
  /-- `Mask32::frames_with_std_id`. -/
  framesWithStdId : StandardId → StandardId → M₃₂
  /-- `Mask32::frames_with_ext_id`. -/
  framesWithExtId : ExtendedId → ExtendedId → M₃₂
  /-- `Mask32::accept_all`. -/
  acceptAll : M₃₂
  numBanks : σ → UInt8
  call : BankOp M₁₆ M₃₂ → σ → σ
  idOf : F → Id
  accepts16 : M₁₆ → F → Bool
  accepts32 : M₃₂ → F → Bool
  /-- What a bank is enabled with. -/
  bank : σ → UInt8 → Option (BankConfig M₁₆ M₃₂)
  accepts : σ → F → Bool

namespace MasterFilters

variable {σ M₁₆ M₃₂ F : Type} (D : MasterFilters σ M₁₆ M₃₂ F)

/-- A bank with two masks has them both. -/
def acceptsBank : BankConfig M₁₆ M₃₂ → F → Bool
  | .mask16 first second, frame => D.accepts16 first frame || D.accepts16 second frame
  | .mask32 mask, frame => D.accepts32 mask frame

/-- The comparison of a standard filter. -/
def matchesStd (id mask : StandardId) : Id → Bool
  | .standard fid => fid.raw &&& mask.raw = id.raw &&& mask.raw
  | .extended _ => false

/-- The comparison of an extended filter. -/
def matchesExt (id mask : ExtendedId) : Id → Bool
  | .standard _ => false
  | .extended fid => fid.raw &&& mask.raw = id.raw &&& mask.raw

/-- What the crate promises: the masks compare identifiers of their own width, and a frame is
accepted by the banks that are enabled. -/
structure Lawful : Prop where
  accepts16_std : ∀ id mask frame,
    D.accepts16 (D.framesWithStdId16 id mask) frame = matchesStd id mask (D.idOf frame)
  accepts32_std : ∀ id mask frame,
    D.accepts32 (D.framesWithStdId id mask) frame = matchesStd id mask (D.idOf frame)
  accepts32_ext : ∀ id mask frame,
    D.accepts32 (D.framesWithExtId id mask) frame = matchesExt id mask (D.idOf frame)
  accepts32_all : ∀ frame, D.accepts32 D.acceptAll frame = true
  numBanks_call : ∀ op s, D.numBanks (D.call op s) = D.numBanks s
  bank_clear : ∀ s i, D.bank (D.call .clear s) i = none
  bank_enableBank : ∀ s index config i, index < D.numBanks s →
    D.bank (D.call (.enableBank index config) s) i = if i = index then some config else D.bank s i
  accepts_iff : ∀ s frame, D.accepts s frame = true ↔
    ∃ i config, D.bank s i = some config ∧ D.acceptsBank config frame = true

/-- One call after the other. -/
def calls (ops : List (BankOp M₁₆ M₃₂)) (s : σ) : σ := ops.foldl (fun s op ↦ D.call op s) s

end MasterFilters

/-! ## The code -/

/-- The body of the first loop, on `required` and `pending_std`. -/
def countStep (c : Nat × Bool) (f : IdMaskFilter) : Except Error (Nat × Bool) :=
  match f.id, f.mask with
  | .standard _, .standard maskRaw =>
      if (StandardId.new maskRaw).isNone then .error .maskOutOfRange
      else if c.2 then .ok (c.1 + 1, false) else .ok (c.1, true)
  | .extended _, .extended maskRaw =>
      if (ExtendedId.new maskRaw).isNone then .error .maskOutOfRange
      else if c.2 then .ok (c.1 + 1 + 1, false) else .ok (c.1 + 1, false)
  | _, _ => .error .maskWidthMismatch

/-- The first loop. -/
def countLoop : Nat × Bool → List IdMaskFilter → Except Error (Nat × Bool)
  | c, [] => .ok c
  | c, f :: fs =>
      match countStep c f with
      | .error e => .error e
      | .ok c => countLoop c fs

/-- The counting pass. -/
def required (filters : List IdMaskFilter) : Except Error Nat :=
  match countLoop (0, false) filters with
  | .error e => .error e
  | .ok (required, pendingStd) => .ok (if pendingStd then required + 1 else required)

/-- `bank += 1` of a `u8`. -/
def nextBank (bank : UInt8) : Option UInt8 := if bank.toNat < 255 then some (bank + 1) else none

section Code

variable {σ M₁₆ M₃₂ F : Type} (D : MasterFilters σ M₁₆ M₃₂ F)

/-- The second loop, on `bank` and `pending_std`, with the calls made so far; `none` is an
overflow of `bank`. -/
def programLoop : UInt8 → Option (StandardId × StandardId) → List IdMaskFilter →
    List (BankOp M₁₆ M₃₂) → Option (Except Error Unit × List (BankOp M₁₆ M₃₂))
  | bank, some (id, mask), [], ops =>
      some (.ok (), ops ++ [.enableBank bank (.mask32 (D.framesWithStdId id mask))])
  | _, none, [], ops => some (.ok (), ops)
  | bank, pendingStd, f :: fs, ops =>
      match f.id, f.mask with
      | .standard id, .standard maskRaw =>
          match StandardId.new maskRaw with
          | none => some (.error .maskOutOfRange, ops)
          | some mask =>
              match pendingStd with
              | some (id2, mask2) =>
                  (nextBank bank).bind fun bank' ↦
                    programLoop bank' none fs (ops ++ [.enableBank bank
                      (.mask16 (D.framesWithStdId16 id2 mask2) (D.framesWithStdId16 id mask))])
              | none => programLoop bank (some (id, mask)) fs ops
      | .extended id, .extended maskRaw =>
          match ExtendedId.new maskRaw with
          | none => some (.error .maskOutOfRange, ops)
          | some mask =>
              match pendingStd with
              | some (stdId, stdMask) =>
                  (nextBank bank).bind fun bank' ↦ (nextBank bank').bind fun bank'' ↦
                    programLoop bank'' none fs (ops ++
                      [.enableBank bank (.mask32 (D.framesWithStdId stdId stdMask)),
                        .enableBank bank' (.mask32 (D.framesWithExtId id mask))])
              | none =>
                  (nextBank bank).bind fun bank' ↦
                    programLoop bank' none fs
                      (ops ++ [.enableBank bank (.mask32 (D.framesWithExtId id mask))])
      | _, _ => some (.error .maskWidthMismatch, ops)

/-- `set_filters`: its result and the calls it makes. -/
def setFilters (s : σ) (filters : List IdMaskFilter) :
    Option (Except Error Unit × List (BankOp M₁₆ M₃₂)) :=
  let bankLimit := (D.numBanks s).toNat
  if filters.isEmpty then some (.ok (), [.clear, .enableBank 0 (.mask32 D.acceptAll)])
  else
    match required filters with
    | .error e => some (.error e, [])
    | .ok required =>
        if required > bankLimit then some (.error .tooManyFilters, [])
        else programLoop D 0 none filters [.clear]

end Code

/-! ## Packing -/

/-- A filter whose mask has the width of its identifier, and fits it. -/
inductive Rule where
  | std (id mask : StandardId)
  | ext (id mask : ExtendedId)
deriving DecidableEq, Repr

/-- What a bank is for. -/
inductive Bank where
  | pair (id mask id' mask' : StandardId)
  | std (id mask : StandardId)
  | ext (id mask : ExtendedId)
deriving DecidableEq, Repr

/-- The identifier and the mask differ in width. -/
def Mismatched (f : IdMaskFilter) : Prop :=
  match f.id, f.mask with
  | .standard _, .standard _ => False
  | .extended _, .extended _ => False
  | _, _ => True

/-- The mask has a bit above its width. -/
def OutOfRange (f : IdMaskFilter) : Prop :=
  match f.mask with
  | .standard mask => 0x7FF < mask.toNat
  | .extended mask => 0x1FFFFFFF < mask.toNat

/-- The rule of a filter, if it has one. -/
def rule? (f : IdMaskFilter) : Option Rule :=
  match f.id, f.mask with
  | .standard id, .standard mask => (StandardId.new mask).map (.std id)
  | .extended id, .extended mask => (ExtendedId.new mask).map (.ext id)
  | _, _ => none

/-- Two standard rules that follow each other share a bank. -/
def pack : List Rule → List Bank
  | [] => []
  | .ext id mask :: rules => .ext id mask :: pack rules
  | .std id mask :: .std id' mask' :: rules => .pair id mask id' mask' :: pack rules
  | [.std id mask] => [.std id mask]
  | .std id mask :: .ext id' mask' :: rules => .std id mask :: .ext id' mask' :: pack rules

/-- The banks of a list of filters. -/
def banks (filters : List IdMaskFilter) : List Bank := pack (filters.filterMap rule?)

@[simp] theorem rule?_std (id : StandardId) (mask : UInt16) :
    rule? ⟨.standard id, .standard mask⟩ = (StandardId.new mask).map (.std id) := rfl

@[simp] theorem rule?_ext (id : ExtendedId) (mask : UInt32) :
    rule? ⟨.extended id, .extended mask⟩ = (ExtendedId.new mask).map (.ext id) := rfl

theorem countStep_std (c : Nat × Bool) (id : StandardId) (mask : UInt16) :
    countStep c ⟨.standard id, .standard mask⟩ =
      if (StandardId.new mask).isNone then .error .maskOutOfRange
      else if c.2 then .ok (c.1 + 1, false) else .ok (c.1, true) := rfl

theorem countStep_ext (c : Nat × Bool) (id : ExtendedId) (mask : UInt32) :
    countStep c ⟨.extended id, .extended mask⟩ =
      if (ExtendedId.new mask).isNone then .error .maskOutOfRange
      else if c.2 then .ok (c.1 + 1 + 1, false) else .ok (c.1 + 1, false) := rfl

theorem rule?_eq_none_iff (f : IdMaskFilter) : rule? f = none ↔ Mismatched f ∨ OutOfRange f := by
  obtain ⟨id, mask⟩ := f
  cases id with
  | standard id =>
      cases mask with
      | standard mask =>
          simp only [rule?, Mismatched, OutOfRange, StandardId.new, false_or, Option.map_eq_none_iff,
            dite_eq_right_iff, reduceCtorEq, imp_false, Nat.not_le]
      | extended mask => exact iff_of_true rfl (.inl trivial)
  | extended id =>
      cases mask with
      | standard mask => exact iff_of_true rfl (.inl trivial)
      | extended mask =>
          simp only [rule?, Mismatched, OutOfRange, ExtendedId.new, false_or, Option.map_eq_none_iff,
            dite_eq_right_iff, reduceCtorEq, imp_false, Nat.not_le]

/-- What becomes of a filter in both passes. -/
theorem rule?_cases (f : IdMaskFilter) :
    (∃ id maskRaw mask, f = ⟨.standard id, .standard maskRaw⟩ ∧ StandardId.new maskRaw = some mask ∧
        rule? f = some (.std id mask)) ∨
      (∃ id maskRaw mask, f = ⟨.extended id, .extended maskRaw⟩ ∧ ExtendedId.new maskRaw = some mask ∧
        rule? f = some (.ext id mask)) ∨
      rule? f = none ∧ ∀ c, ∃ e, countStep c f = .error e := by
  obtain ⟨id, mask⟩ := f
  cases id with
  | standard id =>
      cases mask with
      | standard maskRaw =>
          cases h : StandardId.new maskRaw with
          | some mask => exact .inl ⟨id, maskRaw, mask, rfl, h, by rw [rule?_std, h]; rfl⟩
          | none =>
              refine .inr (.inr ⟨by rw [rule?_std, h]; rfl, fun c ↦ ⟨.maskOutOfRange, ?_⟩⟩)
              rw [countStep_std, h]
              rfl
      | extended mask => exact .inr (.inr ⟨rfl, fun c ↦ ⟨_, rfl⟩⟩)
  | extended id =>
      cases mask with
      | standard mask => exact .inr (.inr ⟨rfl, fun c ↦ ⟨_, rfl⟩⟩)
      | extended maskRaw =>
          cases h : ExtendedId.new maskRaw with
          | some mask => exact .inr (.inl ⟨id, maskRaw, mask, rfl, h, by rw [rule?_ext, h]; rfl⟩)
          | none =>
              refine .inr (.inr ⟨by rw [rule?_ext, h]; rfl, fun c ↦ ⟨.maskOutOfRange, ?_⟩⟩)
              rw [countStep_ext, h]
              rfl

/-! ## The counting pass -/

/-- The rule that waits for its partner, in front of those to come. -/
def waiting : Option (StandardId × StandardId) → List Rule
  | none => []
  | some (id, mask) => [.std id mask]

/-- **The first pass counts the banks**, those of a waiting filter included. -/
theorem countLoop_eq {filters : List IdMaskFilter} (h : ∀ f ∈ filters, rule? f ≠ none)
    (n : Nat) (pendingStd : Option (StandardId × StandardId)) :
    ∃ m b, countLoop (n, pendingStd.isSome) filters = .ok (m, b) ∧
      (if b then m + 1 else m) = n + (pack (waiting pendingStd ++ filters.filterMap rule?)).length := by
  induction filters generalizing n pendingStd with
  | nil =>
      cases pendingStd with
      | none => exact ⟨n, false, rfl, rfl⟩
      | some p => exact ⟨n, true, rfl, rfl⟩
  | cons f fs ih =>
      have hfs : ∀ g ∈ fs, rule? g ≠ none := fun g hg ↦ h g (List.mem_cons_of_mem f hg)
      rw [List.filterMap_cons, countLoop]
      rcases rule?_cases f with ⟨id, maskRaw, mask, rfl, hnew, hrule⟩ |
        ⟨id, maskRaw, mask, rfl, hnew, hrule⟩ | ⟨hnone, -⟩
      · rw [countStep_std, hrule, hnew]
        cases pendingStd with
        | none =>
            obtain ⟨m, b, hloop, hm⟩ := ih hfs n (some (id, mask))
            exact ⟨m, b, hloop, hm⟩
        | some p =>
            obtain ⟨m, b, hloop, hm⟩ := ih hfs (n + 1) none
            refine ⟨m, b, hloop, ?_⟩
            rw [hm, Nat.add_assoc, Nat.add_comm 1]
            rfl
      · rw [countStep_ext, hrule, hnew]
        cases pendingStd with
        | none =>
            obtain ⟨m, b, hloop, hm⟩ := ih hfs (n + 1) none
            refine ⟨m, b, hloop, ?_⟩
            rw [hm, Nat.add_assoc, Nat.add_comm 1]
            rfl
        | some p =>
            obtain ⟨m, b, hloop, hm⟩ := ih hfs (n + 1 + 1) none
            refine ⟨m, b, hloop, ?_⟩
            rw [hm, Nat.add_assoc n 1 1, Nat.add_assoc, Nat.add_comm (1 + 1)]
            rfl
      · exact absurd hnone (h f List.mem_cons_self)

theorem countLoop_error {filters : List IdMaskFilter} {f : IdMaskFilter} (hf : f ∈ filters)
    (hnone : rule? f = none) (c : Nat × Bool) : ∃ e, countLoop c filters = .error e := by
  induction filters generalizing c with
  | nil => cases hf
  | cons g gs ih =>
      rw [countLoop]
      cases hg : countStep c g with
      | error e => exact ⟨e, rfl⟩
      | ok c' =>
          rcases List.mem_cons.mp hf with rfl | hmem
          · rcases rule?_cases f with ⟨_, _, _, -, -, hrule⟩ | ⟨_, _, _, -, -, hrule⟩ | ⟨-, herr⟩
            · cases hnone.symm.trans hrule
            · cases hnone.symm.trans hrule
            · obtain ⟨e, he⟩ := herr c
              cases he.symm.trans hg
          · exact ih hmem c'

/-- A list that can be packed needs as many banks as `required` says. -/
theorem required_eq {filters : List IdMaskFilter} (h : ∀ f ∈ filters, rule? f ≠ none) :
    required filters = .ok (banks filters).length := by
  obtain ⟨m, b, hloop, hm⟩ := countLoop_eq h 0 none
  change countLoop (0, false) filters = _ at hloop
  rw [required, hloop]
  exact congrArg Except.ok (hm.trans (Nat.zero_add _))

theorem required_error {filters : List IdMaskFilter} {f : IdMaskFilter} (hf : f ∈ filters)
    (hnone : rule? f = none) : ∃ e, required filters = .error e := by
  obtain ⟨e, he⟩ := countLoop_error hf hnone (0, false)
  rw [required, he]
  exact ⟨e, rfl⟩

/-! ## The programming pass -/

section Program

variable {σ M₁₆ M₃₂ F : Type} (D : MasterFilters σ M₁₆ M₃₂ F)

/-- What a bank is enabled with. -/
def Bank.config : Bank → BankConfig M₁₆ M₃₂
  | .pair id mask id' mask' =>
      .mask16 (D.framesWithStdId16 id mask) (D.framesWithStdId16 id' mask')
  | .std id mask => .mask32 (D.framesWithStdId id mask)
  | .ext id mask => .mask32 (D.framesWithExtId id mask)

/-- The banks are enabled one after the other, from `k` on. -/
def enables : Nat → List Bank → List (BankOp M₁₆ M₃₂)
  | _, [] => []
  | k, b :: bs => .enableBank (UInt8.ofNat k) (b.config D) :: enables (k + 1) bs

theorem enables_toNat (bank : UInt8) (b : Bank) (bs : List Bank) :
    enables D bank.toNat (b :: bs) = .enableBank bank (b.config D) :: enables D (bank.toNat + 1) bs := by
  rw [enables, UInt8.ofNat_toNat]

theorem nextBank_eq {bank : UInt8} (h : bank.toNat < 255) :
    ∃ bank', nextBank bank = some bank' ∧ bank'.toNat = bank.toNat + 1 := by
  refine ⟨bank + 1, if_pos h, ?_⟩
  rw [UInt8.toNat_add]
  exact Nat.mod_eq_of_lt (Nat.add_lt_add_right h 1)

/-- **The second pass enables the banks**, that of a waiting filter included. -/
theorem programLoop_eq {filters : List IdMaskFilter} (h : ∀ f ∈ filters, rule? f ≠ none)
    (bank : UInt8) (pendingStd : Option (StandardId × StandardId)) (ops : List (BankOp M₁₆ M₃₂))
    (hroom : bank.toNat + (pack (waiting pendingStd ++ filters.filterMap rule?)).length ≤ 255) :
    programLoop D bank pendingStd filters ops =
      some (.ok (), ops ++ enables D bank.toNat (pack (waiting pendingStd ++ filters.filterMap rule?))) := by
  induction filters generalizing bank pendingStd ops with
  | nil =>
      cases pendingStd with
      | none =>
          change _ = some (Except.ok (), ops ++ [])
          rw [programLoop, List.append_nil]
      | some p =>
          obtain ⟨id, mask⟩ := p
          change _ = some (Except.ok (), ops ++ enables D bank.toNat [.std id mask])
          rw [programLoop, enables_toNat]
          rfl
  | cons f fs ih =>
      have hfs : ∀ g ∈ fs, rule? g ≠ none := fun g hg ↦ h g (List.mem_cons_of_mem f hg)
      rw [List.filterMap_cons] at hroom ⊢
      rcases rule?_cases f with ⟨id, maskRaw, mask, rfl, hnew, hrule⟩ |
        ⟨id, maskRaw, mask, rfl, hnew, hrule⟩ | ⟨hnone, -⟩
      · rw [hrule] at hroom ⊢
        cases pendingStd with
        | none =>
            have hloop := ih hfs bank (some (id, mask)) ops hroom
            simp only [programLoop, hnew]
            exact hloop
        | some p =>
            obtain ⟨id2, mask2⟩ := p
            change bank.toNat + ((pack (fs.filterMap rule?)).length + 1) ≤ 255 at hroom
            obtain ⟨bank', hnext, hbank'⟩ := nextBank_eq (show bank.toNat < 255 by omega)
            have hloop := ih hfs bank' none (ops ++ [.enableBank bank (.mask16
              (D.framesWithStdId16 id2 mask2) (D.framesWithStdId16 id mask))])
              (show bank'.toNat + (pack (fs.filterMap rule?)).length ≤ 255 by omega)
            change _ = some (Except.ok (), ops ++
              enables D bank.toNat (.pair id2 mask2 id mask :: pack (fs.filterMap rule?)))
            simp only [programLoop, hnew, hnext, Option.bind_some, hloop, hbank', enables_toNat,
              List.append_assoc]
            rfl
      · rw [hrule] at hroom ⊢
        cases pendingStd with
        | none =>
            change bank.toNat + ((pack (fs.filterMap rule?)).length + 1) ≤ 255 at hroom
            obtain ⟨bank', hnext, hbank'⟩ := nextBank_eq (show bank.toNat < 255 by omega)
            have hloop := ih hfs bank' none
              (ops ++ [.enableBank bank (.mask32 (D.framesWithExtId id mask))])
              (show bank'.toNat + (pack (fs.filterMap rule?)).length ≤ 255 by omega)
            change _ = some (Except.ok (), ops ++
              enables D bank.toNat (.ext id mask :: pack (fs.filterMap rule?)))
            simp only [programLoop, hnew, hnext, Option.bind_some, hloop, hbank', enables_toNat,
              List.append_assoc]
            rfl
        | some p =>
            obtain ⟨stdId, stdMask⟩ := p
            change bank.toNat + ((pack (fs.filterMap rule?)).length + 1 + 1) ≤ 255 at hroom
            obtain ⟨bank', hnext, hbank'⟩ := nextBank_eq (show bank.toNat < 255 by omega)
            obtain ⟨bank'', hnext', hbank''⟩ := nextBank_eq (show bank'.toNat < 255 by omega)
            have hloop := ih hfs bank'' none
              (ops ++ [.enableBank bank (.mask32 (D.framesWithStdId stdId stdMask)),
                .enableBank bank' (.mask32 (D.framesWithExtId id mask))])
              (show bank''.toNat + (pack (fs.filterMap rule?)).length ≤ 255 by omega)
            change _ = some (Except.ok (), ops ++ enables D bank.toNat
              (.std stdId stdMask :: .ext id mask :: pack (fs.filterMap rule?)))
            simp only [programLoop, hnew, hnext, hnext', Option.bind_some, hloop, hbank'',
              enables_toNat, ← hbank', List.append_assoc]
            rfl
      · exact absurd hnone (h f List.mem_cons_self)

/-! ## The banks afterwards -/

variable {D}

/-- A bank that was enabled, or what was there before. -/
theorem bank_enables (hD : D.Lawful) {k : Nat} {bs : List Bank} {s : σ}
    (hroom : k + bs.length ≤ (D.numBanks s).toNat) (i : UInt8) :
    D.bank (D.calls (enables D k bs) s) i =
      ((if k ≤ i.toNat then bs[i.toNat - k]? else none).map (Bank.config D)).or (D.bank s i) := by
  induction bs generalizing k s with
  | nil =>
      have hnone : (if k ≤ i.toNat then ([] : List Bank)[i.toNat - k]? else none) = none := by
        split <;> rfl
      rw [hnone]
      rfl
  | cons b bs ih =>
      have hlt : (D.numBanks s).toNat < 256 := (D.numBanks s).toNat_lt
      rw [List.length_cons] at hroom
      have hk : (UInt8.ofNat k).toNat = k := UInt8.toNat_ofNat_of_lt' (show k < 256 by omega)
      have hindex : UInt8.ofNat k < D.numBanks s := by
        rw [UInt8.lt_iff_toNat_lt, hk]
        omega
      change D.bank (D.calls (enables D (k + 1) bs) (D.call (.enableBank (UInt8.ofNat k) _) s)) i = _
      rw [ih (by rw [hD.numBanks_call]; omega), hD.bank_enableBank s _ _ i hindex]
      rcases Nat.lt_trichotomy i.toNat k with hi | hi | hi
      · have hne : i ≠ UInt8.ofNat k := by
          intro h
          rw [h, hk] at hi
          exact Nat.lt_irrefl k hi
        rw [if_neg (show ¬k + 1 ≤ i.toNat by omega), if_neg (show ¬k ≤ i.toNat by omega), if_neg hne]
      · have heq : i = UInt8.ofNat k := UInt8.toNat_inj.mp (hi.trans hk.symm)
        rw [if_neg (show ¬k + 1 ≤ i.toNat by omega), if_pos (Nat.le_of_eq hi.symm), if_pos heq, hi,
          Nat.sub_self]
        rfl
      · have hne : i ≠ UInt8.ofNat k := by
          intro h
          rw [h, hk] at hi
          exact Nat.lt_irrefl k hi
        have hsub : i.toNat - k = i.toNat - (k + 1) + 1 := by omega
        rw [if_pos (show k + 1 ≤ i.toNat by omega), if_pos (Nat.le_of_lt hi), if_neg hne, hsub,
          List.getElem?_cons_succ]

/-- After `clear` only the banks that are enabled then are. -/
theorem bank_programmed (hD : D.Lawful) {bs : List Bank} {s : σ}
    (hroom : bs.length ≤ (D.numBanks s).toNat) (i : UInt8) :
    D.bank (D.calls (.clear :: enables D 0 bs) s) i = bs[i.toNat]?.map (Bank.config D) := by
  change D.bank (D.calls (enables D 0 bs) (D.call .clear s)) i = _
  rw [bank_enables hD (by rw [hD.numBanks_call]; omega), if_pos (Nat.zero_le _), hD.bank_clear,
    Option.or_none, Nat.sub_zero]

/-! ## Frames that are accepted -/

/-- The frames of a rule. -/
def Rule.accepts (id : Id) : Rule → Bool
  | .std fid mask => MasterFilters.matchesStd fid mask id
  | .ext fid mask => MasterFilters.matchesExt fid mask id

/-- The frames of a bank. -/
def Bank.accepts (id : Id) : Bank → Bool
  | .pair fid mask fid' mask' =>
      MasterFilters.matchesStd fid mask id || MasterFilters.matchesStd fid' mask' id
  | .std fid mask => MasterFilters.matchesStd fid mask id
  | .ext fid mask => MasterFilters.matchesExt fid mask id

theorem acceptsBank_config (hD : D.Lawful) (b : Bank) (frame : F) :
    D.acceptsBank (b.config D) frame = b.accepts (D.idOf frame) := by
  cases b with
  | pair id mask id' mask' =>
      exact congrArg₂ or (hD.accepts16_std id mask frame) (hD.accepts16_std id' mask' frame)
  | std id mask => exact hD.accepts32_std id mask frame
  | ext id mask => exact hD.accepts32_ext id mask frame

/-- Packing changes no frame. -/
theorem any_pack (id : Id) (rules : List Rule) :
    (pack rules).any (Bank.accepts id) = rules.any (Rule.accepts id) := by
  fun_induction pack rules with
  | case1 => rfl
  | case2 fid mask rules ih => rw [List.any_cons, List.any_cons, ih]; rfl
  | case3 fid mask fid' mask' rules ih =>
      rw [List.any_cons, List.any_cons, List.any_cons, ih, ← Bool.or_assoc]
      rfl
  | case4 fid mask => rfl
  | case5 fid mask fid' mask' rules ih =>
      rw [List.any_cons, List.any_cons, List.any_cons, List.any_cons, ih]
      rfl

/-- A rule compares as its filter does. -/
theorem accepts_of_rule? {f : IdMaskFilter} {r : Rule} (h : rule? f = some r) (id : Id) :
    r.accepts id = filterMatch f id := by
  rcases rule?_cases f with ⟨fid, maskRaw, mask, rfl, hnew, hrule⟩ |
    ⟨fid, maskRaw, mask, rfl, hnew, hrule⟩ | ⟨hnone, -⟩
  · obtain rfl := Option.some.inj (h.symm.trans hrule)
    rw [StandardId.new] at hnew
    split at hnew
    · obtain rfl := Option.some.inj hnew
      cases id with
      | standard | extended => rfl
    · cases hnew
  · obtain rfl := Option.some.inj (h.symm.trans hrule)
    rw [ExtendedId.new] at hnew
    split at hnew
    · obtain rfl := Option.some.inj hnew
      cases id with
      | standard | extended => rfl
    · cases hnew
  · cases hnone.symm.trans h

theorem any_banks {filters : List IdMaskFilter} (h : ∀ f ∈ filters, rule? f ≠ none) (id : Id) :
    (banks filters).any (Bank.accepts id) = filters.any fun f ↦ filterMatch f id := by
  rw [banks, any_pack]
  induction filters with
  | nil => rfl
  | cons f fs ih =>
      rw [List.filterMap_cons, List.any_cons, ← ih fun g hg ↦ h g (List.mem_cons_of_mem f hg)]
      cases hf : rule? f with
      | none => exact absurd hf (h f List.mem_cons_self)
      | some r => rw [List.any_cons, accepts_of_rule? hf]

/-! ## `set_filters` -/

/-- The bank that a call enables. -/
def BankOp.index? : BankOp M₁₆ M₃₂ → Option UInt8
  | .clear => none
  | .enableBank index _ => some index

/-- The banks that calls enable, in order. -/
def indices (ops : List (BankOp M₁₆ M₃₂)) : List UInt8 := ops.filterMap BankOp.index?

/-- The filters cannot be set. -/
def Refused (D : MasterFilters σ M₁₆ M₃₂ F) (s : σ) (filters : List IdMaskFilter) : Prop :=
  (∃ f ∈ filters, Mismatched f ∨ OutOfRange f) ∨ (D.numBanks s).toNat < (banks filters).length

/-- The filters have been set by `ops`. -/
structure Programmed (D : MasterFilters σ M₁₆ M₃₂ F) (s : σ) (filters : List IdMaskFilter)
    (ops : List (BankOp M₁₆ M₃₂)) : Prop where
  /-- The first pass has counted what the second one enables. -/
  required_eq : filters ≠ [] → required filters = .ok (indices ops).length
  /-- The banks from 0 on, each of them once. -/
  indices_eq : (indices ops).map UInt8.toNat = List.range (indices ops).length
  index_lt : ∀ i ∈ indices ops, i < D.numBanks s
  /-- No other bank is enabled. -/
  enabled_iff : ∀ i, (D.bank (D.calls ops s) i).isSome = true ↔ i ∈ indices ops
  accepts_eq : ∀ frame, D.accepts (D.calls ops s) frame =
    (filters.isEmpty || filters.any fun f ↦ filterMatch f (D.idOf frame))

theorem indices_enables (k : Nat) (bs : List Bank) :
    indices (enables D k bs) = (List.range' k bs.length).map UInt8.ofNat := by
  induction bs generalizing k with
  | nil => rfl
  | cons b bs ih =>
      rw [List.length_cons, List.range'_succ, List.map_cons, ← ih]
      rfl

theorem toNat_indices {bs : List Bank} (h : bs.length < 256) :
    (indices (.clear :: enables D 0 bs)).map UInt8.toNat = List.range bs.length := by
  change (indices (enables D 0 bs)).map _ = _
  rw [indices_enables, List.map_map, List.range_eq_range']
  refine (List.map_congr_left ?_).trans (List.map_id _)
  intro k hk
  obtain ⟨-, hlt⟩ := List.mem_range'_1.mp hk
  exact UInt8.toNat_ofNat_of_lt' (show k < 256 by omega)

theorem mem_indices_iff {bs : List Bank} (h : bs.length < 256) (i : UInt8) :
    i ∈ indices (.clear :: enables D 0 bs) ↔ i.toNat < bs.length := by
  rw [← List.mem_range, ← toNat_indices h]
  exact (List.mem_map_of_injective fun a b hab ↦ UInt8.toNat_inj.mp hab).symm

/-- A frame is accepted by one of the banks. -/
theorem accepts_programmed (hD : D.Lawful) {bs : List Bank} {s : σ}
    (hroom : bs.length ≤ (D.numBanks s).toNat) (frame : F) :
    D.accepts (D.calls (.clear :: enables D 0 bs) s) frame = bs.any (Bank.accepts (D.idOf frame)) := by
  have hlt : (D.numBanks s).toNat < 256 := (D.numBanks s).toNat_lt
  rw [Bool.eq_iff_iff, hD.accepts_iff, List.any_eq_true]
  constructor
  · rintro ⟨i, config, hbank, haccepts⟩
    rw [bank_programmed hD hroom, Option.map_eq_some_iff] at hbank
    obtain ⟨b, hb, rfl⟩ := hbank
    exact ⟨b, List.mem_of_getElem? hb, acceptsBank_config hD b frame ▸ haccepts⟩
  · rintro ⟨b, hb, haccepts⟩
    obtain ⟨n, hn, rfl⟩ := List.mem_iff_getElem.mp hb
    have hi : (UInt8.ofNat n).toNat = n := UInt8.toNat_ofNat_of_lt' (show n < 256 by omega)
    refine ⟨UInt8.ofNat n, bs[n].config D, ?_, ?_⟩
    · rw [bank_programmed hD hroom, hi, List.getElem?_eq_getElem hn]
      rfl
    · rw [acceptsBank_config hD]
      exact haccepts

/-- The calls for the empty list. -/
theorem programmed_nil (hD : D.Lawful) {s : σ} (hbanks : 0 < (D.numBanks s).toNat) :
    Programmed D s [] [.clear, .enableBank 0 (.mask32 D.acceptAll)] := by
  have hzero : (0 : UInt8) < D.numBanks s := UInt8.lt_iff_toNat_lt.mpr hbanks
  have hbank (i : UInt8) :
      D.bank (D.calls [.clear, .enableBank 0 (.mask32 D.acceptAll)] s) i =
        if i = 0 then some (.mask32 D.acceptAll) else none := by
    change D.bank (D.call (.enableBank 0 _) (D.call .clear s)) i = _
    rw [hD.bank_enableBank _ _ _ i (by rw [hD.numBanks_call]; exact hzero), hD.bank_clear]
  refine ⟨fun hne ↦ absurd rfl hne, rfl, ?_, ?_, ?_⟩
  · intro i hi
    obtain rfl : i = 0 := List.mem_singleton.mp hi
    exact hzero
  · intro i
    rw [hbank]
    change _ ↔ i ∈ [0]
    rw [List.mem_singleton]
    split
    · next hi => exact iff_of_true rfl hi
    · next hi => exact iff_of_false nofun hi
  · intro frame
    refine (hD.accepts_iff _ _).mpr ⟨0, .mask32 D.acceptAll, ?_, hD.accepts32_all frame⟩
    rw [hbank, if_pos rfl]

/-- The calls for any other list. -/
theorem programmed_cons (hD : D.Lawful) {s : σ} {filters : List IdMaskFilter} (hne : filters ≠ [])
    (hrules : ∀ f ∈ filters, rule? f ≠ none)
    (hroom : (banks filters).length ≤ (D.numBanks s).toNat) :
    Programmed D s filters (.clear :: enables D 0 (banks filters)) := by
  have hlt : (banks filters).length < 256 := Nat.lt_of_le_of_lt hroom (D.numBanks s).toNat_lt
  have hlen : (indices (.clear :: enables D 0 (banks filters))).length = (banks filters).length := by
    have := congrArg List.length (toNat_indices (D := D) hlt)
    rwa [List.length_map, List.length_range] at this
  refine ⟨?_, ?_, ?_, ?_, ?_⟩
  · intro _
    rw [hlen]
    exact required_eq hrules
  · rw [hlen]
    exact toNat_indices hlt
  · intro i hi
    rw [UInt8.lt_iff_toNat_lt]
    exact Nat.lt_of_lt_of_le ((mem_indices_iff hlt i).mp hi) hroom
  · intro i
    rw [bank_programmed hD hroom, mem_indices_iff hlt, Option.isSome_map]
    simp
  · intro frame
    rw [accepts_programmed hD hroom, any_banks hrules, List.isEmpty_eq_false_iff.mpr hne]
    rfl

/-- A filter has a rule unless it is malformed. -/
theorem rules_of_not_refused {s : σ} {filters : List IdMaskFilter} (h : ¬Refused D s filters) :
    ∀ f ∈ filters, rule? f ≠ none :=
  fun f hf hnone ↦ h (.inl ⟨f, hf, (rule?_eq_none_iff f).mp hnone⟩)

/-- The two ends of `set_filters`. -/
theorem setFilters_cases (hD : D.Lawful) {s : σ} (hbanks : 0 < (D.numBanks s).toNat)
    (filters : List IdMaskFilter) :
    (Refused D s filters ∧ ∃ e, setFilters D s filters = some (.error e, [])) ∨
      ¬Refused D s filters ∧
        ∃ ops, setFilters D s filters = some (.ok (), ops) ∧ Programmed D s filters ops := by
  by_cases hne : filters = []
  · subst hne
    refine .inr ⟨?_, _, rfl, programmed_nil hD hbanks⟩
    rintro (⟨f, hf, -⟩ | hlt)
    · cases hf
    · cases hlt
  have hempty : ¬filters.isEmpty = true := by rwa [List.isEmpty_iff]
  rw [setFilters, if_neg hempty]
  by_cases hrefused : Refused D s filters
  · refine .inl ⟨hrefused, ?_⟩
    by_cases hbad : ∃ f ∈ filters, Mismatched f ∨ OutOfRange f
    · obtain ⟨f, hf, hbad⟩ := hbad
      obtain ⟨e, he⟩ := required_error hf ((rule?_eq_none_iff f).mpr hbad)
      exact ⟨e, by rw [he]⟩
    · have hrules : ∀ f ∈ filters, rule? f ≠ none :=
        fun f hf hnone ↦ hbad ⟨f, hf, (rule?_eq_none_iff f).mp hnone⟩
      have hlt := hrefused.resolve_left hbad
      exact ⟨.tooManyFilters, by rw [required_eq hrules]; exact if_pos hlt⟩
  · have hrules := rules_of_not_refused hrefused
    have hroom : (banks filters).length ≤ (D.numBanks s).toNat :=
      Nat.not_lt.mp fun hlt ↦ hrefused (.inr hlt)
    have hlt : (D.numBanks s).toNat < 256 := (D.numBanks s).toNat_lt
    refine .inr ⟨hrefused, _, ?_, programmed_cons hD hne hrules hroom⟩
    rw [required_eq hrules]
    refine (if_neg (Nat.not_lt.mpr hroom)).trans ?_
    exact programLoop_eq D hrules 0 none [.clear] (show 0 + (banks filters).length ≤ 255 by omega)

/-- **`set_filters` is exact and atomic.**  It fails, and makes no call, if and only if a filter
is malformed or the banks do not suffice; otherwise its passes agree, the banks it enables are
the first ones, and the frames that are accepted are those of the filters. -/
theorem setFilters_packs (hD : D.Lawful) {s : σ} (hbanks : 0 < (D.numBanks s).toNat)
    (filters : List IdMaskFilter) :
    ((∃ e ops, setFilters D s filters = some (.error e, ops)) ↔ Refused D s filters) ∧
      (∀ e ops, setFilters D s filters = some (.error e, ops) → ops = [] ∧ D.calls ops s = s) ∧
      (¬Refused D s filters →
        ∃ ops, setFilters D s filters = some (.ok (), ops) ∧ Programmed D s filters ops) := by
  rcases setFilters_cases hD hbanks filters with ⟨hrefused, e, herr⟩ | ⟨hnot, ops, hok, hset⟩
  · refine ⟨iff_of_true ⟨e, [], herr⟩ hrefused, ?_, fun hnot ↦ absurd hrefused hnot⟩
    intro e' ops hops
    obtain ⟨-, rfl⟩ := Prod.mk.inj (Option.some.inj (herr.symm.trans hops))
    exact ⟨rfl, rfl⟩
  · refine ⟨iff_of_false ?_ hnot, ?_, fun _ ↦ ⟨ops, hok, hset⟩⟩
    · rintro ⟨e, ops', herr⟩
      cases hok.symm.trans herr
    · intro e ops' herr
      cases hok.symm.trans herr

end Program

/-! ## A peripheral -/

/-- Masks that are the rules themselves; `none` is the one that lets everything through. -/
def ruleFilters (n : UInt8) :
    MasterFilters (UInt8 → Option (BankConfig Rule (Option Rule))) Rule (Option Rule) Id where
  framesWithStdId16 := .std
  framesWithStdId id mask := some (.std id mask)
  framesWithExtId id mask := some (.ext id mask)
  acceptAll := none
  numBanks _ := n
  call
    | .clear, _ => fun _ ↦ none
    | .enableBank index config, s => Function.update s index (some config)
  idOf := id
  accepts16 rule frame := rule.accepts frame
  accepts32 rule frame := rule.elim true (Rule.accepts frame)
  bank s i := s i
  accepts s frame := (List.range 256).any fun i ↦ (s (UInt8.ofNat i)).any fun
    | .mask16 first second => first.accepts frame || second.accepts frame
    | .mask32 rule => rule.elim true (Rule.accepts frame)

theorem ruleFilters_lawful (n : UInt8) : (ruleFilters n).Lawful where
  accepts16_std _ _ _ := rfl
  accepts32_std _ _ _ := rfl
  accepts32_ext _ _ _ := rfl
  accepts32_all _ := rfl
  numBanks_call _ _ := rfl
  bank_clear _ _ := rfl
  bank_enableBank s index config i _ := by
    change Function.update s index (some config) i = _
    rw [Function.update_apply]
    rfl
  accepts_iff s frame := by
    refine List.any_eq_true.trans ?_
    constructor
    · rintro ⟨i, -, hany⟩
      obtain ⟨config, hconfig, haccepts⟩ := (Option.any_eq_true ..).mp hany
      refine ⟨UInt8.ofNat i, config, hconfig, ?_⟩
      cases config with
      | mask16 | mask32 => exact haccepts
    · rintro ⟨i, config, hconfig, haccepts⟩
      refine ⟨i.toNat, List.mem_range.mpr i.toNat_lt, (Option.any_eq_true ..).mpr ⟨config, ?_, ?_⟩⟩
      · rw [UInt8.ofNat_toNat]
        exact hconfig
      · cases config with
        | mask16 | mask32 => exact haccepts

/-- Two standard filters that share a bank, an extended one, and one that is left alone. -/
def sampleFilters : List IdMaskFilter :=
  [⟨.standard ⟨0x110, by decide⟩, .standard 0x7FF⟩, ⟨.standard ⟨0x200, by decide⟩, .standard 0x700⟩,
    ⟨.extended ⟨0x18DA0000, by decide⟩, .extended 0x1FFF0000⟩,
    ⟨.standard ⟨0x300, by decide⟩, .standard 0x7FF⟩]

theorem setFilters_packs_sample :
    ∃ ops, setFilters (ruleFilters 14) (fun _ ↦ none) sampleFilters = some (.ok (), ops) ∧
      (indices ops).length = 3 ∧ Programmed (ruleFilters 14) (fun _ ↦ none) sampleFilters ops := by
  have hrules : ∀ f ∈ sampleFilters, rule? f ≠ none := by decide
  have hlen : (banks sampleFilters).length = 3 := by decide
  have hnot : ¬Refused (ruleFilters 14) (fun _ ↦ none) sampleFilters := by
    rintro (⟨f, hf, hbad⟩ | hlt)
    · exact hrules f hf ((rule?_eq_none_iff f).mpr hbad)
    · rw [hlen] at hlt
      cases hlt.not_ge (by decide)
  obtain ⟨ops, hops, hset⟩ :=
    (setFilters_packs (ruleFilters_lawful 14) (by decide) sampleFilters).2.2 hnot
  refine ⟨ops, hops, ?_, hset⟩
  have hcount := hset.required_eq nofun
  rw [required_eq hrules, hlen] at hcount
  exact (Except.ok.inj hcount).symm

end Thincan.EmbassyStm32
