import Thincan.EmbassyStm32.Filters
import Thincan.UnixSocket.RoundTrip

/-!
# Acceptance filters of FDCAN

`embedded-can-embassy-stm32/src/fdcan.rs`.  The peripheral has two tables of filter elements,
one for each width of identifiers.  `set_filters` fills two arrays from the front and writes
them to the tables in the end, so that a list it refuses leaves the peripheral as it was.

The error is that of the first filter that cannot be set.  Unlike on bxCAN a full table comes
before a mask that is out of range, and the widths do not share their room.

The tables are those of the crate `embassy-stm32`; what is used of them is `Properties`.  What
becomes of a frame that no element takes is a setting of its own, which `set_filters` leaves
alone.
-/

namespace Thincan.EmbassyStm32.Fdcan

open UnixSocket

variable {σ S E F : Type}

/-! ## The tables -/

/-- `StandardFilter` and `ExtendedFilter`: the elements that are made, and the frames they put
into the queue. -/
structure Elements (E Raw F : Type) where
  disable : E
  acceptAllIntoFifo0 : E
  /-- A filter with the type `BitMask` and the action `StoreInFifo0`. -/
  bitMask (filter mask : Raw) : E
  takes : E → F → Bool

/-- An element of one of the three kinds. -/
def Elements.Made {Raw : Type} (P : Elements E Raw F) (e : E) : Prop :=
  e = P.disable ∨ e = P.acceptAllIntoFifo0 ∨ ∃ filter mask, e = P.bitMask filter mask

/-- `can::Properties` of a peripheral with the state `σ`, and the frames `F` it lets through. -/
structure Properties (σ S E F : Type) where
  std : Elements S UInt16 F
  ext : Elements E UInt32 F
  /-- `STANDARD_FILTER_MAX`. -/
  standardFilterMax : Nat
  /-- `EXTENDED_FILTER_MAX`. -/
  extendedFilterMax : Nat
  standardFilterMax_pos : 0 < standardFilterMax
  extendedFilterMax_pos : 0 < extendedFilterMax
  setStandardFilters : Vector S standardFilterMax → σ → σ
  setExtendedFilters : Vector E extendedFilterMax → σ → σ
  idOf : F → Id
  accepts : σ → F → Bool
  /-- The frames that get through when no element takes them. -/
  nonMatching : σ → F → Bool

namespace Properties

/-- Both tables are written. -/
def write (P : Properties σ S E F) (std : Vector S P.standardFilterMax)
    (ext : Vector E P.extendedFilterMax) (s : σ) : σ :=
  P.setExtendedFilters ext (P.setStandardFilters std s)

/-- What the crate promises: the elements compare identifiers of their own width, and a frame is
accepted if an element takes it. -/
structure Lawful (P : Properties σ S E F) : Prop where
  std_disable : ∀ frame, P.std.takes P.std.disable frame = false
  std_acceptAll : ∀ frame id, P.idOf frame = .standard id →
    P.std.takes P.std.acceptAllIntoFifo0 frame = true
  std_bitMask : ∀ filter mask frame, P.std.takes (P.std.bitMask filter mask) frame =
    match P.idOf frame with
    | .standard id => decide (id.raw &&& mask = filter &&& mask)
    | .extended _ => false
  ext_disable : ∀ frame, P.ext.takes P.ext.disable frame = false
  ext_acceptAll : ∀ frame id, P.idOf frame = .extended id →
    P.ext.takes P.ext.acceptAllIntoFifo0 frame = true
  ext_bitMask : ∀ filter mask frame, P.ext.takes (P.ext.bitMask filter mask) frame =
    match P.idOf frame with
    | .standard _ => false
    | .extended id => decide (id.raw &&& mask = filter &&& mask)
  accepts_write : ∀ std ext s frame,
    (∀ e ∈ std.toList, P.std.Made e) → (∀ e ∈ ext.toList, P.ext.Made e) →
      P.accepts (P.write std ext s) frame =
        ((std.toList.any fun e ↦ P.std.takes e frame) ||
          (ext.toList.any fun e ↦ P.ext.takes e frame) || P.nonMatching s frame)
  nonMatching_write : ∀ std ext s, P.nonMatching (P.write std ext s) = P.nonMatching s

end Properties

/-! ## The code -/

section Code

variable (P : Properties σ S E F)

/-- `std` and `ext`, and how far they are filled. -/
structure Arrays where
  std : Vector S P.standardFilterMax := .replicate _ P.std.disable
  ext : Vector E P.extendedFilterMax := .replicate _ P.ext.disable
  stdI : Nat := 0
  extI : Nat := 0

variable {P}

/-- The body of the loop. -/
def Arrays.add (x : Arrays P) (f : IdMaskFilter) : Except Error (Arrays P) :=
  match f.id, f.mask with
  | .standard id, .standard mask =>
      if h : x.stdI ≥ P.standardFilterMax then .error .tooManyFilters
      else if (StandardId.new mask).isNone then .error .maskOutOfRange
      else
        .ok { x with
          std := x.std.set x.stdI (P.std.bitMask id.raw mask) (Nat.not_le.mp h)
          stdI := x.stdI + 1 }
  | .extended id, .extended mask =>
      if h : x.extI ≥ P.extendedFilterMax then .error .tooManyFilters
      else if (ExtendedId.new mask).isNone then .error .maskOutOfRange
      else
        .ok { x with
          ext := x.ext.set x.extI (P.ext.bitMask id.raw mask) (Nat.not_le.mp h)
          extI := x.extI + 1 }
  | _, _ => .error .maskWidthMismatch

/-- The loop. -/
def Arrays.addAll : Arrays P → List IdMaskFilter → Except Error (Arrays P)
  | x, [] => .ok x
  | x, f :: fs =>
      match x.add f with
      | .error e => .error e
      | .ok x => x.addAll fs

variable (P)

/-- `set_filters`. -/
def setFilters (s : σ) (filters : List IdMaskFilter) : Except Error Unit × σ :=
  let x : Arrays P := {}
  if filters.isEmpty then
    let std := x.std.set 0 P.std.acceptAllIntoFifo0 P.standardFilterMax_pos
    let ext := x.ext.set 0 P.ext.acceptAllIntoFifo0 P.extendedFilterMax_pos
    (.ok (), P.write std ext s)
  else
    match x.addAll filters with
    | .error e => (.error e, s)
    | .ok x => (.ok (), P.write x.std x.ext s)

end Code

/-! ## What the arrays hold -/

section Arrays

variable (P : Properties σ S E F)

/-- The element of a standard filter. -/
def stdElement (f : IdMaskFilter) : Option S :=
  match rule? f with
  | some (.std id mask) => some (P.std.bitMask id.raw mask.raw)
  | _ => none

/-- The element of an extended filter. -/
def extElement (f : IdMaskFilter) : Option E :=
  match rule? f with
  | some (.ext id mask) => some (P.ext.bitMask id.raw mask.raw)
  | _ => none

/-- The elements of one width, in order. -/
def stdElements (filters : List IdMaskFilter) : List S := filters.filterMap (stdElement P)

def extElements (filters : List IdMaskFilter) : List E := filters.filterMap (extElement P)

/-- An array that holds `es`, from the front. -/
structure Holds {α : Type} {n : Nat} (disable : α) (xs : Vector α n) (i : Nat) (es : List α) :
    Prop where
  index : i = es.length
  le : es.length ≤ n
  toList : xs.toList = es ++ List.replicate (n - es.length) disable

/-- The arrays hold the filters. -/
structure Filled (filters : List IdMaskFilter) (x : Arrays P) : Prop where
  rules : ∀ f ∈ filters, rule? f ≠ none
  std : Holds P.std.disable x.std x.stdI (stdElements P filters)
  ext : Holds P.ext.disable x.ext x.extI (extElements P filters)

/-- Why a filter cannot be set after others. -/
inductive Fault (before : List IdMaskFilter) (f : IdMaskFilter) : Error → Prop where
  | tooManyStd (id : StandardId) (mask : UInt16) (h : f = ⟨.standard id, .standard mask⟩)
      (full : (stdElements P before).length = P.standardFilterMax) : Fault before f .tooManyFilters
  | tooManyExt (id : ExtendedId) (mask : UInt32) (h : f = ⟨.extended id, .extended mask⟩)
      (full : (extElements P before).length = P.extendedFilterMax) : Fault before f .tooManyFilters
  | outOfRangeStd (id : StandardId) (mask : UInt16) (h : f = ⟨.standard id, .standard mask⟩)
      (room : (stdElements P before).length < P.standardFilterMax) (range : OutOfRange f) :
      Fault before f .maskOutOfRange
  | outOfRangeExt (id : ExtendedId) (mask : UInt32) (h : f = ⟨.extended id, .extended mask⟩)
      (room : (extElements P before).length < P.extendedFilterMax) (range : OutOfRange f) :
      Fault before f .maskOutOfRange
  | mismatch (h : Mismatched f) : Fault before f .maskWidthMismatch

variable {P}

theorem Holds.replicate {α : Type} {n : Nat} (disable : α) :
    Holds disable (Vector.replicate n disable) 0 [] where
  index := rfl
  le := Nat.zero_le n
  toList := by simp

/-- One more element. -/
theorem Holds.set {α : Type} {n i : Nat} {disable : α} {xs : Vector α n} {es : List α}
    (h : Holds disable xs i es) (e : α) (hi : i < n) :
    Holds disable (xs.set i e hi) (i + 1) (es ++ [e]) where
  index := by rw [h.index, List.length_append, List.length_singleton]
  le := by
    rw [List.length_append, List.length_singleton, ← h.index]
    exact hi
  toList := by
    have hroom : n - es.length = (n - (es.length + 1)) + 1 := by
      have := h.index
      omega
    rw [Vector.toList_set, h.toList, h.index, List.set_append_right _ _ (Nat.le_refl _),
      Nat.sub_self, hroom, List.replicate_succ, List.set_cons_zero, List.append_assoc,
      List.length_append, List.length_singleton, List.singleton_append]

theorem Filled.nil : Filled P [] ({} : Arrays P) where
  rules := nofun
  std := .replicate _
  ext := .replicate _

theorem stdElements_snoc (filters : List IdMaskFilter) (f : IdMaskFilter) :
    stdElements P (filters ++ [f]) = stdElements P filters ++ (stdElement P f).toList := by
  rw [stdElements, List.filterMap_append]
  cases hf : stdElement P f with
  | none => rw [List.filterMap_cons_none hf]; rfl
  | some e => rw [List.filterMap_cons_some hf]; rfl

theorem extElements_snoc (filters : List IdMaskFilter) (f : IdMaskFilter) :
    extElements P (filters ++ [f]) = extElements P filters ++ (extElement P f).toList := by
  rw [extElements, List.filterMap_append]
  cases hf : extElement P f with
  | none => rw [List.filterMap_cons_none hf]; rfl
  | some e => rw [List.filterMap_cons_some hf]; rfl

/-- The turn of a standard filter. -/
theorem Arrays.add_std (x : Arrays P) (id : StandardId) (mask : UInt16) :
    x.add ⟨.standard id, .standard mask⟩ =
      if h : x.stdI ≥ P.standardFilterMax then .error .tooManyFilters
      else if (StandardId.new mask).isNone then .error .maskOutOfRange
      else .ok { x with
        std := x.std.set x.stdI (P.std.bitMask id.raw mask) (Nat.not_le.mp h)
        stdI := x.stdI + 1 } := rfl

/-- The turn of an extended filter. -/
theorem Arrays.add_ext (x : Arrays P) (id : ExtendedId) (mask : UInt32) :
    x.add ⟨.extended id, .extended mask⟩ =
      if h : x.extI ≥ P.extendedFilterMax then .error .tooManyFilters
      else if (ExtendedId.new mask).isNone then .error .maskOutOfRange
      else .ok { x with
        ext := x.ext.set x.extI (P.ext.bitMask id.raw mask) (Nat.not_le.mp h)
        extI := x.extI + 1 } := rfl

/-- **One turn of the loop** adds the element of the filter, or finds its fault. -/
theorem Filled.add {filters : List IdMaskFilter} {x : Arrays P} (hx : Filled P filters x)
    (f : IdMaskFilter) :
    (∃ x', x.add f = .ok x' ∧ Filled P (filters ++ [f]) x') ∨
      ∃ e, x.add f = .error e ∧ Fault P filters f e := by
  have hrules (hf : rule? f ≠ none) : ∀ g ∈ filters ++ [f], rule? g ≠ none :=
    List.forall_mem_append.mpr ⟨hx.rules, List.forall_mem_singleton.mpr hf⟩
  rcases rule?_cases f with ⟨id, maskRaw, mask, rfl, hnew, hrule⟩ |
    ⟨id, maskRaw, mask, rfl, hnew, hrule⟩ | ⟨hnone, -⟩
  · rw [Arrays.add_std]
    by_cases hfull : x.stdI ≥ P.standardFilterMax
    · rw [dif_pos hfull]
      refine .inr ⟨_, rfl, .tooManyStd id maskRaw rfl ?_⟩
      exact Nat.le_antisymm hx.std.le (hx.std.index ▸ hfull)
    · rw [dif_neg hfull, hnew]
      refine .inl ⟨_, rfl, hrules (by rw [hrule]; exact Option.some_ne_none _), ?_, ?_⟩
      · rw [stdElements_snoc, stdElement, hrule]
        have hmask : mask.raw = maskRaw := StandardId.raw_of_new hnew
        rw [← hmask]
        exact hx.std.set _ (Nat.not_le.mp hfull)
      · rw [extElements_snoc, extElement, hrule, Option.toList_none, List.append_nil]
        exact hx.ext
  · rw [Arrays.add_ext]
    by_cases hfull : x.extI ≥ P.extendedFilterMax
    · rw [dif_pos hfull]
      refine .inr ⟨_, rfl, .tooManyExt id maskRaw rfl ?_⟩
      exact Nat.le_antisymm hx.ext.le (hx.ext.index ▸ hfull)
    · rw [dif_neg hfull, hnew]
      refine .inl ⟨_, rfl, hrules (by rw [hrule]; exact Option.some_ne_none _), ?_, ?_⟩
      · rw [stdElements_snoc, stdElement, hrule, Option.toList_none, List.append_nil]
        exact hx.std
      · rw [extElements_snoc, extElement, hrule]
        have hmask : mask.raw = maskRaw := ExtendedId.raw_of_new hnew
        rw [← hmask]
        exact hx.ext.set _ (Nat.not_le.mp hfull)
  · have hfault : Mismatched f ∨ OutOfRange f := (rule?_eq_none_iff f).mp hnone
    obtain ⟨id, mask⟩ := f
    cases id with
    | standard id =>
        cases mask with
        | standard mask =>
            rw [rule?_std, Option.map_eq_none_iff] at hnone
            rw [Arrays.add_std]
            by_cases hfull : x.stdI ≥ P.standardFilterMax
            · rw [dif_pos hfull]
              refine .inr ⟨_, rfl, .tooManyStd id mask rfl ?_⟩
              exact Nat.le_antisymm hx.std.le (hx.std.index ▸ hfull)
            · rw [dif_neg hfull, hnone]
              refine .inr ⟨_, rfl, .outOfRangeStd id mask rfl ?_ (hfault.resolve_left False.elim)⟩
              exact hx.std.index ▸ Nat.not_le.mp hfull
        | extended mask => exact .inr ⟨_, rfl, .mismatch trivial⟩
    | extended id =>
        cases mask with
        | standard mask => exact .inr ⟨_, rfl, .mismatch trivial⟩
        | extended mask =>
            rw [rule?_ext, Option.map_eq_none_iff] at hnone
            rw [Arrays.add_ext]
            by_cases hfull : x.extI ≥ P.extendedFilterMax
            · rw [dif_pos hfull]
              refine .inr ⟨_, rfl, .tooManyExt id mask rfl ?_⟩
              exact Nat.le_antisymm hx.ext.le (hx.ext.index ▸ hfull)
            · rw [dif_neg hfull, hnone]
              refine .inr ⟨_, rfl, .outOfRangeExt id mask rfl ?_ (hfault.resolve_left False.elim)⟩
              exact hx.ext.index ▸ Nat.not_le.mp hfull

/-- **The loop** adds the elements of all filters, or stops at the first that has a fault. -/
theorem Filled.addAll {before : List IdMaskFilter} {x : Arrays P} (hx : Filled P before x)
    (filters : List IdMaskFilter) :
    (∃ x', x.addAll filters = .ok x' ∧ Filled P (before ++ filters) x') ∨
      ∃ e pre f post y, x.addAll filters = .error e ∧ filters = pre ++ f :: post ∧
        Filled P (before ++ pre) y ∧ Fault P (before ++ pre) f e := by
  induction filters generalizing before x with
  | nil => exact .inl ⟨x, rfl, by rwa [List.append_nil]⟩
  | cons f fs ih =>
      rw [Arrays.addAll]
      rcases hx.add f with ⟨x', hadd, hx'⟩ | ⟨e, hadd, hfault⟩
      · rw [hadd]
        rcases ih hx' with ⟨x'', hall, hx''⟩ | ⟨e, pre, g, post, y, hall, rfl, hy, hfault⟩
        · exact .inl ⟨x'', hall, List.append_cons before f fs ▸ hx''⟩
        · rw [← List.append_cons] at hy hfault
          exact .inr ⟨e, f :: pre, g, post, y, hall, rfl, hy, hfault⟩
      · rw [hadd]
        refine .inr ⟨e, [], f, fs, x, rfl, rfl, ?_, ?_⟩
        · rwa [List.append_nil]
        · rwa [List.append_nil]

end Arrays

/-! ## Frames that are accepted -/

section Frames

variable {P : Properties σ S E F} (hP : P.Lawful)

include hP

/-- An element takes the frames of its filter. -/
theorem takes_std (id mask : StandardId) (frame : F) :
    P.std.takes (P.std.bitMask id.raw mask.raw) frame =
      (Rule.std id mask).accepts (P.idOf frame) := by
  rw [hP.std_bitMask]
  cases P.idOf frame with
  | standard => rfl
  | extended => rfl

theorem takes_ext (id mask : ExtendedId) (frame : F) :
    P.ext.takes (P.ext.bitMask id.raw mask.raw) frame =
      (Rule.ext id mask).accepts (P.idOf frame) := by
  rw [hP.ext_bitMask]
  cases P.idOf frame with
  | standard => rfl
  | extended => rfl

/-- **The two tables together** take what the filters match. -/
theorem any_elements {filters : List IdMaskFilter} (h : ∀ f ∈ filters, rule? f ≠ none) (frame : F) :
    (((stdElements P filters).any fun e ↦ P.std.takes e frame) ||
        (extElements P filters).any fun e ↦ P.ext.takes e frame) =
      filters.any fun f ↦ filterMatch f (P.idOf frame) := by
  induction filters with
  | nil => rfl
  | cons f fs ih =>
      have ih := ih fun g hg ↦ h g (List.mem_cons_of_mem f hg)
      rw [List.any_cons, ← ih]
      rcases rule?_cases f with ⟨id, maskRaw, mask, -, -, hrule⟩ |
        ⟨id, maskRaw, mask, -, -, hrule⟩ | ⟨hnone, -⟩
      · have hstd : stdElements P (f :: fs) =
            P.std.bitMask id.raw mask.raw :: stdElements P fs :=
          List.filterMap_cons_some (by rw [stdElement, hrule])
        have hext : extElements P (f :: fs) = extElements P fs :=
          List.filterMap_cons_none (by rw [extElement, hrule])
        rw [hstd, hext, List.any_cons, takes_std hP, accepts_of_rule? hrule, Bool.or_assoc]
      · have hstd : stdElements P (f :: fs) = stdElements P fs :=
          List.filterMap_cons_none (by rw [stdElement, hrule])
        have hext : extElements P (f :: fs) =
            P.ext.bitMask id.raw mask.raw :: extElements P fs :=
          List.filterMap_cons_some (by rw [extElement, hrule])
        rw [hstd, hext, List.any_cons, takes_ext hP, accepts_of_rule? hrule, Bool.or_left_comm]
      · exact absurd hnone (h f List.mem_cons_self)

omit hP in
theorem made_of_mem_stdElements {filters : List IdMaskFilter} {e : S}
    (he : e ∈ stdElements P filters) : P.std.Made e := by
  obtain ⟨f, -, hf⟩ := List.mem_filterMap.mp he
  unfold stdElement at hf
  split at hf
  · next id mask _ => exact .inr (.inr ⟨id.raw, mask.raw, (Option.some.inj hf).symm⟩)
  · cases hf

omit hP in
theorem made_of_mem_extElements {filters : List IdMaskFilter} {e : E}
    (he : e ∈ extElements P filters) : P.ext.Made e := by
  obtain ⟨f, -, hf⟩ := List.mem_filterMap.mp he
  unfold extElement at hf
  split at hf
  · next id mask _ => exact .inr (.inr ⟨id.raw, mask.raw, (Option.some.inj hf).symm⟩)
  · cases hf

omit hP in
/-- The rest of an array takes nothing. -/
theorem Holds.any {α : Type} {n i : Nat} {disable : α} {xs : Vector α n} {es : List α}
    (h : Holds disable xs i es) {p : α → Bool} (hp : p disable = false) :
    xs.toList.any p = es.any p := by
  rw [h.toList, List.any_append, List.any_replicate, hp]
  simp

omit hP in
theorem Holds.forall_mem {α : Type} {n i : Nat} {disable : α} {xs : Vector α n} {es : List α}
    (h : Holds disable xs i es) {p : α → Prop} (hp : p disable) (hes : ∀ e ∈ es, p e) :
    ∀ e ∈ xs.toList, p e := by
  rw [h.toList]
  refine List.forall_mem_append.mpr ⟨hes, fun e he ↦ ?_⟩
  rw [List.eq_of_mem_replicate he]
  exact hp

/-- The filters have been set. -/
structure Applied (P : Properties σ S E F) (s : σ) (filters : List IdMaskFilter) (s' : σ) :
    Prop where
  accepts_eq : ∀ frame, P.accepts s' frame =
    (filters.isEmpty || (filters.any fun f ↦ filterMatch f (P.idOf frame)) || P.nonMatching s frame)
  nonMatching_eq : P.nonMatching s' = P.nonMatching s

/-- Writing arrays that are filled. -/
theorem Filled.applied {filters : List IdMaskFilter} {x : Arrays P} (hx : Filled P filters x)
    (hne : filters ≠ []) (s : σ) : Applied P s filters (P.write x.std x.ext s) where
  accepts_eq frame := by
    rw [hP.accepts_write _ _ _ _
        (hx.std.forall_mem (.inl rfl) fun e he ↦ made_of_mem_stdElements he)
        (hx.ext.forall_mem (.inl rfl) fun e he ↦ made_of_mem_extElements he),
      hx.std.any (hP.std_disable frame), hx.ext.any (hP.ext_disable frame),
      any_elements hP hx.rules, List.isEmpty_eq_false_iff.mpr hne, Bool.false_or]
  nonMatching_eq := hP.nonMatching_write _ _ s

omit hP in
/-- The first element of an array that is otherwise disabled. -/
theorem toList_set_zero {α : Type} {n : Nat} (disable e : α) (hn : 0 < n) :
    ((Vector.replicate n disable).set 0 e hn).toList = e :: List.replicate (n - 1) disable :=
  (Holds.set (.replicate disable) e hn).toList

/-- The empty list. -/
theorem applied_nil (s : σ) :
    Applied P s [] (P.write
      ((Vector.replicate P.standardFilterMax P.std.disable).set 0 P.std.acceptAllIntoFifo0
        P.standardFilterMax_pos)
      ((Vector.replicate P.extendedFilterMax P.ext.disable).set 0 P.ext.acceptAllIntoFifo0
        P.extendedFilterMax_pos) s) where
  accepts_eq frame := by
    rw [hP.accepts_write, toList_set_zero, toList_set_zero, List.any_cons, List.any_cons]
    · cases hid : P.idOf frame with
      | standard id => rw [hP.std_acceptAll frame id hid]; rfl
      | extended id => rw [hP.ext_acceptAll frame id hid, Bool.true_or, Bool.or_true]; rfl
    · rw [toList_set_zero]
      refine List.forall_mem_cons.mpr ⟨.inr (.inl rfl), fun e he ↦ ?_⟩
      exact .inl (List.eq_of_mem_replicate he)
    · rw [toList_set_zero]
      refine List.forall_mem_cons.mpr ⟨.inr (.inl rfl), fun e he ↦ ?_⟩
      exact .inl (List.eq_of_mem_replicate he)
  nonMatching_eq := hP.nonMatching_write _ _ s

end Frames

/-! ## `set_filters` -/

section SetFilters

variable {P : Properties σ S E F} {filters : List IdMaskFilter}

/-- The filters cannot be set: one is malformed, or a table is too small. -/
def Refused (P : Properties σ S E F) (filters : List IdMaskFilter) : Prop :=
  (∃ f ∈ filters, Mismatched f ∨ OutOfRange f) ∨
    P.standardFilterMax < (stdElements P filters).length ∨
      P.extendedFilterMax < (extElements P filters).length

/-- The first filter that cannot be set, and why. -/
def FirstFault (P : Properties σ S E F) (filters : List IdMaskFilter) (e : Error) : Prop :=
  ∃ before f after, filters = before ++ f :: after ∧ ¬Refused P before ∧ Fault P before f e

theorem Filled.not_refused {x : Arrays P} (hx : Filled P filters x) : ¬Refused P filters := by
  rintro (⟨f, hf, hbad⟩ | hstd | hext)
  · exact hx.rules f hf ((rule?_eq_none_iff f).mpr hbad)
  · exact Nat.not_lt.mpr hx.std.le hstd
  · exact Nat.not_lt.mpr hx.ext.le hext

/-- A list with a fault cannot be set. -/
theorem FirstFault.refused {e : Error} (h : FirstFault P filters e) : Refused P filters := by
  obtain ⟨before, f, after, rfl, -, hfault⟩ := h
  have hmem : f ∈ before ++ f :: after := List.mem_append_right _ List.mem_cons_self
  by_cases hbad : Mismatched f ∨ OutOfRange f
  · exact .inl ⟨f, hmem, hbad⟩
  have hrule : rule? f ≠ none := fun hnone ↦ hbad ((rule?_eq_none_iff f).mp hnone)
  cases hfault with
  | tooManyStd id mask hf full =>
      subst hf
      refine .inr (.inl ?_)
      obtain ⟨r, hr⟩ := Option.ne_none_iff_exists'.mp hrule
      rw [rule?_std, Option.map_eq_some_iff] at hr
      obtain ⟨m, hm, rfl⟩ := hr
      have helement : stdElement P ⟨.standard id, .standard mask⟩ =
          some (P.std.bitMask id.raw m.raw) := by rw [stdElement, rule?_std, hm]; rfl
      rw [stdElements, List.filterMap_append, List.filterMap_cons_some helement,
        List.length_append, List.length_cons]
      change (before.filterMap _).length = _ at full
      omega
  | tooManyExt id mask hf full =>
      subst hf
      refine .inr (.inr ?_)
      obtain ⟨r, hr⟩ := Option.ne_none_iff_exists'.mp hrule
      rw [rule?_ext, Option.map_eq_some_iff] at hr
      obtain ⟨m, hm, rfl⟩ := hr
      have helement : extElement P ⟨.extended id, .extended mask⟩ =
          some (P.ext.bitMask id.raw m.raw) := by rw [extElement, rule?_ext, hm]; rfl
      rw [extElements, List.filterMap_append, List.filterMap_cons_some helement,
        List.length_append, List.length_cons]
      change (before.filterMap _).length = _ at full
      omega
  | outOfRangeStd _ _ _ _ hrange => exact absurd (.inr hrange) hbad
  | outOfRangeExt _ _ _ _ hrange => exact absurd (.inr hrange) hbad
  | mismatch hmis => exact absurd (.inl hmis) hbad

/-- The two ends of `set_filters`. -/
theorem setFilters_cases (hP : P.Lawful) (s : σ) (filters : List IdMaskFilter) :
    (∃ e, FirstFault P filters e ∧ setFilters P s filters = (.error e, s)) ∨
      ¬Refused P filters ∧ ∃ s', setFilters P s filters = (.ok (), s') ∧ Applied P s filters s' := by
  by_cases hne : filters = []
  · subst hne
    refine .inr ⟨Filled.nil.not_refused, _, rfl, applied_nil hP s⟩
  have hempty : ¬filters.isEmpty = true := by rwa [List.isEmpty_iff]
  unfold setFilters
  dsimp only
  rw [if_neg hempty]
  rcases (Filled.nil (P := P)).addAll filters with
    ⟨x, hall, hx⟩ | ⟨e, pre, f, post, y, hall, rfl, hy, hfault⟩
  · rw [hall]
    exact .inr ⟨hx.not_refused, _, rfl, hx.applied hP hne s⟩
  · rw [hall]
    exact .inl ⟨e, ⟨pre, f, post, rfl, hy.not_refused, hfault⟩, rfl⟩

/-- **`set_filters` of FDCAN is exact and atomic.**  It fails, and writes nothing, if and only if a
filter is malformed or a table is too small; the error is that of the first filter that cannot be
set.  Otherwise the frames that are accepted are those of the filters, and those that are accepted
without any. -/
theorem setFilters_fills (hP : P.Lawful) (s : σ) (filters : List IdMaskFilter) :
    ((∃ e, (setFilters P s filters).1 = .error e) ↔ Refused P filters) ∧
      (∀ e, (setFilters P s filters).1 = .error e →
        (setFilters P s filters).2 = s ∧ FirstFault P filters e) ∧
      (¬Refused P filters → (setFilters P s filters).1 = .ok () ∧
        Applied P s filters (setFilters P s filters).2) := by
  rcases setFilters_cases hP s filters with ⟨e, hfault, herr⟩ | ⟨hnot, s', hok, happlied⟩
  · rw [herr]
    refine ⟨iff_of_true ⟨e, rfl⟩ hfault.refused, ?_, fun hnot ↦ absurd hfault.refused hnot⟩
    intro e' he'
    obtain rfl : e = e' := Except.error.inj he'
    exact ⟨rfl, hfault⟩
  · rw [hok]
    exact ⟨iff_of_false nofun hnot, nofun, fun _ ↦ ⟨rfl, happlied⟩⟩

end SetFilters

/-- An element of a peripheral whose state is its tables. -/
inductive Element (Raw : Type) where
  | disable
  | acceptAllIntoFifo0
  | bitMask (filter mask : Raw)
deriving DecidableEq, Repr

/-- Two standard and one extended element. -/
structure Tables where
  std : Vector (Element UInt16) 2 := .replicate 2 .disable
  ext : Vector (Element UInt32) 1 := .replicate 1 .disable
  nonMatching : Bool := false
deriving DecidableEq, Repr

/-- The frames of a standard element; a frame is its identifier. -/
def Element.takesStd : Element UInt16 → Id → Bool
  | .disable, _ => false
  | .acceptAllIntoFifo0, id => !id.isExtended
  | .bitMask filter mask, .standard id => id.raw &&& mask = filter &&& mask
  | .bitMask _ _, .extended _ => false

/-- The frames of an extended element. -/
def Element.takesExt : Element UInt32 → Id → Bool
  | .disable, _ => false
  | .acceptAllIntoFifo0, id => id.isExtended
  | .bitMask _ _, .standard _ => false
  | .bitMask filter mask, .extended id => id.raw &&& mask = filter &&& mask

/-- A peripheral with these tables. -/
def tables : Properties Tables (Element UInt16) (Element UInt32) Id where
  std := ⟨.disable, .acceptAllIntoFifo0, .bitMask, Element.takesStd⟩
  ext := ⟨.disable, .acceptAllIntoFifo0, .bitMask, Element.takesExt⟩
  standardFilterMax := 2
  extendedFilterMax := 1
  standardFilterMax_pos := Nat.zero_lt_succ 1
  extendedFilterMax_pos := Nat.zero_lt_succ 0
  setStandardFilters std s := { s with std }
  setExtendedFilters ext s := { s with ext }
  idOf id := id
  accepts s id :=
    (s.std.toList.any fun e ↦ e.takesStd id) || (s.ext.toList.any fun e ↦ e.takesExt id) ||
      s.nonMatching
  nonMatching s _ := s.nonMatching

theorem tables_lawful : tables.Lawful where
  std_disable _ := rfl
  std_acceptAll frame id h := by
    obtain rfl : frame = .standard id := h
    rfl
  std_bitMask _ _ id := by
    cases id with
    | standard => rfl
    | extended => rfl
  ext_disable _ := rfl
  ext_acceptAll frame id h := by
    obtain rfl : frame = .extended id := h
    rfl
  ext_bitMask _ _ id := by
    cases id with
    | standard => rfl
    | extended => rfl
  accepts_write _ _ _ _ _ _ := rfl
  nonMatching_write _ _ _ := rfl

/-- Two standard filters and an extended one fill both tables; with a third standard one, whose mask
is out of range as well, there are too many. -/
theorem setFilters_fills_full :
    let std : IdMaskFilter := ⟨.standard ⟨0x100, by decide⟩, .standard 0x700⟩
    let ext : IdMaskFilter := ⟨.extended ⟨0x18DA1020, by decide⟩, .extended 0x1FFFFFFF⟩
    let bad : IdMaskFilter := ⟨.standard ⟨0x100, by decide⟩, .standard 0xFFFF⟩
    (setFilters tables {} [std, ext, std]).1 = .ok () ∧
      Applied tables {} [std, ext, std] (setFilters tables {} [std, ext, std]).2 ∧
        (setFilters tables {} [std, ext, std, bad]).1 = .error .tooManyFilters ∧
          (setFilters tables {} [std, ext, std, bad]).2 = {} := by
  intro std ext bad
  have hset : (setFilters tables {} [std, ext, std]).1 = .ok () := by decide
  have herr : (setFilters tables {} [std, ext, std, bad]).1 = .error .tooManyFilters := by decide
  have hnot : ¬Refused tables [std, ext, std] := by
    rw [← (setFilters_fills tables_lawful {} [std, ext, std]).1, hset]
    exact nofun
  exact ⟨hset, ((setFilters_fills tables_lawful {} [std, ext, std]).2.2 hnot).2, herr,
    ((setFilters_fills tables_lawful {} [std, ext, std, bad]).2.1 _ herr).1⟩

end Thincan.EmbassyStm32.Fdcan
