import Thincan.EmbassyStm32.Fdcan
import Thincan.Process.Setting
import Thincan.SocketCan.Filters

/-!
# `FilterConfig` means the same everywhere

The adapters of SocketCAN, bxCAN and FDCAN have a `set_filters` each.  They do not accept the
same lists: the kernel takes every list whose widths agree, the peripherals want masks that fit
and have little room.  But a list has the same meaning for all of them, and for the bus over
Unix sockets, and a list that is refused changes nothing.  So the adapters are settings in the
sense of `Process.Setting`, and whatever lists they are given, the last one that was accepted
counts.

What this does not say: that the kernel ever refuses a filter (`SocketCan.Socket.Lawful` has its
filter calls succeed), and that FDCAN lets through nothing else.  It also has the frames of
`Properties.nonMatching`, and in the default configuration of embassy-stm32 that is every frame.
-/

namespace Thincan.FilterConfig

open Process UnixSocket

/-- The identifiers of a list of filters; the empty list has them all. -/
def matched (filters : List IdMaskFilter) (id : Id) : Bool :=
  filters.isEmpty || filters.any fun f ↦ filterMatch f id

/-- `filters_match`, which looks at nothing but the identifier. -/
theorem filtersMatch_eq (filters : List IdMaskFilter) (frame : UnixFrame) :
    filtersMatch filters frame = matched filters frame.id := by
  unfold filtersMatch matched
  cases filters with
  | nil => rfl
  | cons => rfl

/-! ## The adapters -/

section Adapters

variable {σ M₁₆ M₃₂ S E F : Type}

/-- One of the four adapters of SocketCAN; a frame is its identifier and its remote flag. -/
def socketCan
    (set : SocketCan.Socket σ → σ → List IdMaskFilter → Except SocketCan.Error Unit × σ)
    (S : SocketCan.Socket σ) : Setting σ (List IdMaskFilter) SocketCan.Error (Id × Bool → Bool) where
  set s filters := some (set S s filters)
  behaviour s frame := S.accepts s (SocketCan.canIdOf frame.1 frame.2)

/-- The lists it accepts. -/
def socketCanValid (filters : List IdMaskFilter) : Bool := filters.all IdMaskFilter.sameWidth

/-- The adapter of bxCAN. -/
def bxcan (D : EmbassyStm32.MasterFilters σ M₁₆ M₃₂ F) :
    Setting σ (List IdMaskFilter) EmbassyStm32.Error (F → Bool) where
  set s filters := (EmbassyStm32.setFilters D s filters).map fun x ↦ (x.1, D.calls x.2 s)
  behaviour := D.accepts

/-- Every filter has a mask of its width that fits it. -/
def wellFormed (filters : List IdMaskFilter) : Bool :=
  filters.all fun f ↦ (EmbassyStm32.rule? f).isSome

def bxcanValid (numBanks : UInt8) (filters : List IdMaskFilter) : Bool :=
  wellFormed filters && decide ((EmbassyStm32.banks filters).length ≤ numBanks.toNat)

/-- The adapter of FDCAN. -/
def fdcan (P : EmbassyStm32.Fdcan.Properties σ S E F) :
    Setting σ (List IdMaskFilter) EmbassyStm32.Error (F → Bool) where
  set s filters := some (EmbassyStm32.Fdcan.setFilters P s filters)
  behaviour := P.accepts

def fdcanValid (P : EmbassyStm32.Fdcan.Properties σ S E F) (filters : List IdMaskFilter) : Bool :=
  wellFormed filters &&
    decide ((EmbassyStm32.Fdcan.stdElements P filters).length ≤ P.standardFilterMax) &&
      decide ((EmbassyStm32.Fdcan.extElements P filters).length ≤ P.extendedFilterMax)

end Adapters

/-! ## They are settings -/

section Atomic

variable {σ M₁₆ M₃₂ S E F : Type}

theorem wellFormed_iff (filters : List IdMaskFilter) :
    wellFormed filters = true ↔
      ¬∃ f ∈ filters, EmbassyStm32.Mismatched f ∨ EmbassyStm32.OutOfRange f := by
  rw [wellFormed, List.all_eq_true]
  constructor
  · rintro h ⟨f, hf, hbad⟩
    have hsome := h f hf
    rw [(EmbassyStm32.rule?_eq_none_iff f).mpr hbad] at hsome
    cases hsome
  · intro h f hf
    rw [Option.isSome_iff_ne_none]
    exact fun hnone ↦ h ⟨f, hf, (EmbassyStm32.rule?_eq_none_iff f).mp hnone⟩

/-- Masks that fit their identifiers have the same width. -/
theorem sameWidth_of_wellFormed {filters : List IdMaskFilter} (h : wellFormed filters = true) :
    socketCanValid filters = true := by
  rw [socketCanValid, List.all_eq_true]
  rw [wellFormed, List.all_eq_true] at h
  intro f hf
  have hsome := h f hf
  obtain ⟨id, mask⟩ := f
  cases id with
  | standard id =>
      cases mask with
      | standard => rfl
      | extended => cases hsome
  | extended id =>
      cases mask with
      | standard => cases hsome
      | extended => rfl

theorem socketCan_atomic {S : SocketCan.Socket σ} (hS : S.Lawful) :
    (socketCan (SocketCan.setFiltersWith SocketCan.toSocketcanFilter) S).Atomic (fun _ ↦ True)
      socketCanValid fun filters frame ↦ matched filters frame.1 where
  refused s filters _ hv := by
    rcases SocketCan.setFiltersWith_accepts hS s filters with ⟨-, e, herr⟩ | ⟨hall, -, -⟩
    · exact ⟨e, congrArg some herr⟩
    · rw [socketCanValid, List.all_eq_true.mpr hall] at hv
      cases hv
  accepted s filters _ hv := by
    rcases SocketCan.setFiltersWith_accepts hS s filters with ⟨⟨f, hf, hwidth⟩, -⟩ | ⟨-, hok, hacc⟩
    · rw [List.all_eq_true.mp hv f hf] at hwidth
      cases hwidth
    · refine ⟨_, congrArg some (Prod.ext hok rfl), trivial, ?_⟩
      funext frame
      have hframe := hacc ⟨frame.1, [], false, Nat.zero_le _⟩ frame.2
      rwa [filtersMatch_eq] at hframe

theorem numBanks_calls {D : EmbassyStm32.MasterFilters σ M₁₆ M₃₂ F} (hD : D.Lawful)
    (ops : List (EmbassyStm32.BankOp M₁₆ M₃₂)) (s : σ) : D.numBanks (D.calls ops s) = D.numBanks s := by
  induction ops generalizing s with
  | nil => rfl
  | cons op ops ih => exact (ih (D.call op s)).trans (hD.numBanks_call op s)

theorem bxcanValid_iff {D : EmbassyStm32.MasterFilters σ M₁₆ M₃₂ F} (s : σ)
    (filters : List IdMaskFilter) :
    bxcanValid (D.numBanks s) filters = true ↔ ¬EmbassyStm32.Refused D s filters := by
  rw [bxcanValid, Bool.and_eq_true, wellFormed_iff, decide_eq_true_iff, EmbassyStm32.Refused,
    not_or, Nat.not_lt]

theorem bxcan_atomic {D : EmbassyStm32.MasterFilters σ M₁₆ M₃₂ F} (hD : D.Lawful) {n : UInt8}
    (hn : 0 < n.toNat) :
    (bxcan D).Atomic (fun s ↦ D.numBanks s = n) (bxcanValid n)
      fun filters frame ↦ matched filters (D.idOf frame) where
  refused s filters hs hv := by
    subst hs
    have hrefused : EmbassyStm32.Refused D s filters := by
      by_contra hnot
      rw [(bxcanValid_iff s filters).mpr hnot] at hv
      cases hv
    obtain ⟨-, e, herr⟩ | ⟨hnot, -⟩ := EmbassyStm32.setFilters_cases hD hn filters
    · exact ⟨e, congrArg (Option.map _) herr⟩
    · exact absurd hrefused hnot
  accepted s filters hs hv := by
    subst hs
    obtain ⟨hrefused, -⟩ | ⟨-, ops, hok, hset⟩ := EmbassyStm32.setFilters_cases hD hn filters
    · exact absurd hrefused ((bxcanValid_iff s filters).mp hv)
    · exact ⟨D.calls ops s, congrArg (Option.map _) hok, numBanks_calls hD ops s,
        funext hset.accepts_eq⟩

theorem fdcanValid_iff {P : EmbassyStm32.Fdcan.Properties σ S E F} (filters : List IdMaskFilter) :
    fdcanValid P filters = true ↔ ¬EmbassyStm32.Fdcan.Refused P filters := by
  rw [fdcanValid, Bool.and_eq_true, Bool.and_eq_true, wellFormed_iff, decide_eq_true_iff,
    decide_eq_true_iff, EmbassyStm32.Fdcan.Refused, not_or, not_or, Nat.not_lt, Nat.not_lt,
    and_assoc]

theorem fdcan_atomic {P : EmbassyStm32.Fdcan.Properties σ S E F} (hP : P.Lawful)
    (others : F → Bool) :
    (fdcan P).Atomic (fun s ↦ P.nonMatching s = others) (fdcanValid P)
      fun filters frame ↦ matched filters (P.idOf frame) || others frame where
  refused s filters hs hv := by
    obtain ⟨e, -, herr⟩ | ⟨hnot, -⟩ := EmbassyStm32.Fdcan.setFilters_cases hP s filters
    · exact ⟨e, congrArg some herr⟩
    · rw [(fdcanValid_iff filters).mpr hnot] at hv
      cases hv
  accepted s filters hs hv := by
    subst hs
    obtain ⟨e, hfault, -⟩ | ⟨-, s', hok, happlied⟩ :=
      EmbassyStm32.Fdcan.setFilters_cases hP s filters
    · exact absurd hfault.refused ((fdcanValid_iff filters).mp hv)
    · exact ⟨s', congrArg some hok, happlied.nonMatching_eq, funext happlied.accepts_eq⟩

end Atomic

/-! ## Any lists, one after the other -/

section Runs

variable {σ₁ σ₂ σ₃ M₁₆ M₃₂ S E F G : Type}

/-- The adapter is given the lists `calls`: it does not panic, it accepts those that are `valid`,
and in the end it lets through what the last of these matches, and `others` in any case; with none
of these, what it let through before. -/
def Follows {σ ε F : Type} (D : Setting σ (List IdMaskFilter) ε (F → Bool))
    (valid : List IdMaskFilter → Bool) (idOf : F → Id) (others : F → Bool) (s : σ)
    (calls : List (List IdMaskFilter)) : Prop :=
  ∃ rs s', D.setAll s calls = some (rs, s') ∧ rs.map Except.isOk = calls.map valid ∧
    ∀ frame, D.behaviour s' frame =
      match (calls.filter valid).getLast? with
      | none => D.behaviour s frame
      | some filters => matched filters (idOf frame) || others frame

/-- A setting with this meaning. -/
theorem Follows.of_atomic {σ ε F : Type} {D : Setting σ (List IdMaskFilter) ε (F → Bool)}
    {I : σ → Prop} {valid : List IdMaskFilter → Bool} {idOf : F → Id} {others : F → Bool}
    (h : D.Atomic I valid fun filters frame ↦ matched filters (idOf frame) || others frame) {s : σ}
    (hs : I s) (calls : List (List IdMaskFilter)) : Follows D valid idOf others s calls := by
  obtain ⟨rs, s', hall, -, hrs, hb⟩ := h.setAll hs calls
  refine ⟨rs, s', hall, hrs, fun frame ↦ ?_⟩
  rw [hb]
  cases (calls.filter valid).getLast? with
  | none => rfl
  | some filters => rfl

/-- **The adapters agree.**  Each of them is given any lists, one after the other.  None panics.
SocketCAN accepts exactly the lists whose widths agree (the kernel is assumed to take them), the
peripherals those whose masks fit, too, and that they have room for.  Each ends with the last list it
has accepted, which means the same for all of them, and what it means on the bus over Unix sockets;
FDCAN lets through its `nonMatching` frames besides.  A list that bxCAN or FDCAN accepts is accepted
by SocketCAN. -/
theorem adapters_agree {S₁ : SocketCan.Socket σ₁} (hS : S₁.Lawful)
    {set : SocketCan.Socket σ₁ → σ₁ → List IdMaskFilter → Except SocketCan.Error Unit × σ₁}
    (hset : set ∈ [SocketCan.setFilters, SocketCan.Fd.setFilters, SocketCan.Tokio.setFilters,
      SocketCan.Tokio.Fd.setFilters])
    {D : EmbassyStm32.MasterFilters σ₂ M₁₆ M₃₂ F} (hD : D.Lawful)
    {P : EmbassyStm32.Fdcan.Properties σ₃ S E G} (hP : P.Lawful) (s₁ : σ₁) (s₂ : σ₂)
    (hbanks : 0 < (D.numBanks s₂).toNat) (s₃ : σ₃) (calls : List (List IdMaskFilter)) :
    Follows (socketCan set S₁) socketCanValid Prod.fst (fun _ ↦ false) s₁ calls ∧
      Follows (bxcan D) (bxcanValid (D.numBanks s₂)) D.idOf (fun _ ↦ false) s₂ calls ∧
      Follows (fdcan P) (fdcanValid P) P.idOf (P.nonMatching s₃) s₃ calls ∧
      (∀ filters frame, filtersMatch filters frame = matched filters frame.id) ∧
      ∀ filters, bxcanValid (D.numBanks s₂) filters = true ∨ fdcanValid P filters = true →
        socketCanValid filters = true := by
  have hone : set = SocketCan.setFiltersWith SocketCan.toSocketcanFilter := by
    simp only [List.mem_cons, List.not_mem_nil, or_false] at hset
    rcases hset with rfl | rfl | rfl | rfl
    · rfl
    · rfl
    · rw [SocketCan.Tokio.setFilters, SocketCan.Tokio.toSocketcanFilter_eq]
    · rw [SocketCan.Tokio.Fd.setFilters, SocketCan.Tokio.toSocketcanFilter_eq]
  subst hone
  refine ⟨.of_atomic (I := fun _ ↦ True) ?_ trivial calls,
    .of_atomic (I := fun s ↦ D.numBanks s = D.numBanks s₂) ?_ rfl calls,
    .of_atomic (fdcan_atomic hP _) rfl calls, filtersMatch_eq, ?_⟩
  · simpa only [Bool.or_false] using socketCan_atomic hS
  · simpa only [Bool.or_false] using bxcan_atomic hD hbanks
  · rintro filters (hbx | hfd)
    · exact sameWidth_of_wellFormed (Bool.and_eq_true_iff.mp hbx).1
    · exact sameWidth_of_wellFormed (Bool.and_eq_true_iff.mp (Bool.and_eq_true_iff.mp hfd).1).1

end Runs

/-- Three filters are too many for a small peripheral, and mixed widths are too much for all. -/
theorem adapters_agree_small :
    let one : List IdMaskFilter := [⟨.standard ⟨0x100, by decide⟩, .standard 0x7FF⟩]
    let three : List IdMaskFilter :=
      one ++ [⟨.standard ⟨0x200, by decide⟩, .standard 0x7FF⟩,
        ⟨.standard ⟨0x300, by decide⟩, .standard 0x7FF⟩]
    let mixed : List IdMaskFilter := [⟨.standard ⟨0x100, by decide⟩, .extended 0x7FF⟩]
    (Follows (socketCan SocketCan.Tokio.setFilters SocketCan.listSocket) socketCanValid Prod.fst
        (fun _ ↦ false) none [one, three, mixed] ∧
      Follows (bxcan (EmbassyStm32.ruleFilters 1)) (bxcanValid 1) id (fun _ ↦ false)
        (fun _ ↦ none) [one, three, mixed] ∧
      Follows (fdcan EmbassyStm32.Fdcan.tables) (fdcanValid EmbassyStm32.Fdcan.tables) id
        (fun _ ↦ false) {} [one, three, mixed]) ∧
      [one, three, mixed].filter socketCanValid = [one, three] ∧
      [one, three, mixed].filter (bxcanValid 1) = [one] ∧
      [one, three, mixed].filter (fdcanValid EmbassyStm32.Fdcan.tables) = [one] := by
  intro one three mixed
  have hS : SocketCan.listSocket.Lawful :=
    ⟨fun _ ↦ rfl, fun _ _ ↦ rfl, fun _ _ ↦ rfl, fun _ _ _ ↦ rfl⟩
  obtain ⟨hsc, hbx, hfd, -⟩ := adapters_agree hS
    (List.Mem.tail _ (.tail _ (.head _)) : SocketCan.Tokio.setFilters ∈ [SocketCan.setFilters,
      SocketCan.Fd.setFilters, SocketCan.Tokio.setFilters, SocketCan.Tokio.Fd.setFilters])
    (EmbassyStm32.ruleFilters_lawful 1) EmbassyStm32.Fdcan.tables_lawful none (fun _ ↦ none)
    Nat.zero_lt_one {} [one, three, mixed]
  exact ⟨⟨hsc, hbx, hfd⟩, by decide, by decide, by decide⟩

end Thincan.FilterConfig
