import Mathlib.Data.List.Induction
import Mathlib.Logic.Relation

/-!
# Machines driven by an environment

A `Machine` moves from state to state on labels chosen by its environment: the
scheduler, the network, the storage.  A label the state does not offer is
refused, so `step` is partial, and it is a function, so a run is determined by
the list of labels and can be evaluated.

Everything a safety proof needs is `Machine.Reachable.invariant`; everything a
termination proof needs is `Machine.exec_ranked`.  What happens in the end is a
property of infinite runs, a `Machine.Path`, under `Machine.Path.Fair`.
-/

universe u v

namespace Process

/-- A transition system whose nondeterminism has been moved into the labels. -/
structure Machine (S : Type u) (L : Type v) where
  /-- The move on a label, or `none` where the label is not on offer. -/
  step : S → L → Option S

namespace Machine

variable {S : Type u} {L : Type v} (M : Machine S L)

/-- Run a list of labels. -/
def exec : S → List L → Option S
  | s, [] => some s
  | s, l :: ls => (M.step s l).bind fun s' ↦ exec s' ls

/-- `t` is reached from `s` by some run. -/
def Reachable (s t : S) : Prop := ∃ ls, M.exec s ls = some t

variable {M}

@[simp] theorem exec_nil (s : S) : M.exec s [] = some s := rfl

theorem exec_cons {s t : S} {l : L} {ls : List L} :
    M.exec s (l :: ls) = some t ↔ ∃ s', M.step s l = some s' ∧ M.exec s' ls = some t :=
  Option.bind_eq_some_iff

/-- A run whose first step is known. -/
theorem exec_cons_of_step {s s' : S} {l : L} {ls : List L} (h : M.step s l = some s') :
    M.exec s (l :: ls) = M.exec s' ls := by
  rw [exec, h, Option.bind_some]

/-- Runs compose. -/
theorem exec_append {s t : S} {ks ls : List L} :
    M.exec s (ks ++ ls) = some t ↔ ∃ s', M.exec s ks = some s' ∧ M.exec s' ls = some t := by
  induction ks generalizing s with
  | nil => simp
  | cons k ks ih =>
      simp only [List.cons_append, exec_cons, ih]
      constructor
      · rintro ⟨a, ha, b, hb, hc⟩
        exact ⟨b, ⟨a, ha, hb⟩, hc⟩
      · rintro ⟨b, ⟨a, ha, hb⟩, hc⟩
        exact ⟨a, ha, b, hb, hc⟩

/-- One more step at the end of a run. -/
theorem exec_snoc {s t : S} {l : L} {ls : List L} :
    M.exec s (ls ++ [l]) = some t ↔ ∃ a, M.exec s ls = some a ∧ M.step a l = some t := by
  rw [exec_append]
  simp only [exec_cons, exec_nil, Option.some.injEq, exists_eq_right]

section Filter

variable {s a b : S} {l : L} {ls : List L} {p : L → Bool}

/-- The last label of a run is kept. -/
theorem exec_filter_pos (ha : M.exec s (ls.filter p) = some a) (hp : p l = true)
    (hs : M.step a l = some b) : M.exec s ((ls ++ [l]).filter p) = some b := by
  rw [List.filter_append, List.filter_cons_of_pos hp, List.filter_nil]
  exact exec_snoc.mpr ⟨a, ha, hs⟩

/-- The last label of a run is left out. -/
theorem exec_filter_neg (ha : M.exec s (ls.filter p) = some a) (hp : p l = false) :
    M.exec s ((ls ++ [l]).filter p) = some a := by
  rw [List.filter_append, List.filter_cons_of_neg (Bool.not_eq_true _ ▸ hp), List.filter_nil,
    List.append_nil, ha]

end Filter

namespace Reachable

@[refl] theorem refl (s : S) : M.Reachable s s := ⟨[], rfl⟩

@[trans] theorem trans {s t u : S} (hst : M.Reachable s t) (htu : M.Reachable t u) :
    M.Reachable s u := by
  obtain ⟨ks, hks⟩ := hst
  obtain ⟨ls, hls⟩ := htu
  exact ⟨ks ++ ls, exec_append.mpr ⟨t, hks, hls⟩⟩

/-- One more step at the end of a run. -/
theorem tail {s t t' : S} {l : L} (h : M.Reachable s t) (hs : M.step t l = some t') :
    M.Reachable s t' := by
  obtain ⟨ls, hls⟩ := h
  exact ⟨ls ++ [l], exec_snoc.mpr ⟨t, hls, hs⟩⟩

/-- Induction along a run, from its first state. -/
theorem induction_on {P : S → Prop} {s t : S} (h : M.Reachable s t) (h₀ : P s)
    (hstep : ∀ a l b, M.Reachable s a → P a → M.step a l = some b → P b) : P t := by
  obtain ⟨ls, hls⟩ := h
  induction ls using List.reverseRecOn generalizing t with
  | nil =>
      simp only [exec_nil, Option.some.injEq] at hls
      exact hls ▸ h₀
  | append_singleton ls l ih =>
      obtain ⟨a, ha, hs⟩ := exec_snoc.mp hls
      exact hstep a l t ⟨ls, ha⟩ (ih ha) hs

/-- A predicate that holds at first and is kept by every step holds in every
reachable state. -/
theorem invariant {I : S → Prop} {s t : S} (h : M.Reachable s t) (h₀ : I s)
    (hstep : ∀ a l b, I a → M.step a l = some b → I b) : I t :=
  h.induction_on h₀ fun a l b _ ha hs ↦ hstep a l b ha hs

end Reachable

/-- A rank that falls at every step, and comes with an invariant, bounds the length
of every run. -/
theorem exec_ranked {I : Nat → S → Prop}
    (hstep : ∀ k a l b, I k a → M.step a l = some b → ∃ j < k, I j b)
    {k : Nat} {s t : S} {ls : List L} (hs : I k s) (h : M.exec s ls = some t) :
    ∃ j, I j t ∧ ls.length + j ≤ k := by
  induction ls generalizing s k with
  | nil =>
      obtain rfl := Option.some.inj h
      exact ⟨k, hs, Nat.le_of_eq (Nat.zero_add k)⟩
  | cons l ls ih =>
      obtain ⟨s', hl, hls⟩ := exec_cons.mp h
      obtain ⟨k', hk, hI⟩ := hstep k s l s' hs hl
      obtain ⟨j, hj, hle⟩ := ih hI hls
      refine ⟨j, hj, ?_⟩
      rw [List.length_cons]
      omega

/-- Where every step of one machine is a step of another or none at all, a run of it is a run
of the other. -/
theorem exec_filterMap {T : Type u} {K : Type v} {N : Machine T K} {f : S → T} {g : L → Option K}
    (hstay : ∀ a l b, M.step a l = some b → g l = none → f b = f a)
    (hmove : ∀ a l b k, M.step a l = some b → g l = some k → N.step (f a) k = some (f b))
    {s t : S} {ls : List L} (h : M.exec s ls = some t) :
    N.exec (f s) (ls.filterMap g) = some (f t) := by
  induction ls generalizing s with
  | nil =>
      obtain rfl := Option.some.inj h
      rfl
  | cons l ls ih =>
      obtain ⟨a, hl, hls⟩ := exec_cons.mp h
      cases hg : g l with
      | none =>
          rw [List.filterMap_cons_none hg, ← hstay s l a hl hg]
          exact ih hls
      | some k =>
          rw [List.filterMap_cons_some hg, exec_cons_of_step (hmove s l a k hl hg)]
          exact ih hls

/-! ## Runs under a condition -/

variable (M) in
/-- Every step of a run meets `G` in the state before it. -/
def Meets (G : S → L → Prop) : S → List L → Prop
  | _, [] => True
  | s, l :: ls =>
      G s l ∧
        match M.step s l with
        | some s' => Meets G s' ls
        | none => True

instance decidableMeets (G : S → L → Prop) [∀ s l, Decidable (G s l)] :
    (s : S) → (ls : List L) → Decidable (M.Meets G s ls)
  | _, [] => inferInstanceAs (Decidable True)
  | s, l :: ls =>
      haveI : Decidable (match M.step s l with
          | some s' => M.Meets G s' ls
          | none => True) :=
        match M.step s l with
        | some s' => decidableMeets G s' ls
        | none => inferInstanceAs (Decidable True)
      inferInstanceAs (Decidable (_ ∧ _))

/-- A predicate that holds at first and is kept by every step that meets `G` holds after
every run that meets `G`. -/
theorem Meets.invariant {G : S → L → Prop} {I : S → Prop}
    (hstep : ∀ a l b, I a → G a l → M.step a l = some b → I b) {s t : S} {ls : List L}
    (hm : M.Meets G s ls) (hs : I s) (h : M.exec s ls = some t) : I t := by
  induction ls generalizing s with
  | nil =>
      obtain rfl := Option.some.inj h
      exact hs
  | cons l ls ih =>
      obtain ⟨s', hl, hls⟩ := exec_cons.mp h
      obtain ⟨hG, hrest⟩ := hm
      rw [hl] at hrest
      exact ih hrest (hstep s l s' hs hG hl) hls

/-- A condition on the labels only. -/
theorem Meets.of_forall {P : L → Prop} {ls : List L} (h : ∀ l ∈ ls, P l) (s : S) :
    M.Meets (fun _ l ↦ P l) s ls := by
  induction ls generalizing s with
  | nil => trivial
  | cons l ls ih =>
      refine ⟨h l List.mem_cons_self, ?_⟩
      cases M.step s l with
      | none => trivial
      | some s' => exact ih (fun k hk ↦ h k (List.mem_cons_of_mem l hk)) s'

/-- Where `G` and an invariant that it keeps give `G'`, a run that meets `G` meets `G'`. -/
theorem Meets.imp {G G' : S → L → Prop} {I : S → Prop}
    (hstep : ∀ a l b, I a → G a l → M.step a l = some b → I b)
    (himp : ∀ a l, I a → G a l → G' a l) {s : S} {ls : List L} (hm : M.Meets G s ls) (hs : I s) :
    M.Meets G' s ls := by
  induction ls generalizing s with
  | nil => trivial
  | cons l ls ih =>
      obtain ⟨hG, hrest⟩ := hm
      refine ⟨himp s l hs hG, ?_⟩
      cases hl : M.step s l with
      | none => trivial
      | some s' =>
          rw [hl] at hrest
          exact ih hrest (hstep s l s' hs hG hl)

variable (M) in
/-- `P` holds in every state of a run. -/
def Along (P : S → Prop) (s : S) (ls : List L) : Prop :=
  ∀ ks t, ks <+: ls → M.exec s ks = some t → P t

theorem along_nil {P : S → Prop} {s : S} : M.Along P s [] ↔ P s := by
  constructor
  · intro h
    exact h [] s List.nil_prefix rfl
  · intro h ks t hks ht
    rw [List.prefix_nil.mp hks] at ht
    exact Option.some.inj ht ▸ h

theorem along_cons {P : S → Prop} {s s' : S} {l : L} {ls : List L} (hl : M.step s l = some s') :
    M.Along P s (l :: ls) ↔ P s ∧ M.Along P s' ls := by
  constructor
  · intro h
    refine ⟨h [] s List.nil_prefix rfl, fun ks t hks ht ↦ ?_⟩
    exact h (l :: ks) t (List.cons_prefix_cons.mpr ⟨rfl, hks⟩) (exec_cons.mpr ⟨s', hl, ht⟩)
  · rintro ⟨hs, h⟩ ks t hks ht
    cases ks with
    | nil => exact Option.some.inj ht ▸ hs
    | cons k ks =>
        obtain ⟨rfl, htail⟩ := List.cons_prefix_cons.mp hks
        obtain ⟨s₁, hk, ht⟩ := exec_cons.mp ht
        obtain rfl := Option.some.inj (hl.symm.trans hk)
        exact h ks t htail ht

theorem meets_cons {G : S → L → Prop} {s s' : S} {l : L} {ls : List L} (hl : M.step s l = some s') :
    M.Meets G s (l :: ls) ↔ G s l ∧ M.Meets G s' ls := by
  rw [Meets, hl]

/-- Where the steps that meet `G` keep an invariant that gives `P`, and the others break `P`,
a run has `P` all along if and only if its steps meet `G`. -/
theorem along_iff_meets {G : S → L → Prop} {I P : S → Prop}
    (hkeep : ∀ a l b, I a → G a l → M.step a l = some b → I b) (hholds : ∀ a, I a → P a)
    (hbreak : ∀ a l b, I a → ¬G a l → M.step a l = some b → ¬P b) {s t : S} {ls : List L}
    (hs : I s) (h : M.exec s ls = some t) : M.Along P s ls ↔ M.Meets G s ls := by
  induction ls generalizing s with
  | nil => exact ⟨fun _ ↦ trivial, fun _ ↦ along_nil.mpr (hholds s hs)⟩
  | cons l ls ih =>
      obtain ⟨a, hl, hls⟩ := exec_cons.mp h
      rw [along_cons hl, meets_cons hl]
      by_cases hG : G s l
      · have hiff := ih (hkeep s l a hs hG hl) hls
        exact ⟨fun halong ↦ ⟨hG, hiff.mp halong.2⟩, fun hm ↦ ⟨hholds s hs, hiff.mpr hm.2⟩⟩
      · refine ⟨fun halong ↦ ?_, fun hm ↦ absurd hm.1 hG⟩
        exact absurd (halong.2 [] a List.nil_prefix rfl) (hbreak s l a hs hG hl)

/-! ## States with named parties -/

/-- What stands at a name after one name was given `a`: `a`, or what stood there. -/
theorem update_cases {ι : Type u} {α : Type v} [DecidableEq ι] {f : ι → Option α} {n m : ι} {a b : α}
    (h : Function.update f n (some a) m = some b) : m = n ∧ b = a ∨ m ≠ n ∧ f m = some b := by
  rw [Function.update_apply] at h
  split at h
  · next hm => exact .inl ⟨hm, (Option.some.inj h).symm⟩
  · next hm => exact .inr ⟨hm, h⟩

/-! ## Infinite runs -/

variable (M) in
/-- An infinite run.  Nothing need happen at an instant, so that a finite run is one
too. -/
structure Path (s : S) where
  state : Nat → S
  label : Nat → Option L
  start : state 0 = s
  next : ∀ i, match label i with
    | none => state (i + 1) = state i
    | some l => M.step (state i) l = some (state (i + 1))

namespace Path

variable {s : S} (p : M.Path s)

/-- A label that is on offer from some instant on is taken in the end. -/
def Fair (l : L) : Prop :=
  ∀ i, (∀ j, i ≤ j → (M.step (p.state j) l).isSome = true) → ∃ j, i ≤ j ∧ p.label j = some l

theorem next_cases (i : Nat) :
    p.label i = none ∧ p.state (i + 1) = p.state i ∨
      ∃ l, p.label i = some l ∧ M.step (p.state i) l = some (p.state (i + 1)) := by
  have h := p.next i
  cases hl : p.label i with
  | none =>
      rw [hl] at h
      exact .inl ⟨rfl, h⟩
  | some l =>
      rw [hl] at h
      exact .inr ⟨l, rfl, h⟩

theorem reachable (i : Nat) : M.Reachable s (p.state i) := by
  induction i with
  | zero => rw [p.start]
  | succ i ih =>
      rcases p.next_cases i with ⟨-, hsame⟩ | ⟨l, -, hstep⟩
      · rw [hsame]
        exact ih
      · exact ih.tail hstep

/-- What holds at an instant and is kept by every later step holds from then on. -/
theorem holds_from {P : S → Prop} {i : Nat} (hi : P (p.state i))
    (hstep : ∀ j l, i ≤ j → p.label j = some l → M.step (p.state j) l = some (p.state (j + 1)) →
      P (p.state j) → P (p.state (j + 1))) {j : Nat} (hij : i ≤ j) : P (p.state j) := by
  induction hij with
  | refl => exact hi
  | @step j hij ih =>
      rcases p.next_cases j with ⟨-, hsame⟩ | ⟨l, hl, hs⟩
      · rw [hsame]
        exact ih
      · exact hstep j l hij hl hs ih

end Path

end Machine

end Process
