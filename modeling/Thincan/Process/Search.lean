import Mathlib.Data.List.Basic

/-!
# Searching a list with a question that remembers

A predicate that may change with every answer it gives is a state `p : π` and a
function `ask : π → α → Bool × π`.  `search` asks it about the elements of a list
in turn and stops at the first it accepts.

`search_eq_some` says what is found, in terms of `after ask p as`, the state of the
question after it was asked about `as`.

What is found is known by its position.  Where positions grow, the elements found there are in
the order of the list (`filterMap_getElem?_sublist`).
-/

universe u v

namespace Process

variable {π : Type u} {α : Type v}

/-- The state of a question after it was asked about each element of a list. -/
def after (ask : π → α → Bool × π) (p : π) (as : List α) : π :=
  as.foldl (fun q a ↦ (ask q a).2) p

/-- The index of the first accepted element, and the question afterwards. -/
def search (ask : π → α → Bool × π) : List α → π → Option Nat × π
  | [], p => (none, p)
  | a :: as, p =>
      if (ask p a).1 then (some 0, (ask p a).2)
      else ((search ask as (ask p a).2).1.map (· + 1), (search ask as (ask p a).2).2)

variable {ask : π → α → Bool × π} {p : π} {as : List α} {a : α} {i : Nat}

@[simp] theorem after_cons : after ask p (a :: as) = after ask (ask p a).2 as := rfl

theorem after_append {bs : List α} : after ask p (as ++ bs) = after ask (after ask p as) bs :=
  List.foldl_append

/-- **What is found is the first element accepted**: everything before it was
asked about and refused. -/
theorem search_eq_some :
    (search ask as p).1 = some i ↔ ∃ a, as[i]? = some a ∧
      (ask (after ask p (as.take i)) a).1 = true ∧
      ∀ j b, j < i → as[j]? = some b → (ask (after ask p (as.take j)) b).1 = false := by
  induction as generalizing p i with
  | nil => simp [search]
  | cons a as ih =>
      unfold search
      by_cases ha : (ask p a).1 = true
      · rw [if_pos ha]
        constructor
        · intro h
          obtain rfl := Option.some.inj h
          exact ⟨a, rfl, ha, nofun⟩
        · rintro ⟨b, hb, hyes, hno⟩
          cases i with
          | zero => rfl
          | succ i =>
              have hno' : (ask p a).1 = false := hno 0 a (Nat.succ_pos i) rfl
              rw [ha] at hno'
              cases hno'
      · rw [if_neg ha, Option.map_eq_some_iff]
        constructor
        · rintro ⟨k, hk, rfl⟩
          obtain ⟨b, hb, hyes, hno⟩ := ih.mp hk
          refine ⟨b, hb, hyes, ?_⟩
          intro j c hj hc
          cases j with
          | zero =>
              obtain rfl := Option.some.inj hc
              exact Bool.eq_false_iff.mpr ha
          | succ j => exact hno j c (Nat.lt_of_succ_lt_succ hj) hc
        · rintro ⟨b, hb, hyes, hno⟩
          cases i with
          | zero =>
              obtain rfl := Option.some.inj hb
              exact absurd hyes ha
          | succ i =>
              refine ⟨i, ih.mpr ⟨b, hb, hyes, fun j c hj hc ↦ ?_⟩, rfl⟩
              exact hno (j + 1) c (Nat.succ_lt_succ hj) hc

theorem search_lt (h : (search ask as p).1 = some i) : i < as.length := by
  obtain ⟨a, ha, -⟩ := search_eq_some.mp h
  exact (List.getElem?_eq_some_iff.mp ha).1

/-- The state the question is left in: it was asked about some prefix. -/
theorem search_state (ask : π → α → Bool × π) (as : List α) (p : π) :
    ∃ k, (search ask as p).2 = after ask p (as.take k) := by
  induction as generalizing p with
  | nil => exact ⟨0, rfl⟩
  | cons a as ih =>
      unfold search
      split
      · exact ⟨1, rfl⟩
      · obtain ⟨k, hk⟩ := ih (ask p a).2
        exact ⟨k + 1, hk⟩

/-! ## Positions -/

/-- What stands at growing positions stands in that order. -/
theorem filterMap_getElem?_sublist (xs : List α) {is : List Nat} (h : is.Pairwise (· < ·)) :
    (is.filterMap fun i ↦ xs[i]?).Sublist xs := by
  have hdrop : ∀ n, (∀ i ∈ is, n ≤ i) → (is.filterMap fun i ↦ xs[i]?).Sublist (xs.drop n) := by
    induction is with
    | nil => exact fun n _ ↦ List.nil_sublist _
    | cons i is ih =>
        obtain ⟨hi, his⟩ := List.pairwise_cons.mp h
        intro n hn
        have hrest := ih his (i + 1) fun j hj ↦ hi j hj
        have hle := hn i List.mem_cons_self
        have hsub : (xs.drop i).Sublist (xs.drop n) := List.drop_sublist_drop_left xs hle
        cases hx : xs[i]? with
        | none =>
            rw [List.filterMap_cons_none hx]
            exact hrest.trans ((List.drop_sublist_drop_left xs (Nat.le_succ i)).trans hsub)
        | some x =>
            obtain ⟨hlt, rfl⟩ := List.getElem?_eq_some_iff.mp hx
            rw [List.filterMap_cons_some hx]
            refine List.Sublist.trans ?_ hsub
            rw [List.drop_eq_getElem_cons hlt]
            exact hrest.cons_cons _
  exact hdrop 0 fun _ _ ↦ Nat.zero_le _

end Process
