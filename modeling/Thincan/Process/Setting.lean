import Mathlib.Data.List.Basic

/-!
# Settings

A device has a setting that a call replaces as a whole or leaves as it was.  What the device
does in the end is then decided by the last value that it accepted (`Setting.Atomic.setAll`).
-/

namespace Process

/-- A device with the state `σ`: the call that gives it a value, with its result, and what the
device does.  `none` is a panic. -/
structure Setting (σ V ε O : Type) where
  set : σ → V → Option (Except ε Unit × σ)
  behaviour : σ → O

namespace Setting

variable {σ V ε O : Type} {D : Setting σ V ε O} {I : σ → Prop} {valid : V → Bool} {meaning : V → O}

/-- A value that is `valid` is accepted, and the device then does what the value means; any other
is refused and changes nothing.  `I` is kept all along. -/
structure Atomic (D : Setting σ V ε O) (I : σ → Prop) (valid : V → Bool) (meaning : V → O) :
    Prop where
  refused : ∀ s v, I s → valid v = false → ∃ e, D.set s v = some (.error e, s)
  accepted : ∀ s v, I s → valid v = true →
    ∃ s', D.set s v = some (.ok (), s') ∧ I s' ∧ D.behaviour s' = meaning v

/-- One value after the other, with the results. -/
def setAll (D : Setting σ V ε O) : σ → List V → Option (List (Except ε Unit) × σ)
  | s, [] => some ([], s)
  | s, v :: vs => (D.set s v).bind fun x ↦ (setAll D x.2 vs).map fun y ↦ (x.1 :: y.1, y.2)

theorem setAll_cons {s s' s'' : σ} {v : V} {vs : List V} {r : Except ε Unit}
    {rs : List (Except ε Unit)} (hset : D.set s v = some (r, s'))
    (hall : D.setAll s' vs = some (rs, s'')) : D.setAll s (v :: vs) = some (r :: rs, s'') := by
  rw [setAll, hset, Option.bind_some, hall]
  rfl

/-- **The last accepted value counts.**  No value makes the device panic, the valid ones are
accepted, and in the end it does what the last of them means. -/
theorem Atomic.setAll (h : D.Atomic I valid meaning) {s : σ} (hs : I s) (vs : List V) :
    ∃ rs s', D.setAll s vs = some (rs, s') ∧ I s' ∧ rs.map Except.isOk = vs.map valid ∧
      D.behaviour s' = ((vs.filter valid).getLast?.map meaning).getD (D.behaviour s) := by
  induction vs generalizing s with
  | nil => exact ⟨[], s, rfl, hs, rfl, rfl⟩
  | cons v vs ih =>
      cases hv : valid v with
      | false =>
          obtain ⟨e, hset⟩ := h.refused s v hs hv
          obtain ⟨rs, s', hall, hs', hrs, hb⟩ := ih hs
          refine ⟨.error e :: rs, s', setAll_cons hset hall, hs', ?_, ?_⟩
          · rw [List.map_cons, List.map_cons, hrs, hv]
            rfl
          · rw [List.filter_cons_of_neg (by rw [hv]; exact Bool.false_ne_true), hb]
      | true =>
          obtain ⟨s₁, hset, hs₁, hb₁⟩ := h.accepted s v hs hv
          obtain ⟨rs, s', hall, hs', hrs, hb⟩ := ih hs₁
          refine ⟨.ok () :: rs, s', setAll_cons hset hall, hs', ?_, ?_⟩
          · rw [List.map_cons, List.map_cons, hrs, hv]
            rfl
          · rw [List.filter_cons_of_pos hv, hb, hb₁, List.getLast?_cons]
            cases (vs.filter valid).getLast? with
            | none => rfl
            | some w => rfl

end Setting

end Process
