import Mathlib.Data.List.Induction

/-!
# Suspended calls

An asynchronous function runs until it awaits something, is suspended there,
and is resumed with the answer.  A `Coroutine` is that view of it: the states
are the await points with the local variables alive there, `request` is what a
state asks of the outside, and `resume` is the code from that await point to the
next one.  A state with no request has returned.

The environment is unconstrained: it answers a request with any response the
await point can take.  A run is therefore a list of request/response pairs, its
*history*, and two rules derive everything about histories from single steps:
`Run.invariant` for what holds of a history and the state it leads to, and
`Run.at_event` for what holds at each event given what came before it.
-/

universe u v w

namespace Process

/-- A computation suspended at await points `σ`, asking for `Q` and resumed
with `R`. -/
structure Coroutine (σ : Type u) (Q : Type v) (R : Type w) where
  /-- What the suspended state waits for; `none` once it has returned. -/
  request : σ → Option Q
  /-- Continue with a response, or `none` where the response does not fit. -/
  resume : σ → R → Option σ

namespace Coroutine

variable {σ : Type u} {Q : Type v} {R : Type w} (M : Coroutine σ Q R)

/-- Answer the pending request: the event and the next state. -/
def fire (s : σ) (r : R) : Option ((Q × R) × σ) :=
  (M.request s).bind fun q ↦ (M.resume s r).map fun s' ↦ ((q, r), s')

/-- Answer a list of responses in turn: the history and the state reached. -/
def exec : σ → List R → Option (List (Q × R) × σ)
  | s, [] => some ([], s)
  | s, r :: rs =>
      (M.fire s r).bind fun es ↦ (exec es.2 rs).map fun ts ↦ (es.1 :: ts.1, ts.2)

/-- `M.Run s₀ h s`: started at `s₀`, the call has the history `h` and is now
suspended at `s`. -/
inductive Run (s₀ : σ) : List (Q × R) → σ → Prop
  | /-- Nothing has happened yet. -/
    nil : Run s₀ [] s₀
  | /-- One more request is answered. -/
    snoc {h : List (Q × R)} {s s' : σ} {e : Q × R} :
      Run s₀ h s → M.fire s e.2 = some (e, s') → Run s₀ (h ++ [e]) s'

variable {M}

theorem fire_eq_some {s s' : σ} {r : R} {e : Q × R} :
    M.fire s r = some (e, s') ↔
      M.request s = some e.1 ∧ e.2 = r ∧ M.resume s r = some s' := by
  obtain ⟨q, r'⟩ := e
  cases hq : M.request s <;> cases hr : M.resume s r <;>
    simp [fire, hq, hr, and_assoc, eq_comm]

namespace Run

variable {s₀ s : σ} {h : List (Q × R)}

/-- A predicate on histories and states that holds at the start and is kept by
every step holds of every run. -/
theorem invariant {P : List (Q × R) → σ → Prop} (hr : M.Run s₀ h s) (h₀ : P [] s₀)
    (hstep : ∀ h s e s', P h s → M.fire s e.2 = some (e, s') → P (h ++ [e]) s') : P h s := by
  induction hr with
  | nil => exact h₀
  | snoc _ hf ih => exact hstep _ _ _ _ ih hf

/-- What every step guarantees of its event, given the history before it, holds
at every event of a history. -/
theorem at_event {P : List (Q × R) → Q × R → Prop} (hr : M.Run s₀ h s)
    (hstep : ∀ h s e s', M.Run s₀ h s → M.fire s e.2 = some (e, s') → P h e)
    {k t : List (Q × R)} {e : Q × R} (hk : h = k ++ e :: t) : P k e := by
  induction hr generalizing t with
  | nil => exact absurd hk.symm (List.append_ne_nil_of_right_ne_nil _ (List.cons_ne_nil _ _))
  | @snoc h s s' e' hr hf ih =>
      rcases List.eq_nil_or_concat t with rfl | ⟨t, f, rfl⟩
      · obtain ⟨rfl, he⟩ := List.append_inj' hk rfl
        obtain rfl := List.singleton_inj.mp he
        exact hstep _ _ _ _ hr hf
      · rw [List.concat_eq_append, ← List.cons_append, ← List.append_assoc] at hk
        exact ih (List.append_inj' hk rfl).1

/-- The last step of a run. -/
theorem of_snoc {e : Q × R} (hr : M.Run s₀ (h ++ [e]) s) :
    ∃ a, M.Run s₀ h a ∧ M.fire a e.2 = some (e, s) := by
  generalize hk : h ++ [e] = k at hr
  cases hr with
  | nil => exact absurd hk (List.append_ne_nil_of_right_ne_nil _ (List.cons_ne_nil _ _))
  | snoc hr hf =>
      obtain ⟨rfl, he⟩ := List.append_inj' hk rfl
      obtain rfl := List.singleton_inj.mp he
      exact ⟨_, hr, hf⟩

/-- The beginning of a run is a run. -/
theorem of_append {k : List (Q × R)} (hr : M.Run s₀ (h ++ k) s) : ∃ a, M.Run s₀ h a := by
  induction k using List.reverseRecOn generalizing s with
  | nil =>
      rw [List.append_nil] at hr
      exact ⟨s, hr⟩
  | append_singleton k e ih =>
      rw [← List.append_assoc] at hr
      obtain ⟨a, ha, -⟩ := hr.of_snoc
      exact ih ha

end Run

/-- Evaluation only produces runs. -/
theorem Run.of_exec {s₀ s t : σ} {rs : List R} {h k : List (Q × R)} (hr : M.Run s₀ h s)
    (he : M.exec s rs = some (k, t)) : M.Run s₀ (h ++ k) t := by
  induction rs generalizing h s k with
  | nil =>
      simp only [exec, Option.some.injEq, Prod.mk.injEq] at he
      obtain ⟨rfl, rfl⟩ := he
      simpa using hr
  | cons r rs ih =>
      simp only [exec, Option.bind_eq_some_iff, Option.map_eq_some_iff, Prod.mk.injEq] at he
      obtain ⟨⟨e, s'⟩, hf, ⟨k', t'⟩, hrest, rfl, rfl⟩ := he
      have hr' : M.Run s₀ (h ++ [e]) s' := hr.snoc (by rwa [(fire_eq_some.mp hf).2.1])
      simpa using ih hr' hrest

/-- The responses of an evaluated history are those it was evaluated on. -/
theorem exec_responses {s t : σ} {rs : List R} {h : List (Q × R)}
    (he : M.exec s rs = some (h, t)) : h.map Prod.snd = rs := by
  induction rs generalizing s h with
  | nil =>
      simp only [exec, Option.some.injEq, Prod.mk.injEq] at he
      rw [← he.1, List.map_nil]
  | cons r rs ih =>
      simp only [exec, Option.bind_eq_some_iff, Option.map_eq_some_iff, Prod.mk.injEq] at he
      obtain ⟨⟨e, s'⟩, hf, ⟨k, t'⟩, hrest, rfl, rfl⟩ := he
      rw [List.map_cons, (fire_eq_some.mp hf).2.1, ih hrest]

/-- Two calls that ask the same and agree on every admissible response, on the
states of a common invariant, have the same histories. -/
theorem exec_congr {N : Coroutine σ Q R} (I : σ → Prop) (A : R → Prop)
    (hask : M.request = N.request)
    (hagree : ∀ s r, I s → A r → M.resume s r = N.resume s r)
    (hkeep : ∀ s e s', I s → A e.2 → M.fire s e.2 = some (e, s') → I s')
    {s : σ} (hs : I s) {rs : List R} (hrs : ∀ r ∈ rs, A r) : M.exec s rs = N.exec s rs := by
  induction rs generalizing s with
  | nil => rfl
  | cons r rs ih =>
      have hA := hrs r List.mem_cons_self
      have hfire : M.fire s r = N.fire s r := by
        rw [fire, fire, hask, hagree s r hs hA]
      simp only [exec, ← hfire]
      cases hf : M.fire s r with
      | none => rfl
      | some es =>
          obtain ⟨e, s'⟩ := es
          obtain rfl : e.2 = r := (fire_eq_some.mp hf).2.1
          have hI := hkeep s e s' hs hA hf
          simp only [Option.bind_some, ih hI fun r' hr' ↦ hrs r' (List.mem_cons_of_mem _ hr')]

end Coroutine

end Process
