import Mathlib.Logic.Relation

/-!
# Runs of a Partial Step Function

A system is a function that takes a state and a request to an answer and the
next state, or to nothing when the request never comes back. A run makes one
request after another, each of them allowed in the state it is made in and with
the answer it gets.

`invariant_of_reaches` is the induction over runs: what one allowed step
preserves holds wherever a run ends. `follow` is the same notion as a function
of the list of requests, so that a concrete run can be computed and
`reaches_of_follow` turns it into a reachability.

## Main definitions

* `Steps`: One allowed step.
* `Reaches`: A run of allowed steps.
* `follow`: The run of a list of requests.

## Theorems

* `invariant_of_reaches`: The induction over runs.
* `reaches_of_follow`: A computed run is a run.
-/

namespace Mirros

namespace Run

variable {σ α β : Type}

/-- One step, allowed in this state with this answer. -/
def Steps (step : σ → α → Option (β × σ)) (allowed : σ → α → β → Prop) (s s' : σ) : Prop :=
  ∃ a b, step s a = some (b, s') ∧ allowed s a b

/-- A run of allowed steps. -/
def Reaches (step : σ → α → Option (β × σ)) (allowed : σ → α → β → Prop) : σ → σ → Prop :=
  Relation.ReflTransGen (Steps step allowed)

theorem invariant_of_reaches (step : σ → α → Option (β × σ)) (allowed : σ → α → β → Prop)
    (P : σ → Prop)
    (hstep : ∀ s a b s', P s → allowed s a b → step s a = some (b, s') → P s')
    (s s' : σ) (h : Reaches step allowed s s') (hinit : P s) : P s' := by
  induction h with
  | refl => exact hinit
  | tail _ hlast ih =>
      rcases hlast with ⟨a, b, heq, hal⟩
      exact hstep _ a b _ ih hal heq

/-- Make the requests of a list one after another, as long as each is
    allowed. -/
def follow (step : σ → α → Option (β × σ)) (allowed : σ → α → β → Prop)
    [∀ s a b, Decidable (allowed s a b)] : σ → List α → Option σ
  | s, [] => some s
  | s, a :: rest =>
      match step s a with
      | none => none
      | some (b, s') => if allowed s a b then follow step allowed s' rest else none

theorem reaches_of_follow (step : σ → α → Option (β × σ)) (allowed : σ → α → β → Prop)
    [∀ s a b, Decidable (allowed s a b)] :
    ∀ (rest : List α) (s s' : σ), follow step allowed s rest = some s' →
      Reaches step allowed s s' := by
  intro rest
  induction rest with
  | nil =>
      intro s s' h
      simp only [follow, Option.some.injEq] at h
      rw [h]
      exact Relation.ReflTransGen.refl
  | cons a rest ih =>
      intro s s' h
      rw [follow] at h
      -- A run stops at the first step that is not there or not allowed.
      rcases heq : step s a with _ | ⟨b, t⟩
      · rw [heq] at h
        exact absurd h (by simp only [reduceCtorEq, not_false_eq_true])
      · simp only [heq] at h
        by_cases hal : allowed s a b
        · rw [if_pos hal] at h
          exact Relation.ReflTransGen.head ⟨a, b, heq, hal⟩ (ih t s' h)
        · rw [if_neg hal] at h
          exact absurd h (by simp only [reduceCtorEq, not_false_eq_true])

end Run

end Mirros
