import Mathlib.Data.List.Basic
import Mathlib.Logic.Function.Basic

/-!
# Loops of Writes

A loop that writes one cell of an array in each turn. When the cells are
different, each holds what its turn wrote, and the cells the loop does not visit
are as they were.

## Main definitions

* `writeLoop`: The loop.

## Theorems

* `writeLoop_hit`: A cell the loop visits.
* `writeLoop_miss`: A cell the loop does not visit.
* `writeLoop_run`: The loop over a run of consecutive cells.
-/

namespace Mirros

variable {κ β : Type*} [DecidableEq κ]

/-- Write `f i` to the cell `cell i` for `i` from zero to `n - 1`. -/
def writeLoop (cell : Nat → κ) (f : Nat → β) (n : Nat) (t : κ → β) : κ → β :=
  (List.range n).foldl (fun t i => Function.update t (cell i) (f i)) t

theorem writeLoop_succ (cell : Nat → κ) (f : Nat → β) (n : Nat) (t : κ → β) :
    writeLoop cell f (n + 1) t = Function.update (writeLoop cell f n t) (cell n) (f n) := by
  unfold writeLoop
  rw [List.range_succ, List.foldl_append]
  rfl

theorem writeLoop_miss (cell : Nat → κ) (f : Nat → β) (n : Nat) (t : κ → β) (x : κ)
    (h : ∀ i < n, cell i ≠ x) : writeLoop cell f n t x = t x := by
  induction n with
  | zero => rfl
  | succ n ih =>
      rw [writeLoop_succ, Function.update_of_ne (fun hc => h n (by omega) hc.symm)]
      exact ih (fun i hi => h i (by omega))

theorem writeLoop_hit (cell : Nat → κ) (f : Nat → β) (n : Nat) (t : κ → β)
    (hinj : ∀ i < n, ∀ j < n, cell i = cell j → i = j) (i : Nat) (hi : i < n) :
    writeLoop cell f n t (cell i) = f i := by
  induction n with
  | zero => omega
  | succ n ih =>
      rw [writeLoop_succ]
      -- Later writes go to other cells.
      by_cases hin : i = n
      · rw [hin, Function.update_self]
      · have hne : cell i ≠ cell n := fun hc => hin (hinj i hi n (by omega) hc)
        rw [Function.update_of_ne hne]
        exact ih (fun i hi j hj => hinj i (by omega) j (by omega)) (by omega)

/-- A loop over consecutive cells. -/
theorem writeLoop_run (base : Nat) (f : Nat → β) (n : Nat) (t : Nat → β) (x : Nat) :
    writeLoop (fun i => base + i) f n t x
      = if base ≤ x ∧ x < base + n then f (x - base) else t x := by
  by_cases hx : base ≤ x ∧ x < base + n
  · rw [if_pos hx]
    have hcell : base + (x - base) = x := by omega
    have hhit := writeLoop_hit (fun i => base + i) f n t (fun i _ j _ hij => by omega) (x - base)
      (by omega)
    simp only [hcell] at hhit
    exact hhit
  · rw [if_neg hx]
    exact writeLoop_miss _ f n t x (fun i hi hc => hx (by omega))

end Mirros
