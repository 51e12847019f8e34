import Mathlib.Data.List.Basic

/-!
# Content in Pieces

Two ways of reading something to its end in pieces. A reader that asks for blocks
of one size knows that it is done when a block is not full, or when a read fails
(`untilShort`). A reader that asks for pieces of any sizes knows it when it gets
nothing (`drain`).

Either way the pieces together are the content, if each read gives as much as
was asked for and is there.

## Main definitions

* `untilShort`: Reading blocks until one is short.
* `drain`: Reading pieces until one is empty.

## Theorems

* `untilShort_blocks`: Blocks of a content make up the content.
* `untilShort_failed`: A read that fails comes after full blocks only.
* `drain_all`: Pieces of a content make up the content.
-/

namespace Mirros

variable {α : Type*}

/-- What the reads from the `n`-th on give until one is not a full block, and
    whether it was one that failed. The first number bounds the reads. -/
def untilShort (block : Nat) (read : Nat → Option (List α)) : Nat → Nat → List α × Bool
  | 0, _ => ([], false)
  | fuel + 1, n =>
      match (read n).map (List.take block) with
      | none => ([], true)
      | some xs =>
          if xs.length = block then
            (xs ++ (untilShort block read fuel (n + 1)).1, (untilShort block read fuel (n + 1)).2)
          else (xs, false)

theorem untilShort_none (block : Nat) (read : Nat → Option (List α)) (fuel n : Nat)
    (h : read n = none) : untilShort block read (fuel + 1) n = ([], true) := by
  simp only [untilShort, h, Option.map_none]

theorem untilShort_full (block : Nat) (read : Nat → Option (List α)) (fuel n : Nat) (xs : List α)
    (h : (read n).map (List.take block) = some xs) (hlen : xs.length = block) :
    untilShort block read (fuel + 1) n =
      (xs ++ (untilShort block read fuel (n + 1)).1, (untilShort block read fuel (n + 1)).2) := by
  simp only [untilShort, h, if_pos hlen]

theorem untilShort_short (block : Nat) (read : Nat → Option (List α)) (fuel n : Nat) (xs : List α)
    (h : (read n).map (List.take block) = some xs) (hlen : xs.length ≠ block) :
    untilShort block read (fuel + 1) n = (xs, false) := by
  simp only [untilShort, h, if_neg hlen]

/-- The blocks before a read that fails are full. -/
theorem untilShort_failed (block : Nat) (read : Nat → Option (List α)) (fuel n : Nat)
    (h : (untilShort block read fuel n).2 = true) :
    (untilShort block read fuel n).1.length % block = 0 := by
  induction fuel generalizing n with
  | zero => exact Nat.zero_mod block
  | succ fuel ih =>
      rcases hread : (read n).map (List.take block) with _ | xs
      · rw [untilShort_none block read fuel n (Option.map_eq_none_iff.mp hread)]
        exact Nat.zero_mod block
      · -- Only a full block is followed by another read.
        by_cases hlen : xs.length = block
        · rw [untilShort_full block read fuel n xs hread hlen] at h ⊢
          simp only [List.length_append, hlen, Nat.add_mod_left]
          exact ih (n + 1) h
        · rw [untilShort_short block read fuel n xs hread hlen] at h
          exact absurd h (by simp only [Bool.false_eq_true, not_false_eq_true])

/-- The blocks of a content, as far as there are reads for them. -/
theorem untilShort_blocks (block : Nat) (content : List α) (fuel n : Nat) :
    untilShort block (fun n => some ((content.drop (block * n)).take block)) fuel n
      = ((content.drop (block * n)).take (block * fuel), false) := by
  induction fuel generalizing n with
  | zero => rw [Nat.mul_zero, List.take_zero, untilShort]
  | succ fuel ih =>
      have hread : (some ((content.drop (block * n)).take block)).map (List.take block)
          = some ((content.drop (block * n)).take block) := by
        rw [Option.map_some, List.take_take, Nat.min_self]
      by_cases hlen : ((content.drop (block * n)).take block).length = block
      · rw [untilShort_full block _ fuel n _ hread hlen, ih (n + 1), Nat.mul_succ block n,
          ← List.drop_drop, Nat.mul_succ block fuel, Nat.add_comm (block * fuel), List.take_add]
      · -- A short block is all that is left.
        rw [untilShort_short block _ fuel n _ hread hlen]
        have hall : (content.drop (block * n)).length ≤ block := by
          rw [List.length_take] at hlen
          omega
        have hmore : block ≤ block * (fuel + 1) := Nat.le_mul_of_pos_right block (Nat.succ_pos fuel)
        rw [List.take_of_length_le hall, List.take_of_length_le (Nat.le_trans hall hmore)]

/-- The pieces read from the `n`-th read on until one is empty. The first number
    bounds the reads. -/
def drain (size : Nat → Nat) : Nat → Nat → List α → Option (List α)
  | 0, _, _ => none
  | fuel + 1, n, xs =>
      if (xs.take (size n)).length = 0 then some []
      else (drain size fuel (n + 1) (xs.drop (size n))).map (xs.take (size n) ++ ·)

/-- Reads that ask for something get everything. -/
theorem drain_all (size : Nat → Nat) (hsize : ∀ n, 0 < size n) (fuel n : Nat) (xs : List α)
    (hfuel : xs.length < fuel) : drain size fuel n xs = some xs := by
  induction fuel generalizing n xs with
  | zero => exact absurd hfuel (Nat.not_lt_zero _)
  | succ fuel ih =>
      have hpos := hsize n
      -- A piece of length zero is the end, and there is nothing left.
      by_cases hempty : (xs.take (size n)).length = 0
      · rw [List.length_take] at hempty
        have hnil : xs = [] := List.length_eq_zero_iff.mp (by omega)
        rw [hnil]
        simp only [drain, List.take_nil, List.length_nil, if_true]
      · rw [drain, if_neg hempty]
        rw [List.length_take] at hempty
        rw [ih (n + 1) _ (by rw [List.length_drop]; omega), Option.map_some,
          List.take_append_drop]

end Mirros
