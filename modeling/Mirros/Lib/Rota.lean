import Mathlib.Data.List.Rotate

/-!
# Turns

The members of a list that take turns, one at each moment and in the order of
the list, over and over. Moving the first member to the end of the list once at
each moment always leaves the one whose turn it is at the head (`head?_rotate_turn`).
In any span of time as long as the list, each member has its turn exactly once
(`turn_window`).

## Main definitions

* `turn`: Whose turn it is.

## Theorems

* `head?_rotate_turn`: The head of the list after a number of moves.
* `turn_window`: Each member has its turn once in a span.
-/

namespace Mirros

variable {α : Type*}

/-- The member whose turn it is at a moment. -/
def turn (xs : List α) (k : Nat) : Option α :=
  xs[k % xs.length]?

theorem head?_rotate_turn (xs : List α) (hxs : xs ≠ []) (k : Nat) :
    (xs.rotate k).head? = turn xs k := by
  have hlt := Nat.mod_lt k (List.length_pos_iff.mpr hxs)
  rw [← List.rotate_mod, List.head?_rotate hlt]
  rfl

/-- Two moments less than a span apart at which the turns are the same are one. -/
theorem moment_unique (n i j : Nat) (hmod : i % n = j % n) (hij : i ≤ j) (hlt : j < i + n) :
    i = j := by
  have hdvd : n ∣ j - i := Nat.dvd_of_mod_eq_zero (Nat.sub_mod_eq_zero_of_mod_eq hmod.symm)
  have hzero := Nat.eq_zero_of_dvd_of_lt hdvd (by omega)
  omega

/-- Each member has its turn exactly once in a span as long as the list. -/
theorem turn_window (xs : List α) (hnd : xs.Nodup) (k : Nat) (x : α) (hx : x ∈ xs) :
    ∃! j, (k ≤ j ∧ j < k + xs.length) ∧ turn xs j = some x := by
  rcases List.mem_iff_getElem?.mp hx with ⟨i, hi⟩
  have hlt : i < xs.length := (List.getElem?_eq_some_iff.mp hi).1
  have hpos : 0 < xs.length := Nat.zero_lt_of_lt hlt
  -- The moment in the span that falls on the place of `x`.
  have hmod : (k + (i + xs.length - k % xs.length) % xs.length) % xs.length = i := by
    have hk := Nat.mod_lt k hpos
    calc (k + (i + xs.length - k % xs.length) % xs.length) % xs.length
        = (k % xs.length + (i + xs.length - k % xs.length)) % xs.length := by
          rw [Nat.add_mod_mod, Nat.mod_add_mod]
      _ = (i + xs.length) % xs.length := by
          rw [show k % xs.length + (i + xs.length - k % xs.length) = i + xs.length by omega]
      _ = i := by rw [Nat.add_mod_right, Nat.mod_eq_of_lt hlt]
  have hspan := Nat.mod_lt (i + xs.length - k % xs.length) hpos
  refine ⟨k + (i + xs.length - k % xs.length) % xs.length, ⟨⟨by omega, by omega⟩, ?_⟩, ?_⟩
  · unfold turn
    rw [hmod]
    exact hi
  · rintro j ⟨⟨hkj, hjk⟩, hj⟩
    have hplace : j % xs.length = i :=
      (List.getElem?_inj (Nat.mod_lt j hpos) hnd).mp (hj.trans hi.symm)
    rcases Nat.le_total j (k + (i + xs.length - k % xs.length) % xs.length) with hle | hle
    · exact moment_unique xs.length j _ (hplace.trans hmod.symm) hle (by omega)
    · exact (moment_unique xs.length _ j (hmod.trans hplace.symm) hle (by omega)).symm

end Mirros
