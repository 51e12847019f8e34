import Mathlib.Data.Nat.Digits.Lemmas

/-!
# Numerals

The digits of a number as they are written, the most significant one first, and a single zero
for the number zero. Mathlib's `Nat.digits` has them the other way round and none for zero.

A smaller base needs at least as many digits (`numeral_length_mono`), and two bases have a
numeral in common only if it has one digit (`numeral_eq_numeral_iff`).

## Main definitions

* `numeral`: The digits of a number.

## Theorems

* `numeral_of_lt`, `numeral_of_le`: The numeral by the number without its last digit.
* `ofDigits_numeral`: What a numeral stands for.
* `numeral_length_le_iff`: How many digits there are.
-/

namespace Mirros

/-- The digits of a number, the most significant one first. -/
def numeral (b n : Nat) : List Nat :=
  if n = 0 then [0] else (Nat.digits b n).reverse

/-- A number with one digit. -/
theorem numeral_of_lt (b n : Nat) (h : n < b) : numeral b n = [n] := by
  unfold numeral
  split_ifs with hzero
  · rw [hzero]
  · rw [Nat.digits_of_lt b n hzero h, List.reverse_singleton]

/-- A number with more than one: the last digit goes behind the others. -/
theorem numeral_of_le (b n : Nat) (hb : 1 < b) (h : b ≤ n) :
    numeral b n = numeral b (n / b) ++ [n % b] := by
  have hpos : 0 < n := by omega
  have hdiv : n / b ≠ 0 := Nat.ne_of_gt (Nat.div_pos h (by omega))
  unfold numeral
  rw [if_neg (Nat.ne_of_gt hpos), if_neg hdiv, Nat.digits_def' hb hpos, List.reverse_cons]

theorem numeral_lt (b n d : Nat) (hb : 1 < b) (hd : d ∈ numeral b n) : d < b := by
  unfold numeral at hd
  split_ifs at hd with hzero
  · rw [List.mem_singleton] at hd
    omega
  · exact Nat.digits_lt_base hb (List.mem_reverse.mp hd)

/-- The digits stand for the number. -/
theorem ofDigits_numeral (b n : Nat) : Nat.ofDigits b (numeral b n).reverse = n := by
  unfold numeral
  split_ifs with hzero
  · rw [hzero, List.reverse_singleton, Nat.ofDigits_singleton]
  · rw [List.reverse_reverse, Nat.ofDigits_digits]

theorem numeral_length_le_iff (b n k : Nat) (hb : 1 < b) (hk : 0 < k) :
    (numeral b n).length ≤ k ↔ n < b ^ k := by
  unfold numeral
  split_ifs with hzero
  · rw [hzero]
    exact iff_of_true hk (Nat.pow_pos (by omega))
  · rw [List.length_reverse, Nat.digits_length_le_iff hb]

theorem numeral_length_pos (b n : Nat) (hb : 1 < b) : 0 < (numeral b n).length := by
  unfold numeral
  split_ifs with hzero
  · exact Nat.one_pos
  · rw [List.length_reverse, Nat.digits_def' hb (Nat.pos_of_ne_zero hzero)]
    exact Nat.succ_pos _

/-- There are not more digits in a larger base. -/
theorem numeral_length_mono (b c n : Nat) (hb : 1 < b) (h : b ≤ c) :
    (numeral c n).length ≤ (numeral b n).length := by
  have hpos := numeral_length_pos b n hb
  have hlt := (numeral_length_le_iff b n _ hb hpos).mp (Nat.le_refl _)
  refine (numeral_length_le_iff c n _ (by omega) hpos).mpr ?_
  exact Nat.lt_of_lt_of_le hlt (Nat.pow_le_pow_left h _)

/-- Digits behind the last one are worth more in a larger base. -/
theorem numeral_eq_numeral_iff (b c n : Nat) (hb : 1 < b) (h : b < c) :
    numeral b n = numeral c n ↔ n < b := by
  constructor
  · intro heq
    by_contra hge
    have hge : b ≤ n := Nat.le_of_not_lt hge
    have hvalue := ofDigits_numeral c n
    rw [← heq, numeral_of_le b n hb hge, List.reverse_append, List.reverse_singleton,
      List.singleton_append, Nat.ofDigits_cons] at hvalue
    have hrest : n / b ≤ Nat.ofDigits c (numeral b (n / b)).reverse := by
      have hmono := Nat.ofDigits_monotone (numeral b (n / b)).reverse (Nat.le_of_lt h)
      rwa [ofDigits_numeral] at hmono
    have hdiv : 0 < n / b := Nat.div_pos hge (by omega)
    have hsplit := Nat.mod_add_div n b
    have hless : b * (n / b) < c * (n / b) := Nat.mul_lt_mul_of_pos_right h hdiv
    have hmore := Nat.mul_le_mul_left c hrest
    omega
  · intro hlt
    rw [numeral_of_lt b n hlt, numeral_of_lt c n (by omega)]

end Mirros
