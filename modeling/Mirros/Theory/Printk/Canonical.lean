import Mirros.Theory.Printk.Numbers

/-!
# Printed Numbers Are Canonical

What the functions of `kernel/string.c` write, as a reader sees it: digits of the base, the
first of them no zero unless it is the only one, that stand for the number. In decimal with a
sign, the most negative number is no exception: `absolute` leaves it as it is, and as an
unsigned word it has the right value.

## Main definitions

* `IsNumeral`, `IsSigned`: A text that stands for a number.

## Theorems

* `isNumeral_numberText`, `isSigned_signedText`: The texts that are written stand for the
  number.
* `numbers_canonical`: What `num_to_str` and `itoa` write.
-/

namespace Mirros

namespace Printk

/-- The text is digits of the base that stand for the number, without a leading zero. Zero is
    the digit zero. -/
def IsNumeral (b n : Nat) (text : List Byte) : Prop :=
  ∃ ds : List Nat, text = ds.map hexDigit ∧ (∀ d ∈ ds, d < b) ∧
    Nat.ofDigits b ds.reverse = n ∧ if n = 0 then ds = [0] else ds.head? ≠ some 0

/-- The text is a decimal number, with a minus sign if it is negative. -/
def IsSigned (i : Int) (text : List Byte) : Prop :=
  ∃ n digits, IsNumeral 10 n digits ∧
    ((text = digits ∧ i = n) ∨ (text = code '-' :: digits ∧ n ≠ 0 ∧ i = -n))

/-- The first digit of a number is no zero. -/
theorem numeral_head (b n : Nat) (hn : n ≠ 0) : (numeral b n).head? ≠ some 0 := by
  unfold numeral
  rw [if_neg hn, List.head?_reverse]
  intro hlast
  have hne : Nat.digits b n ≠ [] := Nat.digits_ne_nil_iff_ne_zero.mpr hn
  rw [List.getLast?_eq_some_getLast hne, Option.some.injEq] at hlast
  exact Nat.getLast_digit_ne_zero b hn hlast

theorem isNumeral_numberText (b n : Nat) (hb : 1 < b) : IsNumeral b n (numberText b n) := by
  refine ⟨numeral b n, rfl, fun d hd => numeral_lt b n d hb hd, ofDigits_numeral b n, ?_⟩
  by_cases hn : n = 0
  · rw [if_pos hn, hn]
    exact numeral_of_lt b 0 (by omega)
  · rw [if_neg hn]
    exact numeral_head b n hn

theorem isSigned_signedText (i : Int) : IsSigned i (signedText i) := by
  have hdigits := isNumeral_numberText 10 i.natAbs (by decide)
  refine ⟨i.natAbs, numberText 10 i.natAbs, hdigits, ?_⟩
  unfold signedText
  by_cases hneg : i < 0
  · rw [if_pos hneg]
    exact Or.inr ⟨rfl, by omega, by omega⟩
  · rw [if_neg hneg]
    exact Or.inl ⟨rfl, by omega⟩

/-- A word has at most thirty-two digits. -/
theorem numberText_short (b : Nat) (num : Word) (hb : 1 < b) :
    (numberText b num.toNat).length ≤ 32 := by
  rw [numberText_length, numeral_length_le_iff b _ 32 hb (by decide)]
  exact Nat.lt_of_lt_of_le num.isLt (Nat.pow_le_pow_left hb 32)

/-- In each base `num_to_str` comes back with the number in the buffer and its length, and
    `tmp_buf` has a place for every digit. `itoa` does so for every signed word. -/
theorem numbers_canonical (buf : Nat → Byte) (str : Nat) :
    (∀ (num : Word), ∀ base ∈ [2, 8, 10, 16], ∃ text,
      numToStr buf str num.toNat base = some (putList buf str text, text.length) ∧
        IsNumeral base num.toNat text ∧ text.length ≤ 32) ∧
      ∀ num : Word, ∃ text, itoa buf str num = some (putList buf str text, text.length) ∧
        IsSigned num.toInt text := by
  constructor
  · intro num base hbase
    have hb : 1 < base := by
      have hall : ∀ b ∈ [2, 8, 10, 16], 1 < b := by decide
      exact hall base hbase
    exact ⟨numberText base num.toNat, numToStr_eq buf str num.toNat base hb num.isLt,
      isNumeral_numberText base num.toNat hb, numberText_short base num hb⟩
  · intro num
    exact ⟨signedText num.toInt, itoa_eq buf str num, isSigned_signedText num.toInt⟩

/-- The most negative number. -/
example : signedText (BitVec.ofInt 32 (-2147483648)).toInt = "-2147483648".toList.map code := by
  decide +kernel

end Printk

end Mirros
