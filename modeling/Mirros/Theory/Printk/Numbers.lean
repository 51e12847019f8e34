import Mirros.Lib.Numeral
import Mirros.Core.Printk

/-!
# Printed Numbers

`num_to_str` writes the numeral of its number, and thirty-two places are enough for its
digits in any base. `itoa` writes the numeral of the value without its sign, with a minus sign
before it if the value is negative.

## Main definitions

* `numberText`, `signedText`: The text of a number.

## Theorems

* `numToStr_eq`, `itoa_eq`: What is written and how long it is.
* `signedText_octal`: When a word is the same in decimal as in octal.
-/

namespace Mirros

namespace Printk

/-- The text of a number in a base. -/
def numberText (b n : Nat) : List Byte :=
  (numeral b n).map hexDigit

/-- The text of a number with a sign, in decimal. -/
def signedText (i : Int) : List Byte :=
  if i < 0 then code '-' :: numberText 10 i.natAbs else numberText 10 i.natAbs

theorem numberText_length (b n : Nat) : (numberText b n).length = (numeral b n).length :=
  List.length_map _

/-- Different digits have different characters. -/
theorem hexDigit_inj (m n : Nat) (hm : m < 16) (hn : n < 16) (h : hexDigit m = hexDigit n) :
    m = n := by
  have hall : ∀ i < 16, ∀ j < 16, hexDigit i = hexDigit j → i = j := by decide
  exact hall m hm n hn h

/-- No digit is a minus sign. -/
theorem hexDigit_ne_minus (m : Nat) : hexDigit m ≠ code '-' := by
  have hall : ∀ i < 16, hexDigit i ≠ code '-' := by decide
  rcases Nat.lt_or_ge m 16 with hlt | hge
  · exact hall m hlt
  · unfold hexDigit
    rw [List.getD_eq_default _ _ hge]
    decide

/-- Two texts of digits are the same only if the digits are. -/
theorem map_hexDigit_inj (ds es : List Nat) (hds : ∀ d ∈ ds, d < 16) (hes : ∀ e ∈ es, e < 16)
    (h : ds.map hexDigit = es.map hexDigit) : ds = es := by
  induction ds generalizing es with
  | nil =>
      rw [List.map_nil, eq_comm, List.map_eq_nil_iff] at h
      exact h.symm
  | cons d ds ih =>
      cases es with
      | nil => cases h
      | cons e es =>
          rw [List.map_cons, List.map_cons, List.cons.injEq] at h
          rw [List.forall_mem_cons] at hds hes
          rw [hexDigit_inj d e hds.1 hes.1 h.1, ih es hds.2 hes.2 h.2]

/-- The loop leaves the digits in `tmp_buf` from the last one on, except the first, which it
    leaves in the number if there is more than one. -/
theorem numToStrLoop_eq (bdho : Nat) (hb : 1 < bdho) (places : Nat) : ∀ num tmp,
    (numeral bdho num).length ≤ places →
      ∃ q tmp', numToStrLoop bdho places num tmp = some (q, tmp') ∧
        (if q ≠ 0 then tmp' ++ [hexDigit q] else tmp') = tmp ++ (numberText bdho num).reverse := by
  induction places with
  | zero =>
      intro num tmp hlen
      exact absurd hlen (Nat.not_le_of_lt (numeral_length_pos bdho num hb))
  | succ places ih =>
      intro num tmp hlen
      have hlast : bdho ≤ num → (numberText bdho num).reverse =
          hexDigit (num % bdho) :: (numberText bdho (num / bdho)).reverse := by
        intro hle
        rw [numberText, numeral_of_le bdho num hb hle, List.map_append, List.reverse_append]
        rfl
      rw [numToStrLoop]
      split_ifs with hmore
      · -- At least two digits are left besides the one that was written.
        have hle : bdho ≤ num := Nat.le_trans hmore (Nat.div_le_self num bdho)
        have hshort : (numeral bdho (num / bdho)).length ≤ places := by
          rw [numeral_of_le bdho num hb hle, List.length_append] at hlen
          exact Nat.le_of_succ_le_succ hlen
        rcases ih (num / bdho) (tmp ++ [hexDigit (num % bdho)]) hshort with ⟨q, tmp', hrun, htext⟩
        refine ⟨q, tmp', hrun, ?_⟩
        rw [htext, hlast hle, List.append_assoc, List.singleton_append]
      · refine ⟨num / bdho, tmp ++ [hexDigit (num % bdho)], rfl, ?_⟩
        have hdigit := numeral_of_lt bdho (num / bdho) (Nat.lt_of_not_le hmore)
        split_ifs with hzero
        · have hle : bdho ≤ num := by
            by_contra hlt
            exact hzero (Nat.div_eq_of_lt (Nat.lt_of_not_le hlt))
          rw [hlast hle, List.append_assoc, numberText, hdigit]
          rfl
        · have hlt : num < bdho := by
            by_contra hle
            exact hzero (Nat.ne_of_gt (Nat.div_pos (Nat.le_of_not_lt hle) (by omega)))
          rw [numberText, numeral_of_lt bdho num hlt, Nat.mod_eq_of_lt hlt]
          rfl

/-- `num_to_str` writes the text of a number, which fits into `tmp_buf`. -/
theorem numToStr_eq (buf : Nat → Byte) (str num bdho : Nat) (hb : 1 < bdho) (hnum : num < 2 ^ 32) :
    numToStr buf str num bdho =
      some (putList buf str (numberText bdho num), (numberText bdho num).length) := by
  have hshort : (numeral bdho num).length ≤ 32 := by
    refine (numeral_length_le_iff bdho num 32 hb (by decide)).mpr ?_
    exact Nat.lt_of_lt_of_le hnum (Nat.pow_le_pow_left hb 32)
  rcases numToStrLoop_eq bdho hb 32 num [] hshort with ⟨q, tmp', hrun, htext⟩
  rw [List.nil_append] at htext
  have hlength : (numberText bdho num).length = (numberText bdho num).reverse.length :=
    List.length_reverse.symm
  unfold numToStr
  rw [hrun]
  by_cases hzero : q ≠ 0
  · rw [if_pos hzero] at htext
    have hroom : tmp'.length < 32 := by
      rw [numberText_length, ← htext, List.length_append] at hlength
      change _ = tmp'.length + 1 at hlength
      omega
    simp only [Option.bind_eq_bind, Option.bind_some, if_pos hzero, if_pos hroom, htext,
      List.reverse_reverse, List.length_reverse]
    rfl
  · rw [if_neg hzero] at htext
    simp only [Option.bind_eq_bind, Option.bind_some, if_neg hzero, htext,
      List.reverse_reverse, List.length_reverse]
    rfl

/-- The value of a negative word without its sign. -/
theorem absolute_toNat (num : Word) (h : num.slt 0 = true) :
    (absolute num).toNat = num.toInt.natAbs := by
  have hlt := num.isLt
  unfold BitVec.slt at h
  have hneg : num.toInt < 0 := of_decide_eq_true h
  have hpos : (0 : Word).slt num = false := by
    unfold BitVec.slt
    exact decide_eq_false (fun hc => absurd hneg (not_lt.mpr (Int.le_of_lt hc)))
  have hsub : ~~~num + 1 = -num := (BitVec.neg_eq_not_add num).symm
  unfold absolute
  rw [hpos, if_neg (by decide), hsub, BitVec.toNat_neg]
  rw [BitVec.toInt_eq_toNat_cond] at hneg ⊢
  split_ifs at hneg ⊢ with hsmall
  · omega
  · omega

/-- `itoa` writes the text of a number with its sign. -/
theorem itoa_eq (buf : Nat → Byte) (str : Nat) (num : Word) :
    itoa buf str num =
      some (putList buf str (signedText num.toInt), (signedText num.toInt).length) := by
  have hlt := num.isLt
  unfold itoa signedText
  by_cases hneg : num.slt 0 = true
  · have hint : num.toInt < 0 := by
      unfold BitVec.slt at hneg
      exact of_decide_eq_true hneg
    have habs := absolute_toNat num hneg
    have hnum : num.toInt.natAbs < 2 ^ 32 := habs ▸ (absolute num).isLt
    rw [if_pos hneg, if_pos hint]
    dsimp only
    rw [habs, numToStr_eq _ _ _ 10 (by decide) hnum, Option.bind_eq_bind, Option.bind_some]
    have hput := putList_append buf str [code '-'] (numberText 10 num.toInt.natAbs)
    rw [show str + [code '-'].length = str + 1 from rfl] at hput
    rw [hput]
    rfl
  · have hint : ¬ num.toInt < 0 := by
      intro hc
      unfold BitVec.slt at hneg
      exact hneg (decide_eq_true hc)
    have habs : num.toNat = num.toInt.natAbs := by
      rw [BitVec.toInt_eq_toNat_cond] at hint ⊢
      split_ifs at hint ⊢ with hsmall
      · rfl
      · omega
    rw [if_neg hneg, if_neg hint, habs]
    exact numToStr_eq buf str _ 10 (by decide) (habs ▸ hlt)

/-- In decimal, with its sign, a word is not longer than in octal, and it is the same only if it
    has one digit. -/
theorem signedText_octal (w : Word) :
    (signedText w.toInt).length ≤ (numberText 8 w.toNat).length ∧
      (signedText w.toInt = numberText 8 w.toNat ↔ w.toNat < 8) := by
  have hlt := w.isLt
  unfold signedText
  rw [BitVec.toInt_eq_toNat_cond]
  split_ifs with hsmall hneg hneg
  · omega
  · -- Both are numerals of one number.
    have habs : (w.toNat : Int).natAbs = w.toNat := Int.natAbs_natCast w.toNat
    rw [habs, numberText_length, numberText_length]
    refine ⟨numeral_length_mono 8 10 w.toNat (by decide) (by decide), fun heq => ?_, fun h => ?_⟩
    · have hdigits : ∀ b, 1 < b → b ≤ 10 → ∀ d ∈ numeral b w.toNat, d < 16 := by
        intro b hb hle d hd
        exact Nat.lt_of_lt_of_le (numeral_lt b w.toNat d hb hd) (by omega)
      have hsame := map_hexDigit_inj _ _ (hdigits 10 (by decide) (by decide))
        (hdigits 8 (by decide) (by decide)) heq
      exact (numeral_eq_numeral_iff 8 10 w.toNat (by decide) (by decide)).mp hsame.symm
    · unfold numberText
      rw [(numeral_eq_numeral_iff 8 10 w.toNat (by decide) (by decide)).mpr h]
  · -- The minus sign takes the place of the eleventh octal digit.
    have hshort : (numeral 10 ((w.toNat : Int) - (2 ^ 32 : Nat)).natAbs).length ≤ 10 :=
      (numeral_length_le_iff 10 _ 10 (by decide) (by decide)).mpr (by omega)
    have hlong : 10 < (numeral 8 w.toNat).length := by
      by_contra hc
      have hc := (numeral_length_le_iff 8 w.toNat 10 (by decide) (by decide)).mp (by omega)
      omega
    refine ⟨?_, iff_of_false (fun heq => ?_) (by omega)⟩
    · rw [List.length_cons, numberText_length, numberText_length]
      omega
    · have hmem : code '-' ∈ numberText 8 w.toNat := heq ▸ List.mem_cons_self
      rcases List.mem_map.mp hmem with ⟨d, -, hd⟩
      exact hexDigit_ne_minus d hd
  · omega

end Printk

end Mirros
