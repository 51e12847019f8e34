import Mathlib.Data.BitVec
import Mathlib.Logic.Function.Basic

/-!
# Bitmaps

The bit operations of `kernel/bitops.c` and `include/os/bitops.h`. A bitmap is
an array of 32-bit words, and position `n` is bit `n % 32` of word `n / 32`.

The array is a total function from word numbers to words. How many of those
words belong to the bitmap is a fact about whoever declared it, so it is not
part of this module: the page map carries its own length in `Core.Mm`.

`used` is the reading of a bitmap as a set of positions. `readBit` computes it
by masking and shifting, `setBit` and `clearBit` change it at one position, and
the rest of the development only looks at bitmaps through these three facts.

## Main definitions

* `BitOp`: The operation code of `op_bits`.
* `opBits`: The word-level operation behind all three accessors.
* `setBit`, `clearBit`, `readBit`: The accessors.
* `initBitmap`: Clearing a bitmap.
* `bitsToLong`: The number of words a bitmap is declared with.
* `used`: The set of positions whose bit is one.

## Theorems

* `readBit_eq_zero_iff`: Reading zero means the position is not used.
* `used_setBit`: Setting a bit uses exactly that position.
* `used_clearBit`: Clearing a bit frees exactly that position.
-/

namespace Mirros

/-- `bit_ops_t` -/
inductive BitOp where
  | clear
  | set
  | read
  deriving DecidableEq, Repr

/-- The words of a bitmap. -/
abbrev Bitmap : Type := Nat → BitVec 32

/-- `get_bit_pos`: the word and the bit inside it. -/
def getBitPos (n : Nat) : Nat × Nat :=
  (n / 32, n % 32)

/-- `op_bits`: the bitmap afterwards and the result of the operation. -/
def opBits (bitMap : Bitmap) (n : Nat) (ops : BitOp) : Bitmap × Nat :=
  let x := (getBitPos n).1
  let y := (getBitPos n).2
  match ops with
  | .clear => (Function.update bitMap x (bitMap x &&& ~~~(1#32 <<< y)), 0)
  | .set => (Function.update bitMap x (bitMap x ||| (1#32 <<< y)), 0)
  | .read => (bitMap, ((bitMap x &&& (1#32 <<< y)) >>> y).toNat)

/-- `clear_bit` -/
def clearBit (bitMap : Bitmap) (n : Nat) : Bitmap :=
  (opBits bitMap n .clear).1

/-- `set_bit` -/
def setBit (bitMap : Bitmap) (n : Nat) : Bitmap :=
  (opBits bitMap n .set).1

/-- `read_bit` -/
def readBit (bitMap : Bitmap) (n : Nat) : Nat :=
  (opBits bitMap n .read).2

/-- `init_bitmap`, undefined when it leaves an array of `words` words. -/
def initBitmap (words : Nat) (bitmap : Bitmap) (n : Int) : Option Bitmap :=
  (List.range n.toNat).foldlM
    (fun m i => if (getBitPos i).1 < words then some (clearBit m i) else none) bitmap

/-- `bits_to_long`: the mask drops the low six bits, although a word holds
    thirty-two positions. -/
def bitsToLong (n : Nat) : Nat :=
  (n &&& 0xffffffc0) / 32 + 1

/-- The position is marked in the bitmap. -/
def used (bitMap : Bitmap) (n : Nat) : Bool :=
  (bitMap (n / 32)).getLsbD (n % 32)

/-- A map is what its bits are. -/
theorem bitmap_ext (bitMap bitMap' : Bitmap) (h : ∀ n, used bitMap n = used bitMap' n) :
    bitMap = bitMap' := by
  funext w
  refine BitVec.eq_of_getLsbD_eq (fun j hj => ?_)
  have hbit := h (32 * w + j)
  have hdiv : (32 * w + j) / 32 = w := by omega
  have hmod : (32 * w + j) % 32 = j := by omega
  unfold used at hbit
  rw [hdiv, hmod] at hbit
  exact hbit

theorem readBit_eq (bitMap : Bitmap) (n : Nat) :
    readBit bitMap n = if used bitMap n then 1 else 0 := by
  have hy : n % 32 < 32 := Nat.mod_lt n (by omega)
  -- Shifting the masked word down leaves the selected bit alone in place zero.
  have hword : (bitMap (n / 32) &&& (1#32 <<< (n % 32))) >>> (n % 32)
      = if used bitMap n then 1#32 else 0#32 := by
    ext i hi
    rw [used]
    by_cases hi0 : i = 0
    · subst hi0
      by_cases hb : (bitMap (n / 32)).getLsbD (n % 32) = true
      · simp [hb, hy]
      · simp [hb]
    · by_cases hb : (bitMap (n / 32)).getLsbD (n % 32) = true
      · simp [hb, hi0]
      · simp [hb, hi0]
  unfold readBit opBits getBitPos
  simp only [hword]
  by_cases hb : used bitMap n = true
  · rw [if_pos hb, if_pos hb]
    rfl
  · rw [if_neg hb, if_neg hb]
    rfl

theorem readBit_eq_zero_iff (bitMap : Bitmap) (n : Nat) :
    readBit bitMap n = 0 ↔ used bitMap n = false := by
  rw [readBit_eq]
  by_cases hb : used bitMap n = true
  · rw [if_pos hb, hb]
    simp only [one_ne_zero, Bool.true_eq_false]
  · rw [if_neg hb]
    simp only [true_iff]
    simpa only [Bool.not_eq_true] using hb

theorem eq_of_div_mod (m n k : Nat) (hd : m / k = n / k) (hm : m % k = n % k) : m = n := by
  rw [← Nat.div_add_mod m k, ← Nat.div_add_mod n k, hd, hm]

theorem used_setBit (bitMap : Bitmap) (n m : Nat) :
    used (setBit bitMap n) m = (decide (m = n) || used bitMap m) := by
  have hy : m % 32 < 32 := Nat.mod_lt m (by omega)
  unfold used setBit opBits getBitPos
  simp only [Function.update_apply]
  by_cases hx : m / 32 = n / 32
  · rw [if_pos hx, hx]
    by_cases hb : m % 32 = n % 32
    · have hmn : m = n := eq_of_div_mod m n 32 hx hb
      subst hmn
      simp [hy]
    · have hmn : m ≠ n := fun hc => hb (by rw [hc])
      have hsub : m % 32 < n % 32 ∨ m % 32 - n % 32 ≠ 0 := by omega
      rcases hsub with hlt | hne
      · simp [hy, hlt, hmn]
      · simp [hy, hne, hmn]
  · have hmn : m ≠ n := fun hc => hx (by rw [hc])
    rw [if_neg hx]
    simp [hmn]

theorem used_clearBit (bitMap : Bitmap) (n m : Nat) :
    used (clearBit bitMap n) m = (!decide (m = n) && used bitMap m) := by
  have hy : m % 32 < 32 := Nat.mod_lt m (by omega)
  unfold used clearBit opBits getBitPos
  simp only [Function.update_apply]
  by_cases hx : m / 32 = n / 32
  · rw [if_pos hx, hx]
    by_cases hb : m % 32 = n % 32
    · have hmn : m = n := eq_of_div_mod m n 32 hx hb
      subst hmn
      simp [hy]
    · have hmn : m ≠ n := fun hc => hb (by rw [hc])
      have hsub : m % 32 < n % 32 ∨ m % 32 - n % 32 ≠ 0 := by omega
      rcases hsub with hlt | hne
      · simp [hy, hlt, hmn]
      · simp [hy, hne, hmn]
  · have hmn : m ≠ n := fun hc => hx (by rw [hc])
    rw [if_neg hx]
    simp [hmn]

end Mirros
