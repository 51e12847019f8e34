import Mirros.Theory.Pages.Boot

/-!
# Updating and Declaring Bitmaps

`update_memory_bitmap` writes the bits from `index` to `index + count` and no others. The
loop compares its counter with the sum as an unsigned word, so the sum is taken modulo the
word size; for a sum that is a word this is the sum.

`bits_to_long` is the number of words a bitmap of `n` positions is declared with. Its mask
drops six bits of `n` where five would be right, so there is one word for the last up to
sixty-three positions. `op_bits` finds thirty-two positions in a word. The two agree when
the positions behind the last multiple of sixty-four fit into one word.

## Main definitions

* `HoldsBits`: Every access to a bitmap of `n` positions is inside its words.

## Theorems

* `updateBitmap_exact`: The bits after `update_memory_bitmap`.
* `updateMemoryBitmap_eq`: The page allocator's view of it.
* `bitsToLong_exact`: When a bitmap is large enough.
-/

namespace Mirros

namespace Mm

/-- A sum that is a word. -/
theorem bitmapEnd_eq (index : Nat) (count : Int) (hlow : 0 ≤ index + count)
    (hhigh : index + count < u32Size) : (bitmapEnd index count : Int) = index + count := by
  unfold bitmapEnd
  rw [Int.emod_eq_of_lt hlow hhigh, Int.toNat_of_nonneg hlow]

theorem bitmapEnd_lt (index : Nat) (count : Int) : bitmapEnd index count < u32Size := by
  unfold bitmapEnd u32Size
  omega

/-- Reading a bit after one was written. -/
theorem readBit_writeBit (map : Bitmap) (n p : Nat) (update : Int) :
    readBit (if update ≠ 0 then setBit map n else clearBit map n) p
      = if p = n then (if update ≠ 0 then 1 else 0) else readBit map p := by
  have hused := used_writeBit map n p (decide (update ≠ 0))
  simp only [decide_eq_true_eq] at hused
  rw [readBit_eq, hused, readBit_eq]
  by_cases hp : p = n
  · simp only [if_pos hp, decide_eq_true_eq]
  · simp only [if_neg hp]

/-- The loop from `i` writes the bits up to the end. -/
theorem updateLoop_exact (words last : Nat) (update : Int) (hlast : last < u32Size)
    (hinside : last ≤ 32 * words) : ∀ (fuel i : Nat) (map : Bitmap), last - i < fuel →
      ∃ map', updateLoop words last update fuel i map = some map' ∧ ∀ p,
        readBit map' p = if i ≤ p ∧ p < last then (if update ≠ 0 then 1 else 0)
          else readBit map p := by
  intro fuel
  induction fuel with
  | zero => exact fun i map hfuel => absurd hfuel (Nat.not_lt_zero _)
  | succ fuel ih =>
      intro i map hfuel
      rw [updateLoop]
      by_cases hi : i < last
      · have hword : (getBitPos i).1 < words := by
          unfold getBitPos
          omega
        have hnext : add32 i 1 = i + 1 := by
          unfold add32
          exact Nat.mod_eq_of_lt (by omega)
        rw [if_pos hi, if_pos hword, hnext]
        rcases ih (i + 1) (if update ≠ 0 then setBit map i else clearBit map i) (by omega) with
          ⟨map', hrun, hbits⟩
        refine ⟨map', hrun, fun p => ?_⟩
        rw [hbits p, readBit_writeBit]
        -- The bit of `i` itself was written in this turn.
        by_cases hp : p = i
        · have hout : ¬(i + 1 ≤ p ∧ p < last) := by omega
          have hin : i ≤ p ∧ p < last := by omega
          rw [if_neg hout, if_pos hp, if_pos hin]
        · have hsame : (i + 1 ≤ p ∧ p < last) ↔ (i ≤ p ∧ p < last) := by omega
          simp only [if_neg hp, hsame]
      · have hout : ∀ p, ¬(i ≤ p ∧ p < last) := by omega
        exact ⟨map, if_neg hi, fun p => (if_neg (hout p)).symm⟩

/-- `update_memory_bitmap` writes the bits from `index` to `index + count` and leaves every
    other bit as it is, when it ends inside the map. -/
theorem updateBitmap_exact (words : Nat) (map : Bitmap) (index : Nat) (count update : Int)
    (hinside : bitmapEnd index count ≤ 32 * words) :
    ∃ map', updateBitmap words map index count update = some map' ∧
      ∀ p, readBit map' p = if index ≤ p ∧ p < bitmapEnd index count then
        (if update ≠ 0 then 1 else 0) else readBit map p :=
  updateLoop_exact words _ update (bitmapEnd_lt index count) hinside _ index map (Nat.lt_succ_self _)

/-- Forty bits from position 30 on cross a word and write its bit 31. -/
theorem updateBitmap_exact_cross :
    bitmapEnd 30 40 = 70 ∧ ∃ map', updateBitmap 4 (fun _ => 0#32) 30 40 1 = some map' ∧
      ∀ p, readBit map' p = if 30 ≤ p ∧ p < bitmapEnd 30 40 then
        (if (1 : Int) ≠ 0 then 1 else 0) else readBit (fun _ => 0#32) p :=
  ⟨by decide, updateBitmap_exact 4 (fun _ => 0#32) 30 40 1 (by decide)⟩

/-- What the page allocator knows of `update_memory_bitmap`: it calls it with a count that
    is not negative and ends inside the map of a 32-bit address space. -/
theorem updateMemoryBitmap_eq (mm : Mm) (index count : Nat) (update : Bool)
    (hword : index + count < u32Size) (hinside : index + count ≤ 32 * mm.mapWords) :
    (mm.updateMemoryBitmap index count update).map Mm.pageMap
      = updateBitmap mm.mapWords mm.pageMap index count (if update then 1 else 0) := by
  have hend : bitmapEnd index count = index + count := by
    have hsum := bitmapEnd_eq index count (by omega) (by exact_mod_cast hword)
    exact_mod_cast hsum
  rcases updateBitmap_exact mm.mapWords mm.pageMap index count (if update then 1 else 0)
    (hend.trans_le hinside) with ⟨map', hrun, hbits⟩
  rw [hrun, updateMemoryBitmap, if_pos (Or.inr hinside), Option.map_some, Option.some.injEq]
  apply bitmap_ext
  intro p
  have hread := hbits p
  rw [hend, readBit_eq, readBit_eq] at hread
  rw [used_foldl_bits]
  by_cases hin : index ≤ p ∧ p < index + count
  · rw [if_pos hin] at hread ⊢
    cases update with
    | true => cases hp : used map' p <;> simp_all
    | false => cases hp : used map' p <;> simp_all
  · rw [if_neg hin] at hread ⊢
    cases hp : used map' p <;> cases hm : used mm.pageMap p <;> simp_all

end Mm

/-- `init_bitmap` comes back exactly when every position is inside the array. -/
theorem initBitmap_isSome (words : Nat) (n : Int) (bitmap : Bitmap) :
    (initBitmap words bitmap n).isSome = true ↔ ∀ i < n.toNat, (getBitPos i).1 < words := by
  unfold initBitmap
  induction n.toNat with
  | zero => exact iff_of_true rfl (fun i hi => absurd hi (Nat.not_lt_zero i))
  | succ k ih =>
      rw [List.range_succ, List.foldlM_append]
      rcases hrun : (List.range k).foldlM (fun m i => if (getBitPos i).1 < words
          then some (clearBit m i) else none) bitmap with _ | map
      · rw [hrun] at ih
        refine iff_of_false Bool.false_ne_true (fun hall => ?_)
        exact Bool.false_ne_true (ih.mpr (fun i hi => hall i (Nat.lt_succ_of_lt hi)))
      · rw [hrun] at ih
        have hbelow := ih.mp rfl
        simp only [Option.bind_eq_bind, Option.bind_some, List.foldlM_cons, List.foldlM_nil]
        by_cases hk : (getBitPos k).1 < words
        · rw [if_pos hk]
          refine iff_of_true rfl (fun i hi => ?_)
          rcases Nat.lt_succ_iff_lt_or_eq.mp hi with hlt | heq
          · exact hbelow i hlt
          · rw [heq]
            exact hk
        · rw [if_neg hk]
          exact iff_of_false Bool.false_ne_true (fun hall => hk (hall k (Nat.lt_succ_self k)))

/-- The words `bits_to_long` gives for `n` positions hold every position: the one `op_bits`
    writes, the ones `init_bitmap` clears, and those of the page map when there are `n`
    pages. `init_bitmap` takes `n` as a signed word. -/
def HoldsBits (n : Nat) : Prop :=
  (∀ i < n, (getBitPos i).1 < bitsToLong n) ∧
    (∀ bitmap, (initBitmap (bitsToLong n) bitmap (BitVec.ofNat 32 n).toInt).isSome = true) ∧
    ∀ (mm : Mm) (kernelEnd uninit : Nat), mm.totalPage = n →
      ∀ i < n, (mm.initPageTableMap kernelEnd uninit).inMap i = true

/-- The mask of `bits_to_long` rounds down to a multiple of sixty-four. -/
theorem bitsToLong_eq (n : Nat) (h : n < 2 ^ 32) : bitsToLong n = 2 * (n / 64) + 1 := by
  have hmask : n &&& 0xffffffc0 = n / 2 ^ 6 * 2 ^ 6 := Mm.and_mask n 6 h (by decide)
  unfold bitsToLong
  rw [hmask]
  omega

/-- Every position is inside the words exactly when the positions behind the last multiple
    of sixty-four fit into one word. -/
theorem words_hold (n : Nat) (h : n < 2 ^ 32) :
    (∀ i < n, (getBitPos i).1 < bitsToLong n) ↔ n % 64 ≤ 32 := by
  rw [bitsToLong_eq n h]
  unfold getBitPos
  constructor
  · intro hall
    by_contra hmod
    have hlast := hall (n - 1) (by omega)
    simp only at hlast
    omega
  · intro hmod i hi
    simp only
    omega

/-- A bitmap of `n` positions is large enough if and only if `n` leaves at most thirty-two
    when it is divided by sixty-four. -/
theorem bitsToLong_exact (n : Nat) (hlow : 1 ≤ n) (hhigh : n < 2 ^ 32) :
    HoldsBits n ↔ n % 64 ≤ 32 := by
  have hwords := words_hold n hhigh
  constructor
  · exact fun hall => hwords.mp hall.1
  · intro hmod
    have hhold := hwords.mpr hmod
    refine ⟨hhold, fun bitmap => ?_, fun mm kernelEnd uninit htotal i hi => ?_⟩
    · rw [initBitmap_isSome]
      intro i hi
      apply hhold
      rw [BitVec.toInt_eq_toNat_cond, BitVec.toNat_ofNat] at hi
      split_ifs at hi
      · omega
      · omega
    · unfold Mm.inMap
      rw [(Mm.initPageTableMap_frame mm kernelEnd uninit).2.1, htotal]
      exact decide_eq_true (hhold i hi)

/-- Sixteen thousand pages, as many as 64 MiB have, and one page more. -/
theorem bitsToLong_exact_board : HoldsBits 16384 ∧ HoldsBits 16385 :=
  ⟨(bitsToLong_exact 16384 (by decide) (by decide)).mpr (by decide),
    (bitsToLong_exact 16385 (by decide) (by decide)).mpr (by decide)⟩

/-- A bitmap of thirty-three positions has one word, and the last position is in the second. -/
theorem bitsToLong_exact_fails : ¬∀ n, 1 ≤ n → n < 2 ^ 32 → HoldsBits n := by
  intro hall
  have hword := (hall 33 (by decide) (by decide)).1 32 (by decide)
  exact absurd hword (by decide)

end Mirros
