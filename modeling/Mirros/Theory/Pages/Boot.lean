import Mirros.Theory.Pages.Ops

/-!
# The Page Allocator After Boot

What `init_page_table_map` leaves behind. It clears the words of the page map,
sets one bit for every page from the start of the kernel to the end of the map
itself, and gives the three managed zones consecutive ranges of page numbers.

The first word of interest is that the pages it marks are exactly the first
`reservedPages` ones (`used_initPageTableMap`), whatever the memory held before
outside the map. The second is that page numbers of map positions stay below
`2^20`, so that distinct pages have distinct 32-bit addresses
(`bitsToLong_le`): the total size of memory is a 32-bit number of bytes.

## Main definitions

* `bootZone`: The zones after boot.
* `mapStart`, `mapEnd`: The place of the page map in plain arithmetic.
* `boardBank`: A board with one megabyte of NORMAL and one of DMA memory.

## Theorems

* `initPageTableMap_eq`: The state after boot.
* `used_initPageTableMap`: The bits of the page map after boot.
* `initPageTableMap_zone`: The zones after boot.
* `bitsToLong_le`: The page map covers fewer than `2^20` pages.
* `baligin_eq`: Rounding up, as arithmetic.
* `tableLayout_eq`: The place of the tables, as arithmetic.
-/

namespace Mirros

namespace Mm

theorem bitsToLong_le (n : Nat) (hn : n < 2 ^ 20) : 32 * bitsToLong n ≤ 2 ^ 20 := by
  have hand : n &&& 0xffffffc0 ≤ n := Nat.and_le_left
  unfold bitsToLong
  omega

/-- What boot writes to the entry of a page it reserves. -/
def reservedPage (page : Page) (phyAddress : Nat) : Page :=
  { page with phyAddress := phyAddress, freeSize := 0, freeBase := 0, count := 0, usage := 1 }

/-- The loop of `init_page_table_map` marks the first `n` pages and writes their
    entries, and touches neither the zones nor the layout. -/
theorem foldl_reservePage (pvOffset : Nat) (mm : Mm) (n : Nat) :
    ∃ t l m, (List.range n).foldl (reservePage pvOffset) mm
        = { mm with pageTable := t, links := l, pageMap := m } ∧
      (∀ i, used m i = if i < n then true else used mm.pageMap i) ∧
      ∀ i, ∃ pa, t i = if i < n then reservedPage (mm.pageTable i) pa else mm.pageTable i := by
  induction n with
  | zero => exact ⟨mm.pageTable, mm.links, mm.pageMap, rfl, fun i => rfl, fun i => ⟨0, rfl⟩⟩
  | succ n ih =>
      rcases ih with ⟨t, l, m, heq, hm, ht⟩
      rw [List.range_succ, List.foldl_append, heq]
      refine ⟨_, _, _, rfl, fun i => ?_, fun i => ?_⟩
      · rw [used_setBit, hm]
        by_cases hi : i = n
        · simp [hi]
        · have hiff : i < n + 1 ↔ i < n := by omega
          simp [hi, hiff]
      · rcases ht i with ⟨pa, hti⟩
        by_cases hi : i = n
        · subst hi
          rw [if_neg (Nat.lt_irrefl i)] at hti
          refine ⟨sub32 (mm.pageIdToVa i) pvOffset, ?_⟩
          rw [Function.update_self, if_pos (by omega), ← hti]
          rfl
        · have hiff : i < n + 1 ↔ i < n := by omega
          refine ⟨pa, ?_⟩
          rw [Function.update_of_ne hi]
          simp only [hti, hiff]

/-- The zones after boot. -/
def bootZone (mm : Mm) (kernelEnd : Nat) : ZoneId → Zone
  | .normal => setRange { mm.zone .normal with
      freeSize := sub32 (mm.zone .normal).freeSize
        (baligin (sub32 (tableLayout mm.totalPage kernelEnd).2.2 mm.kernelStart) pageSize)
      freePages := sub32 (mm.zone .normal).freePages (mm.reservedPages kernelEnd) }
      0 (mm.reservedPages kernelEnd)
  | .dma => setRange (mm.zone .dma) (mm.zone .normal).pageNum (mm.zone .normal).pageNum
  | .res => setRange (mm.zone .res) ((mm.zone .normal).pageNum + (mm.zone .dma).pageNum)
      ((mm.zone .normal).pageNum + (mm.zone .dma).pageNum)
  | .io => mm.zone .io

/-- The state after boot, up to the page table and the list nodes. -/
theorem initPageTableMap_eq (mm : Mm) (kernelEnd uninit : Nat) :
    ∃ t l m, mm.initPageTableMap kernelEnd uninit = { mm with
        pageTableAddr := (tableLayout mm.totalPage kernelEnd).1
        pageMapAddr := (tableLayout mm.totalPage kernelEnd).2.1
        pageTable := t
        links := l
        pageMap := m
        mapWords := bitsToLong mm.totalPage
        zone := mm.bootZone kernelEnd } ∧
      (∀ i, used m i = if i < mm.reservedPages kernelEnd then true
        else if i / 32 < bitsToLong mm.totalPage then false else used mm.pageMap i) ∧
      ∀ i, ∃ pa, t i = if i < mm.reservedPages kernelEnd then reservedPage (mm.pageTable i) pa
        else mm.pageTable i := by
  unfold initPageTableMap
  rcases foldl_reservePage (mm.kernelPvOffset uninit) { mm with
    pageTableAddr := (tableLayout mm.totalPage kernelEnd).1
    pageMapAddr := (tableLayout mm.totalPage kernelEnd).2.1
    pageMap := fun w => if w < bitsToLong mm.totalPage then 0#32 else mm.pageMap w
    mapWords := bitsToLong mm.totalPage } (mm.reservedPages kernelEnd) with ⟨t, l, m, heq, hm, ht⟩
  refine ⟨t, l, m, ?_, fun i => ?_, ht⟩
  · -- The loop keeps the zones, so the updates before and after it add up.
    simp only [heq, setZone, Mm.mk.injEq, true_and, and_true]
    funext z
    cases z with
    | normal => simp [bootZone, setRange]
    | dma => simp [bootZone, setRange]
    | res => simp [bootZone, setRange]
    | io => simp [bootZone]
  · rw [hm]
    by_cases hi : i < mm.reservedPages kernelEnd
    · rw [if_pos hi, if_pos hi]
    · rw [if_neg hi, if_neg hi]
      unfold used
      by_cases hw : i / 32 < bitsToLong mm.totalPage
      · simp only [if_pos hw, BitVec.getLsbD_zero]
      · simp only [if_neg hw]

theorem used_initPageTableMap (mm : Mm) (kernelEnd uninit i : Nat) :
    used (mm.initPageTableMap kernelEnd uninit).pageMap i
      = if i < mm.reservedPages kernelEnd then true
        else if i / 32 < bitsToLong mm.totalPage then false else used mm.pageMap i := by
  rcases initPageTableMap_eq mm kernelEnd uninit with ⟨t, l, m, heq, hm, _⟩
  rw [heq]
  exact hm i

theorem initPageTableMap_zone (mm : Mm) (kernelEnd uninit : Nat) (z : ZoneId) :
    (mm.initPageTableMap kernelEnd uninit).zone z = mm.bootZone kernelEnd z := by
  rcases initPageTableMap_eq mm kernelEnd uninit with ⟨t, l, m, heq, hm⟩
  rw [heq]

/-- The entries after boot: those of the reserved pages are written, apart from
    the flag, and the others are what the memory held. -/
theorem pageTable_initPageTableMap (mm : Mm) (kernelEnd uninit i : Nat) :
    ∃ pa, (mm.initPageTableMap kernelEnd uninit).pageTable i =
      if i < mm.reservedPages kernelEnd then reservedPage (mm.pageTable i) pa
      else mm.pageTable i := by
  rcases initPageTableMap_eq mm kernelEnd uninit with ⟨t, l, m, heq, _, ht⟩
  rw [heq]
  exact ht i

/-- The parts of the state after boot that are neither bits nor zones. -/
theorem initPageTableMap_frame (mm : Mm) (kernelEnd uninit : Nat) :
    (mm.initPageTableMap kernelEnd uninit).kernelStart = mm.kernelStart ∧
      (mm.initPageTableMap kernelEnd uninit).mapWords = bitsToLong mm.totalPage ∧
      (mm.initPageTableMap kernelEnd uninit).pageTableAddr
        = (tableLayout mm.totalPage kernelEnd).1 ∧
      (mm.initPageTableMap kernelEnd uninit).pageMapAddr
        = (tableLayout mm.totalPage kernelEnd).2.1 := by
  rcases initPageTableMap_eq mm kernelEnd uninit with ⟨t, l, m, heq, hm⟩
  rw [heq]
  exact ⟨rfl, rfl, rfl, rfl⟩

/-- Masking off the low `k` bits of a word rounds it down. -/
theorem and_mask (x k : Nat) (hx : x < 2 ^ 32) (hk : k ≤ 32) :
    x &&& (2 ^ 32 - 2 ^ k) = x / 2 ^ k * 2 ^ k := by
  have hpos : 0 < 2 ^ k := Nat.two_pow_pos k
  have hle : 2 ^ k ≤ 2 ^ 32 := Nat.pow_le_pow_right (by omega) hk
  have hmask : 2 ^ 32 - 2 ^ k = 2 ^ 32 - ((2 ^ k - 1) + 1) := by omega
  rw [← Nat.shiftRight_eq_div_pow, ← Nat.shiftLeft_eq, hmask]
  -- Bit by bit: below `k` both sides are zero, from `k` on both are the bit of `x`.
  apply Nat.eq_of_testBit_eq
  intro j
  rw [Nat.testBit_and, Nat.testBit_two_pow_sub_succ (by omega), Nat.testBit_two_pow_sub_one,
    Nat.testBit_shiftLeft, Nat.testBit_shiftRight]
  by_cases hkj : k ≤ j
  · have hj : k + (j - k) = j := by omega
    rw [hj]
    by_cases hj32 : j < 32
    · simp [hkj, hj32]
    · have hhigh : x.testBit j = false :=
        Nat.testBit_lt_two_pow (Nat.lt_of_lt_of_le hx (Nat.pow_le_pow_right (by omega) (by omega)))
      simp [hhigh]
  · have hjk : j < k := by omega
    simp [hkj, hjk]

/-- Rounding up to a power of two, as long as the sum is a word. -/
theorem baligin_eq (num k : Nat) (hk : k ≤ 32) (h : num + 2 ^ k ≤ 2 ^ 32) :
    baligin num (2 ^ k) = (num + (2 ^ k - 1)) / 2 ^ k * 2 ^ k := by
  have hpos : 0 < 2 ^ k := Nat.two_pow_pos k
  have hsub : sub32 (num + 2 ^ k) 1 = num + (2 ^ k - 1) := by
    unfold sub32 u32Size
    omega
  unfold baligin
  rw [hsub]
  exact and_mask _ k (by omega) hk

/-- The first multiple of four that is not below the address. -/
def roundUp4 (x : Nat) : Nat :=
  (x + 3) / 4 * 4

/-- Where the page map starts, without the wrap of machine addresses. -/
def mapStart (totalPage kernelEnd : Nat) : Nat :=
  roundUp4 (roundUp4 kernelEnd + totalPage * sizeofPage)

/-- Where the page map ends, without the wrap of machine addresses. -/
def mapEnd (totalPage kernelEnd : Nat) : Nat :=
  mapStart totalPage kernelEnd + bitsToLong totalPage * 4

/-- When the end of the page map is a machine address, nothing wraps. -/
theorem tableLayout_eq (totalPage kernelEnd : Nat) (h : mapEnd totalPage kernelEnd < u32Size) :
    tableLayout totalPage kernelEnd
      = (roundUp4 kernelEnd, mapStart totalPage kernelEnd, mapEnd totalPage kernelEnd) := by
  have hwords : 1 ≤ bitsToLong totalPage := by
    unfold bitsToLong
    omega
  have hmap : mapStart totalPage kernelEnd = roundUp4 (roundUp4 kernelEnd + totalPage * 24) := rfl
  have hend : mapStart totalPage kernelEnd + bitsToLong totalPage * 4 < 2 ^ 32 := h
  have hup : ∀ x, x ≤ roundUp4 x := by
    intro x
    unfold roundUp4
    omega
  have h1 := hup kernelEnd
  have h2 := hup (roundUp4 kernelEnd + totalPage * 24)
  -- Each rounding stays below the end of the map, so no step wraps.
  have htable : baligin kernelEnd 4 = roundUp4 kernelEnd :=
    baligin_eq kernelEnd 2 (by omega) (by omega)
  have hadd : add32 (roundUp4 kernelEnd) (totalPage * sizeofPage)
      = roundUp4 kernelEnd + totalPage * sizeofPage := by
    apply Nat.mod_eq_of_lt
    unfold sizeofPage u32Size
    omega
  have hstart : baligin (roundUp4 kernelEnd + totalPage * sizeofPage) 4
      = mapStart totalPage kernelEnd := by
    apply baligin_eq _ 2 (by omega)
    unfold sizeofPage
    omega
  have hlast : add32 (mapStart totalPage kernelEnd) (bitsToLong totalPage * 4)
      = mapEnd totalPage kernelEnd := Nat.mod_eq_of_lt h
  unfold tableLayout
  simp only [htable, hadd, hstart, hlast]

/-- A zone of whole megabytes mapped at one section. -/
def boardZone (pages phyStart virStart : Nat) : Zone :=
  { memorySection := fun _ =>
      { phyStart := phyStart, virStart := virStart, size := pages * pageSize,
        pvOffset := virStart - phyStart, maped := true }
    nrSection := if pages = 0 then 0 else 1
    zoneMutex := 0
    totalSize := pages * pageSize
    freeSize := pages * pageSize
    pageNum := pages
    freePages := pages
    bmStart := 0
    bmEnd := 0
    bmCurrent := 0 }

/-- A board with one megabyte of NORMAL and one megabyte of DMA memory, as it
    stands when `init_page_table_map` is called. -/
def boardBank : Mm :=
  { kernelStart := 0x80000000
    totalSize := 0x200000
    totalPage := 512
    zone := fun z => match z with
      | .normal => boardZone 256 0x30000000 0x80000000
      | .dma => boardZone 256 0x30100000 0x80100000
      | .res => boardZone 0 0 0
      | .io => boardZone 0 0 0
    pageTableAddr := 0
    pageMapAddr := 0
    pageTable := fun _ => ⟨0, 0, 0, 0, 0, 0⟩
    pageMap := fun _ => 0#32
    mapWords := 0
    links := ⟨id, id⟩ }

end Mm

end Mirros
