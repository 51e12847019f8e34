import Mirros.Theory.Pages.Session

/-!
# Giving Back What Was Taken

Whether `free_pages` undoes the `get_free_pages` before it.

The block is remembered in the entry of its first page: the flag it was asked for
with, which names the zone, and the number of its pages, in a field of eight bits.
The flag comes back as it was (`zoneIdOfFlag_header`), and so do the counters of
the zone, which are words and wrap around on the way down as on the way up. The
number comes back modulo 256. So a block of 256 pages or more is given back in
part, or not at all when the number is a multiple of 256, and the pages that are
left are marked for ever: their entries say nothing of the block.

## Main definitions

* `Mm.Undoes`: The call puts the page map and the counters back.

## Theorems

* `Mm.getFreePages_unlocked`: Pages are only handed out by a zone nobody has
  locked.
* `freePages_undoes`: Blocks of fewer than 256 pages are given back, others are
  not.
-/

namespace Mirros

namespace Mm

/-- Freeing `addr` in `mm'` restores the page map and the counters of the zone as
    they are in `mm`. -/
def Undoes (mm mm' : Mm) (z : ZoneId) (addr : Nat) : Prop :=
  ∃ mm'', mm'.freePages addr = some mm'' ∧ mm''.pageMap = mm.pageMap ∧
    (mm''.zone z).freePages = (mm.zone z).freePages ∧
    (mm''.zone z).freeSize = (mm.zone z).freeSize

/-- A zone that hands out pages was not locked by anybody. -/
theorem getFreePages_unlocked (mm mm' : Mm) (count : Int) (flag addr : Nat) (z : ZoneId)
    (hz : zoneOfId (zoneIdOfFlag flag) = some z)
    (h : mm.getFreePages count flag = some (addr, mm')) (haddr : addr ≠ 0) :
    (mm.zone z).zoneMutex = 0 := by
  unfold getFreePages at h
  by_cases hc : count ≤ 0
  · rw [if_pos hc, Option.some.injEq, Prod.mk.injEq] at h
    exact absurd h.1.symm haddr
  · rw [if_neg hc] at h
    unfold doGetFreePages at h
    rw [hz] at h
    simp only [Option.pure_def, Option.bind_eq_bind, Option.bind_eq_some_iff] at h
    rcases h with ⟨mm₁, hlock, _⟩
    exact (lockZone_cases mm mm₁ z hlock).1

/-- Words that go down and up by the same amount are back where they were. -/
theorem add32_sub32_cancel (a b : Nat) (ha : a < u32Size) :
    add32 (sub32 a b) b = a := by
  unfold add32 sub32
  unfold u32Size at ha ⊢
  omega

/-- The header of a page that is in the map makes `free_pages` free its zone's
    pages. -/
theorem freePages_header (mm : Mm) (index : Nat) (z : ZoneId) (hplain : mm.PlainMap)
    (hindex : index < 2 ^ 20) (hhead : (mm.pageTable index).flag &&& gfpPageHeader ≠ 0)
    (hz : zoneOfId (zoneIdOfFlag (mm.pageTable index).flag) = some z) :
    mm.freePages (mm.pageIdToVa index) = mm.doFreePages index z := by
  have hid := vaToPageId_pageIdToVa mm index hplain.start hindex
  unfold freePages
  rw [if_pos (isAligin_pageIdToVa mm index hplain.aligned)]
  simp only [hid]
  rw [if_pos hhead, hz]

theorem header_bit (flag : Nat) : (flag ||| gfpPageHeader) &&& gfpPageHeader ≠ 0 := by
  intro h
  have hfive : gfpPageHeader.testBit 5 = true := by decide
  have hbit := congrArg (fun x => x.testBit 5) h
  simp only [Nat.testBit_and, Nat.testBit_or, hfive, Bool.or_true, Bool.and_true,
    Nat.zero_testBit, Bool.true_eq_false] at hbit

end Mm

/-- Right after a block of clear pages was handed out, freeing it restores the
    page map and the counters of the zone, if and only if the number of its pages
    fits into the eight bits there are for it. -/
theorem freePages_undoes (mm mm' : Mm) (z : ZoneId) (count : Int) (flag addr : Nat)
    (hplain : mm.PlainMap) (hpages : (mm.zone z).freePages < u32Size)
    (hsize : (mm.zone z).freeSize < u32Size)
    (hz : zoneOfId (zoneIdOfFlag flag) = some z)
    (hget : mm.getFreePages count flag = some (addr, mm')) (haddr : addr ≠ 0)
    (hclear : ∀ i, Block.Covers ⟨addr, count.toNat⟩ mm i → used mm.pageMap i = false) :
    mm.Undoes mm' z addr ↔ count < 256 := by
  have hmutex := Mm.getFreePages_unlocked mm mm' count flag addr z hz hget haddr
  have hpos : 0 < count.toNat := by
    by_contra hc
    unfold Mm.getFreePages at hget
    rw [if_pos (by omega), Option.some.injEq, Prod.mk.injEq] at hget
    exact haddr hget.1.symm
  rcases Mm.getFreePages_cases mm mm' count flag addr hget with
    ⟨hzero, _⟩ | ⟨z', index, hz', _, _, _, rfl, htook⟩
  · exact absurd hzero haddr
  rw [hz, Option.some.injEq] at hz'
  subst hz'
  set n := count.toNat with hn
  have hbound : index + n ≤ 32 * mm.mapWords := htook.bound.resolve_left (by omega)
  have hwords := hplain.words
  have hfirst := first_of_bound mm index n hplain.start hwords hpos htook.bound
  simp only [Block.Covers, hfirst] at hclear
  -- What the entry of the first page says.
  have hentry : mm'.pageTable index = mm.freshPage index n index (flag ||| gfpPageHeader) := by
    rw [htook.table, if_pos ⟨Nat.le_refl _, by omega⟩]
  have hcount : (mm'.pageTable index).count = n % 256 := by
    rw [hentry]
    simp only [Mm.freshPage, if_true]
  have hplain' : mm'.PlainMap := ⟨htook.start ▸ hplain.start, htook.start ▸ hplain.aligned,
    htook.words ▸ hwords⟩
  have hva : mm.pageIdToVa index = mm'.pageIdToVa index := by
    unfold Mm.pageIdToVa
    rw [htook.start]
  have hfree : mm'.freePages (mm.pageIdToVa index) = mm'.doFreePages index z := by
    rw [hva]
    refine Mm.freePages_header mm' index z hplain' (by omega) ?_ ?_
    · rw [hentry]
      exact Mm.header_bit flag
    · rw [hentry]
      exact (congrArg zoneOfId (zoneIdOfFlag_header flag)).trans hz
  rcases Mm.doFreePages_returns mm' index z (by rw [htook.zones, Function.update_self]; exact hmutex)
    (by rw [hcount, htook.words]; omega) with ⟨mm'', hrun⟩
  have hgave := Mm.doFreePages_cases mm' mm'' index z hrun
  rw [hcount] at hgave
  unfold Mm.Undoes
  rw [hfree, hrun]
  simp only [Option.some.injEq, exists_eq_left']
  constructor
  · rintro ⟨hmap, _, _⟩
    by_contra hbig
    -- The first page behind the ones that were freed is still marked.
    have hkept := hgave.bits (index + n % 256)
    rw [if_neg (by omega), htook.bits, if_pos (by omega), hmap,
      hclear _ (by omega)] at hkept
    exact absurd hkept (by decide)
  · intro hsmall
    have hmod : n % 256 = n := Nat.mod_eq_of_lt (by omega)
    rw [hmod] at hgave
    refine ⟨bitmap_ext _ _ (fun i => ?_), ?_, ?_⟩
    · rw [hgave.bits, htook.bits]
      by_cases hi : index ≤ i ∧ i < index + n
      · rw [if_pos hi, hclear i hi]
      · rw [if_neg hi, if_neg hi]
    · rw [hgave.zones, Function.update_self, htook.zones, Function.update_self]
      exact Mm.add32_sub32_cancel _ n hpages
    · rw [hgave.zones, Function.update_self, htook.zones, Function.update_self]
      exact Mm.add32_sub32_cancel _ _ hsize

/-- Two pages of the board's NORMAL zone are given back. -/
theorem freePages_undoes_two :
    ∃ mm', (Session.booted Mm.boardBank 0x80010000 0).mm.getFreePages 2 gfpKernel =
        some (0x80014000, mm') ∧
      (Session.booted Mm.boardBank 0x80010000 0).mm.Undoes mm' .normal 0x80014000 := by
  have heval : ((Session.booted Mm.boardBank 0x80010000 0).mm.getFreePages 2 gfpKernel).map
      Prod.fst = some 0x80014000 := by decide +kernel
  rcases Option.map_eq_some_iff.mp heval with ⟨⟨a, mm'⟩, hget, ha⟩
  subst ha
  refine ⟨mm', hget, ?_⟩
  have hclear : ∀ i < 22, 20 ≤ i →
      used (Session.booted Mm.boardBank 0x80010000 0).mm.pageMap i = false := by decide +kernel
  have hfirst : (Session.booted Mm.boardBank 0x80010000 0).mm.vaToPageId 0x80014000 = 20 := by
    decide +kernel
  refine (freePages_undoes _ mm' .normal 2 gfpKernel 0x80014000 ⟨by decide +kernel,
    by decide +kernel, by decide +kernel⟩ (by decide +kernel) (by decide +kernel) (by decide) hget
    (by decide) (fun i hi => ?_)).mpr (by decide)
  unfold Block.Covers at hi
  rw [hfirst] at hi
  exact hclear i hi.2 hi.1

/-- All 256 pages of the board's DMA zone are handed out at once, and none of
    them comes back. -/
theorem freePages_undoes_fails :
    ∃ mm', (Session.booted Mm.boardBank 0x80010000 0).mm.getFreePages 256 gfpDma =
        some (0x80100000, mm') ∧
      (∀ i, Block.Covers ⟨0x80100000, 256⟩ (Session.booted Mm.boardBank 0x80010000 0).mm i →
        used (Session.booted Mm.boardBank 0x80010000 0).mm.pageMap i = false ∧
        ((Session.booted Mm.boardBank 0x80010000 0).mm.zone .dma).bmStart ≤ i ∧
        i < ((Session.booted Mm.boardBank 0x80010000 0).mm.zone .dma).bmEnd) ∧
      ¬(Session.booted Mm.boardBank 0x80010000 0).mm.Undoes mm' .dma 0x80100000 := by
  have heval : ((Session.booted Mm.boardBank 0x80010000 0).mm.getFreePages 256 gfpDma).map
      (fun x => (x.1, (x.2.freePages x.1).map (fun m => used m.pageMap 256))) =
      some (0x80100000, some true) := by decide +kernel
  have hclear : ∀ i < 512, 256 ≤ i →
      used (Session.booted Mm.boardBank 0x80010000 0).mm.pageMap i = false ∧
      ((Session.booted Mm.boardBank 0x80010000 0).mm.zone .dma).bmStart ≤ i ∧
      i < ((Session.booted Mm.boardBank 0x80010000 0).mm.zone .dma).bmEnd := by decide +kernel
  have hfirst : (Session.booted Mm.boardBank 0x80010000 0).mm.vaToPageId 0x80100000 = 256 := by
    decide +kernel
  rcases Option.map_eq_some_iff.mp heval with ⟨⟨a, mm'⟩, hget, hpair⟩
  rw [Prod.mk.injEq] at hpair
  rcases hpair with ⟨rfl, hfree⟩
  refine ⟨mm', hget, fun i hi => ?_, ?_⟩
  · unfold Block.Covers at hi
    rw [hfirst] at hi
    exact hclear i hi.2 hi.1
  · rintro ⟨mm'', hrun, hmap, _, _⟩
    rw [hrun, Option.map_some, Option.some.injEq, hmap, (hclear 256 (by decide) (by decide)).1]
      at hfree
    exact absurd hfree (by decide)

end Mirros
