import Mirros.Theory.Boot.Regions
import Mathlib.Algebra.Order.BigOperators.Group.List
import Mathlib.Algebra.Order.Group.Nat

/-!
# The Counters of the Set-Up

When the board registered no DMA region and no section is given away whole,
`handle_platform_memory_region` cuts the DMA zone off the end of the largest NORMAL
section, with a comment that somebody must ensure that this section is large enough.
It is: the DMA zone is a sixteenth of the NORMAL memory, rounded up to a megabyte, and
there are at most four sections of whole megabytes, so that the largest has a quarter
(`dmaSize_le`).

Here this is put together with the counters. Regions beyond the fourth of a zone are
dropped, and neither the zone nor the bank counts them, so the bank has at any time what
its zones have together.

## Main definitions

* `Zeroed`: The bank before the set-up.
* `Zone.Counts`, `BankCounts`: What the counters say.
* `CutsTail`: The DMA zone is the end of a NORMAL section.

## Theorems

* `insertRegions_counts`: Regions are counted in the zone and in the bank.
* `autoDma_counts`: Making the DMA zone keeps the counters right.
* `handlePlatformMemoryRegion_cut`: The whole of the set-up.
-/

namespace Mirros

/-- Nothing is registered and all counters are zero. -/
structure Zeroed (bank : Mm) : Prop where
  total : bank.totalSize = 0
  sections : ∀ z, (bank.zone z).nrSection = 0
  sizes : ∀ z i, i < zoneMaxRegion → ((bank.zone z).memorySection i).size = 0
  zones : ∀ z, (bank.zone z).totalSize = 0 ∧ (bank.zone z).freeSize = 0 ∧
    (bank.zone z).pageNum = 0 ∧ (bank.zone z).freePages = 0

/-- The counters of a zone of which nothing is in use say the same. -/
structure Zone.Counts (zone : Zone) : Prop where
  lt : zone.totalSize < u32Size
  free : zone.freeSize = zone.totalSize
  pages : zone.pageNum = zone.totalSize / pageSize

/-- The zones count right and the bank counts all of them but the one of devices. -/
structure BankCounts (bank : Mm) : Prop where
  zones : ∀ z, (bank.zone z).Counts
  total : bank.totalSize = ((bank.zone .normal).totalSize + (bank.zone .dma).totalSize +
    (bank.zone .res).totalSize) % u32Size

theorem Zeroed.counts (bank : Mm) (h : Zeroed bank) : BankCounts bank := by
  refine ⟨fun z => ?_, ?_⟩
  · rcases h.zones z with ⟨htotal, hfree, hpages, -⟩
    refine ⟨by rw [htotal]; decide, hfree.trans htotal.symm, ?_⟩
    rw [hpages, htotal, Nat.zero_div]
  · rw [h.total, (h.zones .normal).1, (h.zones .dma).1, (h.zones .res).1]
    rfl

/-- A zone counts what is inserted, and reports it. -/
theorem insertRegionToZone_counts (zone : Zone) (r : MemoryRegion) (h : zone.Counts) :
    (insertRegionToZone r zone).2.Counts ∧
      (insertRegionToZone r zone).2.totalSize =
        add32 zone.totalSize (insertRegionToZone r zone).1 := by
  unfold insertRegionToZone
  split_ifs with hfull
  · exact ⟨h, (Nat.mod_eq_of_lt h.lt).symm⟩
  · exact ⟨⟨Nat.mod_lt _ (by decide), rfl, rfl⟩, rfl⟩

namespace Mm

/-- A region is counted in its zone and, unless it is one of devices, in the bank. -/
theorem insertRegion_counts (bank bank' : Mm) (r : MemoryRegion) (h : BankCounts bank)
    (hins : insertRegion bank r = some bank') : BankCounts bank' := by
  unfold insertRegion at hins
  rcases hzone : zoneOfId r.attr with _ | y
  · rw [hzone] at hins
    cases hins
  rw [hzone] at hins
  dsimp only at hins
  have hy := (zoneOfId_iff r.attr y).1 hzone
  rcases insertRegionToZone_counts (bank.zone y) r (h.zones y) with ⟨hcounts, hsize⟩
  have hzones : ∀ z, ((Function.update bank.zone y (insertRegionToZone r (bank.zone y)).2) z).Counts := by
    intro z
    by_cases hz : z = y
    · rw [hz, Function.update_self]
      exact hcounts
    · rw [Function.update_of_ne hz]
      exact h.zones z
  have htotal := h.total
  -- Which zone it is decides whether the bank counts it.
  split_ifs at hins with hio
  · rw [Option.some.injEq] at hins
    subst hins
    refine ⟨hzones, ?_⟩
    unfold setZone
    rw [htotal]
    unfold add32 at hsize ⊢
    cases y with
    | normal =>
        simp only [Function.update_self, Function.update_of_ne (show ZoneId.dma ≠ .normal by decide),
          Function.update_of_ne (show ZoneId.res ≠ .normal by decide), hsize]
        unfold u32Size
        omega
    | dma =>
        simp only [Function.update_self, Function.update_of_ne (show ZoneId.normal ≠ .dma by decide),
          Function.update_of_ne (show ZoneId.res ≠ .dma by decide), hsize]
        unfold u32Size
        omega
    | res =>
        simp only [Function.update_self, Function.update_of_ne (show ZoneId.normal ≠ .res by decide),
          Function.update_of_ne (show ZoneId.dma ≠ .res by decide), hsize]
        unfold u32Size
        omega
    | io => exact absurd hy hio.1
  · rw [Option.some.injEq] at hins
    subst hins
    have hyio : y = .io := by
      revert hy hio
      cases y <;> intro hy hio <;> rw [hy] at hio <;> revert hio <;> decide
    subst hyio
    exact ⟨hzones, htotal⟩

/-- Regions are counted in their zones and in the bank. -/
theorem insertRegions_counts (rs : List MemoryRegion) (bank bank' : Mm) (h : BankCounts bank)
    (hins : rs.foldlM insertRegion bank = some bank') : BankCounts bank' := by
  induction rs generalizing bank with
  | nil =>
      rw [List.foldlM_nil] at hins
      cases hins
      exact h
  | cons r rs ih =>
      rw [List.foldlM_cons] at hins
      rcases Option.bind_eq_some_iff.mp hins with ⟨bank₁, hone, hrest⟩
      exact ih bank₁ (insertRegion_counts bank bank₁ r h hone) hrest

end Mm

/-- No section is larger than the zone. -/
theorem ZoneHolds.size_le_total (zone : Zone) (bs : List (Nat × Nat)) (h : ZoneHolds zone bs)
    (hsum : (bs.map Prod.snd).sum < u32Size) (i : Nat) (hi : i < zoneMaxRegion) :
    (zone.memorySection i).size ≤ zone.totalSize := by
  rw [h.total, Nat.mod_eq_of_lt hsum]
  by_cases hlen : i < bs.length
  · have hmem := List.mem_map_of_mem (f := Prod.snd) (List.getElem_mem hlen)
    rw [h.getElem zone bs i hlen] at hmem
    exact List.single_le_sum (fun _ _ => Nat.zero_le _) _ hmem
  · rw [h.rest i (by omega) hi]
    exact Nat.zero_le _

/-- What is taken for DMA is a part of the NORMAL memory, in whole pages. -/
theorem takeDma_size (zone : Zone) (bs : List (Nat × Nat)) (h : ZoneHolds zone bs)
    (hw : WholeSizes bs) (hsum : (bs.map Prod.snd).sum < u32Size) :
    (takeDma zone).1.size ≤ zone.totalSize ∧ (takeDma zone).1.size % pageSize = 0 ∧
      (takeDma zone).2.totalSize = zone.totalSize ∧ (takeDma zone).2.freeSize = zone.freeSize ∧
      (takeDma zone).2.pageNum = zone.pageNum := by
  have hlen := h.length zone bs
  unfold takeDma
  by_cases hwhole : wholeSection zone = true
  · have hlt := fitSection_lt zone hwhole
    have hle := hw.le
    rw [if_pos hwhole]
    refine ⟨h.size_le_total zone bs hsum _ (by omega), ?_, rfl, rfl, rfl⟩
    have hmod := hw.mod _ (List.getElem_mem (hlen ▸ hlt))
    rw [h.getElem zone bs _ (hlen ▸ hlt)] at hmod
    change ((zone.memorySection _).size) % pageSize = 0
    unfold pageSize
    omega
  · rw [if_neg hwhole]
    have hmax : maxSection zone < zoneMaxRegion := by
      have hle := hw.le
      rcases (maxSection_spec zone).2 with hlt | ⟨-, hzero⟩
      · omega
      · rw [hzero]
        decide
    refine ⟨(dmaSize_le zone bs h hw).1.trans (h.size_le_total zone bs hsum _ hmax), ?_, rfl, rfl,
      rfl⟩
    have htotal : zone.totalSize < u32Size := by
      rw [h.total]
      exact Nat.mod_lt _ (by decide)
    change dmaSize zone % pageSize = 0
    rw [dmaSize_eq zone htotal]
    unfold pageSize
    omega

/-- Making the DMA zone leaves the other zones alone. -/
theorem autoDma_other (bank : Mm) (z : ZoneId) (hz : z ≠ .normal) (hz' : z ≠ .dma) :
    bank.autoDma.zone z = bank.zone z := by
  unfold Mm.autoDma
  split_ifs with hnr
  · simp only [Mm.setZone, Function.update_of_ne hz, Function.update_of_ne hz']
  · rfl

/-- Making the DMA zone moves the counters of what is taken from one zone to the other. -/
theorem autoDma_counts (bank : Mm) (bs : List (Nat × Nat)) (h : BankCounts bank)
    (hn : ZoneHolds (bank.zone .normal) bs) (hd : ZoneHolds (bank.zone .dma) [])
    (hw : WholeSizes bs) (hsum : (bs.map Prod.snd).sum < u32Size) :
    (bank.autoDma.zone .normal).totalSize + (bank.autoDma.zone .dma).totalSize =
        (bank.zone .normal).totalSize ∧
      BankCounts bank.autoDma := by
  rcases takeDma_size (bank.zone .normal) bs hn hw hsum with ⟨hle, hmod, htotal, hfree, hpages⟩
  have hcounts := h.zones .normal
  have hlt := hcounts.lt
  have hdma : (bank.zone .dma).totalSize = 0 := hd.total
  have hnr : (bank.zone .dma).nrSection = 0 := hd.length _ _
  have hfull : (bank.zone .dma).nrSection ≠ zoneMaxRegion := by
    rw [hnr]
    decide
  have hne : ZoneId.dma ≠ ZoneId.normal := by decide
  generalize htaken : takeDma (bank.zone .normal) = taken at *
  have hsub : sub32 (bank.zone .normal).totalSize taken.1.size =
      (bank.zone .normal).totalSize - taken.1.size := by
    unfold sub32
    unfold u32Size at *
    omega
  have hsubPages : sub32 ((bank.zone .normal).totalSize / pageSize) (taken.1.size / pageSize) =
      ((bank.zone .normal).totalSize - taken.1.size) / pageSize := by
    unfold sub32
    unfold u32Size pageSize at *
    omega
  -- The four zones afterwards.
  have hnormal : (bank.autoDma.zone .normal).Counts ∧
      (bank.autoDma.zone .normal).totalSize =
        (bank.zone .normal).totalSize - taken.1.size := by
    unfold Mm.autoDma
    simp only [if_pos hnr, Mm.setZone, Function.update_of_ne hne.symm, Function.update_self,
      htaken, htotal, hfree, hpages, hcounts.free, hcounts.pages, hsub, hsubPages]
    exact ⟨⟨Nat.lt_of_le_of_lt (Nat.sub_le _ _) hlt, rfl, rfl⟩, trivial⟩
  have hdmaZone : bank.autoDma.zone .dma = (insertRegionToZone taken.1 (bank.zone .dma)).2 := by
    unfold Mm.autoDma
    simp only [if_pos hnr, Mm.setZone, Function.update_of_ne hne, Function.update_self, htaken]
  have hother := autoDma_other bank
  have hbank : bank.autoDma.totalSize = bank.totalSize := by
    unfold Mm.autoDma
    simp only [if_pos hnr, Mm.setZone]
  rcases insertRegionToZone_counts (bank.zone .dma) taken.1 (h.zones .dma) with
    ⟨hdmaCounts, hdmaTotal⟩
  have hinserted : (insertRegionToZone taken.1 (bank.zone .dma)).1 = taken.1.size := by
    unfold insertRegionToZone
    rw [if_neg hfull]
  have hmoved : (bank.autoDma.zone .dma).totalSize = taken.1.size := by
    rw [hdmaZone, hdmaTotal, hinserted, hdma]
    unfold add32
    rw [Nat.zero_add, Nat.mod_eq_of_lt (Nat.lt_of_le_of_lt hle hlt)]
  refine ⟨by rw [hnormal.2, hmoved, Nat.sub_add_cancel hle], fun z => ?_, ?_⟩
  · cases z with
    | normal => exact hnormal.1
    | dma => exact hdmaZone ▸ hdmaCounts
    | res => exact hother .res (by decide) (by decide) ▸ h.zones .res
    | io => exact hother .io (by decide) (by decide) ▸ h.zones .io
  · rw [hbank, h.total, hnormal.2, hmoved, hother .res (by decide) (by decide), hdma,
      Nat.sub_add_cancel hle, Nat.add_zero]

/-- The sizes of the regions of two zones are a part of all sizes. -/
theorem zoneBlocks_sum_le (rs : List MemoryRegion) (y z : ZoneId) (h : y ≠ z) :
    ((zoneBlocks rs y).map Prod.snd).sum + ((zoneBlocks rs z).map Prod.snd).sum
      ≤ (rs.map MemoryRegion.size).sum := by
  unfold zoneBlocks
  induction rs with
  | nil => exact Nat.le_refl 0
  | cons r rs ih =>
      -- A region is in one of the two at most.
      have hone : ¬(r.attr = zoneNumber y ∧ r.attr = zoneNumber z) := by
        rintro ⟨hy, hz⟩
        rw [hy] at hz
        revert h hz
        cases y <;> cases z <;> decide
      simp only [List.filter_cons, List.map_cons, List.sum_cons, decide_eq_true_eq]
      split_ifs with hy hz hz
      · exact absurd ⟨hy, hz⟩ hone
      · rw [List.map_cons, List.map_cons, List.sum_cons]
        change r.size + _ + _ ≤ _
        omega
      · rw [List.map_cons, List.map_cons, List.sum_cons]
        change _ + (r.size + _) ≤ _
        omega
      · omega

/-- The DMA zone is the end of the largest NORMAL section, and the rest of it stays NORMAL. -/
structure CutsTail (before normal dma : Zone) : Prop where
  fits : dmaSize before ≤ (before.memorySection (maxSection before)).size
  dma : dma.blocks = [(add32 (before.memorySection (maxSection before)).phyStart
    ((before.memorySection (maxSection before)).size - dmaSize before), dmaSize before)]
  normal : normal.blocks = before.blocks.set (maxSection before)
    ((before.memorySection (maxSection before)).phyStart,
      (before.memorySection (maxSection before)).size - dmaSize before)

/-- Cutting the end off the largest section. -/
theorem autoDma_cuts (bank : Mm) (bs : List (Nat × Nat)) (hn : ZoneHolds (bank.zone .normal) bs)
    (hd : ZoneHolds (bank.zone .dma) []) (hw : WholeSizes bs)
    (hcut : wholeSection (bank.zone .normal) = false) :
    CutsTail (bank.zone .normal) (bank.autoDma.zone .normal) (bank.autoDma.zone .dma) := by
  rcases dmaSize_le (bank.zone .normal) bs hn hw with ⟨hfits, hlt⟩
  have htake : takeDma (bank.zone .normal) =
      cutSection (bank.zone .normal) (maxSection (bank.zone .normal))
        (dmaSize (bank.zone .normal)) := by
    unfold takeDma
    rw [hcut]
    rfl
  have hsize : (takeDma (bank.zone .normal)).1.size < u32Size := by
    rw [htake]
    exact hlt
  rcases autoDma_zones bank hd hsize with ⟨hnormal, hdma, -, -⟩
  -- The section is one of the regions, or empty when there is none.
  have hword : ((bank.zone .normal).memorySection (maxSection (bank.zone .normal))).size <
      u32Size := by
    have hlen := hn.length _ _
    rcases (maxSection_spec (bank.zone .normal)).2 with hin | ⟨hnone, hzero⟩
    · have hmem := hw.lt _ (List.getElem_mem (hlen ▸ hin))
      rw [hn.getElem _ _ _ (hlen ▸ hin)] at hmem
      exact hmem
    · rw [hzero, hn.rest 0 (by omega) (by decide)]
      decide
  refine ⟨hfits, ?_, ?_⟩
  · rw [hdma, htake]
    have hstart : sub32 (add32 ((bank.zone .normal).memorySection
          (maxSection (bank.zone .normal))).phyStart ((bank.zone .normal).memorySection
          (maxSection (bank.zone .normal))).size) (dmaSize (bank.zone .normal)) =
        add32 ((bank.zone .normal).memorySection (maxSection (bank.zone .normal))).phyStart
          (((bank.zone .normal).memorySection (maxSection (bank.zone .normal))).size -
            dmaSize (bank.zone .normal)) := by
      unfold sub32 add32
      unfold u32Size at *
      omega
    unfold cutSection MemoryRegion.block
    dsimp only
    rw [hstart]
  · have hsub : sub32 ((bank.zone .normal).memorySection (maxSection (bank.zone .normal))).size
          (dmaSize (bank.zone .normal)) =
        ((bank.zone .normal).memorySection (maxSection (bank.zone .normal))).size -
          dmaSize (bank.zone .normal) := by
      unfold sub32
      unfold u32Size at *
      omega
    rw [hnormal, htake]
    change ((bank.zone .normal).setSection _ _).blocks = _
    rw [Zone.blocks_setSection, hsub]

/-- For every list of regions the table is sorted, and the DMA zone fits into the section it is
    cut from. Whichever way the DMA zone is made the counters are right. -/
theorem handlePlatformMemoryRegion_cut (bank : Mm) (info : PlatformInfo) (hzero : Zeroed bank)
    (hattr : ∀ r ∈ info.regions, r.attr = zoneNumber .normal ∨ r.attr = zoneNumber .res ∨
      r.attr = zoneNumber .io)
    (hsize : ∀ r ∈ info.regions, r.size % 0x100000 = 0 ∧ 0 < r.size)
    (hsum : (info.regions.map MemoryRegion.size).sum < u32Size) :
    ((sortRegions info).regions.Perm info.regions ∧
      (sortRegions info).regions.Pairwise (fun r q => r.start ≤ q.start)) ∧
    ∃ bank₁ bank', bank.insertRegions (sortRegions info) = some bank₁ ∧
      bank.handlePlatformMemoryRegion info = some bank' ∧
      (wholeSection (bank₁.zone .normal) = false →
        CutsTail (bank₁.zone .normal) (bank'.zone .normal) (bank'.zone .dma)) ∧
      (bank'.zone .normal).totalSize + (bank'.zone .dma).totalSize =
        (bank₁.zone .normal).totalSize ∧
      (bank'.zone .normal).pageNum = (bank'.zone .normal).totalSize / pageSize ∧
      (bank'.zone .dma).pageNum = (bank'.zone .dma).totalSize / pageSize ∧
      bank'.totalSize = (bank'.zone .normal).totalSize + (bank'.zone .dma).totalSize +
        (bank'.zone .res).totalSize := by
  have hperm := sortRegions_perm info
  have hregion : ∀ r ∈ (sortRegions info).regions, r ∈ info.regions :=
    fun r hr => hperm.mem_iff.1 hr
  refine ⟨⟨hperm, selectionSort_sorted MemoryRegion.start info.region info.regionNr⟩, ?_⟩
  have hsorted : ((sortRegions info).regions.map MemoryRegion.size).sum < u32Size := by
    rw [(hperm.map MemoryRegion.size).sum_eq]
    exact hsum
  generalize hrs : (sortRegions info).regions = rs at *
  rcases Mm.insertRegions_take bank rs []
    (fun z => ⟨by unfold Zone.blocks; rw [hzero.sections z]; rfl, (hzero.zones z).1,
      fun i _ hi => hzero.sizes z i hi⟩)
    (fun r hr => by
      rcases hattr r (hregion r hr) with h | h | h
      · exact ⟨_, h⟩
      · exact ⟨_, h⟩
      · exact ⟨_, h⟩) with ⟨bank₁, hins, hholds⟩
  have hcounts := Mm.insertRegions_counts rs bank bank₁ hzero.counts hins
  have hrun : bank.insertRegions (sortRegions info) = some bank₁ := by
    unfold Mm.insertRegions
    unfold PlatformInfo.regions at hrs
    rw [hrs]
    exact hins
  rw [List.nil_append] at hholds
  have hdma : zoneBlocks rs .dma = [] := by
    unfold zoneBlocks
    rw [List.map_eq_nil_iff, List.filter_eq_nil_iff]
    intro r hr hc
    rw [decide_eq_true_eq] at hc
    rcases hattr r (hregion r hr) with h | h | h
    · exact absurd (hc.symm.trans h) (by decide)
    · exact absurd (hc.symm.trans h) (by decide)
    · exact absurd (hc.symm.trans h) (by decide)
  have hn := hholds .normal
  have hd := hholds .dma
  rw [hdma, List.take_nil] at hd
  -- The sections of a zone are not more than its regions, nor than all regions.
  have htake : ∀ z, (((zoneBlocks rs z).take zoneMaxRegion).map Prod.snd).sum ≤
      ((zoneBlocks rs z).map Prod.snd).sum := by
    intro z
    rw [List.map_take]
    exact (List.take_sublist _ _).sum_le_sum (fun _ _ => Nat.zero_le _)
  have htwo := zoneBlocks_sum_le rs .normal .res (by decide)
  have hnormal := htake .normal
  have hres := htake .res
  have hregions : ∀ b ∈ (zoneBlocks rs .normal).take zoneMaxRegion, ∃ r ∈ rs, b = r.block := by
    intro b hb
    rcases List.mem_map.1 (List.mem_of_mem_take hb) with ⟨r, hr, rfl⟩
    exact ⟨r, (List.mem_filter.1 hr).1, rfl⟩
  have hw : WholeSizes ((zoneBlocks rs .normal).take zoneMaxRegion) := by
    refine ⟨fun b hb => ?_, fun b hb => ?_, fun b hb => ?_, List.length_take_le _ _⟩
    · rcases hregions b hb with ⟨r, hr, rfl⟩
      exact (hsize r (hregion r hr)).1
    · rcases hregions b hb with ⟨r, hr, rfl⟩
      exact (hsize r (hregion r hr)).2
    · rcases hregions b hb with ⟨r, hr, rfl⟩
      have hle := List.single_le_sum (fun _ _ => Nat.zero_le _) _
        (List.mem_map_of_mem (f := MemoryRegion.size) hr)
      exact Nat.lt_of_le_of_lt hle hsorted
  rcases autoDma_counts bank₁ _ hcounts hn hd hw (by omega) with ⟨hmoved, hcounts'⟩
  refine ⟨bank₁, bank₁.autoDma, hrun, ?_, autoDma_cuts bank₁ _ hn hd hw, hmoved,
    (hcounts'.zones .normal).pages, (hcounts'.zones .dma).pages, ?_⟩
  · unfold Mm.handlePlatformMemoryRegion
    rw [hrun]
    rfl
  · rw [hcounts'.total, hmoved, autoDma_other bank₁ .res (by decide) (by decide), hn.total,
      (hholds .res).total]
    unfold u32Size at *
    omega

/-- The registers of devices and one bank of 64 megabytes behind them. -/
def oneBank : PlatformInfo :=
  { region := fun i => [⟨0x50000000, 0x100000, 3⟩, ⟨0x30000000, 0x4000000, 0⟩].getD i ⟨0, 0, 0⟩
    regionNr := 2 }

/-- The last four of them become the DMA zone. -/
theorem handlePlatformMemoryRegion_cut_one :
    ∃ bank₁ bank',
      (Mm.bareBank [] [] [] []).initMemoryBank.insertRegions (sortRegions oneBank) = some bank₁ ∧
      (Mm.bareBank [] [] [] []).initMemoryBank.handlePlatformMemoryRegion oneBank = some bank' ∧
      CutsTail (bank₁.zone .normal) (bank'.zone .normal) (bank'.zone .dma) := by
  have hregions : oneBank.regions = [⟨0x50000000, 0x100000, 3⟩, ⟨0x30000000, 0x4000000, 0⟩] := by
    decide
  have hzero : Zeroed (Mm.bareBank [] [] [] []).initMemoryBank := by
    refine ⟨rfl, fun z => rfl, fun z i hi => ?_, fun z => ?_⟩
    · unfold Mm.initMemoryBank
      dsimp only
      rw [if_pos hi]
      rfl
    · cases z <;> exact ⟨rfl, rfl, rfl, rfl⟩
  have heval : ((Mm.bareBank [] [] [] []).initMemoryBank.insertRegions (sortRegions oneBank)).map
      (fun bank => wholeSection (bank.zone .normal)) = some false := by
    decide +kernel
  rcases (handlePlatformMemoryRegion_cut _ oneBank hzero (by rw [hregions]; decide)
    (by rw [hregions]; decide) (by rw [hregions]; decide)).2 with ⟨bank₁, bank', hins, hrun, hcut, -⟩
  rw [hins, Option.map_some, Option.some.injEq] at heval
  exact ⟨bank₁, bank', hins, hrun, hcut heval⟩

end Mirros
