import Mirros.Lib.Writes
import Mirros.Core.Mmu
import Mirros.Theory.Boot.Translate

/-!
# The Kernel's Level-One Table

What `map_memory` and `clear_user_tlb` leave in the level-one table. For each
section `map_memory` fills the entries of its virtual range. For a section at
the start of the kernel it first issues a second mapping, moved down by the
size of the kernel image: that one has the same offset between virtual and
physical addresses, so above the start of the kernel it writes entries the
section's own mapping then writes again, and below it writes entries
`clear_user_tlb` clears.

When the image does not fit into the section the size of the second mapping wraps
around, and as an `int` it is negative, so nothing is mapped. What is needed are
physical addresses of whole megabytes, because a section descriptor has no room for
the rest.

## Main definitions

* `zoneAttr`: The low bits of the descriptors of a zone.
* `SlotIn`: A megabyte in the virtual range of a section.
* `slotEntry`: The descriptor of a megabyte of a section.

## Theorems

* `buildTlbTableEntry_entry`: The table after one call.
* `mapMemorySection_entry`: The table above the kernel after one section.
* `mapMemory_entry`: The table above the kernel after all sections.
* `kernel_table`: The table after boot.
-/

namespace Mirros

/-- The low bits of the descriptors of a zone: sections with a write-back cache
    for memory, uncached sections for DMA and IO. -/
def zoneAttr : ZoneId → Nat
  | .normal => mstWbApSrwUn
  | .dma => mstNcnbApSrwUn
  | .res => mstWbApSrwUn
  | .io => mstNcnbApSrwUn

/-- The table after one call of `build_tlb_table_entry`. -/
theorem buildTlbTableEntry_run (tlb : TlbTable) (vstart pstart size flag e : Nat) :
    (buildTlbTableEntry tlb vstart pstart size flag).1 e
      = if isAligin vstart size1M ∧ isAligin size size1M ∧
          vstart / size1M ≤ e ∧ e < vstart / size1M + tlbTurns size then
          archBuildTlbDes (add32 pstart ((e - vstart / size1M) *
            (if flag &&& tlbAttrMemoryMask = tlbAttrUserMemory then size1K else size1M)))
            (archGetTlbAttr flag)
        else tlb e := by
  unfold buildTlbTableEntry
  by_cases hal : isAligin vstart size1M = true ∧ isAligin size size1M = true
  · rw [if_pos (by simp only [hal.1, hal.2, Bool.and_self])]
    simp only [hal.1, hal.2, true_and]
    exact writeLoop_run (vstart / size1M) _ (tlbTurns size) tlb e
  · rw [if_neg (by
      intro hc
      simp only [Bool.and_eq_true] at hc
      exact hal ⟨hc.1.1, hc.2⟩), if_neg (fun hc => hal ⟨hc.1, hc.2.1⟩)]

/-- The table after one call of `build_tlb_table_entry` for kernel memory. -/
theorem buildTlbTableEntry_entry (tlb : TlbTable) (vstart pstart size : Nat) (z : ZoneId)
    (e : Nat) :
    (buildTlbTableEntry tlb vstart pstart size (mapFlag z)).1 e
      = if isAligin vstart size1M ∧ isAligin size size1M ∧
          vstart / size1M ≤ e ∧ e < vstart / size1M + tlbTurns size then
          (add32 pstart ((e - vstart / size1M) * size1M) &&& 0xfff00000) ||| zoneAttr z
        else tlb e := by
  have hstep : (if mapFlag z &&& tlbAttrMemoryMask = tlbAttrUserMemory then size1K else size1M)
      = size1M := by
    cases z <;> rfl
  have hattr : archGetTlbAttr (mapFlag z) = zoneAttr z := by
    cases z <;> rfl
  have hdes : ∀ pa, archBuildTlbDes pa (zoneAttr z) = (pa &&& 0xfff00000) ||| zoneAttr z := by
    intro pa
    unfold archBuildTlbDes
    rw [if_neg (by cases z <;> decide)]
  rw [buildTlbTableEntry_run, hstep, hattr, hdes]

theorem clearUserTlb_entry (tlb : TlbTable) (e : Nat) :
    clearUserTlb tlb e = if e < 2048 then 0 else tlb e := by
  have hrun := writeLoop_run 0 (fun _ => 0) 2048 tlb e
  unfold writeLoop at hrun
  unfold clearUserTlb clearTlbEntry
  simp only [Nat.zero_add, Nat.zero_le, true_and] at hrun
  exact hrun

theorem isAligin_iff (x : Nat) : isAligin x size1M = true ↔ x % size1M = 0 :=
  Mm.isAligin_pow x 20

/-- A word of whole megabytes with the low bits of a zone, taken apart. -/
theorem descriptor_fields (pa : Nat) (z : ZoneId) (hpa : pa < u32Size) (hal : pa % size1M = 0) :
    ((pa &&& 0xfff00000) ||| zoneAttr z) &&& 0xfff00000 = pa ∧
      ((pa &&& 0xfff00000) ||| zoneAttr z) &&& 0x000fffff = zoneAttr z := by
  have hattr : zoneAttr z < 2 ^ 20 := by
    cases z <;> decide
  have hmask : ∀ x, x < 2 ^ 32 → x &&& 0xfff00000 = x / 2 ^ 20 * 2 ^ 20 :=
    fun x hx => Mm.and_mask x 20 hx (by omega)
  have hlow : ∀ x, x &&& 0x000fffff = x % 2 ^ 20 := fun x => Nat.and_two_pow_sub_one_eq_mod x 20
  unfold u32Size at hpa
  unfold size1M at hal
  have hbase : pa &&& 0xfff00000 = 2 ^ 20 * (pa / 2 ^ 20) := by
    rw [hmask pa hpa, Nat.mul_comm]
  rw [hbase, ← Nat.two_pow_add_eq_or_of_lt hattr, hmask _ (by omega), hlow]
  omega

namespace Mm

/-- `map_memory` as one walk over the sections. -/
theorem mapMemory_eq (mm : Mm) (bssEnd : Nat) (tlb : TlbTable) :
    mm.mapMemory bssEnd tlb = mm.places.foldl
      (fun t p => mapMemorySection mm.kernelStart (alreadyMap mm.kernelStart bssEnd)
        (mapFlag p.1) t (mm.sectionAt p)) tlb := by
  unfold mapMemory places
  simp only [List.flatMap_cons, List.flatMap_nil, List.append_nil, List.foldl_append,
    List.foldl_map, List.foldl_cons, List.foldl_nil]
  rfl

/-- The megabyte with this number lies in the virtual range of the section. -/
def SlotIn (mm : Mm) (p : ZoneId × Nat) (e : Nat) : Prop :=
  Within mm.virAt mm.sizeAt p (e * size1M)

/-- The descriptor of a megabyte of a section. -/
def slotEntry (mm : Mm) (p : ZoneId × Nat) (e : Nat) : Nat :=
  (sub32 (e * size1M) (mm.offAt p) &&& 0xfff00000) ||| zoneAttr p.1

/-- What `map_memory` needs of a section: it lies in whole megabytes at or above
    the start of the kernel, and its size and that of the image are sizes as an `int`. A
    section without a size may lie anywhere else. -/
structure Mappable (mm : Mm) (image : Nat) (p : ZoneId × Nat) : Prop where
  size_mod : mm.sizeAt p % size1M = 0
  size_lt : mm.sizeAt p < 0x80000000
  vir_mod : 0 < mm.sizeAt p → mm.virAt p % size1M = 0
  vir_le : 0 < mm.sizeAt p → mm.virAt p + mm.sizeAt p ≤ u32Size
  off_eq : 0 < mm.sizeAt p → mm.offAt p = sub32 (mm.virAt p) (mm.phyAt p)
  image_le : image ≤ 0x80000000

/-- One section changes the entries of its own range and, apart from those, only
    entries below the start of the kernel. -/
theorem mapMemorySection_entry (mm : Mm) (image : Nat) (p : ZoneId × Nat) (tlb : TlbTable)
    (hk : mm.kernelStart = kernelBaseAddress) (h : Mappable mm image p) (e : Nat) (he : 2048 ≤ e) :
    (mm.SlotIn p e → mapMemorySection mm.kernelStart image (mapFlag p.1) tlb (mm.sectionAt p) e
        = mm.slotEntry p e) ∧
      (¬ mm.SlotIn p e →
        mapMemorySection mm.kernelStart image (mapFlag p.1) tlb (mm.sectionAt p) e = tlb e) := by
  have hsize := h.size_mod
  have hslt := h.size_lt
  have hvmod := h.vir_mod
  have hvle := h.vir_le
  -- The section's own mapping, on whatever table the first one left.
  have hown : ∀ t : TlbTable,
      (buildTlbTableEntry t (mm.virAt p) (mm.phyAt p) (mm.sizeAt p) (mapFlag p.1)).1 e
        = if mm.virAt p ≤ e * size1M ∧ e * size1M < mm.virAt p + mm.sizeAt p then
            mm.slotEntry p e
          else t e := by
    intro t
    rw [buildTlbTableEntry_entry]
    by_cases hin : mm.virAt p ≤ e * size1M ∧ e * size1M < mm.virAt p + mm.sizeAt p
    · have hpos : 0 < mm.sizeAt p := by omega
      have hv := hvmod hpos
      have hle := hvle hpos
      have hcond : isAligin (mm.virAt p) size1M = true ∧ isAligin (mm.sizeAt p) size1M = true ∧
          mm.virAt p / size1M ≤ e ∧ e < mm.virAt p / size1M + tlbTurns (mm.sizeAt p) := by
        unfold tlbTurns
        rw [if_pos hslt]
        refine ⟨(isAligin_iff _).2 hv, (isAligin_iff _).2 hsize, ?_, ?_⟩
        · unfold size1M at *
          omega
        · unfold size1M at *
          omega
      rw [if_pos hcond, if_pos hin]
      unfold slotEntry
      have hpa : add32 (mm.phyAt p) ((e - mm.virAt p / size1M) * size1M)
          = sub32 (e * size1M) (mm.offAt p) := by
        rw [h.off_eq hpos]
        unfold add32 sub32 size1M u32Size at *
        omega
      rw [hpa]
    · rw [if_neg hin, if_neg]
      rintro ⟨hv, -, hlo, hhi⟩
      rw [isAligin_iff] at hv
      unfold tlbTurns at hhi
      rw [if_pos hslt] at hhi
      unfold size1M at *
      omega
  -- The mapping moved down reaches no entry above the section's own range.
  have hextra : mm.virAt p = mm.kernelStart →
      ¬ (mm.virAt p ≤ e * size1M ∧ e * size1M < mm.virAt p + mm.sizeAt p) →
      (buildTlbTableEntry tlb (sub32 (mm.virAt p) image) (sub32 (mm.phyAt p) image)
        (sub32 (mm.sizeAt p) image) (mapFlag p.1)).1 e = tlb e := by
    intro hvk hout
    have himage := h.image_le
    rw [buildTlbTableEntry_entry, if_neg]
    rintro ⟨-, -, hlo, hhi⟩
    unfold tlbTurns at hhi
    by_cases hneg : sub32 (mm.sizeAt p) image < 0x80000000
    · rw [if_pos hneg] at hhi
      -- The image is no larger than the section, or both have no size.
      have hfits : image ≤ mm.sizeAt p := by
        unfold sub32 u32Size at hneg
        omega
      by_cases hpos : 0 < mm.sizeAt p
      · have hle := hvle hpos
        rw [hk] at hvk
        unfold sub32 size1M u32Size kernelBaseAddress at *
        omega
      · have hz : sub32 (mm.sizeAt p) image = 0 := by
          unfold sub32 u32Size
          omega
        rw [hz, Nat.zero_div] at hhi
        omega
    · rw [if_neg hneg] at hhi
      omega
  have hsection : mapMemorySection mm.kernelStart image (mapFlag p.1) tlb (mm.sectionAt p)
      = (buildTlbTableEntry
          (if mm.virAt p = mm.kernelStart then
            (buildTlbTableEntry tlb (sub32 (mm.virAt p) image) (sub32 (mm.phyAt p) image)
              (sub32 (mm.sizeAt p) image) (mapFlag p.1)).1
          else tlb) (mm.virAt p) (mm.phyAt p) (mm.sizeAt p) (mapFlag p.1)).1 := rfl
  unfold SlotIn Within
  rw [hsection, hown]
  refine ⟨fun hin => if_pos hin, fun hout => ?_⟩
  rw [if_neg hout]
  by_cases hvk : mm.virAt p = mm.kernelStart
  · rw [if_pos hvk]
    exact hextra hvk hout
  · rw [if_neg hvk]

/-- All sections together: each entry above the start of the kernel is written
    by the one section it belongs to. -/
theorem mapMemory_entry (mm : Mm) (image : Nat) (tlb : TlbTable)
    (hk : mm.kernelStart = kernelBaseAddress) (e : Nat) (he : 2048 ≤ e) (ps : List (ZoneId × Nat))
    (h : ∀ p ∈ ps, Mappable mm image p) (hone : ∀ p ∈ ps, ∀ q ∈ ps, mm.SlotIn p e →
      mm.SlotIn q e → p = q) :
    (∀ p ∈ ps, mm.SlotIn p e →
      ps.foldl (fun t p => mapMemorySection mm.kernelStart image (mapFlag p.1) t (mm.sectionAt p))
        tlb e = mm.slotEntry p e) ∧
      ((∀ p ∈ ps, ¬ mm.SlotIn p e) →
        ps.foldl (fun t p => mapMemorySection mm.kernelStart image (mapFlag p.1) t
          (mm.sectionAt p)) tlb e = tlb e) := by
  induction ps generalizing tlb with
  | nil => exact ⟨fun p hp => absurd hp List.not_mem_nil, fun _ => rfl⟩
  | cons a ps ih =>
      rw [List.foldl_cons]
      rcases mapMemorySection_entry mm image a tlb hk (h a List.mem_cons_self) e he with
        ⟨hin, hout⟩
      rcases ih (mapMemorySection mm.kernelStart image (mapFlag a.1) tlb (mm.sectionAt a))
        (fun p hp => h p (List.mem_cons_of_mem a hp))
        (fun p hp q hq => hone p (List.mem_cons_of_mem a hp) q (List.mem_cons_of_mem a hq)) with
        ⟨ihin, ihout⟩
      refine ⟨fun p hp hpe => ?_, fun hnone => ?_⟩
      · by_cases hrest : ∃ q ∈ ps, mm.SlotIn q e
        · rcases hrest with ⟨q, hq, hqe⟩
          rw [hone p hp q (List.mem_cons_of_mem a hq) hpe hqe]
          exact ihin q hq hqe
        · rw [ihout (fun q hq hqe => hrest ⟨q, hq, hqe⟩)]
          rcases List.mem_cons.1 hp with rfl | hp
          · exact hin hpe
          · exact absurd ⟨p, hp, hpe⟩ hrest
      · rw [ihout (fun q hq => hnone q (List.mem_cons_of_mem a hq))]
        exact hout (hnone a List.mem_cons_self)

/-- The table maps every megabyte of every section to its physical address with
    the attributes of its zone, and nothing below the kernel. -/
structure TableMatches (mm : Mm) (table : TlbTable) : Prop where
  slot : ∀ p, mm.IsSection p → ∀ e, mm.virAt p ≤ e * size1M →
    e * size1M < mm.virAt p + mm.sizeAt p →
    table e &&& 0xfff00000 = sub32 (e * size1M) (mm.offAt p) ∧
      table e &&& 0x000fffff = zoneAttr p.1
  user : ∀ e, e < 2048 → table e = 0

/-- The image lies between the start of the kernel and the end of the address space. -/
theorem alreadyMap_le (bssEnd : Nat) (hlow : kernelBaseAddress ≤ bssEnd) (hhigh : bssEnd < u32Size) :
    alreadyMap kernelBaseAddress bssEnd ≤ 0x80000000 := by
  have hsub : sub32 bssEnd kernelBaseAddress = bssEnd - kernelBaseAddress := by
    unfold sub32 kernelBaseAddress u32Size at *
    omega
  have hround : baligin (bssEnd - kernelBaseAddress) (2 ^ 20) =
      (bssEnd - kernelBaseAddress + (2 ^ 20 - 1)) / 2 ^ 20 * 2 ^ 20 := by
    refine baligin_eq _ 20 (by decide) ?_
    unfold kernelBaseAddress u32Size at *
    omega
  unfold alreadyMap
  rw [hsub]
  refine hround.trans_le ?_
  unfold kernelBaseAddress u32Size at *
  omega

/-- The level-one table after boot, for a bank of whole megabytes. -/
theorem kernel_table (bank : Mm) (kernelPhyStart bssEnd : Nat) (tlb : TlbTable)
    (hun : bank.Unmapped) (hk : bank.kernelStart = kernelBaseAddress)
    (hsize : ∀ p, bank.IsSection p → bank.sizeAt p % size1M = 0 ∧ bank.sizeAt p < 0x80000000)
    (hphy : ∀ p, bank.IsSection p → bank.phyAt p % size1M = 0)
    (hfit : bank.kernelStart + bank.bankSpan ≤ u32Size)
    (hend : bank.kernelStart ≤ bssEnd ∧ bssEnd < u32Size) :
    let mm := (bank.mapZoneMemory kernelPhyStart).1
    mm.TableMatches (clearUserTlb (mm.mapMemory bssEnd tlb)) := by
  intro mm
  have hplaced : Placed bank (bank.mapOrder kernelPhyStart) mm :=
    mapZoneMemory_placed bank kernelPhyStart hun (by rw [hk]; decide)
  have hkmm : mm.kernelStart = kernelBaseAddress := by
    rw [placed_kernelStart bank mm _ hplaced, hk]
  have hmem : ∀ p, bank.IsSection p → 0 < bank.sizeAt p → p ∈ bank.mapOrder kernelPhyStart :=
    fun p hp hpos => (mem_mapOrder bank kernelPhyStart p).2 ⟨hp, Or.inl hpos⟩
  -- The layout of a section with a size.
  have hcover := fun x => laid_cover u32Size bank.sizeAt mm.virAt bank.kernelStart
    (bank.mapOrder kernelPhyStart) x hplaced.laid (by rw [span_mapOrder]; exact hfit)
  have hbounds : ∀ p, bank.IsSection p → 0 < bank.sizeAt p →
      bank.kernelStart ≤ mm.virAt p ∧ mm.virAt p + bank.sizeAt p ≤ u32Size := by
    intro p hp hpos
    have hfirst := (hcover (mm.virAt p)).2 ⟨p, hmem p hp hpos, by omega, by omega⟩
    have hlast := (hcover (mm.virAt p + bank.sizeAt p - 1)).2
      ⟨p, hmem p hp hpos, by omega, by omega⟩
    rw [span_mapOrder] at hfirst hlast
    omega
  have hoff : ∀ p, bank.IsSection p → 0 < bank.sizeAt p →
      mm.offAt p = sub32 (mm.virAt p) (mm.phyAt p) := by
    intro p hp hpos
    rw [phyAt_placed bank mm kernelPhyStart hplaced]
    unfold offAt
    rw [hplaced.placed p (hmem p hp hpos)]
    rfl
  have hmod : ∀ p, bank.IsSection p → 0 < bank.sizeAt p → mm.virAt p % size1M = 0 := by
    intro p hp hpos
    exact virAt_mod bank mm kernelPhyStart hplaced size1M (by decide) (by rw [hk]; rfl) (fun q hq => (hsize q hq).1) p
      (hmem p hp hpos)
  have hmap : ∀ p ∈ mm.places, Mappable mm (alreadyMap mm.kernelStart bssEnd) p := by
    intro p hp
    rw [mem_places, isSection_placed bank mm kernelPhyStart hplaced] at hp
    have hsz := placed_size bank mm _ hplaced p
    refine ⟨?_, ?_, ?_, ?_, ?_, ?_⟩
    · rw [hsz]
      exact (hsize p hp).1
    · rw [hsz]
      exact (hsize p hp).2
    · rw [hsz]
      exact hmod p hp
    · rw [hsz]
      exact fun hpos => (hbounds p hp hpos).2
    · rw [hsz]
      exact hoff p hp
    · rw [hkmm]
      exact alreadyMap_le bssEnd (hk ▸ hend.1) hend.2
  refine ⟨fun p hp e hlo hhi => ?_, fun e he => ?_⟩
  · have hps := (isSection_placed bank mm kernelPhyStart hplaced p).1 hp
    have hsz := placed_size bank mm _ hplaced p
    have hpos : 0 < bank.sizeAt p := by omega
    have hb := hbounds p hps hpos
    have he : 2048 ≤ e := by
      rw [hk] at hb
      unfold kernelBaseAddress size1M at *
      omega
    have hentry : clearUserTlb (mm.mapMemory bssEnd tlb) e = mm.slotEntry p e := by
      rw [clearUserTlb_entry, if_neg (by omega), mapMemory_eq]
      refine (mapMemory_entry mm _ tlb hkmm e he mm.places hmap ?_).1 p ((mem_places mm p).2 hp)
        ⟨hlo, hhi⟩
      intro q hq q' hq' hqe hqe'
      by_contra hne
      rw [mem_places, isSection_placed bank mm kernelPhyStart hplaced] at hq hq'
      unfold SlotIn Within at hqe hqe'
      rw [placed_size bank mm _ hplaced] at hqe hqe'
      exact placed_disjoint bank mm kernelPhyStart hplaced hfit q q' hq hq' hne _ hqe hqe'
    rw [hentry]
    refine descriptor_fields _ p.1 ?_ ?_
    · exact Nat.mod_lt _ (by unfold u32Size; omega)
    · have hv := hmod p hps hpos
      have hph := hphy p hps
      rw [hoff p hps hpos, phyAt_placed bank mm kernelPhyStart hplaced]
      unfold sub32 size1M u32Size at *
      omega
  · rw [clearUserTlb_entry, if_pos he]

/-- The sections of a bank, checked one by one. -/
theorem forall_places (bank : Mm) (q : ZoneId × Nat → Prop) (h : ∀ p ∈ bank.places, q p)
    (p : ZoneId × Nat) (hp : bank.IsSection p) : q p :=
  h p ((mem_places bank p).2 hp)

/-- Two NORMAL banks and a kernel image of less than one megabyte. -/
theorem kernel_table_two :
    (twoBanks.mapZoneMemory 0x30000000).1.TableMatches
      (clearUserTlb ((twoBanks.mapZoneMemory 0x30000000).1.mapMemory 0x80080000
        (fun _ => 0xffffffff))) :=
  kernel_table twoBanks 0x30000000 0x80080000 _ (bareBank_unmapped _ _ _ _) rfl
    (forall_places twoBanks _ (by decide)) (forall_places twoBanks _ (by decide)) (by decide)
    (by decide)

/-- A bank that does not start at a whole megabyte. -/
def skewBank : Mm :=
  bareBank [(0x30080000, 0x100000)] [] [] []

/-- With a physical start that is not a whole megabyte the descriptor points half a
    megabyte too low. -/
theorem kernel_table_fails :
    ¬ (skewBank.mapZoneMemory 0x30080000).1.TableMatches (clearUserTlb
        ((skewBank.mapZoneMemory 0x30080000).1.mapMemory 0x80080000 (fun _ => 0))) := by
  intro h
  have hslot := (h.slot (.normal, 0) (by decide +kernel) 2048 (by decide +kernel)
    (by decide +kernel)).1
  exact absurd hslot (by decide +kernel)

end Mm

end Mirros
