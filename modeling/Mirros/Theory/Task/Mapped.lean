import Mirros.Core.Mmu
import Mirros.Theory.Boot.Translate
import Mirros.Theory.Task.Alloc

/-!
# Pages at Their Physical Addresses

A descriptor has the physical address of a page, while the kernel writes the page through
its virtual address. The two are bytes of the same page if `init_pages` writes an aligned
physical address at which the kernel has mapped the page itself (`Mm.PageMapped`).

This is so for the pages of the sections of a bank after boot, where `va_get_pv_offset` finds
the section of the page (`pageMapped_booted`). It does not for the first page of a section
that follows one with another offset, nor for the positions of the page map behind the last
page, of which there are always some.

## Main definitions

* `Mm.PageMapped`: The kernel finds a page at the address that its physical address is mapped
  at.
* `MmStruct.pages`: The pages of a task, in the order in which they are released.

## Theorems

* `kernelVa_section`: Where the kernel has a physical address of a section.
* `pageMapped_booted`: The pages of the sections are mapped after boot.
-/

namespace Mirros

namespace Mm

/-- The physical address of a page is aligned, and mapped where the kernel has the page. -/
structure PageMapped (mm : Mm) (q : Nat) : Prop where
  aligned : mm.pagePa q % pageSize = 0
  back : ∀ o < pageSize, mm.kernelVa (mm.pagePa q + o) = mm.pageIdToVa q + o

/-- Only the place of the kernel and the sections matter. -/
theorem pageMapped_congr (mm mm' : Mm) (hstart : mm'.kernelStart = mm.kernelStart)
    (hsections : mm'.sections = mm.sections) (q : Nat) (h : PageMapped mm q) :
    PageMapped mm' q := by
  have hva : mm'.pageIdToVa q = mm.pageIdToVa q := by
    unfold pageIdToVa
    rw [hstart]
  have hpa : mm'.pagePa q = mm.pagePa q := by
    unfold pagePa vaGetPvOffset
    rw [hva, hsections]
  have hback : mm'.kernelVa = mm.kernelVa := by
    unfold kernelVa
    rw [hsections]
  exact ⟨hpa ▸ h.aligned, fun o ho => by rw [hpa, hva, hback]; exact h.back o ho⟩

theorem pageMapped_same (mm mm' : Mm) (h : SameBank mm mm') (q : Nat) (hq : PageMapped mm q) :
    PageMapped mm' q :=
  pageMapped_congr mm mm' h.start h.sections q hq

section Laid

variable (bank mm : Mm) (kernelPhyStart : Nat) (hs : SoundBank bank)
  (hplaced : Placed bank (bank.mapOrder kernelPhyStart) mm)
  (hfit : bank.kernelStart + bank.bankSpan ≤ u32Size)
include hs hplaced hfit

/-- A physical address of a section is mapped in the section. -/
theorem kernelVa_section (p : ZoneId × Nat) (hp : mm.IsSection p) (pa : Nat)
    (hpa : Within mm.phyAt mm.sizeAt p pa) :
    mm.kernelVa pa = mm.virAt p + (pa - mm.phyAt p) := by
  have hranges := phyRanges bank mm kernelPhyStart hs hplaced
  have hmem := (mem_places mm p).2 hp
  unfold kernelVa
  rw [sections_eq, List.find?_map]
  -- The sections do not overlap, so the one that is found is the one of the address.
  cases hfind : mm.places.find? ((fun s : MmSection => decide (s.phyStart ≤ pa) &&
      decide (pa < s.phyStart + s.size)) ∘ mm.sectionAt) with
  | none =>
      have hnot := List.find?_eq_none.1 hfind p hmem
      simp only [Function.comp_apply, Bool.and_eq_true, decide_eq_true_eq] at hnot
      exact absurd hpa hnot
  | some q =>
      have hin := List.find?_some hfind
      simp only [Function.comp_apply, Bool.and_eq_true, decide_eq_true_eq] at hin
      have hself : q = p := by
        by_contra hne
        exact hranges.disjoint q (List.mem_of_find?_eq_some hfind) p hmem hne pa hin hpa
      rw [hself]
      exact add32_offAt bank mm kernelPhyStart hs hplaced hfit p hp pa hpa

/-- The page at a clear address of a section, in a bank whose sections are made of pages. -/
theorem pageMapped_laid (hk : bank.kernelStart % pageSize = 0)
    (hpages : ∀ p, bank.IsSection p → bank.phyAt p % pageSize = 0 ∧ bank.sizeAt p % pageSize = 0)
    (p : ZoneId × Nat) (hp : mm.IsSection p) (q : Nat)
    (hva : Within mm.virAt mm.sizeAt p (mm.pageIdToVa q))
    (hclear : mm.Clear mm.virAt p (mm.pageIdToVa q)) : PageMapped mm q := by
  have hpb := (isSection_placed bank mm kernelPhyStart hplaced p).1 hp
  have hphy := phyAt_placed bank mm kernelPhyStart hplaced p
  have hsize := placed_size bank mm _ hplaced p
  have hvir : mm.virAt p % pageSize = 0 :=
    virAt_mod bank mm kernelPhyStart hplaced pageSize (by decide) hk (fun q hq => (hpages q hq).2) p
      (mem_mapOrder_of_sound bank kernelPhyStart hs p hpb)
  have hal : mm.pageIdToVa q % pageSize = 0 := by
    unfold pageIdToVa add32
    rw [placed_kernelStart bank mm _ hplaced]
    unfold pageSize u32Size at *
    omega
  have hpa : mm.pagePa q = mm.phyAt p + (mm.pageIdToVa q - mm.virAt p) := by
    unfold pagePa
    rw [(vaGetPvOffset_iff bank mm kernelPhyStart hs hplaced hfit p hp _ hva).2 hclear,
      sub32_offAt bank mm kernelPhyStart hs hplaced hfit p hp _ hva]
  have hpageSize := (hpages p hpb).2
  have hpagePhy := (hpages p hpb).1
  rw [← hsize] at hpageSize
  rw [← hphy] at hpagePhy
  unfold Within at hva
  refine ⟨?_, fun o ho => ?_⟩
  · rw [hpa]
    unfold pageSize at *
    omega
  · have hin : Within mm.phyAt mm.sizeAt p (mm.pagePa q + o) := by
      unfold Within
      rw [hpa]
      unfold pageSize at *
      omega
    rw [kernelVa_section bank mm kernelPhyStart hs hplaced hfit p hp _ hin, hpa]
    omega

end Laid

/-- After boot every page of a section is mapped at which no earlier section with another
    offset ends. -/
theorem pageMapped_booted (bank : Mm) (kernelPhyStart kernelEnd uninit : Nat) (hs : SoundBank bank)
    (hk : bank.kernelStart < u32Size ∧ bank.kernelStart % pageSize = 0)
    (hfit : bank.kernelStart + bank.bankSpan ≤ u32Size)
    (hpages : ∀ p, bank.IsSection p → bank.phyAt p % pageSize = 0 ∧ bank.sizeAt p % pageSize = 0)
    (p : ZoneId × Nat) (q : Nat) :
    let mm := (bank.mapZoneMemory kernelPhyStart).1
    mm.IsSection p → Within mm.virAt mm.sizeAt p (mm.pageIdToVa q) →
      mm.Clear mm.virAt p (mm.pageIdToVa q) →
      PageMapped (mm.initPageTableMap kernelEnd uninit) q := by
  intro mm hp hva hclear
  have hplaced : Placed bank (bank.mapOrder kernelPhyStart) mm :=
    mapZoneMemory_placed bank kernelPhyStart hs.unmapped hk.1
  have hzones : ∀ z, ((mm.initPageTableMap kernelEnd uninit).zone z).memorySection
      = (mm.zone z).memorySection ∧ ((mm.initPageTableMap kernelEnd uninit).zone z).nrSection
      = (mm.zone z).nrSection := by
    intro z
    rw [initPageTableMap_zone]
    exact bootZone_sections mm kernelEnd z
  have hsections : (mm.initPageTableMap kernelEnd uninit).sections = mm.sections := by
    unfold sections
    simp only [hzones]
  exact pageMapped_congr mm _ (initPageTableMap_frame mm kernelEnd uninit).1 hsections q
    (pageMapped_laid bank mm kernelPhyStart hs hplaced hfit hk.2 hpages p hp q hva hclear)

end Mm

/-- The pages of a task, in the order in which they are released. -/
def MmStruct.pages (ms : MmStruct) : List Nat :=
  ms.elfStackList ++ (ms.elfImageList ++ (ms.stackList ++ ms.elfList))

namespace Kernel

theorem mem_pages (ms : MmStruct) (p : Nat) : p ∈ ms.pages ↔
    p ∈ ms.elfStackList ∨ p ∈ ms.elfImageList ∨ p ∈ ms.stackList ∨ p ∈ ms.elfList := by
  simp only [MmStruct.pages, List.mem_append]

theorem tables_mem (ms : MmStruct) (p : Nat) (hp : p ∈ ms.stackList ++ ms.elfList) :
    p ∈ ms.pages := by
  rw [mem_pages]
  rcases List.mem_append.1 hp with hp | hp
  · exact Or.inr (Or.inr (Or.inl hp))
  · exact Or.inr (Or.inr (Or.inr hp))

end Kernel

end Mirros
