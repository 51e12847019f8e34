import Mirros.Theory.Boot.Table
import Mirros.Theory.Pages.Ops

/-!
# Allocating a Page by Its Place in the Megabyte

`get_free_page_aligin` looks for a free page whose address has given bits 12 to 19,
by going through the sections of a zone megabyte by megabyte. In a bank that
`map_zone_memory` laid out in whole megabytes each section starts at the start of a
megabyte, so the pages looked at in a section are all its pages with those bits.

The loop over a section runs while the address is below `vir_start + size`. For a
section that reaches the end of the address space this sum is a small number after
the overflow, and the loop does not start: such a section is never searched.

## Main definitions

* `SectionHas`: The addresses of a section.
* `scanned`: The section ends before the end of the address space.
* `aliginPage`: A page of a section whose address has the bits.
* `managedSpan`: The size of the memory that the page map has bits for.
* `AlignedAlloc`: What the call is meant to do.

## Theorems

* `aliginScan_spec`: The loop over one section.
* `aliginSections_spec`: The loop over the sections of a zone.
* `getFreePageAligin_exact`: The call finds a page exactly when there is none or one
  is in a section that is searched.
-/

namespace Mirros

namespace Mm

/-- The address is in the section. -/
def SectionHas (s : MmSection) (va : Nat) : Prop :=
  ∃ o < s.size, va = add32 s.virStart o

/-- The section ends before the end of the address space. -/
def scanned (s : MmSection) : Prop :=
  s.virStart + s.size < u32Size

/-- The page is a page of the section, and bits 12 to 19 of its address are those of
    `aligin`. -/
def aliginPage (mm : Mm) (aligin : Nat) (s : MmSection) (q : Nat) : Prop :=
  ∃ va, SectionHas s va ∧ va / pageSize % 256 = aligin / pageSize % 256 ∧ q = mm.vaToPageId va

theorem aligin_offset (aligin : Nat) :
    (aligin &&& 0x000fffff) / pageSize = aligin / pageSize % 256 := by
  have hmask : aligin &&& 0x000fffff = aligin % 2 ^ 20 :=
    Nat.and_two_pow_sub_one_eq_mod aligin 20
  rw [hmask]
  unfold pageSize
  omega

theorem aliginScan_stop (mm : Mm) (bound offset fuel j : Nat) (h : ¬j < bound) :
    mm.aliginScan bound offset (fuel + 1) j = some none := by
  unfold aliginScan
  rw [if_neg h]

/-- One step of the loop, while the page looked at has a bit in the map. -/
theorem aliginScan_step (mm : Mm) (bound offset fuel j q : Nat) (h : j < bound)
    (hq : mm.vaToPageId j + offset = q) (hin : mm.inMap q = true) :
    mm.aliginScan bound offset (fuel + 1) j
      = if used mm.pageMap q = false then some (some q)
        else mm.aliginScan bound offset fuel (add32 j size1M) := by
  have hstate : mm.pageState q = some (readBit mm.pageMap q) := if_pos hin
  conv_lhs => unfold aliginScan
  rw [if_pos h]
  simp only [hq, hstate, Option.pure_def, Option.bind_eq_bind, Option.bind_some,
    readBit_eq_zero_iff]

section

variable (mm : Mm) (vs n offset : Nat)

/-- The page looked at in megabyte `u` of a section. -/
def slotPage (u : Nat) : Nat :=
  mm.vaToPageId (vs + u * size1M) + offset

/-- The loop over a section of `n` megabytes, from megabyte `t` on: it ends at the
    first page that is free, and looks at every page otherwise. -/
theorem aliginScan_spec (hend : vs + n * size1M < u32Size)
    (hmap : ∀ u < n, mm.inMap (mm.slotPage vs offset u) = true) :
    ∀ (fuel t : Nat), t ≤ n → n < fuel + t →
      (∃ u < n, mm.aliginScan (vs + n * size1M) offset fuel (vs + t * size1M)
          = some (some (mm.slotPage vs offset u)) ∧
        used mm.pageMap (mm.slotPage vs offset u) = false) ∨
      (mm.aliginScan (vs + n * size1M) offset fuel (vs + t * size1M) = some none ∧
        ∀ u, t ≤ u → u < n → used mm.pageMap (mm.slotPage vs offset u) = true) := by
  intro fuel
  induction fuel with
  | zero =>
      intro t _ hfuel
      omega
  | succ fuel ih =>
      intro t ht hfuel
      by_cases hlt : t < n
      swap
      · -- The bound is reached with the last megabyte.
        have hstop : ¬vs + t * size1M < vs + n * size1M := by
          unfold size1M
          omega
        exact Or.inr ⟨aliginScan_stop mm _ _ _ _ hstop, fun u hu hun => absurd hun (by omega)⟩
      have hgo : vs + t * size1M < vs + n * size1M := by
        unfold size1M
        omega
      have hnext : add32 (vs + t * size1M) size1M = vs + (t + 1) * size1M := by
        unfold add32 u32Size size1M at *
        omega
      rw [aliginScan_step mm _ offset fuel _ (mm.slotPage vs offset t) hgo rfl (hmap t hlt)]
      by_cases hfree : used mm.pageMap (mm.slotPage vs offset t) = false
      · rw [if_pos hfree]
        exact Or.inl ⟨t, hlt, rfl, hfree⟩
      rw [if_neg hfree, hnext]
      rcases ih (t + 1) hlt (by omega) with hfound | ⟨hnone, hall⟩
      · exact Or.inl hfound
      · refine Or.inr ⟨hnone, fun u hu hun => ?_⟩
        by_cases hut : u = t
        · rw [hut]
          simpa only [Bool.not_eq_false] using hfree
        · exact hall u (by omega) hun

end

/-- The pages looked at in a section are its pages with the wanted bits. -/
theorem aliginPage_slot (mm : Mm) (s : MmSection) (aligin : Nat)
    (hal : mm.kernelStart % size1M = 0) (hsize : s.size % size1M = 0)
    (hvir : s.virStart % size1M = 0) (hend : scanned s) (q : Nat) :
    mm.aliginPage aligin s q
      ↔ ∃ u < s.size / size1M, q = mm.slotPage s.virStart (aligin / pageSize % 256) u := by
  have hoffset : aligin / pageSize % 256 < 256 := Nat.mod_lt _ (by decide)
  unfold aliginPage SectionHas slotPage vaToPageId add32 sub32
  generalize aligin / pageSize % 256 = offset at hoffset ⊢
  unfold scanned at hend
  unfold pageSize size1M u32Size at *
  refine ⟨?_, ?_⟩
  · rintro ⟨va, ⟨o, ho, rfl⟩, hbits, rfl⟩
    refine ⟨o / 0x100000, by omega, ?_⟩
    omega
  · rintro ⟨u, hu, rfl⟩
    refine ⟨s.virStart + u * 0x100000 + offset * 4096,
      ⟨u * 0x100000 + offset * 4096, by omega, ?_⟩, ?_, ?_⟩
    · omega
    · omega
    · omega

/-- A section of whole megabytes, whose pages with the wanted bits are in the map. -/
structure WholeSection (mm : Mm) (aligin : Nat) (s : MmSection) : Prop where
  word : s.size < u32Size
  size : s.size % size1M = 0
  vir : 0 < s.size → s.virStart % size1M = 0
  inMap : ∀ q, mm.aliginPage aligin s q → mm.inMap q = true

section

variable (mm : Mm) (aligin : Nat) (hal : mm.kernelStart % size1M = 0)

include hal

/-- The loop over one section. -/
theorem aliginSection_spec (s : MmSection) (hs : WholeSection mm aligin s) :
    (∃ q, mm.aliginScan (add32 s.virStart s.size) (aligin / pageSize % 256) 4097 s.virStart
        = some (some q) ∧ used mm.pageMap q = false ∧ scanned s ∧ mm.aliginPage aligin s q) ∨
    (mm.aliginScan (add32 s.virStart s.size) (aligin / pageSize % 256) 4097 s.virStart
        = some none ∧ (scanned s → ∀ q, mm.aliginPage aligin s q → used mm.pageMap q = true)) := by
  -- A bound that overflowed, or a section of size zero, is reached at once.
  have hempty : ¬s.virStart < add32 s.virStart s.size →
      mm.aliginScan (add32 s.virStart s.size) (aligin / pageSize % 256) 4097 s.virStart
        = some none := aliginScan_stop mm _ _ 4096 _
  by_cases hend : scanned s
  swap
  · refine Or.inr ⟨hempty ?_, fun hc => absurd hc hend⟩
    have hword := hs.word
    unfold scanned at hend
    unfold add32 u32Size at *
    omega
  by_cases hpos : 0 < s.size
  swap
  · refine Or.inr ⟨hempty ?_, fun _ q hq => ?_⟩
    · unfold add32
      have hle := Nat.mod_le (s.virStart + s.size) u32Size
      omega
    · rcases hq with ⟨va, ⟨o, ho, _⟩, _⟩
      omega
  have hslot := aliginPage_slot mm s aligin hal hs.size (hs.vir hpos) hend
  have hbound : add32 s.virStart s.size = s.virStart + s.size / size1M * size1M := by
    have hsize := hs.size
    unfold scanned at hend
    unfold add32 size1M u32Size at *
    omega
  have hfew : s.size / size1M < 4097 := by
    have hword := hs.word
    unfold size1M u32Size at *
    omega
  have hlast : s.virStart + s.size / size1M * size1M < u32Size := by
    rw [← hbound]
    exact Nat.mod_lt _ (by decide)
  have hscan := aliginScan_spec mm s.virStart (s.size / size1M) (aligin / pageSize % 256) hlast
    (fun u hu => hs.inMap _ ((hslot _).mpr ⟨u, hu, rfl⟩)) 4097 0 (Nat.zero_le _) (by omega)
  rw [Nat.zero_mul, Nat.add_zero, ← hbound] at hscan
  rcases hscan with ⟨u, hu, hfound, hfree⟩ | ⟨hnone, hall⟩
  · exact Or.inl ⟨_, hfound, hfree, hend, (hslot _).mpr ⟨u, hu, rfl⟩⟩
  · refine Or.inr ⟨hnone, fun _ q hq => ?_⟩
    rcases (hslot q).mp hq with ⟨u, hu, rfl⟩
    exact hall u (Nat.zero_le u) hu

/-- The loop over the sections ends at a free page of a section that is searched, and
    otherwise there is none in those. -/
theorem aliginSections_spec (ss : List MmSection) (hss : ∀ s ∈ ss, WholeSection mm aligin s) :
    (∃ q, mm.aliginSections (aligin / pageSize % 256) ss = some (some q) ∧
      used mm.pageMap q = false ∧ ∃ s ∈ ss, scanned s ∧ mm.aliginPage aligin s q) ∨
    (mm.aliginSections (aligin / pageSize % 256) ss = some none ∧
      ∀ s ∈ ss, scanned s → ∀ q, mm.aliginPage aligin s q → used mm.pageMap q = true) := by
  induction ss with
  | nil => exact Or.inr ⟨rfl, fun s hs => absurd hs List.not_mem_nil⟩
  | cons s rest ih =>
      have hrest := ih (fun t ht => hss t (List.mem_cons_of_mem s ht))
      unfold aliginSections
      rcases aliginSection_spec mm aligin hal s (hss s List.mem_cons_self) with
        ⟨q, hscan, hfree, hend, hpage⟩ | ⟨hscan, hused⟩
      · rw [hscan]
        exact Or.inl ⟨q, rfl, hfree, s, List.mem_cons_self, hend, hpage⟩
      rw [hscan]
      rcases hrest with ⟨q, hfound, hfree, t, ht, hend, hpage⟩ | ⟨hnone, hall⟩
      · exact Or.inl ⟨q, hfound, hfree, t, List.mem_cons_of_mem s ht, hend, hpage⟩
      · refine Or.inr ⟨hnone, fun t ht => ?_⟩
        rcases List.mem_cons.mp ht with rfl | ht
        · exact hused
        · exact hall t ht

end

/-- The sections of a zone, as the loop goes through them. -/
def zoneSections (mm : Mm) (z : ZoneId) : List MmSection :=
  (List.range (mm.zone z).nrSection).map (mm.zone z).memorySection

/-- A call of `get_free_page_aligin` does what it is for: it returns null and changes
    nothing exactly if no page of the zone with the wanted bits is free, and it
    otherwise returns such a page and sets its bit, lowers the counters of the zone by
    one page and leaves its mutex free. -/
def AlignedAlloc (mm : Mm) (z : ZoneId) (aligin flag : Nat) : Prop :=
  ∃ addr mm', mm.getFreePageAligin aligin flag = some (addr, mm') ∧
    ((addr = 0 ∧ mm' = mm) ↔ ∀ s ∈ mm.zoneSections z, ∀ q, mm.aliginPage aligin s q →
      used mm.pageMap q = true) ∧
    ((∃ s ∈ mm.zoneSections z, ∃ q, mm.aliginPage aligin s q ∧ used mm.pageMap q = false) →
      ∃ s ∈ mm.zoneSections z, ∃ q, mm.aliginPage aligin s q ∧ used mm.pageMap q = false ∧
        addr = mm.pageIdToVa q ∧
        (∀ i, used mm'.pageMap i = if i = q then true else used mm.pageMap i) ∧
        mm'.zone = Function.update mm.zone z { mm.zone z with
          freeSize := sub32 (mm.zone z).freeSize pageSize
          freePages := sub32 (mm.zone z).freePages 1 }) ∧
    (mm'.zone z).zoneMutex = 0

section

variable (mm : Mm) (z : ZoneId) (aligin flag : Nat)
  (hz : zoneOfId (zoneIdOfFlag flag) = some z) (hmutex : (mm.zone z).zoneMutex = 0)

include hz hmutex

/-- The call, when its search has ended. -/
theorem getFreePageAligin_eq (found : Option Nat)
    (hfound : mm.aliginSections (aligin / pageSize % 256) (mm.zoneSections z) = some found) :
    mm.getFreePageAligin aligin flag =
      if found.getD 0 = 0 then some (0, mm)
      else
        let mm₁ := mm.setZone z { mm.zone z with zoneMutex := 1 }
        (mm₁.updateMemoryBitmap (found.getD 0) 1 true).bind fun mm₂ =>
          let mm₃ := (((mm₂.setZone z { mm₂.zone z with
            freeSize := sub32 (mm₂.zone z).freeSize pageSize
            freePages := sub32 (mm₂.zone z).freePages 1 }).unlockZone z).initPages
              (found.getD 0) 1 flag)
          some (mm₃.pageIdToVa (found.getD 0), mm₃) := by
  have hlock : mm.lockZone z = some (mm.setZone z { mm.zone z with zoneMutex := 1 }) :=
    if_pos hmutex
  have hunlock := unlockZone_of_lockZone mm _ z hlock
  have hsections : (List.range ((mm.setZone z { mm.zone z with zoneMutex := 1 }).zone z).nrSection).map
      ((mm.setZone z { mm.zone z with zoneMutex := 1 }).zone z).memorySection
        = mm.zoneSections z := by
    unfold zoneSections setZone
    simp only [Function.update_self]
  -- Only the lock differs between the two states, so the search sees the same bits.
  have hsearch := (aliginSections_congr mm (mm.setZone z { mm.zone z with zoneMutex := 1 })
    rfl rfl rfl (aligin / pageSize % 256) (mm.zoneSections z)).trans hfound
  unfold getFreePageAligin
  rw [hz]
  simp only [hlock, Option.pure_def, Option.bind_eq_bind, Option.bind_some, hsections,
    aligin_offset, hsearch, hunlock]

/-- When no page was found, nothing changes. -/
theorem getFreePageAligin_none
    (hfound : mm.aliginSections (aligin / pageSize % 256) (mm.zoneSections z) = some none) :
    mm.getFreePageAligin aligin flag = some (0, mm) := by
  rw [getFreePageAligin_eq mm z aligin flag hz hmutex none hfound]
  exact if_pos rfl

/-- The page that was found is taken. -/
theorem getFreePageAligin_some (q : Nat) (hne : q ≠ 0) (hin : mm.inMap q = true)
    (hfound : mm.aliginSections (aligin / pageSize % 256) (mm.zoneSections z) = some (some q)) :
    ∃ mm', mm.getFreePageAligin aligin flag = some (mm.pageIdToVa q, mm') ∧
      Took mm mm' z q 1 flag { mm.zone z with
        freeSize := sub32 (mm.zone z).freeSize pageSize
        freePages := sub32 (mm.zone z).freePages 1 } := by
  have hrun := getFreePageAligin_eq mm z aligin flag hz hmutex (some q) hfound
  have hroom : ∃ mm₂, (mm.setZone z { mm.zone z with zoneMutex := 1 }).updateMemoryBitmap q 1 true
      = some mm₂ := by
    have hlt := of_decide_eq_true hin
    refine ⟨_, if_pos (Or.inr ?_)⟩
    change q + 1 ≤ 32 * mm.mapWords
    omega
  rcases hroom with ⟨mm₂, hupd⟩
  rcases used_updateMemoryBitmap _ mm₂ _ 1 true hupd with ⟨_, m, hmm₂, _⟩
  have hzone₂ : mm₂.zone z = { mm.zone z with zoneMutex := 1 } := by
    rw [hmm₂]
    simp only [setZone, Function.update_self]
  have htook := took_of_locked mm _ mm₂ z q 1 flag
    { mm.zone z with
      zoneMutex := 1
      freeSize := sub32 (mm.zone z).freeSize pageSize
      freePages := sub32 (mm.zone z).freePages 1 } (if_pos hmutex) hupd rfl rfl
  simp only [Option.getD_some, if_neg hne, hupd, Option.bind_some, hzone₂] at hrun
  -- The mutex is zero again, as it was.
  simp only [← hmutex] at htook
  refine ⟨_, hrun.trans ?_, htook⟩
  unfold pageIdToVa
  rw [htook.start]

end

/-- The kernel start and the sections are those of a bank after `map_zone_memory`; the
    page map, the table and the counters may be any. -/
structure LaidOut (bank : Mm) (kernelPhyStart : Nat) (mm : Mm) : Prop where
  start : mm.kernelStart = bank.kernelStart
  sections : ∀ z, (mm.zone z).memorySection
    = ((bank.mapZoneMemory kernelPhyStart).1.zone z).memorySection
  number : ∀ z, (mm.zone z).nrSection = ((bank.mapZoneMemory kernelPhyStart).1.zone z).nrSection

/-- The sum of the sizes of the sections whose pages have bits in the map. Device memory has
    none. -/
def managedSpan (bank : Mm) : Nat :=
  bank.zoneSpan .normal + bank.zoneSpan .dma + bank.zoneSpan .res

/-- Device memory is laid out last. -/
theorem zoneBase_managed (bank : Mm) (z : ZoneId) (hz : z ≠ .io) :
    bank.zoneBase z + bank.zoneSpan z ≤ bank.kernelStart + bank.managedSpan := by
  unfold managedSpan
  cases z with
  | normal =>
      simp only [zoneBase]
      omega
  | dma =>
      simp only [zoneBase]
      omega
  | res =>
      simp only [zoneBase]
      omega
  | io => exact absurd rfl hz

section

variable (bank mm : Mm) (kernelPhyStart : Nat) (hun : bank.Unmapped)
  (hk : bank.kernelStart < u32Size) (hal : bank.kernelStart % size1M = 0)
  (hsize : ∀ p, bank.IsSection p → bank.sizeAt p % size1M = 0 ∧ bank.sizeAt p < u32Size)
  (hlaid : LaidOut bank kernelPhyStart mm)
  (hwords : bank.managedSpan ≤ 32 * mm.mapWords * pageSize)

include hun hk hal hsize hlaid hwords

/-- Every section of a zone other than that of the devices consists of whole megabytes, and
    its pages are in the map. -/
theorem laidOut_whole (z : ZoneId) (hio : z ≠ .io) (aligin : Nat) (s : MmSection)
    (hs : s ∈ mm.zoneSections z) : WholeSection mm aligin s := by
  have hplaced := mapZoneMemory_placed bank kernelPhyStart hun hk
  rcases List.mem_map.mp hs with ⟨i, hi, rfl⟩
  rw [List.mem_range, hlaid.number, placed_nrSection bank _ _ hplaced] at hi
  rw [hlaid.sections]
  have hsz := placed_size bank _ _ hplaced (z, i)
  have hsec := hsize (z, i) hi
  change WholeSection mm aligin ((bank.mapZoneMemory kernelPhyStart).1.sectionAt (z, i))
  have hpos : 0 < bank.sizeAt (z, i) → (z, i) ∈ bank.mapOrder kernelPhyStart :=
    fun hp => (mem_mapOrder bank kernelPhyStart (z, i)).mpr ⟨hi, Or.inl hp⟩
  refine ⟨?_, ?_, fun hp => ?_, fun q hq => ?_⟩
  · exact lt_of_eq_of_lt hsz hsec.2
  · exact (congrArg (· % size1M) hsz).trans hsec.1
  · exact virAt_mod bank _ kernelPhyStart hplaced size1M (by decide) hal (fun p hp => (hsize p hp).1) (z, i)
      (hpos (lt_of_lt_of_eq hp hsz))
  · -- The section starts behind the ones of its zone laid out before it, so the page is no
    -- further than the end of the zone.
    rcases hq with ⟨va, ⟨o, ho, rfl⟩, _, rfl⟩
    have hlt : o < bank.sizeAt (z, i) := lt_of_lt_of_eq ho hsz
    have hmem : (z, i) ∈ bank.zoneOrder kernelPhyStart z :=
      (mem_zoneOrder bank kernelPhyStart z (z, i)).mpr ⟨rfl, hpos (by omega)⟩
    rcases List.append_of_mem hmem with ⟨l, r, hlr⟩
    have hlaidZone := laid_zone bank _ kernelPhyStart hplaced z
    have hspan := span_zone bank kernelPhyStart z
    rw [hlr, span_append, span_cons] at hspan
    have hvir : ((bank.mapZoneMemory kernelPhyStart).1.sectionAt (z, i)).virStart
        = (bank.zoneBase z + span bank.sizeAt l) % u32Size :=
      laid_at u32Size bank.sizeAt _ (bank.zoneBase z) l r (z, i) (hlr ▸ hlaidZone)
    have hend := zoneBase_managed bank z hio
    have hbase : bank.kernelStart ≤ bank.zoneBase z := by
      cases z <;> simp only [zoneBase] <;> omega
    rw [hvir]
    unfold inMap
    refine decide_eq_true ?_
    unfold vaToPageId sub32 add32
    rw [hlaid.start]
    unfold pageSize at *
    unfold u32Size at *
    omega

end

/-- In a bank of whole megabytes, the call does what it is for exactly if no page with
    the wanted bits is free, or one that is free lies in a section that ends before the
    end of the address space. -/
theorem getFreePageAligin_exact (bank mm : Mm) (kernelPhyStart aligin flag : Nat) (z : ZoneId)
    (hun : bank.Unmapped) (hk : bank.kernelStart < u32Size) (hal : bank.kernelStart % size1M = 0)
    (hsize : ∀ p, bank.IsSection p → bank.sizeAt p % size1M = 0 ∧ bank.sizeAt p < u32Size)
    (hlaid : LaidOut bank kernelPhyStart mm)
    (hwords : bank.managedSpan ≤ 32 * mm.mapWords * pageSize) (hzero : used mm.pageMap 0 = true)
    (hz : zoneOfId (zoneIdOfFlag flag) = some z) (hio : z ≠ .io)
    (hmutex : (mm.zone z).zoneMutex = 0) :
    AlignedAlloc mm z aligin flag ↔
      (∀ s ∈ mm.zoneSections z, ∀ q, mm.aliginPage aligin s q → used mm.pageMap q = true) ∨
        ∃ s ∈ mm.zoneSections z, scanned s ∧
          ∃ q, mm.aliginPage aligin s q ∧ used mm.pageMap q = false := by
  have hwhole := laidOut_whole bank mm kernelPhyStart hun hk hal hsize hlaid hwords z hio aligin
  rcases aliginSections_spec mm aligin (by rw [hlaid.start]; exact hal) (mm.zoneSections z) hwhole
    with ⟨q, hfound, hfree, s, hs, hend, hpage⟩ | ⟨hnone, hused⟩
  · -- A page was found, so both sides hold.
    have hne : q ≠ 0 := fun hc => by rw [hc, hzero] at hfree; exact Bool.noConfusion hfree
    rcases getFreePageAligin_some mm z aligin flag hz hmutex q hne
      ((hwhole s hs).inMap q hpage) hfound with ⟨mm', hrun, htook⟩
    have hbits : ∀ i, used mm'.pageMap i = if i = q then true else used mm.pageMap i := by
      intro i
      rw [htook.bits i]
      have hiff : (q ≤ i ∧ i < q + 1) ↔ i = q := by omega
      simp only [hiff]
    refine iff_of_true ⟨_, mm', hrun, ⟨fun hsame => ?_, fun hall => ?_⟩, fun _ => ?_, ?_⟩
      (Or.inr ⟨s, hs, hend, q, hpage, hfree⟩)
    · have hq := hbits q
      rw [hsame.2, if_pos rfl, hfree] at hq
      exact Bool.noConfusion hq
    · exact Bool.noConfusion (hfree.symm.trans (hall s hs q hpage))
    · exact ⟨s, hs, q, hpage, hfree, rfl, hbits, htook.zones⟩
    · rw [htook.zones, Function.update_self]
      exact hmutex
  · -- Nothing was found, so the call is right only if there is nothing.
    have hrun := getFreePageAligin_none mm z aligin flag hz hmutex hnone
    refine ⟨?_, ?_⟩
    · rintro ⟨addr, mm', hrun', hnull, _⟩
      rw [hrun, Option.some.injEq, Prod.mk.injEq] at hrun'
      exact Or.inl (hnull.mp ⟨hrun'.1.symm, hrun'.2.symm⟩)
    · rintro (hall | ⟨s, hs, hend, q, hpage, hfree⟩)
      · refine ⟨0, mm, hrun, iff_of_true ⟨rfl, rfl⟩ hall, ?_, hmutex⟩
        rintro ⟨s, hs, q, hpage, hfree⟩
        exact Bool.noConfusion (hfree.symm.trans (hall s hs q hpage))
      · exact Bool.noConfusion (hfree.symm.trans (hused s hs hend q hpage))

instance (s : MmSection) : Decidable (scanned s) :=
  inferInstanceAs (Decidable (_ < _))

/-- A board with 60 megabytes of NORMAL and four of DMA memory, and 368 megabytes of device
    memory. -/
def deviceBank : Mm :=
  { bareBank [(0x30000000, 0x3c00000)] [(0x33c00000, 0x400000)] [] [(0x48000000, 0x17000000)] with
    totalSize := 0x4000000
    totalPage := 16384 }

/-- The board after boot. The map has bits for the 64 megabytes of memory. -/
def deviceMm : Mm :=
  (deviceBank.mapZoneMemory 0x30000000).1.initPageTableMap 0x80010000 0

theorem deviceBank_unmapped : deviceBank.Unmapped :=
  bareBank_unmapped [(0x30000000, 0x3c00000)] [(0x33c00000, 0x400000)] [] [(0x48000000, 0x17000000)]

theorem deviceMm_laidOut : LaidOut deviceBank 0x30000000 deviceMm := by
  refine ⟨by decide +kernel, fun z => ?_, fun z => ?_⟩
  · rw [deviceMm, initPageTableMap_zone, (bootZone_sections _ _ z).1]
  · rw [deviceMm, initPageTableMap_zone, (bootZone_sections _ _ z).2]

/-- The sections of a bank with at most one in each zone. -/
theorem single_sections (bank : Mm) (P : MmSection → Prop)
    (hone : ∀ z, (bank.zone z).nrSection ≤ 1) (hfirst : ∀ z, P (bank.sectionAt (z, 0)))
    (p : ZoneId × Nat) (hp : bank.IsSection p) : P (bank.sectionAt p) := by
  rcases p with ⟨z, i⟩
  have hle := hone z
  have hlt : i < (bank.zone z).nrSection := hp
  have hi : i = 0 := by omega
  rw [hi]
  exact hfirst z

theorem deviceBank_size (p : ZoneId × Nat) (hp : deviceBank.IsSection p) :
    deviceBank.sizeAt p % size1M = 0 ∧ deviceBank.sizeAt p < u32Size :=
  single_sections deviceBank (fun s => s.size % size1M = 0 ∧ s.size < u32Size)
    (fun z => by cases z <;> decide) (fun z => by cases z <;> decide) p hp

/-- Page 128 of the NORMAL memory is free, and its section is searched. -/
theorem getFreePageAligin_exact_normal : AlignedAlloc deviceMm .normal 0x80000 gfpKernel := by
  refine (getFreePageAligin_exact deviceBank deviceMm 0x30000000 0x80000 gfpKernel .normal
    deviceBank_unmapped (by decide) (by decide) deviceBank_size deviceMm_laidOut
    (by decide +kernel) (by decide +kernel) (by decide) (by decide) (by decide +kernel)).mpr
    (Or.inr ⟨(deviceMm.zone .normal).memorySection 0, ?_, ?_, 128,
      ⟨0x80080000, ⟨0x80000, ?_, ?_⟩, ?_, ?_⟩, ?_⟩)
  · exact List.mem_map_of_mem (List.mem_range.mpr (by decide +kernel))
  all_goals decide +kernel

/-- A board with almost two gigabytes of NORMAL memory and one megabyte of DMA memory,
    which ends where the address space does. -/
def edgeBank : Mm :=
  bareBank [(0x20000000, 0x7ff00000)] [(0xa0000000, 0x100000)] [] []

/-- The board with the first page in use. -/
def edgeMm : Mm :=
  { (edgeBank.mapZoneMemory 0x20000000).1 with
    pageMap := fun w => if w = 0 then 1#32 else 0#32
    mapWords := 16384 }

theorem edgeMm_laidOut : LaidOut edgeBank 0x20000000 edgeMm :=
  ⟨by decide +kernel, fun _ => by simp only [edgeMm], fun _ => by simp only [edgeMm]⟩

theorem edgeBank_size (p : ZoneId × Nat) (hp : edgeBank.IsSection p) :
    edgeBank.sizeAt p % size1M = 0 ∧ edgeBank.sizeAt p < u32Size :=
  single_sections edgeBank (fun s => s.size % size1M = 0 ∧ s.size < u32Size)
    (fun z => by cases z <;> decide) (fun z => by cases z <;> decide) p hp

/-- All of the DMA memory is free, and the call for a page of it returns null. -/
theorem getFreePageAligin_exact_fails :
    ¬∀ (bank mm : Mm) (kernelPhyStart aligin flag : Nat) (z : ZoneId), bank.Unmapped →
      bank.kernelStart < u32Size → bank.kernelStart % size1M = 0 →
      (∀ p, bank.IsSection p → bank.sizeAt p % size1M = 0 ∧ bank.sizeAt p < u32Size) →
      LaidOut bank kernelPhyStart mm → bank.managedSpan ≤ 32 * mm.mapWords * pageSize →
      used mm.pageMap 0 = true → zoneOfId (zoneIdOfFlag flag) = some z → z ≠ .io →
      (mm.zone z).zoneMutex = 0 → AlignedAlloc mm z aligin flag := by
  intro hall
  have hzone : zoneOfId (zoneIdOfFlag gfpDma) = some .dma := by decide
  have hmutex : (edgeMm.zone .dma).zoneMutex = 0 := by decide +kernel
  rcases hall edgeBank edgeMm 0x20000000 0 gfpDma .dma (bareBank_unmapped _ _ _ _) (by decide)
    (by decide) edgeBank_size edgeMm_laidOut (by decide +kernel) (by decide +kernel) hzone
    (by decide) hmutex with ⟨addr, mm', hrun, hnull, _⟩
  have hnone : edgeMm.aliginSections (0 / pageSize % 256) (edgeMm.zoneSections .dma)
      = some none := by decide +kernel
  rw [getFreePageAligin_none edgeMm .dma 0 gfpDma hzone hmutex hnone, Option.some.injEq,
    Prod.mk.injEq] at hrun
  have hused := hnull.mp ⟨hrun.1.symm, hrun.2.symm⟩ ((edgeMm.zone .dma).memorySection 0)
    (List.mem_map_of_mem (List.mem_range.mpr (by decide +kernel))) 0x7ff00
    ⟨0xfff00000, ⟨0, by decide +kernel, by decide +kernel⟩, by decide, by decide +kernel⟩
  exact absurd hused (by decide +kernel)

end Mm

end Mirros
