import Mirros.Lib.Lookup
import Mirros.Theory.Boot.Layout

/-!
# Translation Between Addresses

`va_get_pv_offset` and `pa_get_pv_offset` search the sections for the one that
holds an address. Both tests include the end of the section, and the end is a
32-bit sum. On a bank laid out by `map_zone_memory` the virtual ranges of the
sections are adjacent by construction, so an address at which one section ends
and another begins is given the offset of whichever comes first in the search,
and a section that reaches the end of the address space is not found at all.

`Clear` names the addresses at which neither happens. Translation is right at an
address exactly when it is clear (`vaGetPvOffset_iff`, `paGetPvOffset_iff`), and
right everywhere exactly when all page-aligned addresses are
(`translation_exact`).

## Main definitions

* `Mm.places`: The sections in the order of the search.
* `Mm.Earlier`: One section comes before another in the search.
* `Mm.Clear`: The search finds the offset of the section an address is in.
* `Mm.SoundBank`: A bank of non-empty sections that do not overlap physically.
* `Mm.Translates`: Both directions of the translation are right.

## Theorems

* `vaGetPvOffset_iff`, `paGetPvOffset_iff`: When a search is right.
* `translation_exact`: When translation is right for every page.
-/

namespace Mirros

namespace Mm

/-- The sections in the order in which the kernel walks them. -/
def places (mm : Mm) : List (ZoneId × Nat) :=
  [ZoneId.normal, .dma, .res, .io].flatMap
    (fun z => (List.range (mm.zone z).nrSection).map (fun i => (z, i)))

/-- The physical start of a section by its place. -/
def phyAt (mm : Mm) (p : ZoneId × Nat) : Nat :=
  (mm.sectionAt p).phyStart

/-- The offset of a section by its place. -/
def offAt (mm : Mm) (p : ZoneId × Nat) : Nat :=
  (mm.sectionAt p).pvOffset

/-- Section `q` comes before section `p` in the search. -/
def Earlier (mm : Mm) (q p : ZoneId × Nat) : Prop :=
  ∃ l r, mm.places = l ++ p :: r ∧ q ∈ l

/-- No earlier section with another offset ends at the address, and the section
    `p` it lies in does not reach the end of the address space, or the section
    that is found in its place has the same offset. -/
def Clear (mm : Mm) (start : ZoneId × Nat → Nat) (p : ZoneId × Nat) (x : Nat) : Prop :=
  (∀ q, mm.Earlier q p → start q + mm.sizeAt q = x → mm.offAt q = mm.offAt p) ∧
    (start p + mm.sizeAt p = u32Size →
      (∃ q, mm.IsSection q ∧ start q + mm.sizeAt q = x ∧ mm.offAt q = mm.offAt p) ∨
      (mm.offAt p = 0 ∧ ∀ q, mm.IsSection q → start q + mm.sizeAt q ≠ x))

theorem mem_places (mm : Mm) (p : ZoneId × Nat) : p ∈ mm.places ↔ mm.IsSection p := by
  unfold places IsSection
  rw [List.mem_flatMap]
  refine ⟨?_, ?_⟩
  · rintro ⟨z, -, hp⟩
    rcases List.mem_map.1 hp with ⟨i, hi, rfl⟩
    exact List.mem_range.1 hi
  · intro hp
    refine ⟨p.1, ?_, List.mem_map.2 ⟨p.2, List.mem_range.2 hp, rfl⟩⟩
    cases p.1 <;> decide

theorem nodup_places (mm : Mm) : mm.places.Nodup := by
  unfold places
  rw [List.nodup_flatMap]
  refine ⟨fun z _ => List.Nodup.map ?_ List.nodup_range, ?_⟩
  · intro i j hij
    exact congrArg Prod.snd hij
  · have hzs : [ZoneId.normal, .dma, .res, .io].Nodup := by decide
    refine hzs.imp (fun {y z} hyz => ?_)
    intro p hy hz
    rcases List.mem_map.1 hy with ⟨i, -, rfl⟩
    rcases List.mem_map.1 hz with ⟨j, -, hj⟩
    exact hyz (congrArg Prod.fst hj).symm

theorem sections_eq (mm : Mm) : mm.sections = mm.places.map mm.sectionAt := by
  unfold sections places
  simp only [List.flatMap_cons, List.flatMap_nil, List.append_nil, List.map_append, List.map_map]
  rfl

/-- A search of the sections is a search of their places. -/
theorem find_sections (mm : Mm) (start : MmSection → Nat) (x : Nat) :
    (match mm.sections.find? (fun s => start s ≤ x && x ≤ add32 (start s) s.size) with
      | some s => s.pvOffset
      | none => 0)
      = (findClosed u32Size (fun p => start (mm.sectionAt p)) mm.sizeAt mm.places x).elim 0
          mm.offAt := by
  rw [sections_eq, List.find?_map]
  unfold findClosed
  have hcomp : (fun s : MmSection => decide (start s ≤ x) && decide (x ≤ add32 (start s) s.size)) ∘
      mm.sectionAt = fun p => decide (start (mm.sectionAt p) ≤ x) &&
        decide (x ≤ (start (mm.sectionAt p) + mm.sizeAt p) % u32Size) := rfl
  rw [hcomp]
  cases mm.places.find? _ with
  | none => rfl
  | some p => rfl

theorem vaGetPvOffset_eq (mm : Mm) (va : Nat) :
    mm.vaGetPvOffset va
      = (findClosed u32Size mm.virAt mm.sizeAt mm.places va).elim 0 mm.offAt :=
  find_sections mm MmSection.virStart va

theorem paGetPvOffset_eq (mm : Mm) (pa : Nat) :
    mm.paGetPvOffset pa
      = (findClosed u32Size mm.phyAt mm.sizeAt mm.places pa).elim 0 mm.offAt :=
  find_sections mm MmSection.phyStart pa

/-- When the search for an address finds the offset of its section. -/
theorem find_clear (mm : Mm) (start : ZoneId × Nat → Nat)
    (h : Ranges u32Size start mm.sizeAt mm.places) (p : ZoneId × Nat) (hp : mm.IsSection p)
    (x : Nat) (hx : Within start mm.sizeAt p x) :
    (findClosed u32Size start mm.sizeAt mm.places x).elim 0 mm.offAt = mm.offAt p
      ↔ mm.Clear start p x := by
  rcases List.append_of_mem ((mem_places mm p).2 hp) with ⟨l, r, hlr⟩
  have howner := find_owner u32Size start mm.sizeAt l r p (hlr ▸ h) x hx mm.offAt 0
  rw [← hlr] at howner
  rw [howner]
  -- The places before `p` are those of the one split of the list at `p`.
  have hearly : ∀ q, mm.Earlier q p ↔ q ∈ l := by
    intro q
    refine ⟨?_, fun hq => ⟨l, r, hlr, hq⟩⟩
    rintro ⟨l', r', hlr', hq⟩
    have hnd := List.nodup_append.1 (hlr' ▸ nodup_places mm)
    have hpl : p ∉ l' := fun hc => hnd.2.2 p hc p List.mem_cons_self rfl
    have hpr : p ∉ r' := (List.nodup_cons.1 hnd.2.1).1
    have hl := (List.append_cons_inj_of_notMem hpl hpr).1 (hlr'.symm.trans hlr)
    exact hl.1 ▸ hq
  unfold Clear
  simp only [hearly, mem_places]

/-- A bank of non-empty sections that do not overlap physically, with words for
    their starts and sizes. -/
structure SoundBank (bank : Mm) : Prop where
  unmapped : bank.Unmapped
  size_pos : ∀ p, bank.IsSection p → 0 < bank.sizeAt p
  size_lt : ∀ p, bank.IsSection p → bank.sizeAt p < u32Size
  phy_le : ∀ p, bank.IsSection p → bank.phyAt p + bank.sizeAt p ≤ u32Size
  disjoint : ∀ p q, bank.IsSection p → bank.IsSection q → p ≠ q → ∀ x,
    Within bank.phyAt bank.sizeAt p x → ¬ Within bank.phyAt bank.sizeAt q x

theorem mem_mapOrder_of_sound (bank : Mm) (kernelPhyStart : Nat) (hs : SoundBank bank)
    (p : ZoneId × Nat) (hp : bank.IsSection p) : p ∈ bank.mapOrder kernelPhyStart :=
  (mem_mapOrder bank kernelPhyStart p).2 ⟨hp, Or.inl (hs.size_pos p hp)⟩

section Laid

variable (bank mm : Mm) (kernelPhyStart : Nat) (hs : SoundBank bank)
  (hplaced : Placed bank (bank.mapOrder kernelPhyStart) mm)
  (hfit : bank.kernelStart + bank.bankSpan ≤ u32Size)

include hplaced

theorem isSection_placed (p : ZoneId × Nat) : mm.IsSection p ↔ bank.IsSection p := by
  unfold IsSection
  rw [placed_nrSection bank mm _ hplaced]

theorem phyAt_placed (p : ZoneId × Nat) : mm.phyAt p = bank.phyAt p := by
  unfold phyAt
  by_cases hp : p ∈ bank.mapOrder kernelPhyStart
  · rw [hplaced.placed p hp]
    rfl
  · rw [hplaced.kept p hp]

include hs

theorem offAt_placed (p : ZoneId × Nat) (hp : bank.IsSection p) :
    mm.offAt p = sub32 (mm.virAt p) (bank.phyAt p) := by
  unfold offAt
  rw [hplaced.placed p (mem_mapOrder_of_sound bank kernelPhyStart hs p hp)]
  rfl

theorem offAt_lt (p : ZoneId × Nat) (hp : mm.IsSection p) : mm.offAt p < u32Size := by
  rw [isSection_placed bank mm kernelPhyStart hplaced] at hp
  rw [offAt_placed bank mm kernelPhyStart hs hplaced p hp]
  exact Nat.mod_lt _ (by unfold u32Size; omega)

include hfit

/-- Sections lie between the start of the kernel and the end of the layout. -/
theorem virAt_bounds (p : ZoneId × Nat) (hp : bank.IsSection p) :
    bank.kernelStart ≤ mm.virAt p ∧ mm.virAt p + bank.sizeAt p ≤ u32Size := by
  have hmem := mem_mapOrder_of_sound bank kernelPhyStart hs p hp
  have hpos := hs.size_pos p hp
  have hcover := fun x => laid_cover u32Size bank.sizeAt mm.virAt bank.kernelStart
    (bank.mapOrder kernelPhyStart) x hplaced.laid (by rw [span_mapOrder]; exact hfit)
  have hfirst := (hcover (mm.virAt p)).2 ⟨p, hmem, by omega, by omega⟩
  have hlast := (hcover (mm.virAt p + bank.sizeAt p - 1)).2 ⟨p, hmem, by omega, by omega⟩
  rw [span_mapOrder] at hfirst hlast
  omega

theorem virRanges : Ranges u32Size mm.virAt mm.sizeAt mm.places := by
  have hsize : mm.sizeAt = bank.sizeAt := by
    ext p
    exact placed_size bank mm _ hplaced p
  have hsec : ∀ p ∈ mm.places, bank.IsSection p := by
    intro p hp
    rw [mem_places, isSection_placed bank mm kernelPhyStart hplaced] at hp
    exact hp
  rw [hsize]
  refine ⟨nodup_places mm, fun p hp => hs.size_pos p (hsec p hp),
    fun p hp => hs.size_lt p (hsec p hp), fun p hp => ?_, fun p hp q hq hpq x hx => ?_⟩
  · exact (virAt_bounds bank mm kernelPhyStart hs hplaced hfit p (hsec p hp)).2
  · exact placed_disjoint bank mm kernelPhyStart hplaced hfit p q (hsec p hp) (hsec q hq) hpq x hx

omit hfit in
theorem phyRanges : Ranges u32Size mm.phyAt mm.sizeAt mm.places := by
  have hsize : mm.sizeAt = bank.sizeAt := by
    ext p
    exact placed_size bank mm _ hplaced p
  have hphy : mm.phyAt = bank.phyAt := by
    ext p
    exact phyAt_placed bank mm kernelPhyStart hplaced p
  have hsec : ∀ p ∈ mm.places, bank.IsSection p := by
    intro p hp
    rw [mem_places, isSection_placed bank mm kernelPhyStart hplaced] at hp
    exact hp
  rw [hsize, hphy]
  exact ⟨nodup_places mm, fun p hp => hs.size_pos p (hsec p hp),
    fun p hp => hs.size_lt p (hsec p hp), fun p hp => hs.phy_le p (hsec p hp),
    fun p hp q hq => hs.disjoint p q (hsec p hp) (hsec q hq)⟩

/-- When the search by virtual address is right. -/
theorem vaGetPvOffset_iff (p : ZoneId × Nat) (hp : mm.IsSection p) (va : Nat)
    (hva : Within mm.virAt mm.sizeAt p va) :
    mm.vaGetPvOffset va = mm.offAt p ↔ mm.Clear mm.virAt p va := by
  rw [← find_clear mm mm.virAt (virRanges bank mm kernelPhyStart hs hplaced hfit) p hp va hva]
  rw [vaGetPvOffset_eq]

omit hfit in
/-- When the search by physical address is right. -/
theorem paGetPvOffset_iff (p : ZoneId × Nat) (hp : mm.IsSection p) (pa : Nat)
    (hpa : Within mm.phyAt mm.sizeAt p pa) :
    mm.paGetPvOffset pa = mm.offAt p ↔ mm.Clear mm.phyAt p pa := by
  rw [← find_clear mm mm.phyAt (phyRanges bank mm kernelPhyStart hs hplaced) p hp pa hpa]
  rw [paGetPvOffset_eq]

/-- Adding the offset to a physical address of a section, in plain
    arithmetic. -/
theorem add32_offAt (p : ZoneId × Nat) (hp : mm.IsSection p) (pa : Nat)
    (hpa : Within mm.phyAt mm.sizeAt p pa) :
    add32 pa (mm.offAt p) = mm.virAt p + (pa - mm.phyAt p) := by
  rw [isSection_placed bank mm kernelPhyStart hplaced] at hp
  have hphy := hs.phy_le p hp
  have hbounds := virAt_bounds bank mm kernelPhyStart hs hplaced hfit p hp
  unfold Within at hpa
  rw [placed_size bank mm _ hplaced, phyAt_placed bank mm kernelPhyStart hplaced] at hpa
  rw [offAt_placed bank mm kernelPhyStart hs hplaced p hp,
    phyAt_placed bank mm kernelPhyStart hplaced]
  unfold add32 sub32 u32Size at *
  omega

/-- Subtracting the offset from a virtual address of a section, in plain
    arithmetic. -/
theorem sub32_offAt (p : ZoneId × Nat) (hp : mm.IsSection p) (va : Nat)
    (hva : Within mm.virAt mm.sizeAt p va) :
    sub32 va (mm.offAt p) = mm.phyAt p + (va - mm.virAt p) := by
  rw [isSection_placed bank mm kernelPhyStart hplaced] at hp
  have hphy := hs.phy_le p hp
  have hbounds := virAt_bounds bank mm kernelPhyStart hs hplaced hfit p hp
  unfold Within at hva
  rw [placed_size bank mm _ hplaced] at hva
  rw [offAt_placed bank mm kernelPhyStart hs hplaced p hp,
    phyAt_placed bank mm kernelPhyStart hplaced]
  unfold sub32 u32Size at *
  omega

omit hfit in
/-- The search never returns more than a word. -/
theorem findClosed_lt (start : ZoneId × Nat → Nat) (x : Nat) :
    (findClosed u32Size start mm.sizeAt mm.places x).elim 0 mm.offAt < u32Size := by
  have hpos : 0 < u32Size := by
    unfold u32Size
    omega
  cases hf : findClosed u32Size start mm.sizeAt mm.places x with
  | none => exact hpos
  | some p =>
      have hp := List.mem_of_find?_eq_some hf
      rw [mem_places, isSection_placed bank mm kernelPhyStart hplaced] at hp
      rw [Option.elim_some, offAt_placed bank mm kernelPhyStart hs hplaced p hp]
      exact Nat.mod_lt _ hpos

/-- `pa_to_va` is right at an address of a section with an offset exactly when
    the search is. -/
theorem paToVa_iff (hk : 0 < bank.kernelStart) (p : ZoneId × Nat) (hp : mm.IsSection p)
    (hoff : mm.offAt p ≠ 0) (pa : Nat) (hpa : Within mm.phyAt mm.sizeAt p pa) :
    mm.paToVa pa = add32 pa (mm.offAt p) ↔ mm.Clear mm.phyAt p pa := by
  rw [← paGetPvOffset_iff bank mm kernelPhyStart hs hplaced p hp pa hpa]
  have hadd := add32_offAt bank mm kernelPhyStart hs hplaced hfit p hp pa hpa
  have hvir := (virAt_bounds bank mm kernelPhyStart hs hplaced hfit p
    ((isSection_placed bank mm kernelPhyStart hplaced p).1 hp)).1
  unfold paToVa
  by_cases hz : mm.paGetPvOffset pa = 0
  · -- Zero means "not found", and no section is mapped at address zero.
    rw [hz, hadd]
    simp only [ne_eq, not_true_eq_false, if_false]
    omega
  · simp only [ne_eq, hz, not_false_eq_true, if_true]
    have hlt : mm.paGetPvOffset pa < u32Size := by
      rw [paGetPvOffset_eq]
      exact findClosed_lt bank mm kernelPhyStart hs hplaced mm.phyAt pa
    have hoff' := offAt_lt bank mm kernelPhyStart hs hplaced p hp
    refine ⟨fun heq => ?_, fun heq => by rw [heq]⟩
    unfold add32 u32Size at *
    omega

/-- Every page-aligned address of a section is the address of a page. -/
theorem pageIdToVa_vaToPageId (hk : bank.kernelStart % pageSize = 0) (p : ZoneId × Nat)
    (hp : mm.IsSection p) (va : Nat) (hva : Within mm.virAt mm.sizeAt p va)
    (hal : va % pageSize = 0) : mm.pageIdToVa (mm.vaToPageId va) = va := by
  rw [isSection_placed bank mm kernelPhyStart hplaced] at hp
  have hbounds := virAt_bounds bank mm kernelPhyStart hs hplaced hfit p hp
  unfold Within at hva
  rw [placed_size bank mm _ hplaced] at hva
  unfold pageIdToVa vaToPageId
  rw [placed_kernelStart bank mm _ hplaced]
  unfold add32 sub32 pageSize u32Size at *
  omega

/-- What `init_pages` writes for the page at an address is right exactly when
    the search is. -/
theorem initPages_iff (hk : bank.kernelStart % pageSize = 0) (p : ZoneId × Nat)
    (hp : mm.IsSection p) (va : Nat) (hva : Within mm.virAt mm.sizeAt p va)
    (hal : va % pageSize = 0) (index count flag : Nat) (hlo : index ≤ mm.vaToPageId va)
    (hhi : mm.vaToPageId va < index + count) :
    (mm.initPages index count flag).vaToPa va = sub32 va (mm.offAt p)
      ↔ mm.Clear mm.virAt p va := by
  rw [← vaGetPvOffset_iff bank mm kernelPhyStart hs hplaced hfit p hp va hva]
  have hlt : mm.vaGetPvOffset va < u32Size := by
    rw [vaGetPvOffset_eq]
    exact findClosed_lt bank mm kernelPhyStart hs hplaced mm.virAt va
  have hoff := offAt_lt bank mm kernelPhyStart hs hplaced p hp
  have hentry : (mm.initPages index count flag).vaToPa va = sub32 va (mm.vaGetPvOffset va) := by
    rw [initPages_eq]
    have hid : ∀ t l, vaToPageId { mm with pageTable := t, links := l } va = mm.vaToPageId va :=
      fun _ _ => rfl
    unfold vaToPa
    rw [hid]
    simp only [hlo, hhi, and_self, if_true, freshPage]
    rw [pageIdToVa_vaToPageId bank mm kernelPhyStart hs hplaced hfit hk p hp va hva hal]
  rw [hentry]
  refine ⟨fun heq => ?_, fun heq => by rw [heq]⟩
  unfold sub32 u32Size at *
  omega

end Laid

/-- Translation is right for all pages: the entries `init_pages` fills give the
    physical address, `pa_to_va` gives the virtual address, and the two are
    inverse to each other. -/
structure Translates (mm : Mm) : Prop where
  toPa : ∀ p, mm.IsSection p → ∀ va, va % pageSize = 0 → Within mm.virAt mm.sizeAt p va →
    ∀ index count flag, index ≤ mm.vaToPageId va → mm.vaToPageId va < index + count →
      ((mm.initPages index count flag).pageTable (mm.vaToPageId va)).phyAddress
        = sub32 va (mm.offAt p)
  toVa : ∀ p, mm.IsSection p → ∀ pa, pa % pageSize = 0 → Within mm.phyAt mm.sizeAt p pa →
    mm.offAt p ≠ 0 → mm.paToVa pa = add32 pa (mm.offAt p)
  inverse : ∀ p, mm.IsSection p → mm.offAt p ≠ 0 → ∀ va, va % pageSize = 0 →
    Within mm.virAt mm.sizeAt p va → ∀ pa, pa % pageSize = 0 → pa = sub32 va (mm.offAt p) →
    ∀ index count flag, index ≤ mm.vaToPageId va → mm.vaToPageId va < index + count →
      (mm.initPages index count flag).paToVa ((mm.initPages index count flag).vaToPa va) = va ∧
      (mm.initPages index count flag).vaToPa ((mm.initPages index count flag).paToVa pa) = pa

theorem paToVa_initPages (mm : Mm) (index count flag pa : Nat) :
    (mm.initPages index count flag).paToVa pa = mm.paToVa pa := by
  rw [initPages_eq]
  rfl

/-- On a bank laid out by `map_zone_memory`, translation is right for all pages
    exactly when every page-aligned address is clear. -/
theorem translation_exact (bank : Mm) (kernelPhyStart : Nat) (hs : SoundBank bank)
    (hk : 0 < bank.kernelStart ∧ bank.kernelStart < u32Size ∧ bank.kernelStart % pageSize = 0)
    (hfit : bank.kernelStart + bank.bankSpan ≤ u32Size) :
    let mm := (bank.mapZoneMemory kernelPhyStart).1
    mm.Translates ↔
      (∀ p, mm.IsSection p → ∀ va, va % pageSize = 0 → Within mm.virAt mm.sizeAt p va →
        mm.Clear mm.virAt p va) ∧
      (∀ p, mm.IsSection p → mm.offAt p ≠ 0 → ∀ pa, pa % pageSize = 0 →
        Within mm.phyAt mm.sizeAt p pa → mm.Clear mm.phyAt p pa) := by
  intro mm
  have hplaced : Placed bank (bank.mapOrder kernelPhyStart) mm :=
    mapZoneMemory_placed bank kernelPhyStart hs.unmapped hk.2.1
  have htoPa := initPages_iff bank mm kernelPhyStart hs hplaced hfit hk.2.2
  have htoVa := paToVa_iff bank mm kernelPhyStart hs hplaced hfit hk.1
  refine ⟨fun h => ⟨fun p hp va hal hva => ?_, fun p hp hoff pa hal hpa => ?_⟩, ?_⟩
  · -- One page at the address is enough to read the entry off.
    refine (htoPa p hp va hva hal (mm.vaToPageId va) 1 0 (Nat.le_refl _) (by omega)).1 ?_
    exact h.toPa p hp va hal hva (mm.vaToPageId va) 1 0 (Nat.le_refl _) (by omega)
  · exact (htoVa p hp hoff pa hpa).1 (h.toVa p hp pa hal hpa hoff)
  · rintro ⟨hvir, hphy⟩
    have htoPa' : ∀ p, mm.IsSection p → ∀ va, va % pageSize = 0 →
        Within mm.virAt mm.sizeAt p va → ∀ index count flag, index ≤ mm.vaToPageId va →
        mm.vaToPageId va < index + count →
        (mm.initPages index count flag).vaToPa va = sub32 va (mm.offAt p) := by
      intro p hp va hal hva index count flag hlo hhi
      exact (htoPa p hp va hva hal index count flag hlo hhi).2 (hvir p hp va hal hva)
    have htoVa' : ∀ p, mm.IsSection p → ∀ pa, pa % pageSize = 0 →
        Within mm.phyAt mm.sizeAt p pa → mm.offAt p ≠ 0 →
        mm.paToVa pa = add32 pa (mm.offAt p) := by
      intro p hp pa hal hpa hoff
      exact (htoVa p hp hoff pa hpa).2 (hphy p hp hoff pa hal hpa)
    refine ⟨fun p hp va hal hva index count flag hlo hhi => ?_, htoVa', ?_⟩
    · rw [← htoPa' p hp va hal hva index count flag hlo hhi, initPages_eq]
      rfl
    · intro p hp hoff va hal hva pa halp hpa index count flag hlo hhi
      have hentry := htoPa' p hp va hal hva index count flag hlo hhi
      have hsub := sub32_offAt bank mm kernelPhyStart hs hplaced hfit p hp va hva
      have hin : Within mm.phyAt mm.sizeAt p pa := by
        rw [hpa, hsub]
        unfold Within at *
        omega
      have hback : mm.paToVa pa = va := by
        rw [htoVa' p hp pa halp hin hoff,
          add32_offAt bank mm kernelPhyStart hs hplaced hfit p hp pa hin, hpa, hsub]
        unfold Within at hva
        omega
      rw [paToVa_initPages, paToVa_initPages, hentry, ← hpa, hback]
      exact ⟨rfl, hentry.trans hpa.symm⟩

/-- A bank is sound when its sections, compared two by two, are. -/
theorem soundBank_of_places (bank : Mm) (hun : bank.Unmapped)
    (hsize : ∀ p ∈ bank.places, 0 < bank.sizeAt p ∧ bank.sizeAt p < u32Size ∧
      bank.phyAt p + bank.sizeAt p ≤ u32Size)
    (hapart : ∀ p ∈ bank.places, ∀ q ∈ bank.places, p = q ∨
      bank.phyAt p + bank.sizeAt p ≤ bank.phyAt q ∨
      bank.phyAt q + bank.sizeAt q ≤ bank.phyAt p) : SoundBank bank := by
  simp only [mem_places] at hsize hapart
  refine ⟨hun, fun p hp => (hsize p hp).1, fun p hp => (hsize p hp).2.1,
    fun p hp => (hsize p hp).2.2, fun p q hp hq hpq x hx hxq => ?_⟩
  unfold Within at hx hxq
  rcases hapart p hp q hq with h | h | h
  · exact hpq h
  · omega
  · omega

/-- Where all sections have the same offset and none reaches the end of the address space,
    every address is clear. -/
theorem clear_of_offset (mm : Mm) (start : ZoneId × Nat → Nat) (off : Nat)
    (hall : ∀ p ∈ mm.places, mm.offAt p = off ∧ start p + mm.sizeAt p < u32Size)
    (p : ZoneId × Nat) (hp : mm.IsSection p) (x : Nat) : mm.Clear start p x := by
  have hself := hall p ((mem_places mm p).2 hp)
  refine ⟨?_, fun htop => absurd htop (Nat.ne_of_lt hself.2)⟩
  rintro q ⟨l, r, hlr, hq⟩ -
  have hmem : q ∈ mm.places := by
    rw [hlr]
    exact List.mem_append_left _ hq
  rw [(hall q hmem).1, hself.1]

/-- One bank of sixty-four megabytes, its last four set aside for DMA. -/
def oneBank : Mm :=
  bareBank [(0x30000000, 0x3c00000)] [(0x33c00000, 0x400000)] [] []

/-- With one physical bank all sections have the same offset, and translation is
    right. -/
theorem translation_exact_one : (oneBank.mapZoneMemory 0x30000000).1.Translates := by
  have hvir : ∀ p ∈ (oneBank.mapZoneMemory 0x30000000).1.places,
      (oneBank.mapZoneMemory 0x30000000).1.offAt p = 0x50000000 ∧
      (oneBank.mapZoneMemory 0x30000000).1.virAt p
        + (oneBank.mapZoneMemory 0x30000000).1.sizeAt p < u32Size := by
    decide +kernel
  have hphy : ∀ p ∈ (oneBank.mapZoneMemory 0x30000000).1.places,
      (oneBank.mapZoneMemory 0x30000000).1.offAt p = 0x50000000 ∧
      (oneBank.mapZoneMemory 0x30000000).1.phyAt p
        + (oneBank.mapZoneMemory 0x30000000).1.sizeAt p < u32Size := by
    decide +kernel
  exact (translation_exact oneBank 0x30000000
    (soundBank_of_places oneBank (bareBank_unmapped _ _ _ _) (by decide) (by decide))
    (by decide) (by decide)).2 ⟨fun p hp va _ _ => clear_of_offset _ _ _ hvir p hp va,
      fun p hp _ pa _ _ => clear_of_offset _ _ _ hphy p hp pa⟩

/-- With two NORMAL banks the first page of the DMA zone is given the offset of
    the NORMAL section that ends there. -/
theorem translation_fails :
    SoundBank twoBanks ∧ twoBanks.kernelStart + twoBanks.bankSpan ≤ u32Size ∧
      ((twoBanks.mapZoneMemory 0x30000000).1.initPages 0x300 1 gfpDma).vaToPa 0x80300000
        = 0x20200000 ∧
      ¬ (twoBanks.mapZoneMemory 0x30000000).1.Translates := by
  refine ⟨soundBank_of_places twoBanks (bareBank_unmapped _ _ _ _) (by decide) (by decide),
    by decide, by decide +kernel, ?_⟩
  intro h
  have hdma := h.toPa (.dma, 0) (by decide +kernel) 0x80300000 (by decide)
    ⟨by decide +kernel, by decide +kernel⟩ 0x300 1 gfpDma (by decide +kernel) (by decide +kernel)
  exact absurd hdma (by decide +kernel)

end Mm

end Mirros
