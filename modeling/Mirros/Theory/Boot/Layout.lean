import Mirros.Lib.Layout
import Mirros.Core.Boot
import Mirros.Theory.Pages.Boot

/-!
# The Virtual Layout

Where `map_zone_memory` puts the sections. A section is named by its zone and
its index. The function maps the section of the kernel first and then, zone by
zone, every section that has a size and is not mapped yet. For a bank with no
section mapped this is one list of sections (`mapOrder`), laid out end to end
from the start of the kernel (`mapZoneMemory_placed`).

`init_page_table_map` numbers pages without looking at sections at all: each
zone gets as many page numbers as it has pages, in the order of the zones. The
two agree because the sections of a zone, the kernel's among them, are
contiguous in `mapOrder` and add up to the size of the zone (`span_zone`).

## Main definitions

* `Mm.sectionAt`, `Mm.IsSection`: Sections by zone and index.
* `Mm.zoneSpan`: The sum of the sizes of the sections of a zone.
* `Mm.Placed`: A bank in which some sections of another are placed.
* `Mm.zoneRest`, `Mm.mapOrder`: The order in which sections are mapped.
* `bareBank`: A bank from the physical starts and sizes of its sections.

## Theorems

* `mapZoneToVirtual_placed`: What mapping one zone does.
* `mapZoneMemory_placed`: What mapping all zones does.
* `span_zone`: The sections of a zone in the order of mapping.
* `layout_agrees`: Page numbers and virtual addresses agree zone by zone.
-/

namespace Mirros

namespace Mm

/-- The section with this index in this zone. -/
def sectionAt (bank : Mm) (p : ZoneId × Nat) : MmSection :=
  (bank.zone p.1).memorySection p.2

/-- The index is below the number of sections of the zone. -/
def IsSection (bank : Mm) (p : ZoneId × Nat) : Prop :=
  p.2 < (bank.zone p.1).nrSection

instance (bank : Mm) (p : ZoneId × Nat) : Decidable (bank.IsSection p) :=
  inferInstanceAs (Decidable (_ < _))

/-- The size of a section by its place. -/
def sizeAt (bank : Mm) (p : ZoneId × Nat) : Nat :=
  (bank.sectionAt p).size

/-- The virtual start of a section by its place. -/
def virAt (bank : Mm) (p : ZoneId × Nat) : Nat :=
  (bank.sectionAt p).virStart

/-- The sum of the sizes of the sections of a zone. -/
def zoneSpan (bank : Mm) (z : ZoneId) : Nat :=
  span (fun i => bank.sizeAt (z, i)) (List.range (bank.zone z).nrSection)

/-- No section of the bank is mapped yet. -/
def Unmapped (bank : Mm) : Prop :=
  ∀ p, bank.IsSection p → (bank.sectionAt p).maped = false

/-- The sections of the list are placed from the start of the kernel on, and
    nothing else of the bank has changed. -/
structure Placed (bank : Mm) (order : List (ZoneId × Nat)) (bank' : Mm) : Prop where
  /-- Only the arrays of sections differ. -/
  frame : bank' = { bank with zone := fun z =>
    { bank.zone z with memorySection := (bank'.zone z).memorySection } }
  laid : Laid u32Size bank.sizeAt bank'.virAt bank.kernelStart order
  placed : ∀ p ∈ order, bank'.sectionAt p
    = mapSectionToVirtual (bank.sectionAt p) (bank'.virAt p)
  kept : ∀ p, p ∉ order → bank'.sectionAt p = bank.sectionAt p

theorem add32_mod (a b : Nat) : add32 (a % u32Size) b = (a + b) % u32Size := by
  unfold add32
  rw [Nat.mod_add_mod]

/-- Adding the difference to a word gives the other word back. -/
theorem add32_sub32 (a b : Nat) (ha : a < u32Size) : add32 b (sub32 a b) = a := by
  unfold add32 sub32 u32Size at *
  omega

/-- What the loop of `map_zone_to_virtual` does from an address on: `todo` is
    the list of sections it maps. -/
theorem foldl_mapSection (zone : Zone) (base : Nat) (is : List Nat) (hnd : is.Nodup)
    (todo : List Nat)
    (htodo : todo = is.filter (fun i =>
      0 < (zone.memorySection i).size ∧ (zone.memorySection i).maped = false)) :
    ∃ secs, is.foldl mapSection (zone, base % u32Size)
        = ({ zone with memorySection := secs },
            (base + span (fun i => (zone.memorySection i).size) todo) % u32Size) ∧
      Laid u32Size (fun i => (zone.memorySection i).size) (fun i => (secs i).virStart) base todo ∧
      (∀ i ∈ todo, secs i = mapSectionToVirtual (zone.memorySection i) (secs i).virStart) ∧
      ∀ i, i ∉ todo → secs i = zone.memorySection i := by
  induction is generalizing zone base todo with
  | nil =>
      subst htodo
      refine ⟨zone.memorySection, rfl, trivial, ?_, fun i _ => rfl⟩
      intro i hi
      exact absurd hi List.not_mem_nil
  | cons a is ih =>
      rcases List.nodup_cons.1 hnd with ⟨ha, his⟩
      rw [List.foldl_cons]
      by_cases hq : 0 < (zone.memorySection a).size ∧ (zone.memorySection a).maped = false
      · -- Section `a` is mapped; the rest of the loop sees the same other sections.
        have hstep : mapSection (zone, base % u32Size) a
            = (zone.setSection a (mapSectionToVirtual (zone.memorySection a) (base % u32Size)),
                (base + (zone.memorySection a).size) % u32Size) := by
          unfold mapSection
          simp only [if_pos hq, add32_mod]
        have hrest : ∀ i ∈ is, (zone.setSection a
            (mapSectionToVirtual (zone.memorySection a) (base % u32Size))).memorySection i
              = zone.memorySection i := by
          intro i hi
          have hne : i ≠ a := fun hc => ha (hc ▸ hi)
          simp only [Zone.setSection, Function.update_of_ne hne]
        rcases ih (zone.setSection a (mapSectionToVirtual (zone.memorySection a) (base % u32Size)))
          (base + (zone.memorySection a).size) his _ rfl with ⟨secs, hfold, hlaid, hput, hkeep⟩
        have hfilter : is.filter (fun i => decide (0 < ((zone.setSection a (mapSectionToVirtual
            (zone.memorySection a) (base % u32Size))).memorySection i).size ∧
              ((zone.setSection a (mapSectionToVirtual (zone.memorySection a)
                (base % u32Size))).memorySection i).maped = false))
              = is.filter (fun i => decide (0 < (zone.memorySection i).size ∧
                (zone.memorySection i).maped = false)) := by
          refine List.filter_congr (fun i hi => ?_)
          rw [hrest i hi]
        rw [hfilter] at hfold hlaid hput hkeep
        have hcons : todo = a :: is.filter (fun i => decide (0 < (zone.memorySection i).size ∧
            (zone.memorySection i).maped = false)) := by
          rw [htodo, List.filter_cons_of_pos (by simpa only [decide_eq_true_eq] using hq)]
        have hin : ∀ i ∈ is.filter (fun i => decide (0 < (zone.memorySection i).size ∧
            (zone.memorySection i).maped = false)), i ∈ is :=
          fun i hi => (List.mem_filter.1 hi).1
        have hsize : ∀ i, ((zone.setSection a (mapSectionToVirtual (zone.memorySection a)
            (base % u32Size))).memorySection i).size = (zone.memorySection i).size := by
          intro i
          by_cases hi : i = a
          · subst hi
            simp only [Zone.setSection, Function.update_self, mapSectionToVirtual]
          · simp only [Zone.setSection, Function.update_of_ne hi]
        have hsa : secs a = mapSectionToVirtual (zone.memorySection a) (base % u32Size) := by
          rw [hkeep a (fun hc => ha (hin a hc))]
          simp only [Zone.setSection, Function.update_self]
        simp only [hsize] at hfold hlaid
        refine ⟨secs, ?_, ?_, ?_, ?_⟩
        · rw [hstep, hfold, hcons, span_cons, Nat.add_assoc]
          rfl
        · rw [hcons]
          refine ⟨?_, hlaid⟩
          simp only [hsa, mapSectionToVirtual]
        · intro i hi
          rw [hcons] at hi
          rcases List.mem_cons.1 hi with hi | hi
          · subst hi
            rw [hsa]
            rfl
          · rw [hput i hi, hrest i (hin i hi)]
            rfl
        · intro i hi
          rw [hcons] at hi
          rw [hkeep i (fun hc => hi (List.mem_cons_of_mem a hc))]
          have hne : i ≠ a := fun hc => hi (hc ▸ List.mem_cons_self)
          simp only [Zone.setSection, Function.update_of_ne hne]
      · have hstep : mapSection (zone, base % u32Size) a = (zone, base % u32Size) := by
          unfold mapSection
          simp only [if_neg hq]
        rw [hstep]
        refine ih zone base his todo ?_
        rw [htodo, List.filter_cons_of_neg (by simpa only [decide_eq_true_eq] using hq)]

/-- What `map_zone_to_virtual` does to a zone. -/
theorem mapZoneToVirtual_placed (zone : Zone) (base : Nat) (todo : List Nat)
    (htodo : todo = (List.range zone.nrSection).filter (fun i =>
      0 < (zone.memorySection i).size ∧ (zone.memorySection i).maped = false)) :
    ∃ secs, (mapZoneToVirtual zone (base % u32Size)).1 = { zone with memorySection := secs } ∧
      add32 (base % u32Size) (mapZoneToVirtual zone (base % u32Size)).2
        = (base + span (fun i => (zone.memorySection i).size) todo) % u32Size ∧
      Laid u32Size (fun i => (zone.memorySection i).size) (fun i => (secs i).virStart) base todo ∧
      (∀ i ∈ todo, secs i = mapSectionToVirtual (zone.memorySection i) (secs i).virStart) ∧
      ∀ i, i ∉ todo → secs i = zone.memorySection i := by
  have hpos : 0 < u32Size := by
    unfold u32Size
    omega
  rcases foldl_mapSection zone base (List.range zone.nrSection) List.nodup_range todo htodo with
    ⟨secs, hfold, hlaid, hput, hkeep⟩
  refine ⟨secs, ?_, ?_, hlaid, hput, hkeep⟩
  · unfold mapZoneToVirtual
    rw [hfold]
  · unfold mapZoneToVirtual
    rw [hfold]
    exact add32_sub32 _ _ (Nat.mod_lt _ hpos)

/-- The place of the section the kernel was loaded into. -/
def kernelPlace (bank : Mm) (kernelPhyStart : Nat) : List (ZoneId × Nat) :=
  ((bank.kernelSection kernelPhyStart).toList).map (fun i => (.normal, i))

/-- The sections of a zone that `map_zone_to_virtual` maps after the places in
    `done`. -/
def zoneRest (bank : Mm) (done : List (ZoneId × Nat)) (z : ZoneId) : List (ZoneId × Nat) :=
  ((List.range (bank.zone z).nrSection).map (fun i => (z, i))).filter
    (fun p => 0 < bank.sizeAt p ∧ p ∉ done)

/-- The order in which `map_zone_memory` maps the sections. -/
def mapOrder (bank : Mm) (kernelPhyStart : Nat) : List (ZoneId × Nat) :=
  bank.kernelPlace kernelPhyStart ++
    [ZoneId.normal, .dma, .res, .io].flatMap (bank.zoneRest (bank.kernelPlace kernelPhyStart))

theorem kernelPlace_isSection (bank : Mm) (kernelPhyStart : Nat) (p : ZoneId × Nat)
    (h : p ∈ bank.kernelPlace kernelPhyStart) : p.1 = .normal ∧ bank.IsSection p := by
  unfold kernelPlace at h
  rcases List.mem_map.1 h with ⟨i, hi, rfl⟩
  rw [Option.mem_toList] at hi
  exact ⟨rfl, List.mem_range.1 (List.mem_of_find?_eq_some hi)⟩

theorem mem_zoneRest (bank : Mm) (done : List (ZoneId × Nat)) (z : ZoneId) (p : ZoneId × Nat) :
    p ∈ bank.zoneRest done z
      ↔ p.1 = z ∧ bank.IsSection p ∧ 0 < bank.sizeAt p ∧ p ∉ done := by
  unfold zoneRest IsSection
  rw [List.mem_filter, List.mem_map, decide_eq_true_eq]
  refine ⟨?_, ?_⟩
  · rintro ⟨⟨i, hi, rfl⟩, hs⟩
    exact ⟨rfl, List.mem_range.1 hi, hs⟩
  · rintro ⟨rfl, hi, hs⟩
    exact ⟨⟨p.2, List.mem_range.2 hi, rfl⟩, hs⟩

/-- Mapping the section of the kernel. -/
theorem mapKernel_placed (bank : Mm) (kernelPhyStart : Nat) (hk : bank.kernelStart < u32Size) :
    Placed bank (bank.kernelPlace kernelPhyStart) (bank.mapKernel kernelPhyStart).1 ∧
      (bank.mapKernel kernelPhyStart).2
        = (bank.kernelStart + span bank.sizeAt (bank.kernelPlace kernelPhyStart)) % u32Size := by
  unfold mapKernel kernelPlace
  cases hf : bank.kernelSection kernelPhyStart with
  | none =>
      simp only [Option.toList_none, List.map_nil, span_nil, Nat.add_zero, Nat.mod_eq_of_lt hk,
        and_true]
      exact ⟨rfl, trivial, fun p hp => absurd hp List.not_mem_nil, fun p _ => rfl⟩
  | some i =>
      simp only [Option.toList_some, List.map_cons, List.map_nil, span_cons, span_nil, Nat.add_zero]
      refine ⟨⟨?_, ?_, ?_, ?_⟩, rfl⟩
      · simp only [setZone, Mm.mk.injEq, true_and, and_true]
        funext z
        by_cases hz : z = .normal
        · subst hz
          simp only [Function.update_self, Zone.setSection]
        · simp only [Function.update_of_ne hz]
      · refine ⟨?_, trivial⟩
        simp only [virAt, sectionAt, setZone, Function.update_self, Zone.setSection,
          mapSectionToVirtual, Nat.mod_eq_of_lt hk]
      · intro p hp
        rw [List.mem_singleton.1 hp]
        simp only [virAt, sectionAt, setZone, Function.update_self, Zone.setSection,
          mapSectionToVirtual]
      · intro p hp
        rw [List.mem_singleton] at hp
        unfold sectionAt setZone
        by_cases hz : p.1 = .normal
        · have hi : p.2 ≠ i := fun hc => hp (Prod.ext hz hc)
          simp only [hz, Function.update_self, Zone.setSection, Function.update_of_ne hi]
        · simp only [Function.update_of_ne hz]

/-- Mapping one more zone of a bank that was unmapped at first. -/
theorem mapZone_placed (bank : Mm) (hun : bank.Unmapped) (order done : List (ZoneId × Nat))
    (acc : Mm × Nat) (z : ZoneId) (h : Placed bank order acc.1)
    (hbase : acc.2 = (bank.kernelStart + span bank.sizeAt order) % u32Size)
    (hdone : ∀ p, p.1 = z → (p ∈ order ↔ p ∈ done)) :
    Placed bank (order ++ bank.zoneRest done z) (mapZone acc z).1 ∧
      (mapZone acc z).2
        = (bank.kernelStart + span bank.sizeAt (order ++ bank.zoneRest done z)) % u32Size := by
  have hframe : acc.1.zone z
      = { bank.zone z with memorySection := (acc.1.zone z).memorySection } := by
    have hf := congrArg (fun b => b.zone z) h.frame
    exact hf
  have hnr : (acc.1.zone z).nrSection = (bank.zone z).nrSection := by
    rw [hframe]
  -- Sections of the zone are as they were, except those already placed.
  have hsec : ∀ i, (acc.1.zone z).memorySection i = acc.1.sectionAt (z, i) := fun i => rfl
  have hsize : ∀ i, ((acc.1.zone z).memorySection i).size = bank.sizeAt (z, i) := by
    intro i
    rw [hsec]
    by_cases hi : (z, i) ∈ order
    · rw [h.placed _ hi]
      rfl
    · rw [h.kept _ hi]
      rfl
  have hmaped : ∀ i, i < (bank.zone z).nrSection →
      (((acc.1.zone z).memorySection i).maped = false ↔ (z, i) ∉ done) := by
    intro i hi
    rw [hsec, ← hdone (z, i) rfl]
    by_cases hm : (z, i) ∈ order
    · rw [h.placed _ hm]
      simp only [mapSectionToVirtual, Bool.true_eq_false, hm, not_true_eq_false]
    · rw [h.kept _ hm]
      simp only [hun (z, i) hi, hm, not_false_eq_true]
  have htodo : ((List.range (bank.zone z).nrSection).filter
      (fun i => decide (0 < bank.sizeAt (z, i) ∧ (z, i) ∉ done)))
        = (List.range (acc.1.zone z).nrSection).filter (fun i =>
          0 < ((acc.1.zone z).memorySection i).size ∧
            ((acc.1.zone z).memorySection i).maped = false) := by
    rw [hnr]
    refine List.filter_congr (fun i hi => ?_)
    rw [hsize, decide_eq_decide, hmaped i (List.mem_range.1 hi)]
  have hrest : bank.zoneRest done z = ((List.range (bank.zone z).nrSection).filter
      (fun i => decide (0 < bank.sizeAt (z, i) ∧ (z, i) ∉ done))).map (fun i => (z, i)) := by
    unfold zoneRest
    rw [List.filter_map]
    rfl
  rcases mapZoneToVirtual_placed (acc.1.zone z) (bank.kernelStart + span bank.sizeAt order) _ htodo
    with ⟨secs, hzone, hadd, hlaid, hput, hkeep⟩
  simp only [hsize] at hadd hlaid
  have hin : ∀ p ∈ bank.zoneRest done z, p.1 = z ∧ p ∉ order := by
    intro p hp
    rcases (mem_zoneRest bank done z p).1 hp with ⟨hz, -, -, hp⟩
    exact ⟨hz, fun hc => hp ((hdone p hz).1 hc)⟩
  -- The sections after the step: those of zone `z` are `secs`.
  have hself : ∀ i, (mapZone acc z).1.sectionAt (z, i) = secs i := by
    intro i
    simp only [mapZone, sectionAt, setZone, hbase, Function.update_self, hzone]
  have hother : ∀ p, p.1 ≠ z → (mapZone acc z).1.sectionAt p = acc.1.sectionAt p := by
    intro p hp
    simp only [mapZone, sectionAt, setZone, Function.update_of_ne hp]
  have hplaced : ∀ p, p ∉ bank.zoneRest done z →
      (mapZone acc z).1.sectionAt p = acc.1.sectionAt p := by
    intro p hp
    by_cases hz : p.1 = z
    · have hpz : p = (z, p.2) := Prod.ext hz rfl
      rw [hpz, hself, hkeep p.2 ?_]
      · rfl
      · intro hc
        rw [hrest] at hp
        exact hp (List.mem_map.2 ⟨p.2, hc, hpz.symm⟩)
    · exact hother p hz
  refine ⟨⟨?_, ?_, ?_, ?_⟩, ?_⟩
  · have hacc := h.frame
    unfold mapZone setZone
    rw [hacc]
    simp only [Mm.mk.injEq, true_and, and_true]
    funext y
    by_cases hy : y = z
    · subst hy
      rw [← hframe, hbase, Function.update_self, hzone, hframe]
    · simp only [Function.update_of_ne hy]
  · rw [laid_append]
    refine ⟨laid_congr u32Size _ _ _ _ _ (fun p hp => ?_) h.laid, ?_⟩
    · unfold virAt
      rw [hplaced p (fun hc => (hin p hc).2 hp)]
    · rw [hrest, laid_map]
      refine laid_congr u32Size _ _ _ _ _ (fun i _ => ?_) hlaid
      unfold virAt
      rw [hself]
  · intro p hp
    rcases List.mem_append.1 hp with hp | hp
    · have hnot : p ∉ bank.zoneRest done z := fun hc => (hin p hc).2 hp
      unfold virAt
      rw [hplaced p hnot]
      exact h.placed p hp
    · have hpz : p = (z, p.2) := Prod.ext (hin p hp).1 rfl
      have hi := hp
      rw [hrest] at hi
      rcases List.mem_map.1 hi with ⟨i, hi, hpi⟩
      unfold virAt
      rw [← hpi, hself, hput i hi, hsec, h.kept _ (by rw [hpi]; exact (hin p hp).2)]
      rfl
  · intro p hp
    rw [List.mem_append, not_or] at hp
    rw [hplaced p hp.2]
    exact h.kept p hp.1
  · rw [span_append, hrest, span_map, ← Nat.add_assoc, ← hadd]
    unfold mapZone
    rw [hbase]

/-- Mapping several zones one after the other. -/
theorem foldl_mapZone_placed (bank : Mm) (hun : bank.Unmapped) (done : List (ZoneId × Nat))
    (zs : List ZoneId) (hnd : zs.Nodup) (order : List (ZoneId × Nat)) (acc : Mm × Nat)
    (h : Placed bank order acc.1)
    (hbase : acc.2 = (bank.kernelStart + span bank.sizeAt order) % u32Size)
    (hdone : ∀ p, p.1 ∈ zs → (p ∈ order ↔ p ∈ done)) :
    Placed bank (order ++ zs.flatMap (bank.zoneRest done)) (zs.foldl mapZone acc).1 := by
  induction zs generalizing order acc with
  | nil =>
      rw [List.flatMap_nil, List.append_nil]
      exact h
  | cons z zs ih =>
      rcases List.nodup_cons.1 hnd with ⟨hz, hzs⟩
      rcases mapZone_placed bank hun order done acc z h hbase
        (fun p hp => hdone p (hp ▸ List.mem_cons_self)) with ⟨hnext, hnextBase⟩
      rw [List.flatMap_cons, ← List.append_assoc, List.foldl_cons]
      refine ih hzs _ _ hnext hnextBase (fun p hp => ?_)
      rw [List.mem_append, hdone p (List.mem_cons_of_mem z hp)]
      -- The zone just mapped is not among the remaining ones.
      have hnot : p ∉ bank.zoneRest done z := by
        intro hc
        exact hz (((mem_zoneRest bank done z p).1 hc).1 ▸ hp)
      simp only [hnot, or_false]

/-- What `map_zone_memory` does to a bank without mapped sections. -/
theorem mapZoneMemory_placed (bank : Mm) (kernelPhyStart : Nat) (hun : bank.Unmapped)
    (hk : bank.kernelStart < u32Size) :
    Placed bank (bank.mapOrder kernelPhyStart) (bank.mapZoneMemory kernelPhyStart).1 := by
  rcases mapKernel_placed bank kernelPhyStart hk with ⟨hkernel, hbase⟩
  exact foldl_mapZone_placed bank hun (bank.kernelPlace kernelPhyStart)
    [ZoneId.normal, .dma, .res, .io] (by decide) _ _ hkernel hbase (fun p _ => Iff.rfl)

theorem mem_mapOrder (bank : Mm) (kernelPhyStart : Nat) (p : ZoneId × Nat) :
    p ∈ bank.mapOrder kernelPhyStart
      ↔ bank.IsSection p ∧ (0 < bank.sizeAt p ∨ p ∈ bank.kernelPlace kernelPhyStart) := by
  unfold mapOrder
  rw [List.mem_append, List.mem_flatMap]
  refine ⟨?_, ?_⟩
  · rintro (hp | ⟨z, -, hp⟩)
    · exact ⟨(kernelPlace_isSection bank kernelPhyStart p hp).2, Or.inr hp⟩
    · rcases (mem_zoneRest bank _ z p).1 hp with ⟨-, hs, hpos, -⟩
      exact ⟨hs, Or.inl hpos⟩
  · rintro ⟨hs, hp⟩
    by_cases hk : p ∈ bank.kernelPlace kernelPhyStart
    · exact Or.inl hk
    · refine Or.inr ⟨p.1, ?_, (mem_zoneRest bank _ p.1 p).2 ⟨rfl, hs, ?_, hk⟩⟩
      · cases p.1 <;> decide
      · rcases hp with hp | hp
        · exact hp
        · exact absurd hp hk

theorem nodup_zoneRest (bank : Mm) (done : List (ZoneId × Nat)) (z : ZoneId) :
    (bank.zoneRest done z).Nodup := by
  unfold zoneRest
  refine List.Nodup.filter _ (List.Nodup.map ?_ List.nodup_range)
  intro i j hij
  exact congrArg Prod.snd hij

theorem nodup_kernelPlace (bank : Mm) (kernelPhyStart : Nat) :
    (bank.kernelPlace kernelPhyStart).Nodup := by
  unfold kernelPlace
  cases bank.kernelSection kernelPhyStart with
  | none => exact List.nodup_nil
  | some i => exact List.nodup_singleton _

theorem nodup_mapOrder (bank : Mm) (kernelPhyStart : Nat) :
    (bank.mapOrder kernelPhyStart).Nodup := by
  unfold mapOrder
  rw [List.nodup_append]
  refine ⟨nodup_kernelPlace bank kernelPhyStart, ?_, ?_⟩
  · rw [List.nodup_flatMap]
    refine ⟨fun z _ => nodup_zoneRest bank _ z, ?_⟩
    have hzs : [ZoneId.normal, .dma, .res, .io].Nodup := by decide
    refine hzs.imp (fun {y z} hyz => ?_)
    intro p hy hz
    exact hyz (((mem_zoneRest bank _ y p).1 hy).1.symm.trans ((mem_zoneRest bank _ z p).1 hz).1)
  · intro p hp q hq hpq
    rcases List.mem_flatMap.1 hq with ⟨z, -, hq⟩
    exact ((mem_zoneRest bank _ z q).1 hq).2.2.2 (hpq ▸ hp)

/-- The sections of a zone, except those in `done`, add up to what the
    sections of `done` leave of the zone. -/
theorem span_zoneRest (bank : Mm) (z : ZoneId) (done : List (ZoneId × Nat)) (hnd : done.Nodup)
    (hdone : ∀ p ∈ done, p.1 = z ∧ bank.IsSection p) :
    span bank.sizeAt (done ++ bank.zoneRest done z) = bank.zoneSpan z := by
  have hperm : (done ++ bank.zoneRest done z).Perm
      (((List.range (bank.zone z).nrSection).map (fun i => (z, i))).filter
        (fun p => 0 < bank.sizeAt p ∨ p ∈ done)) := by
    rw [List.perm_ext_iff_of_nodup]
    · intro p
      rw [List.mem_append, mem_zoneRest, List.mem_filter, List.mem_map, decide_eq_true_eq]
      refine ⟨?_, ?_⟩
      · rintro (hp | ⟨hz, hs, hpos, -⟩)
        · rcases hdone p hp with ⟨hz, hs⟩
          exact ⟨⟨p.2, List.mem_range.2 (hz ▸ hs), Prod.ext hz.symm rfl⟩, Or.inr hp⟩
        · exact ⟨⟨p.2, List.mem_range.2 (hz ▸ hs), Prod.ext hz.symm rfl⟩, Or.inl hpos⟩
      · rintro ⟨⟨i, hi, rfl⟩, hp⟩
        by_cases hd : (z, i) ∈ done
        · exact Or.inl hd
        · rcases hp with hp | hp
          · exact Or.inr ⟨rfl, List.mem_range.1 hi, hp, hd⟩
          · exact absurd hp hd
    · rw [List.nodup_append]
      refine ⟨hnd, nodup_zoneRest bank done z, ?_⟩
      intro p hp q hq hpq
      exact ((mem_zoneRest bank done z q).1 hq).2.2.2 (hpq ▸ hp)
    · refine List.Nodup.filter _ (List.Nodup.map ?_ List.nodup_range)
      intro i j hij
      exact congrArg Prod.snd hij
  rw [span_perm _ _ _ hperm, span_filter, span_map]
  · rfl
  · intro p _ hp
    rw [decide_eq_false_iff_not, not_or] at hp
    omega

/-- The sections of a zone in the order in which they are mapped. -/
def zoneOrder (bank : Mm) (kernelPhyStart : Nat) (z : ZoneId) : List (ZoneId × Nat) :=
  (if z = .normal then bank.kernelPlace kernelPhyStart else []) ++
    bank.zoneRest (bank.kernelPlace kernelPhyStart) z

theorem mapOrder_eq (bank : Mm) (kernelPhyStart : Nat) :
    bank.mapOrder kernelPhyStart
      = bank.zoneOrder kernelPhyStart .normal ++ (bank.zoneOrder kernelPhyStart .dma ++
        (bank.zoneOrder kernelPhyStart .res ++ bank.zoneOrder kernelPhyStart .io)) := by
  simp only [mapOrder, zoneOrder, List.flatMap_cons, List.flatMap_nil, List.append_nil, if_true,
    reduceCtorEq, if_false, List.nil_append, List.append_assoc]

/-- The sections of a zone add up to its size, in whatever order they are
    mapped. -/
theorem span_zone (bank : Mm) (kernelPhyStart : Nat) (z : ZoneId) :
    span bank.sizeAt (bank.zoneOrder kernelPhyStart z) = bank.zoneSpan z := by
  unfold zoneOrder
  by_cases hz : z = .normal
  · subst hz
    rw [if_pos rfl]
    exact span_zoneRest bank .normal _ (nodup_kernelPlace bank kernelPhyStart)
      (kernelPlace_isSection bank kernelPhyStart)
  · -- The section of the kernel is of another zone, so it leaves out nothing here.
    have hrest : bank.zoneRest (bank.kernelPlace kernelPhyStart) z = bank.zoneRest [] z := by
      unfold zoneRest
      refine List.filter_congr (fun p hp => ?_)
      rcases List.mem_map.1 hp with ⟨i, -, rfl⟩
      have hnot : (z, i) ∉ bank.kernelPlace kernelPhyStart :=
        fun hc => hz (kernelPlace_isSection bank kernelPhyStart _ hc).1
      simp only [hnot, not_false_eq_true, List.not_mem_nil]
    rw [if_neg hz, hrest]
    exact span_zoneRest bank z [] List.nodup_nil (fun p hp => absurd hp List.not_mem_nil)

theorem mem_zoneOrder (bank : Mm) (kernelPhyStart : Nat) (z : ZoneId) (p : ZoneId × Nat) :
    p ∈ bank.zoneOrder kernelPhyStart z ↔ p.1 = z ∧ p ∈ bank.mapOrder kernelPhyStart := by
  rw [mem_mapOrder]
  unfold zoneOrder
  rw [List.mem_append, mem_zoneRest]
  by_cases hz : z = .normal
  · subst hz
    rw [if_pos rfl]
    have hk := kernelPlace_isSection bank kernelPhyStart p
    by_cases hp : p ∈ bank.kernelPlace kernelPhyStart
    · simp only [hp, hk hp, true_or, or_true, and_self]
    · simp only [hp, false_or, not_false_eq_true, and_true, or_false]
  · rw [if_neg hz]
    have hk := kernelPlace_isSection bank kernelPhyStart p
    refine ⟨?_, ?_⟩
    · rintro (hp | ⟨hpz, hs, hpos, -⟩)
      · exact absurd hp List.not_mem_nil
      · exact ⟨hpz, hs, Or.inl hpos⟩
    · rintro ⟨hpz, hs, hp⟩
      have hnot : p ∉ bank.kernelPlace kernelPhyStart := fun hc => hz (hpz ▸ (hk hc).1)
      exact Or.inr ⟨hpz, hs, hp.resolve_right hnot, hnot⟩

/-- The first virtual address of a zone. -/
def zoneBase (bank : Mm) : ZoneId → Nat
  | .normal => bank.kernelStart
  | .dma => bank.kernelStart + bank.zoneSpan .normal
  | .res => bank.kernelStart + bank.zoneSpan .normal + bank.zoneSpan .dma
  | .io => bank.kernelStart + bank.zoneSpan .normal + bank.zoneSpan .dma + bank.zoneSpan .res

/-- The sum of the sizes of all sections. -/
def bankSpan (bank : Mm) : Nat :=
  bank.zoneSpan .normal + bank.zoneSpan .dma + bank.zoneSpan .res + bank.zoneSpan .io

theorem span_mapOrder (bank : Mm) (kernelPhyStart : Nat) :
    span bank.sizeAt (bank.mapOrder kernelPhyStart) = bank.bankSpan := by
  rw [mapOrder_eq, span_append, span_append, span_append, span_zone, span_zone, span_zone,
    span_zone]
  unfold bankSpan
  omega

theorem zoneBase_le (bank : Mm) (z : ZoneId) :
    bank.zoneBase z + bank.zoneSpan z ≤ bank.kernelStart + bank.bankSpan := by
  unfold bankSpan
  cases z with
  | normal =>
      simp only [zoneBase]
      omega
  | dma =>
      simp only [zoneBase]
      omega
  | res =>
      simp only [zoneBase]
      omega
  | io =>
      simp only [zoneBase]
      omega

/-- Each zone is laid out from its own base. -/
theorem laid_zone (bank bank' : Mm) (kernelPhyStart : Nat)
    (h : Placed bank (bank.mapOrder kernelPhyStart) bank') (z : ZoneId) :
    Laid u32Size bank.sizeAt bank'.virAt (bank.zoneBase z)
      (bank.zoneOrder kernelPhyStart z) := by
  have hlaid := h.laid
  rw [mapOrder_eq, laid_append, laid_append, laid_append, span_zone, span_zone, span_zone] at hlaid
  rcases hlaid with ⟨hnormal, hdma, hres, hio⟩
  cases z with
  | normal => exact hnormal
  | dma => exact hdma
  | res => exact hres
  | io => exact hio

/-- An address lies in the range of some section of a zone exactly when it
    lies between the base and the end of the zone. -/
theorem zone_cover (bank bank' : Mm) (kernelPhyStart : Nat)
    (h : Placed bank (bank.mapOrder kernelPhyStart) bank')
    (hfit : bank.kernelStart + bank.bankSpan ≤ u32Size) (z : ZoneId) (x : Nat) :
    (bank.zoneBase z ≤ x ∧ x < bank.zoneBase z + bank.zoneSpan z)
      ↔ ∃ j < (bank.zone z).nrSection,
          bank'.virAt (z, j) ≤ x ∧ x < bank'.virAt (z, j) + bank.sizeAt (z, j) := by
  have hle := zoneBase_le bank z
  have hcover := laid_cover u32Size bank.sizeAt bank'.virAt (bank.zoneBase z)
    (bank.zoneOrder kernelPhyStart z) x (laid_zone bank bank' kernelPhyStart h z)
    (by rw [span_zone]; omega)
  rw [span_zone] at hcover
  rw [hcover]
  refine ⟨?_, ?_⟩
  · rintro ⟨p, hp, hx⟩
    rw [mem_zoneOrder, mem_mapOrder] at hp
    rcases hp with ⟨rfl, hs, -⟩
    exact ⟨p.2, hs, hx⟩
  · rintro ⟨j, hj, hx⟩
    refine ⟨(z, j), ?_, hx⟩
    rw [mem_zoneOrder, mem_mapOrder]
    exact ⟨rfl, hj, Or.inl (by omega)⟩

theorem placed_size (bank bank' : Mm) (order : List (ZoneId × Nat)) (h : Placed bank order bank')
    (p : ZoneId × Nat) : bank'.sizeAt p = bank.sizeAt p := by
  unfold sizeAt
  by_cases hp : p ∈ order
  · rw [h.placed p hp]
    rfl
  · rw [h.kept p hp]

theorem placed_nrSection (bank bank' : Mm) (order : List (ZoneId × Nat))
    (h : Placed bank order bank') (z : ZoneId) :
    (bank'.zone z).nrSection = (bank.zone z).nrSection := by
  have hf := congrArg (fun b => (b.zone z).nrSection) h.frame
  exact hf

theorem placed_pageNum (bank bank' : Mm) (order : List (ZoneId × Nat))
    (h : Placed bank order bank') (z : ZoneId) :
    (bank'.zone z).pageNum = (bank.zone z).pageNum := by
  have hf := congrArg (fun b => (b.zone z).pageNum) h.frame
  exact hf

theorem placed_kernelStart (bank bank' : Mm) (order : List (ZoneId × Nat))
    (h : Placed bank order bank') : bank'.kernelStart = bank.kernelStart := by
  have hf := congrArg (fun b => b.kernelStart) h.frame
  exact hf

/-- Sections of whole pages are placed at whole pages, and those of whole megabytes at whole
    megabytes. -/
theorem virAt_mod (bank bank' : Mm) (kernelPhyStart : Nat)
    (h : Placed bank (bank.mapOrder kernelPhyStart) bank') (m : Nat) (hm : m ∣ u32Size)
    (hk : bank.kernelStart % m = 0) (hsize : ∀ p, bank.IsSection p → bank.sizeAt p % m = 0)
    (p : ZoneId × Nat) (hp : p ∈ bank.mapOrder kernelPhyStart) : bank'.virAt p % m = 0 := by
  rcases List.append_of_mem hp with ⟨l, r, hlr⟩
  have hspan : span bank.sizeAt l % m = 0 := by
    refine span_mod bank.sizeAt m l (fun q hq => hsize q ?_)
    refine ((mem_mapOrder bank kernelPhyStart q).1 ?_).1
    rw [hlr]
    exact List.mem_append_left _ hq
  rw [laid_at u32Size bank.sizeAt bank'.virAt bank.kernelStart l r p (hlr ▸ h.laid),
    Nat.mod_mod_of_dvd _ hm, Nat.add_mod, hk, hspan, Nat.add_zero, Nat.zero_mod]

theorem setRange_sections (zone : Zone) (i current : Nat) :
    (setRange zone i current).memorySection = zone.memorySection ∧
      (setRange zone i current).nrSection = zone.nrSection := ⟨rfl, rfl⟩

theorem bootZone_sections (bank : Mm) (kernelEnd : Nat) (z : ZoneId) :
    (bank.bootZone kernelEnd z).memorySection = (bank.zone z).memorySection ∧
      (bank.bootZone kernelEnd z).nrSection = (bank.zone z).nrSection := by
  cases z with
  | normal => exact setRange_sections _ _ _
  | dma => exact setRange_sections _ _ _
  | res => exact setRange_sections _ _ _
  | io => exact ⟨rfl, rfl⟩

/-- `init_page_table_map` does not touch the sections. -/
theorem initPageTableMap_sectionAt (bank : Mm) (kernelEnd uninit : Nat) (p : ZoneId × Nat) :
    (bank.initPageTableMap kernelEnd uninit).sectionAt p = bank.sectionAt p ∧
      ((bank.initPageTableMap kernelEnd uninit).zone p.1).nrSection
        = (bank.zone p.1).nrSection := by
  have hzone := initPageTableMap_zone bank kernelEnd uninit p.1
  rcases bootZone_sections bank kernelEnd p.1 with ⟨hsec, hnr⟩
  refine ⟨?_, ?_⟩
  · unfold sectionAt
    rw [hzone, hsec]
  · rw [hzone, hnr]

/-- The bitmap ranges after boot start where the page counts of the zones
    before put them. -/
theorem initPageTableMap_range (bank : Mm) (kernelEnd uninit : Nat) (z : ZoneId) (hz : z ≠ .io)
    (hpages : ∀ y, bank.zoneSpan y = pageSize * (bank.zone y).pageNum) :
    bank.kernelStart + pageSize * ((bank.initPageTableMap kernelEnd uninit).zone z).bmStart
        = bank.zoneBase z ∧
      bank.kernelStart + pageSize * ((bank.initPageTableMap kernelEnd uninit).zone z).bmEnd
        = bank.zoneBase z + bank.zoneSpan z := by
  rw [initPageTableMap_zone]
  have hnormal := hpages .normal
  have hdma := hpages .dma
  have hres := hpages .res
  cases z with
  | normal =>
      simp only [bootZone, setRange, zoneBase]
      unfold pageSize at *
      omega
  | dma =>
      simp only [bootZone, setRange, zoneBase]
      unfold pageSize at *
      omega
  | res =>
      simp only [bootZone, setRange, zoneBase]
      unfold pageSize at *
      omega
  | io => exact absurd rfl hz

theorem placed_zoneSpan (bank bank' : Mm) (order : List (ZoneId × Nat))
    (h : Placed bank order bank') (z : ZoneId) : bank'.zoneSpan z = bank.zoneSpan z := by
  unfold zoneSpan
  rw [placed_nrSection bank bank' order h z]
  have hsize : (fun i => bank'.sizeAt (z, i)) = fun i => bank.sizeAt (z, i) := by
    ext i
    exact placed_size bank bank' order h (z, i)
  rw [hsize]

theorem placed_zoneBase (bank bank' : Mm) (order : List (ZoneId × Nat))
    (h : Placed bank order bank') (z : ZoneId) : bank'.zoneBase z = bank.zoneBase z := by
  cases z <;>
    simp only [zoneBase, placed_kernelStart bank bank' order h, placed_zoneSpan bank bank' order h]

/-- The virtual ranges of two sections do not overlap. -/
theorem placed_disjoint (bank bank' : Mm) (kernelPhyStart : Nat)
    (h : Placed bank (bank.mapOrder kernelPhyStart) bank')
    (hfit : bank.kernelStart + bank.bankSpan ≤ u32Size) (p q : ZoneId × Nat)
    (hp : bank.IsSection p) (hq : bank.IsSection q) (hpq : p ≠ q) (x : Nat)
    (hx : bank'.virAt p ≤ x ∧ x < bank'.virAt p + bank.sizeAt p) :
    ¬ (bank'.virAt q ≤ x ∧ x < bank'.virAt q + bank.sizeAt q) := by
  intro hxq
  have hord := laid_ordered u32Size bank.sizeAt bank'.virAt bank.kernelStart
    (bank.mapOrder kernelPhyStart) h.laid (by rw [span_mapOrder]; exact hfit)
  have hmp := (mem_mapOrder bank kernelPhyStart p).2 ⟨hp, Or.inl (by omega)⟩
  have hmq := (mem_mapOrder bank kernelPhyStart q).2 ⟨hq, Or.inl (by omega)⟩
  -- One of the two comes first in the order of mapping and ends before the other.
  rcases List.append_of_mem hmp with ⟨l, r, hlr⟩
  rw [hlr] at hmq hord
  rw [List.pairwise_append, List.pairwise_cons] at hord
  rcases hord with ⟨-, ⟨hr, -⟩, hl⟩
  rcases List.mem_append.1 hmq with hq' | hq'
  · have := hl q hq' p List.mem_cons_self (by omega) (by omega)
    omega
  · rcases List.mem_cons.1 hq' with hq' | hq'
    · exact hpq hq'.symm
    · have := hr q hq' (by omega) (by omega)
      omega

/-- After `map_zone_memory` and `init_page_table_map` the sections lie end to
    end from the start of the kernel on, their virtual ranges do not overlap,
    and the pages of the managed zones in the page map are exactly the pages in
    the virtual ranges of the sections of that zone. -/
theorem layout_agrees (bank : Mm) (kernelPhyStart kernelEnd uninit : Nat)
    (hun : bank.Unmapped)
    (htotal : ∀ z, bank.zoneSpan z = (bank.zone z).totalSize ∧
      (bank.zone z).totalSize = pageSize * (bank.zone z).pageNum)
    (hk : bank.kernelStart < u32Size)
    (hfit : bank.kernelStart + bank.bankSpan ≤ u32Size) :
    let bank' := (bank.mapZoneMemory kernelPhyStart).1.initPageTableMap kernelEnd uninit
    (∃ order : List (ZoneId × Nat), order.Nodup ∧
      (∀ p, p ∈ order ↔ bank'.IsSection p ∧ 0 < bank'.sizeAt p) ∧
      ∀ l p r, order = l ++ p :: r →
        bank'.virAt p = bank'.kernelStart + span bank'.sizeAt l) ∧
    (∀ p q, bank'.IsSection p → bank'.IsSection q → p ≠ q → ∀ x,
      bank'.virAt p ≤ x ∧ x < bank'.virAt p + bank'.sizeAt p →
      ¬ (bank'.virAt q ≤ x ∧ x < bank'.virAt q + bank'.sizeAt q)) ∧
    ∀ z, z ≠ .io → ∀ i, bank'.kernelStart + pageSize * i < u32Size →
      (((bank'.zone z).bmStart ≤ i ∧ i < (bank'.zone z).bmEnd)
        ↔ ∃ j < (bank'.zone z).nrSection, bank'.virAt (z, j) ≤ bank'.pageIdToVa i ∧
            bank'.pageIdToVa i < bank'.virAt (z, j) + bank'.sizeAt (z, j)) := by
  intro bank'
  have hplaced := mapZoneMemory_placed bank kernelPhyStart hun hk
  generalize hmid : (bank.mapZoneMemory kernelPhyStart).1 = mid at hplaced
  have hb : bank' = mid.initPageTableMap kernelEnd uninit := by
    rw [← hmid]
  have hstart : bank'.kernelStart = bank.kernelStart := by
    rw [hb, (initPageTableMap_frame mid kernelEnd uninit).1]
    exact placed_kernelStart bank mid _ hplaced
  have hvir : ∀ p, bank'.virAt p = mid.virAt p := by
    intro p
    unfold virAt
    rw [hb, (initPageTableMap_sectionAt mid kernelEnd uninit p).1]
  have hsz : ∀ p, bank'.sizeAt p = bank.sizeAt p := by
    intro p
    unfold sizeAt
    rw [hb, (initPageTableMap_sectionAt mid kernelEnd uninit p).1]
    exact placed_size bank mid _ hplaced p
  have hnr : ∀ z, (bank'.zone z).nrSection = (bank.zone z).nrSection := by
    intro z
    rw [hb, (initPageTableMap_sectionAt mid kernelEnd uninit (z, 0)).2]
    exact placed_nrSection bank mid _ hplaced z
  have his : ∀ p, bank'.IsSection p ↔ bank.IsSection p := by
    intro p
    unfold IsSection
    rw [hnr]
  refine ⟨?_, ?_, ?_⟩
  · -- The order of mapping without a kernel section of size zero.
    have hzero : ∀ p ∈ bank.mapOrder kernelPhyStart, decide (0 < bank.sizeAt p) = false →
        bank.sizeAt p = 0 := by
      intro p _ hp
      rw [decide_eq_false_iff_not] at hp
      omega
    refine ⟨(bank.mapOrder kernelPhyStart).filter (fun p => 0 < bank.sizeAt p),
      (nodup_mapOrder bank kernelPhyStart).filter _, fun p => ?_, fun l p r hlr => ?_⟩
    · rw [List.mem_filter, mem_mapOrder, his, hsz, decide_eq_true_eq]
      refine ⟨fun hp => ⟨hp.1.1, hp.2⟩, fun hp => ⟨⟨hp.1, Or.inl hp.2⟩, hp.2⟩⟩
    · have hlaid := laid_filter u32Size bank.sizeAt mid.virAt bank.kernelStart
        (fun p => decide (0 < bank.sizeAt p)) _ hzero hplaced.laid
      have hspan := span_filter bank.sizeAt (fun p => decide (0 < bank.sizeAt p)) _ hzero
      have hp : p ∈ (bank.mapOrder kernelPhyStart).filter (fun p => decide (0 < bank.sizeAt p)) := by
        rw [hlr]
        exact List.mem_append_right l List.mem_cons_self
      have hpos := of_decide_eq_true (List.mem_filter.1 hp).2
      rw [span_mapOrder, hlr] at hspan
      rw [hlr] at hlaid
      have hsame : span bank'.sizeAt l = span bank.sizeAt l := by
        unfold span
        rw [List.map_congr_left (fun q _ => hsz q)]
      rw [hvir, hstart, hsame]
      refine laid_start u32Size bank.sizeAt mid.virAt bank.kernelStart l r p hlaid hpos ?_
      rw [hspan]
      exact hfit
  · intro p q hp hq hpq x
    rw [hvir, hvir, hsz, hsz]
    exact placed_disjoint bank mid kernelPhyStart hplaced hfit p q ((his p).1 hp) ((his q).1 hq)
      hpq x
  · intro z hz i hi
    rw [hstart] at hi
    have hrange := initPageTableMap_range mid kernelEnd uninit z hz (fun y => by
      rw [placed_zoneSpan bank mid _ hplaced, placed_pageNum bank mid _ hplaced, (htotal y).1,
        (htotal y).2])
    rw [placed_kernelStart bank mid _ hplaced, placed_zoneBase bank mid _ hplaced,
      placed_zoneSpan bank mid _ hplaced] at hrange
    have hva : bank'.pageIdToVa i = bank.kernelStart + pageSize * i := by
      unfold pageIdToVa add32
      rw [hstart, Nat.mul_comm i pageSize, Nat.mod_eq_of_lt hi]
    have hcover := zone_cover bank mid kernelPhyStart hplaced hfit z
      (bank.kernelStart + pageSize * i)
    rw [hva, hnr]
    simp only [hvir, hsz]
    rw [← hcover, ← hrange.2, ← hrange.1, hb]
    unfold pageSize
    omega

/-- A zone with these physical starts and sizes and nothing mapped. -/
def bareZone (secs : List (Nat × Nat)) : Zone :=
  let total := (secs.map Prod.snd).sum
  { memorySection := fun i =>
      { phyStart := (secs.getD i (0, 0)).1
        virStart := 0
        size := (secs.getD i (0, 0)).2
        pvOffset := 0
        maped := false }
    nrSection := secs.length
    zoneMutex := 0
    totalSize := total
    freeSize := total
    pageNum := total / pageSize
    freePages := total / pageSize
    bmStart := 0
    bmEnd := 0
    bmCurrent := 0 }

/-- A bank with these physical starts and sizes and nothing mapped. -/
def bareBank (normal dma res io : List (Nat × Nat)) : Mm :=
  { boardBank with
    zone := fun z => match z with
      | .normal => bareZone normal
      | .dma => bareZone dma
      | .res => bareZone res
      | .io => bareZone io }

theorem bareBank_unmapped (normal dma res io : List (Nat × Nat)) :
    (bareBank normal dma res io).Unmapped := by
  intro p _
  rcases p with ⟨z, i⟩
  cases z <;> rfl

/-- A board whose kernel was loaded into the second of two NORMAL banks. -/
def twoBanks : Mm :=
  bareBank [(0x20000000, 0x200000), (0x30000000, 0x100000)] [(0x40000000, 0x100000)] [] []

/-- The second NORMAL bank is mapped first. Page 256 is the first page of the
    first bank and page 768 the first of the DMA zone. -/
theorem layout_agrees_two :
    let bank' := (twoBanks.mapZoneMemory 0x30000000).1.initPageTableMap 0x80010000 0
    (bank'.virAt (.normal, 1) = 0x80000000 ∧ bank'.virAt (.normal, 0) = 0x80100000 ∧
      bank'.virAt (.dma, 0) = 0x80300000) ∧
    ∀ z, z ≠ .io → ∀ i, bank'.kernelStart + pageSize * i < u32Size →
      (((bank'.zone z).bmStart ≤ i ∧ i < (bank'.zone z).bmEnd)
        ↔ ∃ j < (bank'.zone z).nrSection, bank'.virAt (z, j) ≤ bank'.pageIdToVa i ∧
            bank'.pageIdToVa i < bank'.virAt (z, j) + bank'.sizeAt (z, j)) := by
  refine ⟨by decide +kernel, ?_⟩
  refine (layout_agrees twoBanks 0x30000000 0x80010000 0 (bareBank_unmapped _ _ _ _) ?_
    (by decide) (by decide)).2.2
  intro z
  cases z <;> decide

end Mm

end Mirros
