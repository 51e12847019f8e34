import Mirros.Core.Boot
import Mirros.Lib.Selection
import Mirros.Theory.Boot.Layout

/-!
# Regions Become Sections

What `handle_platform_memory_region` makes of the regions a board registered.
Each region becomes one section of its zone, in the order of the addresses.
When the board registered no DMA region, memory for a DMA zone is taken out of
the NORMAL zone, in one of two ways. Either the end of the largest section is cut
off, which loses nothing, or a section of about the right size is given away
whole. In the second case the section is emptied where it stands and the number
of sections goes down by one, so the section that disappears from the zone is
the last one. No memory is lost exactly when that is the section given away
(`zone_setup_exact`).

Memory is compared byte by byte. A block of memory is the set of 32-bit addresses
from its start on, so that a block at the end of the address space needs no
special treatment.

## Main definitions

* `ByteOf`: The bytes of a block of memory.
* `BlocksApart`: Two blocks without a common byte.
* `ZoneHolds`: A zone whose sections are the regions of a list.
* `Fitting`, `KeepsLast`: The condition on the sizes of the NORMAL regions.
* `LosesNothing`: What the set-up is expected to do.

## Theorems

* `sortRegions_perm`: Sorting permutes the regions.
* `insertRegions_holds`: Regions become sections of their zones.
* `fitSection_spec`, `maxSection_spec`: The two searches for a section.
* `wholeSection_iff`: When the section given away is the last one.
* `zone_setup_exact`: When no memory is lost.
-/

namespace Mirros

/-- The address is one of the bytes of the block. -/
def ByteOf (start size x : Nat) : Prop :=
  ∃ o < size, x = (start + o) % u32Size

/-- Two blocks, each with its start and its size, have no byte in common. -/
def BlocksApart (a b : Nat × Nat) : Prop :=
  ∀ x, ByteOf a.1 a.2 x → ¬ ByteOf b.1 b.2 x

theorem BlocksApart.symm (a b : Nat × Nat) (h : BlocksApart a b) : BlocksApart b a :=
  fun x hb ha => h x ha hb

/-- The blocks of the list cover the address. -/
def Covered (bs : List (Nat × Nat)) (x : Nat) : Prop :=
  ∃ b ∈ bs, ByteOf b.1 b.2 x

theorem covered_perm (as bs : List (Nat × Nat)) (h : as.Perm bs) (x : Nat) :
    Covered as x ↔ Covered bs x := by
  unfold Covered
  simp only [h.mem_iff]

theorem pairwise_blocksApart_perm (as bs : List (Nat × Nat)) (h : as.Perm bs) :
    as.Pairwise BlocksApart ↔ bs.Pairwise BlocksApart :=
  h.pairwise_iff (fun {a b} => BlocksApart.symm a b)

/-- Cutting the last `d` bytes off a block. -/
theorem byteOf_cut (start size d x : Nat) (hd : d ≤ size) :
    ByteOf start size x
      ↔ ByteOf start (size - d) x ∨ ByteOf ((start + (size - d)) % u32Size) d x := by
  unfold ByteOf
  refine ⟨?_, ?_⟩
  · rintro ⟨o, ho, rfl⟩
    by_cases hlow : o < size - d
    · exact Or.inl ⟨o, hlow, rfl⟩
    · refine Or.inr ⟨o - (size - d), by omega, ?_⟩
      rw [Nat.mod_add_mod]
      congr 1
      omega
  · rintro (⟨o, ho, rfl⟩ | ⟨o, ho, rfl⟩)
    · exact ⟨o, by omega, rfl⟩
    · refine ⟨size - d + o, by omega, ?_⟩
      rw [Nat.mod_add_mod]
      congr 1
      omega

/-- The two parts of a block that was cut have no byte in common. -/
theorem apart_cut (start size d : Nat) (hd : d ≤ size) (hs : size ≤ u32Size) :
    BlocksApart (start, size - d) ((start + (size - d)) % u32Size, d) := by
  rintro x ⟨o, ho, rfl⟩ ⟨o', ho', heq⟩
  rw [Nat.mod_add_mod] at heq
  unfold u32Size at *
  simp only at ho ho' heq
  omega

/-- Cutting one block of a list in two. -/
theorem cut_blocks (l r : List (Nat × Nat)) (start size d : Nat) (hd : d ≤ size)
    (hs : size ≤ u32Size) :
    ((l ++ (start, size) :: r).Pairwise BlocksApart →
      (l ++ (start, size - d) :: r ++ [((start + (size - d)) % u32Size, d)]).Pairwise BlocksApart) ∧
    ∀ x, Covered (l ++ (start, size - d) :: r ++ [((start + (size - d)) % u32Size, d)]) x
      ↔ Covered (l ++ (start, size) :: r) x := by
  have hold : (l ++ (start, size) :: r).Perm ((start, size) :: (l ++ r)) := List.perm_middle
  have hnew : (l ++ (start, size - d) :: r ++ [((start + (size - d)) % u32Size, d)]).Perm
      (((start + (size - d)) % u32Size, d) :: (start, size - d) :: (l ++ r)) := by
    refine (List.perm_append_comm).trans ?_
    rw [List.singleton_append]
    exact List.Perm.cons _ List.perm_middle
  refine ⟨fun h => ?_, fun x => ?_⟩
  · rw [pairwise_blocksApart_perm _ _ hnew]
    rw [pairwise_blocksApart_perm _ _ hold, List.pairwise_cons] at h
    have hbyte := fun x => byteOf_cut start size d x hd
    refine List.Pairwise.cons ?_ (List.Pairwise.cons ?_ h.2)
    · intro b hb
      rcases List.mem_cons.1 hb with rfl | hb
      · exact BlocksApart.symm _ _ (apart_cut start size d hd hs)
      · exact fun x hx => h.1 b hb x ((hbyte x).2 (Or.inr hx))
    · exact fun b hb x hx => h.1 b hb x ((hbyte x).2 (Or.inl hx))
  · rw [covered_perm _ _ hnew, covered_perm _ _ hold]
    unfold Covered
    simp only [List.mem_cons, exists_eq_or_imp]
    rw [byteOf_cut start size d x hd]
    tauto

/-- A region as a block of memory. -/
def MemoryRegion.block (r : MemoryRegion) : Nat × Nat :=
  (r.start, r.size)

/-- The regions of a board as a list. -/
def PlatformInfo.regions (info : PlatformInfo) : List MemoryRegion :=
  (List.range info.regionNr).map info.region

/-- The sort of the set-up is a selection sort by the start. -/
theorem sortRegions_eq (info : PlatformInfo) :
    (sortRegions info).region = selectionSort MemoryRegion.start info.region info.regionNr :=
  rfl

/-- Sorting permutes the regions. -/
theorem sortRegions_perm (info : PlatformInfo) :
    (sortRegions info).regions.Perm info.regions :=
  selectionSort_perm MemoryRegion.start info.region info.regionNr

/-- The sections of a zone as blocks of memory. -/
def Zone.blocks (zone : Zone) : List (Nat × Nat) :=
  (List.range zone.nrSection).map
    (fun i => ((zone.memorySection i).phyStart, (zone.memorySection i).size))

/-- The sections of the zone are these blocks, and its size is theirs. -/
structure ZoneHolds (zone : Zone) (bs : List (Nat × Nat)) : Prop where
  blocks : zone.blocks = bs
  total : zone.totalSize = (bs.map Prod.snd).sum % u32Size
  rest : ∀ i, bs.length ≤ i → i < zoneMaxRegion → (zone.memorySection i).size = 0

theorem ZoneHolds.length (zone : Zone) (bs : List (Nat × Nat)) (h : ZoneHolds zone bs) :
    zone.nrSection = bs.length := by
  rw [← h.blocks]
  unfold Zone.blocks
  rw [List.length_map, List.length_range]

/-- Inserting a region appends its block. -/
theorem insertRegionToZone_holds (zone : Zone) (bs : List (Nat × Nat)) (r : MemoryRegion)
    (h : ZoneHolds zone bs) (hlen : bs.length < zoneMaxRegion) :
    ZoneHolds (insertRegionToZone r zone).2 (bs ++ [r.block]) := by
  have hnr := h.length zone bs
  have hroom : zone.nrSection ≠ zoneMaxRegion := by omega
  unfold insertRegionToZone
  rw [if_neg hroom]
  refine ⟨?_, ?_, ?_⟩
  · rw [← h.blocks]
    unfold Zone.blocks Zone.setSection MemoryRegion.block
    simp only [List.range_succ, List.map_append, List.map_cons, List.map_nil,
      Function.update_self]
    congr 1
    refine List.map_congr_left (fun i hi => ?_)
    rw [List.mem_range] at hi
    rw [Function.update_of_ne (by omega)]
  · simp only [h.total, List.map_append, List.map_cons, List.map_nil, List.sum_append,
      List.sum_cons, List.sum_nil, Nat.add_zero, MemoryRegion.block]
    unfold add32
    rw [Nat.mod_add_mod]
  · intro i hi hmax
    rw [List.length_append, List.length_singleton] at hi
    simp only [Zone.setSection]
    rw [Function.update_of_ne (by omega)]
    exact h.rest i (by omega) hmax

/-- A zone that is full drops what comes after. -/
theorem insertRegionToZone_take (zone : Zone) (bs : List (Nat × Nat)) (r : MemoryRegion)
    (h : ZoneHolds zone (bs.take zoneMaxRegion)) :
    ZoneHolds (insertRegionToZone r zone).2 ((bs ++ [r.block]).take zoneMaxRegion) := by
  by_cases hlen : bs.length < zoneMaxRegion
  · rw [List.take_of_length_le (Nat.le_of_lt hlen)] at h
    rw [List.take_of_length_le (by rw [List.length_append, List.length_singleton]; omega)]
    exact insertRegionToZone_holds zone bs r h hlen
  · have hfull : zone.nrSection = zoneMaxRegion := by
      rw [h.length, List.length_take]
      omega
    unfold insertRegionToZone
    rw [if_pos hfull, List.take_append_of_le_length (by omega)]
    exact h

/-- The number of a zone. -/
def zoneNumber : ZoneId → Nat
  | .normal => 0
  | .dma => 1
  | .res => 2
  | .io => 3

theorem zoneOfId_iff (n : Nat) (z : ZoneId) : zoneOfId n = some z ↔ n = zoneNumber z := by
  match n with
  | 0 => cases z <;> decide
  | 1 => cases z <;> decide
  | 2 => cases z <;> decide
  | 3 => cases z <;> decide
  | n + 4 =>
      unfold zoneOfId
      cases z <;> simp only [reduceCtorEq, zoneNumber, false_iff] <;> omega

/-- The blocks of the regions registered for a zone. -/
def zoneBlocks (rs : List MemoryRegion) (z : ZoneId) : List (Nat × Nat) :=
  (rs.filter (fun r => r.attr = zoneNumber z)).map MemoryRegion.block

/-- The zone of a region gains its block. -/
theorem zoneBlocks_concat_self (done : List MemoryRegion) (r : MemoryRegion) (z : ZoneId)
    (hz : r.attr = zoneNumber z) : zoneBlocks (done ++ [r]) z = zoneBlocks done z ++ [r.block] := by
  unfold zoneBlocks
  simp only [List.filter_append, List.map_append, List.filter_cons, hz, decide_true, if_true,
    List.filter_nil, List.map_cons, List.map_nil]

/-- The other zones gain nothing. -/
theorem zoneBlocks_concat_other (done : List MemoryRegion) (r : MemoryRegion) (y z : ZoneId)
    (hy : r.attr = zoneNumber y) (hz : z ≠ y) :
    zoneBlocks (done ++ [r]) z = zoneBlocks done z := by
  have hne : r.attr ≠ zoneNumber z := by
    rw [hy]
    intro hc
    revert hz hc
    cases y <;> cases z <;> decide
  unfold zoneBlocks
  simp only [List.filter_append, List.filter_cons, hne, decide_false,
    Bool.false_eq_true, if_false, List.filter_nil, List.append_nil]

namespace Mm

/-- What a region does to the zones. -/
theorem insertRegion_zone (bank : Mm) (r : MemoryRegion) (y : ZoneId)
    (hy : r.attr = zoneNumber y) :
    ∃ bank₁, insertRegion bank r = some bank₁ ∧
      bank₁.zone = Function.update bank.zone y (insertRegionToZone r (bank.zone y)).2 := by
  unfold insertRegion
  rw [(zoneOfId_iff r.attr y).2 hy]
  by_cases hio : r.attr ≠ ioMem ∧ r.attr ≠ unknowMem
  · simp only [if_pos hio]
    exact ⟨_, rfl, rfl⟩
  · simp only [if_neg hio]
    exact ⟨_, rfl, rfl⟩

/-- Regions become sections of their zones, the first four of each. -/
theorem insertRegions_take (bank : Mm) (rs done : List MemoryRegion)
    (h : ∀ z, ZoneHolds (bank.zone z) ((zoneBlocks done z).take zoneMaxRegion))
    (hattr : ∀ r ∈ rs, ∃ z, r.attr = zoneNumber z) :
    ∃ bank', rs.foldlM insertRegion bank = some bank' ∧
      ∀ z, ZoneHolds (bank'.zone z) ((zoneBlocks (done ++ rs) z).take zoneMaxRegion) := by
  induction rs generalizing bank done with
  | nil =>
      refine ⟨bank, rfl, fun z => ?_⟩
      rw [List.append_nil]
      exact h z
  | cons r rs ih =>
      rcases hattr r List.mem_cons_self with ⟨y, hy⟩
      have hassoc : done ++ r :: rs = (done ++ [r]) ++ rs := by
        rw [List.append_assoc, List.singleton_append]
      rcases insertRegion_zone bank r y hy with ⟨bank₁, hins, hzones⟩
      have hnext : ∀ z,
          ZoneHolds (bank₁.zone z) ((zoneBlocks (done ++ [r]) z).take zoneMaxRegion) := by
        intro z
        rw [hzones]
        by_cases hz : z = y
        · rw [hz, Function.update_self, zoneBlocks_concat_self done r y hy]
          exact insertRegionToZone_take _ _ r (h y)
        · rw [Function.update_of_ne hz, zoneBlocks_concat_other done r y z hy hz]
          exact h z
      rcases ih bank₁ (done ++ [r]) hnext (fun q hq => hattr q (List.mem_cons_of_mem r hq)) with
        ⟨bank', hrun, hholds⟩
      refine ⟨bank', ?_, ?_⟩
      · rw [List.foldlM_cons, hins]
        exact hrun
      · rw [hassoc]
        exact hholds

/-- All of them do as long as no zone overflows. -/
theorem insertRegions_holds (bank : Mm) (rs done : List MemoryRegion)
    (h : ∀ z, ZoneHolds (bank.zone z) (zoneBlocks done z))
    (hattr : ∀ r ∈ rs, ∃ z, r.attr = zoneNumber z)
    (hmax : ∀ z, (zoneBlocks (done ++ rs) z).length ≤ zoneMaxRegion) :
    ∃ bank', rs.foldlM insertRegion bank = some bank' ∧
      ∀ z, ZoneHolds (bank'.zone z) (zoneBlocks (done ++ rs) z) := by
  have hdone : ∀ z, (zoneBlocks done z).length ≤ zoneMaxRegion := by
    intro z
    have hlen := hmax z
    unfold zoneBlocks at hlen ⊢
    rw [List.filter_append, List.map_append, List.length_append] at hlen
    omega
  rcases insertRegions_take bank rs done
    (fun z => by rw [List.take_of_length_le (hdone z)]; exact h z) hattr with
    ⟨bank', hrun, hholds⟩
  refine ⟨bank', hrun, fun z => ?_⟩
  have hz := hholds z
  rw [List.take_of_length_le (hmax z)] at hz
  exact hz

end Mm

/-- The search for the largest section finds it. -/
theorem maxSection_spec (zone : Zone) :
    (∀ i < zone.nrSection,
      (zone.memorySection i).size ≤ (zone.memorySection (maxSection zone)).size) ∧
      (maxSection zone < zone.nrSection ∨ zone.nrSection = 0 ∧ maxSection zone = 0) := by
  have hfold : ∀ n, (∀ i < n, (zone.memorySection i).size ≤ (zone.memorySection
      ((List.range n).foldl (fun pr i => if (zone.memorySection pr).size
        < (zone.memorySection i).size then i else pr) 0)).size) ∧
      ((List.range n).foldl (fun pr i => if (zone.memorySection pr).size
        < (zone.memorySection i).size then i else pr) 0 < n ∨ n = 0 ∧
        (List.range n).foldl (fun pr i => if (zone.memorySection pr).size
          < (zone.memorySection i).size then i else pr) 0 = 0) := by
    intro n
    induction n with
    | zero => exact ⟨fun i hi => absurd hi (Nat.not_lt_zero i), Or.inr ⟨rfl, rfl⟩⟩
    | succ n ih =>
        rw [List.range_succ, List.foldl_append, List.foldl_cons, List.foldl_nil]
        generalize (List.range n).foldl (fun pr i => if (zone.memorySection pr).size
          < (zone.memorySection i).size then i else pr) 0 = pr at ih ⊢
        rcases ih with ⟨hmax, hpr⟩
        by_cases hlt : (zone.memorySection pr).size < (zone.memorySection n).size
        · rw [if_pos hlt]
          refine ⟨fun i hi => ?_, Or.inl (by omega)⟩
          by_cases hin : i = n
          · rw [hin]
          · have := hmax i (by omega)
            omega
        · rw [if_neg hlt]
          refine ⟨fun i hi => ?_, Or.inl (by omega)⟩
          by_cases hin : i = n
          · rw [hin]
            omega
          · exact hmax i (by omega)
  exact hfold zone.nrSection

/-- The section is large enough for DMA and smaller than section `pr`. -/
def InClass (zone : Zone) (pr d i : Nat) : Prop :=
  (zone.memorySection i).size < (zone.memorySection pr).size ∧ d ≤ (zone.memorySection i).size

/-- The search for a fitting section finds the first of the smallest ones, or
    returns `pr` when there is none. -/
theorem fitSection_spec (zone : Zone) (pr d : Nat) :
    (fitSection zone pr d = pr ∧ ∀ i < zone.nrSection, ¬ InClass zone pr d i) ∨
      (fitSection zone pr d < zone.nrSection ∧ InClass zone pr d (fitSection zone pr d) ∧
        ∀ i < zone.nrSection, InClass zone pr d i →
          (zone.memorySection (fitSection zone pr d)).size ≤ (zone.memorySection i).size ∧
          (i < fitSection zone pr d → (zone.memorySection (fitSection zone pr d)).size
            < (zone.memorySection i).size)) := by
  unfold fitSection InClass
  generalize zone.nrSection = n
  induction n with
  | zero => exact Or.inl ⟨rfl, fun i hi => absurd hi (Nat.not_lt_zero i)⟩
  | succ n ih =>
      rw [List.range_succ, List.foldl_append, List.foldl_cons, List.foldl_nil]
      generalize (List.range n).foldl (fun tmp i =>
        if (zone.memorySection i).size < (zone.memorySection pr).size ∧
            d ≤ (zone.memorySection i).size ∧
            (zone.memorySection i).size < (zone.memorySection tmp).size then i
        else tmp) pr = tmp at ih ⊢
      by_cases hc : (zone.memorySection n).size < (zone.memorySection pr).size ∧
          d ≤ (zone.memorySection n).size ∧
          (zone.memorySection n).size < (zone.memorySection tmp).size
      · rw [if_pos hc]
        refine Or.inr ⟨by omega, ⟨hc.1, hc.2.1⟩, fun i hi hcl => ?_⟩
        rcases ih with ⟨-, hnone⟩ | ⟨-, -, hmin⟩
        · by_cases hin : i = n
          · subst hin
            omega
          · exact absurd hcl (hnone i (by omega))
        · by_cases hin : i = n
          · subst hin
            omega
          · have := (hmin i (by omega) hcl).1
            omega
      · rw [if_neg hc]
        rcases ih with ⟨htmp, hnone⟩ | ⟨hlt, hcl, hmin⟩
        · refine Or.inl ⟨htmp, fun i hi hcl => ?_⟩
          by_cases hin : i = n
          · subst hin htmp
            exact hc ⟨hcl.1, hcl.2, hcl.1⟩
          · exact hnone i (by omega) hcl
        · refine Or.inr ⟨by omega, hcl, fun i hi hcli => ?_⟩
          by_cases hin : i = n
          · subst hin
            refine ⟨?_, fun hc' => by omega⟩
            by_contra hgt
            exact hc ⟨hcli.1, hcli.2, by omega⟩
          · exact hmin i (by omega) hcli

/-- A section that is given away is one of the zone. -/
theorem fitSection_lt (zone : Zone) (h : wholeSection zone = true) :
    fitSection zone (maxSection zone) (dmaSize zone) < zone.nrSection := by
  rcases fitSection_spec zone (maxSection zone) (dmaSize zone) with ⟨hpr, -⟩ | ⟨hlt, -⟩
  · unfold wholeSection at h
    simp only [hpr, Bool.and_eq_true, decide_eq_true_eq, ne_eq, not_true_eq_false, and_false,
      false_and] at h
  · exact hlt

/-- The size wanted for the DMA zone when the NORMAL regions have these sizes. -/
def dmaTarget (sizes : List Nat) : Nat :=
  baligin (sizes.sum % u32Size / 16) 0x100000

/-- A section of this size is given away whole: it is not the largest, it is not
    too small, and it exceeds the wanted size by no more than a thirty-second of
    all NORMAL memory. -/
def Fitting (sizes : List Nat) (s : Nat) : Prop :=
  dmaTarget sizes ≤ s ∧ (∃ t ∈ sizes, s < t) ∧
    s - dmaTarget sizes ≤ sizes.sum % u32Size / 32

/-- Among the sizes of the NORMAL regions, in the order of their addresses, no
    fitting one comes before the last, unless the last fits and is smaller. -/
def KeepsLast (sizes : List Nat) : Prop :=
  ∀ i, i + 1 < sizes.length → Fitting sizes (sizes.getD i 0) →
    Fitting sizes (sizes.getD (sizes.length - 1) 0) ∧
      sizes.getD (sizes.length - 1) 0 < sizes.getD i 0

section Holding

variable (zone : Zone) (bs : List (Nat × Nat)) (h : ZoneHolds zone bs)

include h

theorem ZoneHolds.getElem (i : Nat) (hi : i < bs.length) :
    bs[i] = ((zone.memorySection i).phyStart, (zone.memorySection i).size) := by
  have hb := h.blocks
  unfold Zone.blocks at hb
  simp only [← hb, List.getElem_map, List.getElem_range]

theorem ZoneHolds.size (i : Nat) (hi : i < bs.length) :
    (bs.map Prod.snd).getD i 0 = (zone.memorySection i).size := by
  rw [List.getD_eq_getElem?_getD, List.getElem?_map, List.getElem?_eq_getElem hi,
    h.getElem zone bs i hi]
  rfl

theorem ZoneHolds.dmaSize_eq : dmaSize zone = dmaTarget (bs.map Prod.snd) := by
  unfold dmaSize dmaTarget
  rw [h.total]

theorem fitting_iff (i : Nat) (hi : i < bs.length) :
    Fitting (bs.map Prod.snd) ((bs.map Prod.snd).getD i 0)
      ↔ InClass zone (maxSection zone) (dmaSize zone) i ∧
        (zone.memorySection i).size - dmaSize zone ≤ zone.totalSize / 32 := by
  have hlen := h.length zone bs
  rcases maxSection_spec zone with ⟨hmax, hpr⟩
  have hlarger : (∃ t ∈ bs.map Prod.snd, (zone.memorySection i).size < t)
      ↔ (zone.memorySection i).size < (zone.memorySection (maxSection zone)).size := by
    refine ⟨?_, fun hlt => ⟨_, ?_, hlt⟩⟩
    · rintro ⟨t, ht, hlt⟩
      rcases List.mem_map.1 ht with ⟨b, hb, rfl⟩
      rcases List.getElem_of_mem hb with ⟨j, hj, rfl⟩
      rw [h.getElem zone bs j hj] at hlt
      have := hmax j (by omega)
      simp only at hlt
      omega
    · have hlt' : maxSection zone < bs.length := by omega
      refine List.mem_map.2 ⟨_, List.getElem_mem hlt', ?_⟩
      rw [h.getElem zone bs _ hlt']
  unfold Fitting InClass
  rw [h.size zone bs i hi, hlarger, ← h.dmaSize_eq zone bs, ← h.total]
  tauto

/-- The section given away is the last one exactly when the sizes say so. -/
theorem wholeSection_iff (hsize : ∀ b ∈ bs, b.2 < u32Size) :
    KeepsLast (bs.map Prod.snd)
      ↔ (wholeSection zone = true →
          fitSection zone (maxSection zone) (dmaSize zone) + 1 = zone.nrSection) := by
  have hlen := h.length zone bs
  have hlt : ∀ i < bs.length, (zone.memorySection i).size < u32Size := by
    intro i hi
    have := hsize _ (List.getElem_mem hi)
    rw [h.getElem zone bs i hi] at this
    exact this
  have hfit := fitting_iff zone bs h
  have hsz := h.size zone bs
  have hspec := fitSection_spec zone (maxSection zone) (dmaSize zone)
  have hwhole : wholeSection zone = true ↔ 1 < zone.nrSection ∧
      (zone.memorySection (fitSection zone (maxSection zone) (dmaSize zone))).size
        ≠ (zone.memorySection (maxSection zone)).size ∧
      sub32 (zone.memorySection (fitSection zone (maxSection zone) (dmaSize zone))).size
        (dmaSize zone) ≤ zone.totalSize / 32 := by
    unfold wholeSection
    simp only [Bool.and_eq_true, decide_eq_true_eq, and_assoc, ne_eq]
  generalize ht : fitSection zone (maxSection zone) (dmaSize zone) = t at *
  have hsub : t < bs.length → dmaSize zone ≤ (zone.memorySection t).size →
      sub32 (zone.memorySection t).size (dmaSize zone)
        = (zone.memorySection t).size - dmaSize zone := by
    intro htl hle
    have := hlt t htl
    unfold sub32 u32Size at *
    omega
  rw [hwhole]
  unfold KeepsLast
  rw [List.length_map]
  refine ⟨fun hkeep hw => ?_, fun hlast i hi hfi => ?_⟩
  · -- The chosen section fits, so if it is not the last one, the last is smaller.
    rcases hspec with ⟨htp, -⟩ | ⟨htn, hcl, hmin⟩
    · exact absurd (by rw [htp]) hw.2.1
    · by_contra hne
      have htl : t < bs.length := by omega
      have hft := (hfit t htl).2 ⟨hcl, by rw [← hsub htl hcl.2]; exact hw.2.2⟩
      rcases hkeep t (by omega) hft with ⟨hfl, hsmall⟩
      rw [hsz t htl, hsz _ (by omega)] at hsmall
      have := (hmin (bs.length - 1) (by omega) ((hfit _ (by omega)).1 hfl).1).1
      omega
  · rcases (hfit i (by omega)).1 hfi with ⟨hcli, hle⟩
    rcases hspec with ⟨-, hnone⟩ | ⟨htn, hcl, hmin⟩
    · exact absurd hcli (hnone i (by omega))
    · rcases hmin i (by omega) hcli with ⟨htle, hfirst⟩
      have htl : t < bs.length := by omega
      have heq := hlast ⟨by omega, by have := hcl.1; omega, by
        rw [hsub htl hcl.2]
        omega⟩
      have hidx : bs.length - 1 = t := by omega
      rw [hidx, hsz t htl, hsz i (by omega)]
      refine ⟨?_, hfirst (by omega)⟩
      rw [← hsz t htl]
      exact (hfit t htl).2 ⟨hcl, by omega⟩

end Holding

/-- No memory was lost: the sections of the NORMAL and DMA zones are apart, cover
    exactly the registered NORMAL regions, and add up to the sizes of the zones,
    in the arithmetic of the counters. -/
structure LosesNothing (bank : Mm) (rs : List MemoryRegion) : Prop where
  apart : ((bank.zone .normal).blocks ++ (bank.zone .dma).blocks).Pairwise BlocksApart
  cover : ∀ x, Covered ((bank.zone .normal).blocks ++ (bank.zone .dma).blocks) x
    ↔ ∃ r ∈ rs, r.attr = zoneNumber .normal ∧ ByteOf r.start r.size x
  total : ∀ z, z = .normal ∨ z = .dma →
    ((bank.zone z).blocks.map Prod.snd).sum % u32Size = (bank.zone z).totalSize

theorem covered_zoneBlocks (rs : List MemoryRegion) (z : ZoneId) (x : Nat) :
    Covered (zoneBlocks rs z) x
      ↔ ∃ r ∈ rs, r.attr = zoneNumber z ∧ ByteOf r.start r.size x := by
  unfold Covered zoneBlocks
  refine ⟨?_, ?_⟩
  · rintro ⟨b, hb, hx⟩
    rcases List.mem_map.1 hb with ⟨r, hr, rfl⟩
    rcases List.mem_filter.1 hr with ⟨hr, hattr⟩
    exact ⟨r, hr, of_decide_eq_true hattr, hx⟩
  · rintro ⟨r, hr, hattr, hx⟩
    exact ⟨r.block, List.mem_map.2 ⟨r, List.mem_filter.2 ⟨hr, decide_eq_true hattr⟩, rfl⟩, hx⟩

/-- The NORMAL and the DMA zone after `autoDma`. -/
theorem autoDma_zones (bank : Mm) (hd : ZoneHolds (bank.zone .dma) [])
    (hr : (takeDma (bank.zone .normal)).1.size < u32Size) :
    (bank.autoDma.zone .normal).blocks = (takeDma (bank.zone .normal)).2.blocks ∧
      (bank.autoDma.zone .dma).blocks = [(takeDma (bank.zone .normal)).1.block] ∧
      (bank.autoDma.zone .normal).totalSize
        = sub32 (takeDma (bank.zone .normal)).2.totalSize (takeDma (bank.zone .normal)).1.size ∧
      (bank.autoDma.zone .dma).totalSize = (takeDma (bank.zone .normal)).1.size := by
  have hnr : (bank.zone .dma).nrSection = 0 := hd.length _ _
  have hne : ZoneId.dma ≠ ZoneId.normal := by decide
  have hins := insertRegionToZone_holds (bank.zone .dma) [] (takeDma (bank.zone .normal)).1 hd
    (by decide)
  have hmod : (takeDma (bank.zone .normal)).1.size % u32Size
      = (takeDma (bank.zone .normal)).1.size := Nat.mod_eq_of_lt hr
  unfold Mm.autoDma
  simp only [if_pos hnr, Mm.setZone, Function.update_of_ne hne, Function.update_self,
    Function.update_of_ne hne.symm]
  refine ⟨rfl, hins.blocks, trivial, ?_⟩
  rw [hins.total]
  simpa [MemoryRegion.block] using hmod

/-- What the set-up relies on about the sizes of the blocks of a zone. -/
structure WholeSizes (bs : List (Nat × Nat)) : Prop where
  mod : ∀ b ∈ bs, b.2 % 0x100000 = 0
  pos : ∀ b ∈ bs, 0 < b.2
  lt : ∀ b ∈ bs, b.2 < u32Size
  le : bs.length ≤ zoneMaxRegion

/-- Blocks no larger than `m` add up to at most `m` each. -/
theorem sum_le_of_le (bs : List (Nat × Nat)) (m : Nat) (h : ∀ b ∈ bs, b.2 ≤ m) :
    (bs.map Prod.snd).sum ≤ bs.length * m := by
  induction bs with
  | nil => simp only [List.map_nil, List.sum_nil, List.length_nil, Nat.zero_mul, le_refl]
  | cons b bs ih =>
      have hb := h b List.mem_cons_self
      have ih := ih (fun c hc => h c (List.mem_cons_of_mem b hc))
      rw [List.map_cons, List.sum_cons, List.length_cons, Nat.succ_mul]
      omega

/-- The DMA size is a sixteenth of the zone in whole megabytes. -/
theorem dmaSize_eq (zone : Zone) (h : zone.totalSize < u32Size) :
    dmaSize zone = (zone.totalSize / 16 + (2 ^ 20 - 1)) / 2 ^ 20 * 2 ^ 20 := by
  refine Mm.baligin_eq (zone.totalSize / 16) 20 (by omega) ?_
  unfold u32Size at h
  omega

/-- The largest of at most four sections is large enough for DMA. -/
theorem dmaSize_le (zone : Zone) (bs : List (Nat × Nat)) (h : ZoneHolds zone bs)
    (hw : WholeSizes bs) :
    dmaSize zone ≤ (zone.memorySection (maxSection zone)).size ∧ dmaSize zone < u32Size := by
  rcases maxSection_spec zone with ⟨hmax, hpr⟩
  have hlen := h.length zone bs
  have htotal : zone.totalSize < u32Size := by
    rw [h.total]
    exact Nat.mod_lt _ (by unfold u32Size; omega)
  have hd := dmaSize_eq zone htotal
  have hsum : zone.totalSize ≤ 4 * (zone.memorySection (maxSection zone)).size := by
    have hle := sum_le_of_le bs (zone.memorySection (maxSection zone)).size (fun b hb => by
      rcases List.getElem_of_mem hb with ⟨i, hi, rfl⟩
      rw [h.getElem zone bs i hi]
      exact hmax i (by omega))
    have hmul : bs.length * (zone.memorySection (maxSection zone)).size
        ≤ 4 * (zone.memorySection (maxSection zone)).size := Nat.mul_le_mul_right _ hw.le
    rw [h.total]
    exact (Nat.mod_le _ _).trans (hle.trans hmul)
  have hmod : (zone.memorySection (maxSection zone)).size % 2 ^ 20 = 0 := by
    rcases hpr with hpr | ⟨hz, hpr⟩
    · have hb := hw.mod _ (List.getElem_mem (show maxSection zone < bs.length by omega))
      rw [h.getElem zone bs _ (by omega)] at hb
      exact hb
    · rw [hpr, h.rest 0 (by omega) (by decide), Nat.zero_mod]
  rw [hd]
  unfold u32Size at *
  omega

theorem Zone.blocks_setSection (zone : Zone) (i : Nat) (t : MmSection) :
    (zone.setSection i t).blocks = zone.blocks.set i (t.phyStart, t.size) := by
  unfold Zone.blocks Zone.setSection
  refine List.ext_getElem ?_ (fun j hj hj' => ?_)
  · simp only [List.length_map, List.length_range, List.length_set]
  · simp only [List.getElem_map, List.getElem_range, List.getElem_set]
    by_cases hij : i = j
    · rw [if_pos hij, hij, Function.update_self]
    · rw [if_neg hij, Function.update_of_ne (fun hc => hij hc.symm)]

/-- Cutting the end off the largest section loses nothing. -/
theorem cutSection_keeps (zone : Zone) (bs : List (Nat × Nat)) (h : ZoneHolds zone bs)
    (hw : WholeSizes bs) (hap : bs.Pairwise BlocksApart) :
    let taken := cutSection zone (maxSection zone) (dmaSize zone)
    (taken.2.blocks ++ [taken.1.block]).Pairwise BlocksApart ∧
      (∀ x, Covered (taken.2.blocks ++ [taken.1.block]) x ↔ Covered bs x) ∧
      (taken.2.blocks.map Prod.snd).sum + taken.1.size = (bs.map Prod.snd).sum := by
  intro taken
  have hlen := h.length zone bs
  rcases dmaSize_le zone bs h hw with ⟨hd, hd32⟩
  rcases maxSection_spec zone with ⟨-, hpr⟩
  have hblocks : taken.2.blocks = bs.set (maxSection zone)
      ((zone.memorySection (maxSection zone)).phyStart,
        sub32 (zone.memorySection (maxSection zone)).size (dmaSize zone)) := by
    change (zone.setSection _ _).blocks = _
    rw [Zone.blocks_setSection, h.blocks]
  have htaken : taken.1.block = (sub32 (add32 (zone.memorySection (maxSection zone)).phyStart
      (zone.memorySection (maxSection zone)).size) (dmaSize zone), dmaSize zone) := rfl
  have hsize : taken.1.size = dmaSize zone := rfl
  rcases hpr with hpr | ⟨hz, hpr⟩
  · -- Split the list of blocks at the largest section.
    have hlt : maxSection zone < bs.length := by omega
    have hget := h.getElem zone bs _ hlt
    have hs32 := hw.lt _ (List.getElem_mem hlt)
    rw [hget] at hs32
    simp only at hs32
    have hsub : sub32 (zone.memorySection (maxSection zone)).size (dmaSize zone)
        = (zone.memorySection (maxSection zone)).size - dmaSize zone := by
      unfold sub32 u32Size at *
      omega
    have hstart : sub32 (add32 (zone.memorySection (maxSection zone)).phyStart
        (zone.memorySection (maxSection zone)).size) (dmaSize zone)
          = ((zone.memorySection (maxSection zone)).phyStart
            + ((zone.memorySection (maxSection zone)).size - dmaSize zone)) % u32Size := by
      unfold sub32 add32 u32Size at *
      omega
    have hsplit : bs = bs.take (maxSection zone) ++
        ((zone.memorySection (maxSection zone)).phyStart,
          (zone.memorySection (maxSection zone)).size) :: bs.drop (maxSection zone + 1) := by
      rw [← hget, ← List.drop_eq_getElem_cons hlt, List.take_append_drop]
    have hset : taken.2.blocks = bs.take (maxSection zone) ++
        ((zone.memorySection (maxSection zone)).phyStart,
          (zone.memorySection (maxSection zone)).size - dmaSize zone)
          :: bs.drop (maxSection zone + 1) := by
      rw [hblocks, List.set_eq_take_append_cons_drop, if_pos hlt, hsub]
    rcases cut_blocks (bs.take (maxSection zone)) (bs.drop (maxSection zone + 1))
      (zone.memorySection (maxSection zone)).phyStart (zone.memorySection (maxSection zone)).size
      (dmaSize zone) hd (by omega) with ⟨hpair, hcover⟩
    rw [← hsplit] at hpair hcover
    rw [htaken, hstart, hsize, hset]
    refine ⟨hpair hap, hcover, ?_⟩
    have hsum := congrArg (fun l => (l.map Prod.snd).sum) hsplit
    simp only [List.map_append, List.map_cons, List.sum_append, List.sum_cons] at hsum ⊢
    omega
  · -- Without NORMAL memory the DMA section is empty.
    have hnil : bs = [] := List.length_eq_zero_iff.1 (by omega)
    have hzero : dmaSize zone = 0 := by
      rw [hpr, h.rest 0 (by omega) (by decide)] at hd
      omega
    rw [hblocks, htaken, hsize, hzero, hnil]
    refine ⟨List.pairwise_singleton _ _, fun x => ?_, rfl⟩
    unfold Covered ByteOf
    simp only [List.set_nil, List.nil_append, List.mem_singleton, exists_eq_left, Nat.not_lt_zero,
      false_and, exists_false, List.not_mem_nil]

/-- Giving away the last section loses nothing: the blocks are the same. -/
theorem giveSection_last (zone : Zone) (bs : List (Nat × Nat)) (h : ZoneHolds zone bs) (j : Nat)
    (hj : j + 1 = zone.nrSection) :
    (giveSection zone j).2.blocks ++ [(giveSection zone j).1.block] = bs := by
  rw [← h.blocks]
  unfold giveSection Zone.blocks Zone.setSection MemoryRegion.block
  have hpred : zone.nrSection - 1 = j := by omega
  simp only [hpred]
  rw [← hj, List.range_succ, List.map_append, List.map_singleton]
  congr 1
  refine List.map_congr_left (fun i hi => ?_)
  rw [List.mem_range] at hi
  rw [Function.update_of_ne (by omega)]

/-- Giving away another section loses the last one. -/
theorem giveSection_loses (zone : Zone) (bs : List (Nat × Nat)) (h : ZoneHolds zone bs)
    (hpos : ∀ b ∈ bs, 0 < b.2) (hap : bs.Pairwise BlocksApart) (j : Nat) (hj : j + 1 < zone.nrSection) :
    ¬ ∀ x, Covered bs x
      → Covered ((giveSection zone j).2.blocks ++ [(giveSection zone j).1.block]) x := by
  intro hcover
  have hlen := h.length zone bs
  have hlast : bs.length - 1 < bs.length := by omega
  have hmem := List.getElem_mem hlast
  have hsize := hpos _ hmem
  -- The first byte of the last section.
  have hbyte : ByteOf (bs[bs.length - 1]).1 (bs[bs.length - 1]).2
      ((bs[bs.length - 1]).1 % u32Size) := ⟨0, hsize, rfl⟩
  rcases hcover _ ⟨_, hmem, hbyte⟩ with ⟨b, hb, hx⟩
  -- Whatever covers it is an earlier section, or empty.
  have hearly : b.2 = 0 ∨ ∃ i, ∃ hi : i < bs.length, i < bs.length - 1 ∧ b = bs[i] := by
    rcases List.mem_append.1 hb with hb | hb
    · unfold giveSection Zone.blocks Zone.setSection at hb
      rcases List.mem_map.1 hb with ⟨i, hi, rfl⟩
      rw [List.mem_range] at hi
      simp only at hi ⊢
      by_cases hij : i = j
      · left
        rw [hij, Function.update_self]
      · right
        refine ⟨i, by omega, by omega, ?_⟩
        rw [Function.update_of_ne hij, h.getElem zone bs i (by omega)]
    · right
      rw [List.mem_singleton] at hb
      refine ⟨j, by omega, by omega, ?_⟩
      rw [hb, h.getElem zone bs j (by omega)]
      rfl
  rcases hearly with hzero | ⟨i, hi, hlt, rfl⟩
  · rcases hx with ⟨o, ho, -⟩
    omega
  · exact List.pairwise_iff_getElem.1 hap i (bs.length - 1) hi hlast hlt _ hx hbyte

/-- A region as `register_memory_region` leaves it. -/
def Registered (r : MemoryRegion) : Prop :=
  r.size % 0x100000 = 0 ∧ 0 < r.size ∧ r.size < u32Size

/-- Registering a region appends it, or changes nothing. -/
theorem registerMemoryRegion_regions (info : PlatformInfo) (start size attr : Nat) :
    (registerMemoryRegion info start size attr).regions = info.regions ∨
      ∃ r, Registered r ∧
        (registerMemoryRegion info start size attr).regions = info.regions ++ [r] := by
  unfold registerMemoryRegion
  by_cases hnr : info.regionNr < memMaxRegion
  · simp only [if_pos hnr]
    generalize hnew : sub32 size (sub32 (baligin start mmSectionAligin) start) = size'
    by_cases hal : isAligin (minAligin size' mmSectionAligin) mmSectionAligin = true
    · simp only [if_pos hal]
      by_cases hpage : pageSize ≤ minAligin size' mmSectionAligin
      · rw [if_pos hpage]
        refine Or.inr ⟨⟨baligin start mmSectionAligin, minAligin size' mmSectionAligin, attr⟩,
          ⟨?_, ?_, ?_⟩, ?_⟩
        · have hlow : ∀ x, x &&& (2 ^ 20 - 1) = x % 2 ^ 20 :=
            fun x => Nat.and_two_pow_sub_one_eq_mod x 20
          unfold isAligin mmSectionAligin at hal
          exact (hlow _).symm.trans (of_decide_eq_true hal)
        · unfold pageSize at hpage
          simp only
          omega
        · unfold minAligin
          exact Nat.lt_of_le_of_lt Nat.and_le_left (Nat.mod_lt _ (by unfold u32Size; omega))
        · unfold PlatformInfo.regions
          simp only [List.range_succ, List.map_append, List.map_singleton, Function.update_self]
          congr 1
          refine List.map_congr_left (fun i hi => ?_)
          rw [List.mem_range] at hi
          rw [Function.update_of_ne (by omega)]
      · rw [if_neg hpage]
        exact Or.inl rfl
    · rw [if_neg hal]
      exact Or.inl rfl
  · rw [if_neg hnr]
    exact Or.inl rfl

/-- The regions of a board that made these calls of `register_memory_region`. -/
def platform (info : PlatformInfo) (calls : List (Nat × Nat × Nat)) : PlatformInfo :=
  calls.foldl (fun info c => registerMemoryRegion info c.1 c.2.1 c.2.2)
    (initPlatformMemoryRegion info)

theorem platform_registered (info : PlatformInfo) (calls : List (Nat × Nat × Nat)) :
    ∀ r ∈ (platform info calls).regions, Registered r := by
  have hfold : ∀ (calls : List (Nat × Nat × Nat)) (info : PlatformInfo),
      (∀ r ∈ info.regions, Registered r) → ∀ r ∈ (calls.foldl (fun info c =>
        registerMemoryRegion info c.1 c.2.1 c.2.2) info).regions, Registered r := by
    intro calls
    induction calls with
    | nil => exact fun info h => h
    | cons c calls ih =>
        intro info h
        rw [List.foldl_cons]
        refine ih _ (fun r hr => ?_)
        rcases registerMemoryRegion_regions info c.1 c.2.1 c.2.2 with heq | ⟨q, hq, heq⟩
        · rw [heq] at hr
          exact h r hr
        · rw [heq, List.mem_append, List.mem_singleton] at hr
          rcases hr with hr | rfl
          · exact h r hr
          · exact hq
  refine hfold calls _ (fun r hr => ?_)
  exact absurd hr List.not_mem_nil

/-- The sizes of the NORMAL regions in the order of their addresses. -/
def normalSizes (info : PlatformInfo) : List Nat :=
  (zoneBlocks (sortRegions info).regions .normal).map Prod.snd

theorem initMemoryBank_holds (bank : Mm) (hbss : ∀ z, (bank.zone z).totalSize = 0) (z : ZoneId) :
    ZoneHolds (bank.initMemoryBank.zone z) (zoneBlocks [] z) := by
  refine ⟨rfl, ?_, fun i _ hi => ?_⟩
  · exact hbss z
  · unfold Mm.initMemoryBank
    simp only [if_pos hi]
    rfl

/-- The part of the set-up after the regions were inserted. -/
theorem autoDma_exact (bank : Mm) (rs : List MemoryRegion) (bs : List (Nat × Nat))
    (hn : ZoneHolds (bank.zone .normal) bs) (hd : ZoneHolds (bank.zone .dma) [])
    (hw : WholeSizes bs) (hap : bs.Pairwise BlocksApart)
    (hrs : ∀ x, Covered bs x ↔ ∃ r ∈ rs, r.attr = zoneNumber .normal ∧ ByteOf r.start r.size x) :
    LosesNothing bank.autoDma rs ↔ KeepsLast (bs.map Prod.snd) := by
  rw [wholeSection_iff (bank.zone .normal) bs hn hw.lt]
  have hlen := hn.length _ _
  generalize hzone : bank.zone .normal = zone at hn hlen ⊢
  have htotal : (takeDma zone).2.totalSize = zone.totalSize := by
    unfold takeDma
    simp only []
    split
    · rfl
    · rfl
  -- A region taken without loss leaves everything as it should be.
  have hkeeps : (takeDma zone).1.size < u32Size →
      ((takeDma zone).2.blocks ++ [(takeDma zone).1.block]).Pairwise BlocksApart →
      (∀ x, Covered ((takeDma zone).2.blocks ++ [(takeDma zone).1.block]) x ↔ Covered bs x) →
      ((takeDma zone).2.blocks.map Prod.snd).sum + (takeDma zone).1.size
        = (bs.map Prod.snd).sum → LosesNothing bank.autoDma rs := by
    intro hr hpair hcover hsum
    subst hzone
    rcases autoDma_zones bank hd hr with ⟨hbn, hbd, htn, htd⟩
    refine ⟨?_, fun x => ?_, fun z hz => ?_⟩
    · rw [hbn, hbd]
      exact hpair
    · rw [hbn, hbd, hcover x]
      exact hrs x
    · rcases hz with rfl | rfl
      · rw [hbn, htn, htotal, hn.total, ← hsum]
        unfold sub32 u32Size at *
        omega
      · rw [hbd, htd]
        simpa [MemoryRegion.block] using Nat.mod_eq_of_lt hr
  by_cases hwhole : wholeSection zone = true
  · have htake : takeDma zone = giveSection zone
        (fitSection zone (maxSection zone) (dmaSize zone)) := by
      unfold takeDma
      rw [if_pos hwhole]
    generalize hj : fitSection zone (maxSection zone) (dmaSize zone) = j at *
    have hjn : j < zone.nrSection := by
      rw [← hj]
      exact fitSection_lt zone hwhole
    have hr : (takeDma zone).1.size < u32Size := by
      have hb := hw.lt _ (List.getElem_mem (show j < bs.length by omega))
      rw [hn.getElem zone bs j (by omega)] at hb
      rw [htake]
      exact hb
    simp only [hwhole, true_imp_iff]
    refine ⟨fun hloses => ?_, fun hlast => ?_⟩
    · by_contra hne
      subst hzone
      rcases autoDma_zones bank hd hr with ⟨hbn, hbd, -, -⟩
      refine giveSection_loses _ bs hn hw.pos hap j (by omega) (fun x hx => ?_)
      have := (hloses.cover x).2 ((hrs x).1 hx)
      rw [hbn, hbd, htake] at this
      exact this
    · have hsame := giveSection_last zone bs hn j hlast
      refine hkeeps hr ?_ ?_ ?_
      · rw [htake, hsame]
        exact hap
      · intro x
        rw [htake, hsame]
      · have hsum := congrArg (fun l => (l.map Prod.snd).sum) hsame
        simp only [List.map_append, List.map_cons, List.map_nil, List.sum_append, List.sum_cons,
          List.sum_nil, Nat.add_zero] at hsum
        rw [htake]
        exact hsum
  · have htake : takeDma zone = cutSection zone (maxSection zone) (dmaSize zone) := by
      unfold takeDma
      rw [if_neg hwhole]
    rcases cutSection_keeps zone bs hn hw hap with ⟨hpair, hcover, hsum⟩
    rw [← htake] at hpair hcover hsum
    refine ⟨fun _ hc => absurd hc hwhole, fun _ => hkeeps ?_ hpair hcover hsum⟩
    rw [htake]
    exact (dmaSize_le zone bs hn hw).2

/-- For every list of registered regions without a common byte, at most four to a
    zone and none of them DMA, the set-up returns and loses no memory exactly when
    the section it may give away whole is the last one. -/
theorem zone_setup_exact (info : PlatformInfo) (calls : List (Nat × Nat × Nat)) (bank : Mm)
    (hattr : ∀ r ∈ (platform info calls).regions, ∃ z, z ≠ .dma ∧ r.attr = zoneNumber z)
    (hmax : ∀ z, (zoneBlocks (platform info calls).regions z).length ≤ zoneMaxRegion)
    (hap : ((platform info calls).regions.map MemoryRegion.block).Pairwise BlocksApart)
    (hbss : ∀ z, (bank.zone z).totalSize = 0) :
    ∃ bank', bank.initMemoryBank.handlePlatformMemoryRegion (platform info calls) = some bank' ∧
      (LosesNothing bank' (platform info calls).regions
        ↔ KeepsLast (normalSizes (platform info calls))) := by
  have hreg := platform_registered info calls
  generalize platform info calls = board at *
  have hperm := sortRegions_perm board
  have hzperm : ∀ z, (zoneBlocks (sortRegions board).regions z).Perm
      (zoneBlocks board.regions z) := by
    intro z
    exact (hperm.filter _).map _
  rcases Mm.insertRegions_holds bank.initMemoryBank (sortRegions board).regions []
    (initMemoryBank_holds bank hbss)
    (fun r hr => by
      rcases hattr r (hperm.mem_iff.1 hr) with ⟨z, -, hz⟩
      exact ⟨z, hz⟩)
    (fun z => by
      rw [List.nil_append, (hzperm z).length_eq]
      exact hmax z) with ⟨bank₁, hins, hholds⟩
  refine ⟨bank₁.autoDma, ?_, ?_⟩
  · unfold Mm.handlePlatformMemoryRegion Mm.insertRegions
    unfold PlatformInfo.regions at hins
    rw [hins]
    rfl
  · have hdma : zoneBlocks ([] ++ (sortRegions board).regions) .dma = [] := by
      unfold zoneBlocks
      rw [List.nil_append, List.map_eq_nil_iff, List.filter_eq_nil_iff]
      intro r hr hc
      rcases hattr r (hperm.mem_iff.1 hr) with ⟨z, hz, hattrz⟩
      rw [decide_eq_true_eq, hattrz] at hc
      revert hz hc
      cases z <;> decide
    have hd := hholds .dma
    have hn := hholds .normal
    rw [hdma] at hd
    rw [List.nil_append] at hn
    refine autoDma_exact bank₁ board.regions _ hn hd ?_ ?_ (fun x => ?_)
    · have hmem : ∀ b ∈ zoneBlocks (sortRegions board).regions .normal,
          b.2 % 0x100000 = 0 ∧ 0 < b.2 ∧ b.2 < u32Size := by
        intro b hb
        rcases List.mem_map.1 hb with ⟨r, hr, rfl⟩
        exact hreg r (hperm.mem_iff.1 (List.mem_filter.1 hr).1)
      refine ⟨fun b hb => (hmem b hb).1, fun b hb => (hmem b hb).2.1,
        fun b hb => (hmem b hb).2.2, ?_⟩
      rw [(hzperm .normal).length_eq]
      exact hmax .normal
    · rw [pairwise_blocksApart_perm _ _ (hzperm .normal)]
      refine List.Pairwise.sublist ?_ hap
      exact List.filter_sublist.map _
    · rw [covered_perm _ _ (hzperm .normal), covered_zoneBlocks]

/-- No region registered yet. -/
def noRegions : PlatformInfo :=
  { region := fun _ => ⟨0, 0, 0⟩, regionNr := 0 }

/-- Two banks of sixty and four megabytes: the second is given away whole. -/
theorem zone_setup_exact_sixty :
    ∃ bank', (Mm.bareBank [] [] [] []).initMemoryBank.handlePlatformMemoryRegion
        (platform noRegions [(0x30000000, 0x3c00000, 0), (0x40000000, 0x400000, 0)])
          = some bank' ∧
      LosesNothing bank'
        (platform noRegions [(0x30000000, 0x3c00000, 0), (0x40000000, 0x400000, 0)]).regions := by
  have hregions : (platform noRegions
      [(0x30000000, 0x3c00000, 0), (0x40000000, 0x400000, 0)]).regions
        = [⟨0x30000000, 0x3c00000, 0⟩, ⟨0x40000000, 0x400000, 0⟩] := by decide +kernel
  have hsizes : normalSizes (platform noRegions
      [(0x30000000, 0x3c00000, 0), (0x40000000, 0x400000, 0)]) = [0x3c00000, 0x400000] := by
    decide +kernel
  have hattr : ∀ r ∈ (platform noRegions
      [(0x30000000, 0x3c00000, 0), (0x40000000, 0x400000, 0)]).regions,
        ∃ z, z ≠ .dma ∧ r.attr = zoneNumber z := by
    rw [hregions]
    intro r hr
    refine ⟨.normal, by decide, ?_⟩
    simp only [List.mem_cons, List.not_mem_nil, or_false] at hr
    rcases hr with rfl | rfl <;> rfl
  have hmax : ∀ z, (zoneBlocks (platform noRegions
      [(0x30000000, 0x3c00000, 0), (0x40000000, 0x400000, 0)]).regions z).length
        ≤ zoneMaxRegion := by
    rw [hregions]
    intro z
    cases z <;> decide
  have hap : ((platform noRegions
      [(0x30000000, 0x3c00000, 0), (0x40000000, 0x400000, 0)]).regions.map
        MemoryRegion.block).Pairwise BlocksApart := by
    rw [hregions]
    refine List.Pairwise.cons (fun b hb => ?_) (List.pairwise_singleton _ _)
    rw [List.map_singleton, List.mem_singleton] at hb
    subst hb
    rintro x ⟨o, ho, rfl⟩ ⟨o', ho', heq⟩
    simp only [MemoryRegion.block, u32Size] at ho ho' heq
    omega
  rcases zone_setup_exact noRegions [(0x30000000, 0x3c00000, 0), (0x40000000, 0x400000, 0)]
    (Mm.bareBank [] [] [] []) hattr hmax hap (fun z => by cases z <;> rfl) with
    ⟨bank', hrun, hiff⟩
  refine ⟨bank', hrun, hiff.2 ?_⟩
  rw [hsizes]
  intro i hi hfit
  have hi0 : i = 0 := by
    simp only [List.length_cons, List.length_nil] at hi
    omega
  rcases hfit.2.1 with ⟨t, ht, hlt⟩
  subst hi0
  simp only [List.mem_cons, List.not_mem_nil, or_false, List.getD_cons_zero] at ht hlt
  omega

/-- Two banks of four and sixty megabytes: the first is given away whole, and the
    second is no longer part of any zone. -/
theorem zone_setup_fails :
    ((Mm.bareBank [] [] [] []).initMemoryBank.handlePlatformMemoryRegion
        (platform noRegions [(0x30000000, 0x400000, 0), (0x40000000, 0x3c00000, 0)])).map
          (fun bank => ((bank.zone .normal).blocks, (bank.zone .dma).blocks))
        = some ([(0, 0)], [(0x30000000, 0x400000)]) ∧
      ¬ ∃ bank', (Mm.bareBank [] [] [] []).initMemoryBank.handlePlatformMemoryRegion
          (platform noRegions [(0x30000000, 0x400000, 0), (0x40000000, 0x3c00000, 0)])
            = some bank' ∧
        LosesNothing bank'
          (platform noRegions [(0x30000000, 0x400000, 0), (0x40000000, 0x3c00000, 0)]).regions := by
  have hblocks : ((Mm.bareBank [] [] [] []).initMemoryBank.handlePlatformMemoryRegion
      (platform noRegions [(0x30000000, 0x400000, 0), (0x40000000, 0x3c00000, 0)])).map
        (fun bank => ((bank.zone .normal).blocks, (bank.zone .dma).blocks))
      = some ([(0, 0)], [(0x30000000, 0x400000)]) := by decide +kernel
  refine ⟨hblocks, ?_⟩
  rintro ⟨bank', hrun, h⟩
  rw [hrun, Option.map_some, Option.some.injEq, Prod.mk.injEq] at hblocks
  have hregions : (platform noRegions
      [(0x30000000, 0x400000, 0), (0x40000000, 0x3c00000, 0)]).regions
        = [⟨0x30000000, 0x400000, 0⟩, ⟨0x40000000, 0x3c00000, 0⟩] := by decide +kernel
  -- The first byte of the second bank is registered but in no section.
  have hcover := (h.cover 0x40000000).2 ⟨⟨0x40000000, 0x3c00000, 0⟩, by
    rw [hregions]
    exact List.mem_cons_of_mem _ List.mem_cons_self, rfl, ⟨0, by decide, rfl⟩⟩
  rw [hblocks.1, hblocks.2] at hcover
  rcases hcover with ⟨b, hb, o, ho, heq⟩
  simp only [List.singleton_append, List.mem_cons, List.not_mem_nil, or_false] at hb
  rcases hb with rfl | rfl
  · exact absurd ho (Nat.not_lt_zero o)
  · simp only [u32Size] at ho heq
    omega

end Mirros
