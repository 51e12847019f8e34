import Mirros.Theory.Slab.Carve
import Mirros.Theory.Slab.Release

/-!
# The Indices of the Cache Lists

`list_id` computes the index of a cache list from the rounded request, from the size of a
header that is freed and from the size of the remainder of a page that is displaced. The
values are collected here for each call, beside the calls: the functions they come from
return something else.

Each way of getting a slice keeps the headers filed, and what it computes is the index of
a list. This needs that the slices in the way are in order: the first cached slice is in
a page that is still in use, the pages that are taken were clear, and there are headers.

## Main definitions

* `kmallocIds`, `kfreeKernelMemIds`: The indices that are computed in a call.
* `cachedOk`, `clearRun`, `outOfHeaders`: What can be wrong with an allocation.
* `Indexed`: The headers are filed and the current page can be carved.

## Theorems

* `indexed_getSlabInList`, `indexed_getSlabFromPageFree`, `indexed_getKernelSlab`: The
  ways of getting a slice.
* `ids_getKernelSlab`: The index of the remainder has a list.
-/

namespace Mirros

namespace Slab

/-- The state in which `__kmalloc` gets to `get_new_slab`, when it does. -/
def atNewSlab (s : Slab) (size : Nat) : Option Slab := do
  let s ← s.lock
  if pageSize ≤ size then return s
  let (ret, s) ← s.getSlabInList (getNewAllocSize size gfpKernel) gfpKernel
  if ret ≠ 0 then none
  else
    let (ret, s) ← s.getSlabFromPageFree (getNewAllocSize size gfpKernel)
    if ret ≠ 0 then none else return s

/-- The page `get_kernel_slab` cuts its slice from, and the state before it does. -/
def openedPage (s : Slab) (size : Nat) : Option (Nat × Slab) := do
  let (base, mm) ← s.mm.getFreePages (pageNr size) gfpKernel
  if isAligin size pageSize = true ∨ base = 0 then none
  else return (lastPage mm base size, markRun { s with mm := mm } base size)

/-- The slice `get_kernel_slab` cuts from the page: what is left for the last page. -/
def leaveSize (size : Nat) : Nat :=
  size - (pageNr size - 1) * pageSize

/-- The page whose remainder `update_slab_free_page` puts aside, and the state before
    it does. -/
def displaced (s : Slab) (pg : Nat) : Option (Nat × Slab) :=
  match s.choosePage pg with
  | (_, none) => none
  | (new, some old) =>
      if 16 < (s.mm.pageTable old).freeSize then
        some (old, { s with slabPageCurrent := some new })
      else none

/-- The value of `list_id` in `add_slab_header_to_list`, if there is a header. -/
def headerId (s : Slab) (header : Option Nat) : Option Nat :=
  header.map (fun h => listId (s.header h).size)

/-- The values of `list_id` in `update_slab_free_page`. -/
def updateSlabFreePageIds (s : Slab) (pg : Nat) : List (Option Nat) :=
  match s.displaced pg with
  | none => []
  | some (old, s) =>
      match s.getSlabFromPage old (s.mm.pageTable old).freeSize with
      | none => []
      | some (header, s) => [s.headerId header]

/-- The values of `list_id` in `get_kernel_slab` after the first slice was cut. -/
def restIds (pg : Nat) : Option (Option Nat × Slab) → List (Option Nat)
  | none => []
  | some (_, s) => s.updateSlabFreePageIds pg

/-- The values of `list_id` in `get_kernel_slab`. -/
def getKernelSlabIds (s : Slab) (size : Nat) : List (Option Nat) :=
  (s.openedPage size).elim [] (fun r => restIds r.1 (r.2.getSlabFromPage r.1 (leaveSize size)))

/-- The values of `list_id` in `__kmalloc` for kernel memory: the one of the request, when
    the lists are looked at, and the one of the remainder. -/
def kmallocIds (s : Slab) (size : Nat) : List (Option Nat) :=
  (if s.slabMutex = 0 ∧ size < pageSize then [some (listId (getNewAllocSize size gfpKernel))]
    else []) ++
  match s.atNewSlab size with
  | none => []
  | some s => s.getKernelSlabIds (getNewAllocSize size gfpKernel)

/-- The values of `list_id` in `__kfree_slice_slab`. -/
def kfreeSliceSlabIds (s : Slab) (pg addr : Nat) : List (Option Nat) :=
  match s.findHeader (.page pg) addr s.findHeaderFuel (s.mm.links.next (.page pg)) with
  | some (some header) => [s.headerId (some header)]
  | _ => []

/-- The address `__kfree_page_slab` passes to `free_pages`. -/
def pageEntry (s : Slab) (pg : Nat) : Nat :=
  add32 s.mm.pageTableAddr (pg * Mm.sizeofPage)

/-- The page `__kfree_page_slab` goes on with. -/
def lastOf (s : Slab) (pg : Nat) : Nat :=
  pg + (s.mm.pageTable pg).count

/-- The values of `list_id` in `kfree_kernel_mem`. -/
def kfreeKernelMemIds (s : Slab) (addr : Nat) : List (Option Nat) :=
  match s.lock with
  | none => []
  | some s =>
      let pg := s.mm.vaToPageId addr
      if (s.mm.pageTable pg).flag &&& gfpSlabBit ≠ 0 then s.kfreeSliceSlabIds pg addr
      else if !isAligin addr pageSize then []
      else
        match s.mm.freePages (s.pageEntry pg) with
        | none => []
        | some mm =>
            kfreeSliceSlabIds { s with mm := mm } (s.lastOf pg) (s.mm.pageIdToVa (s.lastOf pg))

end Slab

/-- Every value of `list_id` in a call. Nothing stands for one that is read through the
    null pointer. -/
def KSession.listIds (s : KSession) : KCall → List (Option Nat)
  | .alloc size => if size ≤ 0 then [] else s.slab.kmallocIds size.toNat
  | .free b => s.slab.kfreeKernelMemIds b.addr

/-- `kmalloc` of at least one byte and `kfree_kernel_mem` of a live block. -/
def memoryCall (s : KSession) (c : KCall) (_ : Nat) : Prop :=
  match c with
  | .alloc size => 1 ≤ size ∧ size < 2 ^ 31
  | .free b => b ∈ s.live

instance (s : KSession) (c : KCall) (addr : Nat) : Decidable (memoryCall s c addr) :=
  match c with
  | .alloc size => inferInstanceAs (Decidable (1 ≤ size ∧ size < 2 ^ 31))
  | .free b => inferInstanceAs (Decidable (b ∈ s.live))

namespace Slab

/-- The slice the list of the size would give is in a page that is still in use, and
    putting its header on the list of that page touches no other list. -/
def cachedOk (s : Slab) (size : Nat) : Prop :=
  match s.mm.links.next (.cache (listId size)) with
  | .header h =>
      used s.mm.pageMap (s.mm.vaToPageId (s.header h).base) = true ∧
        HeadBack s.mm.links (.page (s.mm.vaToPageId (s.header h).base)) (.header h)
  | _ => True

instance (s : Slab) (size : Nat) : Decidable (cachedOk s size) := by
  unfold cachedOk
  split <;> infer_instance

/-- A remainder is cut off and there is no header for it. -/
def remainderMissing (s : Slab) (pg : Nat) : Bool :=
  match s.displaced pg with
  | none => false
  | some (old, s) =>
      match s.getSlabFromPage old (s.mm.pageTable old).freeSize with
      | some (none, _) => true
      | _ => false

/-- There is no header for the first slice, or later for the remainder. -/
def sliceMissing (pg : Nat) : Option (Option Nat × Slab) → Bool
  | none => false
  | some (none, _) => true
  | some (some _, s) => s.remainderMissing pg

/-- A page is taken, and then a header is missing for its slice or for the remainder. -/
def outOfHeaders (s : Slab) (size : Nat) : Bool :=
  (s.openedPage size).any (fun r => sliceMissing r.1 (r.2.getSlabFromPage r.1 (leaveSize size)))

/-- The pages the search for a block comes up with are all clear. -/
def clearRun (s : Slab) (size : Nat) : Prop :=
  ∀ ch ∈ chosen ⟨s.mm, []⟩ (.get (pageNr size) gfpKernel),
    ∀ q ∈ List.range' ch.index ch.count, used s.mm.pageMap q = false

instance (s : Slab) (size : Nat) : Decidable (clearRun s size) :=
  inferInstanceAs (Decidable (∀ ch ∈ chosen ⟨s.mm, []⟩ (.get (pageNr size) gfpKernel), _))

end Slab

/-- The heads of the cache lists and of the list of the current page. -/
def listHeads (current : Option Nat) : Set MemNode :=
  { n | (∃ i < slabNode, n = .cache i) ∨ ∃ p, current = some p ∧ n = .page p }

theorem page_mem_listHeads (current : Option Nat) (p : Nat) :
    MemNode.page p ∈ listHeads current ↔ current = some p := by
  constructor
  · rintro (⟨i, _, hi⟩ | ⟨q, hq, hp⟩)
    · exact MemNode.noConfusion hi
    · rw [MemNode.page.inj hp]
      exact hq
  · exact fun hp => Or.inr ⟨p, hp, rfl⟩

theorem cache_mem_listHeads (current : Option Nat) (i : Nat) (hi : i < slabNode) :
    MemNode.cache i ∈ listHeads current :=
  Or.inl ⟨i, hi, rfl⟩

/-- The lists are rings and the current page can be carved. -/
structure Indexed (s : Slab) (H : Set Nat) (S : Set MemNode) (f : MemNode → List MemNode) :
    Prop where
  filed : Filed s H S (listHeads s.slabPageCurrent) f
  current : ∀ p, s.slabPageCurrent = some p → Carvable s.mm H S p

/-- A page whose state was read and is not zero is marked. -/
theorem used_of_pageState (mm : Mm) (p state : Nat) (hstate : mm.pageState p = some state)
    (hzero : state ≠ 0) : used mm.pageMap p = true := by
  unfold Mm.pageState at hstate
  by_cases hin : mm.inMap p = true
  · rw [if_pos hin, Option.some.injEq] at hstate
    rw [← hstate] at hzero
    rw [ne_eq, readBit_eq_zero_iff, Bool.not_eq_false] at hzero
    exact hzero
  · rw [if_neg hin] at hstate
    exact absurd hstate.symm (Option.some_ne_none state)

/-- A slice from its cache list. -/
theorem indexed_getSlabInList (s s' : Slab) (H : Set Nat) (S : Set MemNode)
    (f : MemNode → List MemNode) (h : Indexed s H S f) (size ret : Nat)
    (hlist : listId size < slabNode) (hok : s.cachedOk size)
    (hrun : s.getSlabInList size gfpKernel = some (ret, s')) :
    (∃ g, Indexed s' H S g) ∧ s'.mm.kernelStart = s.mm.kernelStart ∧
      (ret ≠ 0 → MemNode.page (s.mm.vaToPageId ret) ∈ S) := by
  have hhead := cache_mem_listHeads s.slabPageCurrent _ hlist
  unfold Slab.getSlabInList at hrun
  rw [if_neg (by decide)] at hrun
  by_cases hempty : isListEmpty s.mm.links (.cache (listId size)) = true
  · simp only [hempty, if_true, Option.some.injEq, Prod.mk.injEq] at hrun
    rw [← hrun.2]
    exact ⟨⟨f, h⟩, rfl, fun hne => absurd hrun.1.symm hne⟩
  simp only [hempty, Bool.false_eq_true, if_false] at hrun
  have hring := (rings_closed _ _ f h.filed.rings _ ⟨_, hhead, List.mem_cons_self⟩).1
  have hin := (filed_ringNodes s H S _ f h.filed _ hring).1
  rcases hnode : s.mm.links.next (.cache (listId size)) with _ | a | _ | _ | _ | _ | _ | _ | _
  case header =>
    rw [hnode] at hring hin
    unfold Slab.cachedOk at hok
    simp only [hnode] at hrun hok
    simp only [Option.pure_def, Option.bind_eq_bind, Option.bind_eq_some_iff] at hrun
    rcases hrun with ⟨state, _, hrun⟩
    by_cases hzero : state = 0
    · rw [if_pos hzero] at hrun
      exact absurd hrun.symm (Option.some_ne_none _)
    rw [if_neg hzero, Option.some.injEq, Prod.mk.injEq] at hrun
    have hpage := (h.filed.headers a hin).page
    rcases filed_unlink s H S _ f h.filed a hin (fun hc => absurd hring hc) with ⟨g, hg, hoff⟩
    -- The page keeps its first node, and that node keeps the page, when the header is gone.
    have hlist' : MemNode.page (s.mm.vaToPageId (s.header a).base) ∈ listHeads s.slabPageCurrent ∨
        MemNode.page (s.mm.vaToPageId (s.header a).base) ∉
          ringNodes (listHeads s.slabPageCurrent) g ∧
        HeadBack (listDel s.mm.links (.header a))
          (.page (s.mm.vaToPageId (s.header a).base)) (.header a) := by
      by_cases hcur : MemNode.page (s.mm.vaToPageId (s.header a).base) ∈ listHeads s.slabPageCurrent
      · exact Or.inl hcur
      have hout : ∀ {l' : Slab} {g' : MemNode → List MemNode}, Filed l' H S _ g' →
          MemNode.page (s.mm.vaToPageId (s.header a).base) ∉
            ringNodes (listHeads s.slabPageCurrent) g' :=
        fun hf hc => hcur ((filed_ringNodes _ H S _ _ hf _ hc).2.2 _ rfl)
      refine Or.inr ⟨hout hg, ?_⟩
      have hclosed := rings_closed _ _ f h.filed.rings
      have hnext : (listDel s.mm.links (.header a)).next
          (.page (s.mm.vaToPageId (s.header a).base))
            = s.mm.links.next (.page (s.mm.vaToPageId (s.header a).base)) := by
        rw [listDel_eq_link, Links.link_next, if_neg]
        intro hc
        exact hout h.filed (hc ▸ (hclosed _ hring).2)
      unfold HeadBack
      rw [hnext]
      refine hok.2.imp_right fun hback => ?_
      rw [listDel_eq_link, Links.link_pre, if_neg]
      · exact hback
      intro hc
      rw [hc] at hback
      exact hout h.filed (hback ▸ (hclosed _ (hclosed _ hring).1).2)
    rcases filed_link _ H S _ g hg a hin _ hoff hpage MemNode.noConfusion hlist'
      (fun i hi => MemNode.noConfusion hi) with ⟨g', hg', _⟩
    rw [← hrun.1, ← hrun.2]
    refine ⟨⟨g', filed_fields _ H S _ g' hg' s.slabMutex s.slabPageCurrent _, fun p hp => ?_⟩, rfl,
      fun _ => hpage⟩
    have hc := h.current p hp
    exact ⟨hc.node, hc.bound, hc.plain, hc.step, hc.room, hc.base⟩
  all_goals
    simp only [hnode] at hrun
    exact absurd hrun.symm (Option.some_ne_none _)

/-- A slice from the current page, or a look at whether it was released. -/
theorem indexed_getSlabFromPageFree (s s' : Slab) (H : Set Nat) (S : Set MemNode)
    (f : MemNode → List MemNode) (h : Indexed s H S f) (size ret : Nat) (hstep : size % 16 = 0)
    (hlow : 16 ≤ size) (hmax : size ≤ slabMax)
    (hrun : s.getSlabFromPageFree size = some (ret, s')) :
    (∃ H' S' g, Indexed s' H' S' g ∧ S ⊆ S' ∧
      (ret ≠ 0 → MemNode.page (s.mm.vaToPageId ret) ∈ S')) ∧
      s'.mm.kernelStart = s.mm.kernelStart ∧
      ∀ p, s'.slabPageCurrent = some p → used s'.mm.pageMap p = true := by
  unfold Slab.getSlabFromPageFree at hrun
  rcases hpg : s.slabPageCurrent with _ | pg
  · simp only [hpg, Option.some.injEq, Prod.mk.injEq] at hrun
    rw [← hrun.2]
    exact ⟨⟨H, S, f, h, Set.Subset.refl S, fun hne => absurd hrun.1.symm hne⟩, rfl,
      fun p hp => absurd (hp.symm.trans hpg) (Option.some_ne_none p)⟩
  simp only [hpg, Option.pure_def, Option.bind_eq_bind, Option.bind_eq_some_iff] at hrun
  rcases hrun with ⟨state, hstate, hrun⟩
  by_cases hzero : state = 0
  · -- The page was released: its list is no longer one that slices are taken from.
    rw [if_pos hzero, Option.some.injEq, Prod.mk.injEq] at hrun
    rw [← hrun.2]
    have hsub : listHeads none ⊆ listHeads s.slabPageCurrent := by
      rintro n (hn | ⟨p, hp, _⟩)
      · exact Or.inl hn
      · exact absurd hp.symm (Option.some_ne_none p)
    have hless := filed_subset s H S _ f h.filed _ hsub (cache_mem_listHeads none)
    refine ⟨⟨H, S, f, ⟨filed_fields s H S _ f hless s.slabMutex none s.aside, fun p hp => ?_⟩,
      Set.Subset.refl S, fun hne => absurd hrun.1.symm hne⟩, rfl, fun p hp => ?_⟩
    · exact absurd hp.symm (Option.some_ne_none p)
    · exact absurd hp.symm (Option.some_ne_none p)
  have hset := used_of_pageState s.mm pg state hstate hzero
  have hmarked : ∀ p, MemNode.page p ∈ listHeads s.slabPageCurrent →
      used s.mm.pageMap p = true := by
    intro p hp
    have hcur := (page_mem_listHeads _ p).mp hp
    rw [hpg, Option.some.injEq] at hcur
    rw [← hcur]
    exact hset
  have hp := h.current pg hpg
  rw [if_neg hzero] at hrun
  have hstay : ∀ p, s.slabPageCurrent = some p → used s.mm.pageMap p = true :=
    fun p hcur => hmarked p ((page_mem_listHeads _ p).mpr hcur)
  by_cases hsmall : (s.mm.pageTable pg).freeSize < size
  · rw [if_pos hsmall, Option.some.injEq, Prod.mk.injEq] at hrun
    rw [← hrun.2]
    exact ⟨⟨H, S, f, h, Set.Subset.refl S, fun hne => absurd hrun.1.symm hne⟩, rfl, hstay⟩
  rw [if_neg hsmall] at hrun
  simp only [Option.bind_eq_some_iff, Prod.exists] at hrun
  rcases hrun with ⟨header, s₁, hheader, hrun⟩
  rcases header with _ | a
  · -- No header: the current page is as it was.
    simp only [Option.some.injEq, Prod.mk.injEq] at hrun
    rcases filed_getNewSlabHeader s H S _ f h.filed hmarked none s₁ hheader with
      ⟨hcur, _, H', S', g, hfiled, hgrow, _⟩
    rw [← hrun.2]
    refine ⟨⟨H', S', g, ⟨hcur ▸ hfiled, fun p hpc => ?_⟩, hgrow.nodes,
      fun hne => absurd hrun.1.symm hne⟩, hgrow.start, fun p hpc => ?_⟩
    · rw [hcur] at hpc
      exact (hgrow.carvable p (hstay p hpc) (h.current p hpc)).1
    · rw [hcur] at hpc
      exact hgrow.marks p (hstay p hpc)
  · simp only [Option.some.injEq, Prod.mk.injEq] at hrun
    rcases filed_cutSlice s H S _ f h.filed hmarked pg size a s₁ hp
      ((page_mem_listHeads _ pg).mpr hpg) hstep hlow (by omega) hmax hheader with
      ⟨hcur, _, hdata, H', S', g, hfiled, hgrow, hin, _⟩
    have hbase := hrun.1
    rw [hdata] at hbase
    rw [← hrun.2]
    refine ⟨⟨H', S', g, ⟨hcur ▸ hfiled, fun p hpc => ?_⟩, hgrow.nodes, fun _ => ?_⟩, hgrow.start,
      fun p hpc => ?_⟩
    · rw [hcur] at hpc
      exact (hgrow.carvable p (hstay p hpc) (h.current p hpc)).1
    · have hpage := (hfiled.headers a hin).page
      rw [hdata, vaToPageId_of_start s.mm _ hgrow.start, hbase] at hpage
      exact hpage
    · rw [hcur] at hpc
      exact hgrow.marks p (hstay p hpc)

/-- A slice with a header: the header came first. -/
theorem getSlabFromPage_some (s s' : Slab) (pg size a : Nat)
    (h : s.getSlabFromPage pg size = some (some a, s')) :
    ∃ s₁, s.getNewSlabHeader = some (some a, s₁) ∧ s' = s₁.takeSlice pg size a := by
  unfold Slab.getSlabFromPage at h
  simp only [Option.pure_def, Option.bind_eq_bind, Option.bind_eq_some_iff, Prod.exists] at h
  rcases h with ⟨header, s₁, hheader, h⟩
  rcases header with _ | b
  · simp only [Option.some.injEq, Prod.mk.injEq, reduceCtorEq, false_and] at h
  · simp only [Option.some.injEq, Prod.mk.injEq] at h
    rw [h.1] at hheader h
    exact ⟨s₁, hheader, h.2.symm⟩

/-- The page that stays and the one that is displaced: the new page and the current one,
    and the current one only if it has less room. -/
theorem displaced_cases (s s₀ : Slab) (pg old : Nat) (h : s.displaced pg = some (old, s₀)) :
    ∃ cur new, s.slabPageCurrent = some cur ∧ s.choosePage pg = (new, some old) ∧
      16 < (s.mm.pageTable old).freeSize ∧ s₀ = { s with slabPageCurrent := some new } ∧
      ((new = pg ∧ old = cur ∧ (s.mm.pageTable cur).freeSize < (s.mm.pageTable pg).freeSize) ∨
        new = cur ∧ old = pg) := by
  unfold Slab.displaced at h
  rcases hcur : s.slabPageCurrent with _ | cur
  · simp only [Slab.choosePage, hcur] at h
    exact absurd h.symm (Option.some_ne_none _)
  rcases hchoose : s.choosePage pg with ⟨new, _ | old'⟩
  · rw [hchoose] at h
    exact absurd h.symm (Option.some_ne_none _)
  rw [hchoose] at h
  simp only at h
  by_cases hbig : 16 < (s.mm.pageTable old').freeSize
  swap
  · rw [if_neg hbig] at h
    exact absurd h.symm (Option.some_ne_none _)
  rw [if_pos hbig, Option.some.injEq, Prod.mk.injEq] at h
  rcases h with ⟨hold, hs₀⟩
  subst hold
  refine ⟨cur, new, rfl, rfl, hbig, hs₀.symm, ?_⟩
  unfold Slab.choosePage at hchoose
  simp only [hcur] at hchoose
  by_cases hlt : (s.mm.pageTable cur).freeSize < (s.mm.pageTable pg).freeSize
  · rw [if_pos hlt, Prod.mk.injEq, Option.some.injEq] at hchoose
    exact Or.inl ⟨hchoose.1.symm, hchoose.2.symm, hlt⟩
  · rw [if_neg hlt, Prod.mk.injEq, Option.some.injEq] at hchoose
    exact Or.inr ⟨hchoose.1.symm, hchoose.2.symm⟩

/-- The page that stays is the new one or the current one. -/
theorem choosePage_fst (s : Slab) (pg : Nat) :
    (s.choosePage pg).1 = pg ∨ s.slabPageCurrent = some (s.choosePage pg).1 := by
  unfold Slab.choosePage
  rcases hcur : s.slabPageCurrent with _ | cur
  · exact Or.inl rfl
  · simp only
    split
    · exact Or.inl rfl
    · exact Or.inr rfl

/-- The paths of `update_slab_free_page`: there is no remainder to put aside, or it is cut
    off and goes to its list. -/
theorem updateSlabFreePage_cases (s s' : Slab) (pg : Nat)
    (h : s.updateSlabFreePage pg = some s') :
    s' = { s with slabPageCurrent := some (s.choosePage pg).1 } ∨
      ∃ old s₀ a s₁ aside, s.displaced pg = some (old, s₀) ∧
        s₀.getSlabFromPage old (s₀.mm.pageTable old).freeSize = some (some a, s₁) ∧
        s' = { s₁.addSlabHeaderToList a with aside := aside } := by
  unfold Slab.updateSlabFreePage at h
  unfold Slab.displaced
  rcases hchoose : s.choosePage pg with ⟨new, _ | old⟩
  · simp only [hchoose, Option.some.injEq] at h
    exact Or.inl h.symm
  simp only [hchoose] at h ⊢
  by_cases hbig : 16 < (s.mm.pageTable old).freeSize
  swap
  · rw [if_neg hbig, Option.some.injEq] at h
    exact Or.inl h.symm
  rw [if_pos hbig] at h
  simp only [Option.pure_def, Option.bind_eq_bind, Option.bind_eq_some_iff, Prod.exists] at h
  rcases h with ⟨header, s₁, hslab, h⟩
  rcases header with _ | a
  · exact absurd h.symm (Option.some_ne_none _)
  · rw [Option.some.injEq] at h
    exact Or.inr ⟨old, _, a, s₁, _, if_pos hbig, hslab, h.symm⟩

/-- The state in which `update_slab_free_page` is called: the lists of the new page and
    of the current one are rings, and something was taken from the new page. -/
structure Opened (s : Slab) (H : Set Nat) (S : Set MemNode) (f : MemNode → List MemNode)
    (pg : Nat) : Prop where
  filed : Filed s H S (insert (.page pg) (listHeads s.slabPageCurrent)) f
  marked : ∀ p, p = pg ∨ s.slabPageCurrent = some p → used s.mm.pageMap p = true
  carvable : ∀ p, p = pg ∨ s.slabPageCurrent = some p → Carvable s.mm H S p
  other : s.slabPageCurrent ≠ some pg
  room : (s.mm.pageTable pg).freeSize ≤ slabMax

theorem page_mem_opened (current : Option Nat) (pg p : Nat) :
    MemNode.page p ∈ insert (MemNode.page pg) (listHeads current) ↔ p = pg ∨ current = some p := by
  rw [Set.mem_insert_iff, MemNode.page.injEq, page_mem_listHeads]

section

variable (s : Slab) (H : Set Nat) (S : Set MemNode) (f : MemNode → List MemNode) (pg : Nat)
  (h : Opened s H S f pg)

include h

/-- The page that stays keeps its ring. -/
theorem opened_choose (new : Nat) (hnew : new = pg ∨ s.slabPageCurrent = some new) :
    Filed s H S (listHeads (some new)) f := by
  apply filed_subset s H S _ f h.filed
  · rintro n (hn | ⟨p, hp, hn⟩)
    · exact Set.mem_insert_of_mem _ (Or.inl hn)
    · rw [hn, page_mem_opened, ← Option.some.inj hp]
      exact hnew
  · exact fun i hi => cache_mem_listHeads _ i hi

/-- Cutting the remainder of the displaced page off: its header is in use, on no ring and
    of a size that has a list. -/
theorem filed_remainder (old a : Nat) (s₀ s₁ : Slab) (hd : s.displaced pg = some (old, s₀))
    (hrun : s₀.getSlabFromPage old (s₀.mm.pageTable old).freeSize = some (some a, s₁)) :
    ∃ new H' S' g, s₁.slabPageCurrent = some new ∧ Filed s₁ H' S' (listHeads (some new)) g ∧
      Carvable s₁.mm H' S' new ∧ Broadens s H S s₁ H' S' ∧ MemNode.header a ∈ S' ∧
      MemNode.header a ∉ ringNodes (listHeads (some new)) g := by
  rcases displaced_cases s s₀ pg old hd with ⟨cur, new, hcur, _, hbig, hs₀, hwhich⟩
  have hnew : new = pg ∨ s.slabPageCurrent = some new := by
    rcases hwhich with ⟨hnew, _⟩ | ⟨hnew, _⟩
    · exact Or.inl hnew
    · exact Or.inr (hnew ▸ hcur)
  have hold : old = pg ∨ s.slabPageCurrent = some old := by
    rcases hwhich with ⟨_, hold, _⟩ | ⟨_, hold⟩
    · exact Or.inr (hold ▸ hcur)
    · exact Or.inl hold
  have hne : old ≠ new := by
    rcases hwhich with ⟨hnew, hold, _⟩ | ⟨hnew, hold⟩
    · rw [hnew, hold]
      exact fun hc => h.other (hc ▸ hcur)
    · rw [hnew, hold]
      exact fun hc => h.other (hc ▸ hcur)
  -- The displaced page has no more room than the new one, from which a slice was taken.
  have hmax : (s.mm.pageTable old).freeSize ≤ slabMax := by
    have hroom := h.room
    rcases hwhich with ⟨_, hold, hlt⟩ | ⟨_, hold⟩
    · rw [hold]
      omega
    · rw [hold]
      exact hroom
  have hfields : Filed s₀ H S (insert (.page pg) (listHeads s.slabPageCurrent)) f := by
    rw [hs₀]
    exact filed_fields s H S _ f h.filed s.slabMutex (some new) s.aside
  have hmm : s₀.mm = s.mm := by rw [hs₀]
  have hmarked : ∀ p, MemNode.page p ∈ insert (MemNode.page pg) (listHeads s.slabPageCurrent) →
      used s₀.mm.pageMap p = true := by
    intro p hp
    rw [hmm]
    exact h.marked p ((page_mem_opened _ pg p).mp hp)
  rcases getSlabFromPage_some s₀ s₁ old _ a hrun with ⟨s₂, hheader, hs₁⟩
  have hcarve := h.carvable old hold
  rw [← hmm] at hcarve hmax hbig
  rcases filed_cutSlice s₀ H S _ f hfields hmarked old _ a s₂ hcarve
    ((page_mem_opened _ pg old).mpr hold) hcarve.step (by omega) (Nat.le_refl _) hmax hheader with
    ⟨hcur', _, _, H', S', g, hfiled, hgrow, hin, hlists, _, hfresh⟩
  rw [← hs₁] at hcur' hfiled hgrow
  have hgrow' : Broadens s H S s₁ H' S' := by
    refine ⟨hgrow.nodes, ?_, fun p hp => ?_, fun p hp hc => ?_⟩
    · rw [hgrow.start, hmm]
    · exact hgrow.marks p (hmm.symm ▸ hp)
    · rw [← hmm] at hp hc ⊢
      exact hgrow.carvable p hp hc
  have hsub : listHeads (some new) ⊆ insert (.page pg) (listHeads s.slabPageCurrent) := by
    rintro n (hn | ⟨p, hp, hn⟩)
    · exact Set.mem_insert_of_mem _ (Or.inl hn)
    · rw [hn, page_mem_opened, ← Option.some.inj hp]
      exact hnew
  refine ⟨new, H', S', g, ?_, filed_subset s₁ H' S' _ g hfiled _ hsub (cache_mem_listHeads _),
    (hgrow'.carvable new (h.marked new hnew) (h.carvable new hnew)).1, hgrow', hin, ?_⟩
  · rw [hcur', hs₀]
  · -- The header is on the list of the displaced page only, which is forgotten.
    rintro ⟨n, hn, hmem⟩
    rcases List.mem_cons.mp hmem with heq | hmem
    · rcases hn with ⟨i, _, hi⟩ | ⟨p, _, hp⟩
      · exact MemNode.noConfusion (heq.trans hi)
      · exact MemNode.noConfusion (heq.trans hp)
    · rw [hlists n (hsub hn)] at hmem
      by_cases hnold : n = .page old
      · rw [hnold, page_mem_listHeads, Option.some.injEq] at hn
        exact hne hn.symm
      · rw [if_neg hnold] at hmem
        rcases hfields.members n (hsub hn) _ hmem with ⟨b, hb, hbS⟩
        exact hfresh (hb.symm ▸ hbS)

/-- Choosing the next current page. -/
theorem indexed_updateSlabFreePage (s' : Slab) (hrun : s.updateSlabFreePage pg = some s') :
    ∃ H' S' g, Indexed s' H' S' g ∧ Broadens s H S s' H' S' := by
  rcases updateSlabFreePage_cases s s' pg hrun with hs' | ⟨old, s₀, a, s₁, aside, hd, hslab, hs'⟩
  · have hnew := choosePage_fst s pg
    have hchoose := filed_fields s H S _ f (opened_choose s H S f pg h _ hnew) s.slabMutex
      (some (s.choosePage pg).1) s.aside
    rw [hs']
    refine ⟨H, S, f, ⟨hchoose, fun p hp => ?_⟩, ⟨Set.Subset.refl S, rfl, fun _ hp => hp,
      fun _ _ hc => ⟨hc, Nat.le_refl _⟩⟩⟩
    rw [← Option.some.inj hp]
    exact h.carvable _ hnew
  · rcases filed_remainder s H S f pg h old a s₀ s₁ hd hslab with
      ⟨new, H', S', g, hcur, hfiled, hcarve, hgrow, hin, hoff⟩
    have hid := listId_headerOk _ _ H' S' a (hfiled.headers a hin)
    have hcache := cache_mem_listHeads (some new) _ hid.1
    rcases filed_link s₁ H' S' _ g hfiled a hin (.cache (listId (s₁.header a).size)) hoff
      (hfiled.onHeads _ hcache).1 MemNode.noConfusion (Or.inl hcache)
      (fun i hi => by rw [← MemNode.cache.inj hi]; exact hid.2) with ⟨g', hg', _⟩
    rw [hs']
    refine ⟨H', S', g', ⟨?_, fun p hp => ?_⟩, ⟨hgrow.nodes, hgrow.start, hgrow.marks,
      fun p hp hc => ?_⟩⟩
    · have hfields := filed_fields _ H' S' _ g' hg' s₁.slabMutex s₁.slabPageCurrent aside
      rw [← hcur] at hfields
      exact hfields
    · rw [← Option.some.inj (hcur.symm.trans hp)]
      exact ⟨hcarve.node, hcarve.bound, hcarve.plain, hcarve.step, hcarve.room, hcarve.base⟩
    · rcases hgrow.carvable p hp hc with ⟨hc', hsize⟩
      exact ⟨⟨hc'.node, hc'.bound, hc'.plain, hc'.step, hc'.room, hc'.base⟩, hsize⟩

/-- The index of the remainder has a list. -/
theorem ids_updateSlabFreePage (id : Option Nat) (hid : id ∈ s.updateSlabFreePageIds pg)
    (hheader : ∀ old s₀ s₁, s.displaced pg = some (old, s₀) →
      s₀.getSlabFromPage old (s₀.mm.pageTable old).freeSize ≠ some (none, s₁)) :
    ∃ i < slabNode, id = some i := by
  unfold Slab.updateSlabFreePageIds at hid
  rcases hd : s.displaced pg with _ | ⟨old, s₀⟩
  · simp only [hd, List.not_mem_nil] at hid
  rcases hrun : s₀.getSlabFromPage old (s₀.mm.pageTable old).freeSize with _ | ⟨_ | a, s₁⟩
  · simp only [hd, hrun, List.not_mem_nil] at hid
  · exact absurd hrun (hheader old s₀ s₁ hd)
  simp only [hd, hrun, List.mem_singleton] at hid
  rcases filed_remainder s H S f pg h old a s₀ s₁ hd hrun with
    ⟨_, H', S', g, _, hfiled, _, _, hin, _⟩
  exact ⟨_, (listId_headerOk _ _ H' S' a (hfiled.headers a hin)).1, hid⟩

end

/-- What the search comes up with when it finds pages. -/
theorem chosen_get (mm : Mm) (count flag index : Nat) (z : ZoneId)
    (hz : zoneOfId (zoneIdOfFlag flag) = some z) (hfree : count ≤ (mm.zone z).freePages)
    (hfind : mm.findContinousPages (mm.zone z) count = some index) (hne : index ≠ 0) :
    chosen ⟨mm, []⟩ (.get count flag) = some ⟨z, index, count⟩ := by
  unfold chosen
  simp only [hz, Int.toNat_natCast, if_neg (Nat.not_lt.mpr hfree), hfind, if_neg hne]

/-- The pages of a request are all clear: a search for one page finds a clear one, and for
    longer requests this is the condition. -/
theorem took_clear (s : Slab) (mm : Mm) (size base : Nat) (hwords : 32 * s.mm.mapWords ≤ 2 ^ 20)
    (hclear : pageNr size = 1 ∨ s.clearRun size)
    (hget : s.mm.getFreePages (pageNr size) gfpKernel = some (base, mm)) :
    (base = 0 ∧ mm = s.mm) ∨ ∃ z index zone', base = s.mm.pageIdToVa index ∧
      Mm.Took s.mm mm z index (pageNr size) gfpKernel zone' ∧
      ∀ p, index ≤ p → p < index + pageNr size → used s.mm.pageMap p = false := by
  rcases Mm.getFreePages_cases s.mm mm _ gfpKernel base hget with
    ⟨hzero, hmm⟩ | ⟨z, index, hz, hfree, hfind, hne, haddr, htook⟩
  · exact Or.inl ⟨hzero, hmm⟩
  rw [Int.toNat_natCast] at hfree hfind htook
  refine Or.inr ⟨z, index, _, haddr, htook, fun p hlow hhigh => ?_⟩
  rcases hclear with hone | hclear
  · rw [hone] at hfind hhigh
    have hp : p = index := by omega
    rw [hp]
    exact findContinousPages_one s.mm _ index hwords hfind hne
  · have hchosen := chosen_get s.mm _ gfpKernel index z hz hfree hfind hne
    unfold Slab.clearRun at hclear
    exact hclear ⟨z, index, pageNr size⟩ hchosen p (List.mem_range'_1.mpr ⟨hlow, hhigh⟩)

/-- The pages of a request that was rounded up. -/
theorem pageNr_eq (size : Nat) (hhigh : size < 2 ^ 31 + 16) :
    pageNr size = (size + 4095) / 4096 := by
  have hround : baligin size pageSize = (size + 4095) / 4096 * 4096 :=
    Mm.baligin_eq size 12 (by omega) (by omega)
  unfold pageNr
  rw [hround]
  exact Nat.mul_div_cancel _ (by decide)

/-- The rounded size of a request, in pages and what is left for the last one. -/
theorem leaveSize_eq (size : Nat) (hlow : 0 < size) (hhigh : size < 2 ^ 31 + 16)
    (hstep : size % 16 = 0) (hpart : isAligin size pageSize = false) :
    1 ≤ pageNr size ∧ 16 ≤ Slab.leaveSize size ∧ Slab.leaveSize size ≤ slabMax ∧
      Slab.leaveSize size % 16 = 0 := by
  have hmask : size &&& 4095 = size % 4096 := Nat.and_two_pow_sub_one_eq_mod size 12
  unfold isAligin pageSize at hpart
  simp only [Nat.add_one_sub_one, hmask, decide_eq_false_iff_not] at hpart
  unfold Slab.leaveSize
  rw [pageNr_eq size hhigh]
  unfold slabMax slabNode slabStep pageSize slabHeaderSize
  omega

/-- What is known about the pages a call of `get_kernel_slab` took: their lists have been
    set up. -/
def RunListed (s : Slab) (S : Set MemNode) (base size : Nat) : Prop :=
  base ≠ 0 → ∀ k < pageNr size, MemNode.page (s.mm.vaToPageId base + k) ∈ S

/-- Taking the pages of a request. -/
theorem indexed_took (s : Slab) (H : Set Nat) (S : Set MemNode) (f : MemNode → List MemNode)
    (h : Indexed s H S f) (mm : Mm) (size base : Nat) (hclear : pageNr size = 1 ∨ s.clearRun size)
    (hget : s.mm.getFreePages (pageNr size) gfpKernel = some (base, mm)) :
    ∃ S' g, Indexed { s with mm := mm } H S' g ∧ S ⊆ S' ∧ RunListed s S' base size := by
  rcases took_clear s mm size base h.filed.words hclear hget with
    ⟨hzero, hmm⟩ | ⟨z, index, zone', haddr, htook, hrun⟩
  · rw [hmm]
    exact ⟨S, f, h, Set.Subset.refl S, fun hne => absurd hzero hne⟩
  refine ⟨_, _, ⟨filed_took s H S _ f h.filed mm z index _ _ zone' htook hrun, fun p hp => ?_⟩,
    Set.subset_union_left, fun _ k hk => ?_⟩
  · exact carvable_took s H S mm z index _ _ zone' htook p (h.current p hp)
  · have hid : s.mm.vaToPageId base = index := by
      rw [haddr]
      exact first_of_bound s.mm index _ h.filed.start h.filed.words (by omega) htook.bound
    rw [hid]
    exact Or.inr ((page_mem_runNodes index _ _).mpr (by omega))

/-- Writing the entries of the first and the last page of a new block. -/
theorem filed_markRun (s : Slab) (H : Set Nat) (S heads : Set MemNode)
    (f : MemNode → List MemNode) (h : Filed s H S heads f) (base size : Nat)
    (hfirst : s.mm.vaToPageId base ∉ H) (hlast : Slab.lastPage s.mm base size ∉ H) :
    Filed (s.markRun base size) H S heads f ∧ ∀ p, Carvable s.mm H S p →
      (1 < pageNr size → p ≠ s.mm.vaToPageId base) → Carvable (s.markRun base size).mm H S p ∧
        ((s.markRun base size).mm.pageTable p).freeSize = (s.mm.pageTable p).freeSize := by
  -- Opening a slab page writes a flag and a counter.
  have hopen : ∀ t : Slab, Filed t H S heads f →
      Filed (t.openSlabPage (Slab.lastPage s.mm base size)) H S heads f ∧
        ∀ p, Carvable t.mm H S p →
          Carvable (t.openSlabPage (Slab.lastPage s.mm base size)).mm H S p ∧
            ((t.openSlabPage (Slab.lastPage s.mm base size)).mm.pageTable p).freeSize
              = (t.mm.pageTable p).freeSize := by
    intro t ht
    refine ⟨filed_setPage t H S heads f ht _ _ (fun hc => absurd hc hlast), fun p hc => ⟨?_, ?_⟩⟩
    · apply carvable_setPage t.mm H S p _ _ _ hc
      intro hp
      rw [hp]
      exact ⟨rfl, rfl⟩
    · unfold Slab.openSlabPage Mm.setPage
      by_cases hp : p = Slab.lastPage s.mm base size
      · rw [hp]
        simp only [Function.update_self]
      · simp only [Function.update_of_ne hp]
  unfold Slab.markRun
  by_cases hmany : 1 < pageNr size
  · simp only [if_pos hmany]
    have hshort := filed_setPage s H S heads f h (s.mm.vaToPageId base)
      { s.mm.pageTable (s.mm.vaToPageId base) with
        count := ((s.mm.pageTable (s.mm.vaToPageId base)).count + 255) % 256
        freeBase := size - (pageNr size - 1) * pageSize } (fun hc => absurd hc hfirst)
    rcases hopen _ hshort with ⟨hfiled, hentries⟩
    refine ⟨hfiled, fun p hc hne => ?_⟩
    have hold := carvable_setPage s.mm H S p (s.mm.vaToPageId base)
      { s.mm.pageTable (s.mm.vaToPageId base) with
        count := ((s.mm.pageTable (s.mm.vaToPageId base)).count + 255) % 256
        freeBase := size - (pageNr size - 1) * pageSize } (fun hp => absurd hp (hne hmany)) hc
    rcases hentries p hold with ⟨hc', hsize⟩
    refine ⟨hc', hsize.trans ?_⟩
    simp only [Mm.setPage, Function.update_of_ne (hne hmany)]
  · simp only [if_neg hmany]
    rcases hopen s h with ⟨hfiled, hentries⟩
    exact ⟨hfiled, fun p hc _ => hentries p hc⟩

/-- The run of pages a new block is in, when its last page is opened: it was clear, and the
    opened page is the last one. -/
structure OpenedRun (s s₁ : Slab) (size pg : Nat) (mm : Mm) (base index : Nat) : Prop where
  get : s.mm.getFreePages (pageNr size) gfpKernel = some (base, mm)
  nonzero : base ≠ 0
  one : 1 ≤ pageNr size
  first : mm.vaToPageId base = index
  last : Slab.lastPage mm base size = pg
  page : pg = index + (pageNr size - 1)
  took : ∃ z zone', Mm.Took s.mm mm z index (pageNr size) gfpKernel zone'
  clear : ∀ p, index ≤ p → p < index + pageNr size → used s.mm.pageMap p = false
  state : Slab.markRun { s with mm := mm } base size = s₁

/-- Only a request that ends inside a page opens one. -/
theorem openedPage_part (s s₁ : Slab) (size pg : Nat) (h : s.openedPage size = some (pg, s₁)) :
    isAligin size pageSize = false := by
  unfold Slab.openedPage at h
  simp only [Option.pure_def, Option.bind_eq_bind, Option.bind_eq_some_iff, Prod.exists] at h
  rcases h with ⟨base, mm, _, h⟩
  by_contra hc
  rw [if_pos (Or.inl (by simpa only [Bool.not_eq_false] using hc))] at h
  exact Option.some_ne_none _ h.symm

/-- Opening the last page of a new run. -/
theorem openedPage_run (s s₁ : Slab) (hwords : 32 * s.mm.mapWords ≤ 2 ^ 20)
    (hstart : s.mm.kernelStart < u32Size) (size pg : Nat) (hlow : 0 < size)
    (hhigh : size < 2 ^ 31 + 16) (hstep : size % 16 = 0)
    (hclear : pageNr size = 1 ∨ s.clearRun size) (hopen : s.openedPage size = some (pg, s₁)) :
    ∃ mm base index, OpenedRun s s₁ size pg mm base index := by
  have hpart := openedPage_part s s₁ size pg hopen
  unfold Slab.openedPage at hopen
  simp only [Option.pure_def, Option.bind_eq_bind, Option.bind_eq_some_iff, Prod.exists] at hopen
  rcases hopen with ⟨base, mm, hget, hopen⟩
  by_cases hout : isAligin size pageSize = true ∨ base = 0
  · rw [if_pos hout] at hopen
    exact absurd hopen.symm (Option.some_ne_none _)
  rw [if_neg hout, Option.some.injEq, Prod.mk.injEq] at hopen
  rw [not_or] at hout
  rcases hopen with ⟨hpg, hs₁⟩
  rcases took_clear s mm size base hwords hclear hget with
    ⟨hzero, _⟩ | ⟨z, index, zone', haddr, htook, hrun⟩
  · exact absurd hzero hout.2
  have hone := (leaveSize_eq size hlow hhigh hstep hpart).1
  have hbound := htook.bound
  have hid : mm.vaToPageId base = index := by
    rw [haddr, vaToPageId_of_start s.mm mm htook.start]
    exact first_of_bound s.mm index _ hstart hwords (by omega) hbound
  -- The last page of the run, by its address.
  have hlast : Slab.lastPage mm base size = index + (pageNr size - 1) := by
    have hva : add32 base ((pageNr size - 1) * pageSize)
        = s.mm.pageIdToVa (index + (pageNr size - 1)) := by
      rw [haddr]
      unfold Mm.pageIdToVa add32 u32Size pageSize
      omega
    unfold Slab.lastPage
    rw [hva, vaToPageId_of_start s.mm mm htook.start]
    exact Mm.vaToPageId_pageIdToVa s.mm _ hstart (by omega)
  exact ⟨mm, base, index, ⟨hget, hout.2, hone, hid, hpg, hpg.symm.trans hlast, ⟨z, zone', htook⟩,
    hrun, hs₁⟩⟩

/-- Writing the entries of a new run leaves everything but the page table alone. -/
theorem markRun_fields (s : Slab) (base size : Nat) :
    (s.markRun base size).slabPageCurrent = s.slabPageCurrent ∧
      (s.markRun base size).mm.kernelStart = s.mm.kernelStart ∧
      (s.markRun base size).mm.pageMap = s.mm.pageMap ∧
      (s.markRun base size).header = s.header ∧ (s.markRun base size).aside = s.aside := by
  rcases Slab.markRun_frame s base size with ⟨table, htable⟩
  rw [htable]
  exact ⟨rfl, rfl, rfl, rfl, rfl⟩

/-- The page slices are cut from is opened: it has a list of its own and all its room. -/
theorem filed_openedPage (s s₁ : Slab) (H : Set Nat) (S : Set MemNode)
    (f : MemNode → List MemNode) (h : Indexed s H S f) (size pg : Nat) (hlow : 0 < size)
    (hhigh : size < 2 ^ 31 + 16) (hstep : size % 16 = 0)
    (hmarked : ∀ p, s.slabPageCurrent = some p → used s.mm.pageMap p = true)
    (hclear : pageNr size = 1 ∨ s.clearRun size) (hopen : s.openedPage size = some (pg, s₁)) :
    (∃ S' g, Filed s₁ H S' (insert (.page pg) (listHeads s.slabPageCurrent)) g ∧ S ⊆ S' ∧
      (∀ p, p = pg ∨ s.slabPageCurrent = some p → Carvable s₁.mm H S' p) ∧
      ∀ base mm, s.mm.getFreePages (pageNr size) gfpKernel = some (base, mm) →
        RunListed s S' base size) ∧
      (∀ p, p = pg ∨ s.slabPageCurrent = some p → used s₁.mm.pageMap p = true) ∧
      s₁.slabPageCurrent = s.slabPageCurrent ∧ s.slabPageCurrent ≠ some pg ∧
      s₁.mm.kernelStart = s.mm.kernelStart ∧ (s₁.mm.pageTable pg).freeSize = pageSize := by
  rcases openedPage_run s s₁ h.filed.words h.filed.start size pg hlow hhigh hstep hclear hopen with
    ⟨mm, base, index, hr⟩
  rcases hr.took with ⟨z, zone', htook⟩
  have hone := hr.one
  have hpage := hr.page
  have hlastClear := hr.clear pg (by omega) (by omega)
  have hindexClear := hr.clear index (Nat.le_refl _) (by omega)
  have hplain : ∀ p, used s.mm.pageMap p = false → p ∉ H :=
    fun p hp hc => ne_of_used _ p p (h.filed.marked p hc).2.1 hp rfl
  have hcurNe : ∀ p q, s.slabPageCurrent = some p → used s.mm.pageMap q = false → p ≠ q :=
    fun p q hp hq => ne_of_used _ p q (hmarked p hp) hq
  -- First the pages are taken, then the list of the last one is a ring, then two entries are
  -- written.
  have hfiled := filed_took s H S _ f h.filed mm z index _ _ zone' htook hr.clear
  have hnode : MemNode.page pg ∈ runNodes index (pageNr size) :=
    (page_mem_runNodes index _ _).mpr (by omega)
  have hself := freshLinks_in s.mm.links index (pageNr size) _ hnode
  rw [← htook.links] at hself
  have hinsert := filed_alone _ H _ _ _ hfiled {.page pg}
    (fun n hn => by
      rw [Set.mem_singleton_iff.mp hn]
      exact ⟨Or.inr hnode, _, rfl, hplain _ hlastClear⟩)
    (fun n hn hc => by
      rw [Set.mem_singleton_iff.mp hn] at hc
      have hcur := (filed_ringNodes _ H _ _ _ hfiled _ hc).2.2 _ rfl
      exact hcurNe _ _ ((page_mem_listHeads _ _).mp hcur) hlastClear rfl)
    (fun n hn => by
      rw [Set.mem_singleton_iff.mp hn]
      exact hself)
  rw [Set.singleton_union] at hinsert
  have hcarve : ∀ p, p = pg ∨ s.slabPageCurrent = some p →
      Carvable mm H (S ∪ runNodes index (pageNr size)) p ∧ (1 < pageNr size → p ≠ index) := by
    rintro p (hp | hp)
    · rw [hp]
      refine ⟨carvable_run s H S _ f h.filed mm z index _ _ zone' htook hr.clear _ (by omega)
        (by omega), fun hmany => by omega⟩
    · exact ⟨carvable_took s H S mm z index _ _ zone' htook p (h.current p hp),
        fun _ => hcurNe p index hp hindexClear⟩
  rcases filed_markRun _ H _ _ _ hinsert base size (hr.first ▸ hplain index hindexClear)
    (hr.last ▸ hplain pg hlastClear) with ⟨hmark, hentries⟩
  rcases markRun_fields { s with mm := mm } base size with ⟨hcur, hstart, hmap, _, _⟩
  rw [hr.state] at hmark hentries hcur hstart hmap
  refine ⟨⟨_, _, hmark, Set.subset_union_left, fun p hp => ?_, fun base' mm' hget' _ k hk => ?_⟩,
    fun p hp => ?_, hcur, ?_, hstart.trans htook.start, ?_⟩
  · rcases hcarve p hp with ⟨hc, hne⟩
    exact (hentries p hc (fun hmany => hr.first.symm ▸ hne hmany)).1
  · have hbase : base' = base := by
      rw [hr.get, Option.some.injEq, Prod.mk.injEq] at hget'
      exact hget'.1.symm
    rw [hbase, ← vaToPageId_of_start s.mm mm htook.start, hr.first]
    exact Or.inr ((page_mem_runNodes index _ _).mpr (by omega))
  · rw [hmap, htook.bits]
    rcases hp with hp | hp
    · rw [if_pos (by omega)]
    · split
      · rfl
      · exact hmarked p hp
  · exact fun hc => hcurNe _ _ hc hlastClear rfl
  · rcases hcarve _ (Or.inl rfl) with ⟨hc, hne⟩
    have hfresh := htook.table pg
    rw [if_pos (by omega)] at hfresh
    have hsize := (hentries _ hc (fun hmany => hr.first.symm ▸ hne hmany)).2
    rw [hsize]
    simp only [hfresh, Mm.freshPage]

/-- The page `get_kernel_slab` opens. -/
theorem openedPage_of_get (s : Slab) (size base : Nat) (mm : Mm)
    (hpart : isAligin size pageSize = false) (hne : base ≠ 0)
    (hget : s.mm.getFreePages (pageNr size) gfpKernel = some (base, mm)) :
    s.openedPage size
      = some (Slab.lastPage mm base size, Slab.markRun { s with mm := mm } base size) := by
  unfold Slab.openedPage
  simp only [hget, Option.pure_def, Option.bind_eq_bind, Option.bind_some, hpart,
    Bool.false_eq_true, hne, or_self, if_false]

theorem leaveSize_def (size : Nat) :
    Slab.leaveSize size = size - (pageNr size - 1) * pageSize := by
  unfold Slab.leaveSize
  rfl

/-- When the headers suffice there is one for the slice and one for the remainder. -/
theorem firstSlice_header (s : Slab) (size : Nat) (hheader : s.outOfHeaders size = false) (pg : Nat)
    (s₁ : Slab) (header : Option Nat) (s₂ : Slab) (hopen : s.openedPage size = some (pg, s₁))
    (hslice : s₁.getSlabFromPage pg (Slab.leaveSize size) = some (header, s₂)) :
    (∃ a, header = some a) ∧ s₂.remainderMissing pg = false := by
  unfold Slab.outOfHeaders at hheader
  rw [hopen, Option.any_some, hslice] at hheader
  rcases header with _ | a
  · exact absurd hheader Bool.true_eq_false.mp
  · exact ⟨⟨a, rfl⟩, hheader⟩

section

variable (s : Slab) (H : Set Nat) (S : Set MemNode) (f : MemNode → List MemNode)
  (h : Indexed s H S f) (size : Nat) (hlow : 0 < size) (hhigh : size < 2 ^ 31 + 16)
  (hstep : size % 16 = 0) (hclear : pageNr size = 1 ∨ s.clearRun size)

include h hlow hhigh hstep hclear

/-- The first slice is cut from the page that was opened. -/
theorem opened_firstSlice
    (hmarked : ∀ p, s.slabPageCurrent = some p → used s.mm.pageMap p = true) (pg a : Nat)
    (s₁ s₂ : Slab) (hopen : s.openedPage size = some (pg, s₁))
    (hslab : s₁.getSlabFromPage pg (Slab.leaveSize size) = some (some a, s₂)) :
    (∃ H' S' g, Opened s₂ H' S' g pg ∧ S ⊆ S' ∧
      ∀ base mm, s.mm.getFreePages (pageNr size) gfpKernel = some (base, mm) →
        RunListed s S' base size) ∧ s₂.mm.kernelStart = s.mm.kernelStart := by
  have hpart := openedPage_part s s₁ size pg hopen
  rcases leaveSize_eq size hlow hhigh hstep hpart with ⟨_, hleave, hmax, hleaveStep⟩
  rcases filed_openedPage s s₁ H S f h size pg hlow hhigh hstep hmarked hclear hopen with
    ⟨⟨S', g, hfiled, hsub, hcarve, hlisted⟩, hset, hcur, hother, hstart, hfull⟩
  rcases getSlabFromPage_some s₁ s₂ pg _ a hslab with ⟨s₃, hheader, hs₂⟩
  have hheads : ∀ p, MemNode.page p ∈ insert (MemNode.page pg) (listHeads s.slabPageCurrent) →
      used s₁.mm.pageMap p = true := fun p hp => hset p ((page_mem_opened _ pg p).mp hp)
  have hroom : Slab.leaveSize size ≤ (s₁.mm.pageTable pg).freeSize := by
    rw [hfull]
    unfold slabMax slabNode slabStep slabHeaderSize at hmax
    unfold pageSize at hmax ⊢
    omega
  rcases filed_cutSlice s₁ H S' _ g hfiled hheads pg _ a s₃ (hcarve pg (Or.inl rfl))
    (Set.mem_insert _ _) hleaveStep hleave hroom hmax hheader with
    ⟨hcur', hleft, _, H'', S'', g', hfiled', hgrow, _, _⟩
  rw [← hs₂] at hcur' hleft hfiled' hgrow
  have hsame : s₂.slabPageCurrent = s.slabPageCurrent := hcur'.trans hcur
  refine ⟨⟨H'', S'', g', ⟨hsame ▸ hfiled', fun p hp => ?_, fun p hp => ?_, hsame ▸ hother, ?_⟩,
    hsub.trans hgrow.nodes, fun base mm hget hne k hk => ?_⟩, hgrow.start.trans hstart⟩
  · rw [hsame] at hp
    exact hgrow.marks p (hset p hp)
  · rw [hsame] at hp
    exact (hgrow.carvable p (hset p hp) (hcarve p hp)).1
  · rw [hleft, hfull]
    unfold slabMax slabNode slabStep slabHeaderSize pageSize
    omega
  · exact hgrow.nodes (hlisted base mm hget hne k hk)

/-- A slice from a new page, or whole pages. -/
theorem indexed_getKernelSlab (s' : Slab) (ret : Nat)
    (hmarked : isAligin size pageSize = false →
      ∀ p, s.slabPageCurrent = some p → used s.mm.pageMap p = true)
    (hheader : s.outOfHeaders size = false)
    (hrun : s.getKernelSlab size gfpKernel = some (ret, s')) :
    (∃ H' S' g, Indexed s' H' S' g ∧ S ⊆ S' ∧ RunListed s S' ret size) ∧
      s'.mm.kernelStart = s.mm.kernelStart := by
  rcases Slab.getKernelSlab_cases s s' size gfpKernel ret hrun with
    ⟨mm, hget, ⟨_, hs'⟩ | ⟨hpart, hne, header, s₁, hslice, hupdate⟩⟩
  · rcases indexed_took s H S f h mm size ret hclear hget with ⟨S', g, hnew, hsub, hlisted⟩
    rw [hs']
    refine ⟨⟨H, S', g, hnew, hsub, hlisted⟩, ?_⟩
    rcases took_clear s mm size ret h.filed.words hclear hget with
      ⟨_, hmm⟩ | ⟨z, index, zone', _, htook, _⟩
    · rw [hmm]
    · exact htook.start
  have hopen := openedPage_of_get s size ret mm hpart hne hget
  rw [← leaveSize_def] at hslice
  rcases firstSlice_header s size hheader _ _ header s₁ hopen hslice with ⟨⟨a, ha⟩, _⟩
  subst ha
  rcases opened_firstSlice s H S f h size hlow hhigh hstep hclear (hmarked hpart) _ a _ s₁ hopen
    hslice with ⟨⟨H', S', g, hopened, hsub, hlisted⟩, hstart⟩
  rcases indexed_updateSlabFreePage s₁ H' S' g _ hopened s' hupdate with ⟨H'', S'', g', hnew, hgrow⟩
  exact ⟨⟨H'', S'', g', hnew, hsub.trans hgrow.nodes,
    fun hbase k hk => hgrow.nodes (hlisted ret mm hget hbase k hk)⟩, hgrow.start.trans hstart⟩

/-- Every index `get_kernel_slab` computes has a list. -/
theorem ids_getKernelSlab
    (hmarked : isAligin size pageSize = false →
      ∀ p, s.slabPageCurrent = some p → used s.mm.pageMap p = true)
    (hheader : s.outOfHeaders size = false) (id : Option Nat)
    (hid : id ∈ s.getKernelSlabIds size) : ∃ i < slabNode, id = some i := by
  unfold Slab.getKernelSlabIds at hid
  rcases hopen : s.openedPage size with _ | ⟨pg, s₁⟩
  · rw [hopen, Option.elim_none] at hid
    exact absurd hid List.not_mem_nil
  rw [hopen, Option.elim_some] at hid
  rcases hslice : s₁.getSlabFromPage pg (Slab.leaveSize size) with _ | ⟨header, s₂⟩
  · rw [hslice] at hid
    exact absurd hid List.not_mem_nil
  rw [hslice] at hid
  rcases firstSlice_header s size hheader pg s₁ header s₂ hopen hslice with ⟨⟨a, ha⟩, hmissing⟩
  subst ha
  have hpart := openedPage_part s s₁ size pg hopen
  rcases opened_firstSlice s H S f h size hlow hhigh hstep hclear (hmarked hpart) pg a s₁ s₂ hopen
    hslice with ⟨⟨H', S', g, hopened, _, _⟩, _⟩
  apply ids_updateSlabFreePage s₂ H' S' g pg hopened id hid
  intro old s₀ s₃ hd hnone
  unfold Slab.remainderMissing at hmissing
  simp only [hd, hnone, Bool.true_eq_false] at hmissing

end

end Mirros
