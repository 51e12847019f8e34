import Mirros.Theory.Slab.Index

/-!
# Each Cache List Has One Size

Runs of `kmalloc` and `kfree_kernel_mem`, for every size and every live block. Each index
of a cache list that is computed should be one of a list, and the headers on list `i`
should describe slices of `16 * (i + 1)` bytes.

This fails for a request just below a page. `__kmalloc` tells requests for slices from
requests for pages by the size before it is rounded up, so 4081 to 4095 bytes are looked
for on list 255, behind the last one. It also fails when the lists are torn, when pages in
use are taken a second time, and when there is no header. `indexOk` allows the calls that
reach none of these; `Shelved` is then an invariant.

## Main definitions

* `allocOk`, `sliceOk`, `freeOk`, `indexOk`: The calls that reach no defect.
* `IndexesOk`: The indices are in range and the lists have one size each.
* `Shelved`: The invariant of the runs.

## Theorems

* `doKmalloc_cases`: The three ways to an address.
* `shelved_call`: One call keeps the invariant.
* `cache_indices_inRange`: Over every run, the indices are in range.
* `cache_indices_inRange_fails`: A call that reads behind the lists.
-/

namespace Mirros

namespace Slab

/-- The request is small before it is rounded if and only if it is small after, the slice
    on its cache list is in order, the pages that may be taken are clear, and the headers
    suffice. -/
def allocOk (s : Slab) (size : Nat) : Prop :=
  (size < pageSize → size ≤ slabMax ∧ s.cachedOk (getNewAllocSize size gfpKernel)) ∧
    (pageSize ≤ size → s.clearRun (getNewAllocSize size gfpKernel) ∧
      (isAligin (getNewAllocSize size gfpKernel) pageSize = false →
        ∀ p ∈ s.slabPageCurrent, used s.mm.pageMap p = true)) ∧
    ∀ s' ∈ s.atNewSlab size, s'.outOfHeaders (getNewAllocSize size gfpKernel) = false

instance (s : Slab) (size : Nat) : Decidable (allocOk s size) :=
  inferInstanceAs (Decidable ((_ → _ ∧ _) ∧ (_ → _ ∧ (_ → _)) ∧ _))

/-- The neighbours of the header that `__kfree_slice_slab` finds know it, and no header
    page is released with the slice. -/
def sliceOk (s : Slab) (pg addr : Nat) : Prop :=
  match s.findHeader (.page pg) addr s.findHeaderFuel (s.mm.links.next (.page pg)) with
  | some (some header) => LinkedBack s.mm.links (.header header) ∧
      (((s.mm.pageTable pg).usage + 255) % 256 = 0 → sparesHeaders s.mm (s.mm.pageIdToVa pg))
  | _ => True

instance (s : Slab) (pg addr : Nat) : Decidable (sliceOk s pg addr) := by
  unfold sliceOk
  split <;> infer_instance

/-- The slice of the block is in order. For a block of whole pages, `free_pages` gives back
    no header page and the call goes on inside the block. -/
def freeOk (s : Slab) (addr size : Nat) : Prop :=
  if (s.mm.pageTable (s.mm.vaToPageId addr)).flag &&& gfpSlabBit ≠ 0 then
    s.sliceOk (s.mm.vaToPageId addr) addr
  else isAligin addr pageSize = true →
    sparesHeaders s.mm (s.pageEntry (s.mm.vaToPageId addr)) ∧
      (s.mm.pageTable (s.mm.vaToPageId addr)).count < pageNr (getNewAllocSize size gfpKernel) ∧
      s.sliceOk (s.lastOf (s.mm.vaToPageId addr))
        (s.mm.pageIdToVa (s.lastOf (s.mm.vaToPageId addr)))

instance (s : Slab) (addr size : Nat) : Decidable (freeOk s addr size) :=
  inferInstanceAs (Decidable (ite (_ ≠ 0) _ (_ → _ ∧ _ ∧ _)))

end Slab

/-- A call that reaches none of the defects. -/
def indexOk (s : KSession) (c : KCall) (addr : Nat) : Prop :=
  memoryCall s c addr ∧
    match c with
    | .alloc size => s.slab.allocOk size.toNat
    | .free b => s.slab.freeOk b.addr b.size

instance (s : KSession) (c : KCall) (addr : Nat) : Decidable (indexOk s c addr) :=
  match c with
  | .alloc size => inferInstanceAs (Decidable (memoryCall s (.alloc size) addr ∧
      s.slab.allocOk size.toNat))
  | .free b => inferInstanceAs (Decidable (memoryCall s (.free b) addr ∧
      s.slab.freeOk b.addr b.size))

/-- Each cache list has headers of its own size, and every index that is computed in an
    allowed call is the one of a list. -/
def IndexesOk (allowed : KSession → KCall → Nat → Prop) (s : KSession) : Prop :=
  (∀ i < slabNode, ∀ a n, s.slab.mm.links.next^[n] (.cache i) = .header a →
    (s.slab.header a).size = 16 * (i + 1)) ∧
    ∀ c addr, allowed s c addr → ∀ id ∈ s.listIds c, ∃ i < slabNode, id = some i

/-- The invariant of the runs: the lists of the pages of live blocks have been set up. -/
def Shelved (s : KSession) : Prop :=
  ∃ H S f, Indexed s.slab H S f ∧ (∀ b ∈ s.live, 1 ≤ b.size ∧ b.size < 2 ^ 31) ∧
    ∀ b ∈ s.live, ∀ k < pageNr (getNewAllocSize b.size gfpKernel),
      MemNode.page (s.slab.mm.vaToPageId b.addr + k) ∈ S

/-- The three ways to an address: from the cache list, from the current page, or from new
    pages. -/
theorem doKmalloc_cases (s s' : Slab) (size ret : Nat)
    (h : s.doKmalloc size gfpKernel = some (ret, s')) :
    (∃ s₁ s₂, s.lock = some s₁ ∧ size < pageSize ∧ ret ≠ 0 ∧ s' = s₂.unlock ∧
      (s₁.getSlabInList (getNewAllocSize size gfpKernel) gfpKernel = some (ret, s₂) ∨
        ∃ s₀, s₁.getSlabInList (getNewAllocSize size gfpKernel) gfpKernel = some (0, s₀) ∧
          s₀.getSlabFromPageFree (getNewAllocSize size gfpKernel) = some (ret, s₂))) ∨
    ∃ s₁ s₂, s.atNewSlab size = some s₁ ∧
      s₁.getKernelSlab (getNewAllocSize size gfpKernel) gfpKernel = some (ret, s₂) ∧
      s' = s₂.unlock := by
  unfold Slab.doKmalloc at h
  simp only [Option.pure_def, Option.bind_eq_bind, Option.bind_eq_some_iff] at h
  rcases h with ⟨s₁, hlock, h⟩
  have hnew : ∀ t : Slab, t.getNewSlab (getNewAllocSize size gfpKernel) gfpKernel
      = t.getKernelSlab (getNewAllocSize size gfpKernel) gfpKernel :=
    fun t => if_neg (by decide)
  by_cases hbig : pageSize ≤ size
  · rw [if_pos (Or.inr (Or.inr hbig)), Option.bind_eq_some_iff] at h
    rcases h with ⟨⟨a, s₂⟩, hget, h⟩
    simp only [Option.some.injEq, Prod.mk.injEq] at h
    rw [hnew, h.1] at hget
    refine Or.inr ⟨s₁, s₂, ?_, hget, h.2.symm⟩
    unfold Slab.atNewSlab
    simp only [hlock, Option.bind_eq_bind, Option.bind_some, if_pos hbig, Option.pure_def]
  have hsmall : ¬(gfpKernel = gfpDma ∨ gfpKernel = gfpRes ∨ pageSize ≤ size) := by
    rintro (hc | hc | hc)
    · exact absurd hc (by decide)
    · exact absurd hc (by decide)
    · exact hbig hc
  rw [if_neg hsmall] at h
  simp only [Option.bind_eq_some_iff, Prod.exists] at h
  rcases h with ⟨ret₂, s₂, hinList, h⟩
  by_cases hret₂ : ret₂ ≠ 0
  · rw [if_pos hret₂, Option.some.injEq, Prod.mk.injEq] at h
    rw [h.1] at hinList hret₂
    exact Or.inl ⟨s₁, s₂, hlock, by omega, hret₂, h.2.symm, Or.inl hinList⟩
  rw [if_neg hret₂] at h
  simp only [Option.bind_eq_some_iff, Prod.exists] at h
  rcases h with ⟨ret₃, s₃, hinPage, h⟩
  have hzero₂ : ret₂ = 0 := by omega
  subst hzero₂
  by_cases hret₃ : ret₃ ≠ 0
  · rw [if_pos hret₃, Option.some.injEq, Prod.mk.injEq] at h
    rw [h.1] at hinPage hret₃
    exact Or.inl ⟨s₁, s₃, hlock, by omega, hret₃, h.2.symm, Or.inr ⟨s₂, hinList, hinPage⟩⟩
  rw [if_neg hret₃] at h
  simp only [Option.bind_eq_some_iff, Prod.exists] at h
  rcases h with ⟨a, s₄, hget, h⟩
  rw [Option.some.injEq, Prod.mk.injEq] at h
  rw [hnew, h.1] at hget
  refine Or.inr ⟨s₃, s₄, ?_, hget, h.2.symm⟩
  unfold Slab.atNewSlab
  simp only [hlock, Option.bind_eq_bind, Option.bind_some, if_neg hbig, hinList, hinPage,
    ne_eq, not_true_eq_false, if_false, if_neg hret₃, Option.pure_def]

/-- The size of a request, rounded up. -/
theorem request_round (size : Nat) (hlow : 1 ≤ size) (hhigh : size < 2 ^ 31) :
    16 ≤ getNewAllocSize size gfpKernel ∧ getNewAllocSize size gfpKernel < 2 ^ 31 + 16 ∧
      getNewAllocSize size gfpKernel % 16 = 0 ∧ (size ≤ slabMax →
        getNewAllocSize size gfpKernel ≤ slabMax ∧ pageNr (getNewAllocSize size gfpKernel) = 1) := by
  rcases Slab.pageNr_whole size hhigh with ⟨hpages, hround⟩
  rw [hpages, hround]
  unfold slabMax slabNode slabStep pageSize slabHeaderSize
  omega

section

variable (s : Slab) (H : Set Nat) (S : Set MemNode) (f : MemNode → List MemNode)
  (h : Indexed s H S f) (size : Nat) (hlow : 1 ≤ size) (hhigh : size < 2 ^ 31)
  (hok : s.allocOk size)

include h

/-- The lock word is no part of the lists. -/
theorem indexed_mutex (mutex : Nat) : Indexed { s with slabMutex := mutex } H S f := by
  refine ⟨filed_fields s H S _ f h.filed mutex s.slabPageCurrent s.aside, fun p hp => ?_⟩
  have hc := h.current p hp
  exact ⟨hc.node, hc.bound, hc.plain, hc.step, hc.room, hc.base⟩

include hlow hhigh hok

/-- A small request, up to the cache list and the current page. -/
theorem indexed_small (s₁ s₂ : Slab) (hsmall : size < pageSize) (hlock : s.lock = some s₁)
    (ret : Nat)
    (hrun : s₁.getSlabInList (getNewAllocSize size gfpKernel) gfpKernel = some (ret, s₂)) :
    (∃ g, Indexed s₂ H S g) ∧ s₂.mm.kernelStart = s.mm.kernelStart ∧
      (ret ≠ 0 → MemNode.page (s.mm.vaToPageId ret) ∈ S) := by
  rcases hok.1 hsmall with ⟨hmax, hcached⟩
  rcases request_round size hlow hhigh with ⟨hlow', _, hstep', hround⟩
  have hlist : listId (getNewAllocSize size gfpKernel) < slabNode := by
    have hhigh' := (hround hmax).1
    unfold slabMax slabNode slabStep pageSize slabHeaderSize at hhigh'
    unfold listId slabNode pageSize slabHeaderSize
    omega
  have hs₁ := (Slab.lock_cases s s₁ hlock).2
  subst hs₁
  exact indexed_getSlabInList _ s₂ H S f (indexed_mutex s H S f h 1) _ ret hlist hcached hrun

/-- The current page, after the cache list gave nothing. -/
theorem indexed_page (s₁ s₂ s₃ : Slab) (hsmall : size < pageSize) (hlock : s.lock = some s₁)
    (hnone : s₁.getSlabInList (getNewAllocSize size gfpKernel) gfpKernel = some (0, s₂))
    (ret : Nat) (hrun : s₂.getSlabFromPageFree (getNewAllocSize size gfpKernel) = some (ret, s₃)) :
    (∃ H' S' g, Indexed s₃ H' S' g ∧ S ⊆ S' ∧
      (ret ≠ 0 → MemNode.page (s.mm.vaToPageId ret) ∈ S')) ∧
      s₃.mm.kernelStart = s.mm.kernelStart ∧
      ∀ p, s₃.slabPageCurrent = some p → used s₃.mm.pageMap p = true := by
  rcases indexed_small s H S f h size hlow hhigh hok s₁ s₂ hsmall hlock 0 hnone with
    ⟨⟨g, hg⟩, hstart, _⟩
  rcases request_round size hlow hhigh with ⟨hlow', _, hstep', hround⟩
  rcases indexed_getSlabFromPageFree s₂ s₃ H S g hg _ ret hstep' hlow'
    (hround (hok.1 hsmall).1).1 hrun with ⟨⟨H', S', g', hnew, hsub, hret⟩, hstart', hmarked⟩
  refine ⟨⟨H', S', g', hnew, hsub, fun hne => ?_⟩, hstart'.trans hstart, hmarked⟩
  rw [← vaToPageId_of_start s.mm s₂.mm hstart]
  exact hret hne

/-- The state in which new pages are looked for. -/
theorem indexed_atNewSlab (s₁ : Slab) (hrun : s.atNewSlab size = some s₁) :
    (∃ H' S' g, Indexed s₁ H' S' g ∧ S ⊆ S') ∧ s₁.mm.kernelStart = s.mm.kernelStart ∧
      (isAligin (getNewAllocSize size gfpKernel) pageSize = false →
        ∀ p, s₁.slabPageCurrent = some p → used s₁.mm.pageMap p = true) ∧
      (pageNr (getNewAllocSize size gfpKernel) = 1 ∨
        s₁.clearRun (getNewAllocSize size gfpKernel)) := by
  unfold Slab.atNewSlab at hrun
  simp only [Option.pure_def, Option.bind_eq_bind, Option.bind_eq_some_iff] at hrun
  rcases hrun with ⟨s₂, hlock, hrun⟩
  by_cases hbig : pageSize ≤ size
  · rw [if_pos hbig, Option.some.injEq] at hrun
    rcases hok.2.1 hbig with ⟨hclear, hmarked⟩
    have hs₂ := (Slab.lock_cases s s₂ hlock).2
    rw [← hrun]
    subst hs₂
    exact ⟨⟨H, S, f, indexed_mutex s H S f h 1, Set.Subset.refl S⟩, rfl, hmarked, Or.inr hclear⟩
  rw [if_neg hbig] at hrun
  simp only [Option.bind_eq_some_iff, Prod.exists] at hrun
  rcases hrun with ⟨ret, s₃, hinList, hrun⟩
  by_cases hret : ret ≠ 0
  · rw [if_pos hret] at hrun
    exact absurd hrun.symm (Option.some_ne_none _)
  rw [if_neg hret] at hrun
  have hzero : ret = 0 := by omega
  subst hzero
  simp only [Option.bind_eq_some_iff, Prod.exists] at hrun
  rcases hrun with ⟨ret', s₄, hinPage, hrun⟩
  by_cases hret' : ret' ≠ 0
  · rw [if_pos hret'] at hrun
    exact absurd hrun.symm (Option.some_ne_none _)
  rw [if_neg hret', Option.some.injEq] at hrun
  have hsmall : size < pageSize := by omega
  rcases indexed_page s H S f h size hlow hhigh hok s₂ s₃ s₄ hsmall hlock hinList ret' hinPage with
    ⟨⟨H', S', g, hnew, hsub, _⟩, hstart, hmarked⟩
  rw [← hrun]
  exact ⟨⟨H', S', g, hnew, hsub⟩, hstart, fun _ => hmarked,
    Or.inl ((request_round size hlow hhigh).2.2.2 (hok.1 hsmall).1).2⟩

/-- `__kmalloc` keeps the headers filed, and the lists of the pages of the new block have
    been set up. -/
theorem indexed_doKmalloc (s' : Slab) (ret : Nat)
    (hrun : s.doKmalloc size gfpKernel = some (ret, s')) :
    (∃ H' S' g, Indexed s' H' S' g ∧ S ⊆ S' ∧
      RunListed s S' ret (getNewAllocSize size gfpKernel)) ∧
      s'.mm.kernelStart = s.mm.kernelStart := by
  rcases request_round size hlow hhigh with ⟨hlow', hhigh', hstep', hround⟩
  rcases doKmalloc_cases s s' size ret hrun with
    ⟨s₁, s₂, hlock, hsmall, _, hs', hpath⟩ | ⟨s₁, s₂, hnew, hget, hs'⟩
  · have hone := (hround (hok.1 hsmall).1).2
    have hsingle : ∀ S' : Set MemNode, (ret ≠ 0 → MemNode.page (s.mm.vaToPageId ret) ∈ S') →
        RunListed s S' ret (getNewAllocSize size gfpKernel) := by
      intro S' hin hne k hk
      rw [hone] at hk
      have hk : k = 0 := by omega
      rw [hk]
      exact hin hne
    rw [hs']
    rcases hpath with hinList | ⟨s₀, hinList, hinPage⟩
    · rcases indexed_small s H S f h size hlow hhigh hok s₁ s₂ hsmall hlock ret hinList with
        ⟨⟨g, hg⟩, hstart, hin⟩
      exact ⟨⟨H, S, g, indexed_mutex s₂ H S g hg 0, Set.Subset.refl S, hsingle S hin⟩, hstart⟩
    · rcases indexed_page s H S f h size hlow hhigh hok s₁ s₀ s₂ hsmall hlock hinList ret
        hinPage with ⟨⟨H', S', g, hg, hsub, hin⟩, hstart, _⟩
      exact ⟨⟨H', S', g, indexed_mutex s₂ H' S' g hg 0, hsub, hsingle S' hin⟩, hstart⟩
  · rcases indexed_atNewSlab s H S f h size hlow hhigh hok s₁ hnew with
      ⟨⟨H', S', g, hg, hsub⟩, hstart, hmarked, hclear⟩
    rcases indexed_getKernelSlab s₁ H' S' g hg _ (by omega) hhigh' hstep' hclear s₂ ret hmarked
      (hok.2.2 s₁ hnew) hget with ⟨⟨H'', S'', g', hg', hsub', hlisted⟩, hstart'⟩
    rw [hs']
    refine ⟨⟨H'', S'', g', indexed_mutex s₂ H'' S'' g' hg' 0, hsub.trans hsub', fun hne k hk => ?_⟩,
      hstart'.trans hstart⟩
    rw [← vaToPageId_of_start s.mm s₁.mm hstart]
    exact hlisted hne k hk

/-- Every index `__kmalloc` computes has a list. -/
theorem ids_kmalloc (id : Option Nat) (hid : id ∈ s.kmallocIds size) :
    ∃ i < slabNode, id = some i := by
  rcases request_round size hlow hhigh with ⟨hlow', hhigh', hstep', hround⟩
  unfold Slab.kmallocIds at hid
  rcases List.mem_append.mp hid with hid | hid
  · by_cases hsmall : s.slabMutex = 0 ∧ size < pageSize
    · rw [if_pos hsmall, List.mem_singleton] at hid
      refine ⟨_, ?_, hid⟩
      have hmax := (hround (hok.1 hsmall.2).1).1
      unfold slabMax slabNode slabStep pageSize slabHeaderSize at hmax
      unfold listId slabNode pageSize slabHeaderSize
      omega
    · rw [if_neg hsmall] at hid
      exact absurd hid List.not_mem_nil
  · rcases hnew : s.atNewSlab size with _ | s₁
    · simp only [hnew, List.not_mem_nil] at hid
    simp only [hnew] at hid
    rcases indexed_atNewSlab s H S f h size hlow hhigh hok s₁ hnew with
      ⟨⟨H', S', g, hg, _⟩, _, hmarked, hclear⟩
    exact ids_getKernelSlab s₁ H' S' g hg _ (by omega) hhigh' hstep' hclear hmarked
      (hok.2.2 s₁ hnew) id hid

end

section

variable (s : Slab) (H : Set Nat) (S : Set MemNode) (f : MemNode → List MemNode)
  (h : Indexed s H S f) (pg addr : Nat) (hpage : MemNode.page pg ∈ S)

include h hpage

/-- The header that `__kfree_slice_slab` finds is in use. -/
theorem found_inUse (a : Nat)
    (hfind : s.findHeader (.page pg) addr s.findHeaderFuel (s.mm.links.next (.page pg))
      = some (some a)) : MemNode.header a ∈ S :=
  findHeader_mem s S h.filed.closed _ _ a _ _ (h.filed.closed _ hpage).1 hfind

/-- Every index `__kfree_slice_slab` computes has a list. -/
theorem ids_kfreeSlice (id : Option Nat) (hid : id ∈ s.kfreeSliceSlabIds pg addr) :
    ∃ i < slabNode, id = some i := by
  unfold Slab.kfreeSliceSlabIds at hid
  rcases hfind : s.findHeader (.page pg) addr s.findHeaderFuel (s.mm.links.next (.page pg)) with
    _ | _ | a
  · simp only [hfind, List.not_mem_nil] at hid
  · simp only [hfind, List.not_mem_nil] at hid
  · simp only [hfind, List.mem_singleton] at hid
    have ha := h.filed.headers a (found_inUse s H S f h pg addr hpage a hfind)
    exact ⟨_, (listId_headerOk _ _ H S a ha).1, hid⟩

/-- `__kfree_slice_slab` moves the header to its cache list. -/
theorem indexed_kfreeSlice (s' : Slab) (hok : s.sliceOk pg addr)
    (hrun : s.kfreeSliceSlab pg addr = some s') :
    (∃ g, Indexed s' H S g) ∧ s'.mm.kernelStart = s.mm.kernelStart := by
  unfold Slab.kfreeSliceSlab at hrun
  simp only [Option.pure_def, Option.bind_eq_bind, Option.bind_eq_some_iff] at hrun
  rcases hrun with ⟨found, hfind, hrun⟩
  rcases found with _ | a
  · simp only [Option.some.injEq] at hrun
    rw [← hrun]
    exact ⟨⟨f, h⟩, rfl⟩
  simp only [Option.bind_eq_some_iff, Option.some.injEq] at hrun
  rcases hrun with ⟨mm', hput, hrun⟩
  unfold Slab.sliceOk at hok
  simp only [hfind] at hok
  have hin := found_inUse s H S f h pg addr hpage a hfind
  rcases filed_unlink s H S _ f h.filed a hin (fun _ => hok.1) with ⟨g, hg, hoff⟩
  have hid := listId_headerOk _ _ H S a (hg.headers a hin)
  have hcache := cache_mem_listHeads s.slabPageCurrent _ hid.1
  rcases filed_link _ H S _ g hg a hin (.cache (listId (s.header a).size)) hoff
    (hg.onHeads _ hcache).1 MemNode.noConfusion (Or.inl hcache)
    (fun i hi => by rw [← MemNode.cache.inj hi]; exact hid.2) with ⟨g', hg', _⟩
  rcases filed_pagePut _ H S _ g' hg' pg mm' hput hok.2 with ⟨hput', hstart, hcarve⟩
  rw [← hrun]
  refine ⟨⟨g', hput', fun p hp => hcarve p ?_⟩, hstart⟩
  have hc := h.current p hp
  exact ⟨hc.node, hc.bound, hc.plain, hc.step, hc.room, hc.base⟩

end

/-- The search depends on the list nodes and the headers only. -/
theorem findHeader_congr (s s' : Slab) (hlinks : s'.mm.links = s.mm.links)
    (hheader : s'.header = s.header) (head : MemNode) (addr fuel : Nat) : ∀ list : MemNode,
      s'.findHeader head addr fuel list = s.findHeader head addr fuel list := by
  induction fuel with
  | zero => exact fun _ => rfl
  | succ fuel ih =>
      intro list
      unfold Slab.findHeader
      cases list with
      | header a => simp only [hlinks, hheader, ih]
      | _ => rfl

/-- Locking and giving pages back do not change which slice is found, nor whether it is in
    order. -/
theorem sliceOk_congr (s s' : Slab) (pg addr : Nat) (hheader : s'.header = s.header)
    (htotal : s'.table = s.table) (hstart : s'.mm.kernelStart = s.mm.kernelStart)
    (hlinks : s'.mm.links = s.mm.links) (htable : s'.mm.pageTable = s.mm.pageTable) :
    s'.sliceOk pg addr ↔ s.sliceOk pg addr := by
  have hfuel : s'.findHeaderFuel = s.findHeaderFuel := by
    unfold Slab.findHeaderFuel
    rw [htotal]
  unfold Slab.sliceOk sparesHeaders
  simp only [findHeader_congr s s' hlinks hheader, hfuel, hlinks, htable,
    vaToPageId_of_start s.mm s'.mm hstart, pageIdToVa_of_start s.mm s'.mm hstart]

section

variable (s : Slab) (H : Set Nat) (S : Set MemNode) (f : MemNode → List MemNode)
  (h : Indexed s H S f) (addr size : Nat) (hlow : 1 ≤ size) (hhigh : size < 2 ^ 31)
  (hlisted : ∀ k < pageNr (getNewAllocSize size gfpKernel),
    MemNode.page (s.mm.vaToPageId addr + k) ∈ S) (hok : s.freeOk addr size)

include hlow hhigh hlisted

/-- The list of the first page of the block has been set up. -/
theorem listed_first : MemNode.page (s.mm.vaToPageId addr) ∈ S := by
  rcases Slab.pageNr_whole size hhigh with ⟨hpages, hround⟩
  have hfirst := hlisted 0 (by omega)
  rw [Nat.add_zero] at hfirst
  exact hfirst

include h hok

omit hlow hhigh in
/-- After `free_pages`, the call goes on inside the block. -/
theorem indexed_kfreePages (hslab : ¬(s.mm.pageTable (s.mm.vaToPageId addr)).flag &&& gfpSlabBit ≠ 0)
    (hal : isAligin addr pageSize = true) (mm : Mm)
    (hfree : s.mm.freePages (s.pageEntry (s.mm.vaToPageId addr)) = some mm) :
    Indexed { s with mm := mm } H S f ∧ mm.kernelStart = s.mm.kernelStart ∧
      MemNode.page (s.lastOf (s.mm.vaToPageId addr)) ∈ S ∧
      Slab.sliceOk { s with mm := mm } (s.lastOf (s.mm.vaToPageId addr))
        (s.mm.pageIdToVa (s.lastOf (s.mm.vaToPageId addr))) := by
  unfold Slab.freeOk at hok
  rw [if_neg hslab] at hok
  rcases hok hal with ⟨hspare, hcount, hslice⟩
  rcases filed_freePages s H S _ f h.filed _ mm hfree hspare with
    ⟨hfiled, hstart, hlinks, htable, hwords⟩
  refine ⟨⟨hfiled, fun p hp => ?_⟩, hstart, hlisted _ hcount, ?_⟩
  · have hc := h.current p hp
    exact ⟨hc.node, hwords.symm ▸ hc.bound, hc.plain, htable.symm ▸ hc.step, htable.symm ▸ hc.room,
      by rw [htable, pageIdToVa_of_start s.mm mm hstart]; exact hc.base⟩
  · exact (sliceOk_congr s { s with mm := mm } _ _ rfl rfl hstart hlinks htable).mpr hslice

omit h hlow hhigh hlisted in
/-- The lock word is not looked at. -/
theorem freeOk_mutex (mutex : Nat) : Slab.freeOk { s with slabMutex := mutex } addr size := by
  have hsame := fun pg a => sliceOk_congr s { s with slabMutex := mutex } pg a rfl rfl rfl rfl rfl
  unfold Slab.freeOk at hok ⊢
  simp only [hsame]
  exact hok

/-- `kfree_kernel_mem` keeps the headers filed. -/
theorem indexed_kfreeKernelMem (s' : Slab) (hrun : s.kfreeKernelMem addr = some s') :
    (∃ g, Indexed s' H S g) ∧ s'.mm.kernelStart = s.mm.kernelStart := by
  have hfirst := listed_first s S addr size hlow hhigh hlisted
  unfold Slab.kfreeKernelMem at hrun
  simp only [Option.pure_def, Option.bind_eq_bind, Option.bind_eq_some_iff] at hrun
  rcases hrun with ⟨s₁, hlock, hrun⟩
  have hs₁ := (Slab.lock_cases s s₁ hlock).2
  have h₁ := indexed_mutex s H S f h 1
  subst hs₁
  by_cases hslab : (s.mm.pageTable (s.mm.vaToPageId addr)).flag &&& gfpSlabBit ≠ 0
  · rw [if_pos hslab] at hrun
    simp only [Option.bind_eq_some_iff, Option.some.injEq] at hrun
    rcases hrun with ⟨s₂, hslice, hs'⟩
    unfold Slab.freeOk at hok
    rw [if_pos hslab] at hok
    have hok₁ := (sliceOk_congr s { s with slabMutex := 1 } _ addr rfl rfl rfl rfl rfl).mpr hok
    rcases indexed_kfreeSlice _ H S f h₁ _ addr hfirst s₂ hok₁ hslice with ⟨⟨g, hg⟩, hstart⟩
    rw [← hs']
    exact ⟨⟨g, indexed_mutex s₂ H S g hg 0⟩, hstart⟩
  rw [if_neg hslab] at hrun
  by_cases hal : isAligin addr pageSize = true
  swap
  · rw [if_pos (by rw [Bool.not_eq_true', ← Bool.not_eq_true]; exact hal), Option.some.injEq] at hrun
    rw [← hrun]
    exact ⟨⟨f, h₁⟩, rfl⟩
  rw [if_neg (by rw [hal]; exact Bool.false_ne_true)] at hrun
  simp only [Option.bind_eq_some_iff, Option.some.injEq, Slab.kfreePageSlab,
    Option.bind_eq_bind] at hrun
  rcases hrun with ⟨s₂, ⟨mm, hfree, hslice⟩, hs'⟩
  rcases indexed_kfreePages _ H S f h₁ addr size hlisted
    (freeOk_mutex s addr size hok 1) hslab hal mm hfree with ⟨hpages, hstart, hlast, hslice'⟩
  rw [pageIdToVa_of_start s.mm mm hstart] at hslice
  rcases indexed_kfreeSlice _ H S f hpages _ _ hlast s₂ hslice' hslice with ⟨⟨g, hg⟩, hstart'⟩
  rw [← hs']
  exact ⟨⟨g, indexed_mutex s₂ H S g hg 0⟩, hstart'.trans hstart⟩

/-- Every index `kfree_kernel_mem` computes has a list. -/
theorem ids_kfreeKernelMem (id : Option Nat) (hid : id ∈ s.kfreeKernelMemIds addr) :
    ∃ i < slabNode, id = some i := by
  have hfirst := listed_first s S addr size hlow hhigh hlisted
  unfold Slab.kfreeKernelMemIds at hid
  rcases hlock : s.lock with _ | s₁
  · simp only [hlock, List.not_mem_nil] at hid
  have hs₁ := (Slab.lock_cases s s₁ hlock).2
  have h₁ := indexed_mutex s H S f h 1
  simp only [hlock] at hid
  subst hs₁
  by_cases hslab : (s.mm.pageTable (s.mm.vaToPageId addr)).flag &&& gfpSlabBit ≠ 0
  · rw [if_pos hslab] at hid
    exact ids_kfreeSlice _ H S f h₁ _ addr hfirst id hid
  rw [if_neg hslab] at hid
  by_cases hal : isAligin addr pageSize = true
  swap
  · rw [if_pos (by rw [Bool.not_eq_true', ← Bool.not_eq_true]; exact hal)] at hid
    exact absurd hid List.not_mem_nil
  rw [if_neg (by rw [hal]; exact Bool.false_ne_true)] at hid
  rcases hfree : s.mm.freePages (s.pageEntry (s.mm.vaToPageId addr)) with _ | mm
  · have hnone : Mm.freePages s.mm (Slab.pageEntry { s with slabMutex := 1 }
        (s.mm.vaToPageId addr)) = none := hfree
    simp only [hnone, List.not_mem_nil] at hid
  have hsome : Mm.freePages s.mm (Slab.pageEntry { s with slabMutex := 1 }
      (s.mm.vaToPageId addr)) = some mm := hfree
  simp only [hsome] at hid
  rcases indexed_kfreePages _ H S f h₁ addr size hlisted
    (freeOk_mutex s addr size hok 1) hslab hal mm hsome with ⟨hpages, hstart, hlast, _⟩
  exact ids_kfreeSlice _ H S f hpages _ _ hlast id hid

end

/-- After `slab_init` the cache lists are empty and there is no current page. -/
theorem indexed_slabInit (mm : Mm) (header : Nat → SlabHeader)
    (hwords : 32 * mm.mapWords ≤ 2 ^ 20) (hstart : mm.kernelStart < u32Size) :
    Indexed (Slab.slabInit mm header) ∅ { n | n = .tableList ∨ ∃ i < slabNode, n = .cache i }
      (fun _ => []) := by
  have hloop := foldl_initList_cache mm.links slabNode
  have hcache : ∀ i < slabNode, (Slab.slabInit mm header).mm.links.next (.cache i) = .cache i ∧
      (Slab.slabInit mm header).mm.links.pre (.cache i) = .cache i := by
    intro i hi
    have hne : MemNode.cache i ≠ .tableList ∧ MemNode.cache i ≠ .freeHeader :=
      ⟨MemNode.noConfusion, MemNode.noConfusion⟩
    unfold Slab.slabInit
    rw [initList_next, initList_pre, initList_next, initList_pre, if_neg hne.2, if_neg hne.1,
      if_neg hne.2, if_neg hne.1]
    exact hloop i hi
  have htable : (Slab.slabInit mm header).mm.links.next .tableList = .tableList ∧
      (Slab.slabInit mm header).mm.links.pre .tableList = .tableList := by
    unfold Slab.slabInit
    rw [initList_next, initList_pre, initList_next, initList_pre]
    exact ⟨rfl, rfl⟩
  have hheads : ∀ n ∈ listHeads (Slab.slabInit mm header).slabPageCurrent,
      ∃ i < slabNode, n = .cache i := by
    rintro n (hn | ⟨p, hp, _⟩)
    · exact hn
    · exact absurd hp.symm (Option.some_ne_none p)
  refine ⟨⟨hwords, hstart, ?_, ?_, ?_, Or.inl rfl, fun a ha => ?_, fun p hp => ?_, fun i hi => ?_,
    ⟨fun n hn => ?_, fun n hn n' hn' hne m hm hm' => ?_⟩, cache_mem_listHeads _, fun n hn => ?_,
    fun _ _ m hm => absurd hm List.not_mem_nil, fun _ _ _ ha => absurd ha List.not_mem_nil,
    fun a ha => ?_, fun q hq => absurd hq (Set.notMem_empty q), fun q hq => ?_⟩, fun p hp => ?_⟩
  · rintro n (hn | ⟨i, hi, hn⟩)
    · rw [hn, htable.1, htable.2]
      exact ⟨Or.inl rfl, Or.inl rfl⟩
    · rw [hn, (hcache i hi).1, (hcache i hi).2]
      exact ⟨Or.inr ⟨i, hi, rfl⟩, Or.inr ⟨i, hi, rfl⟩⟩
  · rintro (hc | ⟨i, _, hc⟩)
    · exact MemNode.noConfusion hc
    · exact MemNode.noConfusion hc
  · simp only [Slab.slabInit, initList_next, if_true]
  · exact MemNode.noConfusion (htable.1.symm.trans ha)
  · exact MemNode.noConfusion (htable.1.symm.trans hp)
  · exact MemNode.noConfusion (htable.1.symm.trans hi)
  · rcases hheads n hn with ⟨i, hi, hn⟩
    rw [hn]
    refine ⟨List.nodup_singleton _, ?_⟩
    exact List.isChain_cons_cons.mpr ⟨hcache i hi, List.isChain_singleton _⟩
  · exact hne ((List.mem_singleton.mp hm).symm.trans (List.mem_singleton.mp hm'))
  · rcases hheads n hn with ⟨i, hi, hn⟩
    exact ⟨Or.inr ⟨i, hi, hn⟩, Or.inl ⟨i, hi, hn⟩⟩
  · rcases ha with ha | ⟨i, _, ha⟩
    · exact MemNode.noConfusion ha
    · exact MemNode.noConfusion ha
  · exact absurd hq.symm (Option.some_ne_none q)
  · exact absurd hp.symm (Option.some_ne_none p)

/-- One call keeps the invariant. -/
theorem shelved_call (s s' : KSession) (c : KCall) (addr : Nat) (h : Shelved s)
    (hc : indexOk s c addr) (hcall : s.call c = some (addr, s')) : Shelved s' := by
  rcases h with ⟨H, S, f, hindexed, hsizes, hlive⟩
  cases c with
  | alloc size =>
      rcases hc with ⟨⟨hlow, hhigh⟩, hok⟩
      simp only [KSession.call, Option.pure_def, Option.bind_eq_bind, Option.bind_eq_some_iff,
        Option.some.injEq, Prod.mk.injEq, Prod.exists] at hcall
      rcases hcall with ⟨ret, slab, hrun, _, hs'⟩
      unfold Slab.kmalloc at hrun
      rw [if_neg (by omega), if_neg (by decide)] at hrun
      rcases indexed_doKmalloc s.slab H S f hindexed size.toNat (by omega) (by omega) hok slab ret
        hrun with ⟨⟨H', S', g, hnew, hsub, hlisted⟩, hstart⟩
      have hold : ∀ b ∈ s.live, ∀ k < pageNr (getNewAllocSize b.size gfpKernel),
          MemNode.page (slab.mm.vaToPageId b.addr + k) ∈ S' := by
        intro b hb k hk
        rw [vaToPageId_of_start s.slab.mm slab.mm hstart]
        exact hsub (hlive b hb k hk)
      rw [← hs']
      by_cases hzero : ret = 0
      · simp only [if_pos hzero]
        exact ⟨H', S', g, hnew, hsizes, hold⟩
      · simp only [if_neg hzero]
        refine ⟨H', S', g, hnew, fun b hb => ?_, fun b hb k hk => ?_⟩
        · rcases List.mem_cons.mp hb with hb | hb
          · rw [hb]
            simp only
            omega
          · exact hsizes b hb
        · rcases List.mem_cons.mp hb with hb | hb
          · rw [hb] at hk ⊢
            rw [vaToPageId_of_start s.slab.mm slab.mm hstart]
            exact hlisted hzero k hk
          · exact hold b hb k hk
  | free b =>
      rcases hc with ⟨hb, hok⟩
      simp only [KSession.call, Option.pure_def, Option.bind_eq_bind, Option.bind_eq_some_iff,
        Option.some.injEq, Prod.mk.injEq] at hcall
      rcases hcall with ⟨slab, hrun, _, hs'⟩
      rcases hsizes b hb with ⟨hlow, hhigh⟩
      rcases indexed_kfreeKernelMem s.slab H S f hindexed b.addr b.size hlow hhigh (hlive b hb) hok
        slab hrun with ⟨⟨g, hnew⟩, hstart⟩
      rw [← hs']
      refine ⟨H, S, g, hnew, fun c hc => hsizes c (List.mem_of_mem_erase hc), fun c hc k hk => ?_⟩
      rw [vaToPageId_of_start s.slab.mm slab.mm hstart]
      exact hlive c (List.mem_of_mem_erase hc) k hk

/-- In the invariant the lists have one size each, and no allowed call computes an index
    without a list. -/
theorem indexesOk_shelved (s : KSession) (h : Shelved s) : IndexesOk indexOk s := by
  rcases h with ⟨H, S, f, hindexed, hsizes, hlive⟩
  constructor
  · intro i hi a n hn
    have hwalk := rings_walk _ _ f hindexed.filed.rings _ _ (hindexed.filed.caches i hi) n hn
    rcases List.mem_cons.mp hwalk with hc | hmem
    · exact MemNode.noConfusion hc
    · exact hindexed.filed.sized i hi a hmem
  · intro c addr hc id hid
    cases c with
    | alloc size =>
        rcases hc with ⟨⟨hlow, hhigh⟩, hok⟩
        have hpos : ¬size ≤ 0 := by omega
        simp only [KSession.listIds, if_neg hpos] at hid
        exact ids_kmalloc s.slab H S f hindexed size.toNat (by omega) (by omega) hok id hid
    | free b =>
        rcases hc with ⟨hb, hok⟩
        rcases hsizes b hb with ⟨hlow, hhigh⟩
        exact ids_kfreeKernelMem s.slab H S f hindexed b.addr b.size hlow hhigh (hlive b hb) hok
          id hid

/-- Over every run of `kmalloc` and `kfree_kernel_mem` after `slab_init` whose calls reach
    none of the defects, every index that such a call computes is the one of a cache list,
    and each cache list has headers of its own size. -/
theorem cache_indices_inRange (mm : Mm) (header : Nat → SlabHeader)
    (hwords : 32 * mm.mapWords ≤ 2 ^ 20) (hstart : mm.kernelStart < u32Size) (s : KSession)
    (hrun : Run.Reaches KSession.call indexOk ⟨Slab.slabInit mm header, []⟩ s) :
    IndexesOk indexOk s := by
  apply indexesOk_shelved
  apply Run.invariant_of_reaches KSession.call indexOk Shelved _ _ s hrun
  · exact ⟨_, _, _, indexed_slabInit mm header hwords hstart,
      fun b hb => absurd hb List.not_mem_nil, fun b hb => absurd hb List.not_mem_nil⟩
  · intro t c a t' h hc hcall
    exact shelved_call t t' c a h hc hcall

/-- On the board, a slice that is freed and handed out again, a remainder that is put aside,
    and a block of more than a page. -/
theorem cache_indices_inRange_board :
    ∃ s, Run.Reaches KSession.call indexOk boardSlab s ∧
      s.live = [⟨0x80017000, 5000⟩, ⟨0x80016000, 2000⟩, ⟨0x80014000, 16⟩, ⟨0x80014010, 3000⟩] ∧
      IndexesOk indexOk s := by
  have heval : (Run.follow KSession.call indexOk boardSlab [.alloc 16, .alloc 3000,
      .free ⟨0x80014000, 16⟩, .alloc 16, .alloc 2000, .alloc 5000]).map KSession.live
      = some [⟨0x80017000, 5000⟩, ⟨0x80016000, 2000⟩, ⟨0x80014000, 16⟩, ⟨0x80014010, 3000⟩] := by
    decide +kernel
  rcases Option.map_eq_some_iff.mp heval with ⟨s, hs, hlive⟩
  have hrun := Run.reaches_of_follow KSession.call indexOk _ _ s hs
  exact ⟨s, hrun, hlive, cache_indices_inRange _ _ (by decide +kernel) (by decide +kernel) s hrun⟩

/-- On the board, a request of 4090 bytes is rounded up to 4096 and looked for on list 255,
    behind the last one. -/
theorem cache_indices_inRange_fails :
    ¬∀ s, Run.Reaches KSession.call memoryCall boardSlab s → IndexesOk memoryCall s := by
  intro hall
  have heval : boardSlab.listIds (.alloc 4090) = [some 255] := by decide +kernel
  rcases (hall boardSlab Relation.ReflTransGen.refl).2 (.alloc 4090) 0 ⟨by decide, by decide⟩
    (some 255) (by rw [heval]; exact List.mem_singleton.mpr rfl) with ⟨i, hi, heq⟩
  rw [← Option.some.inj heq] at hi
  exact absurd hi (by decide)

end Mirros
