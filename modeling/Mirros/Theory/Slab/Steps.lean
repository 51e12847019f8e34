import Mirros.Theory.Slab.Sound

/-!
# What Every Path of an Allocation Keeps

The paths of `__kmalloc` are long, but on all of them only few things happen: a page
is taken for headers, slices are cut from a page, and fields are written that have
nothing to do with the page map, the zones or the mutex. A relation that holds across
these, and can be chained, therefore holds across every path, and this file walks the
paths once for all such relations.

A new slab does two things more, to its own pages: it takes a run of any length, and
it writes the shape of the block into the entries of the first and the last page. A
relation may hold across these or not, so the walk through `get_kernel_slab` asks for
them separately.

## Main definitions

* `SameMemory`: Only fields apart from the map, the zones, the mutex and the shape of
  blocks differ.
* `Carries`: A relation that holds across the common steps.
* `markRun`: The entries of the first and the last page of a new block.

## Theorems

* `lock_cases`: What taking the mutex does.
* `getKernelSlab_cases`: The paths of `get_kernel_slab`.
* `carries_getSlabInList`, `carries_getSlabFromPageFree`, `carries_getNewSlab`: The
  three sources of a block.
* `carries_kmalloc`: The whole call.
-/

namespace Mirros

namespace Slab

theorem lock_cases (s s' : Slab) (h : s.lock = some s') :
    s.slabMutex = 0 ∧ s' = { s with slabMutex := 1 } := by
  unfold lock at h
  by_cases hmutex : s.slabMutex = 0
  · rw [if_pos hmutex, Option.some.injEq] at h
    exact ⟨hmutex, h.symm⟩
  · rw [if_neg hmutex] at h
    exact absurd h (by simp only [reduceCtorEq, not_false_eq_true])

/-- The page map, the zones, the mutex and the shape of every block are as they were. -/
structure SameMemory (s s' : Slab) : Prop where
  start : s'.mm.kernelStart = s.mm.kernelStart
  words : s'.mm.mapWords = s.mm.mapWords
  tableAddr : s'.mm.pageTableAddr = s.mm.pageTableAddr
  zone : s'.mm.zone = s.mm.zone
  map : s'.mm.pageMap = s.mm.pageMap
  mutex : s'.slabMutex = s.slabMutex
  shape : ∀ q, (s'.mm.pageTable q).flag = (s.mm.pageTable q).flag ∧
    (s'.mm.pageTable q).count = (s.mm.pageTable q).count

/-- Writes that leave the page table alone. -/
theorem sameMemory_links (s : Slab) (l : Links MemNode) (current : Option Nat)
    (table : SlabHeaderTable) (header : Nat → SlabHeader) (aside : List SlabHeader) :
    SameMemory s { s.setLinks l with
      slabPageCurrent := current, table := table, header := header, aside := aside } :=
  ⟨rfl, rfl, rfl, rfl, rfl, rfl, fun _ => ⟨rfl, rfl⟩⟩

/-- Writing one entry of the page table, apart from its flag and its count. -/
theorem sameMemory_setPage (s : Slab) (l : Links MemNode) (table : SlabHeaderTable)
    (header : Nat → SlabHeader) (pg : Nat) (page : Page)
    (hflag : page.flag = (s.mm.pageTable pg).flag)
    (hcount : page.count = (s.mm.pageTable pg).count) :
    SameMemory s { s with
      mm := { s.mm.setPage pg page with links := l }, table := table, header := header } := by
  refine ⟨rfl, rfl, rfl, rfl, rfl, rfl, fun q => ?_⟩
  unfold Mm.setPage
  by_cases hq : q = pg
  · simp only [hq, Function.update_self]
    exact ⟨hflag, hcount⟩
  · simp only [Function.update_of_ne hq, and_self]

theorem sameMemory_takeSlice (s : Slab) (pg size header : Nat) :
    SameMemory s (s.takeSlice pg size header) := by
  rw [takeSlice_eq]
  exact sameMemory_setPage s _ s.table _ pg _ rfl rfl

/-- The lines that take a header from a header page. -/
theorem sameMemory_header (s : Slab) (table : SlabHeaderTable) (pg : Nat) :
    SameMemory s (getSlabHeaderFromPage { s with table := table } pg).2 := by
  simp only [getSlabHeaderFromPage, bumpPage, pageGet, Mm.pageGet, Mm.setPage,
    Function.update_self, Function.update_idem]
  exact sameMemory_setPage s s.mm.links table s.header pg _ rfl rfl

/-- Making a page the current header page. -/
theorem sameMemory_startHeaderPage (s : Slab) (base : Nat) :
    SameMemory s (s.startHeaderPage base) :=
  sameMemory_setPage s _ _ s.header (s.mm.vaToPageId base) _ rfl rfl

/-- A relation between allocators that holds across taking a page for headers, and
    across writes that leave the map, the zones, the mutex and the shape of blocks
    alone. -/
structure Carries (R : Slab → Slab → Prop) : Prop where
  refl : ∀ s, R s s
  trans : ∀ s₁ s₂ s₃, R s₁ s₂ → R s₂ s₃ → R s₁ s₃
  fields : ∀ s s', SameMemory s s' → R s s'
  headerPage : ∀ (s : Slab) (mm : Mm) (addr : Nat),
    s.mm.getFreePage gfpSlabHeader = some (addr, mm) → R s { s with mm := mm }

section

variable (R : Slab → Slab → Prop) (hR : Carries R)

include hR

theorem carries_getNewSlabHeader (s s' : Slab) (header : Option Nat)
    (h : s.getNewSlabHeader = some (header, s')) : R s s' := by
  unfold getNewSlabHeader at h
  by_cases hempty : (!isListEmpty s.mm.links .freeHeader) = true
  · rw [if_pos hempty] at h
    cases hnext : s.mm.links.next .freeHeader with
    | header a =>
        rw [hnext] at h
        simp only [Option.some.injEq, Prod.mk.injEq] at h
        rw [← h.2]
        exact hR.fields _ _ (sameMemory_links _ _ _ _ _ _)
    | _ =>
        rw [hnext] at h
        exact absurd h (by simp only [reduceCtorEq, not_false_eq_true])
  rw [if_neg hempty] at h
  -- The tables are only rewritten while the current header page has room.
  cases hcur : (if s.table.headerInPage < pageSize / slabHeaderSize then
      s.table.tablePageCurrent else none) with
  | some pg =>
      rw [hcur] at h
      simp only [Option.some.injEq, Prod.mk.injEq] at h
      rw [← h.2]
      exact hR.fields _ _ (sameMemory_header s _ pg)
  | none =>
      rw [hcur] at h
      simp only [Option.pure_def, Option.bind_eq_bind, Option.bind_eq_some_iff, Prod.exists] at h
      rcases h with ⟨base, mm, hget, h⟩
      have hpages := hR.headerPage s mm base hget
      -- With or without a page, the map is the one of `get_free_page`.
      by_cases hbase : base = 0
      · rw [if_pos hbase, Option.some.injEq, Prod.mk.injEq] at h
        rw [← h.2]
        exact hpages
      · rw [if_neg hbase, Option.some.injEq, Prod.mk.injEq] at h
        rw [← h.2]
        exact hR.trans _ _ _ (hR.trans _ _ _ hpages
          (hR.fields _ _ (sameMemory_startHeaderPage { s with mm := mm } base)))
          (hR.fields _ _ (sameMemory_header _ _ _))

theorem carries_getSlabFromPage (s s' : Slab) (pg size : Nat) (header : Option Nat)
    (h : s.getSlabFromPage pg size = some (header, s')) : R s s' := by
  unfold getSlabFromPage at h
  simp only [Option.pure_def, Option.bind_eq_bind, Option.bind_eq_some_iff, Prod.exists] at h
  rcases h with ⟨header₁, s₁, hnew, h⟩
  have hr := carries_getNewSlabHeader R hR s s₁ header₁ hnew
  cases header₁ with
  | none =>
      simp only [Option.some.injEq, Prod.mk.injEq] at h
      rw [← h.2]
      exact hr
  | some a =>
      simp only [Option.some.injEq, Prod.mk.injEq] at h
      rw [← h.2]
      exact hR.trans _ _ _ hr (hR.fields _ _ (sameMemory_takeSlice s₁ pg size a))

theorem carries_updateSlabFreePage (s s' : Slab) (pg : Nat)
    (h : s.updateSlabFreePage pg = some s') : R s s' := by
  unfold updateSlabFreePage at h
  rcases hchoose : s.choosePage pg with ⟨new, old⟩
  rw [hchoose] at h
  have hset : R s { s with slabPageCurrent := some new } :=
    hR.fields _ _ (sameMemory_links _ _ _ _ _ _)
  cases old with
  | none =>
      simp only [Option.some.injEq] at h
      rw [← h]
      exact hset
  -- Cutting up the rest of the old page takes a header, which may take a page.
  | some old =>
      by_cases hsize : 16 < (s.mm.pageTable old).freeSize
      swap
      · simp only [if_neg hsize, Option.some.injEq] at h
        rw [← h]
        exact hset
      simp only [if_pos hsize, Option.pure_def, Option.bind_eq_bind, Option.bind_eq_some_iff,
        Prod.exists] at h
      rcases h with ⟨header, s₁, hget, h⟩
      have hr := hR.trans _ _ _ hset (carries_getSlabFromPage R hR _ s₁ old _ header hget)
      cases header with
      | none => exact absurd h (by simp only [reduceCtorEq, not_false_eq_true])
      | some a =>
          simp only [Option.some.injEq] at h
          rw [← h]
          exact hR.trans _ _ _ hr (hR.fields _ _ (sameMemory_links _ _ _ _ _ _))

theorem carries_getSlabInList (s s' : Slab) (size flag ret : Nat)
    (h : s.getSlabInList size flag = some (ret, s')) : R s s' := by
  unfold getSlabInList at h
  by_cases hflag : flag &&& gfpKernel = 0
  · rw [if_pos hflag, Option.some.injEq, Prod.mk.injEq] at h
    rw [← h.2]
    exact hR.refl s
  rw [if_neg hflag] at h
  by_cases hempty : isListEmpty s.mm.links (.cache (listId size)) = true
  · -- With an empty list nothing moves.
    simp only [if_pos hempty, Option.some.injEq, Prod.mk.injEq] at h
    rw [← h.2]
    exact hR.refl s
  simp only [if_neg hempty] at h
  cases hnext : s.mm.links.next (.cache (listId size)) with
  | header a =>
      rw [hnext] at h
      simp only [Option.pure_def, Option.bind_eq_bind, Option.bind_eq_some_iff] at h
      rcases h with ⟨state, _, h⟩
      by_cases hstate : state = 0
      · rw [if_pos hstate] at h
        exact absurd h (by simp only [reduceCtorEq, not_false_eq_true])
      · rw [if_neg hstate, Option.some.injEq, Prod.mk.injEq] at h
        rw [← h.2]
        exact hR.fields _ _ (sameMemory_links _ _ _ _ _ _)
  | _ =>
      rw [hnext] at h
      exact absurd h (by simp only [reduceCtorEq, not_false_eq_true])

theorem carries_getSlabFromPageFree (s s' : Slab) (size ret : Nat)
    (h : s.getSlabFromPageFree size = some (ret, s')) : R s s' := by
  unfold getSlabFromPageFree at h
  cases hcur : s.slabPageCurrent with
  | none =>
      rw [hcur] at h
      simp only [Option.some.injEq, Prod.mk.injEq] at h
      rw [← h.2]
      exact hR.refl s
  | some pg =>
      rw [hcur] at h
      simp only [Option.pure_def, Option.bind_eq_bind, Option.bind_eq_some_iff] at h
      -- The state is read to see whether the page was released; reading changes nothing.
      rcases h with ⟨state, _, h⟩
      by_cases hstate : state = 0
      · rw [if_pos hstate, Option.some.injEq, Prod.mk.injEq] at h
        rw [← h.2]
        exact hR.fields _ _ (sameMemory_links _ _ _ _ _ _)
      rw [if_neg hstate] at h
      by_cases hsize : (s.mm.pageTable pg).freeSize < size
      · rw [if_pos hsize, Option.some.injEq, Prod.mk.injEq] at h
        rw [← h.2]
        exact hR.refl s
      rw [if_neg hsize, Option.bind_eq_some_iff] at h
      rcases h with ⟨⟨header, s₁⟩, hnew, h⟩
      have hr := carries_getNewSlabHeader R hR s s₁ header hnew
      cases header with
      | none =>
          simp only [Option.some.injEq, Prod.mk.injEq] at h
          rw [← h.2]
          exact hr
      | some a =>
          simp only [Option.some.injEq, Prod.mk.injEq] at h
          rw [← h.2]
          exact hR.trans _ _ _ hr (hR.fields _ _ (sameMemory_takeSlice s₁ pg size a))

end

/-- The last page of a new run of pages at the address. -/
def lastPage (mm : Mm) (base size : Nat) : Nat :=
  mm.vaToPageId (add32 base ((pageNr size - 1) * pageSize))

/-- What `get_kernel_slab` writes into the entries of the first and the last page. -/
def markRun (s : Slab) (base size : Nat) : Slab :=
  (if 1 < pageNr size then
    s.shortenRun (s.mm.vaToPageId base) (size - (pageNr size - 1) * pageSize) else s).openSlabPage
    (lastPage s.mm base size)

/-- Only the page table is written. -/
theorem markRun_frame (s : Slab) (base size : Nat) :
    ∃ table, s.markRun base size = { s with mm := { s.mm with pageTable := table } } := by
  unfold markRun
  by_cases hcount : 1 < pageNr size
  · rw [if_pos hcount]
    exact ⟨_, rfl⟩
  · rw [if_neg hcount]
    exact ⟨_, rfl⟩

/-- The paths of `get_kernel_slab`: the pages are all there is, or the last one is
    marked and its slices are cut off. -/
theorem getKernelSlab_cases (s s' : Slab) (size flag ret : Nat)
    (h : s.getKernelSlab size flag = some (ret, s')) :
    ∃ mm, s.mm.getFreePages (pageNr size) flag = some (ret, mm) ∧
      (((isAligin size pageSize = true ∨ ret = 0) ∧ s' = { s with mm := mm }) ∨
        isAligin size pageSize = false ∧ ret ≠ 0 ∧ ∃ header s₁,
          (markRun { s with mm := mm } ret size).getSlabFromPage (lastPage mm ret size)
            (size - (pageNr size - 1) * pageSize) = some (header, s₁) ∧
          s₁.updateSlabFreePage (lastPage mm ret size) = some s') := by
  unfold getKernelSlab at h
  simp only [Option.pure_def, Option.bind_eq_bind, Option.bind_eq_some_iff, Prod.exists] at h
  rcases h with ⟨base, mm, hget, h⟩
  by_cases hal : isAligin size pageSize = true
  · rw [if_pos hal, Option.some.injEq, Prod.mk.injEq] at h
    rw [← h.1, ← h.2]
    exact ⟨mm, hget, Or.inl ⟨Or.inl hal, rfl⟩⟩
  rw [if_neg hal] at h
  by_cases hbase : base = 0
  · rw [if_pos hbase, Option.some.injEq, Prod.mk.injEq] at h
    rw [← h.1, ← h.2]
    exact ⟨mm, hbase ▸ hget, Or.inl ⟨Or.inr rfl, rfl⟩⟩
  rw [if_neg hbase] at h
  have hlast : (if 1 < pageNr size then Slab.shortenRun { s with mm := mm } (mm.vaToPageId base)
      (size - (pageNr size - 1) * pageSize) else { s with mm := mm }).mm.vaToPageId
        (add32 base ((pageNr size - 1) * pageSize)) = lastPage mm base size := by
    by_cases hcount : 1 < pageNr size
    · rw [if_pos hcount]
      rfl
    · rw [if_neg hcount]
      rfl
  rw [hlast] at h
  simp only [Option.bind_eq_some_iff, Prod.exists, Option.some.injEq, Prod.mk.injEq] at h
  rcases h with ⟨header, s₁, hslice, s₂, hupdate, hret, hs'⟩
  rw [← hret, ← hs']
  refine ⟨mm, hget, Or.inr ⟨by simpa only [Bool.not_eq_true] using hal, hbase, header, s₁, ?_⟩⟩
  exact ⟨hslice, hupdate⟩

section

variable (R : Slab → Slab → Prop) (hR : Carries R)
  (hpages : ∀ (s : Slab) (mm : Mm) (count : Int) (flag addr : Nat),
    s.mm.getFreePages count flag = some (addr, mm) → R s { s with mm := mm })
  (hmark : ∀ (s : Slab) (base size : Nat), R s (s.markRun base size))

include hR hpages hmark

theorem carries_getNewSlab (s s' : Slab) (size flag ret : Nat)
    (h : s.getNewSlab size flag = some (ret, s')) : R s s' := by
  unfold getNewSlab at h
  by_cases hflag : flag = gfpDma ∨ flag = gfpRes
  · rw [if_pos hflag] at h
    simp only [Option.pure_def, Option.bind_eq_bind, Option.bind_eq_some_iff, Prod.exists] at h
    rcases h with ⟨base, mm, hget, h⟩
    rw [Option.some.injEq, Prod.mk.injEq] at h
    rw [← h.2]
    exact hpages s mm _ _ base hget
  rw [if_neg hflag] at h
  rcases getKernelSlab_cases s s' size flag ret h with
    ⟨mm, hget, ⟨_, hs'⟩ | ⟨_, _, header, s₁, hslice, hupdate⟩⟩
  · rw [hs']
    exact hpages s mm _ _ ret hget
  · have hr₁ := hR.trans _ _ _ (hpages s mm _ _ ret hget) (hmark { s with mm := mm } ret size)
    have hr₂ := hR.trans _ _ _ hr₁ (carries_getSlabFromPage R hR _ s₁ _ _ header hslice)
    exact hR.trans _ _ _ hr₂ (carries_updateSlabFreePage R hR s₁ s' _ hupdate)

end

section

variable (R : Slab → Slab → Prop) (hR : Carries R)
  (hmutex : ∀ (s : Slab) (n : Nat), R s { s with slabMutex := n })
  (hnew : ∀ (s s' : Slab) (size flag ret : Nat),
    s.getNewSlab size flag = some (ret, s') → R s s')

include hR hmutex hnew

/-- The three sources of a block, one after the other, between taking the mutex and
    giving it back. -/
theorem carries_kmalloc (s s' : Slab) (size : Int) (flag ret : Nat)
    (h : s.kmalloc size flag = some (ret, s')) : R s s' := by
  unfold kmalloc at h
  by_cases hsize : size ≤ 0
  · rw [if_pos hsize, Option.some.injEq, Prod.mk.injEq] at h
    rw [← h.2]
    exact hR.refl s
  rw [if_neg hsize] at h
  by_cases hflag : flag ≠ gfpKernel ∧ flag ≠ gfpDma ∧ flag ≠ gfpRes
  · rw [if_pos hflag, Option.some.injEq, Prod.mk.injEq] at h
    rw [← h.2]
    exact hR.refl s
  rw [if_neg hflag] at h
  unfold doKmalloc at h
  simp only [Option.pure_def, Option.bind_eq_bind, Option.bind_eq_some_iff] at h
  rcases h with ⟨s₁, hlock, h⟩
  have hr₁ : R s s₁ := by
    rw [(lock_cases s s₁ hlock).2]
    exact hmutex s 1
  by_cases hwhole : flag = gfpDma ∨ flag = gfpRes ∨ pageSize ≤ size.toNat
  · rw [if_pos hwhole, Option.bind_eq_some_iff] at h
    rcases h with ⟨⟨a, s₂⟩, hget, h⟩
    rw [Option.some.injEq, Prod.mk.injEq] at h
    rw [← h.2]
    exact hR.trans _ _ _ (hR.trans _ _ _ hr₁ (hnew s₁ s₂ _ _ a hget)) (hmutex s₂ 0)
  rw [if_neg hwhole, Option.bind_eq_some_iff] at h
  rcases h with ⟨⟨a, s₂⟩, hlist, h⟩
  -- Each source is asked only when the one before it had nothing.
  have hr₂ := hR.trans _ _ _ hr₁ (carries_getSlabInList R hR s₁ s₂ _ _ a hlist)
  by_cases ha : a ≠ 0
  · rw [if_pos ha, Option.some.injEq, Prod.mk.injEq] at h
    rw [← h.2]
    exact hR.trans _ _ _ hr₂ (hmutex s₂ 0)
  rw [if_neg ha, Option.bind_eq_some_iff] at h
  rcases h with ⟨⟨b, s₃⟩, hfree, h⟩
  have hr₃ := hR.trans _ _ _ hr₂ (carries_getSlabFromPageFree R hR s₂ s₃ _ b hfree)
  by_cases hb : b ≠ 0
  · rw [if_pos hb, Option.some.injEq, Prod.mk.injEq] at h
    rw [← h.2]
    exact hR.trans _ _ _ hr₃ (hmutex s₃ 0)
  rw [if_neg hb, Option.bind_eq_some_iff] at h
  rcases h with ⟨⟨c, s₄⟩, hget, h⟩
  rw [Option.some.injEq, Prod.mk.injEq] at h
  rw [← h.2]
  exact hR.trans _ _ _ (hR.trans _ _ _ hr₃ (hnew s₃ s₄ _ _ c hget)) (hmutex s₄ 0)

end

end Slab

end Mirros
