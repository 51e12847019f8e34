import Mirros.Theory.Slab.Steps

/-!
# Getting and Freeing a Slice

The paths of `__kmalloc` and `kfree_kernel_mem`, each as a change that keeps all
slices in order. `Keeps` is such a change; it composes, so a path is a chain of
the steps of the last file.

Two things have to be excluded. A block that was freed must not be handed out
again from a cache list: `__kfree_slice_slab` dropped the reference it held on
its page, and `get_slab_in_list` does not take it again. And when
`get_kernel_slab` has taken a page it must get a header for the slice: otherwise
it returns the page although its free part still starts at the returned block.

A slice that `update_slab_free_page` put on a cache list is different. It took
its reference when it was cut off, so it can be handed out once.

## Main definitions

* `Keeps`: A change that keeps all slices in order.
* `gain`: The slices in use after a call returned one.
* `cacheOk`: The cache list holds no block that was freed.
* `starved`: A page can be had for slices and then no header.
* `CurrentOk`: The page slices are taken from is in order.

## Theorems

* `keeps_getSlabInList`, `keeps_getSlabFromPageFree`, `keeps_getKernelSlab`: The
  three ways of getting a slice.
* `keeps_updateSlabFreePage`: Choosing the next current page.
* `alive_alloc`, `alive_free`: The two calls.
-/

namespace Mirros

/-- A change of the allocator, and of the slices in use, after which they are
    all in order. -/
structure Keeps (s : Slab) (own : List SlabHeader) (S : Set MemNode) (s' : Slab)
    (own' : List SlabHeader) (S' : Set MemNode) : Prop where
  sound : Sound s' own' S'
  start : s'.mm.kernelStart = s.mm.kernelStart
  pages : ∀ p, PageOk s own S p → PageOk s' own' S' p
  room : ∀ p, PageOk s own S p → (s'.mm.pageTable p).freeSize ≤ (s.mm.pageTable p).freeSize

theorem keeps_trans (s₁ s₂ s₃ : Slab) (own₁ own₂ own₃ : List SlabHeader)
    (S₁ S₂ S₃ : Set MemNode) (h₁₂ : Keeps s₁ own₁ S₁ s₂ own₂ S₂)
    (h₂₃ : Keeps s₂ own₂ S₂ s₃ own₃ S₃) : Keeps s₁ own₁ S₁ s₃ own₃ S₃ := by
  refine ⟨h₂₃.sound, h₂₃.start.trans h₁₂.start, fun p hp => h₂₃.pages p (h₁₂.pages p hp),
    fun p hp => ?_⟩
  exact (h₂₃.room p (h₁₂.pages p hp)).trans (h₁₂.room p hp)

theorem keeps_refl (s : Slab) (own : List SlabHeader) (S : Set MemNode) (h : Sound s own S) :
    Keeps s own S s own S :=
  ⟨h, rfl, fun _ hp => hp, fun _ _ => Nat.le_refl _⟩

theorem keeps_of_extends (s s' : Slab) (own : List SlabHeader) (S S' : Set MemNode)
    (h : Sound s own S) (he : Extends s own S s' S') : Keeps s own S s' own S' := by
  refine ⟨sound_extends s s' own S S' he h, he.start, pageOk_extends s s' own S S' he,
    fun p hp => ?_⟩
  rw [(he.pages p hp).1]

/-- Fields the slices do not depend on. -/
theorem keeps_fields (s : Slab) (own : List SlabHeader) (S : Set MemNode) (h : Sound s own S)
    (mutex : Nat) (current : Option Nat) (aside : List SlabHeader) :
    Keeps s own S { s with slabMutex := mutex, slabPageCurrent := current, aside := aside }
      own S := by
  apply keeps_of_extends s _ own S S h
  refine ⟨Set.Subset.refl S, rfl, rfl, fun p hp => ?_, h.closed, h.offFree, h.noFree, h.sizes,
    h.table⟩
  exact ⟨rfl, hp.set, hp.notTable⟩

theorem keeps_takeSlice (s : Slab) (own : List SlabHeader) (S : Set MemNode) (h : Sound s own S)
    (pg size header : Nat) (hp : PageOk s own S pg) (hlow : 16 ≤ size)
    (hfree : size ≤ (s.mm.pageTable pg).freeSize) (hmax : size ≤ slabMax) :
    Keeps s own S (s.takeSlice pg size header) (⟨(s.mm.pageTable pg).freeBase, size⟩ :: own)
      (insert (.header header) S) := by
  refine ⟨sound_takeSlice s own S h pg size header hp hlow hfree hmax,
    takeSlice_start s pg size header,
    pageOk_takeSlice s own S h pg size header hp hlow hfree, fun p hok => ?_⟩
  rcases hok.usage with ⟨lost, _, hroom⟩
  rw [takeSlice_pageTable]
  by_cases hpp : p = pg
  · rw [hpp]
    rw [hpp] at hroom
    simp only [Function.update_self]
    unfold sub16
    unfold pageSize at hroom
    omega
  · simp only [Function.update_of_ne hpp, Nat.le_refl]

/-- Slices are a collection: their order does not matter. -/
theorem keeps_perm (s : Slab) (own own' : List SlabHeader) (S : Set MemNode)
    (hperm : own.Perm own') (h : Sound s own S) : Keeps s own S s own' S := by
  have hcount : ∀ p, ownedIn s.mm own' p = ownedIn s.mm own p := by
    intro p
    exact (hperm.countP_eq _).symm
  have hpages : ∀ p, PageOk s own S p → PageOk s own' S p := by
    intro p hok
    refine ⟨hok.bound, hok.set, hok.notTable, hok.count, hok.slab, hok.base, ?_, hok.node⟩
    rw [hcount]
    exact hok.usage
  refine ⟨⟨h.words, h.start, h.closed, h.offFree, h.noFree, h.tableHead, h.caches, h.sizes,
    h.table, fun b hb => ?_, ?_⟩, rfl, hpages, fun p _ => Nat.le_refl _⟩
  · rcases h.slots b (hperm.mem_iff.mpr hb) with ⟨hsize, hok, hend⟩
    exact ⟨hsize, hpages _ hok, hend⟩
  · exact (hperm.pairwise_iff (fun hbc => slotApart_symm s.mm _ _ hbc)).mp h.apart

theorem keeps_forget (s : Slab) (b : SlabHeader) (own : List SlabHeader) (S : Set MemNode)
    (h : Sound s (b :: own) S) : Keeps s (b :: own) S s own S :=
  ⟨sound_forget s b own S h, rfl, pageOk_forget s b own S, fun _ _ => Nat.le_refl _⟩

/-- The slices in use after a call returned the address of one, or null. -/
def gain (ret size : Nat) (own : List SlabHeader) : List SlabHeader :=
  if ret = 0 then own else ⟨ret, size⟩ :: own

theorem keeps_gain (s : Slab) (ret size : Nat) (own : List SlabHeader) (S : Set MemNode)
    (h : Sound s (⟨ret, size⟩ :: own) S) :
    Keeps s (⟨ret, size⟩ :: own) S s (gain ret size own) S := by
  unfold gain
  by_cases hret : ret = 0
  · rw [if_pos hret]
    exact keeps_forget s _ own S h
  · rw [if_neg hret]
    exact keeps_refl s _ S h

/-- The node is of a slice of the size that was put aside and not handed out
    since. -/
def isAside (s : Slab) (size : Nat) : MemNode → Bool
  | .header h => (⟨(s.header h).base, size⟩ : SlabHeader) ∈ s.aside
  | _ => false

/-- The head of the cache list of the size is not a block that was freed: the
    list is empty, or its first slice was put aside. -/
def cacheOk (s : Slab) (size : Nat) : Prop :=
  isListEmpty s.mm.links (.cache (listId size)) = true ∨
    isAside s size (s.mm.links.next (.cache (listId size))) = true

theorem keeps_getSlabInList (s s' : Slab) (live : List SlabHeader) (S : Set MemNode)
    (size ret : Nat) (h : Sound s (live ++ s.aside) S) (hlist : listId size < slabNode)
    (hcache : cacheOk s size) (hrun : s.getSlabInList size gfpKernel = some (ret, s')) :
    Keeps s (live ++ s.aside) S s' (gain ret size (live ++ s'.aside)) S ∧
      s'.slabPageCurrent = s.slabPageCurrent ∧ s'.mm.pageMap = s.mm.pageMap := by
  unfold Slab.getSlabInList at hrun
  rw [if_neg (by decide)] at hrun
  by_cases hempty : isListEmpty s.mm.links (.cache (listId size)) = true
  · simp only [hempty, if_true, Option.some.injEq, Prod.mk.injEq] at hrun
    rw [← hrun.1, ← hrun.2]
    exact ⟨keeps_refl s _ S h, rfl, rfl⟩
  simp only [hempty, Bool.false_eq_true, if_false] at hrun
  rcases hcache with hcache | hcache
  · exact absurd hcache hempty
  -- The first node of a cache list is a node in use.
  have hnext := (h.closed _ (h.caches _ hlist)).1
  rcases hnode : s.mm.links.next (.cache (listId size)) with _ | a | _ | _ | _ | _ | _ | _ | _
  case header =>
    simp only [hnode, isAside, decide_eq_true_eq] at hcache hrun
    rw [hnode] at hnext
    simp only [Option.pure_def, Option.bind_eq_bind, Option.bind_eq_some_iff] at hrun
    rcases hrun with ⟨state, hstate, hrun⟩
    by_cases hzero : state = 0
    · rw [if_pos hzero] at hrun
      exact absurd hrun (by simp only [reduceCtorEq, not_false_eq_true])
    rw [if_neg hzero, Option.some.injEq, Prod.mk.injEq] at hrun
    rcases hrun with ⟨hret, hs'⟩
    rw [hret] at hcache
    have hok := (h.slots _ (List.mem_append_right live hcache)).2.1
    simp only at hok
    -- The slice changes from one that was put aside to one that is in use.
    have hperm : (live ++ s.aside).Perm (⟨ret, size⟩ :: (live ++ s.aside.erase ⟨ret, size⟩)) :=
      ((List.perm_cons_erase hcache).append_left live).trans List.perm_middle
    have hk₁ := keeps_perm s _ _ S hperm h
    have hdel := closed_listDel s.mm.links S h.closed (.header a) hnext
    have hk₂ := keeps_of_extends s _ _ S S hk₁.sound (extends_setLinks s _ S hk₁.sound
      (listAdd (listDel s.mm.links (.header a)) (.page (s.mm.vaToPageId ret)) (.header a))
      (closed_listAdd _ S hdel _ _ hok.node hnext) (by
        rw [(listAdd_outside _ S hdel _ _ _ hok.node hnext h.offFree).1,
          (listDel_outside _ S h.closed _ _ hnext h.offFree).1]))
    have hk₃ := keeps_fields _ _ S hk₂.sound s.slabMutex s.slabPageCurrent
      (s.aside.erase ⟨ret, size⟩)
    have hk₄ := keeps_gain _ ret size _ S hk₃.sound
    rw [hret] at hs'
    rw [← hs']
    refine ⟨?_, rfl, rfl⟩
    exact keeps_trans _ _ _ _ _ _ S S S hk₁ (keeps_trans _ _ _ _ _ _ S S S hk₂
      (keeps_trans _ _ _ _ _ _ S S S hk₃ hk₄))
  all_goals
    simp only [hnode, isAside, Bool.false_eq_true] at hcache

section

variable (s s' : Slab) (own : List SlabHeader) (S : Set MemNode) (h : Sound s own S)

include h

theorem keeps_getSlabFromPage (pg size header : Nat) (hp : PageOk s own S pg) (hlow : 16 ≤ size)
    (hfree : size ≤ (s.mm.pageTable pg).freeSize) (hmax : size ≤ slabMax)
    (hrun : s.getSlabFromPage pg size = some (some header, s')) :
    ∃ S', Keeps s own S s' (⟨(s.mm.pageTable pg).freeBase, size⟩ :: own) S' ∧
      s'.slabPageCurrent = s.slabPageCurrent ∧ s'.aside = s.aside ∧
      MemNode.header header ∈ S' ∧ (s'.header header).size = size := by
  unfold Slab.getSlabFromPage at hrun
  simp only [Option.pure_def, Option.bind_eq_bind, Option.bind_eq_some_iff, Prod.exists] at hrun
  rcases hrun with ⟨header', s₁, hheader, hrun⟩
  rcases header' with _ | a
  · simp only [Option.some.injEq, Prod.mk.injEq, reduceCtorEq, false_and] at hrun
  simp only [Option.some.injEq, Prod.mk.injEq] at hrun
  rcases hrun with ⟨ha, hs'⟩
  subst ha
  -- The header first, which leaves the page alone, then the slice.
  rcases getNewSlabHeader_extends s own S h _ s₁ hheader with ⟨hcur, haside, S₁, he⟩
  have hk₁ := keeps_of_extends s s₁ own S S₁ h he
  have htab := (he.pages pg hp).1
  have hk₂ := keeps_takeSlice s₁ own S₁ hk₁.sound pg size a (hk₁.pages pg hp) hlow
    (by rw [htab]; exact hfree) hmax
  rw [htab] at hk₂
  rw [← hs']
  refine ⟨_, keeps_trans _ _ _ _ _ _ S S₁ _ hk₁ hk₂,
    (takeSlice_current s₁ pg size a).trans hcur, (takeSlice_aside s₁ pg size a).trans haside,
    Set.mem_insert _ _, ?_⟩
  rw [takeSlice_eq]
  simp only [Function.update_self]

theorem keeps_getSlabFromPageFree (size ret : Nat) (hlow : 16 ≤ size) (hmax : size ≤ slabMax)
    (hcur : ∀ p, s.slabPageCurrent = some p → used s.mm.pageMap p = true → PageOk s own S p)
    (hrun : s.getSlabFromPageFree size = some (ret, s')) :
    ∃ S', Keeps s own S s' (gain ret size own) S' ∧ s'.aside = s.aside ∧
      ∀ p, s'.slabPageCurrent = some p → s.slabPageCurrent = some p ∧ PageOk s own S p := by
  unfold Slab.getSlabFromPageFree at hrun
  have hrefl := keeps_refl s own S h
  rcases hpg : s.slabPageCurrent with _ | pg
  · simp only [hpg, Option.some.injEq, Prod.mk.injEq] at hrun
    rw [← hrun.1, ← hrun.2]
    exact ⟨S, hrefl, rfl, fun p hp => absurd (hpg.symm.trans hp)
      (by simp only [reduceCtorEq, not_false_eq_true])⟩
  simp only [hpg, Option.pure_def, Option.bind_eq_bind, Option.bind_eq_some_iff] at hrun
  rcases hrun with ⟨state, hstate, hrun⟩
  by_cases hzero : state = 0
  · -- The current page was released in the meantime.
    rw [if_pos hzero, Option.some.injEq, Prod.mk.injEq] at hrun
    rw [← hrun.1, ← hrun.2]
    exact ⟨S, keeps_fields s own S h s.slabMutex none s.aside, rfl, fun p hp => absurd hp
      (by simp only [reduceCtorEq, not_false_eq_true])⟩
  -- The state that was read is not zero, so the bit of the page is set.
  have hset : used s.mm.pageMap pg = true := by
    unfold Mm.pageState at hstate
    by_cases hin : s.mm.inMap pg = true
    · rw [if_pos hin, Option.some.injEq] at hstate
      rw [← hstate, readBit_eq_zero_iff] at hzero
      simpa only [Bool.not_eq_false] using hzero
    · rw [if_neg hin] at hstate
      exact absurd hstate (by simp only [reduceCtorEq, not_false_eq_true])
  have hok := hcur pg hpg hset
  have hsame : ∀ p, s.slabPageCurrent = some p → some pg = some p ∧ PageOk s own S p := by
    intro p hp
    rw [hpg, Option.some.injEq] at hp
    rw [← hp]
    exact ⟨rfl, hok⟩
  rw [if_neg hzero] at hrun
  by_cases hsmall : (s.mm.pageTable pg).freeSize < size
  · rw [if_pos hsmall, Option.some.injEq, Prod.mk.injEq] at hrun
    rw [← hrun.1, ← hrun.2]
    exact ⟨S, hrefl, rfl, hsame⟩
  rw [if_neg hsmall] at hrun
  simp only [Option.bind_eq_some_iff, Prod.exists] at hrun
  rcases hrun with ⟨header, s₁, hheader, hrun⟩
  rcases getNewSlabHeader_extends s own S h _ s₁ hheader with ⟨hcur₁, haside, S₁, he⟩
  have hk₁ := keeps_of_extends s s₁ own S S₁ h he
  rcases header with _ | a
  · -- No header: nothing was cut, and the current page stays.
    simp only [Option.some.injEq, Prod.mk.injEq] at hrun
    rw [← hrun.1, ← hrun.2]
    exact ⟨S₁, hk₁, haside, fun p hp => hsame p (by rw [← hcur₁]; exact hp)⟩
  · simp only [Option.some.injEq, Prod.mk.injEq] at hrun
    have htab := (he.pages pg hok).1
    -- The free part is what it was before the header was taken.
    have hk₂ := keeps_takeSlice s₁ own S₁ hk₁.sound pg size a (hk₁.pages pg hok) hlow
      (by rw [htab]; omega) hmax
    have hret : ret = (s₁.mm.pageTable pg).freeBase := by
      rw [← hrun.1, takeSlice_eq]
      simp only [Function.update_self]
    rw [← hret] at hk₂
    rw [← hrun.2]
    have hk₃ := keeps_gain _ ret size own _ hk₂.sound
    refine ⟨_, keeps_trans _ _ _ _ _ _ S S₁ _ hk₁ (keeps_trans _ _ _ _ _ _ S₁ _ _ hk₂ hk₃),
      (takeSlice_aside s₁ pg size a).trans haside, fun p hp => hsame p ?_⟩
    rw [← hcur₁, ← takeSlice_current s₁ pg size a]
    exact hp

end

/-- Choosing the next current page, of a current page and a new one that are
    both in order. The rest of the other page is put aside. -/
theorem keeps_updateSlabFreePage (s s' : Slab) (live : List SlabHeader) (S : Set MemNode)
    (h : Sound s (live ++ s.aside) S) (pg : Nat)
    (hok : ∀ p, p = pg ∨ s.slabPageCurrent = some p → PageOk s (live ++ s.aside) S p ∧
      (s.mm.pageTable p).freeSize ≤ slabMax)
    (hrun : s.updateSlabFreePage pg = some s') :
    ∃ S', Keeps s (live ++ s.aside) S s' (live ++ s'.aside) S' ∧
      ∀ p, s'.slabPageCurrent = some p → p = pg ∨ s.slabPageCurrent = some p := by
  have hchoice : ∀ new old, s.choosePage pg = (new, old) →
      (new = pg ∨ s.slabPageCurrent = some new) ∧
        ∀ q, old = some q → q = pg ∨ s.slabPageCurrent = some q := by
    intro new old hnew
    unfold Slab.choosePage at hnew
    rcases hcur : s.slabPageCurrent with _ | cur
    · simp only [hcur, Prod.mk.injEq] at hnew
      rw [← hnew.1, ← hnew.2]
      exact ⟨Or.inl rfl, fun q hq => absurd hq (by simp only [reduceCtorEq, not_false_eq_true])⟩
    · simp only [hcur] at hnew
      by_cases hlt : (s.mm.pageTable cur).freeSize < (s.mm.pageTable pg).freeSize
      · rw [if_pos hlt, Prod.mk.injEq] at hnew
        rw [← hnew.1, ← hnew.2]
        exact ⟨Or.inl rfl, fun q hq => Or.inr hq⟩
      · rw [if_neg hlt, Prod.mk.injEq] at hnew
        rw [← hnew.1, ← hnew.2]
        exact ⟨Or.inr rfl, fun q hq => Or.inl (Option.some.inj hq).symm⟩
  unfold Slab.updateSlabFreePage at hrun
  rcases hnew : s.choosePage pg with ⟨new, old⟩
  rcases hchoice new old hnew with ⟨hnewok, holdok⟩
  simp only [hnew] at hrun
  have hk₁ := keeps_fields s _ S h s.slabMutex (some new) s.aside
  have hcur : ∀ p, some new = some p → p = pg ∨ s.slabPageCurrent = some p := by
    intro p hp
    rw [← Option.some.inj hp]
    exact hnewok
  rcases old with _ | q
  · simp only [Option.some.injEq] at hrun
    rw [← hrun]
    exact ⟨S, hk₁, hcur⟩
  simp only at hrun
  by_cases hbig : 16 < (s.mm.pageTable q).freeSize
  swap
  · rw [if_neg hbig, Option.some.injEq] at hrun
    rw [← hrun]
    exact ⟨S, hk₁, hcur⟩
  rw [if_pos hbig] at hrun
  simp only [Option.pure_def, Option.bind_eq_bind, Option.bind_eq_some_iff, Prod.exists] at hrun
  rcases hrun with ⟨header, s₂, hslab, hrun⟩
  rcases header with _ | a
  · exact absurd hrun (by simp only [reduceCtorEq, not_false_eq_true])
  simp only [Option.some.injEq] at hrun
  rcases hok q (holdok q rfl) with ⟨hpage, hmax⟩
  rcases keeps_getSlabFromPage _ s₂ _ S hk₁.sound q _ a (hk₁.pages q hpage)
    (Nat.le_of_lt hbig) (Nat.le_refl _) hmax hslab with ⟨S₂, hk₂, hcur₂, haside₂, hheader, hsize⟩
  -- The header goes to a cache list, whose head is a node in use.
  have hlist : MemNode.cache (listId (s₂.header a).size) ∈ S₂ := by
    apply hk₂.sound.caches
    exact hk₂.sound.sizes a hheader
  have hk₃ := keeps_of_extends s₂ _ _ S₂ S₂ hk₂.sound (extends_setLinks s₂ _ S₂ hk₂.sound
    (listAdd s₂.mm.links (.cache (listId (s₂.header a).size)) (.header a))
    (closed_listAdd _ S₂ hk₂.sound.closed _ _ hlist hheader)
    (listAdd_outside _ S₂ hk₂.sound.closed _ _ _ hlist hheader hk₂.sound.offFree).1)
  have hk₄ := keeps_fields _ _ S₂ hk₃.sound s₂.slabMutex s₂.slabPageCurrent
    (⟨(s.mm.pageTable q).freeBase, (s.mm.pageTable q).freeSize⟩ :: s₂.aside)
  have hperm : (⟨(s.mm.pageTable q).freeBase, (s.mm.pageTable q).freeSize⟩ :: (live ++ s.aside)).Perm
      (live ++ ⟨(s.mm.pageTable q).freeBase, (s.mm.pageTable q).freeSize⟩ :: s₂.aside) := by
    rw [haside₂]
    exact List.perm_middle.symm
  have hk₅ := keeps_perm _ _ _ S₂ hperm hk₄.sound
  rw [← hrun]
  refine ⟨S₂, ?_, fun p hp => hcur p ?_⟩
  · exact keeps_trans _ _ _ _ _ _ S S S₂ hk₁ (keeps_trans _ _ _ _ _ _ S S₂ S₂ hk₂
      (keeps_trans _ _ _ _ _ _ S₂ S₂ S₂ hk₃ (keeps_trans _ _ _ _ _ _ S₂ S₂ S₂ hk₄ hk₅)))
  · rw [← hp]
    exact hcur₂.symm

/-- A page can be had for slices, and then no header for the first of them. -/
def shortOfHeader (s : Slab) : Bool :=
  match s.mm.getFreePages 1 gfpKernel with
  | some (base, mm) => base ≠ 0 &&
      match (Slab.openSlabPage { s with mm := mm } (mm.vaToPageId base)).getNewSlabHeader with
      | some (none, _) => true
      | _ => false
  | none => false

theorem getSlabFromPage_short (s s' : Slab) (pg size base : Nat) (hbase : ¬base = 0)
    (h : s.getSlabFromPage pg size = some (none, s')) :
    ¬(decide (base ≠ 0) && match s.getNewSlabHeader with
      | some (none, _) => true
      | _ => false) = false := by
  unfold Slab.getSlabFromPage at h
  simp only [Option.pure_def, Option.bind_eq_bind, Option.bind_eq_some_iff, Prod.exists] at h
  rcases h with ⟨header, s₁, hheader, h⟩
  rcases header with _ | a
  · simp only [hheader, ne_eq, hbase, not_false_eq_true, decide_true, Bool.and_self,
      Bool.true_eq_false]
  · simp only [Option.some.injEq, Prod.mk.injEq, reduceCtorEq, false_and] at h

theorem keeps_getKernelSlab (s s' : Slab) (live : List SlabHeader) (S : Set MemNode)
    (h : Sound s (live ++ s.aside) S) (size ret : Nat) (hlow : 16 ≤ size) (hmax : size ≤ slabMax)
    (hcur : ∀ p, s.slabPageCurrent = some p → PageOk s (live ++ s.aside) S p ∧
      (s.mm.pageTable p).freeSize ≤ slabMax)
    (hheader : shortOfHeader s = false) (hrun : s.getKernelSlab size gfpKernel = some (ret, s')) :
    ∃ S', Keeps s (live ++ s.aside) S s' (gain ret size (live ++ s'.aside)) S' ∧
      ∀ p, s'.slabPageCurrent = some p → PageOk s' (gain ret size (live ++ s'.aside)) S' p ∧
        (s'.mm.pageTable p).freeSize ≤ slabMax := by
  have hone : pageNr size = 1 := by
    unfold slabMax slabNode slabStep pageSize slabHeaderSize at hmax
    have hround : baligin size pageSize = (size + 4095) / 4096 * 4096 :=
      Mm.baligin_eq size 12 (by omega) (by omega)
    unfold pageNr
    rw [hround]
    unfold pageSize
    omega
  have hpart : isAligin size pageSize = false := by
    unfold slabMax slabNode slabStep pageSize slabHeaderSize at hmax
    have hmod : size &&& 4095 = size % 4096 := Nat.and_two_pow_sub_one_eq_mod size 12
    unfold isAligin pageSize
    simp only [hmod, decide_eq_false_iff_not]
    omega
  unfold Slab.getKernelSlab at hrun
  simp only [hone, hpart, Option.pure_def, Option.bind_eq_bind, Option.bind_eq_some_iff,
    Prod.exists, Bool.false_eq_true, if_false, Nat.sub_self, Nat.zero_mul, Nat.sub_zero,
    Nat.lt_irrefl] at hrun
  rcases hrun with ⟨base, mm', hget, hrun⟩
  have hshort := hheader
  unfold shortOfHeader at hshort
  have hget' : s.mm.getFreePages 1 gfpKernel = some (base, mm') := hget
  simp only [hget'] at hshort
  rcases Mm.getFreePages_cases s.mm mm' 1 gfpKernel base hget' with
    ⟨hzero, hmm⟩ | ⟨z, q, _, _, hfind, hne, haddr, htook⟩
  · rw [if_pos hzero, hmm, Option.some.injEq, Prod.mk.injEq] at hrun
    rw [← hrun.1, ← hrun.2]
    exact ⟨S, keeps_refl s _ S h, hcur⟩
  have hclear := findContinousPages_one s.mm _ q h.words hfind hne
  by_cases hzero : base = 0
  · -- The page at address zero is lost, but nothing else has changed.
    rw [if_pos hzero, Option.some.injEq, Prod.mk.injEq] at hrun
    rw [← hrun.1, ← hrun.2]
    have hk := keeps_of_extends s _ _ S _ h (extends_took s _ S h mm' z q _ _ htook hclear)
    refine ⟨_, hk, fun p hp => ?_⟩
    rcases hcur p hp with ⟨hok, hroom⟩
    exact ⟨hk.pages p hok, (hk.room p hok).trans hroom⟩
  rw [if_neg hzero] at hrun
  have hid : mm'.vaToPageId base = q := by
    rw [haddr, vaToPageId_of_start s.mm mm' htook.start]
    exact first_of_bound s.mm q 1 h.start h.words (by omega) htook.bound
  have hbase : add32 base 0 = base := by
    rw [haddr]
    unfold Mm.pageIdToVa add32
    rw [Nat.add_zero, Nat.mod_mod]
  rw [hbase, hid] at hrun
  rw [hid] at hshort
  simp only [Option.bind_eq_some_iff, Prod.exists] at hrun
  rcases hrun with ⟨header, s₂, hslab, s₃, hupdate, hrun⟩
  rw [Option.some.injEq, Prod.mk.injEq] at hrun
  rcases header with _ | a
  · exact absurd hshort (getSlabFromPage_short _ s₂ q size base hzero hslab)
  -- The page is opened, the first slice is taken, and the rest is chosen from.
  have hk₁ := keeps_of_extends s _ _ S _ h (extends_openSlabPage s _ S h mm' z q _ htook hclear)
  have hopen := pageOk_openSlabPage s (live ++ s.aside) S h mm' z q _ htook hclear
  have hfull : ((Slab.openSlabPage { s with mm := mm' } q).mm.pageTable q).freeSize = pageSize ∧
      ((Slab.openSlabPage { s with mm := mm' } q).mm.pageTable q).freeBase = base := by
    have htab := htook.table q
    rw [if_pos (by omega)] at htab
    simp only [Slab.openSlabPage, Mm.setPage, Function.update_self, htab, Mm.freshPage]
    exact ⟨trivial, haddr.symm⟩
  have hsmall : size < pageSize := by
    unfold slabMax slabNode slabStep slabHeaderSize pageSize at hmax
    unfold pageSize
    omega
  rcases keeps_getSlabFromPage _ s₂ _ _ hk₁.sound q size a hopen hlow (by omega) hmax hslab
    with ⟨S₂, hk₂, hcur₂, haside₂, _, _⟩
  rw [hfull.2] at hk₂
  have haside : s₂.aside = s.aside := haside₂
  have hk₂' : Sound s₂ ((⟨base, size⟩ :: live) ++ s₂.aside) S₂ := by
    rw [haside]
    exact hk₂.sound
  have hroom₂ : (s₂.mm.pageTable q).freeSize ≤ slabMax := by
    have hend := (hk₂.sound.slots ⟨base, size⟩ (List.mem_cons_self ..)).2.2
    have hstart₂ : s₂.mm.kernelStart = mm'.kernelStart := hk₂.start
    rw [vaToPageId_of_start mm' s₂.mm hstart₂, hid] at hend
    unfold pageSize at hend
    unfold slabMax slabNode slabStep slabHeaderSize pageSize
    simp only at hend
    omega
  rcases keeps_updateSlabFreePage s₂ s₃ (⟨base, size⟩ :: live) S₂ hk₂' q (by
      intro p hp
      rw [haside]
      rcases hp with hp | hp
      · rw [hp]
        exact ⟨hk₂.pages q hopen, hroom₂⟩
      · rw [hcur₂] at hp
        rcases hcur p hp with ⟨hok, hroom⟩
        exact ⟨hk₂.pages p (hk₁.pages p hok),
          ((hk₂.room p (hk₁.pages p hok)).trans (hk₁.room p hok)).trans hroom⟩) hupdate
    with ⟨S₃, hk₃, hcur₃⟩
  have hgain : gain ret size (live ++ s'.aside) = (⟨base, size⟩ :: live) ++ s₃.aside := by
    rw [← hrun.1, ← hrun.2]
    unfold gain
    rw [if_neg hzero]
    rfl
  rw [haside] at hk₃
  have hk := keeps_trans _ _ _ _ _ _ S _ S₃ hk₁ (keeps_trans _ _ _ _ _ _ _ S₂ S₃ hk₂ hk₃)
  rw [hgain, ← hrun.2]
  refine ⟨S₃, hk, fun p hp => ?_⟩
  rcases hcur₃ p hp with hpq | hpc
  · rw [hpq]
    have hok := hk₂.pages q hopen
    exact ⟨hk₃.pages q hok, (hk₃.room q hok).trans hroom₂⟩
  · rw [hcur₂] at hpc
    rcases hcur p hpc with ⟨hok, hroom⟩
    exact ⟨hk.pages p hok, (hk.room p hok).trans hroom⟩

/-- The call gets as far as taking a new page, and then has no header for it. -/
def starved (s : Slab) (size : Nat) : Bool :=
  match s.lock with
  | none => false
  | some s =>
      match s.getSlabInList size gfpKernel with
      | some (0, s) =>
          match s.getSlabFromPageFree size with
          | some (0, s) => shortOfHeader s
          | _ => false
      | _ => false

/-- The current page, unless it was released, is in order and has been used. -/
def CurrentOk (s : Slab) (own : List SlabHeader) (S : Set MemNode) : Prop :=
  ∀ p, s.slabPageCurrent = some p → used s.mm.pageMap p = true →
    PageOk s own S p ∧ (s.mm.pageTable p).freeSize ≤ slabMax

/-- A change that keeps the slices in order keeps the current page in order,
    when it is still the same one. -/
theorem currentOk_keeps (s s' : Slab) (own own' : List SlabHeader) (S S' : Set MemNode)
    (hk : Keeps s own S s' own' S')
    (hcur : ∀ p, s'.slabPageCurrent = some p → PageOk s own S p ∧
      (s.mm.pageTable p).freeSize ≤ slabMax) : CurrentOk s' own' S' := by
  intro p hp _
  rcases hcur p hp with ⟨hok, hroom⟩
  exact ⟨hk.pages p hok, (hk.room p hok).trans hroom⟩

theorem getNewAllocSize_eq (size : Nat) (h : size ≤ slabMax) :
    getNewAllocSize size gfpKernel = (size + 15) / 16 * 16 := by
  unfold slabMax slabNode slabStep pageSize slabHeaderSize at h
  unfold getNewAllocSize
  rw [if_neg (by decide)]
  exact Mm.baligin_eq size 4 (by omega) (by omega)

/-- Handing out a slice and dropping the lock. -/
theorem alive_unlock (s : Slab) (own : List SlabHeader) (S : Set MemNode) (h : Sound s own S)
    (hcur : CurrentOk s own S) : Sound s.unlock own S ∧ CurrentOk s.unlock own S := by
  have hk := keeps_fields s own S h 0 s.slabPageCurrent s.aside
  exact ⟨hk.sound, fun p hp hset => ⟨hk.pages p (hcur p hp hset).1, (hcur p hp hset).2⟩⟩

theorem alive_alloc (s s' : Slab) (live : List SlabHeader) (S : Set MemNode) (size ret : Nat)
    (h : Sound s (live ++ s.aside) S) (hcur : CurrentOk s (live ++ s.aside) S)
    (hpos : 1 ≤ size) (hmax : size ≤ slabMax)
    (hcache : cacheOk s (getNewAllocSize size gfpKernel))
    (hheader : starved s (getNewAllocSize size gfpKernel) = false)
    (hrun : s.doKmalloc size gfpKernel = some (ret, s')) :
    ∃ S', Sound s' (gain ret (getNewAllocSize size gfpKernel) (live ++ s'.aside)) S' ∧
      CurrentOk s' (gain ret (getNewAllocSize size gfpKernel) (live ++ s'.aside)) S' := by
  have hbig : ¬(gfpKernel = gfpDma ∨ gfpKernel = gfpRes ∨ pageSize ≤ size) := by
    unfold slabMax slabNode slabStep slabHeaderSize pageSize at hmax
    unfold gfpKernel gfpDma gfpRes pageSize
    omega
  have hflag : ¬(gfpKernel = gfpDma ∨ gfpKernel = gfpRes) := by decide
  have hround : 16 ≤ getNewAllocSize size gfpKernel ∧
      getNewAllocSize size gfpKernel ≤ slabMax ∧
      listId (getNewAllocSize size gfpKernel) < slabNode := by
    rw [getNewAllocSize_eq size hmax]
    unfold listId
    unfold slabMax slabNode slabStep slabHeaderSize pageSize at *
    omega
  rcases hround with ⟨hlow, hhigh, hlist⟩
  unfold Slab.doKmalloc at hrun
  simp only [if_neg hbig, Option.pure_def, Option.bind_eq_bind, Option.bind_eq_some_iff,
    Prod.exists] at hrun
  rcases hrun with ⟨s₁, hlock, ret₂, s₂, hinList, hrun⟩
  unfold starved at hheader
  simp only [hlock, hinList] at hheader
  have hs₁ := (Slab.lock_cases s s₁ hlock).2
  have hk₁ : Keeps s (live ++ s.aside) S s₁ (live ++ s₁.aside) S := by
    rw [hs₁]
    exact keeps_fields s _ S h 1 s.slabPageCurrent s.aside
  have hcur₁ : CurrentOk s₁ (live ++ s₁.aside) S := by
    rw [hs₁] at hk₁ ⊢
    exact fun p hp hset => ⟨hk₁.pages p (hcur p hp hset).1, (hcur p hp hset).2⟩
  have hcache₁ : cacheOk s₁ (getNewAllocSize size gfpKernel) := by
    rw [hs₁]
    exact hcache
  -- First the cache list of the size.
  rcases keeps_getSlabInList s₁ s₂ live S _ ret₂ hk₁.sound hlist hcache₁ hinList
    with ⟨hk₂, hsame₂, hmap₂⟩
  have hcur₂ : CurrentOk s₂ (gain ret₂ (getNewAllocSize size gfpKernel) (live ++ s₂.aside)) S := by
    intro p hp hset
    rw [hsame₂] at hp
    rw [hmap₂] at hset
    rcases hcur₁ p hp hset with ⟨hok, hroom⟩
    exact ⟨hk₂.pages p hok, (hk₂.room p hok).trans hroom⟩
  by_cases hret₂ : ret₂ ≠ 0
  · rw [if_pos hret₂, Option.some.injEq, Prod.mk.injEq] at hrun
    rw [← hrun.1, ← hrun.2]
    exact ⟨S, alive_unlock s₂ _ S hk₂.sound hcur₂⟩
  rw [if_neg hret₂] at hrun
  have hzero₂ : ret₂ = 0 := by omega
  subst hzero₂
  simp only [Option.bind_eq_some_iff, Prod.exists] at hrun
  rcases hrun with ⟨ret₃, s₃, hinPage, hrun⟩
  simp only [hinPage] at hheader
  -- Then the current page, when it has room.
  rcases keeps_getSlabFromPageFree s₂ s₃ (live ++ s₂.aside) S hk₂.sound _ ret₃ hlow hhigh
    (fun p hp hset => (hcur₂ p hp hset).1) hinPage with ⟨S₃, hk₃, haside₃, hsame₃⟩
  rw [← haside₃] at hk₃
  have hcur₃ : ∀ p, s₃.slabPageCurrent = some p →
      PageOk s₂ (live ++ s₃.aside) S p ∧ (s₂.mm.pageTable p).freeSize ≤ slabMax := by
    intro p hp
    rw [haside₃]
    rcases hsame₃ p hp with ⟨hp₂, hok⟩
    exact hcur₂ p hp₂ hok.set
  by_cases hret₃ : ret₃ ≠ 0
  · rw [if_pos hret₃, Option.some.injEq, Prod.mk.injEq] at hrun
    rw [← hrun.1, ← hrun.2]
    exact ⟨S₃, alive_unlock s₃ _ S₃ hk₃.sound (currentOk_keeps s₂ s₃ _ _ S S₃ hk₃ hcur₃)⟩
  rw [if_neg hret₃] at hrun
  have hzero₃ : ret₃ = 0 := by omega
  subst hzero₃
  simp only [Option.bind_eq_some_iff, Prod.exists] at hrun
  rcases hrun with ⟨ret₄, s₄, hnew, hrun⟩
  unfold Slab.getNewSlab at hnew
  rw [if_neg hflag] at hnew
  -- At last a new page.
  have hcur₃' : ∀ p, s₃.slabPageCurrent = some p → PageOk s₃ (live ++ s₃.aside) S₃ p ∧
      (s₃.mm.pageTable p).freeSize ≤ slabMax := by
    intro p hp
    rcases hcur₃ p hp with ⟨hok, hroom⟩
    exact ⟨hk₃.pages p hok, (hk₃.room p hok).trans hroom⟩
  rcases keeps_getKernelSlab s₃ s₄ live S₃ hk₃.sound _ ret₄ hlow hhigh hcur₃' hheader hnew
    with ⟨S₄, hk₄, hcur₄⟩
  rw [Option.some.injEq, Prod.mk.injEq] at hrun
  rw [← hrun.1, ← hrun.2]
  exact ⟨S₄, alive_unlock s₄ _ S₄ hk₄.sound (fun p hp _ => hcur₄ p hp)⟩

/-- A header that was found is a node in use. -/
theorem findHeader_mem (s : Slab) (S : Set MemNode) (hclosed : Closed s.mm.links S)
    (head : MemNode) (addr header : Nat) : ∀ (fuel : Nat) (list : MemNode), list ∈ S →
      s.findHeader head addr fuel list = some (some header) → MemNode.header header ∈ S := by
  intro fuel
  induction fuel with
  | zero =>
      intro list _ h
      exact absurd h (by simp only [Slab.findHeader, reduceCtorEq, not_false_eq_true])
  | succ fuel ih =>
      intro list hlist h
      -- The walk stays among the nodes in use, since these are closed under `next`.
      unfold Slab.findHeader at h
      by_cases hhead : list = head
      · rw [if_pos hhead] at h
        exact absurd h (by simp only [Option.some.injEq, reduceCtorEq, not_false_eq_true])
      rw [if_neg hhead] at h
      cases list with
      | header a =>
          simp only at h
          by_cases hbase : (s.header a).base = addr
          · rw [if_pos hbase, Option.some.injEq, Option.some.injEq] at h
            rw [← h]
            exact hlist
          · rw [if_neg hbase] at h
            exact ih _ (hclosed _ hlist).1 h
      | _ => exact absurd h (by simp only [reduceCtorEq, not_false_eq_true])

/-- Dropping a reference marks no page and moves no free part. -/
theorem pagePut_frame (mm mm' : Mm) (q : Nat) (h : mm.pagePut q = some mm') (p : Nat) :
    (used mm'.pageMap p = true → used mm.pageMap p = true) ∧
      (mm'.pageTable p).freeSize = (mm.pageTable p).freeSize := by
  have hset : ((mm.setPage q { mm.pageTable q with
      usage := ((mm.pageTable q).usage + 255) % 256 }).pageTable p).freeSize
        = (mm.pageTable p).freeSize := by
    unfold Mm.setPage
    by_cases hpq : p = q
    · rw [hpq]
      simp only [Function.update_self]
    · simp only [Function.update_of_ne hpq]
  unfold Mm.pagePut at h
  simp only at h
  by_cases hzero : ((mm.pageTable q).usage + 255) % 256 = 0
  · -- Only the last reference calls `free_pages`, which clears bits.
    rw [if_pos hzero] at h
    rcases Mm.freePages_cases _ mm' _ h with heq | ⟨z, _, _, _, hgave⟩
    · rw [heq]
      exact ⟨fun hused => hused, hset⟩
    · rw [hgave.table]
      refine ⟨fun hused => ?_, hset⟩
      rw [hgave.bits] at hused
      split at hused
      · exact absurd hused Bool.false_ne_true
      · exact hused
  · rw [if_neg hzero, Option.some.injEq] at h
    rw [← h]
    exact ⟨fun hused => hused, hset⟩

theorem alive_kfreeSlice (s s' : Slab) (b : SlabHeader) (rest : List SlabHeader)
    (S : Set MemNode) (h : Sound s (b :: rest) S) (hcur : CurrentOk s (b :: rest) S)
    (hrun : s.kfreeSliceSlab (s.mm.vaToPageId b.base) b.base = some s') :
    Sound s' rest S ∧ CurrentOk s' rest S ∧ s'.aside = s.aside := by
  unfold Slab.kfreeSliceSlab at hrun
  simp only [Option.pure_def, Option.bind_eq_bind, Option.bind_eq_some_iff] at hrun
  rcases hrun with ⟨found, hfind, hrun⟩
  rcases found with _ | header
  · -- The header was not found: the page keeps the reference.
    simp only [Option.some.injEq] at hrun
    rw [← hrun]
    have hk := keeps_forget s b rest S h
    exact ⟨hk.sound, fun p hp hset => ⟨hk.pages p (hcur p hp hset).1, (hcur p hp hset).2⟩, rfl⟩
  simp only [Option.bind_eq_some_iff, Option.some.injEq] at hrun
  rcases hrun with ⟨mm', hput, hrun⟩
  have hok := (h.slots b (List.mem_cons_self ..)).2.1
  have hheader := findHeader_mem s S h.closed _ _ header _ _ (h.closed _ hok.node).1 hfind
  have hlist := h.caches _ (h.sizes header hheader)
  have hdel := closed_listDel s.mm.links S h.closed (.header header) hheader
  -- The header moves to the cache list of its size.
  have hk := keeps_of_extends s _ _ S S h (extends_setLinks s _ S h
    (listAdd (listDel s.mm.links (.header header)) (.cache (listId (s.header header).size))
      (.header header)) (closed_listAdd _ S hdel _ _ hlist hheader) (by
        rw [(listAdd_outside _ S hdel _ _ _ hlist hheader h.offFree).1,
          (listDel_outside _ S h.closed _ _ hheader h.offFree).1]))
  rcases sound_put _ b rest S hk.sound mm' hput with ⟨hsound, hpages⟩
  rw [← hrun]
  refine ⟨hsound, fun p hp hset => ?_, rfl⟩
  have hgrow := pagePut_frame _ mm' _ hput p
  rcases hcur p hp (hgrow.1 hset) with ⟨hpage, hroom⟩
  exact ⟨hpages p (hk.pages p hpage) hset, le_of_eq_of_le hgrow.2 hroom⟩

theorem alive_free (s s' : Slab) (b : SlabHeader) (rest : List SlabHeader) (S : Set MemNode)
    (h : Sound s (b :: rest) S) (hcur : CurrentOk s (b :: rest) S)
    (hrun : s.kfreeKernelMem b.base = some s') :
    Sound s' rest S ∧ CurrentOk s' rest S ∧ s'.aside = s.aside := by
  unfold Slab.kfreeKernelMem at hrun
  simp only [Option.pure_def, Option.bind_eq_bind, Option.bind_eq_some_iff] at hrun
  rcases hrun with ⟨s₁, hlock, hrun⟩
  -- The lock word is no part of the invariant.
  have hs₁ := (Slab.lock_cases s s₁ hlock).2
  have hk := keeps_fields s (b :: rest) S h 1 s.slabPageCurrent s.aside
  rw [← hs₁] at hk
  have hcur₁ : CurrentOk s₁ (b :: rest) S := by
    rw [hs₁] at hk ⊢
    exact fun p hp hset => ⟨hk.pages p (hcur p hp hset).1, (hcur p hp hset).2⟩
  -- The block is live, so its page is a slab page and the slice path is taken.
  have hok := (hk.sound.slots b (List.mem_cons_self ..)).2.1
  rw [if_pos hok.slab] at hrun
  simp only [Option.bind_eq_some_iff, Option.some.injEq] at hrun
  rcases hrun with ⟨s₂, hslice, hrun⟩
  rcases alive_kfreeSlice s₁ s₂ b rest S hk.sound hcur₁ hslice with ⟨hsound, hcur₂, haside⟩
  rcases alive_unlock s₂ rest S hsound hcur₂ with ⟨hsound', hcur'⟩
  rw [← hrun]
  refine ⟨hsound', hcur', haside.trans ?_⟩
  rw [hs₁]

end Mirros
