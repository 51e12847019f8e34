import Mirros.Theory.Slab.Filed

/-!
# Carving Headers and Slices

The steps of the allocator that do more than edit a list, each as a change that keeps the
headers filed: getting a header, taking a slice, and dropping a reference.

Getting a header may take a page for headers. That page is clear, so it is not one of
those slices are taken from; the pages that are marked keep their free part. Dropping the
last reference may give pages back, as many as the entry of the page counts, and these
have to be no header pages.

## Main definitions

* `sparesHeaders`: `free_pages` gives back no header page.
* `Broadens`: More pages and nodes are in use.
* `FreshHeader`: A header that is not in use yet.

## Theorems

* `filed_getNewSlabHeader`: Getting a header.
* `filed_takeSlice`: Taking a slice.
* `filed_pagePut`: Dropping a reference.
-/

namespace Mirros

/-- What `free_pages` would give back at the address is no header page. -/
def sparesHeaders (mm : Mm) (addr : Nat) : Prop :=
  isAligin addr pageSize = true → (mm.pageTable (mm.vaToPageId addr)).flag &&& gfpPageHeader ≠ 0 →
    ∀ q ∈ List.range' (mm.vaToPageId addr) (mm.pageTable (mm.vaToPageId addr)).count,
      (mm.pageTable q).flag &&& gfpSlabHeaderBit = 0

instance (mm : Mm) (addr : Nat) : Decidable (sparesHeaders mm addr) :=
  inferInstanceAs (Decidable (_ → _ → _))

/-- More pages and nodes are in use, and the pages in use can be carved, with no more
    room than before. -/
structure Broadens (s : Slab) (H : Set Nat) (S : Set MemNode) (s' : Slab) (H' : Set Nat)
    (S' : Set MemNode) : Prop where
  nodes : S ⊆ S'
  start : s'.mm.kernelStart = s.mm.kernelStart
  marks : ∀ p, used s.mm.pageMap p = true → used s'.mm.pageMap p = true
  carvable : ∀ p, used s.mm.pageMap p = true → Carvable s.mm H S p →
    Carvable s'.mm H' S' p ∧ (s'.mm.pageTable p).freeSize ≤ (s.mm.pageTable p).freeSize

theorem broadens_refl (s : Slab) (H : Set Nat) (S : Set MemNode) : Broadens s H S s H S :=
  ⟨Set.Subset.refl S, rfl, fun _ hp => hp, fun _ _ hp => ⟨hp, Nat.le_refl _⟩⟩

theorem broadens_trans (s₁ s₂ s₃ : Slab) (H₁ H₂ H₃ : Set Nat) (S₁ S₂ S₃ : Set MemNode)
    (h₁₂ : Broadens s₁ H₁ S₁ s₂ H₂ S₂) (h₂₃ : Broadens s₂ H₂ S₂ s₃ H₃ S₃) :
    Broadens s₁ H₁ S₁ s₃ H₃ S₃ := by
  refine ⟨h₁₂.nodes.trans h₂₃.nodes, h₂₃.start.trans h₁₂.start,
    fun p hp => h₂₃.marks p (h₁₂.marks p hp), fun p hp hc => ?_⟩
  rcases h₁₂.carvable p hp hc with ⟨hc₂, hsize₂⟩
  rcases h₂₃.carvable p (h₁₂.marks p hp) hc₂ with ⟨hc₃, hsize₃⟩
  exact ⟨hc₃, hsize₃.trans hsize₂⟩

/-- A header that is not in use, and behind which the current header page goes on. -/
structure FreshHeader (s : Slab) (H : Set Nat) (S : Set MemNode) (a : Nat) : Prop where
  off : MemNode.header a ∉ S
  inside : s.mm.vaToPageId a ∈ H
  below : ∀ q, s.table.tablePageCurrent = some q → s.mm.vaToPageId a = q →
    sub32 a s.mm.kernelStart % pageSize < slabHeaderSize * s.table.headerInPage

/-- Writing entries of other pages, or entries with the same free part. -/
theorem carvable_setPage (mm : Mm) (H : Set Nat) (S : Set MemNode) (p pg : Nat) (page : Page)
    (hsame : p = pg → page.freeSize = (mm.pageTable p).freeSize ∧
      page.freeBase = (mm.pageTable p).freeBase)
    (h : Carvable mm H S p) : Carvable (mm.setPage pg page) H S p := by
  have hentry : ((mm.setPage pg page).pageTable p).freeSize = (mm.pageTable p).freeSize ∧
      ((mm.setPage pg page).pageTable p).freeBase = (mm.pageTable p).freeBase := by
    unfold Mm.setPage
    by_cases hp : p = pg
    · have hfields := hsame hp
      rw [hp] at hfields ⊢
      simp only [Function.update_self]
      exact hfields
    · simp only [Function.update_of_ne hp, and_self]
  refine ⟨h.node, h.bound, h.plain, ?_, ?_, ?_⟩
  · rw [hentry.1]
    exact h.step
  · rw [hentry.1]
    exact h.room
  · rw [hentry.1, hentry.2]
    exact h.base

section

variable (s : Slab) (H : Set Nat) (S heads : Set MemNode) (f : MemNode → List MemNode)
  (h : Filed s H S heads f)

include h

/-- Writing the entry of a page. A header page keeps its flag and its start. -/
theorem filed_setPage (pg : Nat) (page : Page) (hpg : pg ∈ H →
    page.flag = (s.mm.pageTable pg).flag ∧ page.freeBase = (s.mm.pageTable pg).freeBase) :
    Filed { s with mm := s.mm.setPage pg page } H S heads f := by
  have hentry : ∀ q ∈ H, ((s.mm.setPage pg page).pageTable q).flag = (s.mm.pageTable q).flag ∧
      ((s.mm.setPage pg page).pageTable q).freeBase = (s.mm.pageTable q).freeBase := by
    intro q hq
    unfold Mm.setPage
    by_cases hqp : q = pg
    · have hsame := hpg (hqp ▸ hq)
      rw [hqp]
      simp only [Function.update_self]
      exact hsame
    · simp only [Function.update_of_ne hqp, and_self]
  refine ⟨h.words, h.start, h.closed, h.offFree, h.noFree, h.tableHead, h.tableNext, h.tablePage,
    h.tableCache, h.rings, h.caches, h.onHeads, h.members, h.sized, fun a ha => ?_,
    fun q hq => ?_, fun q hq => ?_⟩
  · exact headerOk_mono s.mm _ _ H H S S a rfl (Set.Subset.refl H) (Set.Subset.refl S)
      (h.headers a ha)
  · simp only [(hentry q hq).1]
    exact h.marked q hq
  · rcases h.table q hq with ⟨hqH, hcount, hbase, hbelow⟩
    simp only [(hentry q hqH).2]
    exact ⟨hqH, hcount, hbase, hbelow⟩

/-- The current header page gives one more header. -/
theorem filed_carveHeader (q : Nat) (hq : s.table.tablePageCurrent = some q)
    (hroom : s.table.headerInPage < pageSize / slabHeaderSize) (a : Nat) (s' : Slab)
    (hrun : Slab.getSlabHeaderFromPage
      { s with table := { s.table with headerInPage := s.table.headerInPage + 1 } } q = (a, s')) :
    Filed s' H S heads f ∧ Broadens s H S s' H S ∧ FreshHeader s' H S a ∧
      s'.slabPageCurrent = s.slabPageCurrent ∧
      ∀ p, p ∉ H → s'.mm.pageTable p = s.mm.pageTable p := by
  simp only [Slab.getSlabHeaderFromPage, Slab.bumpPage, Slab.pageGet, Mm.pageGet, Mm.setPage,
    Function.update_self, Function.update_idem, Prod.mk.injEq] at hrun
  rcases hrun with ⟨ha, hs'⟩
  rcases h.table q hq with ⟨hqH, _, hbase, hbelow⟩
  have hbound := (h.marked q hqH).1
  have hwords := h.words
  -- The header is at the end of the headers of the page, so it is none of them.
  have hoff := page_of_offset s.mm q (slabHeaderSize * s.table.headerInPage) h.start (by omega)
    (by
      unfold pageSize slabHeaderSize at hroom ⊢
      omega)
  rw [← hbase, ha] at hoff
  have hfresh : MemNode.header a ∉ S := by
    intro hc
    have hlt := hbelow a hc hoff.1
    rw [hoff.2] at hlt
    exact Nat.lt_irrefl _ hlt
  have hother : ∀ p, p ≠ q → s'.mm.pageTable p = s.mm.pageTable p := by
    intro p hp
    rw [← hs']
    simp only [Function.update_of_ne hp]
  have hflag : ∀ p, (s'.mm.pageTable p).flag = (s.mm.pageTable p).flag := by
    intro p
    by_cases hp : p = q
    · rw [← hs', hp]
      simp only [Function.update_self]
    · rw [hother p hp]
  have hnext : add32 a slabHeaderSize
      = add32 (s.mm.pageIdToVa q) (slabHeaderSize * (s.table.headerInPage + 1)) := by
    rw [← ha, hbase, Nat.mul_add, Nat.mul_one]
    unfold add32 u32Size
    omega
  have hnewBase : (s'.mm.pageTable q).freeBase = add32 a slabHeaderSize := by
    rw [← hs', ← ha]
    simp only [Function.update_self]
  refine ⟨?_, ?_, ?_, ?_, fun p hp => hother p (fun hpq => hp (hpq ▸ hqH))⟩
  · have hmarked : ∀ p ∈ H, p < 32 * s'.mm.mapWords ∧ used s'.mm.pageMap p = true ∧
        (s'.mm.pageTable p).flag &&& gfpSlabHeaderBit ≠ 0 := by
      intro p hp
      rw [hflag, ← hs']
      exact h.marked p hp
    have htable : ∀ p, s'.table.tablePageCurrent = some p → p ∈ H ∧
        s'.table.headerInPage ≤ pageSize / slabHeaderSize ∧
        (s'.mm.pageTable p).freeBase
          = add32 (s'.mm.pageIdToVa p) (slabHeaderSize * s'.table.headerInPage) ∧
        ∀ b, MemNode.header b ∈ S → s'.mm.vaToPageId b = p →
          sub32 b s'.mm.kernelStart % pageSize < slabHeaderSize * s'.table.headerInPage := by
      intro p hp
      have hpq : p = q := by
        rw [← hs'] at hp
        exact (Option.some.inj (hq.symm.trans hp)).symm
      rw [hpq, hnewBase, hnext, ← hs']
      refine ⟨hqH, hroom, rfl, fun b hb hbq => ?_⟩
      exact lt_of_lt_of_le (hbelow b hb hbq) (Nat.mul_le_mul_left _ (Nat.le_succ _))
    have hheaders : ∀ b, MemNode.header b ∈ S → HeaderOk s'.mm (s'.header b) H S b := by
      intro b hb
      rw [← hs']
      exact headerOk_mono s.mm _ _ H H S S b rfl (Set.Subset.refl H) (Set.Subset.refl S)
        (h.headers b hb)
    rw [← hs'] at hmarked htable hheaders ⊢
    exact ⟨h.words, h.start, h.closed, h.offFree, h.noFree, h.tableHead, h.tableNext, h.tablePage,
      h.tableCache, h.rings, h.caches, h.onHeads, h.members, h.sized, hheaders, hmarked, htable⟩
  · refine ⟨Set.Subset.refl S, by rw [← hs'], fun p hp => by rw [← hs']; exact hp,
      fun p _ hc => ⟨?_, ?_⟩⟩
    · rw [← hs']
      exact carvable_setPage s.mm H S p q _ (fun hpq => absurd hqH (hpq ▸ hc.plain)) hc
    · rw [hother p (fun hpq => hc.plain (hpq ▸ hqH))]
  · refine ⟨hfresh, ?_, fun p hp hap => ?_⟩
    · rw [← hs']
      exact hoff.1 ▸ hqH
    · rw [← hs']
      change sub32 a s.mm.kernelStart % pageSize < slabHeaderSize * (s.table.headerInPage + 1)
      rw [hoff.2]
      unfold slabHeaderSize
      omega
  · rw [← hs']

end

section

variable (s : Slab) (H : Set Nat) (S heads : Set MemNode) (f : MemNode → List MemNode)
  (h : Filed s H S heads f)
  (hmarked : ∀ p, MemNode.page p ∈ heads → used s.mm.pageMap p = true)

include h

/-- A page off the rings becomes the current header page, with no header carved yet. -/
theorem filed_startHeaderPage (q : Nat) (hq : q < 32 * s.mm.mapWords)
    (hset : used s.mm.pageMap q = true) (hflag : (s.mm.pageTable q).flag &&& gfpSlabHeaderBit ≠ 0)
    (hnode : MemNode.page q ∈ S) (hoff : MemNode.page q ∉ heads) (hplain : q ∉ H) (base : Nat)
    (hbase : s.mm.vaToPageId base = q) :
    Filed { s.startHeaderPage base with
      table := { (s.startHeaderPage base).table with headerInPage := 0 } } (insert q H) S heads f := by
  have hwords := h.words
  have hself := Mm.vaToPageId_pageIdToVa s.mm q h.start (by omega)
  have hringOff : MemNode.page q ∉ ringNodes heads f := fun hc =>
    hoff ((filed_ringNodes s H S heads f h _ hc).2.2 q rfl)
  -- Neither the head of the header pages nor its first page is on a ring.
  have htableOff : MemNode.tableList ∉ ringNodes heads f := fun hc =>
    (filed_ringNodes s H S heads f h _ hc).2.1 rfl
  have hnextOff : s.mm.links.next .tableList ∉ ringNodes heads f := by
    rintro ⟨n, hn, hmem⟩
    rcases List.mem_cons.mp hmem with heq | hmem
    · rcases (h.onHeads n hn).2 with ⟨i, _, hi⟩ | ⟨p, hp, hpH⟩
      · exact h.tableCache i (heq.trans hi)
      · exact hpH (h.tablePage p (heq.trans hp))
    · rcases h.members n hn _ hmem with ⟨a, ha, _⟩
      exact h.tableNext a ha
  have hrings : Rings (listAdd s.mm.links .tableList (.page q)) heads f := by
    rw [listAdd_eq_link]
    exact rings_link_off _ heads f (rings_link_off _ heads f h.rings _ _ hringOff hnextOff) _ _
      htableOff hringOff
  have hnext : (listAdd s.mm.links .tableList (.page q)).next .tableList = .page q := by
    rw [listAdd_eq_link, Links.link_next, if_pos rfl]
  have hfree := (listAdd_outside s.mm.links S h.closed _ _ _ h.tableHead hnode h.offFree).1
  have hclosed := closed_listAdd s.mm.links S h.closed _ _ h.tableHead hnode
  unfold Slab.startHeaderPage
  simp only [hbase]
  refine ⟨h.words, h.start, hclosed, h.offFree, hfree.trans h.noFree, h.tableHead, fun a ha => ?_,
    fun p hp => ?_, fun i hi => ?_, hrings, h.caches, fun n hn => ?_, h.members, h.sized,
    fun a ha => ?_, fun p hp => ?_, fun p hp => ?_⟩
  · exact MemNode.noConfusion (hnext.symm.trans ha)
  · exact Or.inl (MemNode.page.inj (hp.symm.trans hnext))
  · exact MemNode.noConfusion (hnext.symm.trans hi)
  · refine ⟨(h.onHeads n hn).1, (h.onHeads n hn).2.imp_right ?_⟩
    rintro ⟨p, hp, hpH⟩
    refine ⟨p, hp, fun hc => ?_⟩
    rcases Set.mem_insert_iff.mp hc with hpq | hc
    · rw [hp, hpq] at hn
      exact hoff hn
    · exact hpH hc
  · exact headerOk_mono s.mm _ _ H _ S S a rfl (Set.subset_insert q H) (Set.Subset.refl S)
      (h.headers a ha)
  · rcases Set.mem_insert_iff.mp hp with hpq | hp
    · rw [hpq]
      simp only [Mm.setPage, Function.update_self]
      exact ⟨hq, hset, hflag⟩
    · have hne : p ≠ q := fun hc => hplain (hc ▸ hp)
      simp only [Mm.setPage, Function.update_of_ne hne]
      exact h.marked p hp
  · rw [← Option.some.inj hp]
    simp only [Mm.setPage, Function.update_self]
    refine ⟨Set.mem_insert q H, Nat.zero_le _, ?_, fun a ha haq => ?_⟩
    · unfold Mm.pageIdToVa add32
      simp only [Nat.mul_zero, Nat.add_zero, Nat.mod_mod]
    · -- The headers in use are in the older header pages.
      exact absurd (haq ▸ (h.headers a ha).inside) hplain

section HeaderPage

variable (mm' : Mm) (z : ZoneId) (q : Nat) (zone' : Zone)
  (htook : Mm.Took s.mm mm' z q 1 gfpSlabHeader zone') (hclear : used s.mm.pageMap q = false)

include htook hclear

omit h in
/-- A page in use is another one than the page that is taken, and stays as it is. -/
theorem tookHeader_used (p : Nat) (hp : used s.mm.pageMap p = true) :
    p ≠ q ∧ used mm'.pageMap p = true ∧ mm'.pageTable p = s.mm.pageTable p := by
  have hne := ne_of_used _ p q hp hclear
  refine ⟨hne, ?_, ?_⟩
  · rw [htook.bits]
    split
    · rfl
    · exact hp
  · rw [htook.table, if_neg (by omega)]

theorem tookHeader_filed : Filed { s with mm := mm' } H (S ∪ runNodes q 1) heads
    (fun n => if n ∈ runNodes q 1 then [] else f n) := by
  refine filed_took s H S heads f h mm' z q 1 _ _ htook (fun p hlow hhigh => ?_)
  have hpq : p = q := by omega
  rw [hpq]
  exact hclear

omit h in
theorem tookHeader_broadens : Broadens s H S { s with mm := mm' } H (S ∪ runNodes q 1) := by
  refine ⟨Set.subset_union_left, htook.start, fun p hp => ?_, fun p hp hc => ?_⟩
  · exact (tookHeader_used s mm' z q zone' htook hclear p hp).2.1
  · have hentry := (tookHeader_used s mm' z q zone' htook hclear p hp).2.2
    exact ⟨carvable_took s H S mm' z q 1 _ _ htook p hc, by simp only [hentry, Nat.le_refl]⟩

omit h in
/-- The new page becomes the header page, and the pages in use are others. -/
theorem startedHeader_broadens (base : Nat) (hid : mm'.vaToPageId base = q) :
    Broadens s H S { Slab.startHeaderPage { s with mm := mm' } base with
      table := { (Slab.startHeaderPage { s with mm := mm' } base).table with headerInPage := 0 } }
      (insert q H) (S ∪ runNodes q 1) := by
  have hstep := tookHeader_broadens s H S mm' z q zone' htook hclear
  refine ⟨hstep.nodes, htook.start, hstep.marks, fun p hp hc => ?_⟩
  rcases tookHeader_used s mm' z q zone' htook hclear p hp with ⟨hne, -, hentry⟩
  have hold := carvable_setPage mm' H _ p q
    { mm'.pageTable q with freeBase := mm'.pageIdToVa q, freeSize := pageSize }
    (fun hpq => absurd hpq hne)
    (carvable_took s H S mm' z q 1 _ _ htook p hc)
  unfold Slab.startHeaderPage
  simp only [hid]
  refine ⟨⟨hold.node, hold.bound, fun hmem => ?_, hold.step, hold.room, hold.base⟩, ?_⟩
  · rcases Set.mem_insert_iff.mp hmem with hpq | hmem
    · exact hne hpq
    · exact hc.plain hmem
  · simp only [Mm.setPage, Function.update_of_ne hne, hentry, Nat.le_refl]

end HeaderPage

include hmarked

/-- Getting a header: nothing on the lists changes, and the header is in no use. -/
theorem filed_getNewSlabHeader (header : Option Nat) (s' : Slab)
    (hrun : s.getNewSlabHeader = some (header, s')) :
    s'.slabPageCurrent = s.slabPageCurrent ∧
      (∀ p, used s.mm.pageMap p = true → p ∉ H → s'.mm.pageTable p = s.mm.pageTable p) ∧
      ∃ H' S' g, Filed s' H' S' heads g ∧ Broadens s H S s' H' S' ∧
        (∀ a, header = some a → FreshHeader s' H' S' a) ∧ (∀ n ∈ heads, g n = f n) ∧
        (∀ b, MemNode.header b ∈ S' → MemNode.header b ∈ S) := by
  have hempty : isListEmpty s.mm.links .freeHeader = true := by
    simp only [isListEmpty, h.noFree, decide_true]
  unfold Slab.getNewSlabHeader at hrun
  simp only [hempty, Bool.not_true, Bool.false_eq_true, if_false] at hrun
  rcases hslot : (if s.table.headerInPage < pageSize / slabHeaderSize then
      s.table.tablePageCurrent else none) with _ | q
  swap
  · -- The current header page has room.
    have hroom : s.table.headerInPage < pageSize / slabHeaderSize := by
      by_contra hc
      rw [if_neg hc] at hslot
      exact absurd hslot.symm (Option.some_ne_none q)
    rw [if_pos hroom] at hslot
    simp only [if_pos hroom, hslot, Option.some.injEq, Prod.mk.injEq] at hrun
    rw [← hslot] at hrun
    rcases filed_carveHeader s H S heads f h q hslot hroom _ s' (Prod.ext rfl hrun.2) with
      ⟨hfiled, hgrow, hfresh, hcur, hentry⟩
    refine ⟨hcur, fun p _ hp => hentry p hp, H, S, f, hfiled, hgrow, fun a ha => ?_,
      fun _ _ => rfl, fun _ hb => hb⟩
    rw [← hrun.1, Option.some.injEq] at ha
    rw [← ha]
    exact hfresh
  -- A page is taken for headers.
  simp only [hslot, Option.pure_def, Option.bind_eq_bind, Option.bind_eq_some_iff,
    Prod.exists] at hrun
  rcases hrun with ⟨base, mm', hget, hrun⟩
  unfold Mm.getFreePage at hget
  rcases Mm.getFreePages_cases s.mm mm' 1 gfpSlabHeader base hget with
    ⟨hzero, hmm⟩ | ⟨z, q, _, _, hfind, hne, haddr, htook⟩
  · rw [if_pos hzero, hmm, Option.some.injEq, Prod.mk.injEq] at hrun
    rw [← hrun.2]
    exact ⟨rfl, fun _ _ _ => rfl, H, S, f, h, broadens_refl s H S,
      fun a ha => absurd (hrun.1.trans ha).symm (Option.some_ne_none a), fun _ _ => rfl,
      fun _ hb => hb⟩
  have hclear := findContinousPages_one s.mm _ q h.words hfind hne
  have hfiled := tookHeader_filed s H S heads f h mm' z q _ htook hclear
  have hused := tookHeader_used s mm' z q _ htook hclear
  -- The new page has none of the lists, and its node is that of a page.
  have hsame : ∀ n ∈ heads, (if n ∈ runNodes q 1 then [] else f n) = f n := by
    intro n hn
    refine if_neg fun hc => ?_
    rcases runNodes_page _ _ _ hc with ⟨p, hp⟩
    have hpq := (page_mem_runNodes q 1 p).mp (hp ▸ hc)
    exact (hused p (hmarked p (hp ▸ hn))).1 (by omega)
  have hnodes : ∀ b, MemNode.header b ∈ S ∪ runNodes q 1 → MemNode.header b ∈ S := by
    intro b hb
    refine hb.resolve_right fun hc => ?_
    rcases runNodes_page _ _ _ hc with ⟨p, hp⟩
    exact MemNode.noConfusion hp
  by_cases hzero : base = 0
  · rw [if_pos hzero, Option.some.injEq, Prod.mk.injEq] at hrun
    rw [← hrun.2]
    exact ⟨rfl, fun p hp _ => (hused p hp).2.2, H, _, _, hfiled,
      tookHeader_broadens s H S mm' z q _ htook hclear,
      fun a ha => absurd (hrun.1.trans ha).symm (Option.some_ne_none a), hsame, hnodes⟩
  rw [if_neg hzero, Option.some.injEq, Prod.mk.injEq] at hrun
  have hid : mm'.vaToPageId base = q := by
    rw [haddr, vaToPageId_of_start s.mm mm' htook.start]
    exact first_of_bound s.mm q 1 h.start h.words (by omega) htook.bound
  have hbound : q < 32 * mm'.mapWords := by
    have hb := htook.bound
    rw [htook.words]
    omega
  have hset : used mm'.pageMap q = true := by
    rw [htook.bits, if_pos (by omega)]
  have hflag : (mm'.pageTable q).flag &&& gfpSlabHeaderBit ≠ 0 := by
    rw [htook.table, if_pos (by omega)]
    simp only [Mm.freshPage]
    decide
  have hplain : q ∉ H := fun hc => (hused q (h.marked q hc).2.1).1 rfl
  have hstarted := filed_startHeaderPage { s with mm := mm' } H _ heads _ hfiled q hbound hset hflag
    (Or.inr ((page_mem_runNodes q 1 q).mpr (by omega)))
    (fun hc => (hused q (hmarked q hc)).1 rfl) hplain base hid
  have hid' : (Slab.startHeaderPage { s with mm := mm' } base).mm.vaToPageId base = q := hid
  rw [hid'] at hrun
  rcases filed_carveHeader _ _ _ heads _ hstarted q (congrArg some hid)
    (show 0 < pageSize / slabHeaderSize by decide) _ s' (Prod.ext rfl hrun.2) with
    ⟨hlast, hgrow', hfresh, hcur, hcarve⟩
  refine ⟨hcur, fun p hp hpH => ?_, insert q H, _, _, hlast, ?_, fun a ha => ?_, hsame, hnodes⟩
  · rcases hused p hp with ⟨hne, -, hentry⟩
    have hnot : p ∉ insert q H := fun hmem =>
      (Set.mem_insert_iff.mp hmem).elim (fun hpq => hne hpq) hpH
    rw [hcarve p hnot, ← hentry]
    unfold Slab.startHeaderPage
    simp only [hid, Mm.setPage, Function.update_of_ne hne]
  · exact broadens_trans _ _ _ _ _ _ _ _ _
      (startedHeader_broadens s H S mm' z q _ htook hclear base hid) hgrow'
  · rw [← hrun.1, Option.some.injEq] at ha
    rw [← ha]
    exact hfresh

end

section

variable (s : Slab) (H : Set Nat) (S heads : Set MemNode) (f : MemNode → List MemNode)
  (h : Filed s H S heads f)

include h

/-- A new header comes into use, on no list yet. -/
theorem filed_initSlabHeader (a size base : Nat) (hfresh : FreshHeader s H S a)
    (hstep : size % 16 = 0) (hlow : 16 ≤ size) (hmax : size ≤ slabMax)
    (hpage : MemNode.page (s.mm.vaToPageId base) ∈ S) :
    Filed (s.initSlabHeader a size base) H (insert (.header a) S) heads f := by
  have hoff : MemNode.header a ∉ ringNodes heads f := fun hc =>
    hfresh.off (filed_ringNodes s H S heads f h _ hc).1
  have hstay : ∀ n, n ≠ .header a →
      (initList s.mm.links (.header a)).next n = s.mm.links.next n ∧
        (initList s.mm.links (.header a)).pre n = s.mm.links.pre n := by
    intro n hn
    unfold initList
    simp only [Links.setPre_next, Links.setNext_next, Links.setPre_pre, Links.setNext_pre,
      if_neg hn, and_self]
  have hsame : ∀ b, MemNode.header b ∈ S → Function.update s.header a ⟨base, size⟩ b
      = s.header b := by
    intro b hb
    have hne : b ≠ a := fun hc => hfresh.off (hc ▸ hb)
    rw [Function.update_of_ne hne]
  have hold : ∀ b, MemNode.header b ∈ insert (MemNode.header a) S → b = a ∨
      MemNode.header b ∈ S := by
    intro b hb
    exact (Set.mem_insert_iff.mp hb).imp_left MemNode.header.inj
  have htable := (hstay .tableList MemNode.noConfusion).1
  refine ⟨h.words, h.start, closed_initList s.mm.links S h.closed _, fun hc => ?_, ?_,
    Set.mem_insert_of_mem _ h.tableHead, fun b hb => h.tableNext b (htable.symm.trans hb),
    fun p hp => h.tablePage p (htable.symm.trans hp),
    fun i hi => h.tableCache i (htable.symm.trans hi), ?_, h.caches,
    fun n hn => ⟨Set.mem_insert_of_mem _ (h.onHeads n hn).1, (h.onHeads n hn).2⟩,
    fun n hn m hm => ?_, fun i hi b hb => ?_, fun b hb => ?_, h.marked, fun q hq => ?_⟩
  · rcases Set.mem_insert_iff.mp hc with hc | hc
    · exact MemNode.noConfusion hc
    · exact h.offFree hc
  · exact (hstay .freeHeader MemNode.noConfusion).1.trans h.noFree
  · apply rings_congr s.mm.links _ heads f _ h.rings
    intro n hn m hm
    exact hstay m (fun hc => hoff (hc ▸ ⟨n, hn, hm⟩))
  · rcases h.members n hn m hm with ⟨b, hb, hbS⟩
    exact ⟨b, hb, Set.mem_insert_of_mem _ hbS⟩
  · rcases h.members _ (h.caches i hi) _ hb with ⟨c, hc, hcS⟩
    rw [← MemNode.header.inj hc] at hcS
    change (Function.update s.header a ⟨base, size⟩ b).size = _
    rw [hsame b hcS]
    exact h.sized i hi b hb
  · change HeaderOk _ (Function.update s.header a ⟨base, size⟩ b) _ _ _
    rcases hold b hb with hba | hbS
    · rw [hba, Function.update_self]
      exact ⟨hstep, hlow, hmax, hfresh.inside, Set.mem_insert_of_mem _ hpage⟩
    · rw [hsame b hbS]
      exact headerOk_mono s.mm _ _ H H S _ b rfl (Set.Subset.refl H) (Set.subset_insert _ S)
        (h.headers b hbS)
  · rcases h.table q hq with ⟨hqH, hcount, hbase, hbelow⟩
    refine ⟨hqH, hcount, hbase, fun b hb hbq => ?_⟩
    rcases hold b hb with hba | hbS
    · rw [hba] at hbq ⊢
      exact hfresh.below q hq hbq
    · exact hbelow b hbS hbq

/-- Taking a slice from a page whose list is a ring. -/
theorem filed_takeSlice (pg size a : Nat) (hp : Carvable s.mm H S pg)
    (hhead : MemNode.page pg ∈ heads) (hfresh : FreshHeader s H S a) (hstep : size % 16 = 0)
    (hlow : 16 ≤ size) (hfree : size ≤ (s.mm.pageTable pg).freeSize) (hmax : size ≤ slabMax) :
    Filed (s.takeSlice pg size a) H (insert (.header a) S) heads
      (Function.update f (.page pg) (.header a :: f (.page pg))) ∧
      MemNode.header a ∉ ringNodes heads f ∧
      Broadens s H S (s.takeSlice pg size a) H (insert (.header a) S) := by
  have hwords := h.words
  have hbound := hp.bound
  have hroom := hp.room
  have hoff := page_of_offset s.mm pg (pageSize - (s.mm.pageTable pg).freeSize) h.start (by omega)
    (by
      unfold pageSize at hroom ⊢
      omega)
  rw [← hp.base] at hoff
  have hinit := filed_initSlabHeader s H S heads f h a size _ hfresh hstep hlow hmax
    (hoff.1.symm ▸ hp.node)
  have hset := filed_setPage _ H _ heads f hinit pg { s.mm.pageTable pg with
    freeBase := add32 (s.mm.pageTable pg).freeBase size
    freeSize := sub16 (s.mm.pageTable pg).freeSize size
    usage := ((s.mm.pageTable pg).usage + 1) % 256 } (fun hc => absurd hc hp.plain)
  have hringOff : MemNode.header a ∉ ringNodes heads f := fun hc =>
    hfresh.off (filed_ringNodes s H S heads f h _ hc).1
  rcases filed_link _ H _ heads f hset a (Set.mem_insert _ _) (.page pg) hringOff
    (Set.mem_insert_of_mem _ hp.node) MemNode.noConfusion (Or.inl hhead)
    (fun i hi => MemNode.noConfusion hi) with ⟨g, hg, _, hpush⟩
  rw [hpush hhead] at hg
  refine ⟨?_, hringOff, Set.subset_insert _ S, ?_, fun p hp => ?_, fun p _ hc => ?_⟩
  · rw [takeSlice_eq]
    exact hg
  · rw [takeSlice_eq]
  · rw [takeSlice_eq]
    exact hp
  · rw [takeSlice_eq]
    by_cases hpp : p = pg
    · -- What is left starts where the slice ends.
      have hsmall := hc.room
      have hsize : sub16 (s.mm.pageTable pg).freeSize size = (s.mm.pageTable pg).freeSize - size := by
        unfold sub16
        unfold pageSize at hroom
        omega
      rw [hpp] at hc hsmall ⊢
      refine ⟨⟨Set.mem_insert_of_mem _ hc.node, hc.bound, hc.plain, ?_, ?_, ?_⟩, ?_⟩
      · have hold := hc.step
        simp only [Function.update_self, hsize]
        omega
      · simp only [Function.update_self, hsize]
        omega
      · simp only [Function.update_self, hsize, hc.base]
        change add32 (add32 (s.mm.pageIdToVa pg) _) size = add32 (s.mm.pageIdToVa pg) _
        unfold add32 u32Size
        unfold pageSize at hsmall ⊢
        omega
      · simp only [Function.update_self, hsize]
        exact Nat.sub_le _ _
    · have hentry : (Function.update s.mm.pageTable pg { s.mm.pageTable pg with
          freeBase := add32 (s.mm.pageTable pg).freeBase size
          freeSize := sub16 (s.mm.pageTable pg).freeSize size
          usage := ((s.mm.pageTable pg).usage + 1) % 256 }) p = s.mm.pageTable p :=
        Function.update_of_ne hpp _ _
      refine ⟨⟨Set.mem_insert_of_mem _ hc.node, hc.bound, hc.plain, ?_, ?_, ?_⟩, ?_⟩
      · simp only [hentry]
        exact hc.step
      · simp only [hentry]
        exact hc.room
      · simp only [hentry]
        exact hc.base
      · simp only [hentry, Nat.le_refl]

/-- Getting a header for a slice and taking the slice. -/
theorem filed_cutSlice (hmarked : ∀ p, MemNode.page p ∈ heads → used s.mm.pageMap p = true)
    (pg size a : Nat) (s₁ : Slab) (hp : Carvable s.mm H S pg) (hhead : MemNode.page pg ∈ heads)
    (hstep : size % 16 = 0) (hlow : 16 ≤ size) (hfree : size ≤ (s.mm.pageTable pg).freeSize)
    (hmax : size ≤ slabMax) (hrun : s.getNewSlabHeader = some (some a, s₁)) :
    (s₁.takeSlice pg size a).slabPageCurrent = s.slabPageCurrent ∧
      ((s₁.takeSlice pg size a).mm.pageTable pg).freeSize = (s.mm.pageTable pg).freeSize - size ∧
      (s₁.takeSlice pg size a).header a = ⟨(s.mm.pageTable pg).freeBase, size⟩ ∧
      ∃ H' S' g, Filed (s₁.takeSlice pg size a) H' S' heads g ∧
        Broadens s H S (s₁.takeSlice pg size a) H' S' ∧ MemNode.header a ∈ S' ∧
        (∀ n ∈ heads, g n = if n = .page pg then .header a :: f n else f n) ∧
        (∀ b, MemNode.header b ∈ S' → b = a ∨ MemNode.header b ∈ S) ∧ MemNode.header a ∉ S := by
  rcases filed_getNewSlabHeader s H S heads f h hmarked (some a) s₁ hrun with
    ⟨hcur, hentry, H', S', g, hfiled, hgrow, hfresh, hlists, hnodes⟩
  have hset := hmarked pg hhead
  have hsame := hentry pg hset hp.plain
  have hp₁ := (hgrow.carvable pg hset hp).1
  have hfree₁ : size ≤ (s₁.mm.pageTable pg).freeSize := by
    rw [hsame]
    exact hfree
  rcases filed_takeSlice s₁ H' S' heads g hfiled pg size a hp₁ hhead (hfresh a rfl) hstep hlow
    hfree₁ hmax with ⟨hg', _, hgrow'⟩
  have hroom := hp.room
  refine ⟨(takeSlice_current s₁ pg size a).trans hcur, ?_, ?_, H', _, _, hg',
    broadens_trans _ _ _ _ _ _ _ _ _ hgrow hgrow', Set.mem_insert _ _, fun n hn => ?_,
    fun b hb => ?_, fun hc => (hfresh a rfl).off (hgrow.nodes hc)⟩
  · rw [takeSlice_eq]
    simp only [Function.update_self, hsame]
    unfold sub16
    unfold pageSize at hroom
    omega
  · rw [takeSlice_eq]
    simp only [Function.update_self, hsame]
  · by_cases hnp : n = .page pg
    · rw [if_pos hnp, hnp, Function.update_self, hlists _ hhead]
    · rw [if_neg hnp, Function.update_of_ne hnp, hlists n hn]
  · exact (Set.mem_insert_iff.mp hb).imp MemNode.header.inj (hnodes b)

/-- Giving back pages that are no header pages. -/
theorem filed_freePages (addr : Nat) (mm' : Mm) (hrun : s.mm.freePages addr = some mm')
    (hspare : sparesHeaders s.mm addr) :
    Filed { s with mm := mm' } H S heads f ∧ mm'.kernelStart = s.mm.kernelStart ∧
      mm'.links = s.mm.links ∧ mm'.pageTable = s.mm.pageTable ∧ mm'.mapWords = s.mm.mapWords := by
  rcases Mm.freePages_cases s.mm mm' addr hrun with hmm | ⟨z, _, halign, hflag, hgave⟩
  · rw [hmm]
    exact ⟨h, rfl, rfl, rfl, rfl⟩
  refine ⟨?_, hgave.start, hgave.links, hgave.table, hgave.words⟩
  have hva := pageIdToVa_of_start s.mm mm' hgave.start
  have hout : ∀ q ∈ H, ¬(s.mm.vaToPageId addr ≤ q ∧
      q < s.mm.vaToPageId addr + (s.mm.pageTable (s.mm.vaToPageId addr)).count) := by
    intro q hq hin
    exact (h.marked q hq).2.2 (hspare halign hflag q (List.mem_range'_1.mpr hin))
  refine ⟨?_, ?_, ?_, h.offFree, ?_, h.tableHead, ?_, ?_, ?_, ?_, h.caches, h.onHeads, h.members,
    h.sized, fun a ha => ?_, fun q hq => ?_, fun q hq => ?_⟩
  · simp only [hgave.words]
    exact h.words
  · simp only [hgave.start]
    exact h.start
  · simp only [hgave.links]
    exact h.closed
  · simp only [hgave.links]
    exact h.noFree
  · simp only [hgave.links]
    exact h.tableNext
  · simp only [hgave.links]
    exact h.tablePage
  · simp only [hgave.links]
    exact h.tableCache
  · simp only [hgave.links]
    exact h.rings
  · exact headerOk_mono s.mm mm' _ H H S S a hgave.start (Set.Subset.refl H) (Set.Subset.refl S)
      (h.headers a ha)
  · simp only [hgave.words, hgave.table, hgave.bits, if_neg (hout q hq)]
    exact h.marked q hq
  · rcases h.table q hq with ⟨hqH, hcount, hbase, hbelow⟩
    simp only [hgave.table, hva, vaToPageId_of_start s.mm mm' hgave.start, hgave.start]
    exact ⟨hqH, hcount, hbase, hbelow⟩

/-- Dropping a reference, when the last one takes no header page along. -/
theorem filed_pagePut (pg : Nat) (mm' : Mm) (hrun : s.mm.pagePut pg = some mm')
    (hspare : ((s.mm.pageTable pg).usage + 255) % 256 = 0 →
      sparesHeaders s.mm (s.mm.pageIdToVa pg)) :
    Filed { s with mm := mm' } H S heads f ∧ mm'.kernelStart = s.mm.kernelStart ∧
      ∀ p, Carvable s.mm H S p → Carvable mm' H S p := by
  have hset := filed_setPage s H S heads f h pg { s.mm.pageTable pg with
    usage := ((s.mm.pageTable pg).usage + 255) % 256 } (fun _ => ⟨rfl, rfl⟩)
  have hcarve : ∀ p, Carvable s.mm H S p → Carvable (s.mm.setPage pg { s.mm.pageTable pg with
      usage := ((s.mm.pageTable pg).usage + 255) % 256 }) H S p := by
    intro p hc
    apply carvable_setPage s.mm H S p pg _ _ hc
    intro hp
    rw [hp]
    exact ⟨rfl, rfl⟩
  unfold Mm.pagePut at hrun
  simp only at hrun
  by_cases hzero : ((s.mm.pageTable pg).usage + 255) % 256 = 0
  swap
  · rw [if_neg hzero, Option.some.injEq] at hrun
    rw [← hrun]
    exact ⟨hset, rfl, hcarve⟩
  rw [if_pos hzero] at hrun
  -- The references are no part of what is given back.
  have hsame : ∀ q, ((s.mm.setPage pg { s.mm.pageTable pg with
      usage := ((s.mm.pageTable pg).usage + 255) % 256 }).pageTable q).flag
        = (s.mm.pageTable q).flag ∧
      ((s.mm.setPage pg { s.mm.pageTable pg with
        usage := ((s.mm.pageTable pg).usage + 255) % 256 }).pageTable q).count
          = (s.mm.pageTable q).count := by
    intro q
    unfold Mm.setPage
    by_cases hq : q = pg
    · rw [hq]
      simp only [Function.update_self, and_self]
    · simp only [Function.update_of_ne hq, and_self]
  have hspare' : sparesHeaders (s.mm.setPage pg { s.mm.pageTable pg with
      usage := ((s.mm.pageTable pg).usage + 255) % 256 }) (s.mm.pageIdToVa pg) := by
    intro halign hflag q hq
    have hid : (s.mm.setPage pg { s.mm.pageTable pg with
        usage := ((s.mm.pageTable pg).usage + 255) % 256 }).vaToPageId (s.mm.pageIdToVa pg)
          = s.mm.vaToPageId (s.mm.pageIdToVa pg) := rfl
    simp only [hid, (hsame _).1, (hsame _).2] at hflag hq ⊢
    exact hspare hzero halign hflag q hq
  rcases filed_freePages _ H S heads f hset _ mm' hrun hspare' with
    ⟨hfiled, hstart, _, htable, hwords⟩
  refine ⟨hfiled, hstart, fun p hc => ?_⟩
  have hold := hcarve p hc
  refine ⟨hold.node, ?_, hold.plain, ?_, ?_, ?_⟩
  · rw [hwords]
    exact hold.bound
  · rw [htable]
    exact hold.step
  · rw [htable]
    exact hold.room
  · rw [htable, pageIdToVa_of_start _ mm' hstart]
    exact hold.base

end

end Mirros
