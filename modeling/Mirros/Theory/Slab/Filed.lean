import Mirros.Lib.Torn
import Mirros.Theory.Slab.Keeps

/-!
# Where the Headers Are Filed

The cache lists as rings of headers of their own size, over any sequence of calls in
which the lists the edits touch are in order. `Filed` says this together with what the
edits need. It does not say that slices hold a reference or do not overlap, so unlike
`Sound` it survives handing out a slice that was freed.

The current page has a ring too, because slices are taken from it without a look at its
list. The lists of other pages need not be rings: the remainder of a page that was
displaced is on a cache list and still the successor of its page.

A header is never used for two slices, since header pages are never given back and are
carved from start to end. `HeaderOk` collects what is known about a header from the time
it was carved.

## Main definitions

* `HeaderOk`: A header that is in use.
* `Carvable`: A page slices can be taken from.
* `Filed`: The cache lists and the list of the current page are rings.

## Theorems

* `listId_headerOk`: A header in use belongs on a cache list.
* `filed_unlink`, `filed_link`: Taking a header off a list and putting it on one.
* `filed_took`: Taking pages.
-/

namespace Mirros

/-- The size of a header in use is one of a cache list, the header lies in a header
    page, and the list of its slice's page has been set up. -/
structure HeaderOk (mm : Mm) (header : SlabHeader) (H : Set Nat) (S : Set MemNode)
    (a : Nat) : Prop where
  step : header.size % 16 = 0
  low : 16 ≤ header.size
  high : header.size ≤ slabMax
  inside : mm.vaToPageId a ∈ H
  page : MemNode.page (mm.vaToPageId header.base) ∈ S

/-- A page whose free part starts where its size says and is a number of steps. -/
structure Carvable (mm : Mm) (H : Set Nat) (S : Set MemNode) (p : Nat) : Prop where
  node : MemNode.page p ∈ S
  bound : p < 32 * mm.mapWords
  plain : p ∉ H
  step : (mm.pageTable p).freeSize % 16 = 0
  room : (mm.pageTable p).freeSize ≤ pageSize
  base : (mm.pageTable p).freeBase
    = add32 (mm.pageIdToVa p) (pageSize - (mm.pageTable p).freeSize)

/-- The lists on `heads` are rings, with the headers `f` says: the cache lists with
    headers of their own size. `H` are the header pages and `S` the nodes in use. -/
structure Filed (s : Slab) (H : Set Nat) (S heads : Set MemNode)
    (f : MemNode → List MemNode) : Prop where
  words : 32 * s.mm.mapWords ≤ 2 ^ 20
  start : s.mm.kernelStart < u32Size
  closed : Closed s.mm.links S
  offFree : MemNode.freeHeader ∉ S
  noFree : s.mm.links.next .freeHeader = .freeHeader
  tableHead : MemNode.tableList ∈ S
  tableNext : ∀ a, s.mm.links.next .tableList ≠ .header a
  tablePage : ∀ p, s.mm.links.next .tableList = .page p → p ∈ H
  tableCache : ∀ i, s.mm.links.next .tableList ≠ .cache i
  rings : Rings s.mm.links heads f
  caches : ∀ i < slabNode, MemNode.cache i ∈ heads
  onHeads : ∀ n ∈ heads, n ∈ S ∧ ((∃ i < slabNode, n = .cache i) ∨ ∃ p, n = .page p ∧ p ∉ H)
  members : ∀ n ∈ heads, ∀ m ∈ f n, ∃ a, m = .header a ∧ MemNode.header a ∈ S
  sized : ∀ i < slabNode, ∀ a, MemNode.header a ∈ f (.cache i) →
    (s.header a).size = 16 * (i + 1)
  headers : ∀ a, MemNode.header a ∈ S → HeaderOk s.mm (s.header a) H S a
  marked : ∀ q ∈ H, q < 32 * s.mm.mapWords ∧ used s.mm.pageMap q = true ∧
    (s.mm.pageTable q).flag &&& gfpSlabHeaderBit ≠ 0
  table : ∀ q, s.table.tablePageCurrent = some q → q ∈ H ∧
    s.table.headerInPage ≤ pageSize / slabHeaderSize ∧
    (s.mm.pageTable q).freeBase
      = add32 (s.mm.pageIdToVa q) (slabHeaderSize * s.table.headerInPage) ∧
    ∀ a, MemNode.header a ∈ S → s.mm.vaToPageId a = q →
      sub32 a s.mm.kernelStart % pageSize < slabHeaderSize * s.table.headerInPage

/-- The size of a header in use is the one of its cache list. -/
theorem listId_headerOk (mm : Mm) (header : SlabHeader) (H : Set Nat) (S : Set MemNode) (a : Nat)
    (h : HeaderOk mm header H S a) :
    listId header.size < slabNode ∧ header.size = 16 * (listId header.size + 1) := by
  have hstep := h.step
  have hlow := h.low
  have hhigh := h.high
  unfold slabMax slabNode slabStep pageSize slabHeaderSize at hhigh
  unfold listId slabNode pageSize slabHeaderSize
  omega

/-- A header stays in order when the sets grow. -/
theorem headerOk_mono (mm mm' : Mm) (header : SlabHeader) (H H' : Set Nat) (S S' : Set MemNode)
    (a : Nat) (hstart : mm'.kernelStart = mm.kernelStart) (hH : H ⊆ H') (hS : S ⊆ S')
    (h : HeaderOk mm header H S a) : HeaderOk mm' header H' S' a := by
  refine ⟨h.step, h.low, h.high, ?_, ?_⟩
  · rw [vaToPageId_of_start mm mm' hstart]
    exact hH h.inside
  · rw [vaToPageId_of_start mm mm' hstart]
    exact hS h.page

section

variable (s : Slab) (H : Set Nat) (S heads : Set MemNode) (f : MemNode → List MemNode)
  (h : Filed s H S heads f)

include h

/-- Fields the lists do not depend on. -/
theorem filed_fields (mutex : Nat) (current : Option Nat) (aside : List SlabHeader) :
    Filed { s with slabMutex := mutex, slabPageCurrent := current, aside := aside } H S heads f :=
  ⟨h.words, h.start, h.closed, h.offFree, h.noFree, h.tableHead, h.tableNext, h.tablePage,
    h.tableCache, h.rings, h.caches, h.onHeads, h.members, h.sized, h.headers, h.marked, h.table⟩

/-- The ring of a page is forgotten. -/
theorem filed_subset (heads' : Set MemNode) (hsub : heads' ⊆ heads)
    (hcaches : ∀ i < slabNode, MemNode.cache i ∈ heads') : Filed s H S heads' f :=
  ⟨h.words, h.start, h.closed, h.offFree, h.noFree, h.tableHead, h.tableNext, h.tablePage,
    h.tableCache, rings_subset _ heads heads' f hsub h.rings, hcaches,
    fun n hn => h.onHeads n (hsub hn), fun n hn => h.members n (hsub hn), h.sized, h.headers,
    h.marked, h.table⟩

/-- The lists of pages that are alone are more rings. -/
theorem filed_alone (N : Set MemNode) [DecidablePred (· ∈ N)]
    (hnode : ∀ n ∈ N, n ∈ S ∧ ∃ p, n = .page p ∧ p ∉ H)
    (hoff : ∀ n ∈ N, n ∉ ringNodes heads f)
    (hself : ∀ n ∈ N, s.mm.links.next n = n ∧ s.mm.links.pre n = n) :
    Filed s H S (N ∪ heads) (fun n => if n ∈ N then [] else f n) := by
  have hsub : ∀ n ∈ N ∪ heads, ∀ m ∈ (if n ∈ N then [] else f n), n ∈ heads ∧ m ∈ f n := by
    intro n hn m hm
    by_cases hN : n ∈ N
    · rw [if_pos hN] at hm
      exact absurd hm List.not_mem_nil
    · rw [if_neg hN] at hm
      exact ⟨hn.resolve_left hN, hm⟩
  refine ⟨h.words, h.start, h.closed, h.offFree, h.noFree, h.tableHead, h.tableNext, h.tablePage,
    h.tableCache, rings_alone _ heads f N h.rings hoff hself, fun i hi => Or.inr (h.caches i hi),
    fun n hn => ?_, fun n hn m hm => ?_, fun i hi a ha => ?_, h.headers, h.marked, h.table⟩
  · rcases hn with hn | hn
    · exact ⟨(hnode n hn).1, Or.inr (hnode n hn).2⟩
    · exact h.onHeads n hn
  · exact h.members n (hsub n hn m hm).1 m (hsub n hn m hm).2
  · exact h.sized i hi a (hsub _ (Or.inr (h.caches i hi)) _ ha).2

/-- The nodes on the rings are the cache lists, pages and headers. -/
theorem filed_ringNodes (n : MemNode) (hn : n ∈ ringNodes heads f) :
    n ∈ S ∧ n ≠ .tableList ∧ (∀ p, n = .page p → MemNode.page p ∈ heads) := by
  rcases hn with ⟨b, hb, hn⟩
  rcases List.mem_cons.mp hn with hn | hn
  · rw [hn]
    refine ⟨(h.onHeads b hb).1, ?_, fun p hp => hp ▸ hb⟩
    rcases (h.onHeads b hb).2 with ⟨i, _, hi⟩ | ⟨p, hp, _⟩
    · rw [hi]
      exact MemNode.noConfusion
    · rw [hp]
      exact MemNode.noConfusion
  · rcases h.members b hb n hn with ⟨a, ha, haS⟩
    rw [ha]
    exact ⟨haS, MemNode.noConfusion, fun p hp => MemNode.noConfusion hp⟩

/-- Editing the lists without leaving the nodes in use. -/
theorem filed_links (l : Links MemNode) (g : MemNode → List MemNode) (hclosed : Closed l S)
    (hfree : l.next .freeHeader = s.mm.links.next .freeHeader)
    (htable : l.next .tableList = s.mm.links.next .tableList) (hrings : Rings l heads g)
    (hsub : ∀ n ∈ heads, ∀ m ∈ g n, m ∈ f n ∨ ∃ a, m = .header a ∧ MemNode.header a ∈ S ∧
      ∀ i, n = .cache i → (s.header a).size = 16 * (i + 1)) :
    Filed (s.setLinks l) H S heads g := by
  refine ⟨h.words, h.start, hclosed, h.offFree, hfree.trans h.noFree, h.tableHead, ?_, ?_, ?_,
    hrings, h.caches, h.onHeads, fun n hn m hm => ?_, fun i hi a ha => ?_, fun a ha => ?_,
    h.marked, h.table⟩
  · intro a ha
    exact h.tableNext a (htable.symm.trans ha)
  · intro p hp
    exact h.tablePage p (htable.symm.trans hp)
  · intro i hi
    exact h.tableCache i (htable.symm.trans hi)
  · rcases hsub n hn m hm with hm | ⟨a, ha, haS, _⟩
    · exact h.members n hn m hm
    · exact ⟨a, ha, haS⟩
  · rcases hsub _ (h.caches i hi) _ ha with hm | ⟨b, hb, _, hsize⟩
    · exact h.sized i hi a hm
    · rw [MemNode.header.inj hb]
      exact hsize i rfl
  · exact headerOk_mono s.mm _ _ H H S S a rfl (Set.Subset.refl H) (Set.Subset.refl S)
      (h.headers a ha)

variable (a : Nat) (ha : MemNode.header a ∈ S)

include ha

/-- Taking a header off its list, which is a ring or is in order around the header. -/
theorem filed_unlink
    (hback : MemNode.header a ∉ ringNodes heads f → LinkedBack s.mm.links (.header a)) :
    ∃ g, Filed (s.setLinks (listDel s.mm.links (.header a))) H S heads g ∧
      MemNode.header a ∉ ringNodes heads g := by
  have hhead : MemNode.header a ∉ heads := by
    intro hc
    rcases (h.onHeads _ hc).2 with ⟨i, _, hi⟩ | ⟨p, hp, _⟩
    · exact MemNode.noConfusion hi
    · exact MemNode.noConfusion hp
  rcases rings_unlink s.mm.links heads f h.rings _ hhead hback with ⟨g, hg, hoff, hsub⟩
  have hfree := (listDel_outside s.mm.links S h.closed _ _ ha h.offFree).1
  have hdel := closed_listDel s.mm.links S h.closed _ ha
  rw [← listDel_eq_link] at hg
  refine ⟨g, filed_links s H S heads f h _ g hdel hfree ?_ hg
    (fun n hn m hm => Or.inl (hsub n hn m hm)), hoff⟩
  -- The head of the header pages is not in front of a header.
  rw [listDel_eq_link, Links.link_next, if_neg]
  intro hpre
  by_cases hring : MemNode.header a ∈ ringNodes heads f
  · have hin := (rings_closed s.mm.links heads f h.rings _ hring).2
    rw [← hpre] at hin
    exact (filed_ringNodes s H S heads f h _ hin).2.1 rfl
  · have hnext := (hback hring).1
    rw [← hpre] at hnext
    exact h.tableNext a hnext

/-- Putting a header on a list, which is a ring or is in order at its head. -/
theorem filed_link (head : MemNode) (hoff : MemNode.header a ∉ ringNodes heads f)
    (hin : head ∈ S) (hne : head ≠ .tableList)
    (hhead : head ∈ heads ∨ head ∉ ringNodes heads f ∧ HeadBack s.mm.links head (.header a))
    (hsize : ∀ i, head = .cache i → (s.header a).size = 16 * (i + 1)) :
    ∃ g, Filed (s.setLinks (listAdd s.mm.links head (.header a))) H S heads g ∧
      (∀ n ∈ heads, ∀ m ∈ g n, m ∈ f n ∨ m = .header a ∧ n = head) ∧
      (head ∈ heads → g = Function.update f head (.header a :: f head)) := by
  rcases rings_linkFirst s.mm.links heads f h.rings head (.header a) hoff hhead with
    ⟨g, hg, hsub, hpush⟩
  have hfree := (listAdd_outside s.mm.links S h.closed head _ _ hin ha h.offFree).1
  have hadd := closed_listAdd s.mm.links S h.closed head _ hin ha
  rw [← listAdd_eq_link] at hg
  refine ⟨g, filed_links s H S heads f h _ g hadd hfree ?_ hg (fun n hn m hm => ?_), hsub, hpush⟩
  · rw [listAdd_eq_link, Links.link_next, if_neg (Ne.symm hne), Links.link_next,
      if_neg MemNode.noConfusion]
  · rcases hsub n hn m hm with hm | ⟨hm, hn⟩
    · exact Or.inl hm
    · refine Or.inr ⟨a, hm, ha, fun i hi => hsize i ?_⟩
      rw [← hn]
      exact hi

end

/-- A page nothing was taken from yet. -/
theorem carvable_fresh (mm : Mm) (H : Set Nat) (S : Set MemNode) (p : Nat)
    (hnode : MemNode.page p ∈ S) (hbound : p < 32 * mm.mapWords) (hplain : p ∉ H)
    (hsize : (mm.pageTable p).freeSize = pageSize)
    (hbase : (mm.pageTable p).freeBase = mm.pageIdToVa p) : Carvable mm H S p := by
  refine ⟨hnode, hbound, hplain, ?_, Nat.le_of_eq hsize, ?_⟩
  · rw [hsize]
    decide
  · rw [hsize, hbase]
    unfold Mm.pageIdToVa add32
    simp only [Nat.sub_self, Nat.add_zero, Nat.mod_mod]

/-- The list nodes of a run of pages. -/
def runNodes (index count : Nat) : Set MemNode :=
  { n | Mm.pageNodeIn index count n = true }

instance (index count : Nat) : DecidablePred (· ∈ runNodes index count) :=
  fun n => inferInstanceAs (Decidable (Mm.pageNodeIn index count n = true))

theorem page_mem_runNodes (index count p : Nat) :
    MemNode.page p ∈ runNodes index count ↔ index ≤ p ∧ p < index + count := by
  unfold runNodes
  simp only [Set.mem_ofPred_eq, Mm.pageNodeIn, Bool.and_eq_true, decide_eq_true_eq]

theorem runNodes_page (index count : Nat) (n : MemNode) (hn : n ∈ runNodes index count) :
    ∃ p, n = .page p := by
  cases n with
  | page p => exact ⟨p, rfl⟩
  | _ => exact Bool.noConfusion hn

theorem freshLinks_in (l : Links MemNode) (index count : Nat) (n : MemNode)
    (hn : n ∈ runNodes index count) :
    (Mm.freshLinks l index count).next n = n ∧ (Mm.freshLinks l index count).pre n = n :=
  ⟨if_pos hn, if_pos hn⟩

theorem freshLinks_out (l : Links MemNode) (index count : Nat) (n : MemNode)
    (hn : n ∉ runNodes index count) : (Mm.freshLinks l index count).next n = l.next n ∧
      (Mm.freshLinks l index count).pre n = l.pre n :=
  ⟨if_neg hn, if_neg hn⟩

section

variable (s : Slab) (H : Set Nat) (S heads : Set MemNode) (f : MemNode → List MemNode)
  (h : Filed s H S heads f) (mm' : Mm) (z : ZoneId) (index count flag : Nat) (zone' : Zone)
  (ht : Mm.Took s.mm mm' z index count flag zone')

include ht

/-- An entry outside the run is as it was, and one inside is fresh. -/
theorem carvable_took (p : Nat) (hc : Carvable s.mm H S p) :
    Carvable mm' H (S ∪ runNodes index count) p := by
  have hva := pageIdToVa_of_start s.mm mm' ht.start p
  have hbound : p < 32 * mm'.mapWords := by
    rw [ht.words]
    exact hc.bound
  have hentry := ht.table p
  by_cases hp : index ≤ p ∧ p < index + count
  · rw [if_pos hp] at hentry
    apply carvable_fresh mm' H _ p (Or.inl hc.node) hbound hc.plain
    · rw [hentry]
      rfl
    · rw [hentry, hva]
      rfl
  · rw [if_neg hp] at hentry
    refine ⟨Or.inl hc.node, hbound, hc.plain, ?_, ?_, ?_⟩
    · rw [hentry]
      exact hc.step
    · rw [hentry]
      exact hc.room
    · rw [hentry, hva]
      exact hc.base

variable (hclear : ∀ p, index ≤ p → p < index + count → used s.mm.pageMap p = false)

include h hclear

/-- A page of the run can be carved. -/
theorem carvable_run (p : Nat) (hlow : index ≤ p) (hhigh : p < index + count) :
    Carvable mm' H (S ∪ runNodes index count) p := by
  have hentry := ht.table p
  rw [if_pos ⟨hlow, hhigh⟩] at hentry
  apply carvable_fresh mm' H _ p (Or.inr ((page_mem_runNodes index count p).mpr ⟨hlow, hhigh⟩))
  · have hbound := ht.bound
    rw [ht.words]
    omega
  · exact fun hp => ne_of_used _ p p (h.marked p hp).2.1 (hclear p hlow hhigh) rfl
  · rw [hentry]
    rfl
  · rw [hentry, pageIdToVa_of_start s.mm mm' ht.start p]
    rfl

/-- Taking clear pages: their nodes are alone, also the one of the current page. -/
theorem filed_took :
    Filed { s with mm := mm' } H (S ∪ runNodes index count) heads
      (fun n => if n ∈ runNodes index count then [] else f n) := by
  have hother : ∀ q ∈ H, used mm'.pageMap q = true ∧ mm'.pageTable q = s.mm.pageTable q := by
    intro q hq
    have hused := (h.marked q hq).2.1
    have hnot : ¬(index ≤ q ∧ q < index + count) :=
      fun hin => ne_of_used _ q q hused (hclear q hin.1 hin.2) rfl
    rw [ht.bits, ht.table, if_neg hnot, if_neg hnot]
    exact ⟨hused, rfl⟩
  have hlinks : mm'.links = Mm.freshLinks s.mm.links index count := ht.links
  have hstay : ∀ n, n ∉ runNodes index count → mm'.links.next n = s.mm.links.next n := by
    intro n hn
    rw [hlinks]
    exact (freshLinks_out _ _ _ n hn).1
  have htable : mm'.links.next .tableList = s.mm.links.next .tableList := by
    apply hstay
    intro hn
    rcases runNodes_page _ _ _ hn with ⟨p, hp⟩
    exact MemNode.noConfusion hp
  have hsub : ∀ n, ∀ m ∈ (if n ∈ runNodes index count then [] else f n), m ∈ f n := by
    intro n m hm
    by_cases hn : n ∈ runNodes index count
    · rw [if_pos hn] at hm
      exact absurd hm List.not_mem_nil
    · rw [if_neg hn] at hm
      exact hm
  refine ⟨?_, ?_, fun n hn => ?_, ?_, ?_, Or.inl h.tableHead, ?_, ?_, ?_, ?_, h.caches,
    fun n hn => ?_, fun n hn m hm => ?_, fun i hi a ha => h.sized i hi a (hsub _ _ ha),
    fun a ha => ?_, fun q hq => ?_, fun q hq => ?_⟩
  · simp only [ht.words]
    exact h.words
  · simp only [ht.start]
    exact h.start
  · -- A node of the run points at itself, another one where it did.
    simp only [hlinks]
    by_cases hrun : n ∈ runNodes index count
    · rw [(freshLinks_in _ _ _ n hrun).1, (freshLinks_in _ _ _ n hrun).2]
      exact ⟨Or.inr hrun, Or.inr hrun⟩
    · rw [(freshLinks_out _ _ _ n hrun).1, (freshLinks_out _ _ _ n hrun).2]
      have hS : n ∈ S := hn.resolve_right hrun
      exact ⟨Or.inl (h.closed n hS).1, Or.inl (h.closed n hS).2⟩
  · rintro (hc | hc)
    · exact h.offFree hc
    · rcases runNodes_page _ _ _ hc with ⟨p, hp⟩
      exact MemNode.noConfusion hp
  · refine (hstay _ fun hn => ?_).trans h.noFree
    rcases runNodes_page _ _ _ hn with ⟨p, hp⟩
    exact MemNode.noConfusion hp
  · intro a ha
    exact h.tableNext a (htable.symm.trans ha)
  · intro p hp
    exact h.tablePage p (htable.symm.trans hp)
  · intro i hi
    exact h.tableCache i (htable.symm.trans hi)
  · have hreset := rings_reset s.mm.links heads f h.rings mm'.links (runNodes index count)
    rw [hlinks] at hreset ⊢
    apply hreset (freshLinks_in _ _ _) (freshLinks_out _ _ _)
    intro n hn m hm hrun
    rcases h.members n hn m hm with ⟨a, ha, _⟩
    rcases runNodes_page _ _ _ hrun with ⟨p, hp⟩
    exact MemNode.noConfusion (ha.symm.trans hp)
  · exact ⟨Or.inl (h.onHeads n hn).1, (h.onHeads n hn).2⟩
  · rcases h.members n hn m (hsub n m hm) with ⟨a, ha, haS⟩
    exact ⟨a, ha, Or.inl haS⟩
  · have haS : MemNode.header a ∈ S := by
      apply ha.resolve_right
      intro hrun
      rcases runNodes_page _ _ _ hrun with ⟨p, hp⟩
      exact MemNode.noConfusion hp
    exact headerOk_mono s.mm mm' _ H H S _ a ht.start (Set.Subset.refl H)
      Set.subset_union_left (h.headers a haS)
  · simp only [ht.words, hother q hq]
    exact ⟨(h.marked q hq).1, trivial, (h.marked q hq).2.2⟩
  · rcases h.table q hq with ⟨hqH, hcount, hbase, hbelow⟩
    simp only [hother q hqH, pageIdToVa_of_start s.mm mm' ht.start,
      vaToPageId_of_start s.mm mm' ht.start, ht.start]
    refine ⟨hqH, hcount, hbase, fun a ha haq => hbelow a (ha.resolve_right fun hrun => ?_) haq⟩
    rcases runNodes_page _ _ _ hrun with ⟨p, hp⟩
    exact MemNode.noConfusion hp

end

end Mirros
