import Mirros.Core.Slab
import Mirros.Theory.Pages.Exclusive

/-!
# What the Slab Allocator Owes Its Slices

A slice is in order when its page is marked in the page map, the page counts at
least one reference for it, and no other slice shares a byte with it. `Sound`
says this for a list of slices: the ones callers hold and the ones
`update_slab_free_page` has put aside, which hold a reference too.

Nothing is assumed about the shape of the lists. `update_slab_free_page` leaves
a header on the list of its page while it puts it on a cache list, so these are
not rings in general and walking them may never end. It is enough to know which
nodes are in use at all: the nodes on the lists form a closed set that does not
contain the head of the free headers, so that list stays empty as long as
`__kfree_header_slab` is not called.

A page may count more references than there are slices, by some number `lost`,
when `kfree_kernel_mem` did not find the header of a slice. The counter has eight
bits. It does not matter that it wraps when 256 slices of 16 bytes are in use,
because a page that is left with no reference has fewer slices than that.

## Main definitions

* `ownedIn`: The number of slices in a page.
* `PageOk`: The state of a page that slices are taken from.
* `SlotApart`: Two slices have no byte in common.
* `Sound`: Every slice is in order.
* `Extends`: A change that leaves all slices alone.

## Theorems

* `getNewSlabHeader_extends`: Getting a header leaves all slices alone.
* `sound_takeSlice`: Taking a slice from a page.
* `sound_put`: Dropping the reference of a slice.
-/

namespace Mirros

/-- The page number and the offset in the page of an address. -/
theorem page_of_offset (mm : Mm) (p k : Nat) (hk : mm.kernelStart < u32Size) (hp : p < 2 ^ 20)
    (hoff : k < pageSize) :
    mm.vaToPageId (add32 (mm.pageIdToVa p) k) = p ∧
      sub32 (add32 (mm.pageIdToVa p) k) mm.kernelStart % pageSize = k := by
  unfold Mm.vaToPageId Mm.pageIdToVa sub32 add32
  unfold pageSize at hoff ⊢
  unfold u32Size at hk ⊢
  omega

/-- The number of slices in a page. -/
def ownedIn (mm : Mm) (own : List SlabHeader) (p : Nat) : Nat :=
  own.countP (fun b => mm.vaToPageId b.base = p)

/-- The offset of a slice in its page. -/
def slotOff (mm : Mm) (b : SlabHeader) : Nat :=
  sub32 b.base mm.kernelStart % pageSize

/-- Two slices are in different pages or one ends before the other starts. -/
def SlotApart (mm : Mm) (b c : SlabHeader) : Prop :=
  mm.vaToPageId b.base ≠ mm.vaToPageId c.base ∨ slotOff mm b + b.size ≤ slotOff mm c ∨
    slotOff mm c + c.size ≤ slotOff mm b

theorem slotApart_symm (mm : Mm) (b c : SlabHeader) (h : SlotApart mm b c) :
    SlotApart mm c b := by
  unfold SlotApart at h ⊢
  tauto

/-- A page that slices are taken from: it is marked, it holds a reference for
    each of its slices, and they all lie before the free part. -/
structure PageOk (s : Slab) (own : List SlabHeader) (S : Set MemNode) (p : Nat) : Prop where
  bound : p < 32 * s.mm.mapWords
  set : used s.mm.pageMap p = true
  notTable : s.table.tablePageCurrent ≠ some p
  count : (s.mm.pageTable p).count = 1
  slab : (s.mm.pageTable p).flag &&& gfpSlabBit ≠ 0
  base : (s.mm.pageTable p).freeBase
    = add32 (s.mm.pageIdToVa p) (pageSize - (s.mm.pageTable p).freeSize)
  usage : ∃ lost, (s.mm.pageTable p).usage = (ownedIn s.mm own p + lost) % 256 ∧
    (ownedIn s.mm own p + lost) * 16 + (s.mm.pageTable p).freeSize ≤ pageSize
  node : MemNode.page p ∈ S

/-- Every slice is in order, and the nodes in use are a closed set without the
    head of the free headers. -/
structure Sound (s : Slab) (own : List SlabHeader) (S : Set MemNode) : Prop where
  words : 32 * s.mm.mapWords ≤ 2 ^ 20
  start : s.mm.kernelStart < u32Size
  closed : Closed s.mm.links S
  offFree : MemNode.freeHeader ∉ S
  noFree : s.mm.links.next .freeHeader = .freeHeader
  tableHead : MemNode.tableList ∈ S
  caches : ∀ i < slabNode, MemNode.cache i ∈ S
  sizes : ∀ h, MemNode.header h ∈ S → listId (s.header h).size < slabNode
  table : ∀ p, s.table.tablePageCurrent = some p → used s.mm.pageMap p = true
  slots : ∀ b ∈ own, 16 ≤ b.size ∧ PageOk s own S (s.mm.vaToPageId b.base) ∧
    slotOff s.mm b + b.size + (s.mm.pageTable (s.mm.vaToPageId b.base)).freeSize ≤ pageSize
  apart : own.Pairwise (SlotApart s.mm)

/-- A change that leaves every page with slices as it is. -/
structure Extends (s : Slab) (own : List SlabHeader) (S : Set MemNode) (s' : Slab)
    (S' : Set MemNode) : Prop where
  sub : S ⊆ S'
  start : s'.mm.kernelStart = s.mm.kernelStart
  words : s'.mm.mapWords = s.mm.mapWords
  pages : ∀ p, PageOk s own S p → s'.mm.pageTable p = s.mm.pageTable p ∧
    used s'.mm.pageMap p = true ∧ s'.table.tablePageCurrent ≠ some p
  closed : Closed s'.mm.links S'
  offFree : MemNode.freeHeader ∉ S'
  noFree : s'.mm.links.next .freeHeader = .freeHeader
  sizes : ∀ h, MemNode.header h ∈ S' → listId (s'.header h).size < slabNode
  table : ∀ p, s'.table.tablePageCurrent = some p → used s'.mm.pageMap p = true

theorem ownedIn_of_start (mm mm' : Mm) (h : mm'.kernelStart = mm.kernelStart)
    (own : List SlabHeader) (p : Nat) : ownedIn mm' own p = ownedIn mm own p := by
  unfold ownedIn
  simp only [vaToPageId_of_start mm mm' h]

theorem slotOff_of_start (mm mm' : Mm) (h : mm'.kernelStart = mm.kernelStart)
    (b : SlabHeader) : slotOff mm' b = slotOff mm b := by
  unfold slotOff
  rw [h]

theorem pageIdToVa_of_start (mm mm' : Mm) (h : mm'.kernelStart = mm.kernelStart) (i : Nat) :
    mm'.pageIdToVa i = mm.pageIdToVa i := by
  unfold Mm.pageIdToVa
  rw [h]

theorem slotApart_of_start (mm mm' : Mm) (h : mm'.kernelStart = mm.kernelStart)
    (b c : SlabHeader) : SlotApart mm' b c ↔ SlotApart mm b c := by
  unfold SlotApart
  rw [vaToPageId_of_start mm mm' h, vaToPageId_of_start mm mm' h, slotOff_of_start mm mm' h,
    slotOff_of_start mm mm' h]

theorem apart_of_start (mm mm' : Mm) (h : mm'.kernelStart = mm.kernelStart)
    (own : List SlabHeader) (ha : own.Pairwise (SlotApart mm)) :
    own.Pairwise (SlotApart mm') := by
  apply ha.imp
  intro b c hbc
  exact (slotApart_of_start mm mm' h b c).mpr hbc

section

variable (s s' : Slab) (own : List SlabHeader) (S S' : Set MemNode)
  (he : Extends s own S s' S')

include he

theorem pageOk_extends (p : Nat) (h : PageOk s own S p) : PageOk s' own S' p := by
  rcases he.pages p h with ⟨htab, hset, hne⟩
  refine ⟨?_, hset, hne, ?_, ?_, ?_, ?_, he.sub h.node⟩
  · rw [he.words]
    exact h.bound
  · rw [htab]
    exact h.count
  · rw [htab]
    exact h.slab
  · rw [htab, pageIdToVa_of_start s.mm s'.mm he.start]
    exact h.base
  · rw [htab, ownedIn_of_start s.mm s'.mm he.start]
    exact h.usage

theorem sound_extends (h : Sound s own S) : Sound s' own S' := by
  refine ⟨?_, ?_, he.closed, he.offFree, he.noFree, he.sub h.tableHead,
    fun i hi => he.sub (h.caches i hi), he.sizes, he.table, fun b hb => ?_,
    apart_of_start s.mm s'.mm he.start own h.apart⟩
  · rw [he.words]
    exact h.words
  · rw [he.start]
    exact h.start
  · rcases h.slots b hb with ⟨hsize, hok, hend⟩
    rw [vaToPageId_of_start s.mm s'.mm he.start, slotOff_of_start s.mm s'.mm he.start,
      (he.pages _ hok).1]
    exact ⟨hsize, pageOk_extends s s' own S S' he _ hok, hend⟩

end

section

variable (s : Slab) (own : List SlabHeader) (S : Set MemNode) (h : Sound s own S)

include h

/-- The facts of `Extends` that hold when the page allocator handed out one
    clear page and nothing was done with it yet. -/
theorem extends_took (mm' : Mm) (z : ZoneId) (q flag : Nat) (zone' : Zone)
    (ht : Mm.Took s.mm mm' z q 1 flag zone') (hclear : used s.mm.pageMap q = false) :
    Extends s own S { s with mm := mm' } (insert (.page q) S) := by
  -- Pages in use are not the new one, so nothing changed about them.
  have hother : ∀ p, used s.mm.pageMap p = true → mm'.pageTable p = s.mm.pageTable p ∧
      used mm'.pageMap p = true := by
    intro p hp
    have hpq := ne_of_used _ p q hp hclear
    have hne : ¬(q ≤ p ∧ p < q + 1) := by omega
    rw [ht.table, ht.bits, if_neg hne, if_neg hne]
    exact ⟨rfl, hp⟩
  refine ⟨Set.subset_insert _ _, ht.start, ht.words, fun p hp => ?_, ?_, ?_, ?_, ?_, ?_⟩
  · exact ⟨(hother p hp.set).1, (hother p hp.set).2, hp.notTable⟩
  · simp only [ht.links, Mm.freshLinks_one]
    exact closed_initList s.mm.links S h.closed (.page q)
  · intro hmem
    rcases Set.mem_insert_iff.mp hmem with heq | hmem
    · exact absurd heq (by simp only [reduceCtorEq, not_false_eq_true])
    · exact h.offFree hmem
  · simp only [ht.links, Mm.freshLinks_one, initList_next, reduceCtorEq, if_false]
    exact h.noFree
  · intro a ha
    rcases Set.mem_insert_iff.mp ha with heq | ha
    · exact absurd heq (by simp only [reduceCtorEq, not_false_eq_true])
    · exact h.sizes a ha
  · intro p hp
    exact (hother p (h.table p hp)).2

/-- The same after the page has become the current header page. -/
theorem extends_headerPage (mm' : Mm) (z : ZoneId) (q flag : Nat) (zone' : Zone)
    (page : Page) (table' : SlabHeaderTable)
    (ht : Mm.Took s.mm mm' z q 1 flag zone') (hclear : used s.mm.pageMap q = false)
    (htable : table'.tablePageCurrent = some q) :
    Extends s own S { s with
      mm := { mm'.setPage q page with links := listAdd mm'.links .tableList (.page q) }
      table := table' } (insert (.page q) S) := by
  have hbase := extends_took s own S h mm' z q flag zone' ht hclear
  have hq : MemNode.page q ∈ insert (MemNode.page q) S := Set.mem_insert _ _
  have hhead : MemNode.tableList ∈ insert (MemNode.page q) S := hbase.sub h.tableHead
  refine ⟨hbase.sub, hbase.start, hbase.words, fun p hp => ?_, ?_, hbase.offFree, ?_,
    hbase.sizes, ?_⟩
  · have hne := ne_of_used _ p q hp.set hclear
    rcases hbase.pages p hp with ⟨htab, hset, _⟩
    refine ⟨?_, hset, ?_⟩
    · simp only [Mm.setPage, Function.update_of_ne hne]
      exact htab
    · simp only [htable]
      intro heq
      exact hne (Option.some.inj heq).symm
  · exact closed_listAdd mm'.links _ hbase.closed _ _ hhead hq
  · have hout := (listAdd_outside mm'.links _ hbase.closed _ _ _ hhead hq hbase.offFree).1
    exact hout.trans hbase.noFree
  · intro p hp
    simp only [htable, Option.some.injEq] at hp
    simp only [Mm.setPage, ← hp, ht.bits]
    rw [if_pos (by omega)]

/-- Writing the entry of the current header page. -/
theorem extends_tablePage (q n : Nat) (page : Page) (hq : s.table.tablePageCurrent = some q) :
    Extends s own S { s with
      mm := s.mm.setPage q page
      table := { s.table with headerInPage := n } } S := by
  refine ⟨Set.Subset.refl S, rfl, rfl, fun p hp => ?_, h.closed, h.offFree, h.noFree, h.sizes,
    h.table⟩
  have hne : p ≠ q := by
    intro hpq
    apply hp.notTable
    rw [hpq]
    exact hq
  simp only [Mm.setPage, Function.update_of_ne hne]
  exact ⟨trivial, hp.set, hp.notTable⟩

/-- Getting a header leaves all slices alone. -/
theorem getNewSlabHeader_extends (header : Option Nat) (s' : Slab)
    (hrun : s.getNewSlabHeader = some (header, s')) :
    s'.slabPageCurrent = s.slabPageCurrent ∧ s'.aside = s.aside ∧
      ∃ S', Extends s own S s' S' := by
  have hempty : isListEmpty s.mm.links .freeHeader = true := by
    simp only [isListEmpty, h.noFree, decide_true]
  unfold Slab.getNewSlabHeader at hrun
  simp only [hempty, Bool.not_true, Bool.false_eq_true, if_false] at hrun
  rcases hslot : (if s.table.headerInPage < pageSize / slabHeaderSize then
      s.table.tablePageCurrent else none) with _ | q
  · -- No header is left: one more page is taken for headers.
    simp only [hslot, Option.pure_def, Option.bind_eq_bind, Option.bind_eq_some_iff,
      Prod.exists] at hrun
    rcases hrun with ⟨base, mm', hget, hrun⟩
    unfold Mm.getFreePage at hget
    rcases Mm.getFreePages_cases s.mm mm' 1 gfpSlabHeader base hget with
      ⟨hzero, hmm⟩ | ⟨z, q, _, _, hfind, hne, haddr, htook⟩
    · rw [if_pos hzero, hmm] at hrun
      simp only [Option.some.injEq, Prod.mk.injEq] at hrun
      rw [← hrun.2]
      refine ⟨rfl, rfl, S, Set.Subset.refl S, rfl, rfl, fun p hp => ?_, h.closed, h.offFree,
        h.noFree, h.sizes, h.table⟩
      exact ⟨rfl, hp.set, hp.notTable⟩
    have hclear := findContinousPages_one s.mm _ q h.words hfind hne
    by_cases hzero : base = 0
    · rw [if_pos hzero] at hrun
      simp only [Option.some.injEq, Prod.mk.injEq] at hrun
      rw [← hrun.2]
      exact ⟨rfl, rfl, _, extends_took s own S h mm' z q _ _ htook hclear⟩
    · rw [if_neg hzero] at hrun
      simp only [Slab.getSlabHeaderFromPage, Option.some.injEq, Prod.mk.injEq] at hrun
      -- The address leads back to the page that was found, so its entry is the new one.
      have hid : mm'.vaToPageId base = q := by
        rw [haddr, vaToPageId_of_start s.mm mm' htook.start]
        exact first_of_bound s.mm q 1 h.start h.words (by omega) htook.bound
      simp only [Slab.startHeaderPage, Slab.bumpPage, Slab.pageGet, Mm.pageGet,
        Mm.setPage, Function.update_self, Function.update_idem, Mm.vaToPageId] at hrun hid
      simp only [hid] at hrun
      rw [← hrun.2]
      exact ⟨rfl, rfl, _, extends_headerPage s own S h mm' z q _ _ _ _ htook hclear rfl⟩
  · have hq : s.table.tablePageCurrent = some q := by
      by_cases hlt : s.table.headerInPage < pageSize / slabHeaderSize
      · rw [if_pos hlt] at hslot
        exact hslot
      · rw [if_neg hlt] at hslot
        exact absurd hslot (by simp only [reduceCtorEq, not_false_eq_true])
    simp only [hslot, Slab.getSlabHeaderFromPage, Slab.bumpPage, Slab.pageGet, Mm.pageGet,
      Mm.setPage, Function.update_self, Function.update_idem, Option.some.injEq,
      Prod.mk.injEq] at hrun
    rw [← hrun.2]
    exact ⟨rfl, rfl, S, extends_tablePage s own S h q _ _ hq⟩

end

theorem takeSlice_eq (s : Slab) (pg size header : Nat) :
    s.takeSlice pg size header = { s with
      header := Function.update s.header header ⟨(s.mm.pageTable pg).freeBase, size⟩
      mm := { s.mm with
        pageTable := Function.update s.mm.pageTable pg { s.mm.pageTable pg with
          freeBase := add32 (s.mm.pageTable pg).freeBase size
          freeSize := sub16 (s.mm.pageTable pg).freeSize size
          usage := ((s.mm.pageTable pg).usage + 1) % 256 }
        links := listAdd (initList s.mm.links (.header header)) (.page pg) (.header header) } } := by
  simp only [Slab.takeSlice, Slab.initSlabHeader, Slab.setLinks, Slab.bumpPage,
    Slab.addSlabHeaderToPage, Slab.pageGet, Mm.pageGet, Mm.setPage, Function.update_self,
    Function.update_idem]

section

variable (s : Slab) (pg size header : Nat)

theorem takeSlice_start : (s.takeSlice pg size header).mm.kernelStart = s.mm.kernelStart := by
  rw [takeSlice_eq]

theorem takeSlice_mapWords : (s.takeSlice pg size header).mm.mapWords = s.mm.mapWords := by
  rw [takeSlice_eq]

theorem takeSlice_pageMap : (s.takeSlice pg size header).mm.pageMap = s.mm.pageMap := by
  rw [takeSlice_eq]

theorem takeSlice_table : (s.takeSlice pg size header).table = s.table := by
  rw [takeSlice_eq]

theorem takeSlice_current :
    (s.takeSlice pg size header).slabPageCurrent = s.slabPageCurrent := by
  rw [takeSlice_eq]

theorem takeSlice_aside : (s.takeSlice pg size header).aside = s.aside := by
  rw [takeSlice_eq]

/-- The page a slice is taken from. -/
theorem takeSlice_pageTable :
    (s.takeSlice pg size header).mm.pageTable
      = Function.update s.mm.pageTable pg { s.mm.pageTable pg with
          freeBase := add32 (s.mm.pageTable pg).freeBase size
          freeSize := sub16 (s.mm.pageTable pg).freeSize size
          usage := ((s.mm.pageTable pg).usage + 1) % 256 } := by
  rw [takeSlice_eq]

end

theorem ownedIn_cons (mm : Mm) (b : SlabHeader) (own : List SlabHeader) (p : Nat) :
    ownedIn mm (b :: own) p = ownedIn mm own p + if mm.vaToPageId b.base = p then 1 else 0 := by
  unfold ownedIn
  rw [List.countP_cons]
  simp only [decide_eq_true_eq]

section

variable (s : Slab) (own : List SlabHeader) (S : Set MemNode) (h : Sound s own S)
  (pg size header : Nat) (hp : PageOk s own S pg) (hlow : 16 ≤ size)
  (hfree : size ≤ (s.mm.pageTable pg).freeSize)

include h hp

/-- The free part of a page starts inside the page. -/
theorem freeBase_page (hpos : 0 < (s.mm.pageTable pg).freeSize) :
    s.mm.vaToPageId (s.mm.pageTable pg).freeBase = pg ∧
      sub32 (s.mm.pageTable pg).freeBase s.mm.kernelStart % pageSize
        = pageSize - (s.mm.pageTable pg).freeSize := by
  have hwords := h.words
  have hbound := hp.bound
  rw [hp.base]
  apply page_of_offset s.mm pg _ h.start (by omega)
  unfold pageSize
  omega

include hlow hfree

/-- The page a slice was taken from has a reference more and less room. -/
theorem pageOk_takeSlice (p : Nat) (hok : PageOk s own S p) :
    PageOk (s.takeSlice pg size header) (⟨(s.mm.pageTable pg).freeBase, size⟩ :: own)
      (insert (.header header) S) p := by
  rcases freeBase_page s own S h pg hp (by omega) with ⟨hpage, _⟩
  rcases hok.usage with ⟨lost, husage, hroom⟩
  have hstart := takeSlice_start s pg size header
  have htab := takeSlice_pageTable s pg size header
  have hbound : p < 32 * (s.takeSlice pg size header).mm.mapWords := by
    rw [takeSlice_mapWords]
    exact hok.bound
  have hset : used (s.takeSlice pg size header).mm.pageMap p = true := by
    rw [takeSlice_pageMap]
    exact hok.set
  have hnotTable : (s.takeSlice pg size header).table.tablePageCurrent ≠ some p := by
    rw [takeSlice_table]
    exact hok.notTable
  have howned : ownedIn (s.takeSlice pg size header).mm
      (⟨(s.mm.pageTable pg).freeBase, size⟩ :: own) p
        = ownedIn s.mm own p + if pg = p then 1 else 0 := by
    rw [ownedIn_of_start s.mm _ hstart, ownedIn_cons, hpage]
  have hnode := Set.mem_insert_of_mem (MemNode.header header) hok.node
  by_cases hpp : p = pg
  · subst hpp
    have hsize : (s.mm.pageTable p).freeSize ≤ 4096 := by
      unfold pageSize at hroom
      omega
    -- The slice was cut from the start, so the free part moves up by its size.
    have hsub : sub16 (s.mm.pageTable p).freeSize size = (s.mm.pageTable p).freeSize - size := by
      unfold sub16
      omega
    refine ⟨hbound, hset, hnotTable, ?_, ?_, ?_, ⟨lost, ?_, ?_⟩, hnode⟩
    · rw [htab, Function.update_self]
      exact hok.count
    · rw [htab, Function.update_self]
      exact hok.slab
    · rw [htab, Function.update_self, pageIdToVa_of_start s.mm _ hstart]
      simp only [hsub]
      rw [hok.base, add32_add32]
      congr 1
      unfold pageSize
      omega
    · rw [htab, Function.update_self, howned, if_pos rfl]
      simp only [husage]
      omega
    · rw [htab, Function.update_self, howned, if_pos rfl]
      simp only [hsub]
      omega
  · rw [if_neg (Ne.symm hpp), Nat.add_zero] at howned
    refine ⟨hbound, hset, hnotTable, ?_, ?_, ?_, ⟨lost, ?_, ?_⟩, hnode⟩
    · rw [htab, Function.update_of_ne hpp]
      exact hok.count
    · rw [htab, Function.update_of_ne hpp]
      exact hok.slab
    · rw [htab, Function.update_of_ne hpp, pageIdToVa_of_start s.mm _ hstart]
      exact hok.base
    · rw [htab, Function.update_of_ne hpp, howned]
      exact husage
    · rw [htab, Function.update_of_ne hpp, howned]
      exact hroom

/-- Taking a slice from the free part of a page. -/
theorem sound_takeSlice (hmax : size ≤ slabMax) :
    Sound (s.takeSlice pg size header) (⟨(s.mm.pageTable pg).freeBase, size⟩ :: own)
      (insert (.header header) S) := by
  rcases freeBase_page s own S h pg hp (by omega) with ⟨hpage, hoff⟩
  rcases hp.usage with ⟨lost, husage, hroom⟩
  have hokay := pageOk_takeSlice s own S h pg size header hp hlow hfree
  have hstart := takeSlice_start s pg size header
  have hheader : MemNode.header header ∈ insert (MemNode.header header) S := Set.mem_insert _ _
  have hnode : MemNode.page pg ∈ insert (MemNode.header header) S :=
    Set.mem_insert_of_mem _ hp.node
  have hinit := closed_initList s.mm.links S h.closed (.header header)
  have hoffFree : MemNode.freeHeader ∉ insert (MemNode.header header) S := by
    intro hmem
    rcases Set.mem_insert_iff.mp hmem with heq | hmem
    · exact absurd heq (by simp only [reduceCtorEq, not_false_eq_true])
    · exact h.offFree hmem
  -- The free part of a page does not grow.
  have hshrink : ∀ p, PageOk s own S p →
      ((s.takeSlice pg size header).mm.pageTable p).freeSize ≤ (s.mm.pageTable p).freeSize := by
    intro p hok
    rw [takeSlice_pageTable]
    by_cases hpp : p = pg
    · rw [hpp]
      simp only [Function.update_self]
      unfold sub16
      unfold pageSize at hroom
      omega
    · simp only [Function.update_of_ne hpp, Nat.le_refl]
  have hwords : 32 * (s.takeSlice pg size header).mm.mapWords ≤ 2 ^ 20 := by
    rw [takeSlice_mapWords]
    exact h.words
  have htable : ∀ p, (s.takeSlice pg size header).table.tablePageCurrent = some p →
      used (s.takeSlice pg size header).mm.pageMap p = true := by
    rw [takeSlice_table, takeSlice_pageMap]
    exact h.table
  have hbegin : (s.takeSlice pg size header).mm.kernelStart < u32Size := by
    rw [hstart]
    exact h.start
  refine ⟨hwords, hbegin, ?_, hoffFree, ?_, Set.mem_insert_of_mem _ h.tableHead,
    fun i hi => Set.mem_insert_of_mem _ (h.caches i hi), fun a ha => ?_, htable,
    fun b hb => ?_, ?_⟩
  · rw [takeSlice_eq]
    exact closed_listAdd _ _ hinit _ _ hnode hheader
  · rw [takeSlice_eq]
    simp only
    rw [(listAdd_outside _ _ hinit _ _ _ hnode hheader hoffFree).1, initList_next]
    simp only [reduceCtorEq, if_false]
    exact h.noFree
  · rw [takeSlice_eq]
    simp only [Function.update_apply]
    by_cases haa : a = header
    · rw [if_pos haa]
      unfold slabMax slabNode slabStep pageSize slabHeaderSize at hmax
      unfold listId slabNode pageSize slabHeaderSize
      simp only
      omega
    · rw [if_neg haa]
      apply h.sizes
      apply Set.mem_of_mem_insert_of_ne ha
      intro heq
      exact haa (MemNode.header.inj heq)
  · rw [vaToPageId_of_start s.mm _ hstart, slotOff_of_start s.mm _ hstart]
    rcases List.mem_cons.mp hb with hb | hb
    · rw [hb]
      simp only [hpage, slotOff, hoff]
      refine ⟨hlow, hokay pg hp, ?_⟩
      rw [takeSlice_pageTable]
      simp only [Function.update_self]
      unfold sub16
      unfold pageSize at hroom ⊢
      omega
    · rcases h.slots b hb with ⟨hsize, hok, hend⟩
      have hle := hshrink _ hok
      exact ⟨hsize, hokay _ hok, by omega⟩
  · apply apart_of_start s.mm _ hstart
    rw [List.pairwise_cons]
    refine ⟨fun c hc => ?_, h.apart⟩
    unfold SlotApart
    rw [hpage]
    by_cases hcp : pg = s.mm.vaToPageId c.base
    · rcases h.slots c hc with ⟨_, _, hend⟩
      rw [← hcp] at hend
      refine Or.inr (Or.inr ?_)
      unfold slotOff at hend ⊢
      rw [hoff]
      omega
    · exact Or.inl hcp

end

section

variable (s : Slab) (own : List SlabHeader) (S : Set MemNode) (h : Sound s own S)

include h

/-- Editing the lists without leaving the nodes in use. -/
theorem extends_setLinks (l : Links MemNode) (hclosed : Closed l S)
    (hfree : l.next .freeHeader = s.mm.links.next .freeHeader) :
    Extends s own S (s.setLinks l) S := by
  refine ⟨Set.Subset.refl S, rfl, rfl, fun p hp => ?_, hclosed, h.offFree, ?_, h.sizes, h.table⟩
  · exact ⟨rfl, hp.set, hp.notTable⟩
  · exact hfree.trans h.noFree

variable (mm' : Mm) (z : ZoneId) (q : Nat) (zone' : Zone)
  (ht : Mm.Took s.mm mm' z q 1 gfpKernel zone') (hclear : used s.mm.pageMap q = false)

include ht hclear

/-- Making a clear page a slab page leaves all slices alone. -/
theorem extends_openSlabPage :
    Extends s own S (Slab.openSlabPage { s with mm := mm' } q) (insert (.page q) S) := by
  have hbase := extends_took s own S h mm' z q gfpKernel zone' ht hclear
  refine ⟨hbase.sub, hbase.start, hbase.words, fun p hp => ?_, hbase.closed, hbase.offFree,
    hbase.noFree, hbase.sizes, hbase.table⟩
  have hne := ne_of_used _ p q hp.set hclear
  rcases hbase.pages p hp with ⟨htab, hset, hnot⟩
  refine ⟨?_, hset, hnot⟩
  simp only [Slab.openSlabPage, Mm.setPage, Function.update_of_ne hne]
  exact htab

/-- The new slab page is in order: it has no slices and no references. -/
theorem pageOk_openSlabPage :
    PageOk (Slab.openSlabPage { s with mm := mm' } q) own (insert (.page q) S) q := by
  have hstart : (Slab.openSlabPage { s with mm := mm' } q).mm.kernelStart = s.mm.kernelStart :=
    ht.start
  -- A slot on the page would have its bit set, and the bit was clear.
  have hnone : ownedIn s.mm own q = 0 := by
    unfold ownedIn
    rw [List.countP_eq_zero]
    intro b hb heq
    simp only [decide_eq_true_eq] at heq
    exact ne_of_used _ _ q (h.slots b hb).2.1.set hclear heq
  have hfresh : mm'.pageTable q = s.mm.freshPage q 1 q (gfpKernel ||| gfpPageHeader) := by
    rw [ht.table, if_pos (by omega)]
  have htab : (Slab.openSlabPage { s with mm := mm' } q).mm.pageTable q
      = { phyAddress := sub32 (s.mm.pageIdToVa q) (s.mm.vaGetPvOffset (s.mm.pageIdToVa q))
          flag := (gfpKernel ||| gfpPageHeader) ||| gfpSlabBit
          freeBase := s.mm.pageIdToVa q
          freeSize := pageSize
          count := 1
          usage := 0 } := by
    simp only [Slab.openSlabPage, Mm.setPage, Function.update_self, hfresh, Mm.freshPage, if_true]
  have hword : s.mm.pageIdToVa q < u32Size := Nat.mod_lt _ (by decide)
  refine ⟨?_, ?_, ?_, ?_, ?_, ?_, ⟨0, ?_, ?_⟩, Set.mem_insert _ _⟩
  · have hbound := ht.bound
    have hwords : (Slab.openSlabPage { s with mm := mm' } q).mm.mapWords = s.mm.mapWords :=
      ht.words
    rw [hwords]
    omega
  · have hbits := ht.bits q
    rw [if_pos (by omega)] at hbits
    exact hbits
  · intro heq
    exact ne_of_used _ q q (h.table q heq) hclear rfl
  · rw [htab]
  · rw [htab]
    simp only
    decide
  · rw [htab, pageIdToVa_of_start s.mm _ hstart]
    simp only [Nat.sub_self]
    unfold add32
    rw [Nat.add_zero, Nat.mod_eq_of_lt hword]
  · rw [htab, ownedIn_of_start s.mm _ hstart, hnone]
  · rw [htab, ownedIn_of_start s.mm _ hstart, hnone]
    exact Nat.le_refl _

end

section

variable (s : Slab) (b : SlabHeader) (rest : List SlabHeader) (S : Set MemNode)

/-- A slice that is no longer in use leaves its reference behind. -/
theorem pageOk_forget (p : Nat) (hok : PageOk s (b :: rest) S p) : PageOk s rest S p := by
  rcases hok.usage with ⟨lost, husage, hroom⟩
  rw [ownedIn_cons] at husage hroom
  refine ⟨hok.bound, hok.set, hok.notTable, hok.count, hok.slab, hok.base, ?_, hok.node⟩
  by_cases hpp : s.mm.vaToPageId b.base = p
  · rw [if_pos hpp] at husage hroom
    exact ⟨lost + 1, by rw [husage]; congr 1; omega, by omega⟩
  · rw [if_neg hpp] at husage hroom
    exact ⟨lost, husage, hroom⟩

theorem sound_forget (h : Sound s (b :: rest) S) : Sound s rest S := by
  refine ⟨h.words, h.start, h.closed, h.offFree, h.noFree, h.tableHead, h.caches, h.sizes,
    h.table, fun c hc => ?_, (List.pairwise_cons.mp h.apart).2⟩
  rcases h.slots c (List.mem_cons_of_mem b hc) with ⟨hsize, hok, hend⟩
  exact ⟨hsize, pageOk_forget s b rest S _ hok, hend⟩

/-- The state after the reference of the slice was dropped, before the page is
    released. -/
def dropReference (s : Slab) (p : Nat) : Slab :=
  { s with mm := s.mm.setPage p { s.mm.pageTable p with
      usage := ((s.mm.pageTable p).usage + 255) % 256 } }

theorem pageOk_drop (p : Nat) (hok : PageOk s (b :: rest) S p) :
    PageOk (dropReference s (s.mm.vaToPageId b.base)) rest S p := by
  have hstart : (dropReference s (s.mm.vaToPageId b.base)).mm.kernelStart
      = s.mm.kernelStart := rfl
  by_cases hpp : s.mm.vaToPageId b.base = p
  · -- The slot goes and the reference with it, so the two still agree.
    rcases hok.usage with ⟨lost, husage, hroom⟩
    rw [ownedIn_cons, if_pos hpp] at husage hroom
    have htab : (dropReference s (s.mm.vaToPageId b.base)).mm.pageTable p
        = { s.mm.pageTable p with usage := ((s.mm.pageTable p).usage + 255) % 256 } := by
      unfold dropReference
      rw [hpp]
      simp only [Mm.setPage, Function.update_self]
    refine ⟨hok.bound, hok.set, hok.notTable, ?_, ?_, ?_, ⟨lost, ?_, ?_⟩, hok.node⟩
    · rw [htab]
      exact hok.count
    · rw [htab]
      exact hok.slab
    · rw [htab]
      exact hok.base
    · rw [htab, ownedIn_of_start s.mm _ hstart]
      simp only [husage]
      omega
    · rw [htab, ownedIn_of_start s.mm _ hstart]
      simp only
      omega
  · have hold := pageOk_forget s b rest S p hok
    have htab : (dropReference s (s.mm.vaToPageId b.base)).mm.pageTable p
        = s.mm.pageTable p := by
      unfold dropReference
      simp only [Mm.setPage, Function.update_of_ne (Ne.symm hpp)]
    refine ⟨hok.bound, hok.set, hok.notTable, ?_, ?_, ?_, ?_, hok.node⟩
    · rw [htab]
      exact hok.count
    · rw [htab]
      exact hok.slab
    · rw [htab]
      exact hok.base
    · rw [htab]
      exact hold.usage

theorem sound_drop (h : Sound s (b :: rest) S) :
    Sound (dropReference s (s.mm.vaToPageId b.base)) rest S := by
  have hforget := sound_forget s b rest S h
  refine ⟨h.words, h.start, h.closed, h.offFree, h.noFree, h.tableHead, h.caches, h.sizes,
    h.table, fun c hc => ?_, hforget.apart⟩
  rcases h.slots c (List.mem_cons_of_mem b hc) with ⟨hsize, hok, hend⟩
  refine ⟨hsize, pageOk_drop s b rest S _ hok, ?_⟩
  have hroom : ((dropReference s (s.mm.vaToPageId b.base)).mm.pageTable
      (s.mm.vaToPageId c.base)).freeSize = (s.mm.pageTable (s.mm.vaToPageId c.base)).freeSize := by
    unfold dropReference
    by_cases hpp : s.mm.vaToPageId c.base = s.mm.vaToPageId b.base
    · rw [hpp]
      simp only [Mm.setPage, Function.update_self]
    · simp only [Mm.setPage, Function.update_of_ne hpp]
  have hpage : (dropReference s (s.mm.vaToPageId b.base)).mm.vaToPageId c.base
      = s.mm.vaToPageId c.base := rfl
  rw [hpage, hroom]
  exact hend

end

/-- Releasing a page that has no slices. -/
theorem sound_release (s : Slab) (own : List SlabHeader) (S : Set MemNode) (h : Sound s own S)
    (mm' : Mm) (z : ZoneId) (zone' : Zone) (q : Nat) (hnone : ownedIn s.mm own q = 0)
    (hnot : s.table.tablePageCurrent ≠ some q) (hg : Mm.Gave s.mm mm' z q 1 zone') :
    Sound { s with mm := mm' } own S ∧
      ∀ p, p ≠ q → PageOk s own S p → PageOk { s with mm := mm' } own S p := by
  have hbits : ∀ p, p ≠ q → used mm'.pageMap p = used s.mm.pageMap p := by
    intro p hp
    rw [hg.bits, if_neg (by omega)]
  have hpage : ∀ p, p ≠ q → PageOk s own S p → PageOk { s with mm := mm' } own S p := by
    intro p hp hok
    refine ⟨?_, ?_, hok.notTable, ?_, ?_, ?_, ?_, hok.node⟩
    · simp only [hg.words]
      exact hok.bound
    · simp only [hbits p hp]
      exact hok.set
    · simp only [hg.table]
      exact hok.count
    · simp only [hg.table]
      exact hok.slab
    · simp only [hg.table, pageIdToVa_of_start s.mm mm' hg.start]
      exact hok.base
    · simp only [hg.table, ownedIn_of_start s.mm mm' hg.start]
      exact hok.usage
  refine ⟨⟨?_, ?_, ?_, h.offFree, ?_, h.tableHead, h.caches, h.sizes, fun p hp => ?_,
    fun b hb => ?_, apart_of_start s.mm mm' hg.start own h.apart⟩, hpage⟩
  · simp only [hg.words]
    exact h.words
  · simp only [hg.start]
    exact h.start
  · simp only [hg.links]
    exact h.closed
  · simp only [hg.links]
    exact h.noFree
  · have hpq : p ≠ q := by
      intro hpq
      rw [hpq] at hp
      exact hnot hp
    simp only [hbits p hpq]
    exact h.table p hp
  · rcases h.slots b hb with ⟨hsize, hok, hend⟩
    -- No slot is on the released page.
    have hbq : s.mm.vaToPageId b.base ≠ q := by
      intro heq
      unfold ownedIn at hnone
      rw [List.countP_eq_zero] at hnone
      apply hnone b hb
      simp only [heq, decide_true]
    simp only [vaToPageId_of_start s.mm mm' hg.start, slotOff_of_start s.mm mm' hg.start, hg.table]
    exact ⟨hsize, hpage _ hbq hok, hend⟩

/-- Dropping the reference of a slice: when it was the last one, the page has
    no other slices and may be released. -/
theorem sound_put (s : Slab) (b : SlabHeader) (rest : List SlabHeader) (S : Set MemNode)
    (h : Sound s (b :: rest) S) (mm' : Mm)
    (hput : s.mm.pagePut (s.mm.vaToPageId b.base) = some mm') :
    Sound { s with mm := mm' } rest S ∧ ∀ p, PageOk s (b :: rest) S p →
      used mm'.pageMap p = true → PageOk { s with mm := mm' } rest S p := by
  have hok := (h.slots b (List.mem_cons_self ..)).2.1
  have hsound := sound_drop s b rest S h
  have hpages := pageOk_drop s b rest S
  have hmm : (dropReference s (s.mm.vaToPageId b.base)).mm
      = s.mm.setPage (s.mm.vaToPageId b.base) { s.mm.pageTable (s.mm.vaToPageId b.base) with
          usage := ((s.mm.pageTable (s.mm.vaToPageId b.base)).usage + 255) % 256 } := rfl
  unfold Mm.pagePut at hput
  simp only [← hmm] at hput
  by_cases hzero : ((s.mm.pageTable (s.mm.vaToPageId b.base)).usage + 255) % 256 = 0
  swap
  · rw [if_neg hzero, Option.some.injEq] at hput
    rw [← hput]
    exact ⟨hsound, fun p hp _ => hpages p hp⟩
  rw [if_pos hzero] at hput
  -- The counter has come down to zero, so no slice is left in the page.
  have hnone : ownedIn (dropReference s (s.mm.vaToPageId b.base)).mm rest
      (s.mm.vaToPageId b.base) = 0 := by
    rcases hok.usage with ⟨lost, husage, hroom⟩
    rw [ownedIn_cons, if_pos rfl] at husage hroom
    unfold pageSize at hroom
    have hsame : ownedIn (dropReference s (s.mm.vaToPageId b.base)).mm rest
        (s.mm.vaToPageId b.base) = ownedIn s.mm rest (s.mm.vaToPageId b.base) := rfl
    rw [hsame]
    omega
  have hwords := h.words
  have hbound := hok.bound
  have hid : (dropReference s (s.mm.vaToPageId b.base)).mm.vaToPageId
      ((dropReference s (s.mm.vaToPageId b.base)).mm.pageIdToVa (s.mm.vaToPageId b.base))
        = s.mm.vaToPageId b.base :=
    Mm.vaToPageId_pageIdToVa _ _ h.start (by omega)
  have hcount : ((dropReference s (s.mm.vaToPageId b.base)).mm.pageTable
      (s.mm.vaToPageId b.base)).count = 1 := by
    simp only [hmm, Mm.setPage, Function.update_self]
    exact hok.count
  rcases Mm.freePages_cases _ mm' _ hput with heq | ⟨z, _, _, _, hgave⟩
  · rw [heq]
    exact ⟨hsound, fun p hp _ => hpages p hp⟩
  · rw [hid, hcount] at hgave
    rcases sound_release (dropReference s (s.mm.vaToPageId b.base)) rest S hsound mm' z _
      (s.mm.vaToPageId b.base) hnone hok.notTable hgave with ⟨hnew, hothers⟩
    refine ⟨hnew, fun p hp hset => hothers p ?_ (hpages p hp)⟩
    intro hpb
    rw [hgave.bits, hpb, if_pos (by omega)] at hset
    exact Bool.false_ne_true hset

end Mirros
