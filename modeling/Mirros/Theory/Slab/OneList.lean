import Mirros.Theory.Slab.Classes

/-!
# Each Header on One List

Runs of `kmalloc` alone. A header has one list node for the list of its page and for the
cache lists, so it should be on one of them at a time: on the list of its page while its
slice is allocated, on the cache list of its size when it is cached.

Without `kfree` the only slices that are cached are remainders. `update_slab_free_page` cuts
what is left of the displaced page off as a slice, which puts its header on the list of that
page, and then puts the header on a cache list without taking it off. From then on the walk
along the list of the page goes on along the cache list. As long as no remainder is put
aside, the lists of the pages are rings of the headers of their slices.

Which headers and pages are in use is collected beside the calls.

## Main definitions

* `kmallocHeaders`, `kmallocPages`: The headers and pages a call brings into use.
* `HSession`: The allocator with the headers and pages in use.
* `HSession.OneList`: Each header is on the list it belongs on, and on no other.
* `oneListOk`: The calls that put no remainder aside.
* `Hung`: The invariant of the runs.

## Theorems

* `hung_cut`, `hung_run`, `hung_openedPage`: A slice, a run of pages and a slab page.
* `hung_doKmalloc`: One call.
* `headers_on_one_list`: Over every run, each header is on one list.
* `headers_on_one_list_fails`: A run after which a header is on two.
-/

namespace Mirros

namespace Slab

/-- The header `get_slab_from_page` initialised, if any. -/
def cutHeaders : Option (Option Nat × Slab) → List Nat
  | some (some header, _) => [header]
  | _ => []

/-- The state in which `__kmalloc` looks at the current page, when it does. -/
def atPageFree (s : Slab) (size : Nat) : Option Slab := do
  let s ← s.lock
  if pageSize ≤ size then none
  else
    let (ret, s) ← s.getSlabInList (getNewAllocSize size gfpKernel) gfpKernel
    if ret ≠ 0 then none else return s

/-- The headers `get_slab_from_page_free` initialises. -/
def pageFreeHeaders (s : Slab) (size : Nat) : List Nat :=
  match s.slabPageCurrent with
  | none => []
  | some pg =>
      if s.mm.pageState pg = some 0 ∨ (s.mm.pageTable pg).freeSize < size then []
      else cutHeaders s.getNewSlabHeader

/-- The headers `update_slab_free_page` initialises. -/
def restHeaders (s : Slab) (pg : Nat) : List Nat :=
  (s.displaced pg).elim []
    (fun r => cutHeaders (r.2.getSlabFromPage r.1 (r.2.mm.pageTable r.1).freeSize))

/-- The headers of the first slice and of the remainder. -/
def sliceHeaders (pg : Nat) : Option (Option Nat × Slab) → List Nat
  | none => []
  | some (header, s) => header.toList ++ s.restHeaders pg

/-- The headers `get_kernel_slab` initialises. -/
def getKernelSlabHeaders (s : Slab) (size : Nat) : List Nat :=
  (s.openedPage size).elim []
    (fun r => sliceHeaders r.1 (r.2.getSlabFromPage r.1 (leaveSize size)))

/-- The headers `init_slab_header` is called for in a call of `__kmalloc`. -/
def kmallocHeaders (s : Slab) (size : Nat) : List Nat :=
  (s.atNewSlab size).elim [] (fun s => s.getKernelSlabHeaders (getNewAllocSize size gfpKernel)) ++
    (s.atPageFree size).elim [] (fun s => s.pageFreeHeaders (getNewAllocSize size gfpKernel))

/-- The pages `get_kernel_slab` takes for a block. -/
def blockPages (s : Slab) (size : Nat) : List Nat :=
  (s.mm.getFreePages (pageNr size) gfpKernel).elim [] (fun r =>
    if r.1 = 0 then [] else List.range' (s.mm.vaToPageId r.1) (pageNr size))

/-- The pages a call of `__kmalloc` takes for its block. -/
def kmallocPages (s : Slab) (size : Nat) : List Nat :=
  (s.atNewSlab size).elim [] (fun s => s.blockPages (getNewAllocSize size gfpKernel))

/-- A page is displaced after the first slice, with a remainder. -/
def displacedAfter (pg : Nat) : Option (Option Nat × Slab) → Bool
  | none => false
  | some (_, s) => (s.displaced pg).isSome

/-- A remainder is put aside in the call. -/
def restAside (s : Slab) (size : Nat) : Bool :=
  (s.openedPage size).any
    (fun r => displacedAfter r.1 (r.2.getSlabFromPage r.1 (leaveSize size)))

end Slab

/-- The heads of the cache lists and of the lists of some pages. -/
def pageHeads (pages : List Nat) : Set MemNode :=
  { n | (∃ i < slabNode, n = .cache i) ∨ ∃ p ∈ pages, n = .page p }

/-- The slab allocator, the headers in use and the pages that were taken for blocks. -/
structure HSession where
  slab : Slab
  headers : List Nat
  pages : List Nat

namespace HSession

/-- `kmalloc(size, GFP_KERNEL)`, with the returned address as the result. -/
def call (s : HSession) (size : Int) : Option (Nat × HSession) := do
  let (addr, slab) ← s.slab.kmalloc size gfpKernel
  if size ≤ 0 then return (addr, { s with slab := slab })
  return (addr, ⟨slab, s.slab.kmallocHeaders size.toNat ++ s.headers,
    s.slab.kmallocPages size.toNat ++ s.pages⟩)

/-- The list a header belongs on: the cache list of its size if its slice is cached, and the
    list of its page if the slice is allocated. -/
def home (s : HSession) (a : Nat) : MemNode :=
  if s.slab.header a ∈ s.slab.aside then .cache (listId (s.slab.header a).size)
  else .page (s.slab.mm.vaToPageId (s.slab.header a).base)

/-- A walk along the list comes by the header. -/
def LinkedOn (s : HSession) (head : MemNode) (a : Nat) : Prop :=
  ∃ n, s.slab.mm.links.next^[n] head = .header a

/-- Each header in use is on one list, the one it belongs on, and a walk along the list of a
    page meets the headers of its allocated slices and comes back. -/
def OneList (s : HSession) : Prop :=
  (∀ a ∈ s.headers, s.home a ∈ pageHeads s.pages ∧
    ∀ head ∈ pageHeads s.pages, s.LinkedOn head a ↔ head = s.home a) ∧
    ∀ p ∈ s.pages, ∃ hs : List Nat, hs.Nodup ∧
      Forward s.slab.mm.links (.page p :: hs.map .header ++ [.page p]) ∧
      ∀ a, a ∈ hs ↔ a ∈ s.headers ∧ s.home a = .page p

end HSession

/-- The sizes an `int` has. -/
def intCall (_ : HSession) (size : Int) (_ : Nat) : Prop :=
  size < 2 ^ 31

instance (s : HSession) (size : Int) (addr : Nat) : Decidable (intCall s size addr) :=
  inferInstanceAs (Decidable (_ < _))

/-- A call that cuts no remainder off, is not just below a page, and takes clear pages. -/
def oneListOk (s : HSession) (size : Int) (addr : Nat) : Prop :=
  intCall s size addr ∧ (1 ≤ size →
    (size.toNat < pageSize → size.toNat ≤ slabMax) ∧
    (pageSize ≤ size.toNat → s.slab.clearRun (getNewAllocSize size.toNat gfpKernel)) ∧
    ∀ s' ∈ s.slab.atNewSlab size.toNat,
      s'.restAside (getNewAllocSize size.toNat gfpKernel) = false)

instance (s : HSession) (size : Int) (addr : Nat) : Decidable (oneListOk s size addr) :=
  inferInstanceAs (Decidable (_ ∧ (_ → (_ → _) ∧ (_ → _) ∧ _)))

/-- The board with no block yet. -/
def boardHeaders : HSession :=
  ⟨boardSlab.slab, [], []⟩

theorem page_mem_pageHeads (pages : List Nat) (p : Nat) :
    MemNode.page p ∈ pageHeads pages ↔ p ∈ pages := by
  constructor
  · rintro (⟨i, _, hi⟩ | ⟨q, hq, hp⟩)
    · exact MemNode.noConfusion hi
    · rw [MemNode.page.inj hp]
      exact hq
  · exact fun hp => Or.inr ⟨p, hp, rfl⟩

theorem pageHeads_run (index count : Nat) (pages : List Nat) :
    pageHeads (List.range' index count ++ pages) = runNodes index count ∪ pageHeads pages := by
  ext n
  constructor
  · rintro (hn | ⟨p, hp, hn⟩)
    · exact Or.inr (Or.inl hn)
    · rcases List.mem_append.mp hp with hp | hp
      · rw [hn]
        exact Or.inl ((page_mem_runNodes index count p).mpr (List.mem_range'_1.mp hp))
      · exact Or.inr (Or.inr ⟨p, hp, hn⟩)
  · rintro (hn | hn | ⟨p, hp, hn⟩)
    · rcases runNodes_page _ _ _ hn with ⟨p, hp⟩
      rw [hp] at hn ⊢
      refine Or.inr ⟨p, List.mem_append_left _ (List.mem_range'_1.mpr ?_), rfl⟩
      exact (page_mem_runNodes index count p).mp hn
    · exact Or.inl hn
    · exact Or.inr ⟨p, List.mem_append_right _ hp, hn⟩

/-- The invariant: the cache lists are empty, and the list of a page of a block has the
    headers of its slices. `H` are the header pages and `S` the nodes in use. -/
structure Hung (s : Slab) (headers pages : List Nat) (H : Set Nat) (S : Set MemNode)
    (f : MemNode → List MemNode) : Prop where
  filed : Filed s H S (pageHeads pages) f
  inUse : ∀ a, MemNode.header a ∈ S ↔ a ∈ headers
  caches : ∀ i < slabNode, f (.cache i) = []
  lists : ∀ p ∈ pages, ∀ a, MemNode.header a ∈ f (.page p) ↔
    a ∈ headers ∧ s.mm.vaToPageId (s.header a).base = p
  home : ∀ a ∈ headers, s.mm.vaToPageId (s.header a).base ∈ pages
  marked : ∀ p ∈ pages, used s.mm.pageMap p = true
  current : ∀ p, s.slabPageCurrent = some p → p ∈ pages ∧ Carvable s.mm H S p
  aside : s.aside = []

/-- Neither the headers nor the slices that were put aside depend on where a new header
    comes from. -/
theorem getNewSlabHeader_fields (s s' : Slab) (header : Option Nat)
    (h : s.getNewSlabHeader = some (header, s')) : s'.header = s.header ∧ s'.aside = s.aside := by
  unfold Slab.getNewSlabHeader at h
  by_cases hempty : (!isListEmpty s.mm.links .freeHeader) = true
  · rw [if_pos hempty] at h
    rcases hnext : s.mm.links.next .freeHeader with _ | a | _ | _ | _ | _ | _ | _ | _
    case header =>
      simp only [hnext, Option.some.injEq, Prod.mk.injEq] at h
      rw [← h.2]
      exact ⟨rfl, rfl⟩
    all_goals
      simp only [hnext] at h
      exact absurd h.symm (Option.some_ne_none _)
  rw [if_neg hempty] at h
  rcases hslot : (if s.table.headerInPage < pageSize / slabHeaderSize then
      s.table.tablePageCurrent else none) with _ | q
  swap
  · simp only [hslot, Option.some.injEq, Prod.mk.injEq] at h
    rw [← h.2]
    exact ⟨rfl, rfl⟩
  simp only [hslot, Option.pure_def, Option.bind_eq_bind, Option.bind_eq_some_iff,
    Prod.exists] at h
  rcases h with ⟨base, mm, _, h⟩
  by_cases hzero : base = 0
  · rw [if_pos hzero, Option.some.injEq, Prod.mk.injEq] at h
    rw [← h.2]
    exact ⟨rfl, rfl⟩
  · rw [if_neg hzero, Option.some.injEq, Prod.mk.injEq] at h
    rw [← h.2]
    exact ⟨rfl, rfl⟩

section

variable (s : Slab) (headers pages : List Nat) (H : Set Nat) (S : Set MemNode)
  (f : MemNode → List MemNode) (h : Hung s headers pages H S f)

include h

/-- Another lock word or another current page. -/
theorem hung_fields (mutex : Nat) (current : Option Nat)
    (hcurrent : ∀ p, current = some p → p ∈ pages ∧ Carvable s.mm H S p) :
    Hung { s with slabMutex := mutex, slabPageCurrent := current } headers pages H S f :=
  ⟨filed_fields s H S _ f h.filed mutex current s.aside, h.inUse, h.caches, h.lists, h.home,
    h.marked, hcurrent, h.aside⟩

theorem hung_marked (p : Nat) (hp : MemNode.page p ∈ pageHeads pages) :
    used s.mm.pageMap p = true :=
  h.marked p ((page_mem_pageHeads pages p).mp hp)

/-- No header was found. -/
theorem hung_noHeader (s₁ : Slab) (hrun : s.getNewSlabHeader = some (none, s₁)) :
    ∃ H' S' g, Hung s₁ headers pages H' S' g ∧ Broadens s H S s₁ H' S' := by
  rcases filed_getNewSlabHeader s H S _ f h.filed (hung_marked s headers pages H S f h) none s₁
    hrun with ⟨hcur, _, H', S', g, hfiled, hgrow, _, hlists, hnodes⟩
  rcases getNewSlabHeader_fields s s₁ none hrun with ⟨hheader, haside⟩
  have hva := vaToPageId_of_start s.mm s₁.mm hgrow.start
  refine ⟨H', S', g, ⟨hfiled, fun a => ?_, fun i hi => ?_, fun p hp a => ?_, fun a ha => ?_,
    fun p hp => hgrow.marks p (h.marked p hp), fun p hp => ?_, haside.trans h.aside⟩, hgrow⟩
  · rw [← h.inUse]
    exact ⟨hnodes a, fun ha => hgrow.nodes ha⟩
  · rw [hlists _ (h.filed.caches i hi)]
    exact h.caches i hi
  · rw [hlists _ ((page_mem_pageHeads pages p).mpr hp), hheader, hva]
    exact h.lists p hp a
  · rw [hheader, hva]
    exact h.home a ha
  · rw [hcur] at hp
    rcases h.current p hp with ⟨hmem, hcarve⟩
    exact ⟨hmem, (hgrow.carvable p (h.marked p hmem) hcarve).1⟩

/-- A slice with a new header, from a page that can be carved. -/
theorem hung_cut (pg size a : Nat) (s₁ : Slab) (hpg : pg ∈ pages) (hp : Carvable s.mm H S pg)
    (hstep : size % 16 = 0) (hlow : 16 ≤ size) (hfree : size ≤ (s.mm.pageTable pg).freeSize)
    (hmax : size ≤ slabMax) (hrun : s.getNewSlabHeader = some (some a, s₁)) :
    ∃ H' S' g, Hung (s₁.takeSlice pg size a) (a :: headers) pages H' S' g ∧
      Broadens s H S (s₁.takeSlice pg size a) H' S' := by
  have hhead := (page_mem_pageHeads pages pg).mpr hpg
  rcases filed_cutSlice s H S _ f h.filed (hung_marked s headers pages H S f h) pg size a s₁ hp
    hhead hstep hlow hfree hmax hrun with
    ⟨hcur, _, hdata, H', S', g, hfiled, hgrow, hin, hlists, hnodes, hfresh⟩
  rcases getNewSlabHeader_fields s s₁ _ hrun with ⟨hheader, haside⟩
  have hva := vaToPageId_of_start s.mm _ hgrow.start
  have hnew : a ∉ headers := fun hc => hfresh ((h.inUse a).mpr hc)
  have hother : ∀ b ∈ headers, (s₁.takeSlice pg size a).header b = s.header b := by
    intro b hb
    rw [takeSlice_eq]
    exact (Function.update_of_ne (fun hc : b = a => hnew (hc ▸ hb)) _ _).trans (congrFun hheader b)
  -- The slice begins in the page.
  have hbase : s.mm.vaToPageId (s.mm.pageTable pg).freeBase = pg := by
    have hwords := h.filed.words
    have hbound := hp.bound
    have hroom := hp.room
    have hoff := page_of_offset s.mm pg (pageSize - (s.mm.pageTable pg).freeSize) h.filed.start
      (by omega) (by
        unfold pageSize at hroom ⊢
        omega)
    rw [← hp.base] at hoff
    exact hoff.1
  refine ⟨H', S', g, ⟨hfiled, fun b => ?_, fun i hi => ?_, fun p hpp b => ?_, fun b hb => ?_,
    fun p hpp => hgrow.marks p (h.marked p hpp), fun p hpp => ?_, ?_⟩, hgrow⟩
  · rw [List.mem_cons, ← h.inUse]
    refine ⟨hnodes b, fun hb => ?_⟩
    rcases hb with hb | hb
    · rw [hb]
      exact hin
    · exact hgrow.nodes hb
  · rw [hlists _ (h.filed.caches i hi), if_neg MemNode.noConfusion]
    exact h.caches i hi
  · rw [hlists _ ((page_mem_pageHeads pages p).mpr hpp), List.mem_cons, hva]
    have hold := h.lists p hpp b
    by_cases hb : b = a
    · -- The new header is on the list of this page and on no other.
      subst hb
      rw [hdata, hbase]
      by_cases hppg : p = pg
      · rw [if_pos (congrArg MemNode.page hppg)]
        exact iff_of_true List.mem_cons_self ⟨Or.inl rfl, hppg.symm⟩
      · rw [if_neg (fun hc => hppg (MemNode.page.inj hc))]
        refine iff_of_false (fun hc => hnew (hold.mp hc).1) (fun hc => hppg hc.2.symm)
    · have hmem : MemNode.header b ∈ (if MemNode.page p = .page pg then
          .header a :: f (.page p) else f (.page p)) ↔ MemNode.header b ∈ f (.page p) := by
        split
        · rw [List.mem_cons]
          exact ⟨fun hc => hc.resolve_left (fun hc => hb (MemNode.header.inj hc)), Or.inr⟩
        · exact Iff.rfl
      rw [hmem, hold]
      constructor
      · rintro ⟨hbh, hpage⟩
        rw [hother b hbh]
        exact ⟨Or.inr hbh, hpage⟩
      · rintro ⟨hbh, hpage⟩
        have hbh := hbh.resolve_left hb
        rw [hother b hbh] at hpage
        exact ⟨hbh, hpage⟩
  · rw [hva]
    rcases List.mem_cons.mp hb with hb | hb
    · rw [hb, hdata, hbase]
      exact hpg
    · rw [hother b hb]
      exact h.home b hb
  · rw [hcur] at hpp
    rcases h.current p hpp with ⟨hmem, hcarve⟩
    exact ⟨hmem, (hgrow.carvable p (h.marked p hmem) hcarve).1⟩
  · rw [takeSlice_eq]
    exact haside.trans h.aside

end

/-- A slice without a header: there was none. -/
theorem getSlabFromPage_none (s s' : Slab) (pg size : Nat)
    (h : s.getSlabFromPage pg size = some (none, s')) : s.getNewSlabHeader = some (none, s') := by
  unfold Slab.getSlabFromPage at h
  simp only [Option.pure_def, Option.bind_eq_bind, Option.bind_eq_some_iff, Prod.exists] at h
  rcases h with ⟨header, s₁, hheader, h⟩
  rcases header with _ | b
  · simp only [Option.some.injEq, Prod.mk.injEq, true_and] at h
    rw [← h]
    exact hheader
  · simp only [Option.some.injEq, Prod.mk.injEq, reduceCtorEq, false_and] at h

/-- The pages of a block, as `get_free_pages` gives them. -/
theorem blockPages_eq (s : Slab) (size base : Nat) (mm : Mm)
    (hget : s.mm.getFreePages (pageNr size) gfpKernel = some (base, mm)) :
    s.blockPages size
      = if base = 0 then [] else List.range' (s.mm.vaToPageId base) (pageNr size) := by
  unfold Slab.blockPages
  rw [hget, Option.elim_some]

section

variable (s : Slab) (headers pages : List Nat) (H : Set Nat) (S : Set MemNode)
  (f : MemNode → List MemNode) (h : Hung s headers pages H S f)

include h

/-- Taking clear pages: their lists are empty. -/
theorem hung_run (mm : Mm) (z : ZoneId) (index count : Nat) (zone' : Zone)
    (htook : Mm.Took s.mm mm z index count gfpKernel zone')
    (hclear : ∀ p, index ≤ p → p < index + count → used s.mm.pageMap p = false) :
    (∃ g, Hung { s with mm := mm } headers pages H (S ∪ runNodes index count) g) ∧
      ∃ g, Hung { s with mm := mm } headers (List.range' index count ++ pages) H
        (S ∪ runNodes index count) g := by
  have hfiled := filed_took s H S _ f h.filed mm z index count _ zone' htook hclear
  have hva := vaToPageId_of_start s.mm mm htook.start
  have hout : ∀ p ∈ pages, ¬(index ≤ p ∧ p < index + count) :=
    fun p hp hin => ne_of_used _ p p (h.marked p hp) (hclear p hin.1 hin.2) rfl
  have hfar : ∀ n ∈ pageHeads pages, n ∉ runNodes index count := by
    intro n hn hc
    rcases runNodes_page _ _ _ hc with ⟨p, hp⟩
    rw [hp] at hn hc
    exact hout p ((page_mem_pageHeads pages p).mp hn) ((page_mem_runNodes index count p).mp hc)
  have hmarked : ∀ p ∈ pages, used mm.pageMap p = true := by
    intro p hp
    rw [htook.bits, if_neg (hout p hp)]
    exact h.marked p hp
  have hinUse : ∀ a, MemNode.header a ∈ S ∪ runNodes index count ↔ a ∈ headers := by
    intro a
    rw [← h.inUse]
    refine ⟨fun ha => ha.resolve_right fun hc => ?_, Or.inl⟩
    rcases runNodes_page _ _ _ hc with ⟨p, hp⟩
    exact MemNode.noConfusion hp
  have hcurrent : ∀ p, s.slabPageCurrent = some p → p ∈ pages ∧
      Carvable mm H (S ∪ runNodes index count) p := by
    intro p hp
    rcases h.current p hp with ⟨hmem, hc⟩
    exact ⟨hmem, carvable_took s H S mm z index count _ zone' htook p hc⟩
  have hlists : ∀ p ∈ pages, ∀ a, MemNode.header a ∈ f (.page p) ↔
      a ∈ headers ∧ mm.vaToPageId (s.header a).base = p := by
    intro p hp a
    rw [hva]
    exact h.lists p hp a
  have hhome : ∀ a ∈ headers, mm.vaToPageId (s.header a).base ∈ pages := by
    intro a ha
    rw [hva]
    exact h.home a ha
  constructor
  · refine ⟨_, hfiled, hinUse, fun i hi => ?_, fun p hp a => ?_, hhome, hmarked, hcurrent, h.aside⟩
    · rw [if_neg (hfar _ (h.filed.caches i hi))]
      exact h.caches i hi
    · rw [if_neg (hfar _ ((page_mem_pageHeads pages p).mpr hp))]
      exact hlists p hp a
  · have hmore := filed_alone _ H _ _ _ hfiled (runNodes index count) (fun n hn => by
        rcases runNodes_page _ _ _ hn with ⟨p, hp⟩
        rw [hp] at hn ⊢
        have hin := (page_mem_runNodes index count p).mp hn
        exact ⟨Or.inr hn, p, rfl, fun hc =>
          ne_of_used _ p p (h.filed.marked p hc).2.1 (hclear p hin.1 hin.2) rfl⟩)
      (fun n hn hc => by
        rcases runNodes_page _ _ _ hn with ⟨p, hp⟩
        exact hfar _ ((filed_ringNodes _ H _ _ _ hfiled n hc).2.2 p hp) (hp ▸ hn))
      (fun n hn => by
        simp only [htook.links]
        exact freshLinks_in s.mm.links index count n hn)
    rw [← pageHeads_run] at hmore
    refine ⟨_, hmore, hinUse, fun i hi => ?_, fun p hp a => ?_, fun a ha => ?_, fun p hp => ?_,
      fun p hp => ?_, h.aside⟩
    · have hi' := hfar _ (h.filed.caches i hi)
      simp only [if_neg hi']
      exact h.caches i hi
    · rcases List.mem_append.mp hp with hp | hp
      · have hin := List.mem_range'_1.mp hp
        have hnode := (page_mem_runNodes index count p).mpr hin
        simp only [if_pos hnode]
        refine iff_of_false List.not_mem_nil (fun hc => ?_)
        exact hout _ (hc.2 ▸ hhome a hc.1) hin
      · have hnode := hfar _ ((page_mem_pageHeads pages p).mpr hp)
        simp only [if_neg hnode]
        exact hlists p hp a
    · exact List.mem_append_right _ (hhome a ha)
    · rcases List.mem_append.mp hp with hp | hp
      · rw [htook.bits, if_pos (List.mem_range'_1.mp hp)]
      · exact hmarked p hp
    · exact ⟨List.mem_append_right _ (hcurrent p hp).1, (hcurrent p hp).2⟩

variable (size : Nat) (hlow : 0 < size) (hhigh : size < 2 ^ 31 + 16) (hstep : size % 16 = 0)
  (hclear : pageNr size = 1 ∨ s.clearRun size)

include hlow hhigh hstep hclear

/-- The page slices are cut from is opened. -/
theorem hung_openedPage (s₁ : Slab) (pg : Nat) (hopen : s.openedPage size = some (pg, s₁)) :
    ∃ S' g, Hung s₁ headers (s.blockPages size ++ pages) H S' g ∧
      pg ∈ s.blockPages size ++ pages ∧ Carvable s₁.mm H S' pg ∧
      (s₁.mm.pageTable pg).freeSize = pageSize := by
  rcases openedPage_run s s₁ h.filed.words h.filed.start size pg hlow hhigh hstep hclear hopen with
    ⟨mm, base, index, hr⟩
  rcases hr.took with ⟨z, zone', htook⟩
  have hone := hr.one
  have hpage := hr.page
  have hblock : s.blockPages size = List.range' index (pageNr size) := by
    rw [blockPages_eq s size base mm hr.get, if_neg hr.nonzero,
      ← vaToPageId_of_start s.mm mm htook.start, hr.first]
  rcases (hung_run s headers pages H S f h mm z index _ zone' htook hr.clear).2 with ⟨g, hg⟩
  rw [← hblock] at hg
  have hclear' : ∀ p, used s.mm.pageMap p = false → p ∉ H :=
    fun p hp hc => ne_of_used _ p p (h.filed.marked p hc).2.1 hp rfl
  have hindex := hr.clear index (Nat.le_refl _) (by omega)
  have hlast := hr.clear pg (by omega) (by omega)
  rcases filed_markRun _ H _ _ g hg.filed base size (hr.first ▸ hclear' index hindex)
    (hr.last ▸ hclear' pg hlast) with ⟨hmark, hentries⟩
  rcases markRun_fields { s with mm := mm } base size with ⟨hcur, hstart, hmap, hheader, haside⟩
  rw [hr.state] at hmark hentries hcur hstart hmap hheader haside
  have hva := vaToPageId_of_start mm s₁.mm hstart
  -- The first page of the run was clear, so it is not the current page.
  have hcurrent : ∀ p, s.slabPageCurrent = some p → p ≠ index := fun p hp =>
    ne_of_used _ p index (h.marked p (h.current p hp).1) hindex
  have hcarve := carvable_run s H S _ f h.filed mm z index _ _ zone' htook hr.clear pg (by omega)
    (by omega)
  have hne : 1 < pageNr size → pg ≠ mm.vaToPageId base := by
    intro hmany
    rw [hr.first]
    omega
  refine ⟨_, g, ⟨hmark, hg.inUse, hg.caches, fun p hp a => ?_, fun a ha => ?_, fun p hp => ?_,
    fun p hp => ?_, haside.trans hg.aside⟩, ?_, (hentries pg hcarve hne).1, ?_⟩
  · rw [hheader, hva]
    exact hg.lists p hp a
  · rw [hheader, hva]
    exact hg.home a ha
  · rw [hmap]
    exact hg.marked p hp
  · rw [hcur] at hp
    rcases hg.current p hp with ⟨hmem, hc⟩
    exact ⟨hmem, (hentries p hc (fun _ => hr.first.symm ▸ hcurrent p hp)).1⟩
  · rw [hblock]
    exact List.mem_append_left _ (List.mem_range'_1.mpr (by omega))
  · have hfresh := htook.table pg
    rw [if_pos (by omega)] at hfresh
    rw [(hentries pg hcarve hne).2]
    simp only [hfresh, Mm.freshPage]

/-- A slice from a new page, or whole pages: each new header is on the list of its page. -/
theorem hung_getKernelSlab (s' : Slab) (ret : Nat) (hnone : s.restAside size = false)
    (hrun : s.getKernelSlab size gfpKernel = some (ret, s')) :
    ∃ H' S' g, Hung s' (s.getKernelSlabHeaders size ++ headers) (s.blockPages size ++ pages)
      H' S' g := by
  rcases Slab.getKernelSlab_cases s s' size gfpKernel ret hrun with
    ⟨mm, hget, ⟨hwhole, hs'⟩ | ⟨hpart, hne, header, s₁, hslice, hupdate⟩⟩
  · -- No page is opened.
    have hheaders : s.getKernelSlabHeaders size = [] := by
      unfold Slab.getKernelSlabHeaders Slab.openedPage
      simp only [hget, Option.pure_def, Option.bind_eq_bind, Option.bind_some]
      rw [if_pos hwhole, Option.elim_none]
    rw [hs', hheaders, List.nil_append, blockPages_eq s size ret mm hget]
    rcases took_clear s mm size ret h.filed.words hclear hget with
      ⟨hzero, hmm⟩ | ⟨z, index, zone', haddr, htook, hclear'⟩
    · rw [if_pos hzero, hmm]
      exact ⟨H, S, f, h⟩
    · rcases hung_run s headers pages H S f h mm z index _ zone' htook hclear' with
        ⟨⟨g, hg⟩, ⟨g', hg'⟩⟩
      by_cases hzero : ret = 0
      · rw [if_pos hzero]
        exact ⟨H, _, g, hg⟩
      · have hpos : 0 < pageNr size := by
          rw [pageNr_eq size hhigh]
          omega
        have hid : s.mm.vaToPageId ret = index := by
          rw [haddr]
          exact first_of_bound s.mm index _ h.filed.start h.filed.words hpos htook.bound
        rw [if_neg hzero, hid]
        exact ⟨H, _, g', hg'⟩
  have hopen := openedPage_of_get s size ret mm hpart hne hget
  rw [← leaveSize_def] at hslice
  rcases leaveSize_eq size hlow hhigh hstep hpart with ⟨_, hleave, hmax, hleaveStep⟩
  rcases hung_openedPage s headers pages H S f h size hlow hhigh hstep hclear _ _ hopen with
    ⟨S', g, hg, hpg, hcarve, hfull⟩
  have hheaders : s.getKernelSlabHeaders size
      = header.toList ++ s₁.restHeaders (Slab.lastPage mm ret size) := by
    unfold Slab.getKernelSlabHeaders
    rw [hopen, Option.elim_some, hslice]
    rfl
  have hrest : s₁.displaced (Slab.lastPage mm ret size) = none := by
    unfold Slab.restAside at hnone
    rw [hopen, Option.any_some, hslice] at hnone
    exact Option.isNone_iff_eq_none.mp (Option.isSome_eq_false_iff.mp hnone)
  -- The first slice has a header, or there was none.
  have hslice' : ∃ H' S'' g', Hung s₁ (header.toList ++ headers)
      (s.blockPages size ++ pages) H' S'' g' ∧
      Carvable s₁.mm H' S'' (Slab.lastPage mm ret size) := by
    have hset := hg.marked _ hpg
    rcases header with _ | a
    · rcases hung_noHeader _ headers _ H S' g hg s₁ (getSlabFromPage_none _ s₁ _ _ hslice) with
        ⟨H', S'', g', hg', hgrow⟩
      exact ⟨H', S'', g', hg', (hgrow.carvable _ hset hcarve).1⟩
    · rcases getSlabFromPage_some _ s₁ _ _ a hslice with ⟨s₂, hheader, hs₁⟩
      have hfree : Slab.leaveSize size ≤ ((Slab.markRun { s with mm := mm } ret size).mm.pageTable
          (Slab.lastPage mm ret size)).freeSize := by
        rw [hfull]
        unfold slabMax slabNode slabStep slabHeaderSize pageSize at hmax
        unfold pageSize
        omega
      rcases hung_cut _ headers _ H S' g hg _ _ a s₂ hpg hcarve hleaveStep hleave hfree hmax
        hheader with ⟨H', S'', g', hg', hgrow⟩
      rw [← hs₁] at hg' hgrow
      exact ⟨H', S'', g', hg', (hgrow.carvable _ hset hcarve).1⟩
  rcases hslice' with ⟨H', S'', g', hg', hcarve'⟩
  rcases updateSlabFreePage_cases s₁ s' _ hupdate with hs' | ⟨_, _, _, _, _, hd, _⟩
  swap
  · exact absurd (hrest.symm.trans hd).symm (Option.some_ne_none _)
  have hresthead : s₁.restHeaders (Slab.lastPage mm ret size) = [] := by
    unfold Slab.restHeaders
    rw [hrest, Option.elim_none]
  rw [hheaders, hresthead, List.append_nil, hs']
  refine ⟨H', S'', g', hung_fields s₁ _ _ H' S'' g' hg' s₁.slabMutex _ (fun p hp => ?_)⟩
  rw [← Option.some.inj hp]
  rcases choosePage_fst s₁ (Slab.lastPage mm ret size) with hnew | hnew
  · rw [hnew]
    exact ⟨hpg, hcarve'⟩
  · exact hg'.current _ hnew

end

section

variable (s : Slab) (headers pages : List Nat) (H : Set Nat) (S : Set MemNode)
  (f : MemNode → List MemNode) (h : Hung s headers pages H S f) (size : Nat)

include h

/-- The cache lists are empty, so they give no slice. -/
theorem hung_getSlabInList (hlist : listId size < slabNode) (s' : Slab) (ret : Nat)
    (hrun : s.getSlabInList size gfpKernel = some (ret, s')) : ret = 0 ∧ s' = s := by
  have hring := h.filed.rings.1 _ (h.filed.caches _ hlist)
  have hempty : isListEmpty s.mm.links (.cache (listId size)) = true :=
    decide_eq_true ((ring_next_self_iff s.mm.links _ _ hring).mpr (h.caches _ hlist))
  unfold Slab.getSlabInList at hrun
  rw [if_neg (by decide)] at hrun
  simp only [hempty, if_true, Option.some.injEq, Prod.mk.injEq] at hrun
  exact ⟨hrun.1.symm, hrun.2.symm⟩

/-- A slice from the current page, if there is room and a header. -/
theorem hung_getSlabFromPageFree (hstep : size % 16 = 0) (hlow : 16 ≤ size) (hmax : size ≤ slabMax)
    (s' : Slab) (ret : Nat) (hrun : s.getSlabFromPageFree size = some (ret, s')) :
    ∃ H' S' g, Hung s' (s.pageFreeHeaders size ++ headers) pages H' S' g := by
  unfold Slab.getSlabFromPageFree at hrun
  unfold Slab.pageFreeHeaders
  rcases hpg : s.slabPageCurrent with _ | pg
  · simp only [hpg, Option.some.injEq, Prod.mk.injEq] at hrun
    rw [← hrun.2]
    exact ⟨H, S, f, h⟩
  simp only [hpg, Option.pure_def, Option.bind_eq_bind, Option.bind_eq_some_iff] at hrun
  rcases hrun with ⟨state, hstate, hrun⟩
  simp only [hstate, Option.some.injEq]
  by_cases hzero : state = 0
  · rw [if_pos hzero, Option.some.injEq, Prod.mk.injEq] at hrun
    rw [← hrun.2, if_pos (Or.inl hzero)]
    exact ⟨H, S, f, hung_fields s headers pages H S f h s.slabMutex none
      (fun p hp => absurd hp.symm (Option.some_ne_none p))⟩
  rw [if_neg hzero] at hrun
  by_cases hsmall : (s.mm.pageTable pg).freeSize < size
  · rw [if_pos hsmall, Option.some.injEq, Prod.mk.injEq] at hrun
    rw [← hrun.2, if_pos (Or.inr hsmall)]
    exact ⟨H, S, f, h⟩
  rw [if_neg hsmall] at hrun
  rw [if_neg (not_or.mpr ⟨hzero, hsmall⟩)]
  simp only [Option.bind_eq_some_iff, Prod.exists] at hrun
  rcases hrun with ⟨header, s₁, hheader, hrun⟩
  rcases header with _ | a
  · simp only [Option.some.injEq, Prod.mk.injEq] at hrun
    rcases hung_noHeader s headers pages H S f h s₁ hheader with ⟨H', S', g, hg, _⟩
    rw [hheader, ← hrun.2]
    exact ⟨H', S', g, hg⟩
  · simp only [Option.some.injEq, Prod.mk.injEq] at hrun
    rcases h.current pg hpg with ⟨hmem, hcarve⟩
    rcases hung_cut s headers pages H S f h pg size a s₁ hmem hcarve hstep hlow (by omega) hmax
      hheader with ⟨H', S', g, hg, _⟩
    rw [hheader, ← hrun.2]
    exact ⟨H', S', g, hg⟩

end

/-- Where `__kmalloc` looks at the current page. -/
theorem atPageFree_eq (s s₁ s₂ : Slab) (size : Nat) (hsmall : size < pageSize)
    (hlock : s.lock = some s₁)
    (hnone : s₁.getSlabInList (getNewAllocSize size gfpKernel) gfpKernel = some (0, s₂)) :
    s.atPageFree size = some s₂ := by
  have hnot : ¬pageSize ≤ size := by omega
  unfold Slab.atPageFree
  simp only [hlock, Option.bind_eq_bind, Option.bind_some, if_neg hnot, hnone, ne_eq,
    not_true_eq_false, if_false, Option.pure_def]

section

variable (s : Slab) (headers pages : List Nat) (H : Set Nat) (S : Set MemNode)
  (f : MemNode → List MemNode) (h : Hung s headers pages H S f) (size : Nat) (hlow : 1 ≤ size)
  (hhigh : size < 2 ^ 31) (hsize : size < pageSize → size ≤ slabMax)

include h hlow hhigh hsize

/-- The cache list gives nothing, and the current page a slice at most. -/
theorem hung_small (hsmall : size < pageSize) (s₁ s₂ : Slab) (hlock : s.lock = some s₁) (ret : Nat)
    (hinList : s₁.getSlabInList (getNewAllocSize size gfpKernel) gfpKernel = some (ret, s₂)) :
    ret = 0 ∧ s.atPageFree size = some s₂ ∧ ∀ ret' s₃,
      s₂.getSlabFromPageFree (getNewAllocSize size gfpKernel) = some (ret', s₃) →
        ∃ H' S' g, Hung s₃ (s₂.pageFreeHeaders (getNewAllocSize size gfpKernel) ++ headers) pages
          H' S' g := by
  rcases request_round size hlow hhigh with ⟨hlow', _, hstep', hround⟩
  have hmax := (hround (hsize hsmall)).1
  have hlist : listId (getNewAllocSize size gfpKernel) < slabNode := by
    unfold slabMax slabNode slabStep pageSize slabHeaderSize at hmax
    unfold listId slabNode pageSize slabHeaderSize
    omega
  have hs₁ := (Slab.lock_cases s s₁ hlock).2
  have h₁ : Hung s₁ headers pages H S f := by
    rw [hs₁]
    exact hung_fields s headers pages H S f h 1 s.slabPageCurrent h.current
  rcases hung_getSlabInList s₁ headers pages H S f h₁ _ hlist s₂ ret hinList with ⟨hzero, hs₂⟩
  subst hzero
  refine ⟨rfl, atPageFree_eq s s₁ s₂ size hsmall hlock hinList, fun ret' s₃ hrun => ?_⟩
  rw [hs₂] at hrun ⊢
  exact hung_getSlabFromPageFree s₁ headers pages H S f h₁ _ hstep' hlow' hmax s₃ ret' hrun

/-- The state in which new pages are looked for. -/
theorem hung_atNewSlab (s₁ : Slab) (hclear : pageSize ≤ size →
      s.clearRun (getNewAllocSize size gfpKernel)) (hrun : s.atNewSlab size = some s₁) :
    (∃ H' S' g, Hung s₁ ((s.atPageFree size).elim []
      (fun s => s.pageFreeHeaders (getNewAllocSize size gfpKernel)) ++ headers) pages H' S' g) ∧
      (pageNr (getNewAllocSize size gfpKernel) = 1 ∨
        s₁.clearRun (getNewAllocSize size gfpKernel)) := by
  unfold Slab.atNewSlab at hrun
  simp only [Option.pure_def, Option.bind_eq_bind, Option.bind_eq_some_iff] at hrun
  rcases hrun with ⟨s₂, hlock, hrun⟩
  by_cases hbig : pageSize ≤ size
  · rw [if_pos hbig, Option.some.injEq] at hrun
    have hnone : s.atPageFree size = none := by
      unfold Slab.atPageFree
      simp only [hlock, Option.bind_eq_bind, Option.bind_some, if_pos hbig]
    have hs₂ := (Slab.lock_cases s s₂ hlock).2
    rw [← hrun, hnone, Option.elim_none, List.nil_append]
    subst hs₂
    exact ⟨⟨H, S, f, hung_fields s headers pages H S f h 1 s.slabPageCurrent h.current⟩,
      Or.inr (hclear hbig)⟩
  rw [if_neg hbig] at hrun
  have hsmall : size < pageSize := by omega
  simp only [Option.bind_eq_some_iff, Prod.exists] at hrun
  rcases hrun with ⟨ret, s₃, hinList, hrun⟩
  rcases hung_small s headers pages H S f h size hlow hhigh hsize hsmall s₂ s₃ hlock ret hinList
    with ⟨hzero, hat, hpage⟩
  rw [if_neg (not_not.mpr hzero)] at hrun
  simp only [Option.bind_eq_some_iff, Prod.exists] at hrun
  rcases hrun with ⟨ret', s₄, hinPage, hrun⟩
  by_cases hret' : ret' ≠ 0
  · rw [if_pos hret'] at hrun
    exact absurd hrun.symm (Option.some_ne_none _)
  rw [if_neg hret', Option.some.injEq] at hrun
  rw [← hrun, hat, Option.elim_some]
  exact ⟨hpage ret' s₄ hinPage,
    Or.inl ((request_round size hlow hhigh).2.2.2 (hsize hsmall)).2⟩

/-- One `__kmalloc`. -/
theorem hung_doKmalloc (hclear : pageSize ≤ size →
      s.clearRun (getNewAllocSize size gfpKernel))
    (hnone : ∀ s' ∈ s.atNewSlab size, s'.restAside (getNewAllocSize size gfpKernel) = false)
    (s' : Slab) (ret : Nat) (hrun : s.doKmalloc size gfpKernel = some (ret, s')) :
    ∃ H' S' g, Hung s' (s.kmallocHeaders size ++ headers) (s.kmallocPages size ++ pages)
      H' S' g := by
  rcases request_round size hlow hhigh with ⟨hlow', hhigh', hstep', _⟩
  unfold Slab.kmallocHeaders Slab.kmallocPages
  rcases doKmalloc_cases s s' size ret hrun with
    ⟨s₁, s₂, hlock, hsmall, hret, hs', hpath⟩ | ⟨s₁, s₂, hnew, hget, hs'⟩
  · rcases hpath with hinList | ⟨s₀, hinList, hinPage⟩
    · exact absurd (hung_small s headers pages H S f h size hlow hhigh hsize hsmall s₁ s₂ hlock ret
        hinList).1 hret
    · -- The current page has room, so no new one is looked for.
      rcases hung_small s headers pages H S f h size hlow hhigh hsize hsmall s₁ s₀ hlock 0 hinList
        with ⟨_, hat, hpage⟩
      have hno : s.atNewSlab size = none := by
        have hnot : ¬pageSize ≤ size := by omega
        unfold Slab.atNewSlab
        simp only [hlock, Option.bind_eq_bind, Option.bind_some, if_neg hnot, hinList, hinPage,
          ne_eq, not_true_eq_false, if_false, hret, not_false_eq_true, if_true]
      rcases hpage ret s₂ hinPage with ⟨H', S', g, hg⟩
      rw [hno, hat, Option.elim_none, Option.elim_none, Option.elim_some, List.nil_append,
        List.nil_append, hs']
      exact ⟨H', S', g, hung_fields s₂ _ pages H' S' g hg 0 s₂.slabPageCurrent hg.current⟩
  · rcases hung_atNewSlab s headers pages H S f h size hlow hhigh hsize s₁ hclear hnew with
      ⟨⟨H', S', g, hg⟩, hclear'⟩
    rcases hung_getKernelSlab s₁ _ pages H' S' g hg _ (by omega) hhigh' hstep' hclear' s₂ ret
      (hnone s₁ hnew) hget with ⟨H'', S'', g', hg'⟩
    rw [hnew, Option.elim_some, Option.elim_some, List.append_assoc, hs']
    exact ⟨H'', S'', g', hung_fields s₂ _ _ H'' S'' g' hg' 0 s₂.slabPageCurrent hg'.current⟩

end

/-- In the invariant each header is on one list. -/
theorem oneList_hung (s : HSession) (H : Set Nat) (S : Set MemNode) (f : MemNode → List MemNode)
    (h : Hung s.slab s.headers s.pages H S f) : s.OneList := by
  have hhome : ∀ a, s.home a = .page (s.slab.mm.vaToPageId (s.slab.header a).base) := by
    intro a
    unfold HSession.home
    rw [h.aside, if_neg List.not_mem_nil]
  constructor
  · intro a ha
    have hmem := (page_mem_pageHeads s.pages _).mpr (h.home a ha)
    rw [hhome]
    refine ⟨hmem, fun head hhead => ⟨?_, fun heq => ?_⟩⟩
    · rintro ⟨n, hn⟩
      rcases List.mem_cons.mp (rings_walk _ _ f h.filed.rings _ _ hhead n hn) with hc | hc
      · rcases hhead with ⟨i, _, hi⟩ | ⟨p, _, hp⟩
        · exact MemNode.noConfusion (hc.trans hi)
        · exact MemNode.noConfusion (hc.trans hp)
      · rcases hhead with ⟨i, hi, heq⟩ | ⟨p, hp, heq⟩
        · rw [heq, h.caches i hi] at hc
          exact absurd hc List.not_mem_nil
        · rw [heq] at hc ⊢
          rw [((h.lists p hp a).mp hc).2]
    · rw [heq]
      have hin := (h.lists _ (h.home a ha) a).mpr ⟨ha, rfl⟩
      exact forward_reaches _ _ _ _ _ (forward_of_linked _ _ (h.filed.rings.1 _ hmem).2) hin
  · intro p hp
    have hmem := (page_mem_pageHeads s.pages p).mpr hp
    have hring := h.filed.rings.1 _ hmem
    have hrange : f (.page p) ∈ Set.range (List.map MemNode.header) := by
      rw [Set.range_list_map]
      intro m hm
      rcases h.filed.members _ hmem m hm with ⟨a, ha, _⟩
      exact ⟨a, ha.symm⟩
    rcases hrange with ⟨hs, hhs⟩
    refine ⟨hs, ?_, ?_, fun a => ?_⟩
    · have hnd := (List.nodup_cons.mp hring.1).2
      rw [← hhs] at hnd
      exact hnd.of_map _
    · rw [hhs]
      exact forward_of_linked _ _ hring.2
    · have hlist := h.lists p hp a
      rw [← hhs, List.mem_map_of_injective (fun _ _ hc => MemNode.header.inj hc)] at hlist
      rw [hlist, hhome, MemNode.page.injEq]

/-- After `slab_init` there are no headers. -/
theorem hung_slabInit (mm : Mm) (header : Nat → SlabHeader)
    (hwords : 32 * mm.mapWords ≤ 2 ^ 20) (hstart : mm.kernelStart < u32Size) :
    Hung (Slab.slabInit mm header) [] [] ∅ { n | n = .tableList ∨ ∃ i < slabNode, n = .cache i }
      (fun _ => []) := by
  have hindexed := indexed_slabInit mm header hwords hstart
  refine ⟨filed_subset _ _ _ _ _ hindexed.filed _ ?_ (fun i hi => Or.inl ⟨i, hi, rfl⟩),
    fun a => iff_of_false ?_ List.not_mem_nil, fun _ _ => rfl,
    fun p hp => absurd hp List.not_mem_nil, fun a ha => absurd ha List.not_mem_nil,
    fun p hp => absurd hp List.not_mem_nil, fun p hp => ?_, rfl⟩
  · rintro n (hn | ⟨p, hp, _⟩)
    · exact Or.inl hn
    · exact absurd hp List.not_mem_nil
  · rintro (hc | ⟨i, _, hc⟩)
    · exact MemNode.noConfusion hc
    · exact MemNode.noConfusion hc
  · exact absurd hp.symm (Option.some_ne_none p)

/-- One call keeps the invariant. -/
theorem hung_call (s s' : HSession) (size : Int) (addr : Nat)
    (h : ∃ H S f, Hung s.slab s.headers s.pages H S f) (hc : oneListOk s size addr)
    (hcall : s.call size = some (addr, s')) :
    ∃ H S f, Hung s'.slab s'.headers s'.pages H S f := by
  rcases h with ⟨H, S, f, h⟩
  rcases hc with ⟨hint, hok⟩
  unfold intCall at hint
  simp only [HSession.call, Option.pure_def, Option.bind_eq_bind, Option.bind_eq_some_iff,
    Prod.exists] at hcall
  rcases hcall with ⟨ret, slab, hrun, hcall⟩
  unfold Slab.kmalloc at hrun
  by_cases hpos : size ≤ 0
  · rw [if_pos hpos, Option.some.injEq, Prod.mk.injEq] at hrun hcall
    rw [← hcall.2, ← hrun.2]
    exact ⟨H, S, f, h⟩
  rw [if_neg hpos] at hrun hcall
  rw [if_neg (by decide)] at hrun
  rw [Option.some.injEq, Prod.mk.injEq] at hcall
  rcases hok (by omega) with ⟨hsize, hclear, hnone⟩
  rw [← hcall.2]
  exact hung_doKmalloc s.slab s.headers s.pages H S f h size.toNat (by omega) (by omega) hsize
    hclear hnone slab ret hrun

/-- Over every run of `kmalloc` after `slab_init` in which no call puts a remainder aside, each
    header in use is on one list, the list of its page, and a walk along the list of a page
    comes back after the headers of its slices. -/
theorem headers_on_one_list (mm : Mm) (header : Nat → SlabHeader)
    (hwords : 32 * mm.mapWords ≤ 2 ^ 20) (hstart : mm.kernelStart < u32Size) (s : HSession)
    (hrun : Run.Reaches HSession.call oneListOk ⟨Slab.slabInit mm header, [], []⟩ s) :
    s.OneList := by
  have hinv : ∃ H S f, Hung s.slab s.headers s.pages H S f := by
    apply Run.invariant_of_reaches HSession.call oneListOk
      (fun s => ∃ H S f, Hung s.slab s.headers s.pages H S f) _ _ s hrun
    · exact ⟨_, _, _, hung_slabInit mm header hwords hstart⟩
    · intro t size addr t' h hc hcall
      exact hung_call t t' size addr h hc hcall
  rcases hinv with ⟨H, S, f, h⟩
  exact oneList_hung s H S f h

/-- On the board, two slices of a page, whole pages, and a new page when the first one is full. -/
theorem headers_on_one_list_board :
    ∃ s, Run.Reaches HSession.call oneListOk boardHeaders s ∧
      (s.headers = [0x80015020, 0x80015010, 0x80015000] ∧ s.pages = [24, 22, 23, 20]) ∧
      s.OneList := by
  have heval : (Run.follow HSession.call oneListOk boardHeaders
      [3000, 1080, 8192, 2000]).map (fun s => (s.headers, s.pages))
      = some ([0x80015020, 0x80015010, 0x80015000], [24, 22, 23, 20]) := by decide +kernel
  rcases Option.map_eq_some_iff.mp heval with ⟨s, hs, hstate⟩
  have hrun := Run.reaches_of_follow HSession.call oneListOk _ _ s hs
  rw [Prod.mk.injEq] at hstate
  exact ⟨s, hrun, hstate, headers_on_one_list _ _ (by decide +kernel) (by decide +kernel) s hrun⟩

/-- On the board, a block of 2000 bytes displaces the page of one of 3000. The header of the
    1088 bytes that are left is on a cache list, and still the first on the list of its page. -/
theorem headers_on_one_list_fails :
    ¬∀ s, Run.Reaches HSession.call intCall boardHeaders s → s.OneList := by
  intro hall
  have heval : (Run.follow HSession.call intCall boardHeaders [3000, 2000]).map (fun s =>
      (s.headers, s.pages, s.home 0x80015020, s.slab.mm.links.next (.page 20)))
      = some ([0x80015010, 0x80015020, 0x80015000], [22, 20], .cache 67, .header 0x80015020) := by
    decide +kernel
  rcases Option.map_eq_some_iff.mp heval with ⟨s, hs, hstate⟩
  simp only [Prod.mk.injEq] at hstate
  rcases hstate with ⟨hheaders, hpages, hhome, hnext⟩
  have hone := (hall s (Run.reaches_of_follow HSession.call intCall _ _ s hs)).1 0x80015020
    (by rw [hheaders]; decide)
  have hpage : MemNode.page 20 ∈ pageHeads s.pages := by
    rw [hpages]
    exact (page_mem_pageHeads _ 20).mpr (by decide)
  have heq := (hone.2 _ hpage).mp ⟨1, hnext⟩
  exact MemNode.noConfusion (heq.trans hhome)

end Mirros
