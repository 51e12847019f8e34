import Mirros.Theory.Boot.Table
import Mirros.Theory.Pages.Exclusive
import Mirros.Theory.Task.Words

/-!
# Memory for a Task

What `alloc_memory_for_task` leaves behind when it succeeds. Every page it uses is
a single page from `get_free_page`, so each is a page that was free before
(`getFreePage_got`). The tables are filled word by word: `Filling` describes the
state after a number of pages, `addPage_stack` and `addPage_elf` are one turn of
the loops, and `allocMemoryForTask_filled` is the whole of the allocation.

## Main definitions

* `Mm.SameBank`: Two states of the page allocator over the same memory.
* `Mm.GotPage`: One page was taken.
* `Mm.pagePa`, `Mm.pageDes`: The physical address of a page and its descriptor.
* `Kernel.Filling`: The tables of a task while its pages are entered.

## Theorems

* `getFreePage_got`: A page that is handed out was free.
* `allocMemoryForTask_filled`: The pages and tables of a new task.
-/

namespace Mirros

namespace Mm

/-- Two states of the page allocator with the same sections and the same map. -/
structure SameBank (mm mm' : Mm) : Prop where
  start : mm'.kernelStart = mm.kernelStart
  words : mm'.mapWords = mm.mapWords
  sections : mm'.sections = mm.sections

theorem SameBank.refl (mm : Mm) : SameBank mm mm :=
  ⟨rfl, rfl, rfl⟩

theorem SameBank.trans {mm₁ mm₂ mm₃ : Mm} (h : SameBank mm₁ mm₂) (h' : SameBank mm₂ mm₃) :
    SameBank mm₁ mm₃ :=
  ⟨h'.start.trans h.start, h'.words.trans h.words, h'.sections.trans h.sections⟩

/-- The physical address `init_pages` writes into the entry of a page. -/
def pagePa (mm : Mm) (q : Nat) : Nat :=
  sub32 (mm.pageIdToVa q) (mm.vaGetPvOffset (mm.pageIdToVa q))

/-- The level-two descriptor of a page. -/
def pageDes (mm : Mm) (q : Nat) : Nat :=
  archBuildPageTableDes (mm.pagePa q) pgtDesDefault

/-- One page was taken and nothing else changed. -/
structure GotPage (mm mm' : Mm) (q : Nat) : Prop where
  bank : SameBank mm mm'
  clear : used mm.pageMap q = false
  bound : q < 32 * mm.mapWords
  bits : ∀ i, used mm'.pageMap i = if i = q then true else used mm.pageMap i
  address : (mm'.pageTable q).phyAddress = mm.pagePa q
  freeBase : (mm'.pageTable q).freeBase = mm.pageIdToVa q
  freeSize : (mm'.pageTable q).freeSize = pageSize
  others : ∀ i, i ≠ q → mm'.pageTable i = mm.pageTable i

section Same

variable (mm mm' : Mm) (h : SameBank mm mm')
include h

theorem plainMap_same (hp : PlainMap mm) : PlainMap mm' :=
  ⟨h.start ▸ hp.start, h.start ▸ hp.aligned, h.words ▸ hp.words⟩

theorem pageIdToVa_same (q : Nat) : mm'.pageIdToVa q = mm.pageIdToVa q := by
  unfold pageIdToVa
  rw [h.start]

theorem vaToPageId_same (va : Nat) : mm'.vaToPageId va = mm.vaToPageId va :=
  vaToPageId_of_start mm mm' h.start va

theorem pagePa_same (q : Nat) : mm'.pagePa q = mm.pagePa q := by
  unfold pagePa vaGetPvOffset
  rw [pageIdToVa_same mm mm' h, h.sections]

theorem kernelVa_same (pa : Nat) : mm'.kernelVa pa = mm.kernelVa pa := by
  unfold kernelVa
  rw [h.sections]

theorem pageDes_same (q : Nat) : mm'.pageDes q = mm.pageDes q := by
  unfold pageDes
  rw [pagePa_same mm mm' h]

end Same

theorem setPage_same (mm : Mm) (q : Nat) (page : Page) : SameBank mm (mm.setPage q page) :=
  ⟨rfl, rfl, rfl⟩

/-- The counters of a zone do not matter for the sections. -/
theorem sections_update (mm mm' : Mm) (z : ZoneId) (zone' : Zone)
    (h : mm'.zone = Function.update mm.zone z zone')
    (hsec : zone'.memorySection = (mm.zone z).memorySection)
    (hnr : zone'.nrSection = (mm.zone z).nrSection) : mm'.sections = mm.sections := by
  have hzone : ∀ w, (mm'.zone w).memorySection = (mm.zone w).memorySection ∧
      (mm'.zone w).nrSection = (mm.zone w).nrSection := by
    intro w
    rw [h]
    by_cases hw : w = z
    · rw [hw, Function.update_self]
      exact ⟨hsec, hnr⟩
    · rw [Function.update_of_ne hw]
      exact ⟨rfl, rfl⟩
  unfold sections
  simp only [hzone]

/-- A page that is handed out was free, and its entry is a fresh one. -/
theorem getFreePages_got (mm mm' : Mm) (flag addr : Nat) (hwords : 32 * mm.mapWords ≤ 2 ^ 20)
    (h : mm.getFreePages 1 flag = some (addr, mm')) :
    (addr = 0 ∧ mm' = mm) ∨ ∃ q, addr = mm.pageIdToVa q ∧ GotPage mm mm' q := by
  rcases getFreePages_cases mm mm' 1 flag addr h with
    hzero | ⟨z, q, _, _, hfind, hne, haddr, htook⟩
  · exact Or.inl hzero
  · refine Or.inr ⟨q, haddr, ?_⟩
    have hin : ∀ i, (q ≤ i ∧ i < q + 1) ↔ i = q := fun i => by omega
    have hentry : mm'.pageTable q = mm.freshPage q 1 q (flag ||| gfpPageHeader) := by
      rw [htook.table q]
      exact if_pos ⟨Nat.le_refl _, Nat.lt_succ_self _⟩
    refine ⟨⟨htook.start, htook.words, sections_update mm mm' z _ htook.zones rfl rfl⟩,
      findContinousPages_one mm _ q hwords hfind hne, ?_, fun i => ?_, ?_, ?_, ?_,
      fun i hi => ?_⟩
    · rcases htook.bound with hb | hb
      · exact absurd hb (by decide)
      · exact hb
    · rw [htook.bits i]
      exact if_congr (hin i) rfl rfl
    · rw [hentry]
      rfl
    · rw [hentry]
      rfl
    · rw [hentry]
      rfl
    · rw [htook.table i]
      exact if_neg (fun hc => hi ((hin i).1 hc))

section Plain

variable (mm : Mm) (hp : PlainMap mm)
include hp

theorem vaToPageId_page (q : Nat) (hq : q < 32 * mm.mapWords) :
    mm.vaToPageId (mm.pageIdToVa q) = q := by
  have hwords := hp.words
  exact vaToPageId_pageIdToVa mm q hp.start (by omega)

theorem pageIdToVa_mod (q : Nat) : mm.pageIdToVa q % pageSize = 0 := by
  have haligned := hp.aligned
  unfold pageIdToVa add32 pageSize u32Size at *
  omega

theorem pageIdToVa_top (q : Nat) : mm.pageIdToVa q + pageSize ≤ u32Size := by
  have hmod := pageIdToVa_mod mm hp q
  have hlt : mm.pageIdToVa q < u32Size := Nat.mod_lt _ (by unfold u32Size; omega)
  unfold pageSize u32Size at *
  omega

/-- The bytes of two pages of the map are apart. -/
theorem pageIdToVa_apart (p q : Nat) (hpb : p < 32 * mm.mapWords) (hqb : q < 32 * mm.mapWords)
    (hne : p ≠ q) :
    mm.pageIdToVa p + pageSize ≤ mm.pageIdToVa q ∨ mm.pageIdToVa q + pageSize ≤ mm.pageIdToVa p := by
  have hvne : mm.pageIdToVa p ≠ mm.pageIdToVa q := by
    intro hc
    have hback := vaToPageId_page mm hp p hpb
    rw [hc, vaToPageId_page mm hp q hqb] at hback
    exact hne hback.symm
  have hpm := pageIdToVa_mod mm hp p
  have hqm := pageIdToVa_mod mm hp q
  unfold pageSize at *
  omega

end Plain

theorem pagePa_lt (mm : Mm) (q : Nat) : mm.pagePa q < u32Size :=
  Nat.mod_lt _ (by unfold u32Size; omega)

theorem pageDes_lt (mm : Mm) (q : Nat) : mm.pageDes q < u32Size := by
  have hand : mm.pagePa q &&& 0xfffff000 < 2 ^ 32 := Nat.and_lt_two_pow _ (by decide)
  have hattr : pgtDesDefault < 2 ^ 32 := by decide
  exact Nat.or_lt_two_pow hand hattr

/-- The descriptor of a page in an aligned frame, taken apart. -/
theorem pageDes_fields (mm : Mm) (q : Nat) (hal : mm.pagePa q % pageSize = 0) :
    mm.pageDes q % 4 = 2 ∧ mm.pageDes q &&& 0xfffff000 = mm.pagePa q := by
  have hmask : ∀ x, x < 2 ^ 32 → x &&& 0xfffff000 = x / 2 ^ 12 * 2 ^ 12 :=
    fun x hx => Mm.and_mask x 12 hx (by omega)
  have hlt := mm.pagePa_lt q
  have hattr : pgtDesDefault < 2 ^ 12 := by decide
  have hval : pgtDesDefault = 0xffe := by decide
  unfold u32Size at *
  unfold pageSize at hal
  have hbase : mm.pagePa q &&& 0xfffff000 = 2 ^ 12 * (mm.pagePa q / 2 ^ 12) := by
    rw [hmask _ hlt, Nat.mul_comm]
  unfold pageDes archBuildPageTableDes
  rw [hbase, ← Nat.two_pow_add_eq_or_of_lt hattr, hmask _ (by omega), hval]
  omega

end Mm

namespace Kernel

/-- The memory structure of a task with its two tables and a number of pages. -/
def filledMm (ms : MmStruct) (qs qe : Nat) (ps rs : List Nat) : MmStruct :=
  { ms with
    stackCurr := some qs
    elfCurr := some qe
    stackList := [qs]
    elfList := [qe]
    elfStackList := ps
    elfImageList := rs }

/-- The state while pages are entered into the tables of task `t`, with `k₀` the
    state before its tables were allocated: page `qs` is the table of the stack with
    the pages `ps` from its last word down, page `qe` the table of the image with the
    pages `rs` from its first word up. -/
structure Filling (k₀ k : Kernel) (t qs qe : Nat) (ps rs : List Nat) : Prop where
  bank : Mm.SameBank k₀.mm k.mm
  task : k.task = Function.update k₀.task t
    { k₀.task t with mm := filledMm (k₀.task t).mm qs qe ps rs }
  tlb : k.tlb = k₀.tlb
  pids : k.pidMap = k₀.pidMap ∧ k.current = k₀.current ∧ k.idle = k₀.idle
  nodup : (qs :: qe :: (ps ++ rs)).Nodup
  pages : ∀ q ∈ qs :: qe :: (ps ++ rs), used k₀.mm.pageMap q = false ∧
    used k.mm.pageMap q = true ∧ q < 32 * k₀.mm.mapWords ∧
    (k.mm.pageTable q).phyAddress = k₀.mm.pagePa q
  keeps : ∀ q, used k₀.mm.pageMap q = true → used k.mm.pageMap q = true
  stackTable : (k.mm.pageTable qs).freeBase = k₀.mm.pageIdToVa qs + 4092 - 4 * ps.length ∧
    (k.mm.pageTable qs).freeSize = pageSize - 4 * ps.length
  elfTable : (k.mm.pageTable qe).freeBase = k₀.mm.pageIdToVa qe + 4 * rs.length ∧
    (k.mm.pageTable qe).freeSize = pageSize - 4 * rs.length
  stackWords : ∀ i p, ps[i]? = some p →
    load32 k.ram (k₀.mm.pageIdToVa qs + 4092 - 4 * i) = k₀.mm.pageDes p
  elfWords : ∀ i p, rs[i]? = some p →
    load32 k.ram (k₀.mm.pageIdToVa qe + 4 * i) = k₀.mm.pageDes p
  frame : ∀ x, (x < k₀.mm.pageIdToVa qs + pageSize - 4 * ps.length ∨
      k₀.mm.pageIdToVa qs + pageSize ≤ x) →
    (x < k₀.mm.pageIdToVa qe ∨ k₀.mm.pageIdToVa qe + 4 * rs.length ≤ x) → k.ram x = k₀.ram x

/-- A loop that runs to its end makes the steps of its body. -/
theorem whileOk_steps (body : Kernel → Option (Bool × Kernel)) (I : Nat → Kernel → Prop)
    (hstep : ∀ i k k', I i k → body k = some (true, k') → I (i + 1) k') :
    ∀ (n i : Nat) (k k' : Kernel), I i k → whileOk body n k = some (true, k') → I (i + n) k' := by
  intro n
  induction n with
  | zero =>
      intro i k k' hI h
      rw [whileOk, Option.some.injEq, Prod.mk.injEq] at h
      rw [← h.2]
      exact hI
  | succ n ih =>
      intro i k k' hI h
      simp only [whileOk, Option.pure_def, Option.bind_eq_bind, Option.bind_eq_some_iff,
        Prod.exists] at h
      rcases h with ⟨ok, k₁, hbody, h⟩
      cases ok with
      | false =>
          rw [if_neg (by decide), Option.some.injEq, Prod.mk.injEq] at h
          exact absurd h.1 (by decide)
      | true =>
          rw [if_pos rfl] at h
          -- The rest of the loop runs with the invariant one step further.
          have hnext := ih (i + 1) k₁ k' (hstep i k k₁ hI hbody) h
          rwa [Nat.add_assoc, Nat.add_comm 1 n] at hnext

theorem whileOk_one (body : Kernel → Option (Bool × Kernel)) (k k' : Kernel)
    (h : whileOk body 1 k = some (true, k')) : body k = some (true, k') := by
  simp only [whileOk, Option.pure_def, Option.bind_eq_bind, Option.bind_eq_some_iff,
    Prod.exists] at h
  rcases h with ⟨ok, k₁, hbody, h⟩
  cases ok with
  | false =>
      rw [if_neg (by decide), Option.some.injEq, Prod.mk.injEq] at h
      exact absurd h.1 (by decide)
  | true =>
      rw [if_pos rfl, Option.some.injEq, Prod.mk.injEq] at h
      rw [hbody, h.2]

/-- One word of a table. -/
theorem buildPageTableEntry_page (ram : Ram) (base pa : Nat) (hpa : pa < u32Size) :
    (buildPageTableEntry ram base pa pageSize 0).1
      = store32 ram base (archBuildPageTableDes pa pgtDesDefault) := by
  have hok : (isAligin pageSize pageSize && decide (pageSize ≤ size1M)) = true := by decide
  have hone : pageSize / pageSize = 1 := by decide
  have hadd : add32 pa (0 * pageSize) = pa := by
    unfold add32
    rw [Nat.zero_mul, Nat.add_zero]
    exact Nat.mod_eq_of_lt hpa
  unfold buildPageTableEntry
  rw [if_pos hok, hone]
  simp only [List.range_one, List.foldl_cons, List.foldl_nil, Nat.mul_zero, Nat.add_zero, hadd]
  rfl

/-- `task_map_memory` with the table it enters the page into. -/
theorem taskMapMemory_open (k : Kernel) (addr t q : Nat) (elf : Bool)
    (hq : k.openTable (if elf then (k.task t).mm.elfList else (k.task t).mm.stackList)
      (if elf then (k.task t).mm.elfCurr else (k.task t).mm.stackCurr) = some q) :
    k.taskMapMemory addr t elf = some
      { k.setMm (k.mm.setPage q { k.mm.pageTable q with
          freeBase := if elf then add32 (k.mm.pageTable q).freeBase 4
            else sub32 (k.mm.pageTable q).freeBase 4
          freeSize := sub16 (k.mm.pageTable q).freeSize 4 }) with
        ram := (buildPageTableEntry k.ram (k.mm.pageTable q).freeBase (k.mm.vaToPa addr)
          pageSize 0).1 } := by
  unfold taskMapMemory
  cases elf with
  | false =>
      simp only [Bool.false_eq_true, if_false] at hq ⊢
      rw [hq]
      rfl
  | true =>
      simp only [if_true] at hq ⊢
      rw [hq]
      rfl

/-- The memory structure with one more page. -/
def enterPage (ms : MmStruct) (elf : Bool) (p : Nat) : MmStruct :=
  if elf then { ms with elfImageList := ms.elfImageList ++ [p] }
  else { ms with elfStackList := ms.elfStackList ++ [p] }

/-- The table of a task and its entry while one page is added. -/
theorem addPage_cases (k k' : Kernel) (t q : Nat) (elf : Bool) (hplain : Mm.PlainMap k.mm)
    (hlist : (if elf then (k.task t).mm.elfList else (k.task t).mm.stackList) = [q])
    (hcurr : (if elf then (k.task t).mm.elfCurr else (k.task t).mm.stackCurr) = some q)
    (hused : used k.mm.pageMap q = true) (hroom : (k.mm.pageTable q).freeSize ≠ 0)
    (h : addPage t elf k = some (true, k')) :
    ∃ p mm₁ page, Mm.GotPage k.mm mm₁ p ∧ k'.mm = mm₁.setPage q page ∧
      page.phyAddress = (k.mm.pageTable q).phyAddress ∧
      page.freeBase = (if elf then add32 (k.mm.pageTable q).freeBase 4
        else sub32 (k.mm.pageTable q).freeBase 4) ∧
      page.freeSize = sub16 (k.mm.pageTable q).freeSize 4 ∧
      k'.task = Function.update k.task t
        { k.task t with mm := enterPage (k.task t).mm elf p } ∧
      k'.ram = store32 k.ram (k.mm.pageTable q).freeBase (k.mm.pageDes p) ∧
      k'.tlb = k.tlb ∧ k'.pidMap = k.pidMap ∧ k'.current = k.current ∧ k'.idle = k.idle := by
  unfold addPage at h
  simp only [Option.pure_def, Option.bind_eq_bind, Option.bind_eq_some_iff, Prod.exists] at h
  rcases h with ⟨addr, mm₁, hget, h⟩
  by_cases hzero : addr = 0
  · rw [if_pos hzero, Option.some.injEq, Prod.mk.injEq] at h
    exact absurd h.1 (by decide)
  rw [if_neg hzero, Option.bind_eq_some_iff] at h
  rcases h with ⟨k₁, hmap, h⟩
  rcases Mm.getFreePages_got k.mm mm₁ _ addr hplain.words hget with hnone | ⟨p, haddr, hgot⟩
  · exact absurd hnone.1 hzero
  have hpq := (ne_of_used _ q p hused hgot.clear).symm
  have hid : mm₁.vaToPageId addr = p := by
    rw [haddr, Mm.vaToPageId_same k.mm mm₁ hgot.bank]
    exact Mm.vaToPageId_page k.mm hplain p hgot.bound
  have hentry : mm₁.pageTable q = k.mm.pageTable q := hgot.others q (Ne.symm hpq)
  -- The search for a table with room stops at the only one.
  have hopen : (k.setMm mm₁).openTable [q] (some q) = some q := by
    unfold openTable
    have hfind : (mm₁.pageTable q).freeSize ≠ 0 := by
      rw [hentry]
      exact hroom
    simp only [List.dropWhile_cons, ne_eq, not_true_eq_false, decide_false, Bool.false_eq_true,
      if_false]
    rw [List.find?_cons_of_pos]
    exact decide_eq_true hfind
  have hlist' : (if elf then ((k.setMm mm₁).task t).mm.elfList
      else ((k.setMm mm₁).task t).mm.stackList) = [q] := hlist
  have hcurr' : (if elf then ((k.setMm mm₁).task t).mm.elfCurr
      else ((k.setMm mm₁).task t).mm.stackCurr) = some q := hcurr
  have hpa : mm₁.vaToPa addr = k.mm.pagePa p := by
    unfold Mm.vaToPa
    rw [hid, hgot.address]
  have hmm : (k.setMm mm₁).mm = mm₁ := rfl
  rw [taskMapMemory_open (k.setMm mm₁) addr t q elf (by rw [hlist', hcurr']; exact hopen), hmm,
    hpa, hentry, buildPageTableEntry_page _ _ _ (k.mm.pagePa_lt p), Option.some.injEq] at hmap
  refine ⟨p, mm₁, { k.mm.pageTable q with
    freeBase := if elf then add32 (k.mm.pageTable q).freeBase 4
      else sub32 (k.mm.pageTable q).freeBase 4
    freeSize := sub16 (k.mm.pageTable q).freeSize 4 }, hgot, ?_⟩
  rw [Option.some.injEq, Prod.mk.injEq] at h
  rw [← h.2, ← hmap]
  subst hid
  exact ⟨rfl, rfl, rfl, rfl, rfl, rfl, rfl, rfl, rfl, rfl⟩

section Filling

variable (k₀ k : Kernel) (t qs qe : Nat) (ps rs : List Nat) (h : Filling k₀ k t qs qe ps rs)
include h

/-- A new page is none of the pages so far, and becomes one of them. -/
theorem filling_pages (p q : Nat) (mm₁ : Mm) (page : Page) (L : List Nat)
    (hgot : Mm.GotPage k.mm mm₁ p) (hq : q ∈ qs :: qe :: (ps ++ rs))
    (hpage : page.phyAddress = (k.mm.pageTable q).phyAddress)
    (hperm : L.Perm (p :: qs :: qe :: (ps ++ rs))) :
    L.Nodup ∧
      (∀ r ∈ L, used k₀.mm.pageMap r = false ∧ used (mm₁.setPage q page).pageMap r = true ∧
        r < 32 * k₀.mm.mapWords ∧
        ((mm₁.setPage q page).pageTable r).phyAddress = k₀.mm.pagePa r) ∧
      ∀ r, used k₀.mm.pageMap r = true → used (mm₁.setPage q page).pageMap r = true := by
  have hnew : ∀ r ∈ qs :: qe :: (ps ++ rs), r ≠ p :=
    fun r hr => ne_of_used _ r p (h.pages r hr).2.1 hgot.clear
  have hkeep : ∀ r, used k.mm.pageMap r = true → used mm₁.pageMap r = true := by
    intro r hr
    rw [hgot.bits r, hr]
    exact ite_self _
  refine ⟨hperm.nodup_iff.2 (List.nodup_cons.2 ⟨fun hc => hnew p hc rfl, h.nodup⟩),
    fun r hr => ?_, fun r hr => hkeep r (h.keeps r hr)⟩
  rcases List.mem_cons.1 (hperm.mem_iff.1 hr) with hrp | hrL
  · -- The new page itself: it was free before and its entry is fresh.
    subst hrp
    have hclear := clear_before _ _ r (h.keeps r) hgot.clear
    refine ⟨hclear, ?_, ?_, ?_⟩
    · exact (hgot.bits r).trans (if_pos rfl)
    · have hbound := hgot.bound
      rw [h.bank.words] at hbound
      exact hbound
    · have hne : r ≠ q := fun hc => hnew q hq hc.symm
      have hsame : (mm₁.setPage q page).pageTable r = mm₁.pageTable r :=
        Function.update_of_ne hne _ _
      rw [hsame, hgot.address]
      exact Mm.pagePa_same k₀.mm k.mm h.bank r
  · rcases h.pages r hrL with ⟨hclear, hused, hbound, haddr⟩
    refine ⟨hclear, hkeep r hused, hbound, ?_⟩
    by_cases hrq : r = q
    · subst hrq
      have hsame : (mm₁.setPage r page).pageTable r = page := Function.update_self _ _ _
      rw [hsame, hpage, haddr]
    · have hsame : (mm₁.setPage q page).pageTable r = mm₁.pageTable r :=
        Function.update_of_ne hrq _ _
      rw [hsame, hgot.others r (hnew r hrL), haddr]

/-- The table of the stack and the table of the image are apart. -/
theorem filling_tables (hplain : Mm.PlainMap k₀.mm) :
    k₀.mm.pageIdToVa qs + pageSize ≤ k₀.mm.pageIdToVa qe ∨
      k₀.mm.pageIdToVa qe + pageSize ≤ k₀.mm.pageIdToVa qs := by
  have hne : qs ≠ qe := fun hc => (List.nodup_cons.1 h.nodup).1 (by rw [hc]; exact List.mem_cons_self)
  exact Mm.pageIdToVa_apart k₀.mm hplain qs qe (h.pages qs (by simp)).2.2.1
    (h.pages qe (by simp)).2.2.1 hne

theorem filling_mm : (k.task t).mm = filledMm (k₀.task t).mm qs qe ps rs := by
  rw [h.task, Function.update_self]

/-- One turn of the loop over the stack. -/
theorem addPage_stack (k' : Kernel) (hplain : Mm.PlainMap k₀.mm) (hlen : ps.length < 1023)
    (hrs : rs.length < 1023) (hrun : addPage t false k = some (true, k')) :
    ∃ p, Filling k₀ k' t qs qe (ps ++ [p]) rs := by
  have hmm := filling_mm k₀ k t qs qe ps rs h
  have hqs := h.pages qs (by simp)
  have htop := Mm.pageIdToVa_top k₀.mm hplain qs
  have hap := filling_tables k₀ k t qs qe ps rs h hplain
  have hsize : pageSize = 4096 := rfl
  have hword : u32Size = 4294967296 := rfl
  -- The stack table has room, so the page goes into its next word down.
  rcases addPage_cases k k' t qs false (Mm.plainMap_same _ _ h.bank hplain)
    (by rw [hmm]; rfl) (by rw [hmm]; rfl) hqs.2.1 (by rw [h.stackTable.2, hsize]; omega) hrun with
    ⟨p, mm₁, page, hgot, hmm', haddr, hbase, hfree, htask, hram, htlb, hpids⟩
  -- The new page may stand anywhere in the list of the pages.
  have hperm : (qs :: qe :: ((ps ++ [p]) ++ rs)).Perm (p :: qs :: qe :: (ps ++ rs)) := by
    have hmid : (qs :: qe :: ((ps ++ [p]) ++ rs)) = (qs :: qe :: ps) ++ p :: rs := by simp
    rw [hmid]
    exact List.perm_middle
  rcases filling_pages k₀ k t qs qe ps rs h p qs mm₁ page _ hgot (by simp) haddr hperm with
    ⟨hnodup, hpages, hkeeps⟩
  rw [← hmm'] at hpages hkeeps
  have hlt := k₀.mm.pageDes_lt p
  rw [h.stackTable.1, Mm.pageDes_same k₀.mm k.mm h.bank p] at hram
  have hlen' : (ps ++ [p]).length = ps.length + 1 := by simp
  refine ⟨p, ?_, ?_, htlb.trans h.tlb, ?_, hnodup, hpages, hkeeps, ?_, ?_, fun i r hr => ?_,
    fun i r hr => ?_, fun x hx hx' => ?_⟩
  · rw [hmm']
    exact (h.bank.trans hgot.bank).trans (Mm.setPage_same mm₁ qs page)
  · rw [htask, hmm, h.task, Function.update_idem, Function.update_self]
    rfl
  · exact ⟨hpids.1.trans h.pids.1, hpids.2.1.trans h.pids.2.1, hpids.2.2.trans h.pids.2.2⟩
  · have hself : k'.mm.pageTable qs = page := by
      rw [hmm']
      exact Function.update_self _ _ _
    rw [hself, hbase, hfree, h.stackTable.1, h.stackTable.2, hlen']
    simp only [Bool.false_eq_true, if_false]
    unfold sub32 sub16
    rw [hword, hsize]
    omega
  · have hne : qe ≠ qs := fun hc => (List.nodup_cons.1 h.nodup).1 (by rw [← hc]; simp)
    have hqe : k'.mm.pageTable qe = k.mm.pageTable qe := by
      rw [hmm']
      exact (Function.update_of_ne hne _ _).trans (hgot.others qe
        (ne_of_used _ qe p (h.pages qe (by simp)).2.1 hgot.clear))
    rw [hqe]
    exact h.elfTable
  · rw [hram]
    -- The new word is below the words of the stack so far.
    exact load32_concat k.ram (fun i => k₀.mm.pageIdToVa qs + 4092 - 4 * i) k₀.mm.pageDes ps p
      h.stackWords hlt (fun j hj => by dsimp only [ApartFrom]; omega) i r hr
  · have hi := (List.getElem?_eq_some_iff.1 hr).1
    rw [hram, load32_store32_apart _ _ _ _ (by unfold ApartFrom; omega)]
    exact h.elfWords i r hr
  · rw [hram, store32_apart _ _ _ _ (by omega)]
    exact h.frame x (by omega) hx'

/-- One turn of the loop over the image. -/
theorem addPage_elf (k' : Kernel) (hplain : Mm.PlainMap k₀.mm) (hlen : ps.length < 1023)
    (hrs : rs.length < 1023) (hrun : addPage t true k = some (true, k')) :
    ∃ p, Filling k₀ k' t qs qe ps (rs ++ [p]) := by
  have hmm := filling_mm k₀ k t qs qe ps rs h
  have hqe := h.pages qe (by simp)
  have htop := Mm.pageIdToVa_top k₀.mm hplain qe
  have hap := filling_tables k₀ k t qs qe ps rs h hplain
  have hsize : pageSize = 4096 := rfl
  have hword : u32Size = 4294967296 := rfl
  -- The image table has room, so the page goes into its next word up.
  rcases addPage_cases k k' t qe true (Mm.plainMap_same _ _ h.bank hplain)
    (by rw [hmm]; rfl) (by rw [hmm]; rfl) hqe.2.1 (by rw [h.elfTable.2, hsize]; omega) hrun with
    ⟨p, mm₁, page, hgot, hmm', haddr, hbase, hfree, htask, hram, htlb, hpids⟩
  have hperm : (qs :: qe :: (ps ++ (rs ++ [p]))).Perm (p :: qs :: qe :: (ps ++ rs)) := by
    have hmid : (qs :: qe :: (ps ++ (rs ++ [p]))) = (qs :: qe :: (ps ++ rs)) ++ [p] := by simp
    rw [hmid]
    exact List.perm_append_singleton _ _
  rcases filling_pages k₀ k t qs qe ps rs h p qe mm₁ page _ hgot (by simp) haddr hperm with
    ⟨hnodup, hpages, hkeeps⟩
  rw [← hmm'] at hpages hkeeps
  have hlt := k₀.mm.pageDes_lt p
  rw [h.elfTable.1, Mm.pageDes_same k₀.mm k.mm h.bank p] at hram
  have hlen' : (rs ++ [p]).length = rs.length + 1 := by simp
  refine ⟨p, ?_, ?_, htlb.trans h.tlb, ?_, hnodup, hpages, hkeeps, ?_, ?_, fun i r hr => ?_,
    fun i r hr => ?_, fun x hx hx' => ?_⟩
  · rw [hmm']
    exact (h.bank.trans hgot.bank).trans (Mm.setPage_same mm₁ qe page)
  · rw [htask, hmm, h.task, Function.update_idem, Function.update_self]
    rfl
  · exact ⟨hpids.1.trans h.pids.1, hpids.2.1.trans h.pids.2.1, hpids.2.2.trans h.pids.2.2⟩
  · have hne : qs ≠ qe := fun hc => (List.nodup_cons.1 h.nodup).1 (by rw [hc]; simp)
    have hqs : k'.mm.pageTable qs = k.mm.pageTable qs := by
      rw [hmm']
      exact (Function.update_of_ne hne _ _).trans (hgot.others qs
        (ne_of_used _ qs p (h.pages qs (by simp)).2.1 hgot.clear))
    rw [hqs]
    exact h.stackTable
  · have hself : k'.mm.pageTable qe = page := by
      rw [hmm']
      exact Function.update_self _ _ _
    rw [hself, hbase, hfree, h.elfTable.1, h.elfTable.2, hlen']
    simp only [if_true]
    unfold add32 sub16
    rw [hword, hsize]
    omega
  · have hi := (List.getElem?_eq_some_iff.1 hr).1
    rw [hram, load32_store32_apart _ _ _ _ (by unfold ApartFrom; omega)]
    exact h.stackWords i r hr
  · rw [hram]
    -- The new word is above the words of the image so far.
    exact load32_concat k.ram (fun i => k₀.mm.pageIdToVa qe + 4 * i) k₀.mm.pageDes rs p
      h.elfWords hlt (fun j hj => by dsimp only [ApartFrom]; omega) i r hr
  · rw [hram, store32_apart _ _ _ _ (by omega)]
    exact h.frame x hx (by omega)

end Filling

/-- What the allocation of one page leaves alone. -/
structure SameRest (k k' : Kernel) : Prop where
  ram : k'.ram = k.ram
  tlb : k'.tlb = k.tlb
  pids : k'.pidMap = k.pidMap ∧ k'.current = k.current ∧ k'.idle = k.idle

theorem addStackTable_cases (k k' : Kernel) (t : Nat) (hplain : Mm.PlainMap k.mm)
    (h : k.addStackTable t = some (true, k')) :
    ∃ q mm₁ page, k.mm.getFreePage gfpPgt = some (k.mm.pageIdToVa q, mm₁) ∧
      Mm.GotPage k.mm mm₁ q ∧ k'.mm = mm₁.setPage q page ∧ page.phyAddress = k.mm.pagePa q ∧
      page.freeBase = add32 (k.mm.pageIdToVa q) (pageSize - 4) ∧ page.freeSize = pageSize ∧
      k'.task = Function.update k.task t { k.task t with mm :=
        { (k.task t).mm with stackList := (k.task t).mm.stackList ++ [q] } } ∧ SameRest k k' := by
  unfold addStackTable at h
  simp only [Option.pure_def, Option.bind_eq_bind, Option.bind_eq_some_iff, Prod.exists] at h
  rcases h with ⟨addr, mm₁, hget, h⟩
  by_cases hzero : addr = 0
  · rw [if_pos hzero, Option.some.injEq, Prod.mk.injEq] at h
    exact absurd h.1 (by decide)
  rw [if_neg hzero, Option.some.injEq, Prod.mk.injEq] at h
  rcases Mm.getFreePages_got k.mm mm₁ _ addr hplain.words hget with hnone | ⟨q, haddr, hgot⟩
  · exact absurd hnone.1 hzero
  have hid : mm₁.vaToPageId addr = q := by
    rw [haddr, Mm.vaToPageId_same k.mm mm₁ hgot.bank]
    exact Mm.vaToPageId_page k.mm hplain q hgot.bound
  rw [← h.2, hid]
  refine ⟨q, mm₁, { mm₁.pageTable q with
    freeBase := add32 (mm₁.pageTable q).freeBase (pageSize - 4) }, haddr ▸ hget, hgot, rfl,
    hgot.address, ?_, hgot.freeSize, rfl, ⟨rfl, rfl, rfl, rfl, rfl⟩⟩
  rw [← hgot.freeBase]

theorem addElfTable_cases (k k' : Kernel) (t : Nat) (hplain : Mm.PlainMap k.mm)
    (h : k.addElfTable t = some (true, k')) :
    ∃ q mm₁, k.mm.getFreePage gfpPgt = some (k.mm.pageIdToVa q, mm₁) ∧
      Mm.GotPage k.mm mm₁ q ∧ k'.mm = mm₁ ∧
      k'.task = Function.update k.task t { k.task t with mm :=
        { (k.task t).mm with elfList := (k.task t).mm.elfList ++ [q] } } ∧ SameRest k k' := by
  unfold addElfTable at h
  simp only [Option.pure_def, Option.bind_eq_bind, Option.bind_eq_some_iff, Prod.exists] at h
  rcases h with ⟨addr, mm₁, hget, h⟩
  by_cases hzero : addr = 0
  · rw [if_pos hzero, Option.some.injEq, Prod.mk.injEq] at h
    exact absurd h.1 (by decide)
  rw [if_neg hzero, Option.some.injEq, Prod.mk.injEq] at h
  rcases Mm.getFreePages_got k.mm mm₁ _ addr hplain.words hget with hnone | ⟨q, haddr, hgot⟩
  · exact absurd hnone.1 hzero
  have hid : mm₁.vaToPageId addr = q := by
    rw [haddr, Mm.vaToPageId_same k.mm mm₁ hgot.bank]
    exact Mm.vaToPageId_page k.mm hplain q hgot.bound
  rw [← h.2, hid]
  exact ⟨q, mm₁, haddr ▸ hget, hgot, rfl, rfl, ⟨rfl, rfl, rfl, rfl, rfl⟩⟩

/-- `alloc_page_table` succeeds when both of its loops run to their end. -/
theorem allocPageTable_ok (k k' : Kernel) (t : Nat) (h : k.allocPageTable t = some (0, k')) :
    ∃ k₁ k₂, whileOk (fun k => k.addStackTable t) 1 k = some (true, k₁) ∧
      whileOk (fun k => k.addElfTable t) 1 (k₁.setTaskMm t { (k₁.task t).mm with
        stackCurr := (k₁.task t).mm.stackList.head? }) = some (true, k₂) ∧
      k' = k₂.setTaskMm t { (k₂.task t).mm with elfCurr := (k₂.task t).mm.elfList.head? } := by
  -- One megabyte of stack and of image each need a single page of tables.
  have hone : (processStackSize + size1M - 1) / size1M = 1 := by decide
  have hone' : (processImageSize + size1M - 1) / size1M = 1 := by decide
  unfold allocPageTable at h
  rw [hone, hone'] at h
  simp only [Option.pure_def, Option.bind_eq_bind, Option.bind_eq_some_iff, Prod.exists] at h
  rcases h with ⟨ok, k₁, hstack, h⟩
  cases ok with
  | false =>
      -- A loop that stops early ends in the clean-up, which returns an error.
      rw [if_pos (by decide), Option.bind_eq_some_iff] at h
      rcases h with ⟨k₂, _, h⟩
      rw [Option.some.injEq, Prod.mk.injEq] at h
      exact absurd h.1 (by decide)
  | true =>
  rw [if_neg (by decide), Option.bind_eq_some_iff] at h
  rcases h with ⟨⟨ok, k₂⟩, helf, h⟩
  cases ok with
  | false =>
      rw [if_pos (show (!false) = true by decide), Option.bind_eq_some_iff] at h
      rcases h with ⟨k₃, _, h⟩
      rw [Option.some.injEq, Prod.mk.injEq] at h
      exact absurd h.1 (by decide)
  | true =>
      rw [if_neg (show ¬(!true) = true by decide), Option.some.injEq, Prod.mk.injEq] at h
      exact ⟨k₁, k₂, hstack, helf, h.2.symm⟩

/-- `alloc_memory_and_map` succeeds when both of its loops run to their end. -/
theorem allocMemoryAndMap_ok (k k' : Kernel) (t : Nat) (h : k.allocMemoryAndMap t = some (0, k')) :
    ∃ k₁, whileOk (addPage t false) 4 k = some (true, k₁) ∧
      whileOk (addPage t true) 256 k₁ = some (true, k') := by
  -- Four pages of stack, 256 of image.
  have hs : pageNr processStackSize = 4 := by decide
  have he : pageNr processImageSize = 256 := by decide
  unfold allocMemoryAndMap at h
  rw [hs, he] at h
  by_cases hlow : k.mmFreePageNormal < 4 + 256
  · rw [if_pos hlow] at h
    simp only [Option.pure_def, Option.some.injEq, Prod.mk.injEq] at h
    exact absurd h.1 (by decide)
  rw [if_neg hlow] at h
  simp only [Option.pure_def, Option.bind_eq_bind, Option.bind_eq_some_iff, Prod.exists] at h
  rcases h with ⟨ok, k₁, hstack, h⟩
  cases ok with
  | false =>
      rw [if_pos (by decide), Option.bind_eq_some_iff] at h
      rcases h with ⟨k₂, _, h⟩
      rw [Option.some.injEq, Prod.mk.injEq] at h
      exact absurd h.1 (by decide)
  | true =>
  rw [if_neg (by decide), Option.bind_eq_some_iff] at h
  rcases h with ⟨⟨ok, k₂⟩, helf, h⟩
  cases ok with
  | false =>
      rw [if_pos (show (!false) = true by decide), Option.bind_eq_some_iff] at h
      rcases h with ⟨k₃, _, h⟩
      rw [Option.some.injEq, Prod.mk.injEq] at h
      exact absurd h.1 (by decide)
  | true =>
      rw [if_neg (show ¬(!true) = true by decide), Option.some.injEq, Prod.mk.injEq] at h
      exact ⟨k₁, hstack, h.2 ▸ helf⟩

/-- `alloc_memory_for_task` succeeds for a user task when its three parts do. -/
theorem allocMemoryForTask_ok (k k' : Kernel) (t : Nat)
    (h : k.allocMemoryForTask t = some (0, k')) :
    ∃ k₁, k.allocKernelStack t = some (0, k₁) ∧
      if (k₁.task t).flag &&& processTypeUser ≠ 0 then
        ∃ k₂, k₁.allocPageTable t = some (0, k₂) ∧ k₂.allocMemoryAndMap t = some (0, k')
      else k' = k₁ := by
  unfold allocMemoryForTask at h
  simp only [Option.pure_def, Option.bind_eq_bind, Option.bind_eq_some_iff, Prod.exists] at h
  rcases h with ⟨ret, k₁, hstack, h⟩
  -- A part that fails makes the whole fail, with or without a clean-up.
  by_cases hret : ret ≠ 0
  · rw [if_pos hret, Option.some.injEq, Prod.mk.injEq] at h
    exact absurd h.1 hret
  rw [if_neg hret] at h
  rw [ne_eq, not_not] at hret
  subst hret
  refine ⟨k₁, hstack, ?_⟩
  by_cases huser : (k₁.task t).flag &&& processTypeUser ≠ 0
  swap
  · rw [if_neg huser, Option.some.injEq, Prod.mk.injEq] at h
    rw [if_neg huser]
    exact h.2.symm
  rw [if_pos huser, Option.bind_eq_some_iff] at h
  rw [if_pos huser]
  rcases h with ⟨⟨ret, k₂⟩, htable, h⟩
  by_cases hret : ret ≠ 0
  · rw [if_pos hret, Option.bind_eq_some_iff] at h
    rcases h with ⟨k₃, _, h⟩
    rw [Option.some.injEq, Prod.mk.injEq] at h
    exact absurd h.1 (by decide)
  rw [if_neg hret, Option.bind_eq_some_iff] at h
  rw [ne_eq, not_not] at hret
  subst hret
  rcases h with ⟨⟨ret, k₃⟩, hmap, h⟩
  by_cases hret : ret ≠ 0
  · rw [if_pos hret, Option.bind_eq_some_iff] at h
    rcases h with ⟨k₄, _, h⟩
    rw [Option.some.injEq, Prod.mk.injEq] at h
    exact absurd h.1 (by decide)
  rw [if_neg hret, Option.some.injEq, Prod.mk.injEq] at h
  rw [ne_eq, not_not] at hret
  subst hret
  exact ⟨k₂, htable, h.2 ▸ hmap⟩

/-- The lists `init_mm_struct` leaves in a task. -/
def EmptyMm (ms : MmStruct) : Prop :=
  ms.stackList = [] ∧ ms.elfList = [] ∧ ms.elfStackList = [] ∧ ms.elfImageList = []

/-- Two tables without a page in them. -/
theorem allocPageTable_filling (k₀ k : Kernel) (t : Nat) (hplain : Mm.PlainMap k₀.mm)
    (hempty : EmptyMm (k₀.task t).mm) (h : k₀.allocPageTable t = some (0, k)) :
    ∃ qs qe mm₁ mm₂ page, Filling k₀ k t qs qe [] [] ∧
      k₀.mm.getFreePage gfpPgt = some (k₀.mm.pageIdToVa qs, mm₁) ∧
      (mm₁.setPage qs page).getFreePage gfpPgt = some (k₀.mm.pageIdToVa qe, mm₂) := by
  rcases allocPageTable_ok k₀ k t h with ⟨k₁, k₂, hstack, helf, hk⟩
  rcases addStackTable_cases k₀ k₁ t hplain (whileOk_one _ _ _ hstack) with
    ⟨qs, mm₁, page, hget, hgot, hmm₁, hpaddr, hpbase, hpsize, htask₁, hrest₁⟩
  have hbank₁ : Mm.SameBank k₀.mm k₁.mm := by
    rw [hmm₁]
    exact hgot.bank.trans (Mm.setPage_same mm₁ qs page)
  have helf' := whileOk_one _ _ _ helf
  rcases addElfTable_cases _ k₂ t (by exact Mm.plainMap_same k₀.mm k₁.mm hbank₁ hplain)
    helf' with ⟨qe, mm₂, hget₂, hgot₂, hmm₂, htask₂, hrest₂⟩
  have hgot₂' : Mm.GotPage k₁.mm mm₂ qe := hgot₂
  have hget₂' : k₁.mm.getFreePage gfpPgt = some (k₁.mm.pageIdToVa qe, mm₂) := hget₂
  have hkmm : k.mm = mm₂ := by
    rw [hk]
    exact hmm₂
  -- The pages of the two tables.
  have hbits₁ : ∀ r, used k₁.mm.pageMap r = if r = qs then true else used k₀.mm.pageMap r := by
    rw [hmm₁]
    exact hgot.bits
  have hne : qe ≠ qs := by
    intro hc
    have hclear := hgot₂'.clear
    rw [hc, hbits₁, if_pos rfl] at hclear
    exact absurd hclear (by decide)
  have hclear : used k₀.mm.pageMap qe = false := by
    rw [← hgot₂'.clear, hbits₁, if_neg hne]
  have hqs : k.mm.pageTable qs = page := by
    rw [hkmm, hgot₂'.others qs (Ne.symm hne), hmm₁]
    exact Function.update_self _ _ _
  have hused : ∀ r, r = qs ∨ r = qe ∨ used k₀.mm.pageMap r = true →
      used k.mm.pageMap r = true := by
    intro r hr
    rw [hkmm, hgot₂'.bits, hbits₁]
    by_cases hre : r = qe
    · exact if_pos hre
    · by_cases hrs : r = qs
      · rw [if_neg hre, if_pos hrs]
      · rw [if_neg hre, if_neg hrs]
        rcases hr with hr | hr | hr
        · exact absurd hr hrs
        · exact absurd hr hre
        · exact hr
  refine ⟨qs, qe, mm₁, mm₂, page, ⟨?_, ?_, ?_, ?_, ?_, fun q hq => ?_,
    fun q hq => hused q (Or.inr (Or.inr hq)), ?_, ?_, ?_, ?_, fun x _ _ => ?_⟩, hget, ?_⟩
  · rw [hkmm]
    exact hbank₁.trans hgot₂'.bank
  · have htask : k.task = Function.update k₂.task t { k₂.task t with mm :=
        { (k₂.task t).mm with elfCurr := (k₂.task t).mm.elfList.head? } } := by
      rw [hk]
      rfl
    rw [htask, htask₂]
    simp only [setTaskMm, setTask, htask₁, Function.update_self, Function.update_idem]
    unfold filledMm
    rw [hempty.1, hempty.2.1, hempty.2.2.1, hempty.2.2.2]
    rfl
  · rw [hk]
    exact hrest₂.tlb.trans hrest₁.tlb
  · rw [hk]
    exact ⟨hrest₂.pids.1.trans hrest₁.pids.1, hrest₂.pids.2.1.trans hrest₁.pids.2.1,
      hrest₂.pids.2.2.trans hrest₁.pids.2.2⟩
  · simpa using Ne.symm hne
  · simp only [List.append_nil, List.mem_cons, List.not_mem_nil, or_false] at hq
    rcases hq with hq | hq
    · rw [hq]
      exact ⟨hgot.clear, hused qs (Or.inl rfl), hgot.bound, by rw [hqs, hpaddr]⟩
    · rw [hq]
      refine ⟨hclear, hused qe (Or.inr (Or.inl rfl)), hbank₁.words ▸ hgot₂'.bound, ?_⟩
      rw [hkmm, hgot₂'.address, Mm.pagePa_same k₀.mm k₁.mm hbank₁]
  · have htop := Mm.pageIdToVa_top k₀.mm hplain qs
    rw [hqs, hpbase, hpsize]
    simp only [List.length_nil, Nat.mul_zero, Nat.sub_zero, and_true]
    unfold add32 pageSize u32Size at *
    omega
  · rw [hkmm, hgot₂'.freeBase, hgot₂'.freeSize, Mm.pageIdToVa_same k₀.mm k₁.mm hbank₁]
    exact ⟨rfl, rfl⟩
  · intro i p hp
    exact absurd hp (by simp)
  · intro i p hp
    exact absurd hp (by simp)
  · rw [hk]
    exact congrFun (hrest₂.ram.trans hrest₁.ram) x
  · rw [← hmm₁, hget₂', Mm.pageIdToVa_same k₀.mm k₁.mm hbank₁]

/-- Four pages of stack and 256 pages of image. -/
theorem allocMemoryAndMap_filling (k₀ k₁ k : Kernel) (t qs qe : Nat) (hplain : Mm.PlainMap k₀.mm)
    (hfill : Filling k₀ k₁ t qs qe [] []) (h : k₁.allocMemoryAndMap t = some (0, k)) :
    ∃ ps rs, Filling k₀ k t qs qe ps rs ∧ ps.length = 4 ∧ rs.length = 256 := by
  rcases allocMemoryAndMap_ok k₁ k t h with ⟨k₂, hstack, helf⟩
  -- Both loops keep the description of the tables, one page longer each turn.
  have hfirst : 0 + 4 ≤ 4 → ∃ ps, Filling k₀ k₂ t qs qe ps [] ∧ ps.length = 0 + 4 := by
    refine whileOk_steps (addPage t false)
      (fun i k => i ≤ 4 → ∃ ps, Filling k₀ k t qs qe ps [] ∧ ps.length = i)
      (fun i k k' hI hbody hi => ?_) 4 0 k₁ k₂ (fun _ => ⟨[], hfill, rfl⟩) hstack
    rcases hI (by omega) with ⟨ps, hps, hlen⟩
    rcases addPage_stack k₀ k t qs qe ps [] hps k' hplain (by omega) (by simp) hbody with
      ⟨p, hp⟩
    exact ⟨ps ++ [p], hp, by simp [hlen]⟩
  rcases hfirst (by omega) with ⟨ps, hps, hlen⟩
  have hsecond : 0 + 256 ≤ 256 → ∃ rs, Filling k₀ k t qs qe ps rs ∧ rs.length = 0 + 256 := by
    refine whileOk_steps (addPage t true)
      (fun i k => i ≤ 256 → ∃ rs, Filling k₀ k t qs qe ps rs ∧ rs.length = i)
      (fun i k k' hI hbody hi => ?_) 256 0 k₂ k (fun _ => ⟨[], hps, rfl⟩) helf
    rcases hI (by omega) with ⟨rs, hrs, hlen'⟩
    rcases addPage_elf k₀ k t qs qe ps rs hrs k' hplain (by omega) (by omega) hbody with
      ⟨p, hp⟩
    exact ⟨rs ++ [p], hp, by simp [hlen']⟩
  rcases hsecond (by omega) with ⟨rs, hrs, hlen'⟩
  exact ⟨ps, rs, hrs, hlen, hlen'⟩

theorem allocKernelStack_cases (k k' : Kernel) (t : Nat) (hplain : Mm.PlainMap k.mm)
    (h : k.allocKernelStack t = some (0, k')) :
    ∃ q mm₁, k.mm.getFreePages 1 gfpKernel = some (k.mm.pageIdToVa q, mm₁) ∧
      Mm.GotPage k.mm mm₁ q ∧ k.mm.pageIdToVa q ≠ 0 ∧ k'.mm = mm₁ ∧
      k'.task = Function.update k.task t { k.task t with
        stackBase := k.mm.pageIdToVa q
        stackOrigin := k.mm.pageIdToVa q } ∧ SameRest k k' := by
  unfold allocKernelStack at h
  -- A task that already has a stack is refused.
  by_cases hbase : (k.task t).stackBase ≠ 0
  · rw [if_pos hbase] at h
    simp only [Option.pure_def, Option.some.injEq, Prod.mk.injEq] at h
    exact absurd h.1 (by decide)
  rw [if_neg hbase] at h
  have hone : ((kernelStackSize / pageSize : Nat) : Int) = 1 := by decide
  rw [hone] at h
  simp only [Option.pure_def, Option.bind_eq_bind, Option.bind_eq_some_iff, Prod.exists] at h
  rcases h with ⟨addr, mm₁, hget, h⟩
  rw [Option.some.injEq, Prod.mk.injEq] at h
  by_cases hzero : addr = 0
  · rw [if_pos hzero] at h
    exact absurd h.1 (by decide)
  rcases Mm.getFreePages_got k.mm mm₁ _ addr hplain.words hget with hnone | ⟨q, haddr, hgot⟩
  · exact absurd hnone.1 hzero
  subst haddr
  rw [← h.2]
  exact ⟨q, mm₁, hget, hgot, hzero, rfl, rfl, ⟨rfl, rfl, rfl, rfl, rfl⟩⟩

/-- A new user task has a kernel stack, two tables, four pages of stack and 256
    pages of image. -/
theorem allocMemoryForTask_filled (k k' : Kernel) (t : Nat) (hplain : Mm.PlainMap k.mm)
    (huser : (k.task t).flag &&& processTypeUser ≠ 0) (hempty : EmptyMm (k.task t).mm)
    (h : k.allocMemoryForTask t = some (0, k')) :
    ∃ k₁ q qs qe ps rs, k.allocKernelStack t = some (0, k₁) ∧ Filling k₁ k' t qs qe ps rs ∧
      ps.length = 4 ∧ rs.length = 256 ∧ Mm.GotPage k.mm k₁.mm q ∧ k.mm.pageIdToVa q ≠ 0 ∧
      k₁.task = Function.update k.task t { k.task t with
        stackBase := k.mm.pageIdToVa q
        stackOrigin := k.mm.pageIdToVa q } ∧ SameRest k k₁ ∧
      k.mm.getFreePages 1 gfpKernel = some (k.mm.pageIdToVa q, k₁.mm) ∧
      ∃ mm₁ mm₂ page, k₁.mm.getFreePage gfpPgt = some (k.mm.pageIdToVa qs, mm₁) ∧
        (mm₁.setPage qs page).getFreePage gfpPgt = some (k.mm.pageIdToVa qe, mm₂) := by
  rcases allocMemoryForTask_ok k k' t h with ⟨k₁, hstack, h⟩
  rcases allocKernelStack_cases k k₁ t hplain hstack with
    ⟨q, mm₁, hget, hgot, hne, hmm₁, htask, hrest⟩
  subst hmm₁
  have hself : k₁.task t = { k.task t with
      stackBase := k.mm.pageIdToVa q
      stackOrigin := k.mm.pageIdToVa q } := by
    rw [htask, Function.update_self]
  rw [if_pos (by rw [hself]; exact huser)] at h
  rcases h with ⟨k₂, htable, hmap⟩
  -- The kernel stack came from the same pages, so the layout is still plain.
  have hplain₁ := Mm.plainMap_same k.mm k₁.mm hgot.bank hplain
  rcases allocPageTable_filling k₁ k₂ t hplain₁ (by rw [hself]; exact hempty) htable with
    ⟨qs, qe, mm₁, mm₂, page, hfill, hget₁, hget₂⟩
  rcases allocMemoryAndMap_filling k₁ k₂ k' t qs qe hplain₁ hfill hmap with
    ⟨ps, rs, hfilled, hps, hrs⟩
  rw [Mm.pageIdToVa_same k.mm k₁.mm hgot.bank] at hget₁ hget₂
  exact ⟨k₁, q, qs, qe, ps, rs, hstack, hfilled, hps, hrs, hgot, hne, htask, hrest, hget,
    mm₁, mm₂, page, hget₁, hget₂⟩

end Kernel

end Mirros
