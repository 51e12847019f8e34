import Mirros.Theory.Task.Return
import Mirros.Theory.Task.Copy

/-!
# What Memory Management Leaves Alone

Giving a task its memory and taking it back, seen from the rest of the kernel. Whatever
the outcome, a call for task `t` leaves alone the pages that somebody else has: their bits
stay set, their entries stay, and so do their bytes (`Beside`). The pages it takes were free,
the words it writes are words of the two tables it took, and the pages it gives back are
pages of `t`, each for itself.

This covers the ways in which `alloc_memory_for_task` fails as well, where the pages taken so
far are given back, or not.

## Main definitions

* `OwnPage`, `StackRoom`, `ElfRoom`: A page of the task, and its tables while they fill.
* `Beside`: What happens for task `t` beside the pages of others.

## Theorems

* `allocMemoryForTask_beside`: The memory of a task is allocated, or not.
* `releaseTaskMemory_beside`: The memory of a task is released.
-/

namespace Mirros

namespace Kernel

/-- A page that is not somebody else's, as `get_free_page` handed it out. -/
structure OwnPage (F : Nat → Prop) (mm : Mm) (p : Nat) : Prop where
  apart : ¬F p
  taken : used mm.pageMap p = true
  bound : p < 32 * mm.mapWords
  single : (mm.pageTable p).Single

/-- A table that is entered from its last word down, with the room that is left. -/
structure StackRoom (mm : Mm) (p : Nat) : Prop where
  words : (mm.pageTable p).freeSize % 4 = 0 ∧ (mm.pageTable p).freeSize ≤ pageSize
  base : (mm.pageTable p).freeSize ≠ 0 →
    (mm.pageTable p).freeBase = mm.pageIdToVa p + (mm.pageTable p).freeSize - 4

/-- A table that is entered from its first word up. -/
structure ElfRoom (mm : Mm) (p : Nat) : Prop where
  words : (mm.pageTable p).freeSize % 4 = 0 ∧ (mm.pageTable p).freeSize ≤ pageSize
  base : (mm.pageTable p).freeSize ≠ 0 →
    (mm.pageTable p).freeBase = mm.pageIdToVa p + pageSize - (mm.pageTable p).freeSize

theorem stackRoom_same (mm mm' : Mm) (p : Nat) (hbank : Mm.SameBank mm mm')
    (hentry : mm'.pageTable p = mm.pageTable p) (h : StackRoom mm p) : StackRoom mm' p := by
  constructor
  · rw [hentry]
    exact h.words
  · rw [hentry, Mm.pageIdToVa_same mm mm' hbank]
    exact h.base

theorem elfRoom_same (mm mm' : Mm) (p : Nat) (hbank : Mm.SameBank mm mm')
    (hentry : mm'.pageTable p = mm.pageTable p) (h : ElfRoom mm p) : ElfRoom mm' p := by
  constructor
  · rw [hentry]
    exact h.words
  · rw [hentry, Mm.pageIdToVa_same mm mm' hbank]
    exact h.base

/-- The word that is entered next is a word of the table. -/
theorem stackRoom_word (mm : Mm) (q : Nat) (hroom : (mm.pageTable q).freeSize ≠ 0)
    (h : StackRoom mm q) : mm.pageIdToVa q ≤ (mm.pageTable q).freeBase ∧
      (mm.pageTable q).freeBase + 4 ≤ mm.pageIdToVa q + pageSize := by
  have hbase := h.base hroom
  have hwords := h.words
  omega

theorem elfRoom_word (mm : Mm) (q : Nat) (hroom : (mm.pageTable q).freeSize ≠ 0)
    (h : ElfRoom mm q) : mm.pageIdToVa q ≤ (mm.pageTable q).freeBase ∧
      (mm.pageTable q).freeBase + 4 ≤ mm.pageIdToVa q + pageSize := by
  have hbase := h.base hroom
  have hwords := h.words
  omega

/-- A table with one more word entered. -/
theorem stackRoom_entered (mm : Mm) (q : Nat) (page : Page)
    (hroom : (mm.pageTable q).freeSize ≠ 0) (htop : mm.pageIdToVa q + pageSize ≤ u32Size)
    (h : StackRoom mm q) (hbase : page.freeBase = sub32 (mm.pageTable q).freeBase 4)
    (hsize : page.freeSize = sub16 (mm.pageTable q).freeSize 4) :
    StackRoom (mm.setPage q page) q := by
  have hself : (mm.setPage q page).pageTable q = page := Function.update_self _ _ _
  have hva : (mm.setPage q page).pageIdToVa q = mm.pageIdToVa q := rfl
  have hold := h.base hroom
  have hwords := h.words
  have hless : page.freeSize = (mm.pageTable q).freeSize - 4 := by
    rw [hsize]
    unfold sub16
    unfold pageSize at hwords
    omega
  have hdown : page.freeSize ≠ 0 → page.freeBase = (mm.pageTable q).freeBase - 4 := by
    rw [hbase, hold]
    unfold sub32
    unfold pageSize u32Size at *
    omega
  constructor
  · rw [hself]
    omega
  · rw [hself, hva]
    intro hne
    have hdown' := hdown hne
    omega

theorem elfRoom_entered (mm : Mm) (q : Nat) (page : Page)
    (hroom : (mm.pageTable q).freeSize ≠ 0) (htop : mm.pageIdToVa q + pageSize ≤ u32Size)
    (h : ElfRoom mm q) (hbase : page.freeBase = add32 (mm.pageTable q).freeBase 4)
    (hsize : page.freeSize = sub16 (mm.pageTable q).freeSize 4) :
    ElfRoom (mm.setPage q page) q := by
  have hself : (mm.setPage q page).pageTable q = page := Function.update_self _ _ _
  have hva : (mm.setPage q page).pageIdToVa q = mm.pageIdToVa q := rfl
  have hold := h.base hroom
  have hwords := h.words
  have hless : page.freeSize = (mm.pageTable q).freeSize - 4 := by
    rw [hsize]
    unfold sub16
    unfold pageSize at hwords
    omega
  have hup : page.freeSize ≠ 0 → page.freeBase = (mm.pageTable q).freeBase + 4 := by
    rw [hbase, hold]
    unfold add32
    unfold pageSize u32Size at *
    omega
  constructor
  · rw [hself]
    omega
  · rw [hself, hva]
    intro hne
    have hup' := hup hne
    omega

/-- The pages of a task: its kernel stack, and the pages on its lists. -/
def heldPages (k : Kernel) (t : Nat) : List Nat :=
  (if (k.task t).stackOrigin = 0 then [] else [k.mm.vaToPageId (k.task t).stackOrigin]) ++
    (k.task t).mm.pages

/-- From `k₀` to `k` something was done for task `t`, beside the pages `F` of others. -/
structure Beside (F : Nat → Prop) (t : Nat) (k₀ k : Kernel) : Prop where
  plain : Mm.PlainMap k.mm
  bank : Mm.SameBank k₀.mm k.mm
  tasks : ∀ u ≠ t, k.task u = k₀.task u
  tlb : k.tlb = k₀.tlb
  unlocked : (k.mm.zone .normal).zoneMutex = 0
  room : ∀ i, F i → i < 32 * k.mm.mapWords
  bits : ∀ i, F i → used k.mm.pageMap i = true
  entries : ∀ i, F i → k.mm.pageTable i = k₀.mm.pageTable i
  ram : ∀ i, F i → SamePage k₀.mm k₀.ram k.ram i
  own : ∀ p ∈ k.heldPages t, OwnPage F k.mm p
  nodup : (k.heldPages t).Nodup
  stackRoom : ∀ p ∈ (k.task t).mm.stackList, StackRoom k.mm p
  elfRoom : ∀ p ∈ (k.task t).mm.elfList, ElfRoom k.mm p
  bases : ∀ p ∈ (k.task t).mm.elfStackList ++ (k.task t).mm.elfImageList,
    (k.mm.pageTable p).freeBase = k.mm.pageIdToVa p
  origin : (k.task t).stackOrigin ≠ 0 →
    k.mm.pageIdToVa (k.mm.vaToPageId (k.task t).stackOrigin) = (k.task t).stackOrigin

theorem userPages_mem (ms : MmStruct) (p : Nat) (hp : p ∈ ms.elfStackList ++ ms.elfImageList) :
    p ∈ ms.pages := by
  rw [mem_pages]
  rcases List.mem_append.mp hp with hp | hp
  · exact Or.inl hp
  · exact Or.inr (Or.inl hp)

theorem mem_heldPages (k : Kernel) (t p : Nat) : p ∈ k.heldPages t ↔
    ((k.task t).stackOrigin ≠ 0 ∧ p = k.mm.vaToPageId (k.task t).stackOrigin) ∨
      p ∈ (k.task t).mm.pages := by
  unfold heldPages
  rw [List.mem_append]
  split_ifs with h
  · simp [h]
  · simp [h]

theorem heldPages_setTask (k : Kernel) (t : Nat) (p : Process) : (k.setTask t p).heldPages t =
    (if p.stackOrigin = 0 then [] else [k.mm.vaToPageId p.stackOrigin]) ++ p.mm.pages := by
  have hself : (k.setTask t p).task t = p := Function.update_self _ _ _
  unfold heldPages
  rw [hself]
  rfl

/-- The pages of a task go by its structure. -/
theorem heldPages_congr (k k' : Kernel) (t : Nat) (hbank : Mm.SameBank k.mm k'.mm)
    (horigin : (k'.task t).stackOrigin = (k.task t).stackOrigin)
    (hpages : (k'.task t).mm.pages = (k.task t).mm.pages) : k'.heldPages t = k.heldPages t := by
  unfold heldPages
  rw [horigin, hpages, Mm.vaToPageId_same k.mm k'.mm hbank]

end Kernel

namespace Mm

/-- What one call of `get_free_pages` for the NORMAL zone does when the zone is not locked. -/
theorem getFreePages_single (mm mm' : Mm) (flag addr : Nat) (hplain : PlainMap mm)
    (hflag : zoneOfId (zoneIdOfFlag flag) = some .normal)
    (hunlocked : (mm.zone .normal).zoneMutex = 0)
    (hget : mm.getFreePages 1 flag = some (addr, mm')) :
    (addr = 0 ∧ mm' = mm) ∨ ∃ q, mm'.vaToPageId addr = q ∧ addr = mm.pageIdToVa q ∧
      GotPage mm mm' q ∧ (mm'.pageTable q).Single ∧ (mm'.zone .normal).zoneMutex = 0 := by
  rcases getFreePages_got mm mm' flag addr hplain.words hget with hzero | ⟨q, hq, hgot⟩
  · exact Or.inl hzero
  rcases getFreePages_cases mm mm' 1 flag addr hget with
    hzero | ⟨z, index, hz, _, _, _, hindex, htook⟩
  · exact Or.inl hzero
  rw [hflag, Option.some.injEq] at hz
  subst hz
  -- Both accounts of the call speak of the same page.
  have hbound : index < 32 * mm.mapWords := htook.bound.resolve_left (by decide)
  have hiq : index = q := by
    have hback := vaToPageId_page mm hplain index hbound
    rw [← hindex, hq, vaToPageId_page mm hplain q hgot.bound] at hback
    exact hback.symm
  subst hiq
  refine Or.inr ⟨index, ?_, hq, hgot, ?_, ?_⟩
  · rw [vaToPageId_same mm mm' hgot.bank, hq]
    exact vaToPageId_page mm hplain index hgot.bound
  · have hentry : mm'.pageTable index = mm.freshPage index 1 index (flag ||| gfpPageHeader) := by
      rw [htook.table, if_pos ⟨Nat.le_refl _, Nat.lt_succ_self _⟩]
      rfl
    rw [hentry]
    refine ⟨header_bit flag, ?_, ?_⟩
    · exact (congrArg zoneOfId (zoneIdOfFlag_header flag)).trans hflag
    · simp only [freshPage, if_true]
  · rw [htook.zones, Function.update_self]
    exact hunlocked

/-- A single page that is given back clears its own bit. -/
theorem freePages_single (mm : Mm) (q : Nat) (hplain : PlainMap mm) (hq : q < 32 * mm.mapWords)
    (hsingle : (mm.pageTable q).Single) (hunlocked : (mm.zone .normal).zoneMutex = 0) :
    ∃ mm', mm.freePages (mm.pageIdToVa q) = some mm' ∧ SameBank mm mm' ∧
      (∀ i, used mm'.pageMap i = if i = q then false else used mm.pageMap i) ∧
      mm'.pageTable = mm.pageTable ∧ (mm'.zone .normal).zoneMutex = 0 := by
  have hwords := hplain.words
  have hfree : mm.freePages (mm.pageIdToVa q) = mm.doFreePages q .normal :=
    freePages_header mm q .normal hplain (by omega) hsingle.header hsingle.zone
  rcases doFreePages_returns mm q .normal hunlocked (Or.inr (by rw [hsingle.count]; omega)) with
    ⟨mm', hrun⟩
  have hgave := doFreePages_cases mm mm' q .normal hrun
  rw [hsingle.count] at hgave
  refine ⟨mm', hfree.trans hrun, ⟨hgave.start, hgave.words, ?_⟩, fun i => ?_, hgave.table, ?_⟩
  · exact sections_update mm mm' .normal _ hgave.zones rfl rfl
  · have hi : (q ≤ i ∧ i < q + 1) ↔ i = q := by omega
    rw [hgave.bits, if_congr hi rfl rfl]
  · rw [hgave.zones, Function.update_self]
    exact hunlocked

/-- Some pages were given back, each for itself. -/
structure Freed (mm mm' : Mm) (ps : List Nat) : Prop where
  bank : SameBank mm mm'
  bits : ∀ i, used mm'.pageMap i = if i ∈ ps then false else used mm.pageMap i
  table : mm'.pageTable = mm.pageTable
  unlocked : (mm'.zone .normal).zoneMutex = 0

theorem freed_append (mm mm₁ mm₂ : Mm) (ps qs : List Nat) (h : Freed mm mm₁ ps)
    (h' : Freed mm₁ mm₂ qs) : Freed mm mm₂ (ps ++ qs) where
  bank := h.bank.trans h'.bank
  bits := by
    intro i
    rw [h'.bits, h.bits]
    by_cases hq : i ∈ qs
    · rw [if_pos hq, if_pos (List.mem_append_right _ hq)]
    · rw [if_neg hq]
      exact if_congr (by rw [List.mem_append, or_iff_left hq]) rfl rfl
  table := h'.table.trans h.table
  unlocked := h'.unlocked

/-- A list of single pages can be given back. -/
theorem freeAll_single (ps : List Nat) : ∀ mm : Mm, PlainMap mm →
    (∀ p ∈ ps, p < 32 * mm.mapWords ∧ (mm.pageTable p).Single) →
    (mm.zone .normal).zoneMutex = 0 → ∃ mm', mm.freeAll ps = some mm' ∧ Freed mm mm' ps := by
  induction ps with
  | nil =>
      intro mm _ _ hunlocked
      exact ⟨mm, rfl, SameBank.refl mm, fun i => (if_neg List.not_mem_nil).symm, rfl, hunlocked⟩
  | cons p ps ih =>
      intro mm hplain hps hunlocked
      rcases hps p List.mem_cons_self with ⟨hbound, hsingle⟩
      rcases freePages_single mm p hplain hbound hsingle hunlocked with
        ⟨mm₁, hfree, hbank, hbits, htable, hunlocked₁⟩
      have hone : Freed mm mm₁ [p] :=
        ⟨hbank, fun i => by rw [hbits, if_congr List.mem_singleton rfl rfl], htable, hunlocked₁⟩
      rcases ih mm₁ (plainMap_same mm mm₁ hbank hplain) (fun r hr => by
        rw [htable, hbank.words]
        exact hps r (List.mem_cons_of_mem _ hr)) hunlocked₁ with ⟨mm', hrest, hfreed⟩
      refine ⟨mm', ?_, freed_append mm mm₁ mm' [p] ps hone hfreed⟩
      rw [freeAll, List.foldlM_cons, hfree]
      exact hrest

end Mm

namespace Kernel

/-- The table a page is entered into is on the list, and has room. -/
theorem openTable_mem (k : Kernel) (list : List Nat) (curr : Option Nat) (q : Nat)
    (h : k.openTable list curr = some q) : q ∈ list ∧ (k.mm.pageTable q).freeSize ≠ 0 := by
  unfold openTable at h
  cases curr with
  | none => exact absurd h (by simp only [reduceCtorEq, not_false_eq_true])
  | some c =>
      have hroom := List.find?_some h
      exact ⟨(List.dropWhile_sublist _).subset (List.mem_of_find?_eq_some h),
        of_decide_eq_true hroom⟩

/-- One word of a table, whatever the address. -/
theorem buildPageTableEntry_word (ram : Ram) (base pa : Nat) :
    (buildPageTableEntry ram base pa pageSize 0).1
      = store32 ram base (archBuildPageTableDes (add32 pa 0) pgtDesDefault) := by
  have hok : (isAligin pageSize pageSize && decide (pageSize ≤ size1M)) = true := by decide
  have hone : pageSize / pageSize = 1 := by decide
  unfold buildPageTableEntry
  rw [if_pos hok, hone]
  simp only [List.range_one, List.foldl_cons, List.foldl_nil, Nat.mul_zero, Nat.add_zero,
    Nat.zero_mul]
  rfl

/-- What every turn of a loop keeps is kept by the loop, however it ends. -/
theorem whileOk_keeps (body : Kernel → Option (Bool × Kernel)) (I : Kernel → Prop)
    (hstep : ∀ k ok k', I k → body k = some (ok, k') → I k') :
    ∀ (n : Nat) (k : Kernel) (ok : Bool) (k' : Kernel), I k →
      whileOk body n k = some (ok, k') → I k' := by
  intro n
  induction n with
  | zero =>
      intro k ok k' hk hrun
      rw [whileOk, Option.some.injEq, Prod.mk.injEq] at hrun
      exact hrun.2 ▸ hk
  | succ n ih =>
      intro k ok k' hk hrun
      simp only [whileOk, Option.pure_def, Option.bind_eq_bind, Option.bind_eq_some_iff,
        Prod.exists] at hrun
      rcases hrun with ⟨ok₁, k₁, hbody, hrun⟩
      have h₁ := hstep k ok₁ k₁ hk hbody
      cases ok₁ with
      | false =>
          rw [if_neg (by decide), Option.some.injEq, Prod.mk.injEq] at hrun
          exact hrun.2 ▸ h₁
      | true =>
          rw [if_pos rfl] at hrun
          exact ih k₁ ok k' h₁ hrun

section Beside

variable (F : Nat → Prop) (t : Nat) (k₀ k : Kernel) (h : Beside F t k₀ k)
include h

/-- A page that was free is nobody's. -/
theorem beside_fresh (mm' : Mm) (q : Nat) (hgot : Mm.GotPage k.mm mm' q)
    (hsingle : (mm'.pageTable q).Single) : OwnPage F mm' q ∧ q ∉ k.heldPages t := by
  have hclear := hgot.clear
  refine ⟨⟨fun hF => ?_, ?_, ?_, hsingle⟩, fun hmem => ?_⟩
  · rw [h.bits q hF] at hclear
    exact absurd hclear (by decide)
  · rw [hgot.bits, if_pos rfl]
  · rw [hgot.bank.words]
    exact hgot.bound
  · rw [(h.own q hmem).taken] at hclear
    exact absurd hclear (by decide)

/-- A page is taken, and is on no list yet. -/
theorem beside_got (mm' : Mm) (q : Nat) (hgot : Mm.GotPage k.mm mm' q)
    (hunlocked : (mm'.zone .normal).zoneMutex = 0) : Beside F t k₀ (k.setMm mm') := by
  have hkeep : ∀ i, used k.mm.pageMap i = true →
      used mm'.pageMap i = true ∧ mm'.pageTable i = k.mm.pageTable i := by
    intro i hi
    refine ⟨by rw [hgot.bits, hi, ite_self], hgot.others i ?_⟩
    exact ne_of_used _ i q hi hgot.clear
  have hheld : (k.setMm mm').heldPages t = k.heldPages t :=
    heldPages_congr k (k.setMm mm') t hgot.bank rfl rfl
  have hlists : ∀ p ∈ (k.task t).mm.pages, used k.mm.pageMap p = true := fun p hp =>
    (h.own p ((mem_heldPages k t p).mpr (Or.inr hp))).taken
  refine ⟨Mm.plainMap_same k.mm mm' hgot.bank h.plain, h.bank.trans hgot.bank, h.tasks, h.tlb,
    hunlocked, fun i hF => hgot.bank.words.symm ▸ h.room i hF,
    fun i hF => (hkeep i (h.bits i hF)).1,
    fun i hF => (hkeep i (h.bits i hF)).2.trans (h.entries i hF), h.ram, fun p hp => ?_,
    hheld ▸ h.nodup, fun p hp => ?_, fun p hp => ?_, fun p hp => ?_, fun hne => ?_⟩
  · rw [hheld] at hp
    have hown := h.own p hp
    rcases hkeep p hown.taken with ⟨htaken, hentry⟩
    exact ⟨hown.apart, htaken, hgot.bank.words.symm ▸ hown.bound, hentry.symm ▸ hown.single⟩
  · have hused := hlists p ((mem_pages _ p).mpr (Or.inr (Or.inr (Or.inl hp))))
    exact stackRoom_same k.mm mm' p hgot.bank (hkeep p hused).2 (h.stackRoom p hp)
  · have hused := hlists p ((mem_pages _ p).mpr (Or.inr (Or.inr (Or.inr hp))))
    exact elfRoom_same k.mm mm' p hgot.bank (hkeep p hused).2 (h.elfRoom p hp)
  · have hused := hlists p (userPages_mem _ p hp)
    show (mm'.pageTable p).freeBase = mm'.pageIdToVa p
    rw [(hkeep p hused).2, Mm.pageIdToVa_same k.mm mm' hgot.bank]
    exact h.bases p hp
  · show mm'.pageIdToVa (mm'.vaToPageId (k.task t).stackOrigin) = (k.task t).stackOrigin
    rw [Mm.pageIdToVa_same k.mm mm' hgot.bank, Mm.vaToPageId_same k.mm mm' hgot.bank]
    exact h.origin hne

/-- The structure of the task changes. -/
theorem beside_setTask (p : Process)
    (hown : ∀ q ∈ (k.setTask t p).heldPages t, OwnPage F k.mm q)
    (hnodup : ((k.setTask t p).heldPages t).Nodup)
    (hstack : ∀ q ∈ p.mm.stackList, StackRoom k.mm q)
    (helf : ∀ q ∈ p.mm.elfList, ElfRoom k.mm q)
    (hbases : ∀ q ∈ p.mm.elfStackList ++ p.mm.elfImageList,
      (k.mm.pageTable q).freeBase = k.mm.pageIdToVa q)
    (horigin : p.stackOrigin ≠ 0 →
      k.mm.pageIdToVa (k.mm.vaToPageId p.stackOrigin) = p.stackOrigin) :
    Beside F t k₀ (k.setTask t p) := by
  have hself : (k.setTask t p).task t = p := Function.update_self _ _ _
  refine ⟨h.plain, h.bank, fun u hu => ?_, h.tlb, h.unlocked, h.room, h.bits, h.entries, h.ram,
    hown, hnodup, ?_, ?_, ?_, ?_⟩
  · rw [← h.tasks u hu]
    exact Function.update_of_ne hu _ _
  · rw [hself]
    exact hstack
  · rw [hself]
    exact helf
  · rw [hself]
    exact hbases
  · rw [hself]
    exact horigin

/-- The lists of the task change, and hold its pages and some more. -/
theorem beside_lists (ms : MmStruct) (ps : List Nat)
    (hperm : ms.pages.Perm (ps ++ (k.task t).mm.pages))
    (hps : ∀ p ∈ ps, OwnPage F k.mm p ∧ p ∉ k.heldPages t) (hnodup : ps.Nodup)
    (hstack : ∀ q ∈ ms.stackList, StackRoom k.mm q) (helf : ∀ q ∈ ms.elfList, ElfRoom k.mm q)
    (hbases : ∀ q ∈ ms.elfStackList ++ ms.elfImageList,
      (k.mm.pageTable q).freeBase = k.mm.pageIdToVa q) :
    Beside F t k₀ (k.setTaskMm t ms) := by
  have hself : (k.setTaskMm t ms).task t = { k.task t with mm := ms } := Function.update_self _ _ _
  have hheld : ((k.setTaskMm t ms).heldPages t).Perm (ps ++ k.heldPages t) := by
    unfold heldPages
    rw [hself]
    refine (hperm.append_left _).trans ?_
    rw [← List.append_assoc, ← List.append_assoc]
    exact (List.perm_append_comm).append_right _
  refine beside_setTask F t k₀ k h _ (fun q hq => ?_) ?_ hstack helf hbases h.origin
  · rcases List.mem_append.mp (hheld.mem_iff.mp hq) with hq | hq
    · exact (hps q hq).1
    · exact h.own q hq
  · refine hheld.nodup_iff.mpr (List.nodup_append.mpr ⟨hnodup, h.nodup, ?_⟩)
    exact fun a ha b hb hab => (hps a ha).2 (hab ▸ hb)

/-- The entry of a page changes. -/
theorem beside_setPage (q : Nat) (page : Page) (hF : ¬F q)
    (hsingle : q ∈ k.heldPages t → page.Single)
    (hstack : q ∈ (k.task t).mm.stackList → StackRoom (k.mm.setPage q page) q)
    (helf : q ∈ (k.task t).mm.elfList → ElfRoom (k.mm.setPage q page) q)
    (hbases : q ∉ (k.task t).mm.elfStackList ++ (k.task t).mm.elfImageList) :
    Beside F t k₀ (k.setMm (k.mm.setPage q page)) := by
  have hother : ∀ i ≠ q, (k.mm.setPage q page).pageTable i = k.mm.pageTable i :=
    fun i hi => Function.update_of_ne hi _ _
  have hself : (k.mm.setPage q page).pageTable q = page := Function.update_self _ _ _
  have hbank := Mm.setPage_same k.mm q page
  refine ⟨Mm.plainMap_same k.mm _ hbank h.plain, h.bank.trans hbank, h.tasks, h.tlb, h.unlocked,
    h.room, h.bits, fun i hi => (hother i (fun hc => hF (hc ▸ hi))).trans (h.entries i hi), h.ram,
    fun p hp => ?_, h.nodup, fun p hp => ?_, fun p hp => ?_, fun p hp => ?_, h.origin⟩
  · have hown := h.own p hp
    refine ⟨hown.apart, hown.taken, hown.bound, ?_⟩
    by_cases hpq : p = q
    · subst hpq
      exact hself.symm ▸ hsingle hp
    · exact (hother p hpq).symm ▸ hown.single
  · by_cases hpq : p = q
    · subst hpq
      exact hstack hp
    · exact stackRoom_same k.mm _ p hbank (hother p hpq) (h.stackRoom p hp)
  · by_cases hpq : p = q
    · subst hpq
      exact helf hp
    · exact elfRoom_same k.mm _ p hbank (hother p hpq) (h.elfRoom p hp)
  · have hpq : p ≠ q := fun hc => hbases (hc ▸ hp)
    show ((k.mm.setPage q page).pageTable p).freeBase = k.mm.pageIdToVa p
    rw [hother p hpq]
    exact h.bases p hp

/-- Memory changes, but not in the pages of others. -/
theorem beside_ram (ram : Ram) (hram : ∀ i, F i → SamePage k.mm k.ram ram i) :
    Beside F t k₀ { k with ram := ram } := by
  refine ⟨h.plain, h.bank, h.tasks, h.tlb, h.unlocked, h.room, h.bits, h.entries, fun i hi => ?_,
    h.own, h.nodup, h.stackRoom, h.elfRoom, h.bases, h.origin⟩
  refine (h.ram i hi).trans (fun o ho => ?_)
  rw [← Mm.pageIdToVa_same k₀.mm k.mm h.bank]
  exact hram i hi o ho

/-- A word in a page of the task is in no page of others. -/
theorem samePage_store (q addr value i : Nat) (hown : OwnPage F k.mm q) (hi : F i)
    (hlow : k.mm.pageIdToVa q ≤ addr) (hhigh : addr + 4 ≤ k.mm.pageIdToVa q + pageSize) :
    SamePage k.mm k.ram (store32 k.ram addr value) i := by
  intro o ho
  have hne : q ≠ i := fun hc => hown.apart (hc ▸ hi)
  have hap := Mm.pageIdToVa_apart k.mm h.plain q i hown.bound (h.room i hi) hne
  exact store32_apart _ _ _ _ (by omega)

theorem beside_addStackTable (ok : Bool) (k' : Kernel) (hrun : k.addStackTable t = some (ok, k')) :
    Beside F t k₀ k' := by
  unfold addStackTable at hrun
  simp only [Option.pure_def, Option.bind_eq_bind, Option.bind_eq_some_iff, Prod.exists] at hrun
  rcases hrun with ⟨addr, mm', hget, hrun⟩
  rcases Mm.getFreePages_single k.mm mm' gfpPgt addr h.plain (by decide) h.unlocked hget with
    ⟨hzero, rfl⟩ | ⟨q, hid, haddr, hgot, hsingle, hunlocked⟩
  · rw [if_pos hzero, Option.some.injEq, Prod.mk.injEq] at hrun
    rw [← hrun.2]
    exact h
  have hkgot := beside_got F t k₀ k h mm' q hgot hunlocked
  by_cases hzero : addr = 0
  · -- The address of a page may be zero, and then it is lost.
    rw [if_pos hzero, Option.some.injEq, Prod.mk.injEq] at hrun
    rw [← hrun.2]
    exact hkgot
  rw [if_neg hzero, hid, Option.some.injEq, Prod.mk.injEq] at hrun
  rw [← hrun.2]
  rcases beside_fresh F t k₀ k h mm' q hgot hsingle with ⟨hown, hnot⟩
  have hheld : (k.setMm mm').heldPages t = k.heldPages t :=
    heldPages_congr k (k.setMm mm') t hgot.bank rfl rfl
  have hlist : ∀ p ∈ (k.task t).mm.pages, p ≠ q := fun p hp hc =>
    hnot ((mem_heldPages k t q).mpr (Or.inr (hc ▸ hp)))
  set page := { mm'.pageTable q with freeBase := add32 (mm'.pageTable q).freeBase (pageSize - 4) }
    with hpage
  have hset := beside_setPage F t k₀ _ hkgot q page hown.apart
    (fun hmem => absurd (hheld ▸ hmem) hnot)
    (fun hmem => absurd rfl (hlist q ((mem_pages _ q).mpr (Or.inr (Or.inr (Or.inl hmem))))))
    (fun hmem => absurd rfl (hlist q ((mem_pages _ q).mpr (Or.inr (Or.inr (Or.inr hmem))))))
    (fun hmem => absurd rfl (hlist q (userPages_mem _ q hmem)))
  have hself : (mm'.setPage q page).pageTable q = page := Function.update_self _ _ _
  have hroom : StackRoom (mm'.setPage q page) q := by
    have htop := Mm.pageIdToVa_top k.mm h.plain q
    have hva : (mm'.setPage q page).pageIdToVa q = k.mm.pageIdToVa q :=
      Mm.pageIdToVa_same k.mm mm' hgot.bank q
    constructor
    · rw [hself, hpage]
      simp only [hgot.freeSize]
      exact ⟨by decide, Nat.le_refl _⟩
    · intro _
      rw [hself, hpage, hva]
      simp only [hgot.freeSize, hgot.freeBase]
      unfold add32 pageSize u32Size at *
      omega
  refine beside_lists F t k₀ _ hset _ [q] ?_ (fun p hp => ?_) (List.nodup_singleton q)
    (fun p hp => ?_) (fun p hp => hset.elfRoom p hp) hset.bases
  · show (MmStruct.pages { (k.task t).mm with stackList := (k.task t).mm.stackList ++ [q] }).Perm
      ([q] ++ (k.task t).mm.pages)
    refine List.perm_iff_count.mpr (fun a => ?_)
    simp only [MmStruct.pages, List.count_append, List.count_cons, List.count_nil]
    omega
  · rw [List.mem_singleton.mp hp]
    refine ⟨⟨hown.apart, hown.taken, hown.bound, ?_⟩, ?_⟩
    · show ((mm'.setPage q page).pageTable q).Single
      rw [hself]
      exact ⟨hsingle.header, hsingle.zone, hsingle.count⟩
    · show q ∉ (k.setMm mm').heldPages t
      rw [hheld]
      exact hnot
  · rcases List.mem_append.mp hp with hp | hp
    · exact hset.stackRoom p hp
    · rw [List.mem_singleton.mp hp]
      exact hroom

theorem beside_addElfTable (ok : Bool) (k' : Kernel) (hrun : k.addElfTable t = some (ok, k')) :
    Beside F t k₀ k' := by
  unfold addElfTable at hrun
  simp only [Option.pure_def, Option.bind_eq_bind, Option.bind_eq_some_iff, Prod.exists] at hrun
  rcases hrun with ⟨addr, mm', hget, hrun⟩
  rcases Mm.getFreePages_single k.mm mm' gfpPgt addr h.plain (by decide) h.unlocked hget with
    ⟨hzero, rfl⟩ | ⟨q, hid, haddr, hgot, hsingle, hunlocked⟩
  · rw [if_pos hzero, Option.some.injEq, Prod.mk.injEq] at hrun
    rw [← hrun.2]
    exact h
  have hkgot := beside_got F t k₀ k h mm' q hgot hunlocked
  by_cases hzero : addr = 0
  · rw [if_pos hzero, Option.some.injEq, Prod.mk.injEq] at hrun
    rw [← hrun.2]
    exact hkgot
  rw [if_neg hzero, hid, Option.some.injEq, Prod.mk.injEq] at hrun
  rw [← hrun.2]
  rcases beside_fresh F t k₀ k h mm' q hgot hsingle with ⟨hown, hnot⟩
  have hheld : (k.setMm mm').heldPages t = k.heldPages t :=
    heldPages_congr k (k.setMm mm') t hgot.bank rfl rfl
  have hva := Mm.pageIdToVa_same k.mm mm' hgot.bank q
  have hroom : ElfRoom mm' q := by
    constructor
    · rw [hgot.freeSize]
      exact ⟨by decide, Nat.le_refl _⟩
    · intro _
      rw [hgot.freeSize, hgot.freeBase, hva]
      exact (Nat.add_sub_cancel _ _).symm
  refine beside_lists F t k₀ _ hkgot _ [q] ?_ (fun p hp => ?_) (List.nodup_singleton q)
    (fun p hp => hkgot.stackRoom p hp) (fun p hp => ?_) hkgot.bases
  · show (MmStruct.pages { (k.task t).mm with elfList := (k.task t).mm.elfList ++ [q] }).Perm
      ([q] ++ (k.task t).mm.pages)
    refine List.perm_iff_count.mpr (fun a => ?_)
    simp only [MmStruct.pages, List.count_append, List.count_cons, List.count_nil]
    omega
  · rw [List.mem_singleton.mp hp, hheld]
    exact ⟨hown, hnot⟩
  · rcases List.mem_append.mp hp with hp | hp
    · exact hkgot.elfRoom p hp
    · rw [List.mem_singleton.mp hp]
      exact hroom

/-- One page is entered into a table of the task. -/
theorem beside_map (addr : Nat) (elf : Bool) (k' : Kernel)
    (hrun : k.taskMapMemory addr t elf = some k') :
    Beside F t k₀ k' ∧ k'.task = k.task ∧ k'.mm.vaToPageId = k.mm.vaToPageId ∧
      (∀ p, OwnPage F k.mm p → OwnPage F k'.mm p) ∧
      ∀ p ∉ k.heldPages t, (k'.mm.pageTable p).freeBase = (k.mm.pageTable p).freeBase ∧
        k'.mm.pageIdToVa p = k.mm.pageIdToVa p := by
  obtain ⟨q, hopen⟩ : ∃ q, k.openTable
      (if elf then (k.task t).mm.elfList else (k.task t).mm.stackList)
      (if elf then (k.task t).mm.elfCurr else (k.task t).mm.stackCurr) = some q := by
    unfold taskMapMemory at hrun
    cases elf
    · rw [if_neg (by decide)] at hrun
      exact (Option.bind_eq_some_iff.mp hrun).imp (fun q hq => hq.1)
    · rw [if_pos rfl] at hrun
      exact (Option.bind_eq_some_iff.mp hrun).imp (fun q hq => hq.1)
  rw [taskMapMemory_open k addr t q elf hopen, Option.some.injEq] at hrun
  rcases openTable_mem k _ _ q hopen with ⟨hmem, hroom⟩
  have hpages : q ∈ (k.task t).mm.pages := by
    rw [mem_pages]
    cases elf
    · exact Or.inr (Or.inr (Or.inl hmem))
    · exact Or.inr (Or.inr (Or.inr hmem))
  have hheld : q ∈ k.heldPages t := (mem_heldPages k t q).mpr (Or.inr hpages)
  have hown := h.own q hheld
  have htop := Mm.pageIdToVa_top k.mm h.plain q
  -- A table is on one of the two lists, so its entry fits one account of its room.
  have honce : q ∈ (k.task t).mm.stackList → q ∈ (k.task t).mm.elfList → False := by
    intro hs he
    have hnodup := (List.nodup_append.mp h.nodup).2.1
    unfold MmStruct.pages at hnodup
    exact (List.nodup_append.mp (List.nodup_append.mp (List.nodup_append.mp hnodup).2.1).2.1).2.2
      q hs q he rfl
  have hnot : q ∉ (k.task t).mm.elfStackList ++ (k.task t).mm.elfImageList := by
    intro hc
    have hnodup := (List.nodup_append.mp h.nodup).2.1
    unfold MmStruct.pages at hnodup
    rw [← List.append_assoc (k.task t).mm.elfStackList, List.nodup_append] at hnodup
    refine hnodup.2.2 q hc q ?_ rfl
    cases elf
    · exact List.mem_append_left _ hmem
    · exact List.mem_append_right _ hmem
  set page := { k.mm.pageTable q with
    freeBase := if elf then add32 (k.mm.pageTable q).freeBase 4
      else sub32 (k.mm.pageTable q).freeBase 4
    freeSize := sub16 (k.mm.pageTable q).freeSize 4 } with hpage
  have hself : (k.mm.setPage q page).pageTable q = page := Function.update_self _ _ _
  have hva : (k.mm.setPage q page).pageIdToVa q = k.mm.pageIdToVa q := rfl
  have hsingle : page.Single := ⟨hown.single.header, hown.single.zone, hown.single.count⟩
  have hset := beside_setPage F t k₀ k h q page hown.apart (fun _ => hsingle) (fun hmem' => ?_)
    (fun hmem' => ?_) hnot
  rotate_left
  · have helf : elf = false := by
      cases elf
      · rfl
      · exact absurd hmem (fun hc => honce hmem' hc)
    subst helf
    exact stackRoom_entered k.mm q page hroom htop (h.stackRoom q hmem')
      (by simp only [hpage, Bool.false_eq_true, if_false]) (by simp only [hpage])
  · have helf : elf = true := by
      cases elf
      · exact absurd hmem (fun hc => honce hc hmem')
      · rfl
    subst helf
    exact elfRoom_entered k.mm q page hroom htop (h.elfRoom q hmem')
      (by simp only [hpage, if_true]) (by simp only [hpage])
  -- The word that is written is a word of the table.
  have hword : k.mm.pageIdToVa q ≤ (k.mm.pageTable q).freeBase ∧
      (k.mm.pageTable q).freeBase + 4 ≤ k.mm.pageIdToVa q + pageSize := by
    cases elf with
    | false => exact stackRoom_word k.mm q hroom (h.stackRoom q hmem)
    | true => exact elfRoom_word k.mm q hroom (h.elfRoom q hmem)
  rw [← hrun]
  refine ⟨beside_ram F t k₀ _ hset _ (fun i hi => ?_), rfl, rfl, fun p hp => ?_,
    fun p hp => ⟨?_, rfl⟩⟩
  · rw [buildPageTableEntry_word]
    exact samePage_store F t k₀ k h q _ _ i hown hi hword.1 hword.2
  · refine ⟨hp.apart, hp.taken, hp.bound, ?_⟩
    show (Function.update k.mm.pageTable q page p).Single
    by_cases hpq : p = q
    · rw [hpq, Function.update_self]
      exact hsingle
    · rw [Function.update_of_ne hpq]
      exact hp.single
  · have hpq : p ≠ q := fun hc => hp (hc ▸ hheld)
    show (Function.update k.mm.pageTable q page p).freeBase = _
    rw [Function.update_of_ne hpq]

theorem beside_addPage (elf : Bool) (ok : Bool) (k' : Kernel)
    (hrun : addPage t elf k = some (ok, k')) : Beside F t k₀ k' := by
  unfold addPage at hrun
  simp only [Option.pure_def, Option.bind_eq_bind, Option.bind_eq_some_iff, Prod.exists] at hrun
  rcases hrun with ⟨addr, mm', hget, hrun⟩
  rcases Mm.getFreePages_single k.mm mm' gfpKernel addr h.plain (by decide) h.unlocked hget with
    ⟨hzero, rfl⟩ | ⟨q, hid, haddr, hgot, hsingle, hunlocked⟩
  · rw [if_pos hzero, Option.some.injEq, Prod.mk.injEq] at hrun
    rw [← hrun.2]
    exact h
  have hkgot := beside_got F t k₀ k h mm' q hgot hunlocked
  by_cases hzero : addr = 0
  · rw [if_pos hzero, Option.some.injEq, Prod.mk.injEq] at hrun
    rw [← hrun.2]
    exact hkgot
  rw [if_neg hzero, Option.bind_eq_some_iff] at hrun
  rcases hrun with ⟨k₁, hmap, hrun⟩
  rcases beside_fresh F t k₀ k h mm' q hgot hsingle with ⟨hown, hnot⟩
  have hheld : (k.setMm mm').heldPages t = k.heldPages t :=
    heldPages_congr k (k.setMm mm') t hgot.bank rfl rfl
  rcases beside_map F t k₀ _ hkgot addr elf k₁ hmap with
    ⟨hbeside, htask, hids, howns, hbases⟩
  have hid' : k₁.mm.vaToPageId addr = q := by
    rw [hids]
    exact hid
  have hheld' : k₁.heldPages t = k.heldPages t := by
    rw [← hheld]
    unfold heldPages
    rw [htask, hids]
  have hms : (k₁.task t).mm = (k.task t).mm := by
    rw [htask]
    rfl
  rw [Option.some.injEq, Prod.mk.injEq, hid', hms] at hrun
  rw [← hrun.2]
  refine beside_lists F t k₀ k₁ hbeside (enterPage (k.task t).mm elf q) [q] ?_ (fun p hp => ?_)
    (List.nodup_singleton q) (fun p hp => hbeside.stackRoom p ?_) (fun p hp => hbeside.elfRoom p ?_)
    (fun p hp => ?_)
  · rw [hms]
    refine List.perm_iff_count.mpr (fun a => ?_)
    unfold enterPage
    cases elf
    · simp only [Bool.false_eq_true, if_false, MmStruct.pages, List.count_append, List.count_cons,
        List.count_nil]
      omega
    · simp only [if_true, MmStruct.pages, List.count_append, List.count_cons, List.count_nil]
      omega
  · rw [List.mem_singleton.mp hp, hheld']
    exact ⟨howns q hown, hnot⟩
  · rw [hms]
    cases elf <;> exact hp
  · rw [hms]
    cases elf <;> exact hp
  · have hcases : p ∈ (k.task t).mm.elfStackList ++ (k.task t).mm.elfImageList ∨ p = q := by
      unfold enterPage at hp
      cases elf
      · simp only [Bool.false_eq_true, if_false, List.mem_append, List.mem_singleton] at hp ⊢
        tauto
      · simp only [if_true, List.mem_append, List.mem_singleton] at hp ⊢
        tauto
    rcases hcases with hold | rfl
    · exact hbeside.bases p (hms.symm ▸ hold)
    · rcases hbases p (hheld.symm ▸ hnot) with ⟨hbase, hva⟩
      rw [hbase, hva]
      show (mm'.pageTable p).freeBase = mm'.pageIdToVa p
      rw [hgot.freeBase, Mm.pageIdToVa_same k.mm mm' hgot.bank]

/-- Pages of the task are given back and leave its structure. -/
theorem beside_freed (mm' : Mm) (ps : List Nat) (p : Process) (hfreed : Mm.Freed k.mm mm' ps)
    (hps : ∀ q ∈ ps, q ∈ k.heldPages t)
    (hheld : ∀ q ∈ (k.setTask t p).heldPages t, q ∈ k.heldPages t ∧ q ∉ ps)
    (hnodup : ((k.setTask t p).heldPages t).Nodup)
    (hstack : ∀ q ∈ p.mm.stackList, q ∈ (k.task t).mm.stackList)
    (helf : ∀ q ∈ p.mm.elfList, q ∈ (k.task t).mm.elfList)
    (hbases : ∀ q ∈ p.mm.elfStackList ++ p.mm.elfImageList,
      q ∈ (k.task t).mm.elfStackList ++ (k.task t).mm.elfImageList)
    (horigin : p.stackOrigin = 0 ∨ p.stackOrigin = (k.task t).stackOrigin) :
    Beside F t k₀ ((k.setMm mm').setTask t p) := by
  have hbank := hfreed.bank
  have hkeep : ∀ i, used k.mm.pageMap i = true → i ∉ ps → used mm'.pageMap i = true := by
    intro i hi hnot
    rw [hfreed.bits, if_neg hnot, hi]
  have hheld' : ((k.setMm mm').setTask t p).heldPages t = (k.setTask t p).heldPages t :=
    heldPages_congr (k.setTask t p) _ t hbank rfl rfl
  have hself : ((k.setMm mm').setTask t p).task t = p := Function.update_self _ _ _
  refine ⟨Mm.plainMap_same k.mm mm' hbank h.plain, h.bank.trans hbank, fun u hu => ?_, h.tlb,
    hfreed.unlocked, fun i hi => hbank.words.symm ▸ h.room i hi, fun i hi => ?_, fun i hi => ?_,
    h.ram, fun q hq => ?_, hheld'.symm ▸ hnodup, fun q hq => ?_, fun q hq => ?_, fun q hq => ?_,
    fun hne => ?_⟩
  · rw [← h.tasks u hu]
    exact Function.update_of_ne hu _ _
  · exact hkeep i (h.bits i hi) (fun hc => (h.own i (hps i hc)).apart hi)
  · show mm'.pageTable i = _
    rw [hfreed.table]
    exact h.entries i hi
  · rw [hheld'] at hq
    rcases hheld q hq with ⟨hold, hnot⟩
    have hown := h.own q hold
    refine ⟨hown.apart, hkeep q hown.taken hnot, hbank.words.symm ▸ hown.bound, ?_⟩
    show (mm'.pageTable q).Single
    rw [hfreed.table]
    exact hown.single
  · rw [hself] at hq
    exact stackRoom_same k.mm mm' q hbank (by rw [hfreed.table]) (h.stackRoom q (hstack q hq))
  · rw [hself] at hq
    exact elfRoom_same k.mm mm' q hbank (by rw [hfreed.table]) (h.elfRoom q (helf q hq))
  · rw [hself] at hq
    show (mm'.pageTable q).freeBase = mm'.pageIdToVa q
    rw [hfreed.table, Mm.pageIdToVa_same k.mm mm' hbank]
    exact h.bases q (hbases q hq)
  · rw [hself] at hne ⊢
    show mm'.pageIdToVa (mm'.vaToPageId p.stackOrigin) = p.stackOrigin
    rcases horigin with hzero | hsame
    · exact absurd hzero hne
    · rw [Mm.pageIdToVa_same k.mm mm' hbank, Mm.vaToPageId_same k.mm mm' hbank, hsame]
      exact h.origin (hsame ▸ hne)

/-- Pages on the lists of the task can be given back. -/
theorem beside_freeAll (ps : List Nat) (hps : ∀ q ∈ ps, q ∈ k.heldPages t) :
    ∃ mm', k.mm.freeAll ps = some mm' ∧ Mm.Freed k.mm mm' ps :=
  Mm.freeAll_single ps k.mm h.plain (fun p hp => ⟨(h.own p (hps p hp)).bound,
    (h.own p (hps p hp)).single⟩) h.unlocked

theorem beside_releaseTaskPages : ∃ k', k.releaseTaskPages t = some k' ∧ Beside F t k₀ k' ∧
    k'.task t = { k.task t with mm :=
      { (k.task t).mm with elfStackList := [], elfImageList := [] } } := by
  have hmem : ∀ q ∈ (k.task t).mm.elfStackList ++ (k.task t).mm.elfImageList,
      q ∈ k.heldPages t := by
    intro q hq
    rw [mem_heldPages, mem_pages]
    rcases List.mem_append.mp hq with hq | hq
    · exact Or.inr (Or.inl hq)
    · exact Or.inr (Or.inr (Or.inl hq))
  rcases beside_freeAll F t k₀ k h _ hmem with ⟨mm', hfree, hfreed⟩
  rcases Mm.freeAll_append _ _ _ _ hfree with ⟨mm₁, hfirst, hsecond⟩
  refine ⟨_, releaseTaskPages_some k t mm₁ mm' hfirst hsecond, ?_, Function.update_self _ _ _⟩
  have hold := h.nodup
  unfold heldPages MmStruct.pages at hold
  have hnew : (k.setTask t { k.task t with mm :=
      { (k.task t).mm with elfStackList := [], elfImageList := [] } }).heldPages t =
      (if (k.task t).stackOrigin = 0 then [] else [k.mm.vaToPageId (k.task t).stackOrigin]) ++
        ((k.task t).mm.stackList ++ (k.task t).mm.elfList) := by
    rw [heldPages_setTask]
    rfl
  rw [← List.append_assoc (k.task t).mm.elfStackList, List.nodup_append] at hold
  rcases hold with ⟨hstack, hpages, hapart⟩
  rcases List.nodup_append.mp hpages with ⟨_, htables, hapart'⟩
  refine beside_freed F t k₀ k h mm' _ { k.task t with mm :=
      { (k.task t).mm with elfStackList := [], elfImageList := [] } } hfreed hmem (fun q hq => ?_) ?_
    (fun q hq => hq) (fun q hq => hq) (fun q hq => absurd hq List.not_mem_nil) (Or.inr rfl)
  · rw [hnew] at hq
    rw [heldPages, MmStruct.pages]
    rcases List.mem_append.mp hq with hq | hq
    · exact ⟨List.mem_append_left _ hq,
        fun hc => hapart q hq q (List.mem_append_left _ hc) rfl⟩
    · refine ⟨List.mem_append_right _ ?_, fun hc => hapart' q hc q hq rfl⟩
      exact List.mem_append_right _ (List.mem_append_right _ hq)
  · rw [hnew]
    exact List.nodup_append.mpr ⟨hstack, htables,
      fun a ha b hb => hapart a ha b (List.mem_append_right _ hb)⟩

theorem beside_releaseTaskPageTable : ∃ k', k.releaseTaskPageTable t = some k' ∧
    Beside F t k₀ k' ∧ k'.task t = { k.task t with mm :=
      { (k.task t).mm with stackList := [], elfList := [] } } := by
  have hmem : ∀ q ∈ (k.task t).mm.stackList ++ (k.task t).mm.elfList, q ∈ k.heldPages t := by
    intro q hq
    rw [mem_heldPages, mem_pages]
    rcases List.mem_append.mp hq with hq | hq
    · exact Or.inr (Or.inr (Or.inr (Or.inl hq)))
    · exact Or.inr (Or.inr (Or.inr (Or.inr hq)))
  rcases beside_freeAll F t k₀ k h _ hmem with ⟨mm', hfree, hfreed⟩
  rcases Mm.freeAll_append _ _ _ _ hfree with ⟨mm₁, hfirst, hsecond⟩
  refine ⟨_, releaseTaskPageTable_some k t mm₁ mm' hfirst hsecond, ?_, Function.update_self _ _ _⟩
  have hold := h.nodup
  unfold heldPages MmStruct.pages at hold
  have hnew : (k.setTask t { k.task t with mm :=
      { (k.task t).mm with stackList := [], elfList := [] } }).heldPages t =
      (if (k.task t).stackOrigin = 0 then [] else [k.mm.vaToPageId (k.task t).stackOrigin]) ++
        ((k.task t).mm.elfStackList ++ (k.task t).mm.elfImageList) := by
    rw [heldPages_setTask, MmStruct.pages]
    simp only [List.append_nil]
  rw [← List.append_assoc (k.task t).mm.elfStackList, List.nodup_append] at hold
  rcases hold with ⟨hstack, hpages, hapart⟩
  rcases List.nodup_append.mp hpages with ⟨hboth, _, hapart'⟩
  refine beside_freed F t k₀ k h mm' _ { k.task t with mm :=
      { (k.task t).mm with stackList := [], elfList := [] } } hfreed hmem (fun q hq => ?_) ?_
    (fun q hq => absurd hq List.not_mem_nil) (fun q hq => absurd hq List.not_mem_nil)
    (fun q hq => hq) (Or.inr rfl)
  · rw [hnew] at hq
    rw [heldPages, MmStruct.pages, ← List.append_assoc (k.task t).mm.elfStackList]
    rcases List.mem_append.mp hq with hq | hq
    · exact ⟨List.mem_append_left _ hq,
        fun hc => hapart q hq q (List.mem_append_right _ hc) rfl⟩
    · refine ⟨List.mem_append_right _ (List.mem_append_left _ hq), fun hc => ?_⟩
      exact hapart' q hq q hc rfl
  · rw [hnew]
    exact List.nodup_append.mpr ⟨hstack, hboth,
      fun a ha b hb => hapart a ha b (List.mem_append_left _ hb)⟩

theorem beside_releaseKernelStack : ∃ k', k.releaseKernelStack t = some k' ∧ Beside F t k₀ k' ∧
    k'.task t = { k.task t with stackBase := 0, stackOrigin := 0 } := by
  have hnew : (k.setTask t { k.task t with stackBase := 0, stackOrigin := 0 }).heldPages t =
      (k.task t).mm.pages := by
    rw [heldPages_setTask]
    rfl
  have hpages := (List.nodup_append.mp h.nodup).2.1
  by_cases hzero : (k.task t).stackOrigin = 0
  · refine ⟨k.setTask t { k.task t with stackBase := 0, stackOrigin := 0 }, ?_, ?_,
      Function.update_self _ _ _⟩
    · unfold releaseKernelStack
      rw [if_neg (not_not.mpr hzero)]
      rfl
    · refine beside_setTask F t k₀ k h _ (fun q hq => ?_) (hnew.symm ▸ hpages) h.stackRoom h.elfRoom
        h.bases (fun hc => absurd rfl hc)
      rw [hnew] at hq
      exact h.own q ((mem_heldPages k t q).mpr (Or.inr hq))
  · have hmem : ∀ q ∈ [k.mm.vaToPageId (k.task t).stackOrigin], q ∈ k.heldPages t := by
      intro q hq
      rw [mem_heldPages]
      exact Or.inl ⟨hzero, List.mem_singleton.mp hq⟩
    rcases beside_freeAll F t k₀ k h _ hmem with ⟨mm', hfree, hfreed⟩
    have hfree' : k.mm.freePages (k.task t).stackOrigin = some mm' := by
      rcases Mm.freeAll_cons _ _ _ _ hfree with ⟨mm₁, hone, hrest⟩
      rw [Mm.freeAll, List.foldlM_nil, Option.pure_def, Option.some.injEq] at hrest
      rw [← hrest, ← hone, h.origin hzero]
    refine ⟨_, releaseKernelStack_some k t mm' hzero hfree', ?_, Function.update_self _ _ _⟩
    refine beside_freed F t k₀ k h mm' _ { k.task t with stackBase := 0, stackOrigin := 0 } hfreed
      hmem (fun q hq => ?_) (hnew.symm ▸ hpages)
      (fun q hq => hq) (fun q hq => hq) (fun q hq => hq) (Or.inl rfl)
    rw [hnew] at hq
    refine ⟨(mem_heldPages k t q).mpr (Or.inr hq), fun hc => ?_⟩
    have hapart := (List.nodup_append.mp h.nodup).2.2
    rw [if_neg hzero] at hapart
    exact hapart q hc q hq rfl

/-- The memory of a task is released, whatever it has. -/
theorem releaseTaskMemory_beside : ∃ k', k.releaseTaskMemory t = some k' ∧ Beside F t k₀ k' := by
  unfold releaseTaskMemory
  by_cases huser : (k.task t).flag &&& processTypeUser ≠ 0
  · rcases beside_releaseTaskPages F t k₀ k h with ⟨k₁, hrun₁, h₁, _⟩
    rcases beside_releaseTaskPageTable F t k₀ k₁ h₁ with ⟨k₂, hrun₂, h₂, _⟩
    rcases beside_releaseKernelStack F t k₀ k₂ h₂ with ⟨k₃, hrun₃, h₃, _⟩
    refine ⟨k₃, ?_, h₃⟩
    simp only [if_pos huser, hrun₁, hrun₂, hrun₃, Option.bind_eq_bind, Option.bind_some]
  · rcases beside_releaseKernelStack F t k₀ k h with ⟨k₁, hrun₁, h₁, _⟩
    refine ⟨k₁, ?_, h₁⟩
    simp only [if_neg huser, hrun₁, Option.bind_eq_bind, Option.bind_some]

/-- The pointers to the current tables change. -/
theorem beside_curr (ms : MmStruct) (hpages : ms.pages = (k.task t).mm.pages)
    (hstack : ms.stackList = (k.task t).mm.stackList) (helf : ms.elfList = (k.task t).mm.elfList)
    (huser : ms.elfStackList ++ ms.elfImageList
      = (k.task t).mm.elfStackList ++ (k.task t).mm.elfImageList) :
    Beside F t k₀ (k.setTaskMm t ms) :=
  beside_lists F t k₀ k h ms [] (hpages ▸ List.Perm.refl _) (fun _ hp => absurd hp List.not_mem_nil)
    List.nodup_nil (hstack ▸ h.stackRoom) (helf ▸ h.elfRoom) (huser ▸ h.bases)

theorem beside_allocPageTable (ret : Int) (k' : Kernel)
    (hrun : k.allocPageTable t = some (ret, k')) : Beside F t k₀ k' := by
  unfold allocPageTable at hrun
  simp only [Option.pure_def, Option.bind_eq_bind, Option.bind_eq_some_iff, Prod.exists] at hrun
  rcases hrun with ⟨ok, k₁, hstack, hrun⟩
  have h₁ := whileOk_keeps _ (Beside F t k₀)
    (fun k ok k' hk hbody => beside_addStackTable F t k₀ k hk ok k' hbody) _ k ok k₁ h hstack
  cases ok with
  | false =>
      rcases beside_releaseTaskPageTable F t k₀ k₁ h₁ with ⟨k₂, hfree, h₂, _⟩
      simp only [Bool.not_false, if_true, hfree, Option.bind_some, Option.some.injEq,
        Prod.mk.injEq] at hrun
      exact hrun.2 ▸ h₂
  | true =>
  have hcurr := beside_curr F t k₀ k₁ h₁ { (k₁.task t).mm with
    stackCurr := (k₁.task t).mm.stackList.head? } rfl rfl rfl rfl
  rw [if_neg (by decide), Option.bind_eq_some_iff] at hrun
  rcases hrun with ⟨⟨ok, k₂⟩, helf, hrun⟩
  have h₂ := whileOk_keeps _ (Beside F t k₀)
    (fun k ok k' hk hbody => beside_addElfTable F t k₀ k hk ok k' hbody) _ _ ok k₂ hcurr helf
  cases ok with
  | false =>
      rcases beside_releaseTaskPageTable F t k₀ k₂ h₂ with ⟨k₃, hfree, h₃, _⟩
      simp only [Bool.not_false, if_true, hfree, Option.bind_some, Option.some.injEq,
        Prod.mk.injEq] at hrun
      exact hrun.2 ▸ h₃
  | true =>
      simp only [Bool.not_true, Bool.false_eq_true, if_false, Option.some.injEq,
        Prod.mk.injEq] at hrun
      rw [← hrun.2]
      exact beside_curr F t k₀ k₂ h₂ _ rfl rfl rfl rfl

theorem beside_allocMemoryAndMap (ret : Int) (k' : Kernel)
    (hrun : k.allocMemoryAndMap t = some (ret, k')) : Beside F t k₀ k' := by
  unfold allocMemoryAndMap at hrun
  by_cases hlow : k.mmFreePageNormal < pageNr processStackSize + pageNr processImageSize
  · simp only [if_pos hlow, Option.pure_def, Option.some.injEq, Prod.mk.injEq] at hrun
    exact hrun.2 ▸ h
  simp only [if_neg hlow, Option.pure_def, Option.bind_eq_bind, Option.bind_eq_some_iff,
    Prod.exists] at hrun
  rcases hrun with ⟨ok, k₁, hstack, hrun⟩
  have h₁ := whileOk_keeps _ (Beside F t k₀)
    (fun k ok k' hk hbody => beside_addPage F t k₀ k hk false ok k' hbody) _ k ok k₁ h hstack
  cases ok with
  | false =>
      rcases releaseTaskMemory_beside F t k₀ k₁ h₁ with ⟨k₂, hfree, h₂⟩
      simp only [Bool.not_false, if_true, hfree, Option.bind_some, Option.some.injEq,
        Prod.mk.injEq] at hrun
      exact hrun.2 ▸ h₂
  | true =>
  rw [if_neg (by decide), Option.bind_eq_some_iff] at hrun
  rcases hrun with ⟨⟨ok, k₂⟩, helf, hrun⟩
  have h₂ := whileOk_keeps _ (Beside F t k₀)
    (fun k ok k' hk hbody => beside_addPage F t k₀ k hk true ok k' hbody) _ k₁ ok k₂ h₁ helf
  cases ok with
  | false =>
      rcases releaseTaskMemory_beside F t k₀ k₂ h₂ with ⟨k₃, hfree, h₃⟩
      simp only [Bool.not_false, if_true, hfree, Option.bind_some, Option.some.injEq,
        Prod.mk.injEq] at hrun
      exact hrun.2 ▸ h₃
  | true =>
      simp only [Bool.not_true, Bool.false_eq_true, if_false, Option.some.injEq,
        Prod.mk.injEq] at hrun
      exact hrun.2 ▸ h₂

theorem beside_allocKernelStack (ret : Int) (k' : Kernel)
    (hnone : (k.task t).stackOrigin = 0) (hrun : k.allocKernelStack t = some (ret, k')) :
    Beside F t k₀ k' := by
  unfold allocKernelStack at hrun
  by_cases hbase : (k.task t).stackBase ≠ 0
  · rw [if_pos hbase] at hrun
    simp only [Option.pure_def, Option.some.injEq, Prod.mk.injEq] at hrun
    exact hrun.2 ▸ h
  rw [if_neg hbase] at hrun
  have hone : ((kernelStackSize / pageSize : Nat) : Int) = 1 := by decide
  rw [hone] at hrun
  simp only [Option.pure_def, Option.bind_eq_bind, Option.bind_eq_some_iff, Prod.exists] at hrun
  rcases hrun with ⟨addr, mm', hget, hrun⟩
  rw [Option.some.injEq, Prod.mk.injEq] at hrun
  rw [← hrun.2]
  have hheld : k.heldPages t = (k.task t).mm.pages := by
    rw [heldPages, hnone, if_pos rfl, List.nil_append]
  rcases Mm.getFreePages_single k.mm mm' gfpKernel addr h.plain (by decide) h.unlocked hget with
    ⟨hzero, rfl⟩ | ⟨q, hid, haddr, hgot, hsingle, hunlocked⟩
  · have hnew : (k.setTask t { k.task t with stackBase := addr, stackOrigin := addr }).heldPages t =
        k.heldPages t := by
      rw [heldPages_setTask, hheld]
      simp only [hzero, if_true, List.nil_append]
    exact beside_setTask F t k₀ k h _ (hnew.symm ▸ h.own) (hnew.symm ▸ h.nodup) h.stackRoom
      h.elfRoom h.bases (fun hc => absurd hzero hc)
  · have hkgot := beside_got F t k₀ k h mm' q hgot hunlocked
    rcases beside_fresh F t k₀ k h mm' q hgot hsingle with ⟨hown, hnot⟩
    have hold : (k.setMm mm').heldPages t = k.heldPages t :=
      heldPages_congr k (k.setMm mm') t hgot.bank rfl rfl
    have hnew : ((k.setMm mm').setTask t { (k.setMm mm').task t with
        stackBase := addr, stackOrigin := addr }).heldPages t =
        (if addr = 0 then [] else [q]) ++ k.heldPages t := by
      rw [heldPages_setTask, hheld]
      show (if addr = 0 then [] else [mm'.vaToPageId addr]) ++ _ = _
      rw [hid]
      rfl
    refine beside_setTask F t k₀ _ hkgot _ (fun p hp => ?_) ?_ hkgot.stackRoom hkgot.elfRoom
      hkgot.bases (fun _ => ?_)
    · rw [hnew] at hp
      rcases List.mem_append.mp hp with hp | hp
      · split_ifs at hp with hzero
        · exact absurd hp List.not_mem_nil
        · rw [List.mem_singleton.mp hp]
          exact hown
      · exact hkgot.own p (hold.symm ▸ hp)
    · rw [hnew]
      split_ifs with hzero
      · exact h.nodup
      · exact List.nodup_cons.mpr ⟨hnot, h.nodup⟩
    · show mm'.pageIdToVa (mm'.vaToPageId addr) = addr
      rw [hid, haddr, Mm.pageIdToVa_same k.mm mm' hgot.bank]

/-- The memory of a task is allocated, or not. -/
theorem allocMemoryForTask_beside (ret : Int) (k' : Kernel) (hnone : (k.task t).stackOrigin = 0)
    (hrun : k.allocMemoryForTask t = some (ret, k')) : Beside F t k₀ k' := by
  unfold allocMemoryForTask at hrun
  simp only [Option.pure_def, Option.bind_eq_bind, Option.bind_eq_some_iff, Prod.exists] at hrun
  rcases hrun with ⟨ret₁, k₁, hstack, hrun⟩
  have h₁ := beside_allocKernelStack F t k₀ k h ret₁ k₁ hnone hstack
  by_cases hret₁ : ret₁ ≠ 0
  · rw [if_pos hret₁, Option.some.injEq, Prod.mk.injEq] at hrun
    exact hrun.2 ▸ h₁
  rw [if_neg hret₁] at hrun
  by_cases huser : (k₁.task t).flag &&& processTypeUser ≠ 0
  swap
  · rw [if_neg huser, Option.some.injEq, Prod.mk.injEq] at hrun
    exact hrun.2 ▸ h₁
  rw [if_pos huser, Option.bind_eq_some_iff] at hrun
  rcases hrun with ⟨⟨ret₂, k₂⟩, htable, hrun⟩
  have h₂ := beside_allocPageTable F t k₀ k₁ h₁ ret₂ k₂ htable
  by_cases hret₂ : ret₂ ≠ 0
  · rcases beside_releaseKernelStack F t k₀ k₂ h₂ with ⟨k₃, hfree, h₃, _⟩
    simp only [if_pos hret₂, hfree, Option.bind_some, Option.some.injEq, Prod.mk.injEq] at hrun
    exact hrun.2 ▸ h₃
  rw [if_neg hret₂, Option.bind_eq_some_iff] at hrun
  rcases hrun with ⟨⟨ret₃, k₃⟩, hmap, hrun⟩
  have h₃ := beside_allocMemoryAndMap F t k₀ k₂ h₂ ret₃ k₃ hmap
  by_cases hret₃ : ret₃ ≠ 0
  · rcases beside_releaseKernelStack F t k₀ k₃ h₃ with ⟨k₄, hfree, h₄, _⟩
    simp only [if_pos hret₃, hfree, Option.bind_some, Option.some.injEq, Prod.mk.injEq] at hrun
    exact hrun.2 ▸ h₄
  · rw [if_neg hret₃, Option.some.injEq, Prod.mk.injEq] at hrun
    exact hrun.2 ▸ h₃

end Beside

end Kernel

end Mirros
