import Mirros.Theory.Spaces.Housed

/-!
# The Pages of a Task on the Books

What the creation and the release of a task do to the page map and to the counters of the
NORMAL zone, whatever the outcome. Since some state before, the pages a task has and some
further pages have been taken (`Mm.Drawn`), and every path through `alloc_memory_for_task`
and `release_task_memory` keeps that account: a page that is taken is one the task has, and a
page the task loses is given back.

There is one exception, and the account says which. When fewer than 260 pages are left for
the stack and the image, `alloc_memory_and_map` gives up without a release and
`alloc_memory_for_task` releases the kernel stack only. The two tables stay with a task that
is thrown away.

## Main definitions

* `Mm.NoZero`: No page has the address zero.
* `Mm.threePages`, `Mm.strands`: The stack and the tables are there, and the rest is not.
* `Booked`: The account of a task.

## Theorems

* `allocMemoryForTask_booked`, `releaseTaskMemory_booked`: The account is kept, and what a
  failed creation leaves behind.
* `created_booked`: The same for a task whose structure has just been set up.
-/

namespace Mirros

namespace Mm

/-- No page has the address zero, which stands for no page. -/
def NoZero (mm : Mm) : Prop :=
  ∀ q < 32 * mm.mapWords, mm.pageIdToVa q ≠ 0

theorem noZero_same (mm mm' : Mm) (h : SameBank mm mm') (hzero : NoZero mm) : NoZero mm' := by
  intro q hq
  rw [pageIdToVa_same mm mm' h]
  exact hzero q (h.words ▸ hq)

/-- A call that returns no page has taken none. -/
theorem getFreePages_none (mm mm' : Mm) (flag addr : Nat) (hplain : PlainMap mm)
    (hzero : NoZero mm) (hget : mm.getFreePages 1 flag = some (addr, mm')) (haddr : addr = 0) :
    mm' = mm := by
  rcases getFreePages_got mm mm' flag addr hplain.words hget with hnone | ⟨q, hq, hgot⟩
  · exact hnone.2
  · exact absurd (hq.symm.trans haddr) (hzero q hgot.bound)

/-- The kernel stack and the two tables of a new task are taken. -/
def threePages (mm : Mm) : Option Mm := do
  let (stack, mm) ← mm.getFreePages 1 gfpKernel
  let (stackTable, mm) ← mm.getFreePage gfpPgt
  let (elfTable, mm) ← mm.getFreePage gfpPgt
  if stack = 0 ∨ stackTable = 0 ∨ elfTable = 0 then none else some mm

/-- They are there, and fewer pages are left than the stack and the image need. -/
def strands (mm : Mm) : Bool :=
  mm.threePages.any (fun mm => (mm.zone .normal).freePages < pageNr processStackSize
    + pageNr processImageSize)

/-- A call that returns a page takes one from the counter. -/
theorem getFreePages_counter (mm mm' : Mm) (flag addr : Nat)
    (hflag : zoneOfId (zoneIdOfFlag flag) = some .normal)
    (hget : mm.getFreePages 1 flag = some (addr, mm')) (haddr : addr ≠ 0) :
    (mm'.zone .normal).freePages = sub32 (mm.zone .normal).freePages 1 := by
  rcases getFreePages_cases mm mm' 1 flag addr hget with
    ⟨hzero, -⟩ | ⟨z, index, hz, -, -, -, -, htook⟩
  · exact absurd hzero haddr
  rw [hflag, Option.some.injEq] at hz
  subst hz
  rw [htook.zones, Function.update_self]
  rfl

/-- The three calls as `alloc_memory_for_task` makes them: it enters something into the page
    table between the second and the third. -/
theorem threePages_eq (mm mm₁ mm₂ mm₃ : Mm) (stack table elf q : Nat) (page : Page)
    (h₀ : mm.getFreePages 1 gfpKernel = some (stack, mm₁))
    (h₁ : mm₁.getFreePage gfpPgt = some (table, mm₂))
    (h₂ : (mm₂.setPage q page).getFreePage gfpPgt = some (elf, mm₃)) :
    (stack = 0 ∨ table = 0 ∨ elf = 0) ∧ mm.threePages = none ∨
      stack ≠ 0 ∧ table ≠ 0 ∧ elf ≠ 0 ∧ ∃ mm₄, mm.threePages = some mm₄ ∧
        (mm₄.zone .normal).freePages = (mm₃.zone .normal).freePages := by
  have hfst := getFreePages_setPage mm₂ q page 1 gfpPgt
  have h₂' : (mm₂.setPage q page).getFreePages 1 gfpPgt = some (elf, mm₃) := h₂
  rw [h₂', Option.map_some] at hfst
  rcases Option.map_eq_some_iff.1 hfst.symm with ⟨⟨a, mm₄⟩, hget, ha⟩
  have ha' : a = elf := ha
  subst ha'
  have hget' : mm₂.getFreePage gfpPgt = some (a, mm₄) := hget
  have hthree : mm.threePages = if stack = 0 ∨ table = 0 ∨ a = 0 then none else some mm₄ := by
    unfold threePages
    rw [h₀]
    simp only [Option.bind_eq_bind, Option.bind_some, h₁, hget']
  rw [hthree]
  by_cases hany : stack = 0 ∨ table = 0 ∨ a = 0
  · rw [if_pos hany]
    exact Or.inl ⟨hany, rfl⟩
  · rw [if_neg hany]
    have hne : stack ≠ 0 ∧ table ≠ 0 ∧ a ≠ 0 := by tauto
    refine Or.inr ⟨hne.1, hne.2.1, hne.2.2, mm₄, rfl, ?_⟩
    rw [getFreePages_counter mm₂ mm₄ gfpPgt a (by decide) hget hne.2.2,
      getFreePages_counter _ mm₃ gfpPgt a (by decide) h₂' hne.2.2]
    rfl

/-- All three calls return a page. -/
theorem threePages_some (mm mm₃ : Mm) (h : mm.threePages = some mm₃) :
    ∃ stack mm₁ table mm₂, mm.getFreePages 1 gfpKernel = some (stack, mm₁) ∧
      mm₁.getFreePage gfpPgt = some (table, mm₂) ∧ stack ≠ 0 ∧ table ≠ 0 := by
  unfold threePages at h
  simp only [Option.bind_eq_bind, Option.bind_eq_some_iff, Prod.exists] at h
  rcases h with ⟨stack, mm₁, h₀, table, mm₂, h₁, elf, mm₄, -, hrest⟩
  refine ⟨stack, mm₁, table, mm₂, h₀, h₁, fun hc => ?_, fun hc => ?_⟩
  · rw [if_pos (Or.inl hc)] at hrest
    exact absurd hrest (by simp only [reduceCtorEq, not_false_eq_true])
  · rw [if_pos (Or.inr (Or.inl hc))] at hrest
    exact absurd hrest (by simp only [reduceCtorEq, not_false_eq_true])

theorem strands_none (mm : Mm) (h : mm.threePages = none) : mm.strands = false := by
  unfold strands
  rw [h]
  rfl

theorem strands_some (mm mm₃ : Mm) (h : mm.threePages = some mm₃) :
    mm.strands = decide ((mm₃.zone .normal).freePages < pageNr processStackSize
      + pageNr processImageSize) := by
  unfold strands
  rw [h]
  rfl

/-- Two states with pages taken since the same state have the same bank. -/
theorem drawn_bank (mm mm₁ mm₂ : Mm) (ps qs : List Nat) (h : Drawn mm mm₁ ps)
    (h' : Drawn mm mm₂ qs) : SameBank mm₁ mm₂ :=
  ⟨h'.bank.start.trans h.bank.start.symm, h'.bank.words.trans h.bank.words.symm,
    h'.bank.sections.trans h.bank.sections.symm⟩

end Mm

namespace Kernel

/-- Since the state `mm₀` the pages of task `t` have been taken, and those of `L`. -/
def Booked (mm₀ : Mm) (L : List Nat) (t : Nat) (k : Kernel) : Prop :=
  Mm.Drawn mm₀ k.mm (k.heldPages t ++ L)

/-- A loop of one turn is its body. -/
theorem whileOk_single (body : Kernel → Option (Bool × Kernel)) (k k' : Kernel) (ok : Bool)
    (h : whileOk body 1 k = some (ok, k')) : body k = some (ok, k') := by
  simp only [whileOk, Option.pure_def, Option.bind_eq_bind, Option.bind_eq_some_iff,
    Prod.exists] at h
  rcases h with ⟨ok₁, k₁, hbody, h⟩
  cases ok₁ with
  | false =>
      rw [if_neg (by decide)] at h
      rw [hbody, h]
  | true =>
      rw [if_pos rfl] at h
      rw [hbody, h]

section Booked

variable (mm₀ : Mm) (L : List Nat) (t : Nat) (hplain₀ : Mm.PlainMap mm₀) (hzero₀ : Mm.NoZero mm₀)

/-- Some pages are taken and go to the task. -/
theorem booked_lists (k k' : Kernel) (ps : List Nat) (hbank : Mm.SameBank k.mm k'.mm)
    (hdrawn : Mm.Drawn mm₀ k'.mm (ps ++ (k.heldPages t ++ L)))
    (horigin : (k'.task t).stackOrigin = (k.task t).stackOrigin)
    (hpages : (k'.task t).mm.pages.Perm (ps ++ (k.task t).mm.pages)) : Booked mm₀ L t k' := by
  refine Mm.drawn_perm mm₀ k'.mm _ hdrawn _ (List.perm_iff_count.mpr (fun a => ?_))
  have hcount := hpages.count_eq a
  unfold heldPages
  rw [horigin, Mm.vaToPageId_same k.mm k'.mm hbank]
  simp only [List.count_append] at hcount ⊢
  omega

variable (k : Kernel) (h : Booked mm₀ L t k)
include h

/-- Some pages of the task are given back, and it has the others. -/
theorem booked_freeAll (hplain₀ : Mm.PlainMap mm₀) (ps rest : List Nat) (p : Process)
    (hperm : (k.heldPages t).Perm (ps ++ rest))
    (hrest : ((k.setTask t p).heldPages t).Perm rest) :
    ∃ mm', k.mm.freeAll ps = some mm' ∧ Booked mm₀ L t ((k.setMm mm').setTask t p) := by
  have hdrawn : Mm.Drawn mm₀ k.mm (ps ++ (rest ++ L)) := by
    refine Mm.drawn_perm mm₀ k.mm _ h _ ?_
    rw [← List.append_assoc]
    exact hperm.symm.append_right L
  rcases Mm.drawn_freeAll mm₀ hplain₀ (rest ++ L) ps k.mm hdrawn with ⟨mm', hfree, hdrawn'⟩
  have hbank : Mm.SameBank k.mm mm' := Mm.drawn_bank mm₀ k.mm mm' _ _ h hdrawn'
  have hheld : ((k.setMm mm').setTask t p).heldPages t = (k.setTask t p).heldPages t :=
    heldPages_congr (k.setTask t p) _ t hbank rfl rfl
  refine ⟨mm', hfree, Mm.drawn_perm mm₀ mm' _ hdrawn' _ ?_⟩
  rw [hheld]
  exact hrest.append_right L

include hplain₀

theorem booked_releaseTaskPages : ∃ k', k.releaseTaskPages t = some k' ∧ Booked mm₀ L t k' ∧
    k'.task t = { k.task t with mm :=
      { (k.task t).mm with elfStackList := [], elfImageList := [] } } := by
  rcases booked_freeAll mm₀ L t k h hplain₀
    ((k.task t).mm.elfStackList ++ (k.task t).mm.elfImageList)
    ((if (k.task t).stackOrigin = 0 then [] else [k.mm.vaToPageId (k.task t).stackOrigin])
      ++ ((k.task t).mm.stackList ++ (k.task t).mm.elfList))
    { k.task t with mm := { (k.task t).mm with elfStackList := [], elfImageList := [] } }
    (List.perm_iff_count.mpr (fun a => by
      simp only [heldPages, MmStruct.pages, List.count_append]
      omega)) (by rw [heldPages_setTask]; exact List.Perm.refl _) with ⟨mm', hfree, hbooked⟩
  rcases Mm.freeAll_append _ _ _ _ hfree with ⟨mm₁, hfirst, hsecond⟩
  exact ⟨_, releaseTaskPages_some k t mm₁ mm' hfirst hsecond, hbooked, Function.update_self _ _ _⟩

theorem booked_releaseTaskPageTable : ∃ k', k.releaseTaskPageTable t = some k' ∧
    Booked mm₀ L t k' ∧ k'.task t = { k.task t with mm :=
      { (k.task t).mm with stackList := [], elfList := [] } } := by
  rcases booked_freeAll mm₀ L t k h hplain₀
    ((k.task t).mm.stackList ++ (k.task t).mm.elfList)
    ((if (k.task t).stackOrigin = 0 then [] else [k.mm.vaToPageId (k.task t).stackOrigin])
      ++ ((k.task t).mm.elfStackList ++ (k.task t).mm.elfImageList))
    { k.task t with mm := { (k.task t).mm with stackList := [], elfList := [] } }
    (List.perm_iff_count.mpr (fun a => by
      simp only [heldPages, MmStruct.pages, List.count_append]
      omega)) (by
      rw [heldPages_setTask, MmStruct.pages]
      simp only [List.append_nil]
      exact List.Perm.refl _) with ⟨mm', hfree, hbooked⟩
  rcases Mm.freeAll_append _ _ _ _ hfree with ⟨mm₁, hfirst, hsecond⟩
  exact ⟨_, releaseTaskPageTable_some k t mm₁ mm' hfirst hsecond, hbooked,
    Function.update_self _ _ _⟩

theorem booked_releaseKernelStack (horigin : (k.task t).stackOrigin ≠ 0 →
    k.mm.pageIdToVa (k.mm.vaToPageId (k.task t).stackOrigin) = (k.task t).stackOrigin) :
    ∃ k', k.releaseKernelStack t = some k' ∧ Booked mm₀ L t k' ∧
      k'.task t = { k.task t with stackBase := 0, stackOrigin := 0 } := by
  have hnew : (k.setTask t { k.task t with stackBase := 0, stackOrigin := 0 }).heldPages t =
      (k.task t).mm.pages := by
    rw [heldPages_setTask]
    rfl
  by_cases hnone : (k.task t).stackOrigin = 0
  · refine ⟨k.setTask t { k.task t with stackBase := 0, stackOrigin := 0 }, ?_, ?_,
      Function.update_self _ _ _⟩
    · unfold releaseKernelStack
      rw [if_neg (not_not.mpr hnone)]
      rfl
    · have hold : k.heldPages t = (k.task t).mm.pages := by
        rw [heldPages, if_pos hnone, List.nil_append]
      unfold Booked at h ⊢
      rw [hnew]
      exact hold ▸ h
  · rcases booked_freeAll mm₀ L t k h hplain₀ [k.mm.vaToPageId (k.task t).stackOrigin]
      (k.task t).mm.pages { k.task t with stackBase := 0, stackOrigin := 0 }
      (by rw [heldPages, if_neg hnone]) (hnew ▸ List.Perm.refl _) with ⟨mm', hfree, hbooked⟩
    have hfree' : k.mm.freePages (k.task t).stackOrigin = some mm' := by
      rcases Mm.freeAll_cons _ _ _ _ hfree with ⟨mm₁, hone, hrest⟩
      rw [Mm.freeAll, List.foldlM_nil, Option.pure_def, Option.some.injEq] at hrest
      rw [← hrest, ← hone, horigin hnone]
    exact ⟨_, releaseKernelStack_some k t mm' hnone hfree', hbooked, Function.update_self _ _ _⟩

/-- Everything a user task has is given back. -/
theorem releaseTaskMemory_booked (huser : (k.task t).flag &&& processTypeUser ≠ 0)
    (horigin : (k.task t).stackOrigin ≠ 0 →
      k.mm.pageIdToVa (k.mm.vaToPageId (k.task t).stackOrigin) = (k.task t).stackOrigin) :
    ∃ k', k.releaseTaskMemory t = some k' ∧ Mm.Drawn mm₀ k'.mm L ∧ k'.heldPages t = [] ∧
      (k'.task t).stackOrigin = 0 ∧ (k'.task t).mm.pages = [] := by
  rcases booked_releaseTaskPages mm₀ L t hplain₀ k h with ⟨k₁, hrun₁, h₁, htask₁⟩
  rcases booked_releaseTaskPageTable mm₀ L t hplain₀ k₁ h₁ with ⟨k₂, hrun₂, h₂, htask₂⟩
  have hbank₂ : Mm.SameBank k.mm k₂.mm := Mm.drawn_bank mm₀ k.mm k₂.mm _ _ h h₂
  rcases booked_releaseKernelStack mm₀ L t hplain₀ k₂ h₂ (by
    rw [htask₂, htask₁, Mm.pageIdToVa_same k.mm k₂.mm hbank₂, Mm.vaToPageId_same k.mm k₂.mm hbank₂]
    exact horigin) with ⟨k₃, hrun₃, h₃, htask₃⟩
  have hpages : (k₃.task t).mm.pages = [] := by
    rw [htask₃, htask₂, htask₁]
    rfl
  have hnone : (k₃.task t).stackOrigin = 0 := by rw [htask₃]
  have hheld : k₃.heldPages t = [] := by rw [heldPages, if_pos hnone, hpages, List.nil_append]
  refine ⟨k₃, ?_, ?_, hheld, hnone, hpages⟩
  · unfold releaseTaskMemory
    simp only [if_pos huser, hrun₁, hrun₂, hrun₃, Option.bind_eq_bind, Option.bind_some]
  · unfold Booked at h₃
    rw [hheld, List.nil_append] at h₃
    exact h₃

include hzero₀

theorem booked_addStackTable (ok : Bool) (k' : Kernel) (hrun : k.addStackTable t = some (ok, k')) :
    Booked mm₀ L t k' ∧ ∃ addr mm', k.mm.getFreePage gfpPgt = some (addr, mm') ∧
      ((ok = false ∧ addr = 0 ∧ k' = k) ∨
        (ok = true ∧ addr ≠ 0 ∧ ∃ q page, k'.mm = mm'.setPage q page ∧
          k'.task t = { k.task t with mm :=
            { (k.task t).mm with stackList := (k.task t).mm.stackList ++ [q] } })) := by
  have hplain := Mm.plainMap_same mm₀ k.mm h.bank hplain₀
  unfold addStackTable at hrun
  simp only [Option.pure_def, Option.bind_eq_bind, Option.bind_eq_some_iff, Prod.exists] at hrun
  rcases hrun with ⟨addr, mm', hget, hrun⟩
  by_cases haddr : addr = 0
  · have hmm := Mm.getFreePages_none k.mm mm' gfpPgt addr hplain
      (Mm.noZero_same mm₀ k.mm h.bank hzero₀) hget haddr
    subst hmm
    rw [if_pos haddr, Option.some.injEq, Prod.mk.injEq] at hrun
    have hk' : k' = k := hrun.2.symm
    exact ⟨hk'.symm ▸ h, addr, k.mm, hget, Or.inl ⟨hrun.1.symm, haddr, hk'⟩⟩
  rw [if_neg haddr, Option.some.injEq, Prod.mk.injEq] at hrun
  rcases Mm.drawn_get mm₀ k.mm _ h hplain₀ mm' gfpPgt addr (by decide) hget haddr with
    ⟨r, -, hid, hdrawn⟩
  have hset := Mm.drawn_setPage mm₀ mm' _ hdrawn r { mm'.pageTable r with
    freeBase := add32 (mm'.pageTable r).freeBase (pageSize - 4) } rfl rfl
  rw [hid] at hrun
  have hself : k'.task t = { k.task t with mm :=
      { (k.task t).mm with stackList := (k.task t).mm.stackList ++ [r] } } := by
    rw [← hrun.2]
    exact Function.update_self _ _ _
  refine ⟨?_, addr, mm', hget, Or.inr ⟨hrun.1.symm, haddr, r, _, by rw [← hrun.2]; rfl, hself⟩⟩
  refine booked_lists mm₀ L t k k' [r] ?_ (by rw [← hrun.2]; exact hset) (by rw [hself]) ?_
  · rw [← hrun.2]
    exact Mm.drawn_bank mm₀ k.mm _ _ _ h hset
  · rw [hself]
    refine List.perm_iff_count.mpr (fun a => ?_)
    simp only [MmStruct.pages, List.count_append]
    omega

theorem booked_addElfTable (ok : Bool) (k' : Kernel) (hrun : k.addElfTable t = some (ok, k')) :
    Booked mm₀ L t k' ∧ ∃ addr mm', k.mm.getFreePage gfpPgt = some (addr, mm') ∧
      ((ok = false ∧ addr = 0 ∧ k' = k) ∨
        (ok = true ∧ addr ≠ 0 ∧ k'.mm = mm' ∧ ∃ q,
          k'.task t = { k.task t with mm :=
            { (k.task t).mm with elfList := (k.task t).mm.elfList ++ [q] } })) := by
  have hplain := Mm.plainMap_same mm₀ k.mm h.bank hplain₀
  unfold addElfTable at hrun
  simp only [Option.pure_def, Option.bind_eq_bind, Option.bind_eq_some_iff, Prod.exists] at hrun
  rcases hrun with ⟨addr, mm', hget, hrun⟩
  by_cases haddr : addr = 0
  · have hmm := Mm.getFreePages_none k.mm mm' gfpPgt addr hplain
      (Mm.noZero_same mm₀ k.mm h.bank hzero₀) hget haddr
    subst hmm
    rw [if_pos haddr, Option.some.injEq, Prod.mk.injEq] at hrun
    have hk' : k' = k := hrun.2.symm
    exact ⟨hk'.symm ▸ h, addr, k.mm, hget, Or.inl ⟨hrun.1.symm, haddr, hk'⟩⟩
  rw [if_neg haddr, Option.some.injEq, Prod.mk.injEq] at hrun
  rcases Mm.drawn_get mm₀ k.mm _ h hplain₀ mm' gfpPgt addr (by decide) hget haddr with
    ⟨r, -, hid, hdrawn⟩
  rw [hid] at hrun
  have hself : k'.task t = { k.task t with mm :=
      { (k.task t).mm with elfList := (k.task t).mm.elfList ++ [r] } } := by
    rw [← hrun.2]
    exact Function.update_self _ _ _
  refine ⟨?_, addr, mm', hget, Or.inr ⟨hrun.1.symm, haddr, by rw [← hrun.2]; rfl, r, hself⟩⟩
  refine booked_lists mm₀ L t k k' [r] ?_ (by rw [← hrun.2]; exact hdrawn) (by rw [hself]) ?_
  · rw [← hrun.2]
    exact Mm.drawn_bank mm₀ k.mm _ _ _ h hdrawn
  · rw [hself]
    refine List.perm_iff_count.mpr (fun a => ?_)
    simp only [MmStruct.pages, List.count_append]
    omega

/-- One more page of the stack or of the image, or none. -/
theorem booked_addPage (elf ok : Bool) (k' : Kernel) (hrun : addPage t elf k = some (ok, k')) :
    Booked mm₀ L t k' ∧ (k'.task t).flag = (k.task t).flag ∧
      (k'.task t).stackOrigin = (k.task t).stackOrigin := by
  have hplain := Mm.plainMap_same mm₀ k.mm h.bank hplain₀
  unfold addPage at hrun
  simp only [Option.pure_def, Option.bind_eq_bind, Option.bind_eq_some_iff, Prod.exists] at hrun
  rcases hrun with ⟨addr, mm', hget, hrun⟩
  by_cases haddr : addr = 0
  · have hmm := Mm.getFreePages_none k.mm mm' gfpKernel addr hplain
      (Mm.noZero_same mm₀ k.mm h.bank hzero₀) hget haddr
    subst hmm
    rw [if_pos haddr, Option.some.injEq, Prod.mk.injEq] at hrun
    have hk' : k' = k := hrun.2.symm
    exact ⟨hk'.symm ▸ h, hk'.symm ▸ rfl, hk'.symm ▸ rfl⟩
  rw [if_neg haddr, Option.bind_eq_some_iff] at hrun
  rcases hrun with ⟨k₁, hmap, hrun⟩
  rcases Mm.drawn_get mm₀ k.mm _ h hplain₀ mm' gfpKernel addr (by decide) hget haddr with
    ⟨r, -, hid, hdrawn⟩
  rcases taskMapMemory_keeps _ k₁ addr t elf hmap with ⟨table, page, hmm, hflag, hcount, htask⟩
  have hset : Mm.Drawn mm₀ k₁.mm (r :: (k.heldPages t ++ L)) := by
    rw [hmm]
    exact Mm.drawn_setPage mm₀ mm' _ hdrawn table page hflag hcount
  have hid' : k₁.mm.vaToPageId addr = r := by
    rw [hmm, ← hid]
    rfl
  have hold : k₁.task t = k.task t := by
    rw [htask]
    rfl
  rw [Option.some.injEq, Prod.mk.injEq, hid', hold] at hrun
  have hself : k'.task t = { k.task t with mm := enterPage (k.task t).mm elf r } := by
    rw [← hrun.2]
    show Function.update k₁.task t _ t = _
    rw [Function.update_self, hold]
    rfl
  refine ⟨booked_lists mm₀ L t k k' [r] ?_ (by rw [← hrun.2]; exact hset) (by rw [hself]) ?_,
    by rw [hself], by rw [hself]⟩
  · rw [← hrun.2]
    exact Mm.drawn_bank mm₀ k.mm _ _ _ h hset
  · rw [hself]
    refine List.perm_iff_count.mpr (fun a => ?_)
    unfold enterPage
    cases elf
    · simp only [Bool.false_eq_true, if_false, MmStruct.pages, List.count_append]
      omega
    · simp only [if_true, MmStruct.pages, List.count_append]
      omega

/-- The two tables are made, or the task has none afterwards. -/
theorem booked_allocPageTable (ret : Int) (k' : Kernel) (hempty : EmptyMm (k.task t).mm)
    (hrun : k.allocPageTable t = some (ret, k')) :
    Booked mm₀ L t k' ∧ (k'.task t).flag = (k.task t).flag ∧
      (k'.task t).stackOrigin = (k.task t).stackOrigin ∧
      ∃ addr mm₁, k.mm.getFreePage gfpPgt = some (addr, mm₁) ∧
        ((addr = 0 ∧ ret ≠ 0 ∧ (k'.task t).mm.pages = []) ∨
          (addr ≠ 0 ∧ ∃ q page addr' mm₂, (mm₁.setPage q page).getFreePage gfpPgt
              = some (addr', mm₂) ∧
            ((addr' = 0 ∧ ret ≠ 0 ∧ (k'.task t).mm.pages = []) ∨
              (addr' ≠ 0 ∧ ret = 0 ∧ k'.mm = mm₂ ∧ (k'.task t).mm.pages.length = 2)))) := by
  have hone : (processStackSize + size1M - 1) / size1M = 1 := by decide
  have hone' : (processImageSize + size1M - 1) / size1M = 1 := by decide
  rcases hempty with ⟨hstackList, helfList, hstack, himage⟩
  unfold allocPageTable at hrun
  rw [hone, hone'] at hrun
  simp only [Option.pure_def, Option.bind_eq_bind, Option.bind_eq_some_iff, Prod.exists] at hrun
  rcases hrun with ⟨ok, k₁, hfirst, hrun⟩
  rcases booked_addStackTable mm₀ L t hplain₀ hzero₀ k h ok k₁ (whileOk_single _ _ _ _ hfirst) with
    ⟨h₁, addr, mm₁, hget, ⟨rfl, haddr, rfl⟩ | ⟨rfl, haddr, q, page, hmm₁, htask₁⟩⟩
  · -- There is no first table.
    rcases booked_releaseTaskPageTable mm₀ L t hplain₀ k₁ h₁ with ⟨k₂, hfree, h₂, htask₂⟩
    simp only [Bool.not_false, if_true, hfree, Option.bind_some, Option.some.injEq,
      Prod.mk.injEq] at hrun
    rw [← hrun.2]
    refine ⟨h₂, by rw [htask₂], by rw [htask₂], addr, mm₁, hget, Or.inl ⟨haddr, ?_, ?_⟩⟩
    · rw [← hrun.1]
      decide
    · rw [htask₂, MmStruct.pages, hstack, himage]
      rfl
  rw [if_neg (by decide), Option.bind_eq_some_iff] at hrun
  rcases hrun with ⟨⟨ok, k₂⟩, hsecond, hrun⟩
  obtain ⟨kc, hkc⟩ : ∃ kc, kc = k₁.setTaskMm t { (k₁.task t).mm with
    stackCurr := (k₁.task t).mm.stackList.head? } := ⟨_, rfl⟩
  have htaskc : kc.task t = { k₁.task t with mm := { (k₁.task t).mm with
      stackCurr := (k₁.task t).mm.stackList.head? } } := by
    rw [hkc]
    exact Function.update_self _ _ _
  have hmmc : kc.mm = mm₁.setPage q page := by
    rw [hkc]
    exact hmm₁
  have hc : Booked mm₀ L t kc := by
    refine booked_lists mm₀ L t k₁ kc [] ?_ ?_ (by rw [htaskc])
      (by rw [htaskc]; exact List.Perm.refl _)
    · rw [hkc]
      exact Mm.SameBank.refl _
    · rw [hkc]
      exact h₁
  rw [← hkc] at hsecond
  rcases booked_addElfTable mm₀ L t hplain₀ hzero₀ kc hc ok k₂ (whileOk_single _ _ _ _ hsecond) with
    ⟨h₂, addr', mm₂, hget', ⟨rfl, haddr', rfl⟩ | ⟨rfl, haddr', hmm₂, q', htask₂⟩⟩
  · -- There is no second table, and the first is given back.
    rcases booked_releaseTaskPageTable mm₀ L t hplain₀ k₂ h₂ with ⟨k₃, hfree, h₃, htask₃⟩
    simp only [Bool.not_false, if_true, hfree, Option.bind_some, Option.some.injEq,
      Prod.mk.injEq] at hrun
    rw [← hrun.2]
    refine ⟨h₃, by rw [htask₃, htaskc, htask₁], by rw [htask₃, htaskc, htask₁], addr, mm₁, hget,
      Or.inr ⟨haddr, q, page, addr', mm₂, hmmc ▸ hget', Or.inl ⟨haddr', ?_, ?_⟩⟩⟩
    · rw [← hrun.1]
      decide
    · rw [htask₃, htaskc, htask₁, MmStruct.pages]
      simp only [hstack, himage, List.append_nil]
  · simp only [Bool.not_true, Bool.false_eq_true, if_false, Option.some.injEq,
      Prod.mk.injEq] at hrun
    have hself : k'.task t = { k₂.task t with mm :=
        { (k₂.task t).mm with elfCurr := (k₂.task t).mm.elfList.head? } } := by
      rw [← hrun.2]
      exact Function.update_self _ _ _
    have hmm' : k'.mm = mm₂ := by
      rw [← hrun.2]
      exact hmm₂
    refine ⟨?_, by rw [hself, htask₂, htaskc, htask₁], by rw [hself, htask₂, htaskc, htask₁], addr,
      mm₁, hget, Or.inr ⟨haddr, q, page, addr', mm₂, hmmc ▸ hget', Or.inr ⟨haddr', hrun.1.symm,
        hmm', ?_⟩⟩⟩
    · refine booked_lists mm₀ L t k₂ k' [] ?_ ?_ (by rw [hself])
        (by rw [hself]; exact List.Perm.refl _)
      · rw [hmm', hmm₂]
        exact Mm.SameBank.refl _
      · rw [hmm', ← hmm₂]
        exact h₂
    · rw [hself, htask₂, htaskc, htask₁, MmStruct.pages]
      simp only [hstackList, helfList, hstack, himage, List.nil_append, List.length_append,
        List.length_singleton]

/-- With fewer than 260 pages left nothing happens, and nothing is given back. Otherwise the
    pages are there, or everything the task has is given back. -/
theorem booked_allocMemoryAndMap (ret : Int) (k' : Kernel)
    (huser : (k.task t).flag &&& processTypeUser ≠ 0)
    (horigin : k.mm.pageIdToVa (k.mm.vaToPageId (k.task t).stackOrigin) = (k.task t).stackOrigin)
    (hrun : k.allocMemoryAndMap t = some (ret, k')) :
    (k.mmFreePageNormal < pageNr processStackSize + pageNr processImageSize ∧ ret ≠ 0 ∧ k' = k) ∨
      (¬k.mmFreePageNormal < pageNr processStackSize + pageNr processImageSize ∧
        ((ret = 0 ∧ Booked mm₀ L t k') ∨
          (ret ≠ 0 ∧ Mm.Drawn mm₀ k'.mm L ∧ (k'.task t).stackOrigin = 0 ∧
            (k'.task t).mm.pages = []))) := by
  unfold allocMemoryAndMap at hrun
  by_cases hlow : k.mmFreePageNormal < pageNr processStackSize + pageNr processImageSize
  · simp only [if_pos hlow, Option.pure_def, Option.some.injEq, Prod.mk.injEq] at hrun
    refine Or.inl ⟨hlow, ?_, hrun.2.symm⟩
    rw [← hrun.1]
    decide
  refine Or.inr ⟨hlow, ?_⟩
  -- What the loops keep, however they end.
  obtain ⟨I, hI⟩ : ∃ I : Kernel → Prop, I = fun k₁ => Booked mm₀ L t k₁ ∧
    (k₁.task t).flag = (k.task t).flag ∧ (k₁.task t).stackOrigin = (k.task t).stackOrigin := ⟨_, rfl⟩
  have hstep : ∀ (elf : Bool) (k₁ : Kernel) (ok : Bool) (k₂ : Kernel), I k₁ →
      addPage t elf k₁ = some (ok, k₂) → I k₂ := by
    rw [hI]
    rintro elf k₁ ok k₂ ⟨h₁, hflag, hor⟩ hbody
    rcases booked_addPage mm₀ L t hplain₀ hzero₀ k₁ h₁ elf ok k₂ hbody with ⟨h₂, hflag', hor'⟩
    exact ⟨h₂, hflag'.trans hflag, hor'.trans hor⟩
  have hundo : ∀ k₁, I k₁ → ∃ k₂, k₁.releaseTaskMemory t = some k₂ ∧ Mm.Drawn mm₀ k₂.mm L ∧
      (k₂.task t).stackOrigin = 0 ∧ (k₂.task t).mm.pages = [] := by
    rw [hI]
    rintro k₁ ⟨h₁, hflag, hor⟩
    have hbank := Mm.drawn_bank mm₀ k.mm k₁.mm _ _ h h₁
    rcases releaseTaskMemory_booked mm₀ L t hplain₀ k₁ h₁ (hflag ▸ huser) (fun _ => by
      rw [Mm.pageIdToVa_same k.mm k₁.mm hbank, Mm.vaToPageId_same k.mm k₁.mm hbank, hor]
      exact horigin) with ⟨k₂, hfree, hdrawn, -, hnone, hpages⟩
    exact ⟨k₂, hfree, hdrawn, hnone, hpages⟩
  have hstart : I k := by
    rw [hI]
    exact ⟨h, rfl, rfl⟩
  simp only [if_neg hlow, Option.pure_def, Option.bind_eq_bind, Option.bind_eq_some_iff,
    Prod.exists] at hrun
  rcases hrun with ⟨ok, k₁, hstack, hrun⟩
  have h₁ := whileOk_keeps _ I (hstep false) _ k ok k₁ hstart hstack
  cases ok with
  | false =>
      rcases hundo k₁ h₁ with ⟨k₂, hfree, hdrawn, hnone, hpages⟩
      simp only [Bool.not_false, if_true, hfree, Option.bind_some, Option.some.injEq,
        Prod.mk.injEq] at hrun
      rw [← hrun.2]
      refine Or.inr ⟨?_, hdrawn, hnone, hpages⟩
      rw [← hrun.1]
      decide
  | true =>
  rw [if_neg (by decide), Option.bind_eq_some_iff] at hrun
  rcases hrun with ⟨⟨ok, k₂⟩, helf, hrun⟩
  have h₂ := whileOk_keeps _ I (hstep true) _ k₁ ok k₂ h₁ helf
  cases ok with
  | false =>
      rcases hundo k₂ h₂ with ⟨k₃, hfree, hdrawn, hnone, hpages⟩
      simp only [Bool.not_false, if_true, hfree, Option.bind_some, Option.some.injEq,
        Prod.mk.injEq] at hrun
      rw [← hrun.2]
      refine Or.inr ⟨?_, hdrawn, hnone, hpages⟩
      rw [← hrun.1]
      decide
  | true =>
      simp only [Bool.not_true, Bool.false_eq_true, if_false, Option.some.injEq,
        Prod.mk.injEq] at hrun
      rw [hI] at h₂
      exact Or.inl ⟨hrun.1.symm, hrun.2 ▸ h₂.1⟩

/-- The kernel stack is taken, or nothing is. -/
theorem booked_allocKernelStack (ret : Int) (k' : Kernel) (hbase : (k.task t).stackBase = 0)
    (hnone : (k.task t).stackOrigin = 0) (hrun : k.allocKernelStack t = some (ret, k')) :
    Booked mm₀ L t k' ∧ (k'.task t).flag = (k.task t).flag ∧ (k'.task t).mm = (k.task t).mm ∧
      ∃ addr mm₁, k.mm.getFreePages 1 gfpKernel = some (addr, mm₁) ∧ k'.mm = mm₁ ∧
        (ret = 0 ↔ addr ≠ 0) ∧ (k'.task t).stackOrigin = addr ∧
        (addr ≠ 0 → k'.mm.pageIdToVa (k'.mm.vaToPageId addr) = addr) := by
  have hplain := Mm.plainMap_same mm₀ k.mm h.bank hplain₀
  have hone : ((kernelStackSize / pageSize : Nat) : Int) = 1 := by decide
  have hheld : k.heldPages t = (k.task t).mm.pages := by
    rw [heldPages, if_pos hnone, List.nil_append]
  unfold allocKernelStack at hrun
  rw [if_neg (not_not.mpr hbase), hone] at hrun
  simp only [Option.pure_def, Option.bind_eq_bind, Option.bind_eq_some_iff, Prod.exists] at hrun
  rcases hrun with ⟨addr, mm₁, hget, hrun⟩
  rw [Option.some.injEq, Prod.mk.injEq] at hrun
  have hself : k'.task t = { k.task t with stackBase := addr, stackOrigin := addr } := by
    rw [← hrun.2]
    exact Function.update_self _ _ _
  have hmm : k'.mm = mm₁ := by
    rw [← hrun.2]
    rfl
  have hret : ret = 0 ↔ addr ≠ 0 := by
    rw [← hrun.1]
    by_cases haddr : addr = 0
    · rw [if_pos haddr]
      exact iff_of_false (by decide) (not_not.mpr haddr)
    · rw [if_neg haddr]
      exact iff_of_true rfl haddr
  by_cases haddr : addr = 0
  · have hsame := Mm.getFreePages_none k.mm mm₁ gfpKernel addr hplain
      (Mm.noZero_same mm₀ k.mm h.bank hzero₀) hget haddr
    refine ⟨?_, by rw [hself], by rw [hself], addr, mm₁, hget, hmm, hret, by rw [hself],
      fun hc => absurd haddr hc⟩
    refine booked_lists mm₀ L t k k' [] ?_ ?_ ?_ (by rw [hself]; exact List.Perm.refl _)
    · rw [hmm, hsame]
      exact Mm.SameBank.refl _
    · rw [hmm, hsame]
      exact h
    · rw [hself, hnone]
      exact haddr
  · rcases Mm.drawn_get mm₀ k.mm _ h hplain₀ mm₁ gfpKernel addr (by decide) hget haddr with
      ⟨r, hr, hid, hdrawn⟩
    refine ⟨?_, by rw [hself], by rw [hself], addr, mm₁, hget, hmm, hret, by rw [hself],
      fun _ => ?_⟩
    · unfold Booked
      rw [heldPages, hself, hmm]
      simp only [if_neg haddr, hid]
      rw [hheld] at hdrawn
      exact hdrawn
    · rw [hmm, hid, hr, Mm.pageIdToVa_same mm₀ mm₁ hdrawn.bank]

/-- Whatever comes of it, the account of a new task is kept, and a failed creation leaves two
    pages or none. -/
theorem allocMemoryForTask_booked (ret : Int) (k' : Kernel)
    (huser : (k.task t).flag &&& processTypeUser ≠ 0) (hempty : EmptyMm (k.task t).mm)
    (hbase : (k.task t).stackBase = 0) (hnone : (k.task t).stackOrigin = 0)
    (hrun : k.allocMemoryForTask t = some (ret, k')) :
    Booked mm₀ L t k' ∧
      (ret ≠ 0 → (k'.heldPages t).length = if k.mm.strands then 2 else 0) := by
  unfold allocMemoryForTask at hrun
  simp only [Option.pure_def, Option.bind_eq_bind, Option.bind_eq_some_iff, Prod.exists] at hrun
  rcases hrun with ⟨ret₁, k₁, hstack, hrun⟩
  rcases booked_allocKernelStack mm₀ L t hplain₀ hzero₀ k h ret₁ k₁ hbase hnone hstack with
    ⟨h₁, hflag₁, hms₁, addr, mm₁, hget, hmm₁, hret, horigin₁, hback⟩
  have hpages : (k.task t).mm.pages = [] := by
    rcases hempty with ⟨ha, hb, hc, hd⟩
    rw [MmStruct.pages, ha, hb, hc, hd]
    rfl
  by_cases hret₁ : ret₁ ≠ 0
  · -- There is no kernel stack.
    rw [if_pos hret₁, Option.some.injEq, Prod.mk.injEq] at hrun
    rw [← hrun.2]
    refine ⟨h₁, fun _ => ?_⟩
    have haddr : addr = 0 := by
      by_contra hc
      exact hret₁ (hret.mpr hc)
    have hthree : k.mm.threePages = none := by
      refine Option.eq_none_iff_forall_not_mem.mpr (fun mm₃ hmem => ?_)
      rcases Mm.threePages_some k.mm mm₃ hmem with ⟨stack, mm', -, -, hget', -, hne, -⟩
      rw [hget, Option.some.injEq, Prod.mk.injEq] at hget'
      exact hne (hget'.1.symm.trans haddr)
    rw [Mm.strands_none k.mm hthree, heldPages, horigin₁, if_pos haddr, hms₁, hpages]
    rfl
  have haddr : addr ≠ 0 := hret.mp (not_not.mp hret₁)
  rw [if_neg hret₁, if_pos (by rw [hflag₁]; exact huser), Option.bind_eq_some_iff] at hrun
  rcases hrun with ⟨⟨ret₂, k₂⟩, htable, hrun⟩
  rcases booked_allocPageTable mm₀ L t hplain₀ hzero₀ k₁ h₁ ret₂ k₂ (hms₁ ▸ hempty) htable with
    ⟨h₂, hflag₂, horigin₂, table, mm₂, hget₂, hcases⟩
  rw [hmm₁] at hget₂
  have hbank₂ := Mm.drawn_bank mm₀ k₁.mm k₂.mm _ _ h₁ h₂
  have hback₂ : k₂.mm.pageIdToVa (k₂.mm.vaToPageId (k₂.task t).stackOrigin)
      = (k₂.task t).stackOrigin := by
    rw [horigin₂, horigin₁, Mm.pageIdToVa_same k₁.mm k₂.mm hbank₂,
      Mm.vaToPageId_same k₁.mm k₂.mm hbank₂]
    exact hback haddr
  -- A failed table leaves nothing but the kernel stack.
  have hnotable : ret₂ ≠ 0 → (k₂.task t).mm.pages = [] → k.mm.threePages = none →
      Booked mm₀ L t k' ∧
        (ret ≠ 0 → (k'.heldPages t).length = if k.mm.strands then 2 else 0) := by
    intro hret₂ hnil hthree
    rcases booked_releaseKernelStack mm₀ L t hplain₀ k₂ h₂ (fun _ => hback₂) with
      ⟨k₃, hfree, h₃, htask₃⟩
    simp only [if_pos hret₂, hfree, Option.bind_some, Option.some.injEq, Prod.mk.injEq] at hrun
    rw [← hrun.2]
    refine ⟨h₃, fun _ => ?_⟩
    rw [Mm.strands_none k.mm hthree, heldPages, htask₃]
    show ([] ++ (k₂.task t).mm.pages).length = 0
    rw [hnil]
    rfl
  rcases hcases with ⟨hzero, hret₂, hnil⟩ | ⟨htablene, q, page, elf, mm₃, hget₃, hcases⟩
  · refine hnotable hret₂ hnil (Option.eq_none_iff_forall_not_mem.mpr (fun mm₃ hmem => ?_))
    rcases Mm.threePages_some k.mm mm₃ hmem with ⟨stack, mm', table', mm'', hget', hget'', -, hne⟩
    rw [hget, Option.some.injEq, Prod.mk.injEq] at hget'
    rw [← hget'.2, hget₂, Option.some.injEq, Prod.mk.injEq] at hget''
    exact hne (hget''.1.symm.trans hzero)
  have hthree := Mm.threePages_eq k.mm mm₁ mm₂ mm₃ addr table elf q page hget hget₂ hget₃
  rcases hcases with ⟨hzero, hret₂, hnil⟩ | ⟨helfne, hret₂, hmm₂, hlen⟩
  · rcases hthree with ⟨-, hthree⟩ | ⟨-, -, hne, -⟩
    · exact hnotable hret₂ hnil hthree
    · exact absurd hzero hne
  rcases hthree with ⟨hany, -⟩ | ⟨-, -, -, mm₄, hthree, hcount⟩
  · exact absurd hany (by tauto)
  have hstrands : k.mm.strands = decide (k₂.mmFreePageNormal < pageNr processStackSize
      + pageNr processImageSize) := by
    rw [Mm.strands_some k.mm mm₄ hthree, hcount, ← hmm₂]
    rfl
  rw [if_neg (not_not.mpr hret₂), Option.bind_eq_some_iff] at hrun
  rcases hrun with ⟨⟨ret₃, k₃⟩, hmap, hrun⟩
  have huser₂ : (k₂.task t).flag &&& processTypeUser ≠ 0 := by
    rw [hflag₂, hflag₁]
    exact huser
  rcases booked_allocMemoryAndMap mm₀ L t hplain₀ hzero₀ k₂ h₂ ret₃ k₃ huser₂ hback₂ hmap with
    ⟨hlow, hret₃, rfl⟩ | ⟨hlow, ⟨hret₃, h₃⟩ | ⟨hret₃, hdrawn₃, hnone₃, hnil₃⟩⟩
  · -- Too few pages are left: the tables stay.
    rcases booked_releaseKernelStack mm₀ L t hplain₀ k₃ h₂ (fun _ => hback₂) with
      ⟨k₄, hfree, h₄, htask₄⟩
    simp only [if_pos hret₃, hfree, Option.bind_some, Option.some.injEq, Prod.mk.injEq] at hrun
    rw [← hrun.2]
    refine ⟨h₄, fun _ => ?_⟩
    rw [hstrands, decide_eq_true hlow, heldPages, htask₄]
    show ([] ++ (k₃.task t).mm.pages).length = 2
    exact hlen
  · rw [if_neg (not_not.mpr hret₃), Option.some.injEq, Prod.mk.injEq] at hrun
    rw [← hrun.2]
    exact ⟨h₃, fun hc => absurd hrun.1.symm hc⟩
  · -- Everything was given back, and the stack is not given back twice.
    have hheld₃ : k₃.heldPages t = [] := by rw [heldPages, if_pos hnone₃, hnil₃, List.nil_append]
    have h₃ : Booked mm₀ L t k₃ := by
      unfold Booked
      rw [hheld₃]
      exact hdrawn₃
    rcases booked_releaseKernelStack mm₀ L t hplain₀ k₃ h₃ (fun hc => absurd hnone₃ hc) with
      ⟨k₄, hfree, h₄, htask₄⟩
    simp only [if_pos hret₃, hfree, Option.bind_some, Option.some.injEq, Prod.mk.injEq] at hrun
    rw [← hrun.2]
    refine ⟨h₄, fun _ => ?_⟩
    rw [hstrands, decide_eq_false hlow, heldPages, htask₄]
    show ([] ++ (k₃.task t).mm.pages).length = 0
    rw [hnil₃]
    rfl

end Booked

/-- The account of a task whose structure `init_task_struct` has set up. -/
theorem created_booked (mm₀ : Mm) (L : List Nat) (k k' : Kernel) (t userSp : Nat) (ret : Int)
    (hplain₀ : Mm.PlainMap mm₀) (hzero₀ : Mm.NoZero mm₀) (h : Mm.Drawn mm₀ k.mm L)
    (hbare : Bare k t) (hrun : (k.initMmStruct t userSp).allocMemoryForTask t = some (ret, k')) :
    Booked mm₀ L t k' ∧
      (ret ≠ 0 → (k'.heldPages t).length = if k.mm.strands then 2 else 0) := by
  have hself : (k.initMmStruct t userSp).task t = { k.task t with
      mm := emptyMm (k.task (k.task t).parent).mm.elfSize (sub32 processUserStackBase userSp) } := by
    unfold initMmStruct
    rw [if_pos hbare.kind.1]
    exact Function.update_self _ _ _
  have hmm : (k.initMmStruct t userSp).mm = k.mm := by
    unfold initMmStruct
    rw [if_pos hbare.kind.1]
    rfl
  set k₁ := k.initMmStruct t userSp with hk₁
  set k₂ := k₁.setTask t { k₁.task t with stackOrigin := 0 } with hk₂
  have hself₂ : k₂.task t = { k₁.task t with stackOrigin := 0 } := Function.update_self _ _ _
  have hrun₂ : k₂.allocMemoryForTask t = some (ret, k') := by
    rw [← hrun]
    unfold allocMemoryForTask
    rw [allocKernelStack_origin k₁ t (by rw [hself]; exact hbare.base)]
  have hheld : k₂.heldPages t = [] := by
    unfold heldPages
    rw [hself₂, hself]
    rfl
  have hmm₂ : k₂.mm = k.mm := hmm
  have hstart : Booked mm₀ L t k₂ := by
    unfold Booked
    rw [hheld, hmm₂]
    exact h
  rw [← hmm₂]
  refine allocMemoryForTask_booked mm₀ L t hplain₀ hzero₀ k₂ hstart ret k' ?_ ?_ ?_ ?_ hrun₂
  · rw [hself₂, hself]
    exact hbare.kind.1
  · rw [hself₂, hself]
    exact ⟨rfl, rfl, rfl, rfl⟩
  · rw [hself₂, hself]
    exact hbare.base
  · rw [hself₂]

end Kernel

end Mirros
