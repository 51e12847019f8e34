import Mirros.Theory.Task.Fork

/-!
# Allocation Does Not Read Memory

Whether a fork gets its task, and which pages it gets, does not depend on what
memory holds: the allocators keep their data in structures of their own, and the
words of the tables are only written.

## Main definitions

* `Kernel.setRam`: The same state with another content of memory.
* `Kernel.Blind`: A step that succeeds whatever memory holds.

## Theorems

* `forkNewTask_blind`: A fork gets the same task.
-/

namespace Mirros

namespace Kernel

/-- The same state with another content of memory. -/
def setRam (k : Kernel) (ram : Ram) : Kernel :=
  { k with ram := ram }

/-- A step that succeeds does so with every content of memory, and differs in
    memory only. -/
def Blind {α : Type} (ok : α) (f : Kernel → Option (α × Kernel)) : Prop :=
  ∀ k k' ram, f k = some (ok, k') → ∃ ram', f (k.setRam ram) = some (ok, k'.setRam ram')

theorem blind_whileOk (body : Kernel → Option (Bool × Kernel)) (h : Blind true body) (n : Nat) :
    Blind true (whileOk body n) := by
  induction n with
  | zero =>
      intro k k' ram hrun
      rw [whileOk, Option.some.injEq, Prod.mk.injEq] at hrun
      rw [← hrun.2]
      exact ⟨ram, rfl⟩
  | succ n ih =>
      intro k k' ram hrun
      simp only [whileOk, Option.pure_def, Option.bind_eq_bind, Option.bind_eq_some_iff,
        Prod.exists] at hrun
      rcases hrun with ⟨ok, k₁, hbody, hrun⟩
      cases ok with
      | false =>
          rw [if_neg (by decide), Option.some.injEq, Prod.mk.injEq] at hrun
          exact absurd hrun.1 (by decide)
      | true =>
          rw [if_pos rfl] at hrun
          -- The memory each turn leaves is the one the next turn starts from.
          rcases h k k₁ ram hbody with ⟨ram₁, hbody'⟩
          rcases ih k₁ k' ram₁ hrun with ⟨ram₂, hrun'⟩
          refine ⟨ram₂, ?_⟩
          rw [whileOk, hbody']
          exact hrun'

theorem blind_addStackTable (t : Nat) : Blind true (fun k => k.addStackTable t) := by
  intro k k' ram h
  simp only [addStackTable, Option.pure_def, Option.bind_eq_bind, Option.bind_eq_some_iff,
    Prod.exists] at h
  rcases h with ⟨addr, mm₁, hget, h⟩
  have hget' : (k.setRam ram).mm.getFreePage gfpPgt = some (addr, mm₁) := hget
  by_cases hzero : addr = 0
  · rw [if_pos hzero, Option.some.injEq, Prod.mk.injEq] at h
    exact absurd h.1 (by decide)
  · rw [if_neg hzero, Option.some.injEq, Prod.mk.injEq] at h
    refine ⟨ram, ?_⟩
    simp only [addStackTable, hget', Option.pure_def, Option.bind_eq_bind, Option.bind_some,
      if_neg hzero]
    rw [← h.2]
    rfl

theorem blind_addElfTable (t : Nat) : Blind true (fun k => k.addElfTable t) := by
  intro k k' ram h
  simp only [addElfTable, Option.pure_def, Option.bind_eq_bind, Option.bind_eq_some_iff,
    Prod.exists] at h
  rcases h with ⟨addr, mm₁, hget, h⟩
  have hget' : (k.setRam ram).mm.getFreePage gfpPgt = some (addr, mm₁) := hget
  by_cases hzero : addr = 0
  · rw [if_pos hzero, Option.some.injEq, Prod.mk.injEq] at h
    exact absurd h.1 (by decide)
  · rw [if_neg hzero, Option.some.injEq, Prod.mk.injEq] at h
    refine ⟨ram, ?_⟩
    simp only [addElfTable, hget', Option.pure_def, Option.bind_eq_bind, Option.bind_some,
      if_neg hzero]
    rw [← h.2]
    rfl

/-- Where a page is entered does not depend on memory. -/
theorem taskMapMemory_blind (k k' : Kernel) (addr t : Nat) (elf : Bool) (ram : Ram)
    (h : k.taskMapMemory addr t elf = some k') :
    ∃ ram', (k.setRam ram).taskMapMemory addr t elf = some (k'.setRam ram') := by
  cases hq : k.openTable (if elf then (k.task t).mm.elfList else (k.task t).mm.stackList)
      (if elf then (k.task t).mm.elfCurr else (k.task t).mm.stackCurr) with
  | none =>
      unfold taskMapMemory at h
      cases elf with
      | false =>
          simp only [Bool.false_eq_true, if_false] at hq h
          rw [hq] at h
          exact absurd h (by simp)
      | true =>
          simp only [if_true] at hq h
          rw [hq] at h
          exact absurd h (by simp)
  | some q =>
      rw [taskMapMemory_open k addr t q elf hq, Option.some.injEq] at h
      rw [taskMapMemory_open (k.setRam ram) addr t q elf hq, ← h]
      exact ⟨_, rfl⟩

theorem blind_addPage (t : Nat) (elf : Bool) : Blind true (addPage t elf) := by
  intro k k' ram h
  unfold addPage at h
  simp only [Option.pure_def, Option.bind_eq_bind, Option.bind_eq_some_iff, Prod.exists] at h
  rcases h with ⟨addr, mm₁, hget, h⟩
  have hget' : (k.setRam ram).mm.getFreePage gfpKernel = some (addr, mm₁) := hget
  by_cases hzero : addr = 0
  · rw [if_pos hzero, Option.some.injEq, Prod.mk.injEq] at h
    exact absurd h.1 (by decide)
  rw [if_neg hzero, Option.bind_eq_some_iff] at h
  rcases h with ⟨k₁, hmap, h⟩
  rcases taskMapMemory_blind _ k₁ addr t elf ram hmap with ⟨ram', hmap'⟩
  have hsame : (k.setMm mm₁).setRam ram = (k.setRam ram).setMm mm₁ := rfl
  rw [hsame] at hmap'
  rw [Option.some.injEq, Prod.mk.injEq] at h
  refine ⟨ram', ?_⟩
  unfold addPage
  rw [hget']
  simp only [Option.pure_def, Option.bind_eq_bind, Option.bind_some, if_neg hzero, hmap']
  rw [← h.2]
  rfl

theorem blind_allocPageTable (t : Nat) : Blind (0 : Int) (fun k => k.allocPageTable t) := by
  intro k k' ram h
  rcases allocPageTable_ok k k' t h with ⟨k₁, k₂, hstack, helf, hk'⟩
  rcases blind_whileOk _ (blind_addStackTable t) 1 k k₁ ram hstack with ⟨ram₁, hstack'⟩
  rcases blind_whileOk _ (blind_addElfTable t) 1 _ k₂ ram₁ helf with ⟨ram₂, helf'⟩
  have hone : (processStackSize + size1M - 1) / size1M = 1 := by decide
  have hone' : (processImageSize + size1M - 1) / size1M = 1 := by decide
  refine ⟨ram₂, ?_⟩
  simp only [allocPageTable]
  rw [hone, hone', hstack']
  simp only [Option.bind_eq_bind, Option.bind_some, Option.pure_def, Bool.not_true,
    Bool.false_eq_true, if_false]
  have hsame : (k₁.setRam ram₁).setTaskMm t { ((k₁.setRam ram₁).task t).mm with
      stackCurr := ((k₁.setRam ram₁).task t).mm.stackList.head? }
      = (k₁.setTaskMm t { (k₁.task t).mm with
        stackCurr := (k₁.task t).mm.stackList.head? }).setRam ram₁ := rfl
  rw [hsame, helf', hk']
  rfl

theorem blind_allocMemoryAndMap (t : Nat) : Blind (0 : Int) (fun k => k.allocMemoryAndMap t) := by
  intro k k' ram h
  have hs : pageNr processStackSize = 4 := by decide
  have he : pageNr processImageSize = 256 := by decide
  have hlow : ¬k.mmFreePageNormal < 4 + 256 := by
    intro hc
    simp only [allocMemoryAndMap] at h
    rw [hs, he, if_pos hc] at h
    simp only [Option.pure_def, Option.some.injEq, Prod.mk.injEq] at h
    exact absurd h.1 (by decide)
  have hlow' : ¬(k.setRam ram).mmFreePageNormal < 4 + 256 := hlow
  rcases allocMemoryAndMap_ok k k' t h with ⟨k₁, hstack, helf⟩
  rcases blind_whileOk _ (blind_addPage t false) 4 k k₁ ram hstack with ⟨ram₁, hstack'⟩
  rcases blind_whileOk _ (blind_addPage t true) 256 k₁ k' ram₁ helf with ⟨ram₂, helf'⟩
  refine ⟨ram₂, ?_⟩
  simp only [allocMemoryAndMap]
  rw [hs, he, if_neg hlow', hstack']
  simp only [Option.bind_eq_bind, Option.bind_some, Option.pure_def, Bool.not_true,
    Bool.false_eq_true, if_false]
  rw [helf']
  rfl

theorem blind_allocKernelStack (t : Nat) : Blind (0 : Int) (fun k => k.allocKernelStack t) := by
  intro k k' ram h
  simp only [allocKernelStack] at h
  by_cases hbase : (k.task t).stackBase ≠ 0
  · rw [if_pos hbase] at h
    simp only [Option.pure_def, Option.some.injEq, Prod.mk.injEq] at h
    exact absurd h.1 (by decide)
  have hbase' : ¬((k.setRam ram).task t).stackBase ≠ 0 := hbase
  rw [if_neg hbase] at h
  simp only [Option.pure_def, Option.bind_eq_bind, Option.bind_eq_some_iff, Prod.exists] at h
  rcases h with ⟨addr, mm₁, hget, h⟩
  have hget' : (k.setRam ram).mm.getFreePages (kernelStackSize / pageSize : Nat) gfpKernel
      = some (addr, mm₁) := hget
  rw [Option.some.injEq, Prod.mk.injEq] at h
  refine ⟨ram, ?_⟩
  simp only [allocKernelStack, if_neg hbase', hget', Option.bind_eq_bind, Option.bind_some,
    Option.pure_def]
  rw [← h.2, h.1]
  rfl

theorem blind_allocMemoryForTask (t : Nat) : Blind (0 : Int) (fun k => k.allocMemoryForTask t) := by
  intro k k' ram h
  rcases allocMemoryForTask_ok k k' t h with ⟨k₁, hstack, hrest⟩
  rcases blind_allocKernelStack t k k₁ ram hstack with ⟨ram₁, hstack'⟩
  -- The flag is in the task, not in memory, so both runs take the same branch.
  have hflag : ((k₁.setRam ram₁).task t).flag = (k₁.task t).flag := rfl
  have hfirst : (k.setRam ram).allocKernelStack t = some (0, k₁.setRam ram₁) := hstack'
  simp only [allocMemoryForTask, hfirst, Option.bind_eq_bind, Option.bind_some, Option.pure_def,
    ne_eq, not_true_eq_false, if_false, hflag]
  by_cases huser : (k₁.task t).flag &&& processTypeUser ≠ 0
  swap
  · rw [if_neg huser] at hrest
    rw [if_neg huser, hrest]
    exact ⟨ram₁, rfl⟩
  rw [if_pos huser] at hrest
  rcases hrest with ⟨k₂, htable, hmap⟩
  rcases blind_allocPageTable t k₁ k₂ ram₁ htable with ⟨ram₂, htable'⟩
  rcases blind_allocMemoryAndMap t k₂ k' ram₂ hmap with ⟨ram₃, hmap'⟩
  have hsecond : (k₁.setRam ram₁).allocPageTable t = some (0, k₂.setRam ram₂) := htable'
  have hthird : (k₂.setRam ram₂).allocMemoryAndMap t = some (0, k'.setRam ram₃) := hmap'
  rw [if_pos huser, hsecond]
  simp only [Option.bind_some, not_true_eq_false, if_false]
  rw [hthird]
  exact ⟨ram₃, rfl⟩

/-- The structure of a new task does not depend on memory. -/
theorem initTaskStruct_blind (k k₁ : Kernel) (t flag : Nat) (ret : Int) (ram : Ram)
    (h : k.initTaskStruct t flag = (ret, k₁)) :
    (k.setRam ram).initTaskStruct t flag = (ret, k₁.setRam ram) := by
  -- Pids are chosen from the pid map alone.
  have hpid : (k.setRam ram).getNewPid t = ((k.getNewPid t).1, (k.getNewPid t).2.setRam ram) := by
    unfold getNewPid
    have hmap : (k.setRam ram).pidMap = k.pidMap := rfl
    rw [hmap]
    by_cases hfree : k.pidMap.nrFree = 0
    · simp only [if_pos hfree]
    · simp only [if_neg hfree]
      cases (List.range' k.pidMap.current (k.pidMap.nr - k.pidMap.current)).find? _ with
      | none => rfl
      | some i => rfl
  rcases hnew : k.getNewPid t with ⟨pid, k₂⟩
  rw [hnew] at hpid
  unfold initTaskStruct at h ⊢
  simp only [hnew, hpid] at h ⊢
  by_cases hneg : pid < 0
  · rw [if_pos hneg, Prod.mk.injEq] at h
    rw [if_pos hneg, ← h.1, ← h.2]
    rfl
  · rw [if_neg hneg, Prod.mk.injEq] at h
    rw [if_neg hneg, ← h.1, ← h.2]
    rfl

/-- A fork that gets its task gets the same one with every content of memory. -/
theorem forkNewTask_blind (k k' : Kernel) (userSp flag new : Nat) (ram : Ram) (hne : new ≠ 0)
    (h : k.forkNewTask userSp flag = some (new, k')) :
    ∃ ram', (k.setRam ram).forkNewTask userSp flag = some (new, k'.setRam ram') := by
  rcases forkNewTask_ok k k' userSp flag new hne h with ⟨slab, k₁, hmalloc, hinit, halloc⟩
  have hinit' := initTaskStruct_blind _ k₁ new flag 0 ram hinit
  have hsame : ({ k with slab := slab } : Kernel).setRam ram
      = { k.setRam ram with slab := slab } := rfl
  rw [hsame] at hinit'
  -- Setting up the structure commutes with changing memory.
  have hmm : (k₁.setRam ram).initMmStruct new userSp = (k₁.initMmStruct new userSp).setRam ram := by
    unfold initMmStruct
    have hflag : ((k₁.setRam ram).task new).flag = (k₁.task new).flag := rfl
    rw [hflag]
    by_cases huser : (k₁.task new).flag &&& processTypeUser ≠ 0
    · rw [if_pos huser, if_pos huser]
      rfl
    · rw [if_neg huser, if_neg huser]
  rcases blind_allocMemoryForTask new _ k' ram halloc with ⟨ram', halloc'⟩
  have halloc'' : ((k₁.setRam ram).initMmStruct new userSp).allocMemoryForTask new
      = some (0, k'.setRam ram') := by
    rw [hmm]
    exact halloc'
  have hmalloc' : (k.setRam ram).slab.kmalloc sizeofTaskStruct gfpKernel = some (new, slab) :=
    hmalloc
  refine ⟨ram', ?_⟩
  unfold forkNewTask
  rw [hmalloc']
  simp only [Option.bind_eq_bind, Option.bind_some, Option.pure_def, if_neg hne, hinit', ne_eq,
    not_true_eq_false, if_false]
  rw [halloc'']
  rfl

end Kernel

end Mirros
