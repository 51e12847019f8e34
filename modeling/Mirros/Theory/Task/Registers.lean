import Mirros.Theory.Task.Fork

/-!
# The Registers After a Fork

`do_fork` writes the pid of the child into the context of the caller, builds the
first context of the child from it, and returns zero, which the end of the system
call stores into the context of the parent. So it is the child that sees its pid
in `r0`, and the parent that sees zero: the programs of the user library are
written for that order.

## Theorems

* `allocMemoryForTask_stack`: A task with memory has a kernel stack.
* `fork_registers`: The contexts of parent and child after a fork.
-/

namespace Mirros

namespace Kernel

/-- A step that keeps the kernel stack of a task. -/
def KeepsStack (t : Nat) (k k' : Kernel) : Prop :=
  (k'.task t).stackBase = (k.task t).stackBase

theorem keepsStack_setTaskMm (k : Kernel) (t : Nat) (ms : MmStruct) :
    KeepsStack t k (k.setTaskMm t ms) := by
  unfold KeepsStack setTaskMm setTask
  simp only [Function.update_self]

theorem keepsStack_whileOk (body : Kernel → Option (Bool × Kernel)) (t n : Nat)
    (hbody : ∀ k k', body k = some (true, k') → KeepsStack t k k') (k k' : Kernel)
    (h : whileOk body n k = some (true, k')) : KeepsStack t k k' :=
  whileOk_steps body (fun _ k₁ => KeepsStack t k k₁)
    (fun _ k₁ k₂ hI hstep => (hbody k₁ k₂ hstep).trans hI) n 0 k k' rfl h

theorem keepsStack_addStackTable (k k' : Kernel) (t : Nat)
    (h : k.addStackTable t = some (true, k')) : KeepsStack t k k' := by
  unfold addStackTable at h
  simp only [Option.pure_def, Option.bind_eq_bind, Option.bind_eq_some_iff, Prod.exists] at h
  rcases h with ⟨addr, mm₁, _, h⟩
  by_cases hzero : addr = 0
  · rw [if_pos hzero, Option.some.injEq, Prod.mk.injEq] at h
    exact absurd h.1 (by decide)
  · rw [if_neg hzero, Option.some.injEq, Prod.mk.injEq] at h
    rw [← h.2]
    exact keepsStack_setTaskMm _ _ _

theorem keepsStack_addElfTable (k k' : Kernel) (t : Nat)
    (h : k.addElfTable t = some (true, k')) : KeepsStack t k k' := by
  unfold addElfTable at h
  simp only [Option.pure_def, Option.bind_eq_bind, Option.bind_eq_some_iff, Prod.exists] at h
  rcases h with ⟨addr, mm₁, _, h⟩
  by_cases hzero : addr = 0
  · rw [if_pos hzero, Option.some.injEq, Prod.mk.injEq] at h
    exact absurd h.1 (by decide)
  · rw [if_neg hzero, Option.some.injEq, Prod.mk.injEq] at h
    rw [← h.2]
    exact keepsStack_setTaskMm _ _ _

theorem taskMapMemory_task (k k' : Kernel) (addr t : Nat) (elf : Bool)
    (h : k.taskMapMemory addr t elf = some k') : k'.task = k.task := by
  unfold taskMapMemory at h
  cases elf with
  | false =>
      simp only [Bool.false_eq_true, if_false, Option.pure_def, Option.bind_eq_bind,
        Option.bind_eq_some_iff] at h
      rcases h with ⟨q, _, h⟩
      rw [Option.some.injEq] at h
      rw [← h]
      rfl
  | true =>
      simp only [if_true, Option.pure_def, Option.bind_eq_bind, Option.bind_eq_some_iff] at h
      rcases h with ⟨q, _, h⟩
      rw [Option.some.injEq] at h
      rw [← h]
      rfl

theorem keepsStack_addPage (t : Nat) (elf : Bool) (k k' : Kernel)
    (h : addPage t elf k = some (true, k')) : KeepsStack t k k' := by
  unfold addPage at h
  simp only [Option.pure_def, Option.bind_eq_bind, Option.bind_eq_some_iff, Prod.exists] at h
  rcases h with ⟨addr, mm₁, _, h⟩
  by_cases hzero : addr = 0
  · rw [if_pos hzero, Option.some.injEq, Prod.mk.injEq] at h
    exact absurd h.1 (by decide)
  · rw [if_neg hzero, Option.bind_eq_some_iff] at h
    rcases h with ⟨k₁, hmap, h⟩
    rw [Option.some.injEq, Prod.mk.injEq] at h
    have htask := taskMapMemory_task _ k₁ addr t elf hmap
    rw [← h.2]
    refine (keepsStack_setTaskMm k₁ t _).trans ?_
    rw [htask]
    rfl

/-- A task with memory has a kernel stack. -/
theorem allocMemoryForTask_stack (k k' : Kernel) (t : Nat)
    (h : k.allocMemoryForTask t = some (0, k')) : (k'.task t).stackBase ≠ 0 := by
  rcases allocMemoryForTask_ok k k' t h with ⟨k₁, hstack, h⟩
  -- The new stack has an address, or the task had one and the call failed.
  have hbase : (k₁.task t).stackBase ≠ 0 := by
    unfold allocKernelStack at hstack
    by_cases hold : (k.task t).stackBase ≠ 0
    · rw [if_pos hold] at hstack
      simp only [Option.pure_def, Option.some.injEq, Prod.mk.injEq] at hstack
      exact absurd hstack.1 (by decide)
    rw [if_neg hold] at hstack
    simp only [Option.pure_def, Option.bind_eq_bind, Option.bind_eq_some_iff,
      Prod.exists] at hstack
    rcases hstack with ⟨addr, mm₁, _, hstack⟩
    rw [Option.some.injEq, Prod.mk.injEq] at hstack
    by_cases hzero : addr = 0
    · rw [if_pos hzero] at hstack
      exact absurd hstack.1 (by decide)
    · rw [← hstack.2]
      simp only [setTask, Function.update_self]
      exact hzero
  by_cases huser : (k₁.task t).flag &&& processTypeUser ≠ 0
  swap
  · rw [if_neg huser] at h
    rw [h]
    exact hbase
  rw [if_pos huser] at h
  rcases h with ⟨k₂, htable, hmap⟩
  rcases allocPageTable_ok k₁ k₂ t htable with ⟨k₃, k₄, hloop, hloop', hk₂⟩
  rcases allocMemoryAndMap_ok k₂ k' t hmap with ⟨k₅, hpages, hpages'⟩
  -- None of the loops writes to the stack of the task.
  have h₃ := keepsStack_whileOk _ t _ (fun k k' => keepsStack_addStackTable k k' t) k₁ k₃ hloop
  have h₄ := keepsStack_whileOk _ t _ (fun k k' => keepsStack_addElfTable k k' t) _ k₄ hloop'
  have h₅ := keepsStack_whileOk _ t _ (keepsStack_addPage t false) k₂ k₅ hpages
  have h₆ := keepsStack_whileOk _ t _ (keepsStack_addPage t true) k₅ k' hpages'
  have h₂ : KeepsStack t k₁ k₂ := by
    rw [hk₂]
    exact (keepsStack_setTaskMm k₄ t _).trans
      (h₄.trans ((keepsStack_setTaskMm k₃ t _).trans h₃))
  rw [h₆.trans (h₅.trans h₂)]
  exact hbase

/-- The frame on the kernel stack of a task after its first context was built. -/
theorem archSetUpTaskStack_frame (k : Kernel) (t : Nat) (regs : PtRegs)
    (hbase : (k.task t).stackBase ≠ 0) (hregs : ∀ w ∈ regs.frame, w < u32Size) :
    (List.range 18).map (fun i => load32 (k.archSetUpTaskStack t regs).2.ram
        (add32 ((k.archSetUpTaskStack t regs).2.task t).stackBase (4 * i))) = regs.frame ∧
      ((k.archSetUpTaskStack t regs).2.task t).pid = (k.task t).pid := by
  have htop : add32 (k.task t).stackOrigin kernelStackSize < u32Size :=
    Nat.mod_lt _ (by decide)
  have hpushed : regs.pushed = regs.frame.reverse := rfl
  have hws : ∀ w ∈ regs.pushed, w < u32Size := by
    intro w hw
    rw [hpushed, List.mem_reverse] at hw
    exact hregs w hw
  have hload := (pushWords_load k.ram _ htop regs.pushed (show 18 < 2 ^ 20 by decide) hws).1
  have haddr := pushWords_addr k.ram _ htop regs.pushed
  have hlen : regs.frame.length = 18 := rfl
  have hlen' : regs.pushed.length = 18 := rfl
  unfold archSetUpTaskStack
  rw [if_neg hbase]
  simp only [setTask, Function.update_self, and_true]
  rw [haddr, hlen']
  refine List.ext_getElem? (fun i => ?_)
  by_cases hi : i < 18
  · -- Word `i` of the frame is the one with `17 - i` words above it.
    have hget : regs.pushed[17 - i]? = regs.frame[i]? := by
      rw [hpushed, List.getElem?_reverse (by omega), hlen]
      exact congrArg _ (by omega)
    have hat : add32 (sub32 (add32 (k.task t).stackOrigin kernelStackSize) (4 * 18)) (4 * i)
        = pushAddr (add32 (k.task t).stackOrigin kernelStackSize) (17 - i) := by
      unfold pushAddr sub32 add32 u32Size
      omega
    rw [List.getElem?_eq_getElem (by omega : i < regs.frame.length)] at hget ⊢
    rw [List.getElem?_map, List.getElem?_range hi, Option.map_some, hat, hload _ _ hget]
  · rw [List.getElem?_eq_none (by simp; omega), List.getElem?_eq_none (by omega)]

/-- The frame `do_fork` leaves for a task forked by `sys_fork`: the registers of the
    caller as changed by `do_fork`. -/
theorem doFork_frame (k k' : Kernel) (regs regs' : PtRegs) (userSp new : Nat) (ret : Int)
    (hregs : ∀ w ∈ regs.frame, w < u32Size) (hne : new ≠ 0)
    (h : k.doFork regs userSp (processTypeUser ||| processFlagFork)
      = some (ret, regs', new, k')) :
    (List.range 18).map (fun i => load32 k'.ram (add32 (k'.task new).stackBase (4 * i)))
      = regs'.frame ∧ regs' = archSetTaskReturnValue regs (k'.task new) ∧ ret = 0 := by
  rcases doFork_ok k k' regs regs' _ _ new ret hne h with ⟨k₂, k₃, hnew, hcopy, hret, hregs', hk'⟩
  rcases forkNewTask_ok k k₂ _ _ new hne hnew with ⟨slab, k₄, _, _, halloc⟩
  rw [if_pos (by decide)] at hcopy hregs'
  have hbase : (k₃.task new).stackBase ≠ 0 := by
    rw [copyProcess_task k₂ k₃ new hcopy]
    exact allocMemoryForTask_stack _ k₂ new halloc
  have hws : ∀ w ∈ regs'.frame, w < u32Size := by
    rw [hregs']
    exact archSetTaskReturnValue_words regs (k₃.task new) hregs
  have hframe := archSetUpTaskStack_frame k₃ new regs' hbase hws
  rw [← hk'] at hframe
  refine ⟨hframe.1, ?_, hret⟩
  rw [hregs']
  unfold archSetTaskReturnValue
  rw [hframe.2]

/-- After a fork the context of the child is the one of the parent with the pid of
    the child in `r0`, and the parent goes on with zero in `r0`. -/
theorem fork_registers (k k' : Kernel) (regs regs' : PtRegs) (new : Nat)
    (hregs : ∀ w ∈ regs.frame, w < u32Size) (h : k.syscallFork regs = some (regs', new, k'))
    (hne : new ≠ 0) :
    (List.range 18).map
        (fun i => load32 k'.ram (add32 (k'.task new).stackBase (4 * i)))
      = ({ regs with r0 := ((k'.task new).pid % u32Size).toNat } : PtRegs).frame ∧
    regs' = { regs with r0 := 0 } := by
  unfold syscallFork sysFork at h
  simp only [Option.pure_def, Option.bind_eq_bind, Option.bind_eq_some_iff, Prod.exists] at h
  rcases h with ⟨ret, regs₁, new₁, k₁, hfork, h⟩
  simp only [Option.some.injEq, Prod.mk.injEq] at h
  rcases h with ⟨hregs', rfl, rfl⟩
  rcases doFork_frame k k₁ regs regs₁ _ new₁ ret hregs hne hfork with ⟨hframe, hregs₁, hret⟩
  refine ⟨?_, ?_⟩
  · rw [hframe, hregs₁]
    rfl
  · rw [← hregs', hret, hregs₁]
    rfl

/-- A context with a user stack pointer. -/
def userRegs : PtRegs :=
  { r0 := 7, r1 := 1, r2 := 2, r3 := 3, r4 := 4, r5 := 5, r6 := 6, r7 := 7, r8 := 8, r9 := 9,
    r10 := 10, r11 := 11, r12 := 12, spsr := 0x10, lr := 0x401200, sp := 0x7ffffff0,
    cpsr := 0x10, pc := 0x401100 }

/-- The pid in the structure of the new task. -/
theorem doFork_pid (k k' : Kernel) (regs regs' : PtRegs) (userSp flag new : Nat) (ret : Int)
    (hplain : Mm.PlainMap k.mm) (huser : flag &&& processTypeUser ≠ 0)
    (hflag : flag &&& processTypeKernel = 0) (hzero : new ≠ 0) (hne : new ≠ k.current)
    (h : k.doFork regs userSp flag = some (ret, regs', new, k')) :
    (k'.task new).pid = (k.getNewPid new).1 := by
  rcases doFork_ok k k' regs regs' userSp flag new ret hzero h with
    ⟨k₁, k₂, hnew, hcopy, _, _, hk'⟩
  rcases forkNewTask_user k k₁ userSp flag new hplain huser hflag hzero hne hnew with
    ⟨k₃, q, qs, qe, ps, rs, hforked⟩
  rw [if_pos huser] at hcopy
  have hpid : (k₂.task new).pid = (k.getNewPid new).1 := by
    rw [copyProcess_task k₁ k₂ new hcopy,
      forked_task k k₃ k₁ new userSp flag q qs qe ps rs hforked]
    exact hforked.pid
  have hbase : (k₂.task new).stackBase ≠ 0 := by
    rw [copyProcess_task k₁ k₂ new hcopy,
      forked_task k k₃ k₁ new userSp flag q qs qe ps rs hforked]
    exact hforked.stackBase
  rw [hk', ← hpid]
  unfold archSetUpTaskStack
  rw [if_neg hbase]
  simp only [setTask, Function.update_self]

theorem userKernel_syscallFork :
    ∃ regs₁ k', (userKernel (fun _ => 0#8)).doFork userRegs 0x7ffffff0
        (processTypeUser ||| processFlagFork) = some (0, regs₁, 0x80140000, k') ∧
      (userKernel (fun _ => 0#8)).syscallFork userRegs
        = some ({ regs₁ with r0 := 0 }, 0x80140000, k') := by
  rcases userKernel_doFork (fun _ => 0#8) userRegs 0x7ffffff0 (processTypeUser ||| processFlagFork)
    (by decide) (by decide) (by decide) with ⟨regs₁, k', hfork⟩
  refine ⟨regs₁, k', hfork, ?_⟩
  unfold syscallFork sysFork
  have hsp : userRegs.sp = 0x7ffffff0 := rfl
  rw [hsp, hfork]
  rfl

theorem fork_registers_user :
    ∃ regs' k', (userKernel (fun _ => 0#8)).syscallFork userRegs
        = some (regs', 0x80140000, k') ∧
      (List.range 18).map
          (fun i => load32 k'.ram (add32 (k'.task 0x80140000).stackBase (4 * i)))
        = ({ userRegs with r0 := ((k'.task 0x80140000).pid % u32Size).toNat } : PtRegs).frame ∧
      regs' = { userRegs with r0 := 0 } := by
  rcases userKernel_syscallFork with ⟨regs₁, k', _, hsys⟩
  exact ⟨_, k', hsys, fork_registers _ k' userRegs _ _ (by decide) hsys (by decide)⟩

/-- The child finds its pid in `r0` and not zero, the parent zero and not the pid of
    the child. -/
theorem fork_registers_fails :
    ∃ regs' k', (userKernel (fun _ => 0#8)).syscallFork userRegs
        = some (regs', 0x80140000, k') ∧ (k'.task 0x80140000).pid = 2 ∧
      load32 k'.ram (add32 (k'.task 0x80140000).stackBase 0) = 2 ∧ regs'.r0 = 0 := by
  rcases userKernel_syscallFork with ⟨regs₁, k', hfork, hsys⟩
  have hpid : (k'.task 0x80140000).pid = 2 :=
    doFork_pid _ k' userRegs regs₁ _ _ _ 0 (userKernel_plain _) (by decide) (by decide) (by decide)
      (show 0x80140000 ≠ 0x80000900 by decide) hfork
  rcases doFork_frame _ k' userRegs regs₁ _ _ 0 (by decide) (by decide) hfork with
    ⟨hframe, hregs₁, _⟩
  refine ⟨_, k', hsys, hpid, ?_, rfl⟩
  have hfirst := congrArg (fun l => l[0]?) hframe
  simp only [List.getElem?_map, List.getElem?_range (by decide : 0 < 18), Option.map_some] at hfirst
  rw [hregs₁] at hfirst
  unfold archSetTaskReturnValue at hfirst
  rw [hpid] at hfirst
  exact Option.some.inj hfirst

end Kernel

end Mirros
