import Mirros.Theory.Pages.Boot
import Mirros.Theory.Slab.Grows
import Mirros.Theory.Boot.Layout
import Mirros.Theory.Task.Progress

/-!
# Making a Task

What `fork_new_task` and `do_fork` have done when they return a task, step by step
(`forkNewTask_ok`, `doFork_ok`), and when they return one (`forkNewTask_ready`).
`userKernel` is a state in which a user task is running.

## Main definitions

* `userKernel`: A board with a user task on it.

## Theorems

* `initTaskStruct_user`: A new user task and its parent.
* `forkNewTask_ok`, `doFork_ok`: The steps of a fork.
* `forkNewTask_ready`: When a fork gets its task.
-/

namespace Mirros

namespace Kernel

/-- What `fork_new_task` has done when it returns a task. -/
theorem forkNewTask_ok (k k' : Kernel) (userSp flag new : Nat) (hne : new ≠ 0)
    (h : k.forkNewTask userSp flag = some (new, k')) :
    ∃ slab k₁, k.slab.kmalloc sizeofTaskStruct gfpKernel = some (new, slab) ∧
      ({ k with slab := slab } : Kernel).initTaskStruct new flag = (0, k₁) ∧
      (k₁.initMmStruct new userSp).allocMemoryForTask new = some (0, k') := by
  unfold forkNewTask at h
  simp only [Option.pure_def, Option.bind_eq_bind, Option.bind_eq_some_iff, Prod.exists] at h
  rcases h with ⟨addr, slab, hmalloc, h⟩
  -- Each step that fails gives the structure back and returns no task.
  by_cases hzero : addr = 0
  · rw [if_pos hzero, Option.some.injEq, Prod.mk.injEq] at h
    exact absurd h.1.symm hne
  rw [if_neg hzero] at h
  rcases hinit : ({ k with slab := slab } : Kernel).initTaskStruct addr flag with ⟨ret, k₁⟩
  rw [hinit] at h
  by_cases hret : ret ≠ 0
  · simp only [if_pos hret, Option.bind_eq_some_iff] at h
    rcases h with ⟨slab', _, h⟩
    rw [Option.some.injEq, Prod.mk.injEq] at h
    exact absurd h.1.symm hne
  simp only [if_neg hret, Option.bind_eq_some_iff, Prod.exists] at h
  rw [ne_eq, not_not] at hret
  subst hret
  rcases h with ⟨ret, k₂, halloc, h⟩
  by_cases hret : ret ≠ 0
  · rw [if_pos hret, Option.bind_eq_some_iff] at h
    rcases h with ⟨slab', _, h⟩
    rw [Option.some.injEq, Prod.mk.injEq] at h
    exact absurd h.1.symm hne
  rw [if_neg hret, Option.some.injEq, Prod.mk.injEq] at h
  rw [ne_eq, not_not] at hret
  subst hret
  rcases h with ⟨rfl, rfl⟩
  exact ⟨slab, k₁, hmalloc, hinit, halloc⟩

/-- What `do_fork` has done when it made a task. -/
theorem doFork_ok (k k' : Kernel) (regs regs' : PtRegs) (userSp flag new : Nat) (ret : Int)
    (hne : new ≠ 0) (h : k.doFork regs userSp flag = some (ret, regs', new, k')) :
    ∃ k₁ k₂, k.forkNewTask userSp flag = some (new, k₁) ∧
      (if flag &&& processTypeUser ≠ 0 then k₁.copyProcess new else some k₁) = some k₂ ∧
      ret = 0 ∧
      regs' = (if flag &&& processFlagFork ≠ 0 then archSetTaskReturnValue regs (k₂.task new)
        else regs) ∧
      k' = (k₂.archSetUpTaskStack new regs').2 := by
  unfold doFork at h
  simp only [Option.pure_def, Option.bind_eq_bind, Option.bind_eq_some_iff, Prod.exists] at h
  rcases h with ⟨addr, k₁, hnew, h⟩
  by_cases hzero : addr = 0
  · rw [if_pos hzero, Option.some.injEq] at h
    simp only [Prod.mk.injEq] at h
    exact absurd h.2.2.1.symm hne
  rw [if_neg hzero] at h
  -- A kernel task copies nothing, a user task the memory of its parent.
  have hcopy : ∃ k₂, (if flag &&& processTypeUser ≠ 0 then k₁.copyProcess addr else some k₁)
      = some k₂ ∧ some ((0 : Int), (if flag &&& processFlagFork ≠ 0 then
        archSetTaskReturnValue regs (k₂.task addr) else regs), addr,
        (k₂.archSetUpTaskStack addr (if flag &&& processFlagFork ≠ 0 then
          archSetTaskReturnValue regs (k₂.task addr) else regs)).2)
      = some (ret, regs', new, k') := by
    by_cases huser : flag &&& processTypeUser ≠ 0
    · rw [if_pos huser, Option.bind_eq_some_iff] at h
      rw [if_pos huser]
      exact h
    · rw [if_neg huser, Option.bind_some] at h
      exact ⟨k₁, if_neg huser, h⟩
  rcases hcopy with ⟨k₂, hcopy, hres⟩
  simp only [Option.some.injEq, Prod.mk.injEq] at hres
  rcases hres with ⟨hret, hregs, rfl, hk'⟩
  refine ⟨k₁, k₂, hnew, hcopy, hret.symm, hregs.symm, ?_⟩
  rw [← hk', ← hregs]

/-- The registers stay words when the pid is written to them. -/
theorem archSetTaskReturnValue_words (regs : PtRegs) (task : Process)
    (hregs : ∀ w ∈ regs.frame, w < u32Size) :
    ∀ w ∈ (archSetTaskReturnValue regs task).frame, w < u32Size := by
  intro w hw
  rcases List.mem_cons.1 hw with hw | hw
  · have hlt := Int.emod_lt_of_pos task.pid (by decide : (0 : Int) < u32Size)
    have hw' : w = (task.pid % u32Size).toNat := hw
    unfold u32Size at *
    omega
  · exact hregs w (List.mem_cons_of_mem _ hw)

theorem copyProcess_task (k k' : Kernel) (new : Nat) (h : k.copyProcess new = some k') :
    k'.task = k.task := by
  unfold copyProcess at h
  by_cases hparent : (k.task new).parent ≠ 0
  · simp only [if_pos hparent] at h
    unfold copyProcessMemory at h
    simp only [Option.pure_def, Option.bind_eq_bind, Option.bind_eq_some_iff] at h
    rcases h with ⟨ram, _, ram', _, h⟩
    rw [Option.some.injEq] at h
    rw [← h]
  · simp only [if_neg hparent, Option.some.injEq] at h
    rw [h]

/-- A new user task: its parent is the current task, whose memory is untouched. -/
structure NewUser (k k₁ : Kernel) (t flag : Nat) : Prop where
  slab : k₁.slab = k.slab
  ram : k₁.ram = k.ram
  tlb : k₁.tlb = k.tlb
  current : k₁.current = k.current
  flag : (k₁.task t).flag = flag
  parent : (k₁.task t).parent = k.current
  stackBase : (k₁.task t).stackBase = 0
  pid : (k₁.task t).pid = (k.getNewPid t).1
  parentMm : (k₁.task k.current).mm = (k.task k.current).mm

theorem getNewPid_fst (k k' : Kernel) (t : Nat) (h : k'.pidMap = k.pidMap) :
    (k'.getNewPid t).1 = (k.getNewPid t).1 := by
  unfold getNewPid
  rw [h]
  by_cases hfree : k.pidMap.nrFree = 0
  · simp only [if_pos hfree]
  · simp only [if_neg hfree]
    cases (List.range' k.pidMap.current (k.pidMap.nr - k.pidMap.current)).find? _ with
    | none => rfl
    | some i => rfl

theorem initTaskStruct_user (k k₁ : Kernel) (t flag : Nat) (ret : Int)
    (hflag : flag &&& processTypeKernel = 0) (hne : t ≠ k.current)
    (hpid : 0 ≤ (k.getNewPid t).1) (h : k.initTaskStruct t flag = (ret, k₁)) :
    ret = 0 ∧ NewUser k k₁ t flag := by
  -- Whatever pid was found, only the pid map changed.
  have hmap : (k.getNewPid t).2.slab = k.slab ∧ (k.getNewPid t).2.ram = k.ram ∧
      (k.getNewPid t).2.tlb = k.tlb ∧ (k.getNewPid t).2.current = k.current ∧
      (k.getNewPid t).2.task = k.task := by
    unfold getNewPid
    by_cases hfree : k.pidMap.nrFree = 0
    · simp only [if_pos hfree, and_self]
    · simp only [if_neg hfree]
      cases (List.range' k.pidMap.current (k.pidMap.nr - k.pidMap.current)).find? _ with
      | none => exact ⟨rfl, rfl, rfl, rfl, rfl⟩
      | some i => exact ⟨rfl, rfl, rfl, rfl, rfl⟩
  rcases hnew : k.getNewPid t with ⟨pid, k₂⟩
  rw [hnew] at hmap hpid
  rcases hmap with ⟨hslab, hram, htlb, hcurrent, htask⟩
  unfold initTaskStruct at h
  simp only [hflag, ne_eq, not_true_eq_false, if_false, hnew, if_neg (Int.not_lt.2 hpid),
    Prod.mk.injEq] at h
  rcases h with ⟨hret, rfl⟩
  refine ⟨hret.symm, ?_⟩
  have hne' : k.current ≠ t := Ne.symm hne
  constructor
  · exact hslab
  · exact hram
  · exact htlb
  · exact hcurrent
  all_goals
    simp only [setTask, Function.update_self, Function.update_of_ne hne,
      Function.update_of_ne hne']
  · rw [hnew]
  · exact congrArg (fun f => (f k.current).mm) htask

theorem initTaskStruct_pid (k k₁ : Kernel) (t flag : Nat)
    (h : k.initTaskStruct t flag = (0, k₁)) : 0 ≤ (k.getNewPid t).1 := by
  by_contra hpid
  rcases hnew : k.getNewPid t with ⟨pid, k₂⟩
  rw [hnew] at hpid
  unfold initTaskStruct at h
  simp only [hnew, if_pos (Int.not_le.1 hpid), Prod.mk.injEq] at h
  exact absurd h.1 (by decide)

/-- A new user task with its memory: `k₁` is the state with its structure set up and
    its kernel stack, page `q`, allocated. -/
structure Forked (k k₁ k' : Kernel) (new userSp flag q qs qe : Nat) (ps rs : List Nat) : Prop where
  plain : Mm.PlainMap k₁.mm
  grows : Mm.Grows k.mm k₁.mm
  filling : Filling k₁ k' new qs qe ps rs
  stackPages : ps.length = 4
  imagePages : rs.length = 256
  ram : k₁.ram = k.ram
  tlb : k₁.tlb = k.tlb
  current : k₁.current = k.current
  flag : (k₁.task new).flag = flag
  parent : (k₁.task new).parent = k.current
  stackOrigin : (k₁.task new).stackOrigin = k₁.mm.pageIdToVa q
  stackBase : (k₁.task new).stackBase ≠ 0
  stackPage : used k.mm.pageMap q = false ∧ used k₁.mm.pageMap q = true ∧
    q < 32 * k₁.mm.mapWords
  pid : (k₁.task new).pid = (k.getNewPid new).1
  stackSize : (k₁.task new).mm.stackSize = sub32 processUserStackBase userSp
  elfSize : (k₁.task new).mm.elfSize = (k.task k.current).mm.elfSize
  parentMm : (k₁.task k.current).mm = (k.task k.current).mm

/-- The memory structure `init_mm_struct` sets up. -/
def emptyMm (elfSize stackSize : Nat) : MmStruct :=
  { elfSize := elfSize
    stackSize := stackSize
    stackCurr := none
    elfCurr := none
    stackList := []
    elfList := []
    elfStackList := []
    elfImageList := [] }

theorem forkNewTask_user (k k' : Kernel) (userSp flag new : Nat) (hplain : Mm.PlainMap k.mm)
    (huser : flag &&& processTypeUser ≠ 0) (hflag : flag &&& processTypeKernel = 0)
    (hzero : new ≠ 0) (hne : new ≠ k.current) (h : k.forkNewTask userSp flag = some (new, k')) :
    ∃ k₁ q qs qe ps rs, Forked k k₁ k' new userSp flag q qs qe ps rs := by
  rcases forkNewTask_ok k k' userSp flag new hzero h with ⟨slab, k₂, hmalloc, hinit, halloc⟩
  have hgrows : Mm.Grows k.mm slab.mm := Slab.kmalloc_grows k.slab slab _ _ new hmalloc
  have hnew := (initTaskStruct_user { k with slab := slab } k₂ new flag 0 hflag hne
    (initTaskStruct_pid _ k₂ new flag hinit) hinit).2
  -- The memory structure of the new task is set up from that of its parent.
  have hinitMm : k₂.initMmStruct new userSp = k₂.setTaskMm new
      (emptyMm (k₂.task (k₂.task new).parent).mm.elfSize
        (sub32 processUserStackBase userSp)) := by
    unfold initMmStruct
    rw [if_pos (by rw [hnew.flag]; exact huser)]
    rfl
  rw [hinitMm] at halloc
  have hmm : k₂.mm = slab.mm := congrArg Slab.mm hnew.slab
  have hplain₂ : Mm.PlainMap k₂.mm := by
    rw [hmm]
    exact Mm.plainMap_same k.mm slab.mm hgrows.bank hplain
  rcases allocMemoryForTask_filled (k₂.setTaskMm new (emptyMm
      (k₂.task (k₂.task new).parent).mm.elfSize (sub32 processUserStackBase userSp))) k' new hplain₂
    (by simp only [setTaskMm, setTask, Function.update_self]; rw [hnew.flag]; exact huser)
    (by simp only [setTaskMm, setTask, Function.update_self]; exact ⟨rfl, rfl, rfl, rfl⟩)
    halloc with
    ⟨k₁, q, qs, qe, ps, rs, _, hfill, hps, hrs, hgot, hva, htask, hrest, _⟩
  have hgot₂ : Mm.GotPage k₂.mm k₁.mm q := hgot
  have hself : k₁.task new = { k₂.task new with
      stackBase := k₂.mm.pageIdToVa q
      stackOrigin := k₂.mm.pageIdToVa q
      mm := emptyMm (k₂.task (k₂.task new).parent).mm.elfSize
        (sub32 processUserStackBase userSp) } := by
    rw [htask, Function.update_self]
    simp only [setTaskMm, setTask, Function.update_self]
    rfl
  have hother : k₁.task k.current = k₂.task k.current := by
    rw [htask, Function.update_of_ne (Ne.symm hne)]
    exact Function.update_of_ne (Ne.symm hne) _ _
  have hcur : k₂.current = k.current := hnew.current
  have hparent : (k₂.task new).parent = k.current := hnew.parent
  have hparentMm : (k₂.task k.current).mm = (k.task k.current).mm := hnew.parentMm
  have hkeeps : ∀ r, used k₂.mm.pageMap r = true → used k₁.mm.pageMap r = true := by
    intro r hr
    rw [hgot₂.bits r, hr]
    exact ite_self _
  refine ⟨k₁, q, qs, qe, ps, rs, ?_⟩
  refine
    { plain := Mm.plainMap_same k₂.mm k₁.mm hgot₂.bank hplain₂
      grows := ?_
      filling := hfill
      stackPages := hps
      imagePages := hrs
      ram := hrest.ram.trans hnew.ram
      tlb := hrest.tlb.trans hnew.tlb
      current := hrest.pids.2.1.trans hcur
      flag := ?_
      parent := ?_
      stackOrigin := ?_
      stackBase := ?_
      stackPage := ?_
      pid := ?_
      stackSize := ?_
      elfSize := ?_
      parentMm := ?_ }
  · exact hgrows.trans ⟨hmm ▸ hgot₂.bank, fun r hr => hkeeps r (by rw [hmm]; exact hr)⟩
  · rw [hself]
    exact hnew.flag
  · rw [hself]
    exact hparent
  · rw [hself, Mm.pageIdToVa_same k₂.mm k₁.mm hgot₂.bank]
  · rw [hself]
    exact hva
  · refine ⟨?_, ?_, ?_⟩
    · exact clear_before _ _ q (hgrows.keeps q) (hmm ▸ hgot₂.clear)
    · rw [hgot₂.bits q]
      exact if_pos rfl
    · rw [hgot₂.bank.words]
      exact hgot₂.bound
  · rw [hself]
    exact hnew.pid.trans (getNewPid_fst k { k with slab := slab } new rfl)
  · rw [hself]
    rfl
  · rw [hself, hparent]
    have helf : (k₂.task k.current).mm.elfSize = (k.task k.current).mm.elfSize := by
      rw [hparentMm]
    exact helf
  · rw [hother, hparentMm]

/-- Copying comes back when both lists are long enough, and only then. -/
theorem copyPages_some (mm : Mm) (n : Nat) (olds news : List Nat) (ram : Ram) :
    (∃ ram', copyPages mm n olds news ram = some ram') ↔ n ≤ olds.length ∧ n ≤ news.length := by
  induction n generalizing olds news ram with
  | zero => simp [copyPages]
  | succ n ih =>
      cases olds with
      | nil => simp [copyPages]
      | cons old olds =>
          cases news with
          | nil => simp [copyPages]
          | cons new news =>
              rw [copyPages, ih]
              simp

section Forked

variable (k k₁ k' : Kernel) (new userSp flag q qs qe : Nat) (ps rs : List Nat)
  (h : Forked k k₁ k' new userSp flag q qs qe ps rs) (hne : new ≠ k.current)
include h

theorem forked_task : k'.task new = { k₁.task new with
    mm := filledMm (k₁.task new).mm qs qe ps rs } := by
  rw [h.filling.task, Function.update_self]

include hne

theorem forked_parent : (k'.task k.current).mm = (k.task k.current).mm := by
  rw [h.filling.task, Function.update_of_ne (Ne.symm hne), h.parentMm]

/-- What `copy_process` does with a new user task. -/
theorem copyProcess_forked (hcur : k.current ≠ 0) :
    k'.copyProcess new =
      (copyPages k'.mm (pageTurns (sub32 processUserStackBase userSp))
          (k.task k.current).mm.elfStackList ps k'.ram).bind (fun ram =>
        (copyPages k'.mm (pageTurns (add32 (k.task k.current).mm.elfSize pageSize))
          (k.task k.current).mm.elfImageList rs ram).map (fun ram => { k' with ram := ram })) := by
  have hself := forked_task k k₁ k' new userSp flag q qs qe ps rs h
  -- The child was made by the running task, so the parent is the current one.
  have hparent : (k'.task new).parent = k.current := by
    rw [hself]
    exact h.parent
  have hmm : (k'.task new).mm = filledMm (k₁.task new).mm qs qe ps rs := by
    rw [hself]
  unfold copyProcess
  rw [hparent]
  simp only [ne_eq, hcur, not_false_eq_true, if_true]
  unfold copyProcessMemory
  rw [forked_parent k k₁ k' new userSp flag q qs qe ps rs h hne, hmm]
  have hstack : (filledMm (k₁.task new).mm qs qe ps rs).stackSize
      = sub32 processUserStackBase userSp := h.stackSize
  have helf : (filledMm (k₁.task new).mm qs qe ps rs).elfSize
      = (k.task k.current).mm.elfSize := h.elfSize
  simp only [Option.bind_eq_bind, Option.pure_def, hstack, helf]
  refine congrArg _ (funext (fun ram => ?_))
  have himage : (filledMm (k₁.task new).mm qs qe ps rs).elfImageList = rs := rfl
  rw [himage]
  cases copyPages k'.mm (pageTurns (add32 (k.task k.current).mm.elfSize pageSize))
      (k.task k.current).mm.elfImageList rs ram with
  | none => rfl
  | some ram' => rfl

end Forked

/-- A fork comes back when no more pages are copied than the tasks have. -/
theorem doFork_some (k k₁ : Kernel) (regs : PtRegs) (userSp flag new : Nat)
    (hplain : Mm.PlainMap k.mm) (huser : flag &&& processTypeUser ≠ 0)
    (hflag : flag &&& processTypeKernel = 0) (hzero : new ≠ 0) (hne : new ≠ k.current)
    (hcur : k.current ≠ 0) (hnew : k.forkNewTask userSp flag = some (new, k₁))
    (hstack : pageTurns (sub32 processUserStackBase userSp) ≤
      (k.task k.current).mm.elfStackList.length ∧ pageTurns (sub32 processUserStackBase userSp) ≤ 4)
    (himage : pageTurns (add32 (k.task k.current).mm.elfSize pageSize) ≤
      (k.task k.current).mm.elfImageList.length ∧
        pageTurns (add32 (k.task k.current).mm.elfSize pageSize) ≤ 256) :
    ∃ regs' k', k.doFork regs userSp flag = some (0, regs', new, k') := by
  rcases forkNewTask_user k k₁ userSp flag new hplain huser hflag hzero hne hnew with
    ⟨k₂, q, qs, qe, ps, rs, hf⟩
  rcases (copyPages_some k₁.mm _ (k.task k.current).mm.elfStackList ps k₁.ram).2
    ⟨hstack.1, by rw [hf.stackPages]; exact hstack.2⟩ with ⟨ram₁, hram₁⟩
  rcases (copyPages_some k₁.mm _ (k.task k.current).mm.elfImageList rs ram₁).2
    ⟨himage.1, by rw [hf.imagePages]; exact himage.2⟩ with ⟨ram₂, hram₂⟩
  -- Both copies stay within the lists of the parent and of the child.
  have hcopy : k₁.copyProcess new = some { k₁ with ram := ram₂ } := by
    rw [copyProcess_forked k k₂ k₁ new userSp flag q qs qe ps rs hf hne hcur, hram₁,
      Option.bind_some, hram₂]
    rfl
  unfold doFork
  rw [hnew]
  simp only [Option.bind_eq_bind, Option.bind_some, Option.pure_def, if_neg hzero, if_pos huser,
    hcopy]
  exact ⟨_, _, rfl⟩

/-- With a task structure, a pid and enough free pages a fork gets its task. -/
theorem forkNewTask_ready (k : Kernel) (slab : Slab) (userSp flag new n : Nat)
    (hmalloc : k.slab.kmalloc sizeofTaskStruct gfpKernel = some (new, slab)) (hzero : new ≠ 0)
    (huser : flag &&& processTypeUser ≠ 0) (hflag : flag &&& processTypeKernel = 0)
    (hne : new ≠ k.current) (hpid : 0 ≤ (({ k with slab := slab } : Kernel).getNewPid new).1)
    (hplain : Mm.PlainMap slab.mm) (hready : Mm.Ready slab.mm (n + 263)) :
    ∃ k', k.forkNewTask userSp flag = some (new, k') := by
  rcases hinit : ({ k with slab := slab } : Kernel).initTaskStruct new flag with ⟨ret, k₁⟩
  rcases initTaskStruct_user { k with slab := slab } k₁ new flag ret hflag hne hpid hinit with
    ⟨rfl, hnew⟩
  have huser₁ : (k₁.task new).flag &&& processTypeUser ≠ 0 := by
    rw [hnew.flag]
    exact huser
  -- Nothing between the structure and its memory calls the page allocator.
  have hmm : (k₁.initMmStruct new userSp).mm = slab.mm := by
    have hslab : k₁.mm = slab.mm := congrArg Slab.mm hnew.slab
    unfold initMmStruct
    rw [if_pos huser₁]
    exact hslab
  have hstruct : ((k₁.initMmStruct new userSp).task new).flag = flag ∧
      ((k₁.initMmStruct new userSp).task new).stackBase = 0 ∧
      EmptyMm ((k₁.initMmStruct new userSp).task new).mm := by
    unfold initMmStruct
    rw [if_pos huser₁]
    simp only [setTaskMm, setTask, Function.update_self]
    exact ⟨hnew.flag, hnew.stackBase, rfl, rfl, rfl, rfl⟩
  rcases allocMemoryForTask_ready (k₁.initMmStruct new userSp) new n (hmm ▸ hplain)
    (by rw [hstruct.1]; exact huser) hstruct.2.2 hstruct.2.1 (hmm ▸ hready) with ⟨k', halloc, _⟩
  refine ⟨k', ?_⟩
  unfold forkNewTask
  rw [hmalloc]
  simp only [Option.bind_eq_bind, Option.bind_some, Option.pure_def, if_neg hzero, hinit, ne_eq,
    not_true_eq_false, if_false]
  rw [halloc]
  rfl

end Kernel

namespace Mm

/-- A board with four megabytes of NORMAL and one of DMA memory. -/
def userBank : Mm :=
  { bareBank [(0x30000000, 0x400000)] [(0x30400000, 0x100000)] [] [] with
    totalSize := 0x500000
    totalPage := 1280 }

/-- The board after boot, with 24 pages reserved. -/
def userBoot : Mm :=
  (userBank.mapZoneMemory 0x30000000).1.initPageTableMap 0x80010000 0

/-- The board with its first `m` pages in use, the reserved ones and then others handed out
    one by one, where 32 divides `m`. -/
def takenMm (m : Nat) : Mm :=
  { userBoot with
    zone := fun z => match z with
      | .normal => { userBoot.zone .normal with
          freeSize := (1024 - m) * pageSize, freePages := 1024 - m, bmCurrent := m }
      | z => userBoot.zone z
    pageTable := fun q =>
      if 24 ≤ q ∧ q < m then
        { phyAddress := 0x30000000 + q * pageSize
          flag := gfpKernel ||| gfpPageHeader
          freeBase := 0x80000000 + q * pageSize
          freeSize := pageSize
          count := 1
          usage := 1 }
      else userBoot.pageTable q
    pageMap := fun w => if w < m / 32 then 0xffffffff#32 else 0#32 }

/-- The board with 296 pages handed out. -/
def userMm : Mm := takenMm 320

instance (mm : Mm) : Decidable (PlainMap mm) :=
  decidable_of_iff (mm.kernelStart < u32Size ∧ mm.kernelStart % pageSize = 0 ∧
      32 * mm.mapWords ≤ 2 ^ 20)
    ⟨fun h => ⟨h.1, h.2.1, h.2.2⟩, fun h => ⟨h.start, h.aligned, h.words⟩⟩

instance (mm : Mm) (n : Nat) : Decidable (Ready mm n) :=
  decidable_of_iff ((mm.zone .normal).zoneMutex = 0 ∧ n ≤ (mm.zone .normal).freePages ∧
      (mm.zone .normal).freePages < u32Size ∧ 0 < (mm.zone .normal).bmCurrent ∧
      (mm.zone .normal).bmCurrent + n ≤ 32 * mm.mapWords ∧
      (∀ i < n, used mm.pageMap ((mm.zone .normal).bmCurrent + i) = false) ∧
      mm.kernelStart + 32 * mm.mapWords * pageSize < u32Size ∧ 0 < mm.kernelStart)
    ⟨fun h => ⟨h.1, h.2.1, h.2.2.1, h.2.2.2.1, h.2.2.2.2.1, h.2.2.2.2.2.1, h.2.2.2.2.2.2.1,
      h.2.2.2.2.2.2.2⟩,
      fun h => ⟨h.mutex, h.free, h.word, h.cursor, h.room, h.clear, h.space, h.start⟩⟩

end Mm

/-- A user task with pages of the board. -/
def userTask : Process :=
  { stackBase := 0x80018fb8
    stackOrigin := 0x80018000
    flag := processTypeUser
    pid := 1
    uid := 0
    parent := 0x80000800
    child := []
    mm :=
      { elfSize := 0x2000
        stackSize := 0
        stackCurr := some 30
        elfCurr := some 31
        stackList := [30]
        elfList := [31]
        elfStackList := List.range' 32 4
        elfImageList := List.range' 40 256 } }

/-- The board with one user task running on it. -/
def userKernel (ram : Ram) : Kernel :=
  { slab := Slab.slabInit Mm.userMm (fun _ => ⟨0, 0⟩)
    ram := ram
    tlb := fun _ => 0
    pidMap :=
      { addr := fun i => if i < 2 then 0x80000900 else 0
        nr := 1024
        nrFree := 1022
        current := 2 }
    task := fun t => if t = 0x80000900 then userTask else { userTask with flag := processTypeKernel }
    current := 0x80000900
    idle := 0x80000800 }

/-- The board has memory for one more task. -/
theorem userKernel_fork (ram : Ram) (userSp flag : Nat) (huser : flag &&& processTypeUser ≠ 0)
    (hflag : flag &&& processTypeKernel = 0) :
    ∃ k', (userKernel ram).forkNewTask userSp flag = some (0x80140000, k') := by
  have heval : ((Slab.slabInit Mm.userMm (fun _ => ⟨0, 0⟩)).kmalloc sizeofTaskStruct
      gfpKernel).map (fun x => (x.1, decide (Mm.PlainMap x.2.mm ∧ Mm.Ready x.2.mm (0 + 263))))
      = some (0x80140000, true) := by
    decide +kernel
  rcases Option.map_eq_some_iff.1 heval with ⟨⟨new, slab⟩, hmalloc, hpair⟩
  rw [Prod.mk.injEq, decide_eq_true_eq] at hpair
  rcases hpair with ⟨hnew, hplain, hready⟩
  have hnew' : new = 0x80140000 := hnew
  subst hnew'
  exact Kernel.forkNewTask_ready (userKernel ram) slab userSp flag _ 0 hmalloc (by decide) huser
    hflag (show 0x80140000 ≠ 0x80000900 by decide) (show (0 : Int) ≤ (2 : Nat) by decide) hplain
    hready

theorem userKernel_plain (ram : Ram) : Mm.PlainMap (userKernel ram).mm := by
  have hplain : Mm.PlainMap (Slab.slabInit Mm.userMm (fun _ => ⟨0, 0⟩)).mm := by decide +kernel
  exact hplain

/-- The map has a place for every page of the board. -/
theorem userKernel_page (ram : Ram) (p : Nat) (hp : p < 1280) :
    p < 32 * (userKernel ram).mm.mapWords ∧
    (userKernel ram).mm.pageIdToVa p = 0x80000000 + p * pageSize := by
  have hframe : (Slab.slabInit Mm.userMm (fun _ => ⟨0, 0⟩)).mm.kernelStart = 0x80000000 ∧
      (Slab.slabInit Mm.userMm (fun _ => ⟨0, 0⟩)).mm.mapWords = 41 := by decide +kernel
  have hmm : (userKernel ram).mm = (Slab.slabInit Mm.userMm (fun _ => ⟨0, 0⟩)).mm := rfl
  unfold Mm.pageIdToVa add32 u32Size pageSize
  rw [hmm, hframe.1, hframe.2]
  constructor <;> omega

/-- A page that was handed out has its own address in the page table. -/
theorem userKernel_base (ram : Ram) (p : Nat) (hp : 24 ≤ p ∧ p < 320) :
    ((userKernel ram).mm.pageTable p).freeBase = (userKernel ram).mm.pageIdToVa p := by
  have htable : ∀ q < 320, 24 ≤ q →
      ((Slab.slabInit Mm.userMm (fun _ => ⟨0, 0⟩)).mm.pageTable q).freeBase =
        0x80000000 + q * pageSize := by decide +kernel
  rw [(userKernel_page ram p (by omega)).2]
  exact htable p hp.2 hp.1

/-- A fork of the running task comes back when no more pages are copied than the
    tasks have. -/
theorem userKernel_doFork (ram : Ram) (regs : PtRegs) (userSp flag : Nat)
    (huser : flag &&& processTypeUser ≠ 0) (hflag : flag &&& processTypeKernel = 0)
    (hstack : pageTurns (sub32 processUserStackBase userSp) ≤ 4) :
    ∃ regs' k', (userKernel ram).doFork regs userSp flag = some (0, regs', 0x80140000, k') := by
  rcases userKernel_fork ram userSp flag huser hflag with ⟨k₁, hnew⟩
  have hlists : ((userKernel ram).task (userKernel ram).current).mm = userTask.mm := rfl
  have hpages : pageTurns (add32 userTask.mm.elfSize pageSize) = 3 := by decide
  refine Kernel.doFork_some (userKernel ram) k₁ regs userSp flag _ (userKernel_plain ram) huser hflag
    (by decide) (show 0x80140000 ≠ 0x80000900 by decide) (show 0x80000900 ≠ 0 by decide) hnew ?_ ?_
  · rw [hlists]
    have hlen : userTask.mm.elfStackList.length = 4 := List.length_range'
    rw [hlen]
    exact ⟨hstack, hstack⟩
  · rw [hlists, hpages]
    have hlen : userTask.mm.elfImageList.length = 256 := List.length_range'
    rw [hlen]
    exact ⟨by decide, by decide⟩

end Mirros
