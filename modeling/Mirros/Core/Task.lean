import Mirros.Core.Mmu
import Mirros.Core.Slab
import Mirros.Core.Sched

/-!
# Tasks and Their Memory

The part of `kernel/task.c` that gives a task its memory: the kernel stack, the
page tables and the pages for the image and the stack of a user task, `fork`,
and the switch of the translation tables to another task, with the registers of
`arch/arm/machine/arm920t_c.c` and the system call of `syscall.c` and
`syscall_entry.S`.

A task is named by the address of its `struct task_struct`. The lists of pages of
a task are Lean lists of page numbers in the order of the list: a page is only
ever appended, walked over, or removed together with all others, and is on one
list at a time. What the scheduler keeps in the structure is in `Core.Sched`; the
name, the state and the exit code are not read here.

As elsewhere `none` is a call that does not come back or walks off a list onto
something that is not a page. Errors are the negative numbers of `errno.h`.

## Main definitions

* `MmStruct`, `Process`, `PidMap`, `Kernel`: The data.
* `PtRegs`: A saved context.
* `allocKernelStack`, `allocPageTable`, `taskMapMemory`, `allocMemoryAndMap`,
  `allocMemoryForTask`: Memory for a new task.
* `switchTask`: Installing the tables of a task.
* `forkNewTask`, `copyProcessMemory`, `doFork`, `sysFork`: Making a task.
* `archSetUpTaskStack`, `archSetTaskReturnValue`: Its first context.
-/

namespace Mirros

/-- `PROCESS_FLAG_FORK` -/
def processFlagFork : Nat := 0x10

/-- `PROCESS_STACK_SIZE` -/
def processStackSize : Nat := 4 * pageSize

/-- `PROCESS_IMAGE_SIZE` -/
def processImageSize : Nat := 256 * pageSize

/-- `PROCESS_USER_STACK_BASE` -/
def processUserStackBase : Nat := 0x80000000

/-- `PROCESS_USER_BASE` -/
def processUserBase : Nat := 0x400000

/-- `PROCESS_USER_EXEC_BASE` -/
def processUserExecBase : Nat := 0x401000

/-- `KERNEL_STACK_SIZE` -/
def kernelStackSize : Nat := 4 * 1024

/-- `sizeof(struct task_struct)` -/
def sizeofTaskStruct : Nat := 220

/-- `-ENOMEM` -/
def errNoMem : Int := -12

/-- `-EFAULT` -/
def errFault : Int := -14

/-- `struct mm_struct`. The current page table of the stack and of the image are
    pointers into `stack_list` and `elf_list`. -/
structure MmStruct where
  elfSize : Nat
  stackSize : Nat
  stackCurr : Option Nat
  elfCurr : Option Nat
  stackList : List Nat
  elfList : List Nat
  elfStackList : List Nat
  elfImageList : List Nat
  deriving DecidableEq, Repr

/-- The part of `struct task_struct` that `task.c` works on. `child` is the list
    of the `p` nodes of the children, by their tasks. -/
structure Process where
  stackBase : Nat
  stackOrigin : Nat
  flag : Nat
  pid : Int
  uid : Nat
  parent : Nat
  child : List Nat
  mm : MmStruct
  deriving DecidableEq, Repr

/-- `struct pid_map`: the entries hold the addresses of tasks. -/
structure PidMap where
  addr : Nat → Nat
  nr : Nat
  nrFree : Nat
  current : Nat

/-- `pt_regs` -/
structure PtRegs where
  r0 : Nat
  r1 : Nat
  r2 : Nat
  r3 : Nat
  r4 : Nat
  r5 : Nat
  r6 : Nat
  r7 : Nat
  r8 : Nat
  r9 : Nat
  r10 : Nat
  r11 : Nat
  r12 : Nat
  spsr : Nat
  lr : Nat
  sp : Nat
  cpsr : Nat
  pc : Nat
  deriving DecidableEq, Repr

/-- The allocators, the memory, the level-one table, the pid map and the tasks. -/
structure Kernel where
  slab : Slab
  ram : Ram
  tlb : TlbTable
  pidMap : PidMap
  task : Nat → Process
  current : Nat
  idle : Nat

namespace Kernel

/-- The page allocator. -/
def mm (k : Kernel) : Mm :=
  k.slab.mm

/-- Replace the page allocator. -/
def setMm (k : Kernel) (mm : Mm) : Kernel :=
  { k with slab := { k.slab with mm := mm } }

/-- Replace one task. -/
def setTask (k : Kernel) (t : Nat) (p : Process) : Kernel :=
  { k with task := Function.update k.task t p }

/-- Replace the memory structure of a task. -/
def setTaskMm (k : Kernel) (t : Nat) (ms : MmStruct) : Kernel :=
  k.setTask t { k.task t with mm := ms }

/-- `_release_task_memory` -/
def releaseList (k : Kernel) (pages : List Nat) : Option Kernel := do
  let mm ← pages.foldlM (fun mm p => mm.freePages (mm.pageIdToVa p)) k.mm
  return k.setMm mm

/-- `release_task_page_table` -/
def releaseTaskPageTable (k : Kernel) (t : Nat) : Option Kernel := do
  let ms := (k.task t).mm
  let k ← k.releaseList ms.stackList
  let k ← k.releaseList ms.elfList
  return k.setTaskMm t { ms with stackList := [], elfList := [] }

/-- `release_task_pages` -/
def releaseTaskPages (k : Kernel) (t : Nat) : Option Kernel := do
  let ms := (k.task t).mm
  let k ← k.releaseList ms.elfStackList
  let k ← k.releaseList ms.elfImageList
  return k.setTaskMm t { ms with elfStackList := [], elfImageList := [] }

/-- `release_kernel_stack` -/
def releaseKernelStack (k : Kernel) (t : Nat) : Option Kernel := do
  let mm ← if (k.task t).stackOrigin ≠ 0 then k.mm.freePages (k.task t).stackOrigin
    else some k.mm
  let k := k.setMm mm
  return k.setTask t { k.task t with stackBase := 0, stackOrigin := 0 }

/-- `release_task_memory` -/
def releaseTaskMemory (k : Kernel) (t : Nat) : Option Kernel := do
  let k ← if (k.task t).flag &&& processTypeUser ≠ 0 then do
      let k ← k.releaseTaskPages t
      k.releaseTaskPageTable t
    else some k
  k.releaseKernelStack t

/-- The body of the first loop of `alloc_page_table`: one more table for the
    stack, which is filled from its last word down. -/
def addStackTable (k : Kernel) (t : Nat) : Option (Bool × Kernel) := do
  let (addr, mm) ← k.mm.getFreePage gfpPgt
  if addr = 0 then
    return (false, k.setMm mm)
  let q := mm.vaToPageId addr
  let page := mm.pageTable q
  -- The table is entered from its last word down.
  let mm := mm.setPage q { page with freeBase := add32 page.freeBase (pageSize - 4) }
  let ms := (k.task t).mm
  return (true, (k.setMm mm).setTaskMm t { ms with stackList := ms.stackList ++ [q] })

/-- The body of the second loop of `alloc_page_table`: one more table for the
    image. -/
def addElfTable (k : Kernel) (t : Nat) : Option (Bool × Kernel) := do
  let (addr, mm) ← k.mm.getFreePage gfpPgt
  if addr = 0 then
    return (false, k.setMm mm)
  -- The table is entered from its first word up.
  let ms := (k.task t).mm
  return (true, (k.setMm mm).setTaskMm t
    { ms with elfList := ms.elfList ++ [mm.vaToPageId addr] })

/-- A loop that stops at the first turn that fails. -/
def whileOk (body : Kernel → Option (Bool × Kernel)) : Nat → Kernel → Option (Bool × Kernel)
  | 0, k => some (true, k)
  | n + 1, k => do
      let (ok, k) ← body k
      if ok then whileOk body n k else return (false, k)

/-- `alloc_page_table` -/
def allocPageTable (k : Kernel) (t : Nat) : Option (Int × Kernel) := do
  let (ok, k) ← whileOk (fun k => k.addStackTable t) ((processStackSize + size1M - 1) / size1M) k
  if !ok then
    -- The tables that were made so far are given back.
    let k ← k.releaseTaskPageTable t
    return (errNoMem, k)
  let ms := (k.task t).mm
  let k := k.setTaskMm t { ms with stackCurr := ms.stackList.head? }
  let (ok, k) ← whileOk (fun k => k.addElfTable t) ((processImageSize + size1M - 1) / size1M) k
  if !ok then
    let k ← k.releaseTaskPageTable t
    return (errNoMem, k)
  let ms := (k.task t).mm
  return (0, k.setTaskMm t { ms with elfCurr := ms.elfList.head? })

/-- The page table a new page is entered into: the first from the current one on
    that has room. Past the last one the head of the list is taken for a page. -/
def openTable (k : Kernel) (list : List Nat) (curr : Option Nat) : Option Nat :=
  match curr with
  | none => none
  | some c => (list.dropWhile (· ≠ c)).find? (fun q => (k.mm.pageTable q).freeSize ≠ 0)

/-- `task_map_memory`. `elf` tells `PROCESS_MAP_ELF` from `PROCESS_MAP_STACK`. -/
def taskMapMemory (k : Kernel) (addr t : Nat) (elf : Bool) : Option Kernel := do
  let ms := (k.task t).mm
  let q ← if elf then k.openTable ms.elfList ms.elfCurr else k.openTable ms.stackList ms.stackCurr
  let page := k.mm.pageTable q
  -- The offset between the addresses is that of the page.
  let ram := (buildPageTableEntry k.ram page.freeBase (k.mm.vaToPa addr) pageSize 0).1
  let mm := k.mm.setPage q { page with
    freeBase := if elf then add32 page.freeBase 4 else sub32 page.freeBase 4
    freeSize := sub16 page.freeSize 4 }
  return { k.setMm mm with ram := ram }

/-- The body of the loops of `alloc_memory_and_map`. -/
def addPage (t : Nat) (elf : Bool) (k : Kernel) : Option (Bool × Kernel) := do
  let (addr, mm) ← k.mm.getFreePage gfpKernel
  let k := k.setMm mm
  if addr = 0 then
    return (false, k)
  let k ← k.taskMapMemory addr t elf
  let q := k.mm.vaToPageId addr
  let ms := (k.task t).mm
  return (true, k.setTaskMm t
    (if elf then { ms with elfImageList := ms.elfImageList ++ [q] }
      else { ms with elfStackList := ms.elfStackList ++ [q] }))

/-- `mm_free_page(MM_ZONE_NORMAL)`: of the zone numbers only zero passes the
    test for this flag. -/
def mmFreePageNormal (k : Kernel) : Nat :=
  (k.mm.zone .normal).freePages

/-- `alloc_memory_and_map` -/
def allocMemoryAndMap (k : Kernel) (t : Nat) : Option (Int × Kernel) := do
  let s := pageNr processStackSize
  let e := pageNr processImageSize
  -- The tables have been allocated before and are not counted.
  if k.mmFreePageNormal < s + e then
    return (errNoMem, k)
  let (ok, k) ← whileOk (addPage t false) s k
  if !ok then
    -- Everything the task has is released, its tables and its kernel stack as well.
    let k ← k.releaseTaskMemory t
    return (errNoMem, k)
  let (ok, k) ← whileOk (addPage t true) e k
  if !ok then
    let k ← k.releaseTaskMemory t
    return (errNoMem, k)
  return (0, k)

/-- `alloc_kernel_stack` -/
def allocKernelStack (k : Kernel) (t : Nat) : Option (Int × Kernel) := do
  if (k.task t).stackBase ≠ 0 then
    return (errInval, k)
  let (addr, mm) ← k.mm.getFreePages (kernelStackSize / pageSize : Nat) gfpKernel
  let k := k.setMm mm
  let k := k.setTask t { k.task t with stackBase := addr, stackOrigin := addr }
  return (if addr = 0 then errNoMem else 0, k)

/-- `alloc_memory_for_task` -/
def allocMemoryForTask (k : Kernel) (t : Nat) : Option (Int × Kernel) := do
  let (ret, k) ← k.allocKernelStack t
  if ret ≠ 0 then
    return (ret, k)
  if (k.task t).flag &&& processTypeUser ≠ 0 then
    let (ret, k) ← k.allocPageTable t
    if ret ≠ 0 then
      -- The tables are free again, and only the stack is left.
      let k ← k.releaseKernelStack t
      return (errNoMem, k)
    let (ret, k) ← k.allocMemoryAndMap t
    if ret ≠ 0 then
      -- Nothing is freed twice: `stack_origin` is zero by now.
      let k ← k.releaseKernelStack t
      return (errNoMem, k)
    return (0, k)
  return (0, k)

/-- The loop of `switch_task` over the tables of the stack. -/
def installStack (mm : Mm) : List Nat → Nat → TlbTable → TlbTable
  | [], _, tlb => tlb
  | q :: rest, stackBase, tlb =>
      let base := sub32 stackBase (4 * size1M)
      let tlb := (buildTlbTableEntry tlb base (mm.pageTable q).phyAddress (4 * size1M)
        tlbAttrUserMemory).1
      installStack mm rest base tlb

/-- The loop of `switch_task` over the tables of the image. -/
def installElf (mm : Mm) : List Nat → Nat → TlbTable → TlbTable
  | [], _, tlb => tlb
  | q :: rest, taskBase, tlb =>
      let tlb := (buildTlbTableEntry tlb taskBase (mm.pageTable q).phyAddress (4 * size1M)
        tlbAttrUserMemory).1
      installElf mm rest (add32 taskBase (4 * size1M)) tlb

/-- `switch_task`, with zero for the null pointer. -/
def switchTask (k : Kernel) (cur next : Nat) : Int × Kernel :=
  if cur = 0 ∨ next = 0 then (errInval, k)
  -- The tables of the task before stay where they are.
  else if (k.task next).flag &&& processTypeKernel ≠ 0 then (0, k)
  else
    let ms := (k.task next).mm
    let tlb := installStack k.mm ms.stackList processUserStackBase k.tlb
    (0, { k with tlb := installElf k.mm ms.elfList processUserBase tlb })

/-- `init_mm_struct` -/
def initMmStruct (k : Kernel) (t userSp : Nat) : Kernel :=
  if (k.task t).flag &&& processTypeUser ≠ 0 then
    k.setTaskMm t
      { elfSize := (k.task (k.task t).parent).mm.elfSize
        stackSize := sub32 processUserStackBase userSp
        stackCurr := none
        elfCurr := none
        stackList := []
        elfList := []
        elfStackList := []
        elfImageList := [] }
  else k

/-- `get_new_pid`. The cursor moves by one whatever entry was found. -/
def getNewPid (k : Kernel) (t : Nat) : Int × Kernel :=
  let map := k.pidMap
  if map.nrFree = 0 then (-1, k)
  else
    match (List.range' map.current (map.nr - map.current)).find? (fun i => map.addr i = 0) with
    | some i => (i, { k with pidMap := { map with
        nrFree := map.nrFree - 1
        current := map.current + 1
        addr := Function.update map.addr i t } })
    | none => (-1, k)

/-- `init_task_struct` -/
def initTaskStruct (k : Kernel) (t flag : Nat) : Int × Kernel :=
  let parent := if flag &&& processTypeKernel ≠ 0 then k.idle else k.current
  let (pid, k) := k.getNewPid t
  -- The pid is set before it is looked at.
  let k := k.setTask t { k.task t with pid := pid }
  if pid < 0 then (errInval, k)
  else
    let k := k.setTask t { k.task t with
      uid := (k.task parent).uid
      stackBase := 0
      flag := flag
      parent := parent
      child := [] }
    (0, k.setTask parent { k.task parent with child := t :: (k.task parent).child })

/-- `fork_new_task`: the address of the task, or zero. -/
def forkNewTask (k : Kernel) (userSp flag : Nat) : Option (Nat × Kernel) := do
  let (new, slab) ← k.slab.kmalloc sizeofTaskStruct gfpKernel
  let k := { k with slab := slab }
  if new = 0 then
    return (0, k)
  let (ret, k) := k.initTaskStruct new flag
  if ret ≠ 0 then
    -- The pid is not released.
    let slab ← k.slab.kfree new
    return (0, { k with slab := slab })
  let k := k.initMmStruct new userSp
  let (ret, k) ← k.allocMemoryForTask new
  if ret ≠ 0 then
    -- The pid is not released, and the parent keeps its child.
    let slab ← k.slab.kfree new
    return (0, { k with slab := slab })
  return (new, k)

/-- `copy_page_va` -/
def copyPageVa (ram : Ram) (target source : Nat) : Ram :=
  fun x => if target ≤ x ∧ x < target + pageSize then ram (source + (x - target)) else ram x

/-- The loops of `copy_process_memory`: the first `n` pages of two lists. Past
    the end of a list its head is taken for a page. -/
def copyPages (mm : Mm) : Nat → List Nat → List Nat → Ram → Option Ram
  | 0, _, _, ram => some ram
  | n + 1, old :: olds, new :: news, ram =>
      copyPages mm n olds news (copyPageVa ram (mm.pageIdToVa new) (mm.pageIdToVa old))
  | _ + 1, _, _, _ => none

/-- `copy_process_memory`. Both sizes and both counts of pages are signed. -/
def copyProcessMemory (k : Kernel) (old new : Nat) : Option Kernel := do
  let om := (k.task old).mm
  let nm := (k.task new).mm
  let ram ← copyPages k.mm (pageTurns nm.stackSize) om.elfStackList nm.elfStackList k.ram
  -- The page of the arguments comes on top of the sections.
  let ram ← copyPages k.mm (pageTurns (add32 nm.elfSize pageSize)) om.elfImageList
    nm.elfImageList ram
  return { k with ram := ram }

/-- `copy_process` -/
def copyProcess (k : Kernel) (new : Nat) : Option Kernel :=
  let old := (k.task new).parent
  if old ≠ 0 then k.copyProcessMemory old new else some k

end Kernel

/-- The words of a context from the lowest address of its frame up: the order of
    the members of `pt_regs`. -/
def PtRegs.frame (regs : PtRegs) : List Nat :=
  [regs.r0, regs.r1, regs.r2, regs.r3, regs.r4, regs.r5, regs.r6, regs.r7, regs.r8, regs.r9,
    regs.r10, regs.r11, regs.r12, regs.spsr, regs.lr, regs.sp, regs.cpsr, regs.pc]

/-- The order in which `arch_set_up_task_stack` pushes a context. -/
def PtRegs.pushed (regs : PtRegs) : List Nat :=
  [regs.pc, regs.cpsr, regs.sp, regs.lr, regs.spsr, regs.r12, regs.r11, regs.r10, regs.r9,
    regs.r8, regs.r7, regs.r6, regs.r5, regs.r4, regs.r3, regs.r2, regs.r1, regs.r0]

/-- Push words one after the other: the memory and the address of the last. -/
def pushWords (ram : Ram) (stackBase : Nat) (ws : List Nat) : Ram × Nat :=
  ws.foldl (fun acc w => (store32 acc.1 (sub32 acc.2 4) w, sub32 acc.2 4)) (ram, stackBase)

/-- `arch_set_task_return_value` -/
def archSetTaskReturnValue (regs : PtRegs) (task : Process) : PtRegs :=
  { regs with r0 := (task.pid % u32Size).toNat }

namespace Kernel

/-- `arch_set_up_task_stack` -/
def archSetUpTaskStack (k : Kernel) (t : Nat) (regs : PtRegs) : Int × Kernel :=
  if (k.task t).stackBase = 0 then (errFault, k)
  else
    let top := add32 (k.task t).stackOrigin kernelStackSize
    let (ram, base) := pushWords k.ram top regs.pushed
    (0, { k.setTask t { k.task t with stackBase := base } with ram := ram })

/-- `do_fork`: the result, the registers the caller passed, which it may have
    changed, and the new task. -/
def doFork (k : Kernel) (regs : PtRegs) (userSp flag : Nat) :
    Option (Int × PtRegs × Nat × Kernel) := do
  let (new, k) ← k.forkNewTask userSp flag
  if new = 0 then
    return (errNoMem, regs, 0, k)
  let k ← if flag &&& processTypeUser ≠ 0 then k.copyProcess new else some k
  -- The new task gets a copy of the registers with this value in them.
  let regs := if flag &&& processFlagFork ≠ 0 then archSetTaskReturnValue regs (k.task new)
    else regs
  let (_, k) := k.archSetUpTaskStack new regs
  return (0, regs, new, k)

/-- `sys_fork` on the context `get_pt_regs` finds. -/
def sysFork (k : Kernel) (regs : PtRegs) : Option (Int × PtRegs × Nat × Kernel) :=
  k.doFork regs regs.sp (processTypeUser ||| processFlagFork)

/-- The end of `_syscall_handler`: the result is stored into the context. -/
def syscallFork (k : Kernel) (regs : PtRegs) : Option (PtRegs × Nat × Kernel) := do
  let (ret, regs, new, k) ← k.sysFork regs
  return ({ regs with r0 := (ret % u32Size).toNat }, new, k)

end Kernel

end Mirros
