import Mirros.Core.Task

/-!
# Running a Program

The part of `kernel/task.c` that replaces the image of a task: `load_elf_section`,
`load_elf_image`, `setup_task_argv` and `do_exec`, with the files of
`kernel/ramdisk.c`, the string functions of `kernel/string.c` and the registers of
`arch/arm/machine/arm920t_c.c`.

A file is a part of the ramdisk, which lies in the memory of the kernel. The list of
sections is what `get_elf_info` made of the file; opening the file and reading its
headers only fill buffers of their own. User addresses are read through the pages of
the running task, as the hardware does with its tables.

As elsewhere `none` is a call that does not come back or walks off a list of pages,
and also an access through a user address that is not mapped.

## Main definitions

* `RamFile`, `ramdiskRead`, `ramdiskSeek`: Files.
* `ElfSection`: A section of a program.
* `loadElfSection`, `loadElfImage`: Loading a program.
* `userVa`, `userByte`: The memory of a task.
* `accessVa`, `accessByte`, `accessWord`, `strlen`, `strcpy`: Access to memory while a task
  runs.
* `archInitPtRegs`, `setupTaskArgv`, `doExec`: Starting it.
-/

namespace Mirros

/-- `MAX_ARGV` -/
def maxArgv : Nat := 16

/-- `USER_MODE` -/
def userMode : Nat := 0x10

/-- `struct file` -/
structure RamFile where
  base : Nat
  size : Nat
  curr : Nat
  deriving DecidableEq, Repr

/-- `struct elf_section`, without the link to the next one. -/
structure ElfSection where
  name : List Char
  offset : Nat
  size : Nat
  loadAddr : Nat
  deriving DecidableEq, Repr

/-- `strncmp(section->name, ".bss", 4) == 0` -/
def ElfSection.isBss (s : ElfSection) : Bool :=
  s.name.take 4 = ['.', 'b', 's', 's']

/-- `memcpy` between areas that do not overlap. -/
def memcpy (ram : Ram) (target source n : Nat) : Ram :=
  fun x => if target ≤ x ∧ x < target + n then ram (source + (x - target)) else ram x

/-- `memset` with zero. -/
def memzero (ram : Ram) (target n : Nat) : Ram :=
  fun x => if target ≤ x ∧ x < target + n then 0#8 else ram x

/-- `ramdisk_seek` -/
def ramdiskSeek (file : RamFile) (offset : Nat) : RamFile :=
  { file with curr := file.base + min file.size offset }

/-- `ramdisk_read`: a read stops at the end of the file. -/
def ramdiskRead (ram : Ram) (file : RamFile) (buf size : Nat) : Ram × RamFile :=
  let copySize := min size (file.base + file.size - file.curr)
  (memcpy ram buf file.curr copySize, { file with curr := file.curr + copySize })

/-- The loop of `load_elf_section` over the pages of the image, with `j` the offset
    in the first one and `k` the bytes to go. A last part shorter than a page is
    loaded in one piece, also when it starts in the middle of the first page. -/
def loadPages (mm : Mm) (isBss : Bool) :
    List Nat → Nat → Nat → Ram → RamFile → Option (Ram × RamFile)
  | [], _, _, _, _ => none
  | q :: rest, j, k, ram, file =>
      let baseAddr := (mm.pageTable q).freeBase + j
      -- Only with a page or more to go is the offset taken into account.
      let n := if pageSize ≤ k then pageSize - j else k
      let (ram, file) :=
        if isBss then (memzero ram baseAddr n, file) else ramdiskRead ram file baseAddr n
      if 0 < k - n then loadPages mm isBss rest 0 (k - n) ram file else some (ram, file)

namespace Kernel

/-- `load_elf_section`. The size is kept in an `int`. A size that is negative as one, and a
    section past the last page of the image, have no result here; what the source does with
    them, down to the list heads, is `loadElfSectionAt`. -/
def loadElfSection (k : Kernel) (t : Nat) (file : RamFile) (s : ElfSection) :
    Option (Int × RamFile × Kernel) := do
  if s.loadAddr < processUserExecBase ∨ s.size = 0 then
    -- An empty section is an error too.
    return (errInval, file, k)
  -- As an `int` the size would be negative, and `read` would be asked for that many bytes.
  if 0x80000000 ≤ s.size then none else do
  let base := s.loadAddr - processUserBase
  let ms := (k.task t).mm
  -- The size is added before anything has been read.
  let k := k.setTaskMm t { ms with elfSize := add32 ms.elfSize s.size }
  let (ram, file) ← loadPages k.mm s.isBss (ms.elfImageList.drop (base / pageSize))
    (base % pageSize) s.size k.ram (ramdiskSeek file s.offset)
  return (0, file, { k with ram := ram })

/-- The loop of `load_elf_image`. -/
def loadElfSections (k : Kernel) (t : Nat) (file : RamFile) :
    List ElfSection → Option (Int × RamFile × Kernel)
  | [] => some (0, file, k)
  | s :: rest => do
      let (ret, file, k) ← k.loadElfSection t file s
      -- A failure keeps what the sections before it have loaded.
      if ret ≠ 0 then return (ret, file, k) else loadElfSections k t file rest

/-- `load_elf_image` -/
def loadElfImage (k : Kernel) (t : Nat) (file : RamFile) (sections : List ElfSection) :
    Option (Int × RamFile × Kernel) :=
  (k.setTaskMm t { (k.task t).mm with elfSize := 0 }).loadElfSections t file sections

/-- Where the kernel has a byte of the image or the stack of a task. -/
def userVa (mm : Mm) (ms : MmStruct) (va : Nat) : Option Nat :=
  if processUserBase ≤ va ∧ va < processUserBase + processImageSize then
    (ms.elfImageList[(va - processUserBase) / pageSize]?).map
      (fun q => mm.pageIdToVa q + va % pageSize)
  else if processUserStackBase - processStackSize ≤ va ∧ va < processUserStackBase then
    (ms.elfStackList[(processUserStackBase - 1 - va) / pageSize]?).map
      (fun q => mm.pageIdToVa q + va % pageSize)
  else none

/-- The byte at a user address. -/
def userByte (mm : Mm) (ms : MmStruct) (ram : Ram) (va : Nat) : Option (BitVec 8) :=
  (userVa mm ms va).map ram

/-- Where the kernel finds the byte at an address while a task runs. The upper half of the
    addresses is that of the kernel, and the same for every task. -/
def accessVa (mm : Mm) (ms : MmStruct) (va : Nat) : Option Nat :=
  if processUserStackBase ≤ va then (if va < u32Size then some va else none) else userVa mm ms va

/-- The byte at an address. -/
def accessByte (mm : Mm) (ms : MmStruct) (ram : Ram) (va : Nat) : Option (BitVec 8) :=
  (accessVa mm ms va).map ram

/-- The word at an address. -/
def accessWord (mm : Mm) (ms : MmStruct) (ram : Ram) (va : Nat) : Option Nat :=
  (accessVa mm ms va).map (load32 ram)

/-- `strlen`, with a bound on the turns of its loop. -/
def strlen (mm : Mm) (ms : MmStruct) (ram : Ram) : Nat → Nat → Option Nat
  | 0, _ => none
  | n + 1, buf => do
      let byte ← accessByte mm ms ram buf
      -- Where nothing is mapped nothing is defined.
      if byte = 0 then some 0 else (strlen mm ms ram n (add32 buf 1)).map (· + 1)

/-- `strcpy` to an address of the kernel, with a bound on the turns of its loop. -/
def strcpy (mm : Mm) (ms : MmStruct) : Nat → Ram → Nat → Nat → Option Ram
  | 0, _, _, _ => none
  | n + 1, ram, des, src => do
      let byte ← accessByte mm ms ram src
      let ram := Function.update ram des byte
      if byte = 0 then some ram else strcpy mm ms n ram (add32 des 1) (add32 src 1)

/-- The loop of `arch_init_pt_regs` that counts the arguments, with a bound on its
    turns. -/
def countArgv (mm : Mm) (ms : MmStruct) (ram : Ram) : Nat → Nat → Option Nat
  | 0, _ => none
  | n + 1, tmp => do
      let word ← accessWord mm ms ram tmp
      if word = 0 then some 0 else (countArgv mm ms ram n (add32 tmp 4)).map (· + 1)

/-- `arch_init_pt_regs` with no function: the context of a program that starts. A loop over
    addresses cannot make more turns than there are addresses. -/
def archInitPtRegs (k : Kernel) (arg : Nat) : Option PtRegs := do
  let n ← if arg = 0 then some 0 else countArgv k.mm (k.task k.current).mm k.ram u32Size arg
  return { r0 := n % u32Size, r1 := processUserBase, r2 := 2, r3 := 3, r4 := 4, r5 := 5, r6 := 6,
           r7 := 7, r8 := 8, r9 := 9, r10 := 10, r11 := 11, r12 := 12, spsr := 15, lr := 14,
           sp := processUserStackBase, cpsr := userMode, pc := processUserExecBase }

/-- The loop of `setup_task_argv`, with the turns to go and the three pointers. -/
def setupArgs (mm : Mm) (ms : MmStruct) :
    Nat → Nat → Nat → Nat → Nat → Ram → Option Ram
  | 0, _, _, _, _, ram => some ram
  | n + 1, argv, argvBase, loadBase, tableBase, ram => do
      let arg ← accessWord mm ms ram argv
      -- The table is not closed with a null pointer.
      if arg = 0 then some ram
      else do
        let length ← strlen mm ms ram u32Size arg
        let ram ← strcpy mm ms u32Size ram loadBase arg
        -- Only the length is counted, so the next argument may overwrite the end of this one.
        setupArgs mm ms n (add32 argv 4) (baligin (add32 argvBase length) 4)
          (baligin (add32 loadBase length) 4) (add32 tableBase 4) (store32 ram tableBase argvBase)

/-- `setup_task_argv`: the table of the arguments and the arguments are stored at the
    start of the first page of the image. -/
def setupTaskArgv (k : Kernel) (t argv : Nat) : Option (Int × Kernel) :=
  if argv = 0 then some (errInval, k)
  else
    match (k.task t).mm.elfImageList with
    | [] => none
    | q :: _ => do
        let tableBase := k.mm.pageIdToVa q
        let ram ← setupArgs k.mm (k.task k.current).mm maxArgv argv (processUserBase + maxArgv * 4)
          (add32 tableBase (maxArgv * 4)) tableBase k.ram
        return (0, { k with ram := ram })

/-- `release_task` -/
def releaseTask (k : Kernel) (t : Nat) : Option Kernel := do
  if t = 0 then return k
  let k ← k.releaseTaskMemory t
  let slab ← k.slab.kfree t
  return { k with slab := slab }

/-- `do_exec`, from where the file is open and its headers are read. The task whose image
    is replaced, `new`, is the one that runs, or has been forked for a kernel task. -/
def doExec (k : Kernel) (new : Nat) (file : RamFile) (sections : List ElfSection) (argv : Nat)
    (regs : PtRegs) : Option (Int × PtRegs × Kernel) := do
  -- The sections go over the image there is.
  let (err, _, k) ← k.loadElfImage new file sections
  let kernelTask := (k.task k.current).flag &&& processTypeKernel ≠ 0
  if err ≠ 0 then
    let k ← if kernelTask then k.releaseTask new else some k
    return (err, regs, k)
  let regs ← k.archInitPtRegs argv
  -- The result is not looked at.
  let (_, k) ← k.setupTaskArgv new argv
  let k := if kernelTask then (k.archSetUpTaskStack new regs).2 else k
  return (0, regs, k)

end Kernel

end Mirros
