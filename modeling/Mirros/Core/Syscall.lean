import Mirros.Core.Exec

/-!
# System Calls

The table of system calls of `kernel/syscall.c` and the jump through it in
`arch/arm/machine/syscall_entry.S`.

The table is an array of words in the memory of the kernel, the address of a
handler for each number or zero. The list of `struct syscall` that the linker
makes of the `.__syscall` section is a list here. `kernel_error` only prints, so
the error of `install_syscall` has no further effect. As elsewhere `none` is a
call that does not come back, here the `panic` when there is no page for the
table.

## Main definitions

* `installSyscall`, `syscallInit`: Filling the table.
* `syscallHandler`: The jump of `_syscall_handler`.
-/

namespace Mirros

/-- `__NR_SYSCALL_BASE` -/
def nrSyscallBase : Nat := 0x900000

/-- `SYSCALL_NR` -/
def syscallNr : Nat := 1024

/-- `struct syscall` -/
structure Syscall where
  nr : Int
  addr : Nat
  deriving DecidableEq, Repr

/-- `install_syscall`. An entry that is taken stays as it is. -/
def installSyscall (ram : Ram) (syscallTableBase : Nat) (nr : Int) (addr : Nat) : Int × Ram :=
  let realNr := nr - nrSyscallBase
  -- Both ends of the range are tested here.
  if realNr > syscallNr - 1 ∨ realNr < 0 ∨ addr = 0 then (errInval, ram)
  else
    let tmp := add32 syscallTableBase (4 * realNr.toNat)
    -- The first entry for a number wins, and the error of a later one is ignored.
    if load32 ram tmp = 0 then (0, store32 ram tmp addr) else (errInval, ram)

namespace Kernel

/-- `syscall_init`, with the address of the table. -/
def syscallInit (k : Kernel) (table : List Syscall) : Option (Nat × Kernel) := do
  let pages := pageNr (syscallNr * 4)
  let (syscallTableBase, mm) ← k.mm.getFreePages pages gfpKernel
  let k := k.setMm mm
  -- `panic`
  if syscallTableBase = 0 then none else
  let ram := memzero k.ram syscallTableBase (pages * pageSize)
  return (syscallTableBase, { k with
    ram := table.foldl (fun ram e => (installSyscall ram syscallTableBase e.nr e.addr).2) ram })

end Kernel

/-- Where `_syscall_handler` goes: the address the handler was read from, the
    handler, its arguments in registers and those on its stack. -/
structure SyscallJump where
  slot : Nat
  target : Nat
  args : List Nat
  stack : List Nat
  deriving DecidableEq, Repr

/-- `_syscall_handler` up to the jump. `lsl #2` drops the two bits at the top. -/
def syscallHandler (ram : Ram) (syscallTableBase defaultSyscallHandler : Nat)
    (regs : PtRegs) : SyscallJump :=
  -- No test of the range here.
  let nr := sub32 regs.r7 nrSyscallBase
  let slot := add32 syscallTableBase (nr * 4 % u32Size)
  -- The word is loaded from wherever the sum points.
  let handler := load32 ram slot
  { slot := slot
    target := if handler = 0 then defaultSyscallHandler else handler
    args := [regs.r0, regs.r1, regs.r2, regs.r3]
    stack := [regs.r4, regs.r5, regs.r6] }

end Mirros
