import Mirros.Lib.Modes
import Mirros.Core.Syscall

/-!
# Entering and Leaving the Kernel

The code of `arch/arm/machine/entry.S`, `arm920t_s.S` and `syscall_entry.S` that saves what
a task was doing and goes back to it: the entries for interrupts and for system calls, the
exit from an interrupt, and the switch to another task. The routines stand one after the other
here, and a label is the number of instructions in front of it. The vectors, the entries that
end in a panic and the one for fast interrupts are left out.

What is saved is a `pt_regs` at the top of the kernel stack of the task, of 18 words.

## Main definitions

* `Symbols`: The addresses the code refers to.
* `entryCode`: The instructions.
* `Symbols.program`: The program they make.
-/

namespace Mirros

open Modes

/-- `MODE_MASK` -/
def modeMask : Word := 0x1f

/-- `USER_MODE` -/
def userModeBits : BitVec 8 := 0x10

/-- `IRQ_MODE` -/
def irqModeBits : BitVec 8 := 0x12

/-- `SVC_MODE` -/
def svcModeBits : BitVec 8 := 0x13

/-- `SYSTEM_MODE` -/
def systemModeBits : BitVec 8 := 0x1f

/-- `NO_INT` -/
def noInt : BitVec 8 := 0xc0

/-- The size of a `pt_regs`. -/
def ptRegsSize : Word := 72

/-- The addresses of the functions and variables of the kernel that the code uses, and its own. -/
structure Symbols where
  org : Word
  irqHandler : Word
  switchTask : Word
  current : Word
  nextRun : Word
  syscallTableBase : Word
  defaultSyscallHandler : Word

namespace Symbols

/-- The address of an instruction. -/
def loc (x : Symbols) (i : Nat) : Word := x.org + BitVec.ofNat 32 (4 * i)

end Symbols

/-- `user_to_irq` -/
def userToIrq : Nat := 46

/-- `svc_to_irq` -/
def svcToIrq : Nat := 53

/-- `exit_irq_from_user` -/
def exitIrqFromUser : Nat := 60

/-- `exit_irq_from_svc` -/
def exitIrqFromSvc : Nat := 69

/-- `os_exit_irq` -/
def osExitIrq : Nat := 77

/-- The label `out` of `os_exit_irq`. -/
def osExitIrqOut : Nat := 98

/-- `arch_switch_task_sw` -/
def archSwitchTaskSw : Nat := 102

/-- `sw_switch_to_user` -/
def swSwitchToUser : Nat := 136

/-- `sw_switch_to_svc` -/
def swSwitchToSvc : Nat := 143

/-- `software_interrupt` -/
def softwareInterrupt : Nat := 149

/-- `_syscall_handler` -/
def syscallEntry : Nat := 181

/-- `irq` saves the context on the stack of the interrupt mode first. -/
def irqSave : List Instr :=
  [.subImm .lr .lr 4,
    .str .lr .sp (-4),
    .mrsSpsr .lr,
    .str .lr .sp (-8),
    .str .r0 .sp (-12),
    .str .r1 .sp (-16),
    .str .r2 .sp (-20),
    .str .r3 .sp (-24),
    .str .r4 .sp (-28),
    .andImm .r0 .lr modeMask,
    .cmpImm .r0 (userModeBits.setWidth 32)]

/-- Then it makes room on the stack of the task, ... -/
def irqRoom : List Instr :=
  [.mov .r1 .sp,
    .msrImm ((svcModeBits ||| noInt).setWidth 32),
    .subImm .sp .sp 20,
    .push [.r5, .r6, .r7, .r8, .r9, .r10, .r11, .r12]]

/-- ... copies what it saved there, ... -/
def irqMove : List Instr :=
  [.ldr .r5 .r1 (-12),
    .ldr .r6 .r1 (-16),
    .ldr .r7 .r1 (-20),
    .ldr .r8 .r1 (-24),
    .ldr .r9 .r1 (-28),
    .push [.r5, .r6, .r7, .r8, .r9]]

/-- ... and fills in the rest. -/
def irqFill : List Instr :=
  [.ldr .r5 .r1 (-4),
    .str .r5 .sp 68,
    .ldr .r5 .r1 (-8),
    .str .r5 .sp 64,
    .str .r4 .sp 60,
    .str .r3 .sp 56,
    .str .r2 .sp 52,
    .setMode (irqModeBits ||| noInt)]

/-- The mode of the context at `r0`. -/
def irqMode : List Instr :=
  [.ldr .r1 .r0 64,
    .andImm .r1 .r1 modeMask,
    .cmpImm .r1 (userModeBits.setWidth 32)]

/-- The registers of the context at `r0`. -/
def irqRestore : List Instr :=
  [.ldr .r1 .r0 64,
    .msrSpsr .r1,
    .mov .lr .r0,
    .ldmia .lr lows,
    .addImm .lr .lr 16]

/-- `irq` -/
def irqCode (x : Symbols) : List Instr :=
  irqSave ++
    [.bleq (x.loc userToIrq), .cmpImm .r0 (svcModeBits.setWidth 32), .bleq (x.loc svcToIrq)] ++
    irqRoom ++ irqMove ++ irqFill ++
    -- `os_exit_irq` returns the address of the context to go on with.
    [.bl x.irqHandler, .bl (x.loc osExitIrq)] ++ irqMode ++
    [.bleq (x.loc exitIrqFromUser), .cmpImm .r1 (svcModeBits.setWidth 32),
      .bleq (x.loc exitIrqFromSvc)] ++
    irqRestore ++ [.ldmPc .lr]

/-- `user_to_irq` -/
def userToIrqCode : List Instr :=
  [.mrs .r1,
    .msrImm ((systemModeBits ||| noInt).setWidth 32),
    .movImm .r2 0,
    .mov .r3 .lr,
    .mov .r4 .sp,
    .msr .r1,
    .movPc .lr]

/-- `svc_to_irq` -/
def svcToIrqCode : List Instr :=
  [.mrs .r1,
    .msrImm ((svcModeBits ||| noInt).setWidth 32),
    .mrsSpsr .r2,
    .mov .r3 .lr,
    .mov .r4 .sp,
    .msr .r1,
    .movPc .lr]

/-- `exit_irq_from_user` -/
def exitIrqFromUserCode : List Instr :=
  [.setMode (systemModeBits ||| noInt),
    .ldr .r2 .r0 60,
    .mov .sp .r2,
    .ldr .r2 .r0 56,
    .mov .lr .r2,
    .setMode (svcModeBits ||| noInt),
    .addImm .sp .r0 ptRegsSize,
    .setMode (irqModeBits ||| noInt),
    .movPc .lr]

/-- `exit_irq_from_svc` -/
def exitIrqFromSvcCode : List Instr :=
  [.setMode (svcModeBits ||| noInt),
    .addImm .sp .r0 ptRegsSize,
    .ldr .r2 .r0 56,
    .mov .lr .r2,
    .ldr .r2 .r0 52,
    .msrSpsr .r2,
    .setMode (irqModeBits ||| noInt),
    .movPc .lr]

/-- `os_exit_irq` -/
def osExitIrqCode (x : Symbols) : List Instr :=
  [.movImm .r0 x.current,
    .movImm .r1 x.nextRun,
    .ldr .r2 .r0 0,
    .ldr .r3 .r1 0,
    .cmpReg .r2 .r3,
    .beq (x.loc osExitIrqOut),
    .setMode (svcModeBits ||| noInt),
    .str .sp .r2 0,
    .setMode (irqModeBits ||| noInt),
    .mov .r0 .r2,
    .mov .r1 .r3,
    .push [.lr],
    .bl x.switchTask,
    .ldmia .sp [.lr],
    .movImm .r0 x.current,
    .movImm .r1 x.nextRun,
    .ldr .r2 .r0 0,
    .ldr .r3 .r1 0,
    .str .r3 .r0 0,
    .ldr .r0 .r3 0,
    .movPc .lr,
    -- `out`
    .setMode (svcModeBits ||| noInt),
    .mov .r0 .sp,
    .setMode (irqModeBits ||| noInt),
    .movPc .lr]

/-- `arch_switch_task_sw` -/
def archSwitchTaskSwCode (x : Symbols) : List Instr :=
  [.push [.lr],
    .subImm .sp .sp 16,
    .push lows,
    .mrs .r0,
    .str .r0 .sp 64,
    .mrsSpsr .r0,
    .str .r0 .sp 52,
    .str .lr .sp 56,
    .subImm .r0 .sp ptRegsSize,
    .str .r0 .sp 60,
    .movImm .r2 x.current,
    .movImm .r3 x.nextRun,
    .ldr .r0 .r2 0,
    .ldr .r1 .r3 0,
    .bl x.switchTask,
    .movImm .r0 x.current,
    .movImm .r1 x.nextRun,
    .ldr .r2 .r0 0,
    .str .sp .r2 0,
    .ldr .r2 .r1 0,
    .str .r2 .r0 0,
    .ldr .sp .r2 0,
    .ldr .r1 .sp 64,
    .andImm .r1 .r1 modeMask,
    .mov .r0 .sp,
    .cmpImm .r1 (userModeBits.setWidth 32),
    .bleq (x.loc swSwitchToUser),
    .cmpImm .r1 (svcModeBits.setWidth 32),
    .bleq (x.loc swSwitchToSvc),
    .ldr .r1 .sp 64,
    .msrSpsr .r1,
    .ldmia .sp lows,
    .addImm .sp .sp 16,
    .ldmPc .sp]

/-- `sw_switch_to_user` -/
def swSwitchToUserCode : List Instr :=
  [.setMode (systemModeBits ||| noInt),
    .ldr .r2 .r0 60,
    .mov .sp .r2,
    .ldr .r2 .r0 56,
    .mov .lr .r2,
    .setMode (svcModeBits ||| noInt),
    .movPc .lr]

/-- `sw_switch_to_svc` -/
def swSwitchToSvcCode : List Instr :=
  [.mov .r3 .lr,
    .ldr .r2 .r0 56,
    .mov .lr .r2,
    .ldr .r2 .r0 52,
    .msrSpsr .r2,
    .movPc .r3]

/-- `software_interrupt` -/
def softwareInterruptCode (x : Symbols) : List Instr :=
  [.push [.lr],
    .mrsSpsr .lr,
    .push [.lr],
    .subImm .sp .sp 12,
    .push lows,
    .mrs .r0,
    .setMode (systemModeBits ||| noInt),
    .mov .r1 .sp,
    .mov .r2 .lr,
    .msr .r0,
    .str .r1 .sp 60,
    .str .r2 .sp 56,
    .mov .r8 .sp,
    .mrs .r1,
    .bicImm .r1 .r1 (noInt.setWidth 32),
    .msrControl .r1,
    .bl (x.loc syscallEntry),
    .mrs .r1,
    .orrImm .r1 .r1 (noInt.setWidth 32),
    .msrControl .r1,
    .mov .r0 .sp,
    .setMode (systemModeBits ||| noInt),
    .ldr .r2 .r0 60,
    .mov .sp .r2,
    .ldr .r2 .r0 56,
    .mov .lr .r2,
    .setMode (svcModeBits ||| noInt),
    .ldr .r1 .sp 64,
    .msrSpsr .r1,
    .ldmia .sp lows,
    .addImm .sp .sp 16,
    .ldmPc .sp]

/-- `_syscall_handler` -/
def syscallEntryCode (x : Symbols) : List Instr :=
  [.push [.r11, .lr],
    .push [.r8],
    .addImm .r11 .sp 4,
    .subImm .sp .sp 24,
    .ldr .r3 .r8 16,
    .str .r3 .sp 0,
    .ldr .r3 .r8 20,
    .str .r3 .sp 4,
    .ldr .r3 .r8 24,
    .str .r3 .sp 8,
    .ldr .r0 .r8 0,
    .ldr .r1 .r8 4,
    .ldr .r2 .r8 8,
    .ldr .r3 .r8 12,
    .movImm .r6 x.syscallTableBase,
    .ldr .r6 .r6 0,
    .ldr .r7 .r8 28,
    .subImm .r7 .r7 (BitVec.ofNat 32 nrSyscallBase),
    .addLsl .r6 .r6 .r7 2,
    .ldr .r6 .r6 0,
    .cmpImm .r6 0,
    .ldrEq .r6 x.defaultSyscallHandler,
    .movLrPc,
    .movPc .r6,
    .subImm .sp .r11 4,
    .ldmia .sp [.r8],
    .str .r0 .r8 0,
    .ldmia .sp [.r11, .lr],
    .movPc .lr]

/-- The routines. -/
def entryCode (x : Symbols) : List Instr :=
  irqCode x ++ userToIrqCode ++ svcToIrqCode ++ exitIrqFromUserCode ++ exitIrqFromSvcCode ++
    osExitIrqCode x ++ archSwitchTaskSwCode x ++ swSwitchToUserCode ++ swSwitchToSvcCode ++
    softwareInterruptCode x ++ syscallEntryCode x

theorem entryCode_length (x : Symbols) : (entryCode x).length = 210 := by
  simp only [entryCode, irqCode, irqSave, irqRoom, irqMove, irqFill, irqMode, irqRestore,
    userToIrqCode, svcToIrqCode, exitIrqFromUserCode, exitIrqFromSvcCode, osExitIrqCode,
    archSwitchTaskSwCode, swSwitchToUserCode, swSwitchToSvcCode, softwareInterruptCode,
    syscallEntryCode, List.length_append, List.length_cons, List.length_nil, Nat.reduceAdd]

/-- An interrupt. The address in `lr` is the one to go back to and four more. -/
def takeIrq (x : Symbols) (s : State) : State :=
  s.trap irqModeBits (s.pc + 4) (x.loc 0)

/-- The instruction `swi`. -/
def takeSwi (x : Symbols) (s : State) : State :=
  s.trap svcModeBits (s.pc + 4) (x.loc softwareInterrupt)

namespace Symbols

/-- The program, with the functions of the kernel that are called at other addresses. -/
def program (x : Symbols) (call : Word → Option (Cpu → Cpu))
    (apart : ∀ i < (entryCode x).length, call (x.loc i) = none) : Program :=
  { org := x.org
    code := entryCode x
    call := call
    small := by
      rw [entryCode_length]
      decide
    apart := apart }

/-- The two functions in C that the entry for interrupts and the switch call. -/
def calls (x : Symbols) (irqHandler switchTask : Cpu → Cpu) (a : Word) : Option (Cpu → Cpu) :=
  if a = x.irqHandler then some irqHandler
  else if a = x.switchTask then some switchTask
  else none

/-- Addresses that a linker may give. -/
structure Linked (x : Symbols) : Prop where
  irqHandler : ∀ i < 210, x.loc i ≠ x.irqHandler
  switchTask : ∀ i < 210, x.loc i ≠ x.switchTask
  other : x.switchTask ≠ x.irqHandler
  current : Aligned x.current
  nextRun : Aligned x.nextRun

theorem Linked.apart {x : Symbols} (hx : x.Linked) (irqHandler switchTask : Cpu → Cpu) (i : Nat)
    (hi : i < (entryCode x).length) : x.calls irqHandler switchTask (x.loc i) = none := by
  rw [entryCode_length] at hi
  unfold calls
  rw [if_neg (hx.irqHandler i hi), if_neg (hx.switchTask i hi)]

theorem Linked.calls_irqHandler (x : Symbols) (irqHandler switchTask : Cpu → Cpu) :
    x.calls irqHandler switchTask x.irqHandler = some irqHandler :=
  if_pos rfl

theorem Linked.calls_switchTask {x : Symbols} (hx : x.Linked) (irqHandler switchTask : Cpu → Cpu) :
    x.calls irqHandler switchTask x.switchTask = some switchTask := by
  unfold calls
  rw [if_neg hx.other, if_pos rfl]

/-- The program with these functions. -/
def kernel (x : Symbols) (hx : x.Linked) (irqHandler switchTask : Cpu → Cpu) : Program :=
  x.program (x.calls irqHandler switchTask) (hx.apart irqHandler switchTask)

end Symbols

end Mirros
