import Mirros.Core.Task

/-!
# Interrupts

The table of interrupt handlers and the interrupt controller of the board: `kernel/interrupt.c`,
the part of `arm920t_c.c` about the table, and the part of `s3c2440_c.c` about the controller.

Writing to one of the pending registers of the controller clears the bits that are written as
one. INTOFFSET is the number of the one bit that is set in INTPND. A handler is the address of
a function, and calling address zero is a fault.

## Main definitions

* `IrqRegs`, `IrqSys`: The controller and the table.
* `platformEnableIrq`, `platformIrqCleanPending`: The controller.
* `registerIrq`: A new handler.
* `irqHandler`: What the kernel does on an interrupt.
-/

namespace Mirros

/-- The registers of the interrupt controller. -/
structure IrqRegs where
  srcpnd : BitVec 32
  intmod : BitVec 32
  intmsk : BitVec 32
  intpnd : BitVec 32
  intoffset : Nat
  subsrcpnd : BitVec 32
  intsubmsk : BitVec 32
  deriving DecidableEq, Repr

/-- `struct irq_des`, where a function at zero stands for no function. -/
structure IrqDes where
  fn : Nat
  arg : Nat
  deriving DecidableEq, Repr

/-- The table of handlers, the controller, and whether an interrupt is handled. -/
structure IrqSys where
  table : Nat → IrqDes
  regs : IrqRegs
  inInterrupt : Bool

/-- `IRQ_NR` -/
def irqNr : Nat := 512

/-- The number of bits of a register. -/
def irqBits : Nat := 32

/-- `bit(nr)`, for the bits of a register. -/
def irqBit (nr : Nat) : BitVec 32 := 1#32 <<< nr

/-- The sub sources behind a source, as the two switches list them. -/
def subSources (nr : Nat) : List Nat :=
  match nr with
  | 9 => [14, 13]       -- `WDT_AC97`: `AC_97`, `WDT`
  | 28 => [0, 1, 2]     -- `UART0`: `RXD0`, `TXD0`, `ERR0`
  | 23 => [3, 4, 5]     -- `UART1`: `RXD1`, `TXD1`, `ERR1`
  | 15 => [6, 7, 8]     -- `UART2`: `RXD2`, `TXD2`, `ERR2`
  | 31 => [10, 9]       -- `ADC`: `ADC_S`, `TC`
  | 6 => [12, 11]       -- `CAM`: `CAM_P`, `CAM_C`
  | _ => []

namespace IrqRegs

/-- `platform_irq_init`: everything is masked, and in IRQ mode. What is pending stays. -/
def platformIrqInit (r : IrqRegs) : IrqRegs :=
  { r with intmsk := BitVec.allOnes 32, intsubmsk := BitVec.allOnes 32, intmod := 0#32 }

/-- `platform_enable_irq` -/
def platformEnableIrq (r : IrqRegs) (nr : Nat) : IrqRegs :=
  { r with
    intmsk := r.intmsk &&& ~~~irqBit nr
    intsubmsk := (subSources nr).foldl (fun mask sub => mask &&& ~~~irqBit sub) r.intsubmsk }

/-- `platform_get_irq_id` -/
def platformGetIrqId (r : IrqRegs) : Nat := r.intoffset

/-- A write to a pending register. -/
def clearSubsrcpnd (r : IrqRegs) (v : BitVec 32) : IrqRegs :=
  { r with subsrcpnd := r.subsrcpnd &&& ~~~v }

def clearSrcpnd (r : IrqRegs) (v : BitVec 32) : IrqRegs :=
  { r with srcpnd := r.srcpnd &&& ~~~v }

def clearIntpnd (r : IrqRegs) (v : BitVec 32) : IrqRegs :=
  { r with intpnd := r.intpnd &&& ~~~v }

/-- `platform_irq_clean_pending`: each register is written with what was read from it. -/
def platformIrqCleanPending (r : IrqRegs) : IrqRegs :=
  let r := r.clearSubsrcpnd r.subsrcpnd
  let r := r.clearSrcpnd r.srcpnd
  r.clearIntpnd r.intpnd

end IrqRegs

namespace IrqSys

/-- `arch_irq_init`, with the address of the pages for the table, zero if there are none. -/
def archIrqInit (s : IrqSys) (tableBase : Nat) : Int × IrqSys :=
  if tableBase = 0 then (errNoMem, s)
  else (0, { s with table := fun _ => ⟨0, 0⟩, regs := s.regs.platformIrqInit })

/-- `arch_register_irq`. The shift in `bit(nr)` is undefined from 32 on. -/
def archRegisterIrq (s : IrqSys) (nr fn arg : Nat) : Option (Int × IrqSys) :=
  if (s.table nr).fn = 0 then
    if nr < irqBits then
      some (0, { s with
        table := Function.update s.table nr ⟨fn, arg⟩
        regs := s.regs.platformEnableIrq nr })
    else none
  else some (1, s)

/-- `register_irq`. A negative number passes the test, and is an entry before the table. -/
def registerIrq (s : IrqSys) (nr : Int) (fn arg : Nat) : Option (Int × IrqSys) :=
  if nr > irqNr - 1 ∨ fn = 0 then some (errInval, s)
  else if nr < 0 then none
  else s.archRegisterIrq nr.toNat fn arg

/-- `do_irq_handler`, with the call it makes. The description is an entry of the table, and
    the test for a null pointer never succeeds. -/
def doIrqHandler (s : IrqSys) (nr : Nat) : Option (IrqDes × IrqSys) :=
  let s := { s with inInterrupt := true }
  let des := s.table nr
  if des.fn = 0 then none
  else some (des, { s with inInterrupt := false })

/-- `irq_handler` -/
def irqHandler (s : IrqSys) : Option (IrqDes × IrqSys) :=
  let nr := s.regs.platformGetIrqId
  let s := { s with regs := s.regs.platformIrqCleanPending }
  s.doIrqHandler nr

end IrqSys

end Mirros
