import Mirros.Lib.Arm

/-!
# The Copying Routine

`memcpy` of `arch/arm/machine/lib.S`, with the target in `r0`, the source in `r1` and the
size in `r2`. The labels are the indices of the instructions behind them.

When the two addresses agree in their low bits, some bytes are copied first so that words can
be used, then blocks of four words, and at last the bytes that are left. Otherwise all of it
is copied byte by byte.

## Main definitions

* `memcpyCode`: The instructions.
* `copyAligin`, `copyBigger16`, `copyLeft`, `memcpyEnd`: The labels.
-/

namespace Mirros

namespace Arm

/-- `copy_aligin` -/
def copyAligin : Nat := 8

/-- `copy_bigger_16` -/
def copyBigger16 : Nat := 16

/-- `copy_left` -/
def copyLeft : Nat := 22

/-- `memcpy_end` -/
def memcpyEnd : Nat := 30

/-- `memcpy` -/
def memcpyCode : List Instr :=
  [.push [.r3, .r4, .r5, .r6],
    .mov .r3 .r0,
    .mov .r4 .r1,
    .andImm .r3 .r3 3,
    .andImm .r4 .r4 3,
    .cmpReg .r3 .r4,
    .b .ne copyLeft,
    -- What is taken off the size here is not what is copied up to an aligned address.
    .subReg .r2 .r2 .r3,
    -- `copy_aligin`
    .cmpImm .r3 0,
    .b .eq copyBigger16,
    .ldrb .r4 .r1,
    .strb .r4 .r0,
    .addImm .r0 .r0 1,
    .addImm .r1 .r1 1,
    .subImm .r3 .r3 1,
    .b .al copyAligin,
    -- `copy_bigger_16`
    .cmpImm .r2 16,
    .b .lt copyLeft,
    .ldmia .r1 [.r3, .r4, .r5, .r6],
    .stmia .r0 [.r3, .r4, .r5, .r6],
    .subImm .r2 .r2 16,
    .b .al copyBigger16,
    -- `copy_left`
    .cmpImm .r2 0,
    .b .eq memcpyEnd,
    .ldrb .r3 .r1,
    .strb .r3 .r0,
    .addImm .r0 .r0 1,
    .addImm .r1 .r1 1,
    .subImm .r2 .r2 1,
    .b .al copyLeft,
    -- `memcpy_end`
    .subReg .r0 .r0 .r2,
    .pop [.r3, .r4, .r5, .r6],
    .ret]

end Arm

end Mirros
