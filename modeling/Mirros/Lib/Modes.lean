import Mathlib.Algebra.Group.Nat.Defs
import Mathlib.Logic.Function.Basic
import Mathlib.Logic.Relation
import Mathlib.Tactic.ByContra

/-!
# Processor Modes

The part of the ARM instruction set that code is made of which saves and restores what a
program was doing. The processor runs in one of several modes, each of which has a stack
pointer, a link register and a saved status register of its own. Instructions address the
words of memory, and an address that is no multiple of four is a fault.

A program is a list of instructions that is somewhere in memory, so that a return address is
an ordinary word. Functions of other programs are called at their addresses and return. A
run ends with the instruction that goes back to what was interrupted, which restores the
status register together with the program counter.

## Main definitions

* `Reg`, `Bank`, `Psr`: Registers, and which of them a mode has of its own.
* `Instr`, `exec`: Instructions.
* `Program`, `step`, `Reaches`: Running a program.
* `State.leave`, `Leaves`: Going back.

## Theorems

* `leaves_unique`: A run goes back in one way at most.
* `reaches_block`: Some instructions without a branch.
-/

namespace Mirros

namespace Modes

/-- An address, or what a register has. -/
abbrev Word : Type := BitVec 32

/-- The registers of a mode. -/
inductive Reg where
  | r0 | r1 | r2 | r3 | r4 | r5 | r6 | r7 | r8 | r9 | r10 | r11 | r12 | sp | lr
  deriving DecidableEq, Repr

/-- The modes by their registers. -/
inductive Bank where
  | user | irq | svc | abort | undef
  deriving DecidableEq, Repr

/-- A status register: the four flags, and the masks of the interrupts with the mode. The bits
    between them are not used. -/
structure Psr where
  flags : BitVec 4
  control : BitVec 8
  deriving DecidableEq, Repr

/-- A status register as a word. -/
def Psr.word (p : Psr) : Word := p.flags ++ 0#20 ++ p.control

/-- The status register a word stands for. -/
def Psr.ofWord (w : Word) : Psr := ⟨w.extractLsb' 28 4, w.extractLsb' 0 8⟩

/-- The mode. -/
def Psr.mode (p : Psr) : BitVec 8 := p.control &&& 0x1f

/-- The last comparison was one of equal words. -/
def Psr.zero (p : Psr) : Bool := p.flags.getLsbD 2

/-- The registers of a mode. -/
def bankOf (mode : BitVec 8) : Bank :=
  if mode = 0x12 then .irq
  else if mode = 0x13 then .svc
  else if mode = 0x17 then .abort
  else if mode = 0x1b then .undef
  else .user

/-- The registers in use. -/
def Psr.bank (p : Psr) : Bank := bankOf p.mode

/-- The registers of all modes, where the first thirteen are there only once and stand under
    `user`, the saved status registers, the status register, and the words of memory. -/
structure Cpu where
  reg : Bank × Reg → Word
  spsr : Bank → Psr
  cpsr : Psr
  mem : Word → Word

/-- The register a name stands for. -/
def slot (b : Bank) : Reg → Bank × Reg
  | .sp => (b, .sp)
  | .lr => (b, .lr)
  | r => (.user, r)

namespace Cpu

/-- Give a register a value. -/
def setReg (s : Cpu) (k : Bank × Reg) (v : Word) : Cpu :=
  { s with reg := Function.update s.reg k v }

/-- Change the status register, and with it the mode. -/
def setPsr (s : Cpu) (p : Psr) : Cpu := { s with cpsr := p }

/-- Change the saved status register of a mode. -/
def setSpsr (s : Cpu) (b : Bank) (p : Psr) : Cpu :=
  { s with spsr := Function.update s.spsr b p }

/-- Change the memory. -/
def setMem (s : Cpu) (mem : Word → Word) : Cpu := { s with mem := mem }

/-- What a register of the mode has. -/
def get (s : Cpu) (r : Reg) : Word := s.reg (slot s.cpsr.bank r)

/-- Give a register of the mode a value. -/
def set (s : Cpu) (r : Reg) (v : Word) : Cpu := s.setReg (slot s.cpsr.bank r) v

end Cpu

/-- A multiple of four. -/
def Aligned (a : Word) : Prop := a.toNat % 4 = 0

instance (a : Word) : Decidable (Aligned a) :=
  inferInstanceAs (Decidable (a.toNat % 4 = 0))

/-- The instructions. -/
inductive Instr where
  | mov (d m : Reg)
  | movImm (d : Reg) (imm : Word)
  | addImm (d n : Reg) (imm : Word)
  | subImm (d n : Reg) (imm : Word)
  | andImm (d n : Reg) (imm : Word)
  | orrImm (d n : Reg) (imm : Word)
  | bicImm (d n : Reg) (imm : Word)
  | addLsl (d n m : Reg) (k : Nat)
  | cmpImm (n : Reg) (imm : Word)
  | cmpReg (n m : Reg)
  | ldr (d n : Reg) (off : Word)
  | ldrEq (d : Reg) (imm : Word)
  | str (d n : Reg) (off : Word)
  | push (rs : List Reg)
  | ldmia (n : Reg) (rs : List Reg)
  | mrs (d : Reg)
  | mrsSpsr (d : Reg)
  | msr (m : Reg)
  | msrImm (imm : Word)
  | msrControl (m : Reg)
  | setMode (imm : BitVec 8)
  | msrSpsr (m : Reg)
  | b (target : Word)
  | beq (target : Word)
  | bl (target : Word)
  | bleq (target : Word)
  | movPc (m : Reg)
  | movLrPc
  | ldmPc (n : Reg)
  deriving DecidableEq, Repr

/-- The flags after two words were compared. -/
def nzcv (a b : Word) : BitVec 4 :=
  BitVec.ofBool (a - b).msb ++ BitVec.ofBool (a = b) ++ BitVec.ofBool (b.ule a) ++
    BitVec.ofBool (a.msb ≠ b.msb && (a - b).msb ≠ a.msb)

/-- Words from an address on. -/
def storeMany (mem : Word → Word) (a : Word) : List Word → Word → Word
  | [] => mem
  | w :: ws => storeMany (Function.update mem a w) (a + 4) ws

/-- Load registers from an address on. -/
def loadMany (s : Cpu) (a : Word) : List Reg → Cpu
  | [] => s
  | r :: rs => loadMany (s.set r (s.mem a)) (a + 4) rs

/-- The size of a list of registers in memory. -/
def spanOf (rs : List Reg) : Word := BitVec.ofNat 32 (4 * rs.length)

/-- What an instruction does that goes on to the next one. -/
def exec (s : Cpu) : Instr → Option Cpu
  | .mov d m => some (s.set d (s.get m))
  | .movImm d imm => some (s.set d imm)
  | .addImm d n imm => some (s.set d (s.get n + imm))
  | .subImm d n imm => some (s.set d (s.get n - imm))
  | .andImm d n imm => some (s.set d (s.get n &&& imm))
  | .orrImm d n imm => some (s.set d (s.get n ||| imm))
  | .bicImm d n imm => some (s.set d (s.get n &&& ~~~imm))
  | .addLsl d n m k => some (s.set d (s.get n + (s.get m <<< k)))
  | .cmpImm n imm => some (s.setPsr ⟨nzcv (s.get n) imm, s.cpsr.control⟩)
  | .cmpReg n m => some (s.setPsr ⟨nzcv (s.get n) (s.get m), s.cpsr.control⟩)
  | .ldr d n off =>
      if Aligned (s.get n + off) then some (s.set d (s.mem (s.get n + off))) else none
  | .ldrEq d imm => if s.cpsr.zero then some (s.set d imm) else some s
  | .str d n off =>
      if Aligned (s.get n + off) then
        some (s.setMem (Function.update s.mem (s.get n + off) (s.get d)))
      else none
  | .push rs =>
      if Aligned (s.get .sp - spanOf rs) then
        some ((s.setMem (storeMany s.mem (s.get .sp - spanOf rs) (rs.map s.get))).set .sp
          (s.get .sp - spanOf rs))
      else none
  | .ldmia n rs =>
      if Aligned (s.get n) then some ((loadMany s (s.get n) rs).set n (s.get n + spanOf rs))
      else none
  | .mrs d => some (s.set d s.cpsr.word)
  | .mrsSpsr d =>
      if s.cpsr.bank = .user then none else some (s.set d (s.spsr s.cpsr.bank).word)
  | .msr m => some (s.setPsr (Psr.ofWord (s.get m)))
  | .msrImm imm => some (s.setPsr (Psr.ofWord imm))
  | .msrControl m => some (s.setPsr ⟨s.cpsr.flags, (Psr.ofWord (s.get m)).control⟩)
  | .setMode imm => some (s.setPsr ⟨s.cpsr.flags, imm⟩)
  | .msrSpsr m =>
      if s.cpsr.bank = .user then none
      else some (s.setSpsr s.cpsr.bank (Psr.ofWord (s.get m)))
  | _ => none

/-- An instruction, if there was no fault before. -/
def execNext : Option Cpu → Instr → Option Cpu
  | none, _ => none
  | some s, i => exec s i

/-- Some instructions after each other. -/
def execAll (s : Option Cpu) : List Instr → Option Cpu
  | [] => s
  | i :: is => execAll (execNext s i) is

/-- The instructions of a program, where they are, and the functions of other programs. -/
structure Program where
  org : Word
  code : List Instr
  call : Word → Option (Cpu → Cpu)
  small : code.length < 2 ^ 30
  apart : ∀ i < code.length, call (org + BitVec.ofNat 32 (4 * i)) = none

/-- The address of an instruction. -/
def Program.loc (P : Program) (i : Nat) : Word := P.org + BitVec.ofNat 32 (4 * i)

/-- The instruction at an address. -/
def Program.fetch (P : Program) (a : Word) : Option Instr :=
  if Aligned (a - P.org) then P.code[(a - P.org).toNat / 4]? else none

/-- The processor and the address of the next instruction. -/
structure State where
  cpu : Cpu
  pc : Word

/-- What a branch does. -/
def branch (s : State) : Instr → Option State
  | .b target => some { s with pc := target }
  | .beq target => some { s with pc := if s.cpu.cpsr.zero then target else s.pc + 4 }
  | .bl target => some ⟨s.cpu.set .lr (s.pc + 4), target⟩
  | .bleq target =>
      if s.cpu.cpsr.zero then some ⟨s.cpu.set .lr (s.pc + 4), target⟩
      else some { s with pc := s.pc + 4 }
  | .movPc m => some { s with pc := s.cpu.get m }
  -- The program counter is read two instructions ahead.
  | .movLrPc => some ⟨s.cpu.set .lr (s.pc + 8), s.pc + 4⟩
  | _ => none

/-- One step. A function that is called returns. -/
def step (P : Program) (s : State) : Option State :=
  match P.call s.pc with
  | some f => some ⟨f s.cpu, s.cpu.get .lr⟩
  | none => (P.fetch s.pc).bind fun i =>
      (branch s i).or ((exec s.cpu i).map fun t => ⟨t, s.pc + 4⟩)

/-- Some steps lead from one state to another. -/
def Reaches (P : Program) : State → State → Prop :=
  Relation.ReflTransGen (fun s s' => step P s = some s')

/-- Back to the address on a stack, with the saved status register. -/
def State.leave (s : State) (n : Reg) : Option State :=
  let a := s.cpu.get n
  if s.cpu.cpsr.bank = .user ∨ ¬Aligned a then none
  else
    some ⟨(s.cpu.set n (a + 4)).setPsr (s.cpu.spsr s.cpu.cpsr.bank), s.cpu.mem a⟩

/-- The masks and the mode after an exception: interrupts are off, and the mask of the fast ones
    is as it was. -/
def trapControl (c mode : BitVec 8) : BitVec 8 := (c &&& 0x40) ||| 0x80 ||| mode

/-- An exception is taken: the address to go back to, what was in the status register, and the
    code that takes care of it. -/
def State.trap (s : State) (mode : BitVec 8) (ret entry : Word) : State :=
  ⟨((s.cpu.setReg (bankOf mode, .lr) ret).setSpsr (bankOf mode) s.cpu.cpsr).setPsr
    ⟨s.cpu.cpsr.flags, trapControl s.cpu.cpsr.control mode⟩, entry⟩

/-- The program runs to the instruction that goes back, and goes back to this state. -/
def Leaves (P : Program) (s s' : State) : Prop :=
  ∃ t n, Reaches P s t ∧ P.call t.pc = none ∧ P.fetch t.pc = some (.ldmPc n) ∧
    t.leave n = some s'

namespace Cpu

@[simp] theorem setReg_self (s : Cpu) (k : Bank × Reg) (v : Word) : (s.setReg k v).reg k = v := by
  unfold setReg
  exact Function.update_self ..

@[simp] theorem setReg_ne (s : Cpu) (k k' : Bank × Reg) (v : Word) (h : k' ≠ k) :
    (s.setReg k v).reg k' = s.reg k' := by
  unfold setReg
  exact Function.update_of_ne h ..

theorem setReg_setReg (s : Cpu) (k : Bank × Reg) (v v' : Word) :
    (s.setReg k v).setReg k v' = s.setReg k v' := by
  unfold setReg
  rw [Function.update_idem]

@[simp] theorem setReg_cpsr (s : Cpu) (k : Bank × Reg) (v : Word) :
    (s.setReg k v).cpsr = s.cpsr := rfl

@[simp] theorem setReg_spsr (s : Cpu) (k : Bank × Reg) (v : Word) :
    (s.setReg k v).spsr = s.spsr := rfl

@[simp] theorem setReg_mem (s : Cpu) (k : Bank × Reg) (v : Word) :
    (s.setReg k v).mem = s.mem := rfl

@[simp] theorem setPsr_reg (s : Cpu) (p : Psr) : (s.setPsr p).reg = s.reg := rfl

@[simp] theorem setPsr_cpsr (s : Cpu) (p : Psr) : (s.setPsr p).cpsr = p := rfl

@[simp] theorem setPsr_spsr (s : Cpu) (p : Psr) : (s.setPsr p).spsr = s.spsr := rfl

@[simp] theorem setPsr_mem (s : Cpu) (p : Psr) : (s.setPsr p).mem = s.mem := rfl

@[simp] theorem setSpsr_reg (s : Cpu) (b : Bank) (p : Psr) : (s.setSpsr b p).reg = s.reg := rfl

@[simp] theorem setSpsr_cpsr (s : Cpu) (b : Bank) (p : Psr) :
    (s.setSpsr b p).cpsr = s.cpsr := rfl

@[simp] theorem setSpsr_self (s : Cpu) (b : Bank) (p : Psr) : (s.setSpsr b p).spsr b = p := by
  unfold setSpsr
  exact Function.update_self ..

@[simp] theorem setSpsr_ne (s : Cpu) (b b' : Bank) (p : Psr) (h : b' ≠ b) :
    (s.setSpsr b p).spsr b' = s.spsr b' := by
  unfold setSpsr
  exact Function.update_of_ne h ..

@[simp] theorem setSpsr_mem (s : Cpu) (b : Bank) (p : Psr) : (s.setSpsr b p).mem = s.mem := rfl

@[simp] theorem setMem_setMem (s : Cpu) (m m' : Word → Word) :
    (s.setMem m).setMem m' = s.setMem m' := rfl

@[simp] theorem setMem_reg (s : Cpu) (m : Word → Word) : (s.setMem m).reg = s.reg := rfl

@[simp] theorem setMem_cpsr (s : Cpu) (m : Word → Word) : (s.setMem m).cpsr = s.cpsr := rfl

@[simp] theorem setMem_spsr (s : Cpu) (m : Word → Word) : (s.setMem m).spsr = s.spsr := rfl

@[simp] theorem setMem_mem (s : Cpu) (m : Word → Word) : (s.setMem m).mem = m := rfl

end Cpu

@[simp] theorem Psr.ofWord_word (p : Psr) : Psr.ofWord p.word = p := by
  have hflags : p.word.extractLsb' 28 4 = p.flags := by
    unfold Psr.word
    ext i hi
    rw [BitVec.getElem_extractLsb', BitVec.getLsbD_append, if_neg (by omega),
      BitVec.getLsbD_append, if_neg (by omega), show 28 + i - 8 - 20 = i by omega,
      BitVec.getLsbD_eq_getElem hi]
  have hcontrol : p.word.extractLsb' 0 8 = p.control := by
    unfold Psr.word
    ext i hi
    rw [BitVec.getElem_extractLsb', BitVec.getLsbD_append, if_pos (by omega), Nat.zero_add,
      BitVec.getLsbD_eq_getElem hi]
  unfold Psr.ofWord
  rw [hflags, hcontrol]

/-- A mask of the low bits of a status register. -/
theorem Psr.word_and (p : Psr) (m : BitVec 8) :
    p.word &&& m.setWidth 32 = (p.control &&& m).setWidth 32 := by
  unfold Psr.word
  ext i hi
  rw [BitVec.getElem_and, BitVec.getElem_setWidth, BitVec.getElem_setWidth,
    BitVec.getElem_append, BitVec.getLsbD_and]
  split
  · rfl
  · rw [BitVec.getLsbD_of_ge m i (by omega), Bool.and_false, Bool.and_false]

/-- The control bits after some bits of a status register were cleared or set. -/
theorem Psr.ofWord_and (p : Psr) (w : Word) :
    (Psr.ofWord (p.word &&& w)).control = p.control &&& w.setWidth 8 := by
  unfold Psr.ofWord Psr.word
  ext i hi
  rw [BitVec.getElem_extractLsb', BitVec.getElem_and, BitVec.getElem_setWidth, BitVec.getLsbD_and,
    BitVec.getLsbD_append, if_pos (by omega), Nat.zero_add, BitVec.getLsbD_eq_getElem hi]

theorem Psr.ofWord_or (p : Psr) (w : Word) :
    (Psr.ofWord (p.word ||| w)).control = p.control ||| w.setWidth 8 := by
  unfold Psr.ofWord Psr.word
  ext i hi
  rw [BitVec.getElem_extractLsb', BitVec.getElem_or, BitVec.getElem_setWidth, BitVec.getLsbD_or,
    BitVec.getLsbD_append, if_pos (by omega), Nat.zero_add, BitVec.getLsbD_eq_getElem hi]

/-- The mode of a status register in memory, as the code compares it. -/
theorem Psr.word_mode (p : Psr) (m : BitVec 8) :
    p.word &&& 0x1f = m.setWidth 32 ↔ p.mode = m := by
  have hmask := Psr.word_and p 0x1f
  rw [show (0x1f : BitVec 8).setWidth 32 = (0x1f : Word) from rfl] at hmask
  rw [hmask]
  unfold Psr.mode
  constructor
  · intro h
    have hback := congrArg (fun w : Word => w.setWidth 8) h
    simpa only [BitVec.setWidth_setWidth_of_le _ (show 8 ≤ 32 by decide), BitVec.setWidth_eq]
      using hback
  · exact fun h => congrArg (fun c : BitVec 8 => c.setWidth 32) h

@[simp] theorem nzcv_zero (a b : Word) (c : BitVec 8) :
    Psr.zero ⟨nzcv a b, c⟩ = decide (a = b) := by
  unfold Psr.zero nzcv
  rw [BitVec.getLsbD_append, if_neg (by decide), BitVec.getLsbD_append, if_neg (by decide),
    BitVec.getLsbD_append, if_pos (by decide), BitVec.getLsbD_ofBool]
  rfl

@[simp] theorem trapControl_mode (f : BitVec 4) (c mode : BitVec 8)
    (h : mode &&& 0x1f = mode) : Psr.mode ⟨f, trapControl c mode⟩ = mode := by
  unfold Psr.mode trapControl
  rw [BitVec.and_or_distrib_right, BitVec.and_or_distrib_right, BitVec.and_assoc, h]
  simp

section

variable (s : State) (mode : BitVec 8) (ret entry : Word)

theorem trap_bank (h : mode &&& 0x1f = mode) :
    (s.trap mode ret entry).cpu.cpsr.bank = bankOf mode := by
  unfold State.trap Psr.bank
  rw [Cpu.setPsr_cpsr, trapControl_mode _ _ _ h]

theorem trap_reg (k : Bank × Reg) (h : k ≠ (bankOf mode, .lr)) :
    (s.trap mode ret entry).cpu.reg k = s.cpu.reg k := by
  unfold State.trap
  rw [Cpu.setPsr_reg, Cpu.setSpsr_reg, Cpu.setReg_ne _ _ _ _ h]

theorem trap_lr : (s.trap mode ret entry).cpu.reg (bankOf mode, .lr) = ret := by
  unfold State.trap
  rw [Cpu.setPsr_reg, Cpu.setSpsr_reg, Cpu.setReg_self]

theorem trap_spsr : (s.trap mode ret entry).cpu.spsr (bankOf mode) = s.cpu.cpsr := by
  unfold State.trap
  rw [Cpu.setPsr_spsr, Cpu.setSpsr_self]

theorem trap_spsr_ne (b : Bank) (h : b ≠ bankOf mode) :
    (s.trap mode ret entry).cpu.spsr b = s.cpu.spsr b := by
  unfold State.trap
  rw [Cpu.setPsr_spsr, Cpu.setSpsr_ne _ _ _ _ h, Cpu.setReg_spsr]

end

/-- What is a multiple of four away from an aligned address is aligned. -/
theorem aligned_add (a c : Word) (hc : c.toNat % 4 = 0) : Aligned (a + c) ↔ Aligned a := by
  unfold Aligned
  rw [BitVec.toNat_add]
  omega

/-- Offsets that are numbers. -/
theorem add_add_lit (a x y : Word) : a + x + y = a + (x + y) := BitVec.add_assoc a x y

theorem add_sub_lit (a x y : Word) : a + x - y = a + (x - y) := by
  bv_omega

/-- An address in a block of memory. -/
def In (a : Word) (n : Nat) (x : Word) : Prop := (x - a).toNat < n

instance (a : Word) (n : Nat) (x : Word) : Decidable (In a n x) :=
  inferInstanceAs (Decidable ((x - a).toNat < n))

theorem in_add (a c : Word) (n : Nat) (h : c.toNat < n) : In a n (a + c) := by
  unfold In
  rwa [BitVec.add_comm, BitVec.add_sub_cancel]

/-- Addresses in blocks that have none in common. -/
theorem add_ne_add (a b c d : Word) (m n : Nat) (h : ∀ x, In a m x → ¬In b n x)
    (hc : c.toNat < m) (hd : d.toNat < n) : a + c ≠ b + d :=
  fun heq => h (a + c) (in_add a c m hc) (heq ▸ in_add b d n hd)

/-- An address outside of a block. -/
theorem ne_add (a x c : Word) (n : Nat) (h : ¬In a n x) (hc : c.toNat < n) : x ≠ a + c :=
  fun heq => h (heq ▸ in_add a c n hc)

/-- A part of a block. -/
theorem in_sub {a c x : Word} {m n : Nat} (hx : In (a + c) m x) (hn : c.toNat + m ≤ n)
    (h32 : n ≤ 2 ^ 32) : In a n x := by
  unfold In at hx ⊢
  rw [BitVec.toNat_sub] at hx ⊢
  rw [BitVec.toNat_add] at hx
  omega

/-- A part of a block is behind the words in front of it. -/
theorem in_after {a c x : Word} {m n : Nat} (hx : In (a + c) m x) (hn : n ≤ c.toNat)
    (h32 : c.toNat + m ≤ 2 ^ 32) : ¬In a n x := by
  unfold In at hx ⊢
  rw [BitVec.toNat_sub] at hx ⊢
  rw [BitVec.toNat_add] at hx
  omega

theorem in_mono {a x : Word} {m n : Nat} (hx : In a m x) (hn : m ≤ n) : In a n x :=
  Nat.lt_of_lt_of_le hx hn

/-- Two blocks that are away from each other. -/
theorem in_apart {a b : Word} {m n : Nat} (h : m ≤ (b - a).toNat) (h' : n ≤ (a - b).toNat)
    (x : Word) (hx : In a m x) : ¬In b n x := by
  unfold In at hx ⊢
  rw [BitVec.toNat_sub] at h h' hx ⊢
  omega

theorem in_ne {a x y : Word} {n : Nat} (hx : In a n x) (hy : ¬In a n y) : x ≠ y :=
  fun heq => hy (heq ▸ hx)

/-- Memory is the same but for some addresses. -/
def SameOff (w : Word → Prop) (mem mem' : Word → Word) : Prop :=
  ∀ x, ¬w x → mem' x = mem x

theorem SameOff.trans (w : Word → Prop) (m₁ m₂ m₃ : Word → Word) (h₁ : SameOff w m₁ m₂)
    (h₂ : SameOff w m₂ m₃) : SameOff w m₁ m₃ :=
  fun x hx => (h₂ x hx).trans (h₁ x hx)

theorem SameOff.mono (w w' : Word → Prop) (m m' : Word → Word) (h : SameOff w m m')
    (hw : ∀ x, w x → w' x) : SameOff w' m m' :=
  fun x hx => h x (fun hc => hx (hw x hc))

/-- The first thirteen registers. -/
def lows : List Reg :=
  [.r0, .r1, .r2, .r3, .r4, .r5, .r6, .r7, .r8, .r9, .r10, .r11, .r12]

theorem fetch_loc (P : Program) (i : Nat) (hi : i < P.code.length) :
    P.call (P.loc i) = none ∧ P.fetch (P.loc i) = P.code[i]? := by
  refine ⟨P.apart i hi, ?_⟩
  have hsmall := P.small
  have hoff : (P.loc i - P.org).toNat = 4 * i := by
    unfold Program.loc
    rw [BitVec.toNat_sub, BitVec.toNat_add, BitVec.toNat_ofNat]
    have horg := P.org.isLt
    omega
  have haligned : Aligned (P.loc i - P.org) := by
    unfold Aligned
    omega
  unfold Program.fetch
  rw [if_pos haligned, hoff, Nat.mul_div_cancel_left i (by decide)]

theorem loc_succ (P : Program) (i : Nat) : P.loc i + 4 = P.loc (i + 1) := by
  unfold Program.loc
  rw [BitVec.add_assoc, Nat.mul_succ, BitVec.ofNat_add]
  rfl

/-- A run goes back in one way at most. -/
theorem leaves_unique (P : Program) (s t u : State) (ht : Leaves P s t) (hu : Leaves P s u) :
    t = u := by
  rcases ht with ⟨t', m, ht', hcall, hfetch, hleave⟩
  rcases hu with ⟨u', n, hu', hcall', hfetch', hleave'⟩
  have hend : ∀ v n, P.call v.pc = none → P.fetch v.pc = some (.ldmPc n) → step P v = none := by
    intro v n hv hv'
    unfold step
    rw [hv, hv']
    rfl
  have hstop := hend t' m hcall hfetch
  have hstop' := hend u' n hcall' hfetch'
  have heq : t' = u' := by
    clear hfetch hfetch' hcall hcall' hleave hleave'
    induction ht' using Relation.ReflTransGen.head_induction_on with
    | refl =>
        rcases Relation.ReflTransGen.cases_head hu' with heq | ⟨v, hstep, _⟩
        · exact heq
        · rw [hstop] at hstep
          exact absurd hstep.symm (Option.some_ne_none v)
    | head hstep _ ih =>
        rcases Relation.ReflTransGen.cases_head hu' with heq | ⟨v, hstep', hrest⟩
        · rw [← heq, hstep] at hstop'
          exact absurd hstop' (Option.some_ne_none _)
        · rw [hstep, Option.some.injEq] at hstep'
          subst hstep'
          exact ih hrest
  subst heq
  rw [hfetch, Option.some.injEq, Instr.ldmPc.injEq] at hfetch'
  rw [← hfetch', hleave, Option.some.injEq] at hleave'
  exact hleave'

theorem branch_none (s : State) (t : Cpu) (i : Instr) (h : exec s.cpu i = some t) :
    branch s i = none := by
  cases i <;> first
    | rfl
    | exact absurd h.symm (Option.some_ne_none t)

theorem branch_bleq (s : State) (a : Word) (h : s.cpu.cpsr.zero = true) :
    branch s (.bleq a) = some ⟨s.cpu.set .lr (s.pc + 4), a⟩ :=
  if_pos h

theorem branch_bleq_skip (s : State) (a : Word) (h : s.cpu.cpsr.zero = false) :
    branch s (.bleq a) = some ⟨s.cpu, s.pc + 4⟩ :=
  if_neg (Bool.eq_false_iff.mp h)

theorem branch_beq (s : State) (a : Word) (h : s.cpu.cpsr.zero = true) :
    branch s (.beq a) = some ⟨s.cpu, a⟩ :=
  congrArg (fun pc => some (⟨s.cpu, pc⟩ : State)) (if_pos h)

theorem branch_beq_skip (s : State) (a : Word) (h : s.cpu.cpsr.zero = false) :
    branch s (.beq a) = some ⟨s.cpu, s.pc + 4⟩ :=
  congrArg (fun pc => some (⟨s.cpu, pc⟩ : State)) (if_neg (Bool.eq_false_iff.mp h))

/-- An instruction that is no branch. -/
theorem step_exec (P : Program) (s t : Cpu) (i : Nat) (ins : Instr)
    (hcode : P.code[i]? = some ins) (hexec : exec s ins = some t) :
    step P ⟨s, P.loc i⟩ = some ⟨t, P.loc (i + 1)⟩ := by
  have hi : i < P.code.length := (List.getElem?_eq_some_iff.mp hcode).1
  rcases fetch_loc P i hi with ⟨hcall, hfetch⟩
  unfold step
  simp only [hcall, hfetch, hcode, Option.bind_some, branch_none ⟨s, P.loc i⟩ t ins hexec, hexec,
    Option.map_some, Option.none_or, loc_succ]

/-- A branch. -/
theorem step_branch (P : Program) (s : Cpu) (t : State) (i : Nat) (ins : Instr)
    (hcode : P.code[i]? = some ins) (hbranch : branch ⟨s, P.loc i⟩ ins = some t) :
    step P ⟨s, P.loc i⟩ = some t := by
  have hi : i < P.code.length := (List.getElem?_eq_some_iff.mp hcode).1
  rcases fetch_loc P i hi with ⟨hcall, hfetch⟩
  unfold step
  simp only [hcall, hfetch, hcode, Option.bind_some, hbranch, Option.some_or]

/-- The rule by which `simp` runs a block, one instruction after the other. -/
@[simp] theorem execNext_some (s : Cpu) (i : Instr) : execNext (some s) i = exec s i := rfl

theorem execAll_none (is : List Instr) : execAll none is = none := by
  induction is with
  | nil => rfl
  | cons i is ih => exact ih

/-- Some instructions without a branch. -/
theorem reaches_block (P : Program) (i : Nat) (is : List Instr) (s t : Cpu)
    (hcode : is <+: P.code.drop i) (hexec : execAll (some s) is = some t) :
    Reaches P ⟨s, P.loc i⟩ ⟨t, P.loc (i + is.length)⟩ := by
  induction is generalizing s i with
  | nil =>
      rw [execAll, Option.some.injEq] at hexec
      rw [hexec]
      exact Relation.ReflTransGen.refl
  | cons ins is ih =>
      rw [execAll] at hexec
      rcases hcode with ⟨rest, hcode⟩
      have hins : P.code[i]? = some ins := by
        rw [← Nat.add_zero i, ← List.getElem?_drop, ← hcode]
        rfl
      have htail : is <+: P.code.drop (i + 1) := by
        refine ⟨rest, ?_⟩
        rw [← List.drop_drop, ← hcode]
        rfl
      rcases hnext : exec s ins with _ | u
      · rw [execNext, hnext, execAll_none] at hexec
        exact absurd hexec.symm (Option.some_ne_none t)
      rw [execNext, hnext] at hexec
      have hgo := ih (i + 1) u htail hexec
      rw [Nat.add_assoc, Nat.add_comm 1] at hgo
      exact Relation.ReflTransGen.head (step_exec P s u i ins hins hnext) hgo

/-- A part of a program. -/
def Program.At (P : Program) (i : Nat) (is : List Instr) : Prop := is <+: P.code.drop i

theorem Program.at_append (P : Program) (i : Nat) (is js : List Instr) :
    P.At i (is ++ js) ↔ P.At i is ∧ P.At (i + is.length) js := by
  unfold Program.At
  rw [← List.drop_drop]
  constructor
  · rintro ⟨rest, hrest⟩
    rw [← hrest, List.append_assoc]
    exact ⟨⟨js ++ rest, rfl⟩, ⟨rest, (List.drop_left ..).symm⟩⟩
  · rintro ⟨⟨rest, hrest⟩, htail⟩
    rw [← hrest, List.drop_left] at htail
    rw [← hrest]
    exact (List.prefix_append_right_inj is).mpr htail

theorem Program.at_get (P : Program) (i j : Nat) (is : List Instr) (ins : Instr) (h : P.At i is)
    (hins : is[j]? = some ins) : P.code[i + j]? = some ins := by
  rcases h with ⟨rest, hrest⟩
  rw [← List.getElem?_drop, ← hrest,
    List.getElem?_append_left (List.getElem?_eq_some_iff.mp hins).1]
  exact hins

theorem Program.at_part (P : Program) (i j : Nat) (is js : List Instr) (h : P.At i is)
    (hjs : js <+: is.drop j) : P.At (i + j) js := by
  rcases h with ⟨rest, hrest⟩
  rcases hjs with ⟨tail, htail⟩
  by_cases hj : j ≤ is.length
  · unfold Program.At
    rw [← List.drop_drop, ← hrest, List.drop_append_of_le_length hj, ← htail, List.append_assoc]
    exact ⟨tail ++ rest, rfl⟩
  · rw [List.drop_eq_nil_of_le (by omega), List.append_eq_nil_iff] at htail
    rw [htail.1]
    exact List.nil_prefix

/-- A function of another program. -/
theorem reaches_call (P : Program) (s : Cpu) (a : Word) (f : Cpu → Cpu) (h : P.call a = some f) :
    Reaches P ⟨s, a⟩ ⟨f s, s.get .lr⟩ := by
  refine Relation.ReflTransGen.single ?_
  unfold step
  rw [h]

theorem reaches_branch (P : Program) (s : Cpu) (t : State) (i : Nat) (ins : Instr)
    (hcode : P.code[i]? = some ins) (hbranch : branch ⟨s, P.loc i⟩ ins = some t) :
    Reaches P ⟨s, P.loc i⟩ t :=
  Relation.ReflTransGen.single (step_branch P s t i ins hcode hbranch)

/-- A block of instructions in a part of the program. -/
theorem reaches_part (P : Program) (i j : Nat) (is js : List Instr) (s t : Cpu) (h : P.At i is)
    (hjs : js <+: is.drop j) (hexec : execAll (some s) js = some t) :
    Reaches P ⟨s, P.loc (i + j)⟩ ⟨t, P.loc (i + j + js.length)⟩ :=
  reaches_block P (i + j) js s t (P.at_part i j is js h hjs) hexec

/-- A branch in a part of the program. -/
theorem reaches_jump (P : Program) (i j : Nat) (is : List Instr) (ins : Instr) (s : Cpu)
    (t : State) (h : P.At i is) (hins : is[j]? = some ins)
    (hbranch : branch ⟨s, P.loc (i + j)⟩ ins = some t) : Reaches P ⟨s, P.loc (i + j)⟩ t :=
  reaches_branch P s t (i + j) ins (P.at_get i j is ins h hins) hbranch

theorem Reaches.trans {P : Program} {s t u : State} (h : Reaches P s t) (h' : Reaches P t u) :
    Reaches P s u :=
  Relation.ReflTransGen.trans h h'

theorem Leaves.of_reaches {P : Program} {s t u : State} (h' : Leaves P t u)
    (h : Reaches P s t) : Leaves P s u := by
  rcases h' with ⟨v, n, hv, hend⟩
  exact ⟨v, n, h.trans hv, hend⟩

end Modes

end Mirros
