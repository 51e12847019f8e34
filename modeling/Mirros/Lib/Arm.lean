import Mathlib.Algebra.Group.Nat.Defs
import Mathlib.Logic.Function.Iterate
import Mathlib.Logic.Relation
import Mathlib.Tactic.ByContra
import Mathlib.Tactic.SplitIfs

/-!
# A Part of the ARM Instruction Set

The instructions that simple copying loops are made of, for a processor that ignores the two
low bits of an address when it loads or stores several words. An address and a register have
32 bits and memory is little-endian.

A program is a list of instructions, and a label is an index into it. The flags are the
operands of the last comparison, of which they are a function. `push` and `pop` keep what
they save on a stack of its own, so that a routine has all of memory for itself. It stops at
its `ret`.

## Main definitions

* `Reg`, `Instr`, `Cond`: Instructions.
* `State`, `step`: What an instruction does.
* `loadWord`, `storeWord`: Words in memory.
* `Reaches`, `RunsTo`: Running a program.
* `copied`: Memory after a block was copied at once.

## Theorems

* `runsTo_unique`: A program stops in one state at most.
* `storeMany_loadMany`: Four words copied through registers.
* `copied_copied`: Copying a block in two parts.
-/

namespace Mirros

namespace Arm

/-- An address, or what a register has. -/
abbrev Word : Type := BitVec 32

/-- What the memory has at each address. -/
abbrev Mem : Type := Word → BitVec 8

/-- The registers. -/
inductive Reg where
  | r0 | r1 | r2 | r3 | r4 | r5 | r6
  deriving DecidableEq, Repr

/-- When a branch is taken. -/
inductive Cond where
  | al | eq | ne | lt
  deriving DecidableEq, Repr

/-- The instructions. -/
inductive Instr where
  | mov (d m : Reg)
  | andImm (d n : Reg) (imm : Word)
  | addImm (d n : Reg) (imm : Word)
  | subImm (d n : Reg) (imm : Word)
  | subReg (d n m : Reg)
  | cmpImm (n : Reg) (imm : Word)
  | cmpReg (n m : Reg)
  | ldrb (d n : Reg)
  | strb (d n : Reg)
  | ldmia (n : Reg) (rs : List Reg)
  | stmia (n : Reg) (rs : List Reg)
  | push (rs : List Reg)
  | pop (rs : List Reg)
  | b (c : Cond) (target : Nat)
  | ret
  deriving DecidableEq, Repr

/-- The registers, the operands of the last comparison, the memory, what was pushed, and the
    index of the next instruction. -/
structure State where
  r0 : Word
  r1 : Word
  r2 : Word
  r3 : Word
  r4 : Word
  r5 : Word
  r6 : Word
  flags : Word × Word
  mem : Mem
  stack : List Word
  pc : Nat

/-- What a register has. -/
def State.get (s : State) : Reg → Word
  | .r0 => s.r0
  | .r1 => s.r1
  | .r2 => s.r2
  | .r3 => s.r3
  | .r4 => s.r4
  | .r5 => s.r5
  | .r6 => s.r6

/-- Give a register a value. -/
def State.set (s : State) (r : Reg) (v : Word) : State :=
  match r with
  | .r0 => { s with r0 := v }
  | .r1 => { s with r1 := v }
  | .r2 => { s with r2 := v }
  | .r3 => { s with r3 := v }
  | .r4 => { s with r4 := v }
  | .r5 => { s with r5 := v }
  | .r6 => { s with r6 := v }

/-- On to the next instruction. -/
def State.next (s : State) : State :=
  { s with pc := s.pc + 1 }

/-- The condition holds for these operands, the last one as numbers with a sign. -/
def Cond.holds : Cond → Word × Word → Bool
  | .al, _ => true
  | .eq, (x, y) => x = y
  | .ne, (x, y) => x ≠ y
  | .lt, (x, y) => x.slt y

/-- The address without its two low bits. -/
def align (a : Word) : Word := BitVec.ofNat 32 (a.toNat / 4 * 4)

/-- The word at an address, the low byte first. -/
def loadWord (mem : Mem) (a : Word) : Word :=
  BitVec.ofNat 32 ((mem a).toNat + 256 * (mem (a + 1)).toNat + 256 ^ 2 * (mem (a + 2)).toNat +
    256 ^ 3 * (mem (a + 3)).toNat)

/-- The memory with a word at an address. -/
def storeWord (mem : Mem) (a w : Word) : Mem :=
  fun x => if (x - a).toNat < 4 then w.extractLsb' (8 * (x - a).toNat) 8 else mem x

/-- Load words from an address on into registers. -/
def loadMany (s : State) (a : Word) : List Reg → State
  | [] => s
  | r :: rs => loadMany (s.set r (loadWord s.mem a)) (a + 4) rs

/-- Store registers from an address on. -/
def storeMany (s : State) (a : Word) : List Reg → State
  | [] => s
  | r :: rs => storeMany { s with mem := storeWord s.mem a (s.get r) } (a + 4) rs

/-- Give registers the words of a list, with the words that are left over. -/
def popMany (s : State) : List Reg → List Word → State
  | r :: rs, w :: ws => popMany (s.set r w) rs ws
  | _, ws => { s with stack := ws }

/-- What an instruction does, unless it is the end. -/
def exec (s : State) : Instr → Option State
  | .mov d m => some (s.set d (s.get m)).next
  | .andImm d n imm => some (s.set d (s.get n &&& imm)).next
  | .addImm d n imm => some (s.set d (s.get n + imm)).next
  | .subImm d n imm => some (s.set d (s.get n - imm)).next
  | .subReg d n m => some (s.set d (s.get n - s.get m)).next
  | .cmpImm n imm => some { s with flags := (s.get n, imm) }.next
  | .cmpReg n m => some { s with flags := (s.get n, s.get m) }.next
  | .ldrb d n => some (s.set d ((s.mem (s.get n)).setWidth 32)).next
  | .strb d n =>
      some { s with mem := fun x => if x = s.get n then (s.get d).setWidth 8 else s.mem x }.next
  -- The base goes on from the address as it is, with its low bits.
  | .ldmia n rs =>
      some ((loadMany s (align (s.get n)) rs).set n
        (s.get n + BitVec.ofNat 32 (4 * rs.length))).next
  | .stmia n rs =>
      some ((storeMany s (align (s.get n)) rs).set n
        (s.get n + BitVec.ofNat 32 (4 * rs.length))).next
  | .push rs => some { s with stack := rs.map s.get ++ s.stack }.next
  | .pop rs => some (popMany s rs s.stack).next
  | .b c target => if c.holds s.flags then some { s with pc := target } else some s.next
  | .ret => none

/-- One step of a program. -/
def step (code : List Instr) (s : State) : Option State :=
  (code[s.pc]?).bind (exec s)

/-- Some steps lead from one state to another. -/
def Reaches (code : List Instr) : State → State → Prop :=
  Relation.ReflTransGen (fun s s' => step code s = some s')

/-- The program comes to its end in this state. -/
def RunsTo (code : List Instr) (s s' : State) : Prop :=
  Reaches code s s' ∧ code[s'.pc]? = some .ret

/-- Take some steps. -/
def runFor (code : List Instr) : Nat → State → Option State
  | 0, s => some s
  | n + 1, s => (step code s).bind (runFor code n)

theorem reaches_of_runFor (code : List Instr) (n : Nat) (s s' : State)
    (h : runFor code n s = some s') : Reaches code s s' := by
  induction n generalizing s with
  | zero =>
      rw [runFor, Option.some.injEq] at h
      rw [h]
      exact Relation.ReflTransGen.refl
  | succ n ih =>
      rcases Option.bind_eq_some_iff.mp h with ⟨t, hstep, hrest⟩
      exact Relation.ReflTransGen.head hstep (ih t hrest)

theorem reaches_trans (code : List Instr) (s t u : State) (hst : Reaches code s t)
    (htu : Reaches code t u) : Reaches code s u :=
  Relation.ReflTransGen.trans hst htu

/-- A program stops in one state at most. -/
theorem runsTo_unique (code : List Instr) (s t u : State) (ht : RunsTo code s t)
    (hu : RunsTo code s u) : t = u := by
  have hend : ∀ v w, code[v.pc]? = some .ret → ¬ step code v = some w := by
    intro v w hv hstep
    rw [step, hv] at hstep
    cases hstep
  rcases ht with ⟨ht, htend⟩
  induction ht using Relation.ReflTransGen.head_induction_on with
  | refl =>
      rcases Relation.ReflTransGen.cases_head hu.1 with heq | ⟨v, hstep, -⟩
      · exact heq
      · exact absurd hstep (hend t v htend)
  | head hstep _ ih =>
      rcases Relation.ReflTransGen.cases_head hu.1 with heq | ⟨v, hstep', hrest⟩
      · subst heq
        exact absurd hstep (hend _ _ hu.2)
      · rw [hstep, Option.some.injEq] at hstep'
        subst hstep'
        exact ih ⟨hrest, hu.2⟩

/-- The memory after `n` bytes from `s` on were copied to `t`, all at once. -/
def copied (mem : Mem) (t s : Word) (n : Nat) : Mem :=
  fun x => if (x - t).toNat < n then mem (s + (x - t)) else mem x

theorem copied_zero (mem : Mem) (t s : Word) : copied mem t s 0 = mem := by
  funext x
  unfold copied
  rw [if_neg (Nat.not_lt_zero _)]

/-- A byte that is loaded before it is stored. -/
theorem storeByte_one (mem : Mem) (t s : Word) :
    (fun x => if x = t then ((mem s).setWidth 32).setWidth 8 else mem x) = copied mem t s 1 := by
  funext x
  unfold copied
  have hself : (x - t).toNat < 1 ↔ x = t := by
    rw [Nat.lt_one_iff]
    bv_omega
  by_cases hx : x = t
  · rw [if_pos hx, if_pos (hself.mpr hx), hx, BitVec.sub_self, BitVec.add_zero,
      BitVec.setWidth_setWidth_of_le _ (by decide), BitVec.setWidth_eq]
  · rw [if_neg hx, if_neg (fun hc => hx (hself.mp hc))]

/-- Where an address is in a block behind the first `m` bytes. -/
theorem toNat_sub_add (x t : Word) (m n : Nat) (h : m + n ≤ 2 ^ 32) :
    (x - (t + BitVec.ofNat 32 m)).toNat < n ↔ m ≤ (x - t).toNat ∧ (x - t).toNat < m + n := by
  have hx := x.isLt
  have ht := t.isLt
  rw [BitVec.toNat_sub, BitVec.toNat_sub, BitVec.toNat_add, BitVec.toNat_ofNat]
  omega

theorem add_add_sub (s t x d : Word) : s + d + (x - (t + d)) = s + (x - t) := by
  bv_omega

/-- The bytes of a word that was loaded. -/
theorem extract_loadWord (mem : Mem) (a : Word) (i : Nat) (hi : i < 4) :
    (loadWord mem a).extractLsb' (8 * i) 8 = mem (a + BitVec.ofNat 32 i) := by
  have h0 := (mem a).isLt
  have h1 := (mem (a + 1)).isLt
  have h2 := (mem (a + 2)).isLt
  have h3 := (mem (a + 3)).isLt
  refine BitVec.eq_of_toNat_eq ?_
  unfold loadWord
  rw [BitVec.extractLsb'_toNat, BitVec.toNat_ofNat, Nat.shiftRight_eq_div_pow]
  rcases (by omega : i = 0 ∨ i = 1 ∨ i = 2 ∨ i = 3) with rfl | rfl | rfl | rfl
  · rw [show a + BitVec.ofNat 32 0 = a from BitVec.add_zero a]
    omega
  · change _ = (mem (a + 1)).toNat
    omega
  · change _ = (mem (a + 2)).toNat
    omega
  · change _ = (mem (a + 3)).toNat
    omega

/-- A word behind a part that was copied. -/
theorem storeWord_copied (mem : Mem) (t s : Word) (m : Nat) (h : m + 4 ≤ 2 ^ 32) :
    storeWord (copied mem t s m) (t + BitVec.ofNat 32 m) (loadWord mem (s + BitVec.ofNat 32 m)) =
      copied mem t s (m + 4) := by
  funext x
  unfold storeWord copied
  by_cases hin : (x - (t + BitVec.ofNat 32 m)).toNat < 4
  · rcases (toNat_sub_add x t m 4 h).mp hin with ⟨hlow, hhigh⟩
    rw [if_pos hin, if_pos hhigh, extract_loadWord mem _ _ hin]
    congr 1
    rw [BitVec.ofNat_toNat, BitVec.setWidth_eq]
    exact add_add_sub s t x (BitVec.ofNat 32 m)
  · rw [if_neg hin]
    rw [toNat_sub_add x t m 4 h] at hin
    split_ifs with h1 h2 h2
    · rfl
    · omega
    · omega
    · rfl

/-- Four words that are all loaded before they are stored. -/
theorem storeWord_four (mem : Mem) (t s : Word) :
    storeWord (storeWord (storeWord (storeWord mem t (loadWord mem s)) (t + 4)
      (loadWord mem (s + 4))) (t + 4 + 4) (loadWord mem (s + 4 + 4))) (t + 4 + 4 + 4)
      (loadWord mem (s + 4 + 4 + 4)) = copied mem t s 16 := by
  have hone := storeWord_copied mem t s 0 (by decide)
  rw [copied_zero, BitVec.add_zero, BitVec.add_zero] at hone
  rw [hone, BitVec.add_assoc t, BitVec.add_assoc s, BitVec.add_assoc t, BitVec.add_assoc s]
  rw [show (4 : Word) = BitVec.ofNat 32 4 from rfl]
  rw [storeWord_copied mem t s 4 (by decide)]
  exact (storeWord_copied mem t s 8 (by decide)) ▸ storeWord_copied mem t s 12 (by decide)

/-- A block in two parts, if the first does not write over the rest of what is copied. -/
theorem copied_copied (mem : Mem) (t s : Word) (m n : Nat) (h : m + n ≤ 2 ^ 32)
    (hover : ∀ i, m ≤ i → i < m + n → m ≤ (s + BitVec.ofNat 32 i - t).toNat) :
    copied (copied mem t s m) (t + BitVec.ofNat 32 m) (s + BitVec.ofNat 32 m) n =
      copied mem t s (m + n) := by
  funext x
  unfold copied
  rw [add_add_sub]
  by_cases hin : (x - (t + BitVec.ofNat 32 m)).toNat < n
  · rcases (toNat_sub_add x t m n h).mp hin with ⟨hlow, hhigh⟩
    have hsource := hover (x - t).toNat hlow hhigh
    rw [BitVec.ofNat_toNat, BitVec.setWidth_eq] at hsource
    rw [if_pos hin, if_pos hhigh, if_neg (by omega)]
  · rw [if_neg hin]
    rw [toNat_sub_add x t m n h] at hin
    split_ifs with h1 h2 h2
    · rfl
    · omega
    · omega
    · rfl

/-- One byte after another. -/
def copyBytes (mem : Mem) (t s : Word) : Nat → Mem
  | 0 => mem
  | n + 1 => copied (copyBytes mem t s n) (t + BitVec.ofNat 32 n) (s + BitVec.ofNat 32 n) 1

/-- One block of four words after another, from where the addresses are aligned to. -/
def copyBlocks (mem : Mem) (t s : Word) : Nat → Mem
  | 0 => mem
  | n + 1 => copied (copyBlocks mem t s n) (align (t + BitVec.ofNat 32 (16 * n)))
      (align (s + BitVec.ofNat 32 (16 * n))) 16

/-- No byte of the source is among those of the target. -/
def Apart (t s : Word) (n : Nat) : Prop :=
  ∀ i < n, n ≤ (s + BitVec.ofNat 32 i - t).toNat

theorem ofNat_add (a : Word) (m n : Nat) :
    a + BitVec.ofNat 32 m + BitVec.ofNat 32 n = a + BitVec.ofNat 32 (m + n) := by
  rw [BitVec.ofNat_add, BitVec.add_assoc]

/-- A word is below a number if it is or if it is negative. -/
theorem slt_ofNat (a : Word) (n : Nat) (hn : n < 2 ^ 31) :
    a.slt (BitVec.ofNat 32 n) = true ↔ a.toNat < n ∨ 2 ^ 31 ≤ a.toNat := by
  have ha := a.isLt
  unfold BitVec.slt
  rw [decide_eq_true_eq, BitVec.toInt_eq_toNat_cond, BitVec.toInt_eq_toNat_cond,
    BitVec.toNat_ofNat, Nat.mod_eq_of_lt (by omega)]
  have hpos : 2 * n < 2 ^ 32 := by omega
  rw [if_pos hpos]
  split_ifs with hsign
  · omega
  · omega

theorem sub_sub (a x y : Word) : a - x - y = a - (x + y) := by
  bv_omega

theorem ofNat_sub (a : Word) (m n : Nat) :
    a - BitVec.ofNat 32 m - BitVec.ofNat 32 n = a - BitVec.ofNat 32 (m + n) := by
  rw [BitVec.ofNat_add, sub_sub]

theorem add_sub_add (s t x y : Word) : s + x + y - (t + x) = s + y - t := by
  bv_omega

theorem toNat_align (a : Word) : (align a).toNat = a.toNat / 4 * 4 := by
  have ha := a.isLt
  unfold align
  rw [BitVec.toNat_ofNat]
  omega

theorem align_eq_iff (a : Word) : align a = a ↔ a.toNat % 4 = 0 := by
  rw [← BitVec.toNat_inj, toNat_align]
  omega

/-- The parts of a block are apart as well. -/
theorem Apart.part (t s : Word) (m n k : Nat) (h : Apart t s k) (hk : m + n ≤ k) :
    Apart (t + BitVec.ofNat 32 m) (s + BitVec.ofNat 32 m) n := by
  intro i hi
  rw [add_sub_add]
  exact Nat.le_trans (by omega) (h i (by omega))

/-- A block in two parts, when it is apart from where it goes. -/
theorem copied_append (mem : Mem) (t s : Word) (m n k : Nat) (h : Apart t s k) (hk : m + n ≤ k)
    (hword : k ≤ 2 ^ 32) :
    copied (copied mem t s m) (t + BitVec.ofNat 32 m) (s + BitVec.ofNat 32 m) n =
      copied mem t s (m + n) := by
  refine copied_copied mem t s m n (Nat.le_trans hk hword) (fun i _ hi => ?_)
  exact Nat.le_trans (by omega) (h i (by omega))

/-- Byte by byte is all at once. -/
theorem copyBytes_apart (mem : Mem) (t s : Word) (n k : Nat) (h : Apart t s k) (hk : n ≤ k)
    (hword : k ≤ 2 ^ 32) : copyBytes mem t s n = copied mem t s n := by
  induction n with
  | zero => exact (copied_zero mem t s).symm
  | succ n ih =>
      rw [copyBytes, ih (by omega), copied_append mem t s n 1 k h hk hword]

/-- So is block by block, from aligned addresses. -/
theorem copyBlocks_apart (mem : Mem) (t s : Word) (n k : Nat) (h : Apart t s k) (hk : 16 * n ≤ k)
    (hword : k ≤ 2 ^ 32) (ht : align t = t) (hs : align s = s) :
    copyBlocks mem t s n = copied mem t s (16 * n) := by
  have halign : ∀ a : Word, align a = a → ∀ n, align (a + BitVec.ofNat 32 (16 * n)) =
      a + BitVec.ofNat 32 (16 * n) := by
    intro a ha n
    rw [align_eq_iff] at ha ⊢
    rw [BitVec.toNat_add, BitVec.toNat_ofNat]
    omega
  induction n with
  | zero => exact (copied_zero mem t s).symm
  | succ n ih =>
      rw [copyBlocks, ih (by omega), halign t ht, halign s hs,
        copied_append mem t s (16 * n) 16 k h hk hword, Nat.mul_succ]

/-- A byte that no turn writes. -/
theorem copyBytes_miss (mem : Mem) (t s : Word) (n : Nat) (x : Word)
    (h : ∀ i < n, x ≠ t + BitVec.ofNat 32 i) : copyBytes mem t s n x = mem x := by
  induction n with
  | zero => rfl
  | succ n ih =>
      rw [copyBytes]
      unfold copied
      have hne := h n (Nat.lt_succ_self n)
      rw [if_neg (fun hin => hne ?_)]
      · exact ih (fun i hi => h i (by omega))
      · have hzero : x - (t + BitVec.ofNat 32 n) = 0 := by
          refine BitVec.eq_of_toNat_eq ?_
          rw [Nat.lt_one_iff.mp hin]
          rfl
        generalize BitVec.ofNat 32 n = y at *
        bv_omega

/-- The same for blocks. -/
theorem copyBlocks_miss (mem : Mem) (t s : Word) (n : Nat) (x : Word)
    (h : ∀ i < n, 16 ≤ (x - align (t + BitVec.ofNat 32 (16 * i))).toNat) :
    copyBlocks mem t s n x = mem x := by
  induction n with
  | zero => rfl
  | succ n ih =>
      rw [copyBlocks]
      unfold copied
      rw [if_neg (Nat.not_lt.mpr (h n (Nat.lt_succ_self n)))]
      exact ih (fun i hi => h i (by omega))

/-- Byte by byte in two parts. -/
theorem copyBytes_add (mem : Mem) (t s : Word) (m n : Nat) :
    copyBytes mem t s (m + n) =
      copyBytes (copyBytes mem t s m) (t + BitVec.ofNat 32 m) (s + BitVec.ofNat 32 m) n := by
  induction n with
  | zero => rfl
  | succ n ih => rw [Nat.add_succ, copyBytes, copyBytes, ih, ofNat_add, ofNat_add]

/-- Copying a block to where it is changes nothing. -/
theorem copied_self (mem : Mem) (t : Word) (n : Nat) : copied mem t t n = mem := by
  funext x
  unfold copied
  split_ifs with h
  · congr 1
    bv_omega
  · rfl

theorem copyBytes_self (mem : Mem) (t : Word) (n : Nat) : copyBytes mem t t n = mem := by
  induction n with
  | zero => rfl
  | succ n ih => rw [copyBytes, ih, copied_self]

/-- Some turns of a loop. -/
theorem reaches_iterate (code : List Instr) (turn : State → State) (n : Nat) (s : State)
    (h : ∀ k < n, Reaches code (turn^[k] s) (turn (turn^[k] s))) :
    Reaches code s (turn^[n] s) := by
  induction n with
  | zero => exact Relation.ReflTransGen.refl
  | succ n ih =>
      rw [Function.iterate_succ_apply']
      exact reaches_trans code _ _ _ (ih (fun k hk => h k (by omega))) (h n (Nat.lt_succ_self n))

end Arm

end Mirros
