import Mirros.Core.Memcpy

/-!
# The Loops of the Copying Routine

Each of the three loops of `memcpy` makes the same turn until its counter says so. A turn is
a function of the state (`alignTurn`, `blockTurn`, `leftTurn`), and some turns are that
function iterated, so it remains to say what the registers and the memory are after some of
them.

The counter of the last loop goes down to zero, whatever it was. When it was below zero,
that takes more than two billion turns.

## Main definitions

* `alignTurn`, `blockTurn`, `leftTurn`: A turn of each loop.

## Theorems

* `align_reaches`, `blocks_reach`, `left_reaches`: Each loop from its label to the next one.
-/

namespace Mirros

namespace Arm

/-- A turn of the loop at `copy_aligin`. -/
def alignTurn (s : State) : State :=
  { s with
    r0 := s.r0 + 1
    r1 := s.r1 + 1
    r3 := s.r3 - 1
    r4 := (s.mem s.r1).setWidth 32
    flags := (s.r3, 0)
    mem := copied s.mem s.r0 s.r1 1
    pc := copyAligin }

/-- A turn of the loop at `copy_bigger_16`. -/
def blockTurn (s : State) : State :=
  { s with
    r0 := s.r0 + 16
    r1 := s.r1 + 16
    r2 := s.r2 - 16
    r3 := loadWord s.mem (align s.r1)
    r4 := loadWord s.mem (align s.r1 + 4)
    r5 := loadWord s.mem (align s.r1 + 4 + 4)
    r6 := loadWord s.mem (align s.r1 + 4 + 4 + 4)
    flags := (s.r2, 16)
    mem := copied s.mem (align s.r0) (align s.r1) 16
    pc := copyBigger16 }

/-- A turn of the loop at `copy_left`. -/
def leftTurn (s : State) : State :=
  { s with
    r0 := s.r0 + 1
    r1 := s.r1 + 1
    r2 := s.r2 - 1
    r3 := (s.mem s.r1).setWidth 32
    flags := (s.r2, 0)
    mem := copied s.mem s.r0 s.r1 1
    pc := copyLeft }

theorem alignTurn_reaches (s : State) (hpc : s.pc = copyAligin) (h : s.r3 ≠ 0) :
    Reaches memcpyCode s (alignTurn s) := by
  refine reaches_of_runFor memcpyCode 8 s _ ?_
  unfold alignTurn
  rw [← storeByte_one]
  rcases s with ⟨r0, r1, r2, r3, r4, r5, r6, flags, mem, stack, pc⟩
  subst hpc
  have hno : Cond.holds .eq (r3, 0) = false := decide_eq_false h
  simp only [runFor, step, memcpyCode, copyAligin, exec, List.getElem?_cons_succ,
    List.getElem?_cons_zero, Option.bind_some, State.get, State.next, hno]
  rfl

theorem blockTurn_reaches (s : State) (hpc : s.pc = copyBigger16) (h : s.r2.slt 16 = false) :
    Reaches memcpyCode s (blockTurn s) := by
  refine reaches_of_runFor memcpyCode 6 s _ ?_
  unfold blockTurn
  rw [← storeWord_four]
  rcases s with ⟨r0, r1, r2, r3, r4, r5, r6, flags, mem, stack, pc⟩
  subst hpc
  have hno : Cond.holds .lt (r2, 16) = false := h
  simp only [runFor, step, memcpyCode, copyBigger16, exec, List.getElem?_cons_succ,
    List.getElem?_cons_zero, Option.bind_some, State.get, State.next, hno]
  rfl

theorem leftTurn_reaches (s : State) (hpc : s.pc = copyLeft) (h : s.r2 ≠ 0) :
    Reaches memcpyCode s (leftTurn s) := by
  refine reaches_of_runFor memcpyCode 8 s _ ?_
  unfold leftTurn
  rw [← storeByte_one]
  rcases s with ⟨r0, r1, r2, r3, r4, r5, r6, flags, mem, stack, pc⟩
  subst hpc
  have hno : Cond.holds .eq (r2, 0) = false := decide_eq_false h
  simp only [runFor, step, memcpyCode, copyLeft, exec, List.getElem?_cons_succ,
    List.getElem?_cons_zero, Option.bind_some, State.get, State.next, hno]
  rfl

/-- The loop at `copy_aligin` is left for the next one. -/
theorem align_leaves (s : State) (hpc : s.pc = copyAligin) (h : s.r3 = 0) :
    Reaches memcpyCode s { s with flags := (s.r3, 0), pc := copyBigger16 } := by
  refine reaches_of_runFor memcpyCode 2 s _ ?_
  rcases s with ⟨r0, r1, r2, r3, r4, r5, r6, flags, mem, stack, pc⟩
  subst hpc
  have hyes : Cond.holds .eq (r3, 0) = true := decide_eq_true h
  simp only [runFor, step, memcpyCode, copyAligin, exec, List.getElem?_cons_succ,
    List.getElem?_cons_zero, Option.bind_some, State.get, State.next, hyes]
  rfl

/-- The loop at `copy_bigger_16` is left for the next one. -/
theorem blocks_leave (s : State) (hpc : s.pc = copyBigger16) (h : s.r2.slt 16 = true) :
    Reaches memcpyCode s { s with flags := (s.r2, 16), pc := copyLeft } := by
  refine reaches_of_runFor memcpyCode 2 s _ ?_
  rcases s with ⟨r0, r1, r2, r3, r4, r5, r6, flags, mem, stack, pc⟩
  subst hpc
  have hyes : Cond.holds .lt (r2, 16) = true := h
  simp only [runFor, step, memcpyCode, copyBigger16, exec, List.getElem?_cons_succ,
    List.getElem?_cons_zero, Option.bind_some, State.get, State.next, hyes]
  rfl

/-- The loop at `copy_left` is left for the end. -/
theorem left_leaves (s : State) (hpc : s.pc = copyLeft) (h : s.r2 = 0) :
    Reaches memcpyCode s { s with flags := (s.r2, 0), pc := memcpyEnd } := by
  refine reaches_of_runFor memcpyCode 2 s _ ?_
  rcases s with ⟨r0, r1, r2, r3, r4, r5, r6, flags, mem, stack, pc⟩
  subst hpc
  have hyes : Cond.holds .eq (r2, 0) = true := decide_eq_true h
  simp only [runFor, step, memcpyCode, copyLeft, exec, List.getElem?_cons_succ,
    List.getElem?_cons_zero, Option.bind_some, State.get, State.next, hyes]
  rfl

/-- What the loops have at a label: the two addresses, the size, the memory and the stack. -/
structure At (s : State) (pc : Nat) (t u c : Word) (mem : Mem) (stack : List Word) : Prop where
  pc : s.pc = pc
  target : s.r0 = t
  source : s.r1 = u
  size : s.r2 = c
  mem : s.mem = mem
  stack : s.stack = stack

section

variable (s : State) (t u c : Word) (mem : Mem) (stack : List Word)

/-- Some turns at `copy_aligin`. -/
theorem alignTurn_iterate (h : At s copyAligin t u c mem stack) (n : Nat) :
    At (alignTurn^[n] s) copyAligin (t + BitVec.ofNat 32 n) (u + BitVec.ofNat 32 n) c
        (copyBytes mem t u n) stack ∧
      (alignTurn^[n] s).r3 = s.r3 - BitVec.ofNat 32 n := by
  induction n with
  | zero =>
      rw [BitVec.add_zero, BitVec.add_zero, BitVec.sub_zero]
      exact ⟨h, rfl⟩
  | succ n ih =>
      rcases ih with ⟨⟨hpc, htarget, hsource, hsize, hmem, hstack⟩, hcounter⟩
      rw [Function.iterate_succ_apply']
      refine ⟨⟨rfl, ?_, ?_, hsize, ?_, hstack⟩, ?_⟩
      · change (alignTurn^[n] s).r0 + 1 = _
        rw [htarget]
        exact ofNat_add t n 1
      · change (alignTurn^[n] s).r1 + 1 = _
        rw [hsource]
        exact ofNat_add u n 1
      · change copied (alignTurn^[n] s).mem (alignTurn^[n] s).r0 (alignTurn^[n] s).r1 1 = _
        rw [hmem, htarget, hsource]
        rfl
      · change (alignTurn^[n] s).r3 - 1 = _
        rw [hcounter]
        exact ofNat_sub s.r3 n 1

/-- Some turns at `copy_bigger_16`. -/
theorem blockTurn_iterate (h : At s copyBigger16 t u c mem stack) (n : Nat) :
    At (blockTurn^[n] s) copyBigger16 (t + BitVec.ofNat 32 (16 * n))
      (u + BitVec.ofNat 32 (16 * n)) (c - BitVec.ofNat 32 (16 * n)) (copyBlocks mem t u n)
      stack := by
  induction n with
  | zero =>
      rw [Nat.mul_zero, BitVec.add_zero, BitVec.add_zero, BitVec.sub_zero]
      exact h
  | succ n ih =>
      rcases ih with ⟨hpc, htarget, hsource, hsize, hmem, hstack⟩
      rw [Function.iterate_succ_apply', Nat.mul_succ]
      refine ⟨rfl, ?_, ?_, ?_, ?_, hstack⟩
      · change (blockTurn^[n] s).r0 + 16 = _
        rw [htarget]
        exact ofNat_add t (16 * n) 16
      · change (blockTurn^[n] s).r1 + 16 = _
        rw [hsource]
        exact ofNat_add u (16 * n) 16
      · change (blockTurn^[n] s).r2 - 16 = _
        rw [hsize]
        exact ofNat_sub c (16 * n) 16
      · change copied (blockTurn^[n] s).mem (align (blockTurn^[n] s).r0)
          (align (blockTurn^[n] s).r1) 16 = _
        rw [hmem, htarget, hsource]
        rfl

/-- Some turns at `copy_left`. -/
theorem leftTurn_iterate (h : At s copyLeft t u c mem stack) (n : Nat) :
    At (leftTurn^[n] s) copyLeft (t + BitVec.ofNat 32 n) (u + BitVec.ofNat 32 n)
      (c - BitVec.ofNat 32 n) (copyBytes mem t u n) stack := by
  induction n with
  | zero =>
      rw [BitVec.add_zero, BitVec.add_zero, BitVec.sub_zero]
      exact h
  | succ n ih =>
      rcases ih with ⟨hpc, htarget, hsource, hsize, hmem, hstack⟩
      rw [Function.iterate_succ_apply']
      refine ⟨rfl, ?_, ?_, ?_, ?_, hstack⟩
      · change (leftTurn^[n] s).r0 + 1 = _
        rw [htarget]
        exact ofNat_add t n 1
      · change (leftTurn^[n] s).r1 + 1 = _
        rw [hsource]
        exact ofNat_add u n 1
      · change (leftTurn^[n] s).r2 - 1 = _
        rw [hsize]
        exact ofNat_sub c n 1
      · change copied (leftTurn^[n] s).mem (leftTurn^[n] s).r0 (leftTurn^[n] s).r1 1 = _
        rw [hmem, htarget, hsource]
        rfl

/-- A counter that went down less than its value is not zero yet. -/
theorem sub_ofNat_ne (a : Word) (k : Nat) (hk : k < a.toNat) : a - BitVec.ofNat 32 k ≠ 0 := by
  intro h
  have ha := a.isLt
  have hzero := congrArg BitVec.toNat h
  rw [BitVec.toNat_sub, BitVec.toNat_ofNat] at hzero
  change _ = 0 at hzero
  omega

theorem sub_toNat (a : Word) : a - BitVec.ofNat 32 a.toNat = 0 := by
  rw [BitVec.ofNat_toNat, BitVec.setWidth_eq, BitVec.sub_self]
  rfl

/-- The first loop copies as many bytes as its counter says. -/
theorem align_reaches (h : At s copyAligin t u c mem stack) :
    ∃ s', Reaches memcpyCode s s' ∧
      At s' copyBigger16 (t + s.r3) (u + s.r3) c (copyBytes mem t u s.r3.toNat) stack := by
  have hrun := reaches_iterate memcpyCode alignTurn s.r3.toNat s (fun k hk => by
    rcases alignTurn_iterate s t u c mem stack h k with ⟨hat, hcounter⟩
    refine alignTurn_reaches _ hat.pc ?_
    rw [hcounter]
    exact sub_ofNat_ne s.r3 k hk)
  rcases alignTurn_iterate s t u c mem stack h s.r3.toNat with ⟨hat, hcounter⟩
  rw [sub_toNat] at hcounter
  rw [BitVec.ofNat_toNat, BitVec.setWidth_eq] at hat
  exact ⟨_, reaches_trans _ _ _ _ hrun (align_leaves _ hat.pc hcounter),
    ⟨rfl, hat.target, hat.source, hat.size, hat.mem, hat.stack⟩⟩

/-- The last loop does the same. -/
theorem left_reaches (h : At s copyLeft t u c mem stack) :
    ∃ s', Reaches memcpyCode s s' ∧
      At s' memcpyEnd (t + c) (u + c) 0 (copyBytes mem t u c.toNat) stack := by
  have hrun := reaches_iterate memcpyCode leftTurn c.toNat s (fun k hk => by
    have hat := leftTurn_iterate s t u c mem stack h k
    refine leftTurn_reaches _ hat.pc ?_
    rw [hat.size]
    exact sub_ofNat_ne c k hk)
  have hat := leftTurn_iterate s t u c mem stack h c.toNat
  rw [sub_toNat, BitVec.ofNat_toNat, BitVec.setWidth_eq] at hat
  exact ⟨_, reaches_trans _ _ _ _ hrun (left_leaves _ hat.pc hat.size),
    ⟨rfl, hat.target, hat.source, hat.size, hat.mem, hat.stack⟩⟩

/-- How many blocks are copied for a size, which is a number with a sign. -/
def blocks (c : Word) : Nat :=
  if c.toNat < 2 ^ 31 then c.toNat / 16 else 0

/-- The loop in between copies whole blocks as long as the size has them. -/
theorem blocks_reach (h : At s copyBigger16 t u c mem stack) :
    ∃ s', Reaches memcpyCode s s' ∧
      At s' copyLeft (t + BitVec.ofNat 32 (16 * blocks c)) (u + BitVec.ofNat 32 (16 * blocks c))
        (c - BitVec.ofNat 32 (16 * blocks c)) (copyBlocks mem t u (blocks c)) stack := by
  -- While there are blocks left the size is at least sixteen, and in the end it is less.
  have hmore : ∀ k < blocks c, (c - BitVec.ofNat 32 (16 * k)).slt 16 = false := by
    intro k hk
    unfold blocks at hk
    split_ifs at hk with hsign
    · refine Bool.eq_false_iff.mpr (fun hlt => ?_)
      have hlt := (slt_ofNat _ 16 (by decide)).mp hlt
      rw [BitVec.toNat_sub, BitVec.toNat_ofNat] at hlt
      omega
    · exact absurd hk (Nat.not_lt_zero k)
  have hdone : (c - BitVec.ofNat 32 (16 * blocks c)).slt 16 = true := by
    refine (slt_ofNat _ 16 (by decide)).mpr ?_
    rw [BitVec.toNat_sub, BitVec.toNat_ofNat]
    unfold blocks
    split_ifs with hsign
    · omega
    · omega
  have hrun := reaches_iterate memcpyCode blockTurn (blocks c) s (fun k hk => by
    have hat := blockTurn_iterate s t u c mem stack h k
    refine blockTurn_reaches _ hat.pc ?_
    rw [hat.size]
    exact hmore k hk)
  have hat := blockTurn_iterate s t u c mem stack h (blocks c)
  refine ⟨_, reaches_trans _ _ _ _ hrun (blocks_leave _ hat.pc ?_),
    ⟨rfl, hat.target, hat.source, hat.size, hat.mem, hat.stack⟩⟩
  rw [hat.size]
  exact hdone

end

end Arm

end Mirros
