import Mirros.Theory.Memcpy.Loops

/-!
# When the Copying Routine Copies

`memcpy` takes the low bits of the target off the size and copies as many bytes before it
goes on with words. That many bytes do not lead to an aligned address, except from the middle
of a word. So from an odd address it copies blocks to where they do not belong: the processor
ignores the low bits of the address, the block lands up to two bytes too low, and as many
bytes are left out behind the last block. And when the size is smaller than the bytes copied
first, the counter goes below zero, and the last loop copies on through all of memory.

Nothing of this happens when the addresses do not agree in their low bits, because then the
bytes are copied one by one.

## Main definitions

* `memcpyMem`: What the routine makes of the memory.
* `CopiesExactly`: What it should do.

## Theorems

* `memcpy_runs`: The routine comes to its end.
* `memcpy_exact`: When it copies exactly.
-/

namespace Mirros

namespace Arm

/-- The registers that are saved. -/
def saved (s : State) : List Word :=
  s.r3 :: s.r4 :: s.r5 :: s.r6 :: s.stack

/-- Addresses that do not agree in their low bits. -/
theorem start_bytes (s : State) (hpc : s.pc = 0) (h : s.r0 &&& 3 ≠ s.r1 &&& 3) :
    ∃ s', Reaches memcpyCode s s' ∧ At s' copyLeft s.r0 s.r1 s.r2 s.mem (saved s) := by
  refine ⟨_, reaches_of_runFor memcpyCode 7 s
    { s with r3 := s.r0 &&& 3, r4 := s.r1 &&& 3, flags := (s.r0 &&& 3, s.r1 &&& 3),
             stack := saved s, pc := copyLeft } ?_, ⟨rfl, rfl, rfl, rfl, rfl, rfl⟩⟩
  rcases s with ⟨r0, r1, r2, r3, r4, r5, r6, flags, mem, stack, pc⟩
  subst hpc
  have hyes : Cond.holds .ne (r0 &&& 3, r1 &&& 3) = true := decide_eq_true h
  simp only [runFor, step, memcpyCode, exec, List.getElem?_cons_succ,
    List.getElem?_cons_zero, Option.bind_some, State.get, State.set, State.next, hyes]
  rfl

/-- Addresses that do. -/
theorem start_words (s : State) (hpc : s.pc = 0) (h : s.r0 &&& 3 = s.r1 &&& 3) :
    ∃ s', Reaches memcpyCode s s' ∧
      At s' copyAligin s.r0 s.r1 (s.r2 - (s.r0 &&& 3)) s.mem (saved s) ∧
      s'.r3 = s.r0 &&& 3 := by
  refine ⟨_, reaches_of_runFor memcpyCode 8 s
    { s with r2 := s.r2 - (s.r0 &&& 3), r3 := s.r0 &&& 3, r4 := s.r1 &&& 3,
             flags := (s.r0 &&& 3, s.r1 &&& 3), stack := saved s, pc := copyAligin } ?_,
    ⟨rfl, rfl, rfl, rfl, rfl, rfl⟩, rfl⟩
  rcases s with ⟨r0, r1, r2, r3, r4, r5, r6, flags, mem, stack, pc⟩
  subst hpc
  have hno : Cond.holds .ne (r0 &&& 3, r1 &&& 3) = false := decide_eq_false (not_not.mpr h)
  simp only [runFor, step, memcpyCode, exec, List.getElem?_cons_succ,
    List.getElem?_cons_zero, Option.bind_some, State.get, State.set, State.next, hno]
  rfl

/-- The registers are taken back. -/
theorem end_runs (s : State) (t u : Word) (mem : Mem) (w3 w4 w5 w6 : Word) (stack : List Word)
    (h : At s memcpyEnd t u 0 mem (w3 :: w4 :: w5 :: w6 :: stack)) :
    ∃ s', RunsTo memcpyCode s s' ∧ s'.mem = mem ∧ s'.stack = stack ∧
      s'.r3 = w3 ∧ s'.r4 = w4 ∧ s'.r5 = w5 ∧ s'.r6 = w6 := by
  rcases s with ⟨r0, r1, r2, r3, r4, r5, r6, flags, mem', stack', pc⟩
  rcases h with ⟨hpc, htarget, hsource, hsize, hmem, hstack⟩
  dsimp only at hpc hstack
  subst hpc hstack
  exact ⟨_, ⟨reaches_of_runFor memcpyCode 2 _ _ rfl, rfl⟩, hmem, rfl, rfl, rfl, rfl, rfl⟩

/-- What the routine makes of the memory for a size. -/
def memcpyMem (mem : Mem) (t u c : Word) : Mem :=
  if t &&& 3 ≠ u &&& 3 then copyBytes mem t u c.toNat
  else
    let first := t &&& 3
    let rest := c - first
    let words := BitVec.ofNat 32 (16 * blocks rest)
    copyBytes
      (copyBlocks (copyBytes mem t u first.toNat) (t + first) (u + first) (blocks rest))
      (t + first + words) (u + first + words) (rest - words).toNat

/-- The routine comes to its end, with the registers it has saved. -/
theorem memcpy_runs (s : State) (hpc : s.pc = 0) :
    ∃ s', RunsTo memcpyCode s s' ∧ s'.mem = memcpyMem s.mem s.r0 s.r1 s.r2 ∧
      s'.stack = s.stack ∧ s'.r3 = s.r3 ∧ s'.r4 = s.r4 ∧ s'.r5 = s.r5 ∧ s'.r6 = s.r6 := by
  unfold memcpyMem
  split_ifs with h
  · rcases start_bytes s hpc h with ⟨s₁, hrun₁, hat₁⟩
    rcases left_reaches s₁ _ _ _ _ _ hat₁ with ⟨s₂, hrun₂, hat₂⟩
    rcases end_runs s₂ _ _ _ _ _ _ _ _ hat₂ with ⟨s₃, hrun₃, hend⟩
    exact ⟨s₃, ⟨reaches_trans _ _ _ _ hrun₁ (reaches_trans _ _ _ _ hrun₂ hrun₃.1), hrun₃.2⟩, hend⟩
  · rcases start_words s hpc (not_not.mp h) with ⟨s₁, hrun₁, hat₁, hfirst⟩
    rcases align_reaches s₁ _ _ _ _ _ hat₁ with ⟨s₂, hrun₂, hat₂⟩
    rw [hfirst] at hat₂
    rcases blocks_reach s₂ _ _ _ _ _ hat₂ with ⟨s₃, hrun₃, hat₃⟩
    rcases left_reaches s₃ _ _ _ _ _ hat₃ with ⟨s₄, hrun₄, hat₄⟩
    rcases end_runs s₄ _ _ _ _ _ _ _ _ hat₄ with ⟨s₅, hrun₅, hend⟩
    exact ⟨s₅, ⟨reaches_trans _ _ _ _ hrun₁ (reaches_trans _ _ _ _ hrun₂
      (reaches_trans _ _ _ _ hrun₃ (reaches_trans _ _ _ _ hrun₄ hrun₅.1))), hrun₅.2⟩, hend⟩

/-- Two blocks of memory that do not wrap and have no address in common. -/
structure DisjointBlocks (t u : Word) (n : Nat) : Prop where
  target : t.toNat + n ≤ 2 ^ 32
  source : u.toNat + n ≤ 2 ^ 32
  disjoint : t.toNat + n ≤ u.toNat ∨ u.toNat + n ≤ t.toNat

/-- The block at the source is at the target, and everything else is what it was. -/
def CopiesExactly (t u c : Word) : Prop :=
  ∀ s : State, s.pc = 0 → s.r0 = t → s.r1 = u → s.r2 = c →
    ∃ s', RunsTo memcpyCode s s' ∧ s'.mem = copied s.mem t u c.toNat

/-- A routine that stops in one state copies exactly if it leaves the right memory. -/
theorem copiesExactly_iff (t u c : Word) :
    CopiesExactly t u c ↔ ∀ mem, memcpyMem mem t u c = copied mem t u c.toNat := by
  constructor
  · intro h mem
    let s : State := ⟨t, u, c, 0, 0, 0, 0, (0, 0), mem, [], 0⟩
    rcases h s rfl rfl rfl rfl with ⟨s₁, hrun₁, hmem₁⟩
    rcases memcpy_runs s rfl with ⟨s₂, hrun₂, hmem₂, -⟩
    rw [runsTo_unique memcpyCode s s₂ s₁ hrun₂ hrun₁, hmem₁] at hmem₂
    exact hmem₂.symm
  · intro h s hpc htarget hsource hsize
    rcases memcpy_runs s hpc with ⟨s', hrun, hmem, -⟩
    rw [htarget, hsource, hsize, h] at hmem
    exact ⟨s', hrun, hmem⟩

theorem and_three (a : Word) : (a &&& 3).toNat = a.toNat % 4 := by
  rw [BitVec.toNat_and]
  exact Nat.and_two_pow_sub_one_eq_mod a.toNat 2

theorem and_three_eq_iff (a b : Word) : a &&& 3 = b &&& 3 ↔ a.toNat % 4 = b.toNat % 4 := by
  rw [← BitVec.toNat_inj, and_three, and_three]

theorem DisjointBlocks.apart (t u : Word) (n : Nat) (h : DisjointBlocks t u n) : Apart t u n := by
  intro i hi
  rcases h with ⟨htarget, hsource, hdisjoint⟩
  have ht := t.isLt
  have hu := u.isLt
  rw [BitVec.toNat_sub, BitVec.toNat_add, BitVec.toNat_ofNat]
  omega

/-- Without words. -/
theorem memcpyMem_bytes (mem : Mem) (t u c : Word) (h : t.toNat % 4 ≠ u.toNat % 4) :
    memcpyMem mem t u c = copyBytes mem t u c.toNat := by
  unfold memcpyMem
  rw [if_pos (fun heq => h ((and_three_eq_iff t u).mp heq))]

/-- With words, when the size covers the bytes that are copied first. -/
theorem memcpyMem_words (mem : Mem) (t u c : Word) (f b : Nat) (h : t.toNat % 4 = u.toNat % 4)
    (hf : t.toNat % 4 = f) (hfirst : f ≤ c.toNat) (hsign : c.toNat < 2 ^ 31)
    (hb : (c.toNat - f) / 16 = b) :
    memcpyMem mem t u c =
      copyBytes
        (copyBlocks (copyBytes mem t u f) (t + BitVec.ofNat 32 f) (u + BitVec.ofNat 32 f) b)
        (t + BitVec.ofNat 32 (f + 16 * b)) (u + BitVec.ofNat 32 (f + 16 * b))
        (c.toNat - (f + 16 * b)) := by
  have hlow : t &&& 3 = BitVec.ofNat 32 f := by
    rw [← BitVec.toNat_inj, and_three, BitVec.toNat_ofNat]
    omega
  have hrest : (c - BitVec.ofNat 32 f).toNat = c.toNat - f := by
    rw [BitVec.toNat_sub, BitVec.toNat_ofNat]
    omega
  have hblocks : blocks (c - BitVec.ofNat 32 f) = b := by
    unfold blocks
    rw [hrest, if_pos (by omega), hb]
  have hleft : (c - BitVec.ofNat 32 (f + 16 * b)).toNat = c.toNat - (f + 16 * b) := by
    rw [BitVec.toNat_sub, BitVec.toNat_ofNat]
    omega
  unfold memcpyMem
  rw [if_neg (not_not.mpr ((and_three_eq_iff t u).mpr h))]
  dsimp only
  rw [hlow, hblocks, ofNat_add, ofNat_add, ofNat_sub, hleft, BitVec.toNat_ofNat,
    Nat.mod_eq_of_lt (by omega)]

/-- With words, when it does not: the counter goes around. -/
theorem memcpyMem_wraps (mem : Mem) (t u c : Word) (h : t.toNat % 4 = u.toNat % 4)
    (hfirst : c.toNat < t.toNat % 4) :
    memcpyMem mem t u c = copyBytes mem t u (c.toNat + 2 ^ 32) := by
  have hlow : (t &&& 3).toNat = t.toNat % 4 := and_three t
  have hrest : (c - (t &&& 3)).toNat = c.toNat + 2 ^ 32 - t.toNat % 4 := by
    rw [BitVec.toNat_sub, hlow]
    omega
  have hblocks : blocks (c - (t &&& 3)) = 0 := by
    unfold blocks
    rw [hrest, if_neg (by omega)]
  unfold memcpyMem
  rw [if_neg (not_not.mpr ((and_three_eq_iff t u).mpr h))]
  dsimp only
  rw [hblocks, Nat.mul_zero, BitVec.add_zero, BitVec.add_zero, BitVec.sub_zero, hrest, hlow]
  have hsplit := copyBytes_add mem t u (t.toNat % 4) (c.toNat + 2 ^ 32 - t.toNat % 4)
  have hsum : t.toNat % 4 + (c.toNat + 2 ^ 32 - t.toNat % 4) = c.toNat + 2 ^ 32 := by omega
  rw [hsum, ← hlow, BitVec.ofNat_toNat, BitVec.setWidth_eq, hlow] at hsplit
  exact hsplit.symm

/-- Byte by byte, any block apart from its source is copied. -/
theorem copies_bytes (mem : Mem) (t u c : Word) (hapart : Apart t u c.toNat)
    (h : t.toNat % 4 ≠ u.toNat % 4) : memcpyMem mem t u c = copied mem t u c.toNat := by
  have hword := c.isLt
  rw [memcpyMem_bytes mem t u c h]
  exact copyBytes_apart mem t u c.toNat c.toNat hapart (Nat.le_refl _) (Nat.le_of_lt hword)

/-- The three loops one after another, when the blocks are not moved to another address. -/
theorem copies_words (mem : Mem) (t u c : Word) (hapart : Apart t u c.toNat)
    (hsign : c.toNat < 2 ^ 31) (h : t.toNat % 4 = u.toNat % 4) (hfirst : t.toNat % 4 ≤ c.toNat)
    (heven : t.toNat % 4 % 2 = 0 ∨ c.toNat < t.toNat % 4 + 16) :
    memcpyMem mem t u c = copied mem t u c.toNat := by
  have hword : c.toNat ≤ 2 ^ 32 := Nat.le_of_lt c.isLt
  generalize hf : t.toNat % 4 = f at hfirst heven
  generalize hb : (c.toNat - f) / 16 = b
  have hpart : Apart (t + BitVec.ofNat 32 f) (u + BitVec.ofNat 32 f) (c.toNat - f) :=
    Apart.part t u f (c.toNat - f) c.toNat hapart (by omega)
  have hblocks : copyBlocks (copied mem t u f) (t + BitVec.ofNat 32 f) (u + BitVec.ofNat 32 f) b =
      copied (copied mem t u f) (t + BitVec.ofNat 32 f) (u + BitVec.ofNat 32 f) (16 * b) := by
    rcases Nat.eq_zero_or_pos b with rfl | hpos
    · exact (copied_zero _ _ _).symm
    · refine copyBlocks_apart _ _ _ b (c.toNat - f) hpart (by omega) (by omega) ?_ ?_
      · rw [align_eq_iff, BitVec.toNat_add, BitVec.toNat_ofNat]
        omega
      · rw [align_eq_iff, BitVec.toNat_add, BitVec.toNat_ofNat]
        omega
  have htail : Apart (t + BitVec.ofNat 32 (f + 16 * b)) (u + BitVec.ofNat 32 (f + 16 * b))
      (c.toNat - (f + 16 * b)) :=
    Apart.part t u (f + 16 * b) _ c.toNat hapart (by omega)
  rw [memcpyMem_words mem t u c f b h hf hfirst hsign hb,
    copyBytes_apart mem t u f c.toNat hapart hfirst hword, hblocks,
    copied_append mem t u f (16 * b) c.toNat hapart (by omega) hword,
    copyBytes_apart _ _ _ _ _ htail (Nat.le_refl _) (by omega),
    copied_append mem t u (f + 16 * b) _ c.toNat hapart (by omega) hword]
  congr 1
  omega

/-- The memory with a one at an address and zeros elsewhere. -/
def oneAt (a : Word) : Mem :=
  fun x => if x = a then 1 else 0

theorem oneAt_ne (a x : Word) (h : x ≠ a) : oneAt a a ≠ oneAt a x := by
  unfold oneAt
  rw [if_pos rfl, if_neg h]
  decide

theorem add_ofNat_ne (t u : Word) (k : Nat) (h : t ≠ u) :
    t + BitVec.ofNat 32 k ≠ u + BitVec.ofNat 32 k := by
  intro heq
  generalize BitVec.ofNat 32 k = d at heq
  exact h (by bv_omega)

/-- The counter goes around, and the byte behind the target gets the one behind the source. -/
theorem wraps_not_copied (t u c : Word) (h : t.toNat % 4 = u.toNat % 4)
    (hfirst : c.toNat < t.toNat % 4) (hne : t ≠ u) :
    ∃ mem, memcpyMem mem t u c ≠ copied mem t u c.toNat := by
  have ht := t.isLt
  have hu := u.isLt
  have hvalue : c.toNat ≤ 2 := by omega
  generalize hn : c.toNat = n at hfirst hvalue
  refine ⟨oneAt (u + BitVec.ofNat 32 n), fun heq => ?_⟩
  have hbyte := congrFun heq (t + BitVec.ofNat 32 n)
  have hleft : memcpyMem (oneAt (u + BitVec.ofNat 32 n)) t u c (t + BitVec.ofNat 32 n) =
      oneAt (u + BitVec.ofNat 32 n) (u + BitVec.ofNat 32 n) := by
    rw [memcpyMem_wraps _ t u c h (by omega), hn,
      show n + 2 ^ 32 = n + 1 + (2 ^ 32 - 1) by omega, copyBytes_add, copyBytes_miss]
    · -- It is written once, and nothing was copied to where its source is.
      rw [copyBytes]
      unfold copied
      rw [BitVec.sub_self, if_pos (by decide), BitVec.add_zero, copyBytes_miss]
      intro i hi hu'
      have hu' := congrArg BitVec.toNat hu'
      rw [BitVec.toNat_add, BitVec.toNat_ofNat, BitVec.toNat_add, BitVec.toNat_ofNat] at hu'
      exact hne (BitVec.eq_of_toNat_eq (by omega))
    · intro i hi ht'
      have ht' := congrArg BitVec.toNat ht'
      rw [ofNat_add, BitVec.toNat_add, BitVec.toNat_ofNat, BitVec.toNat_add,
        BitVec.toNat_ofNat] at ht'
      omega
  have hright : copied (oneAt (u + BitVec.ofNat 32 n)) t u n (t + BitVec.ofNat 32 n) =
      oneAt (u + BitVec.ofNat 32 n) (t + BitVec.ofNat 32 n) := by
    unfold copied
    rw [if_neg]
    rw [BitVec.toNat_sub, BitVec.toNat_add, BitVec.toNat_ofNat]
    omega
  rw [hleft, hright] at hbyte
  exact oneAt_ne _ _ (add_ofNat_ne t u n hne) hbyte

/-- The blocks go two bytes too low, and the last byte before the rest is left out. -/
theorem blocks_not_copied (t u c : Word) (hdisjoint : DisjointBlocks t u c.toNat)
    (hsign : c.toNat < 2 ^ 31) (h : t.toNat % 4 = u.toNat % 4) (hodd : t.toNat % 4 % 2 = 1)
    (hsize : t.toNat % 4 + 16 ≤ c.toNat) :
    ∃ mem, memcpyMem mem t u c ≠ copied mem t u c.toNat := by
  have ht := t.isLt
  rcases hdisjoint with ⟨htarget, hsource, hdisjoint⟩
  generalize hf : t.toNat % 4 = f at hodd hsize
  generalize hb : (c.toNat - f) / 16 = b
  generalize hk : f + 16 * b - 1 = k
  have hne : t ≠ u := by
    intro heq
    rw [heq] at hdisjoint
    omega
  refine ⟨oneAt (t + BitVec.ofNat 32 k), fun heq => ?_⟩
  have hbyte := congrFun heq (t + BitVec.ofNat 32 k)
  have hleft : memcpyMem (oneAt (t + BitVec.ofNat 32 k)) t u c (t + BitVec.ofNat 32 k) =
      oneAt (t + BitVec.ofNat 32 k) (t + BitVec.ofNat 32 k) := by
    rw [memcpyMem_words _ t u c f b h hf (by omega) hsign hb, copyBytes_miss, copyBlocks_miss,
      copyBytes_miss]
    · intro i hi heq
      have heq := congrArg BitVec.toNat heq
      rw [BitVec.toNat_add, BitVec.toNat_ofNat, BitVec.toNat_add, BitVec.toNat_ofNat] at heq
      omega
    · intro i hi
      rw [BitVec.toNat_sub, toNat_align, ofNat_add, BitVec.toNat_add, BitVec.toNat_ofNat,
        BitVec.toNat_add, BitVec.toNat_ofNat]
      omega
    · intro i hi heq
      have heq := congrArg BitVec.toNat heq
      rw [ofNat_add, BitVec.toNat_add, BitVec.toNat_ofNat, BitVec.toNat_add,
        BitVec.toNat_ofNat] at heq
      omega
  have hright : copied (oneAt (t + BitVec.ofNat 32 k)) t u c.toNat (t + BitVec.ofNat 32 k) =
      oneAt (t + BitVec.ofNat 32 k) (u + BitVec.ofNat 32 k) := by
    unfold copied
    have hplace : t + BitVec.ofNat 32 k - t = BitVec.ofNat 32 k := by
      generalize BitVec.ofNat 32 k = d
      bv_omega
    rw [hplace, if_pos]
    rw [BitVec.toNat_ofNat]
    omega
  rw [hleft, hright] at hbyte
  exact oneAt_ne _ _ (add_ofNat_ne t u k hne).symm hbyte

/-- For two blocks that are disjoint and do not wrap, with a size that is not negative: exactly
    when the bytes go one by one, or the size covers the low bits of the target and the blocks
    that follow are aligned or none, or nothing is copied and the two addresses are the same. -/
theorem memcpy_exact (t u c : Word) (hsign : c.toNat < 2 ^ 31)
    (hdisjoint : DisjointBlocks t u c.toNat) :
    CopiesExactly t u c ↔
      t.toNat % 4 ≠ u.toNat % 4 ∨
        (t.toNat % 4 ≤ c.toNat ∧ (t.toNat % 4 % 2 = 0 ∨ c.toNat < t.toNat % 4 + 16)) ∨
        t = u := by
  rw [copiesExactly_iff]
  have hapart := hdisjoint.apart t u c.toNat
  constructor
  · intro hcopies
    by_contra hcond
    rw [not_or, not_or, not_not, not_and_or, Nat.not_le, not_or, Nat.not_lt] at hcond
    rcases hcond with ⟨hlow, hfirst | ⟨hodd, hsize⟩, hne⟩
    · rcases wraps_not_copied t u c hlow hfirst hne with ⟨mem, hmem⟩
      exact hmem (hcopies mem)
    · rcases blocks_not_copied t u c hdisjoint hsign hlow (by omega) hsize with ⟨mem, hmem⟩
      exact hmem (hcopies mem)
  · intro hcond mem
    by_cases hlow : t.toNat % 4 = u.toNat % 4
    · rcases hcond with hbytes | ⟨hfirst, heven⟩ | heq
      · exact absurd hlow hbytes
      · exact copies_words mem t u c hapart hsign hlow hfirst heven
      · -- The copying goes around all of memory without a change.
        subst heq
        rcases Nat.lt_or_ge c.toNat (t.toNat % 4) with hless | hfirst
        · rw [memcpyMem_wraps mem t t c rfl hless, copyBytes_self, copied_self]
        · exact copies_words mem t t c hapart hsign rfl hfirst
            (Or.inr (by have := hdisjoint.disjoint; omega))
    · exact copies_bytes mem t u c hapart hlow

/-- A block of twenty bytes between aligned addresses. -/
theorem memcpy_exact_aligned : CopiesExactly 0x1000 0x2000 20 :=
  (memcpy_exact 0x1000 0x2000 20 (by decide) ⟨by decide, by decide, Or.inl (by decide)⟩).mpr
    (Or.inr (Or.inl ⟨by decide, Or.inl (by decide)⟩))

/-- Seventeen bytes from one odd address to another: the last one is left out. -/
theorem memcpy_skewed :
    (17 : Word).toNat < 2 ^ 31 ∧ DisjointBlocks 0x1001 0x2001 17 ∧
      ¬ CopiesExactly 0x1001 0x2001 17 := by
  refine ⟨by decide, ⟨by decide, by decide, Or.inl (by decide)⟩, fun h => ?_⟩
  rcases blocks_not_copied 0x1001 0x2001 17 ⟨by decide, by decide, Or.inl (by decide)⟩ (by decide)
    (by decide) (by decide) (by decide) with ⟨mem, hmem⟩
  exact hmem ((copiesExactly_iff _ _ _).mp h mem)

end Arm

end Mirros
