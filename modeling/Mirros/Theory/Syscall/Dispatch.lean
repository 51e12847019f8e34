import Mirros.Core.Syscall
import Mirros.Theory.Pages.Ops
import Mirros.Theory.Task.Words
import Mirros.Theory.Pid.Session

/-!
# System Call Dispatch

Which handler a process reaches with a number in `r7`.

After `syscall_init` the word for a number is the address in the first entry of
the list that has this number, or zero when there is none (`syscallInit_slot`).
That is an induction over the list: an entry fills the word of its own number if
the word is still zero and leaves all other words alone (`installSyscall_slot`).

`_syscall_handler` takes the number without a test of its range. The offset in
the table is four times the distance of `r7` from the base of the numbers, all
modulo 2^32, so it depends on the low thirty bits of that distance only
(`syscallHandler_slot`). With a distance of at least `SYSCALL_NR` there, the word
is read from outside the table; and four distances share each word of the table,
of which one only is that of a system call.

## Main definitions

* `firstOf`, `handlerOf`: The handler of the first entry for a number.
* `Dispatches`: The jump is the one for the number, through a word of the table.

## Theorems

* `installSyscall_slot`: What one entry does to the words of the table.
* `syscallInit_slot`: The table that `syscall_init` makes.
* `syscall_dispatch`: For which numbers the jump is right.
-/

namespace Mirros

/-- The address in the first entry for a number, or `other`. -/
def firstOf (table : List Syscall) (other : Nat) (nr : Int) : Nat :=
  ((table.find? (fun e => e.nr = nr)).map Syscall.addr).getD other

/-- The handler a number in `r7` should lead to. -/
def handlerOf (table : List Syscall) (defaultSyscallHandler r7 : Nat) : Nat :=
  if nrSyscallBase ≤ r7 ∧ r7 < nrSyscallBase + syscallNr then
    firstOf table defaultSyscallHandler r7
  else defaultSyscallHandler

/-- The jump leads to the handler of the number, and the handler was read from
    the table. -/
def Dispatches (table : List Syscall) (syscallTableBase defaultSyscallHandler r7 : Nat)
    (jump : SyscallJump) : Prop :=
  jump.target = handlerOf table defaultSyscallHandler r7 ∧
    syscallTableBase ≤ jump.slot ∧ jump.slot + 4 ≤ syscallTableBase + syscallNr * 4

theorem firstOf_own (e : Syscall) (rest : List Syscall) (other : Nat) (nr : Int) (h : e.nr = nr) :
    firstOf (e :: rest) other nr = e.addr := by
  unfold firstOf
  rw [List.find?_cons_of_pos (p := fun e : Syscall => decide (e.nr = nr)) (decide_eq_true h)]
  rfl

theorem firstOf_other (e : Syscall) (rest : List Syscall) (other : Nat) (nr : Int) (h : e.nr ≠ nr) :
    firstOf (e :: rest) other nr = firstOf rest other nr := by
  unfold firstOf
  rw [List.find?_cons_of_neg (p := fun e : Syscall => decide (e.nr = nr))
    (by rw [decide_eq_true_eq]; exact h)]

theorem load32_memzero (ram : Ram) (target n x : Nat) (hx : target ≤ x) (hn : x + 4 ≤ target + n) :
    load32 (memzero ram target n) x = 0 := by
  have hbyte : ∀ i < 4, memzero ram target n (x + i) = 0#8 := by
    intro i hi
    exact if_pos ⟨by omega, by omega⟩
  have h0 := hbyte 0 (by omega)
  rw [Nat.add_zero] at h0
  unfold load32
  rw [h0, hbyte 1 (by omega), hbyte 2 (by omega), hbyte 3 (by omega)]
  rfl

section

variable (base : Nat) (hbase : base + syscallNr * 4 ≤ u32Size)

include hbase

/-- An entry fills the word of its number, if that is zero, and no other. -/
theorem installSyscall_slot (ram : Ram) (nr : Int) (addr : Nat) (hpos : addr ≠ 0)
    (haddr : addr < u32Size) (i : Nat) (hi : i < syscallNr) :
    load32 (installSyscall ram base nr addr).2 (base + 4 * i) =
      if load32 ram (base + 4 * i) = 0 ∧ nr = nrSyscallBase + i then addr
      else load32 ram (base + 4 * i) := by
  unfold syscallNr at hbase hi
  unfold installSyscall
  by_cases hrange : nr - nrSyscallBase > (syscallNr : Int) - 1 ∨ nr - nrSyscallBase < 0 ∨ addr = 0
  · -- A number out of range is refused, and it is not that of this word.
    rw [if_pos hrange, if_neg]
    unfold syscallNr at hrange
    omega
  · rw [if_neg hrange]
    unfold syscallNr at hrange
    have htmp : add32 base (4 * (nr - nrSyscallBase).toNat)
        = base + 4 * (nr - nrSyscallBase).toNat := by
      unfold add32
      exact Nat.mod_eq_of_lt (by omega)
    rw [htmp]
    by_cases hown : nr = nrSyscallBase + i
    · have hreal : (nr - nrSyscallBase).toNat = i := by omega
      rw [hreal]
      by_cases hzero : load32 ram (base + 4 * i) = 0
      · rw [if_pos hzero, if_pos ⟨hzero, hown⟩, load32_store32 _ _ _ haddr]
      · rw [if_neg hzero, if_neg (fun hc => hzero hc.1)]
    · have hskip : ¬(load32 ram (base + 4 * i) = 0 ∧ nr = nrSyscallBase + i) :=
        fun hc => hown hc.2
      rw [if_neg hskip]
      -- Another word is written, if any.
      by_cases hzero : load32 ram (base + 4 * (nr - nrSyscallBase).toNat) = 0
      · rw [if_pos hzero]
        refine load32_store32_apart _ _ _ _ ?_
        unfold ApartFrom
        omega
      · rw [if_neg hzero]

/-- A word that is zero before is the first entry's in the end; the first entry
    that fills it wins. -/
theorem installAll_slot (i : Nat) (hi : i < syscallNr) (table : List Syscall) (ram : Ram)
    (haddr : ∀ e ∈ table, e.addr ≠ 0 ∧ e.addr < u32Size) :
    load32 (table.foldl (fun ram e => (installSyscall ram base e.nr e.addr).2) ram) (base + 4 * i) =
      if load32 ram (base + 4 * i) = 0 then firstOf table 0 (nrSyscallBase + i)
      else load32 ram (base + 4 * i) := by
  -- Over the entries that are still to come; the words are what the earlier ones left.
  induction table generalizing ram with
  | nil =>
      by_cases hzero : load32 ram (base + 4 * i) = 0
      · rw [if_pos hzero]
        exact hzero
      · rw [if_neg hzero]
        rfl
  | cons e rest ih =>
      rcases haddr e List.mem_cons_self with ⟨hpos, hlt⟩
      have hstep := installSyscall_slot base hbase ram e.nr e.addr hpos hlt i hi
      rw [List.foldl_cons, ih _ (fun e' he' => haddr e' (List.mem_cons_of_mem _ he'))]
      by_cases hzero : load32 ram (base + 4 * i) = 0
      · rw [if_pos hzero]
        by_cases hown : e.nr = nrSyscallBase + i
        · -- The word is taken from now on.
          rw [if_pos ⟨hzero, hown⟩] at hstep
          rw [hstep, if_neg hpos, firstOf_own e rest 0 _ hown]
        · rw [if_neg (fun hc => hown hc.2)] at hstep
          rw [hstep, if_pos hzero, firstOf_other e rest 0 _ hown]
      · rw [if_neg (fun hc => hzero hc.1)] at hstep
        rw [hstep, if_neg hzero, if_neg hzero]

end

/-- The table fits below the end of the address space, and each of its words is
    that of the first entry. -/
theorem syscallInit_slot (k k' : Kernel) (table : List Syscall) (base : Nat)
    (hinit : k.syscallInit table = some (base, k')) (hstart : k.mm.kernelStart % pageSize = 0)
    (haddr : ∀ e ∈ table, e.addr ≠ 0 ∧ e.addr < u32Size) :
    base + syscallNr * 4 ≤ u32Size ∧
      ∀ i < syscallNr, load32 k'.ram (base + 4 * i) = firstOf table 0 (nrSyscallBase + i) := by
  have hpages : pageNr (syscallNr * 4) = 1 := by decide
  simp only [Kernel.syscallInit, hpages, Option.pure_def, Option.bind_eq_bind,
    Option.bind_eq_some_iff, Prod.exists] at hinit
  rcases hinit with ⟨addr, mm, hget, hif⟩
  by_cases hnull : addr = 0
  · rw [if_pos hnull] at hif
    exact absurd hif (by simp only [reduceCtorEq, not_false_eq_true])
  · rw [if_neg hnull, Option.some.injEq, Prod.mk.injEq] at hif
    rcases hif with ⟨rfl, rfl⟩
    rcases Mm.getFreePages_cases k.mm mm _ _ _ hget with ⟨hzero, _⟩ | ⟨_, index, _, _, _, _, hva, _⟩
    · exact absurd hzero hnull
    -- A page starts at a multiple of its size, so it ends before the addresses do.
    have htop : addr + syscallNr * 4 ≤ u32Size := by
      rw [hva]
      unfold Mm.pageIdToVa add32 pageSize u32Size syscallNr at *
      omega
    refine ⟨htop, fun i hi => ?_⟩
    rw [installAll_slot addr htop i hi table _ haddr, if_pos]
    unfold syscallNr at hi
    exact load32_memzero _ _ _ _ (by omega) (by unfold pageSize; omega)

/-- Zero in the table stands for the default handler. -/
theorem firstOf_default (table : List Syscall) (other : Nat) (nr : Int)
    (haddr : ∀ e ∈ table, e.addr ≠ 0 ∧ e.addr < u32Size) :
    (if firstOf table 0 nr = 0 then other else firstOf table 0 nr) = firstOf table other nr := by
  unfold firstOf
  rcases hfind : table.find? (fun e => e.nr = nr) with _ | e
  · rw [hfind]
    rfl
  · rw [hfind]
    exact if_neg (haddr e (List.mem_of_find?_eq_some hfind)).1

/-- The word the handler is read from: it is one of the table if and only if the
    low thirty bits of the distance from the first number are below
    `SYSCALL_NR`. -/
theorem syscallHandler_slot (ram : Ram) (base other : Nat) (regs : PtRegs)
    (hbase : base + syscallNr * 4 ≤ u32Size) :
    (sub32 regs.r7 nrSyscallBase % 2 ^ 30 < syscallNr ∧
      (syscallHandler ram base other regs).slot
        = base + 4 * (sub32 regs.r7 nrSyscallBase % 2 ^ 30)) ∨
    (syscallNr ≤ sub32 regs.r7 nrSyscallBase % 2 ^ 30 ∧
      ¬(base ≤ (syscallHandler ram base other regs).slot ∧
        (syscallHandler ram base other regs).slot + 4 ≤ base + syscallNr * 4)) := by
  unfold syscallHandler add32 syscallNr u32Size at *
  simp only []
  omega

/-- A number leads to its own handler, read from the table, if and only if the
    low thirty bits of its distance from the first number are below
    `SYSCALL_NR`, and so are the other two or nothing but the default handler is
    found there. Memory outside of the table may have changed since. -/
theorem syscall_dispatch (k k' : Kernel) (table : List Syscall) (base defaultSyscallHandler : Nat)
    (ram : Ram) (regs : PtRegs) (hinit : k.syscallInit table = some (base, k'))
    (hstart : k.mm.kernelStart % pageSize = 0)
    (haddr : ∀ e ∈ table, e.addr ≠ 0 ∧ e.addr < u32Size) (hr7 : regs.r7 < u32Size)
    (hram : ∀ x, base ≤ x → x < base + syscallNr * 4 → ram x = k'.ram x) :
    Dispatches table base defaultSyscallHandler regs.r7
        (syscallHandler ram base defaultSyscallHandler regs) ↔
      sub32 regs.r7 nrSyscallBase % 2 ^ 30 < syscallNr ∧
        (sub32 regs.r7 nrSyscallBase < syscallNr ∨
          firstOf table defaultSyscallHandler
            (nrSyscallBase + (sub32 regs.r7 nrSyscallBase % 2 ^ 30 : Nat))
            = defaultSyscallHandler) := by
  rcases syscallInit_slot k k' table base hinit hstart haddr with ⟨htop, hwords⟩
  rcases syscallHandler_slot ram base defaultSyscallHandler regs htop with
    ⟨hin, hslot⟩ | ⟨hout, hslot⟩
  · -- The handler is that of the low thirty bits, whatever the number is.
    have htarget : (syscallHandler ram base defaultSyscallHandler regs).target
        = firstOf table defaultSyscallHandler
            (nrSyscallBase + (sub32 regs.r7 nrSyscallBase % 2 ^ 30 : Nat)) := by
      rw [← firstOf_default table defaultSyscallHandler _ haddr, ← hwords _ hin]
      have hload : load32 ram (syscallHandler ram base defaultSyscallHandler regs).slot
          = load32 k'.ram (base + 4 * (sub32 regs.r7 nrSyscallBase % 2 ^ 30)) := by
        rw [hslot]
        exact load32_congr _ _ _ (fun i hi => hram _ (by omega) (by omega))
      rw [← hload]
      rfl
    -- A number below the first one wraps around to a large distance.
    have hrange : (nrSyscallBase ≤ regs.r7 ∧ regs.r7 < nrSyscallBase + syscallNr) ↔
        sub32 regs.r7 nrSyscallBase < syscallNr := by
      unfold sub32 nrSyscallBase syscallNr u32Size at *
      omega
    unfold Dispatches handlerOf
    rw [htarget, hslot]
    by_cases hnr : sub32 regs.r7 nrSyscallBase < syscallNr
    · -- The number is one of the table, at its own place in it.
      have hr7' : (nrSyscallBase : Int) + (sub32 regs.r7 nrSyscallBase % 2 ^ 30 : Nat)
          = regs.r7 := by
        have hge := (hrange.mpr hnr).1
        unfold sub32 nrSyscallBase syscallNr u32Size at *
        omega
      rw [if_pos (hrange.mpr hnr), hr7']
      exact ⟨fun _ => ⟨hin, Or.inl hnr⟩, fun _ => ⟨rfl, by omega, by omega⟩⟩
    · -- The number is none of the table, but the place is.
      rw [if_neg (fun hc => hnr (hrange.mp hc))]
      exact ⟨fun h => ⟨hin, Or.inr h.1⟩, fun h => ⟨h.2.resolve_left hnr, by omega, by omega⟩⟩
  · exact ⟨fun h => absurd h.2 hslot, fun h => absurd h.1 (Nat.not_lt_of_le hout)⟩

/-- Three entries, the second for the number of the first. -/
def threeSyscalls : List Syscall :=
  [⟨nrSyscallBase + 2, 0x80002000⟩, ⟨nrSyscallBase + 2, 0x80003000⟩,
    ⟨nrSyscallBase + 5, 0x80004000⟩]

/-- The registers of a process that makes a system call. -/
def callRegs (r7 : Nat) : PtRegs :=
  { r0 := 0, r1 := 0, r2 := 0, r3 := 0, r4 := 0, r5 := 0, r6 := 0, r7 := r7, r8 := 0, r9 := 0
    r10 := 0, r11 := 0, r12 := 0, spsr := 0, lr := 0, sp := 0, cpsr := userMode, pc := 0 }

theorem threeSyscalls_init : ∃ k', pidKernel.syscallInit threeSyscalls = some (0x80040000, k') := by
  have heval : (pidKernel.syscallInit threeSyscalls).map Prod.fst = some 0x80040000 := by
    decide +kernel
  rcases Option.map_eq_some_iff.mp heval with ⟨⟨base, k'⟩, hinit, rfl⟩
  exact ⟨k', hinit⟩

/-- The first entry for a number is the one that counts. -/
theorem syscall_dispatch_three :
    ∃ k', pidKernel.syscallInit threeSyscalls = some (0x80040000, k') ∧
      Dispatches threeSyscalls 0x80040000 0x80001000 (nrSyscallBase + 2)
        (syscallHandler k'.ram 0x80040000 0x80001000 (callRegs (nrSyscallBase + 2))) := by
  rcases threeSyscalls_init with ⟨k', hinit⟩
  exact ⟨k', hinit, (syscall_dispatch pidKernel k' threeSyscalls 0x80040000 0x80001000 k'.ram
    (callRegs (nrSyscallBase + 2)) hinit (by decide) (by decide) (by decide)
    (fun _ _ _ => rfl)).mpr ⟨by decide, Or.inl (by decide)⟩⟩

/-- With a number below the first one, the word before the table is taken for
    the address of a handler. -/
theorem syscall_dispatch_fails :
    ∃ k', pidKernel.syscallInit threeSyscalls = some (0x80040000, k') ∧
      ¬Dispatches threeSyscalls 0x80040000 0x80001000 (nrSyscallBase - 1)
        (syscallHandler k'.ram 0x80040000 0x80001000 (callRegs (nrSyscallBase - 1))) := by
  rcases threeSyscalls_init with ⟨k', hinit⟩
  have hslot : (syscallHandler k'.ram 0x80040000 0x80001000 (callRegs (nrSyscallBase - 1))).slot
      = 0x8003fffc := rfl
  refine ⟨k', hinit, fun h => ?_⟩
  have hbelow := h.2.1
  rw [hslot] at hbelow
  exact absurd hbelow (by decide)

end Mirros
