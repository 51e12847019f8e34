import Mirros.Theory.Context.Runs
import Mirros.Theory.Task.Registers

/-!
# New Tasks

What `arch_set_up_task_stack` leaves on the stack of a new task is a context like that of a task
that was interrupted, so the first turn of the task is like any other.

## Main definitions

* `PtRegs.context`: The context a `pt_regs` stands for.
* `PtRegs.Status`: A status register that the processor has had.

## Theorems

* `archSetUpTaskStack_framed`: The context is on the stack.
* `new_task_starts`: The task begins with the registers it was given.
-/

namespace Mirros

open Modes Turns

/-- The context a `pt_regs` stands for when it is saved from an address on. The stack pointer of
    a task in the kernel is not taken from it. -/
def PtRegs.context (regs : PtRegs) (base : Word) : Context :=
  { low := (regs.frame.take 13).map (BitVec.ofNat 32)
    sp := if (Psr.ofWord (BitVec.ofNat 32 regs.cpsr)).mode = userModeBits then
        BitVec.ofNat 32 regs.sp
      else base + 72#32
    lr := BitVec.ofNat 32 regs.lr
    pc := BitVec.ofNat 32 regs.pc
    psr := Psr.ofWord (BitVec.ofNat 32 regs.cpsr)
    top := base + 72#32 }

/-- A status register that the processor has had: a mode that tasks run in, and no bit that is
    not used. -/
def PtRegs.Status (regs : PtRegs) : Prop :=
  let psr := Psr.ofWord (BitVec.ofNat 32 regs.cpsr)
  psr.word = BitVec.ofNat 32 regs.cpsr ∧ (psr.mode = userModeBits ∨ psr.mode = svcModeBits)

theorem loadWords_eq_map (mem : Word → Word) (a : Word) (n : Nat) :
    loadWords mem a n = (List.range n).map (fun i => mem (a + BitVec.ofNat 32 (4 * i))) := by
  induction n generalizing a with
  | zero => rfl
  | succ n ih =>
      rw [loadWords, ih, List.range_succ_eq_map, List.map_cons, List.map_map, Nat.mul_zero,
        BitVec.add_zero]
      refine congrArg _ (List.map_congr_left fun i _ => ?_)
      rw [Function.comp_apply, Nat.mul_succ, Nat.add_comm, BitVec.ofNat_add, ← BitVec.add_assoc]
      rfl

/-- What `arch_set_up_task_stack` leaves on the stack of a task is a context. -/
theorem archSetUpTaskStack_framed (k : Kernel) (t : Nat) (regs : PtRegs)
    (hbase : (k.task t).stackBase ≠ 0) (hregs : ∀ w ∈ regs.frame, w < u32Size)
    (hstatus : regs.Status) (mem : Word → Word) (base : Word)
    (hb : base = BitVec.ofNat 32 ((k.archSetUpTaskStack t regs).2.task t).stackBase)
    (hmem : ∀ a, In base 72 a →
      mem a = BitVec.ofNat 32 (load32 (k.archSetUpTaskStack t regs).2.ram a.toNat)) :
    Framed mem base (regs.context base) := by
  have hframe := (Kernel.archSetUpTaskStack_frame k t regs hbase hregs).1
  have hwords : loadWords mem base 18 = regs.frame.map (BitVec.ofNat 32) := by
    rw [← hframe, loadWords_eq_map, List.map_map]
    refine List.map_congr_left fun i hi => ?_
    rw [List.mem_range] at hi
    rw [Function.comp_apply, hmem _ (in_add base _ 72 (by rw [BitVec.toNat_ofNat]; omega))]
    refine congrArg (fun a => BitVec.ofNat 32 (load32 _ a)) ?_
    rw [hb, ← BitVec.ofNat_add, BitVec.toNat_ofNat]
    rfl
  have htop : (regs.context base).top = base + 72#32 := rfl
  refine (framed_of_words mem base (BitVec.ofNat 32 regs.spsr) (BitVec.ofNat 32 regs.sp)
    (regs.context base) rfl ?_ htop ?_).1
  · rw [hwords, show (regs.context base).psr.word = BitVec.ofNat 32 regs.cpsr from hstatus.1]
    rfl
  · rcases hstatus.2 with h | h
    · exact Or.inl ⟨h, (if_pos h).symm⟩
    · refine Or.inr ⟨h, if_neg ?_⟩
      rw [h]
      decide

/-- A task that was set up begins with the registers it was given, whatever happens before it has
    the processor for the first time. -/
theorem new_task_starts (x : Symbols) (hx : x.Linked) (low : Word)
    (hplaced : Sharing.Placed x low) (k : Sharing) (hk : k.Holds x low) (kernel : Kernel)
    (t : Nat) (regs : PtRegs) (hbase : (kernel.task t).stackBase ≠ 0)
    (hregs : ∀ w ∈ regs.frame, w < u32Size) (hstatus : regs.Status) (base : Word)
    (hb : base = BitVec.ofNat 32 ((kernel.archSetUpTaskStack t regs).2.task t).stackBase)
    (hal : Aligned base) (own : Word → Prop) (mem : Word → Word)
    (hfits : k.Fits x low (BitVec.ofNat 32 t) own) (hroom : ∀ a, In base 72 a → own a)
    (hword : mem (BitVec.ofNat 32 t) = base)
    (hmem : ∀ a, In base 72 a →
      mem a = BitVec.ofNat 32 (load32 (kernel.archSetUpTaskStack t regs).2.ram a.toNat))
    (hsame : ∀ a, k.rests x a → mem a = k.state.cpu.mem a) :
    ∃ k₁, Sharing.Step x hx low k (.start (BitVec.ofNat 32 t) (regs.context base) own mem) k₁ ∧
      ∀ as own' k', (∀ a ∈ as, a.Quiet (BitVec.ofNat 32 t)) →
        Sharing.Run x hx low k₁ (as ++ [.turn own' (BitVec.ofNat 32 t)]) k' →
        contextOf k'.state = regs.context base := by
  have hframed := archSetUpTaskStack_framed kernel t regs hbase hregs hstatus mem base hb hmem
  obtain ⟨k₁, hstep⟩ := Sharing.step_exists hx hk hplaced
    (.start (BitVec.ofNat 32 t) (regs.context base) own mem)
    ⟨hfits, by rwa [hword], by rwa [hword], by rwa [hword], hsame⟩
  refine ⟨k₁, hstep, fun as own' k' hquiet hrun => ?_⟩
  have hholds := Sharing.step_holds hk hplaced _ hstep
  have hnext := (if_neg hfits.1).symm.trans hstep.tasks
  rw [Option.some.injEq] at hnext
  have hne : BitVec.ofNat 32 t ≠ k₁.tasks.current := by
    rw [← hnext]
    exact fun h => hfits.1 (Or.inl h)
  have hsaved : k₁.tasks.saved (BitVec.ofNat 32 t) = some (regs.context base) := by
    rw [← hnext]
    exact Function.update_self ..
  have hlive := (run_waits k₁.tasks k'.tasks as own' _ _ (Sharing.run_tasks _ hrun) hquiet hne
    hsaved).2
  rw [(Sharing.run_holds hholds hplaced _ hrun).live, hlive]

/-- The registers of a kernel thread. -/
def threadRegs (fn arg : Nat) : PtRegs :=
  { r0 := arg, r1 := 1, r2 := 2, r3 := 3, r4 := 4, r5 := 5, r6 := 6, r7 := 7, r8 := 8, r9 := 9,
    r10 := 10, r11 := 11, r12 := 12, spsr := 15, lr := 14, sp := 13, cpsr := 0x13, pc := fn }

/-- A kernel with a task that has a stack. -/
def threadKernel : Kernel :=
  let k := userKernel (fun _ => 0#8)
  k.setTask 0x6000 { k.task 0x6000 with stackBase := 0x10000, stackOrigin := 0x10000 }

theorem threadKernel_base (regs : PtRegs) :
    ((threadKernel.archSetUpTaskStack 0x6000 regs).2.task 0x6000).stackBase = 0x10fb8 := by
  have hbase : (threadKernel.task 0x6000).stackBase = 0x10000 := rfl
  have horigin : (threadKernel.task 0x6000).stackOrigin = 0x10000 := rfl
  unfold Kernel.archSetUpTaskStack
  rw [if_neg (by rw [hbase]; decide)]
  simp only [Kernel.setTask, Function.update_self]
  rw [horigin, pushWords_addr _ _ (by decide), show regs.pushed.length = 18 from rfl]
  decide

/-- The memory with its stack and the words of the other two tasks. -/
def threadMem (a : Word) : Word :=
  if In 0x10fb8 72 a then
    BitVec.ofNat 32 (load32 (threadKernel.archSetUpTaskStack 0x6000 (threadRegs 0x9000 7)).2.ram
      a.toNat)
  else if a = 0x6000 then 0x10fb8
  else twoTasks.state.cpu.mem a

theorem new_task_starts_thread : ∃ k₁, Sharing.Step lowSymbols lowSymbols_linked 0x3000 twoTasks
    (.start 0x6000 ((threadRegs 0x9000 7).context 0x10fb8) (In 0x10fb8 72) threadMem) k₁ ∧
      ∀ as own' k', (∀ a ∈ as, a.Quiet 0x6000) →
        Sharing.Run lowSymbols lowSymbols_linked 0x3000 k₁ (as ++ [.turn own' 0x6000]) k' →
        contextOf k'.state = (threadRegs 0x9000 7).context 0x10fb8 := by
  have hfits : twoTasks.Fits lowSymbols 0x3000 0x6000 (In 0x10fb8 72) := by
    refine ⟨fun h => ?_, by decide, by decide, by decide, by decide, by decide, fun u hu => ?_,
      fun a ha => ⟨in_ne ha (by decide), in_ne ha (by decide), ?_, fun u hu => ?_⟩⟩
    · rcases twoTasks_task _ h with h | h <;> exact absurd h (by decide)
    · rcases twoTasks_task u hu with rfl | rfl
      · exact ⟨show ¬In (0x4000 + 0x100) 72 0x6000 by decide, by decide⟩
      · exact ⟨show ¬In (0x5000 + 0x100) 72 0x6000 by decide, by decide⟩
    · exact in_apart (by decide) (by decide) a ha
    · rcases twoTasks_task u hu with rfl | rfl <;>
        exact in_apart (by decide) (by decide) a ha
  have hrests : ∀ a, twoTasks.rests lowSymbols a → threadMem a = twoTasks.state.cpu.mem a := by
    intro a ha
    have hoff : ¬In 0x10fb8 72 a ∧ a ≠ 0x6000 := by
      rcases ha with rfl | ⟨t, ht, ha⟩
      · decide
      · rcases twoTasks_task t (Or.inr ht) with rfl | rfl <;> rcases ha with rfl | ha
        · decide
        · exact ⟨in_apart (by decide) (by decide) a ha, in_ne ha (by decide)⟩
        · decide
        · exact ⟨in_apart (by decide) (by decide) a ha, in_ne ha (by decide)⟩
    unfold threadMem
    rw [if_neg hoff.1, if_neg hoff.2]
  have hroom : ∀ a, In 0x10fb8 72 a → threadMem a = BitVec.ofNat 32
      (load32 (threadKernel.archSetUpTaskStack 0x6000 (threadRegs 0x9000 7)).2.ram a.toNat) :=
    fun a ha => if_pos ha
  have hword : threadMem 0x6000 = 0x10fb8 := by
    unfold threadMem
    rw [if_neg (by decide), if_pos rfl]
  exact new_task_starts lowSymbols lowSymbols_linked 0x3000 lowSymbols_placed twoTasks
    twoTasks_holds threadKernel 0x6000 (threadRegs 0x9000 7) (by decide) (by decide)
    ⟨by decide, Or.inr (by decide)⟩ 0x10fb8 (by rw [threadKernel_base]; rfl) (by decide)
    (In 0x10fb8 72) threadMem hfits (fun a ha => ha) hword hroom hrests

end Mirros
