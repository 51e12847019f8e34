import Mirros.Theory.Context.Frame

/-!
# The Next Task

What `os_exit_irq` does: it compares `current` with `next_run`. If they differ, it keeps the
stack pointer in the structure of the one, calls `switch_task` and takes the stack pointer from
the structure of the other.

## Main definitions

* `Chosen`: The stacks after `os_exit_irq`.

## Theorems

* `osExitIrq_stays`: The task that was interrupted goes on.
* `osExitIrq_saves`, `osExitIrq_switches`: Another task does.
-/

namespace Mirros

open Modes

/-- The stacks after `os_exit_irq`. -/
structure Chosen (u t : Cpu) (base : Word) : Prop where
  control : t.cpsr.control = irqModeBits ||| noInt
  r0 : t.reg (.user, .r0) = base
  irqSp : t.reg (.irq, .sp) = u.reg (.irq, .sp)

section

variable (x : Symbols) (call : Word → Option (Cpu → Cpu))
  (apart : ∀ i < (entryCode x).length, call (x.loc i) = none)

/-- The two tasks are compared. -/
theorem osExitIrq_compares (u : Cpu) (hcurrent : Aligned x.current) (hnext : Aligned x.nextRun)
    (hcontrol : u.cpsr.control = irqModeBits ||| noInt) :
    ∃ t, Reaches (x.program call apart) ⟨u, x.loc 33⟩ ⟨t, x.loc 82⟩ ∧
      t.cpsr.control = irqModeBits ||| noInt ∧
      t.cpsr.zero = decide (u.mem x.current = u.mem x.nextRun) ∧
      t.reg (.irq, .lr) = x.loc 34 ∧ t.reg (.user, .r2) = u.mem x.current ∧
      t.reg (.user, .r3) = u.mem x.nextRun ∧ t.mem = u.mem ∧
      ∀ b, t.reg (b, .sp) = u.reg (b, .sp) := by
  obtain ⟨-, -, -, hirq, -⟩ := at_irq x call apart
  obtain ⟨-, -, -, -, -, hexit, -⟩ := at_routines x call apart
  have hbank : u.cpsr.bank = .irq := by
    unfold Psr.bank Psr.mode
    rw [hcontrol]
    decide
  have hgo := bl_runs 32 1 33 _ _ u hirq rfl rfl
  rw [hbank] at hgo
  obtain ⟨t, ht⟩ : ∃ t, execAll (some (u.setReg (.irq, .lr) (x.loc 34)))
      ((osExitIrqCode x).take 5) = some t := by
    simp [osExitIrqCode, execAll, exec, Cpu.get, Cpu.set, slot, hcurrent, hnext]
  have hin := part_runs osExitIrq 0 77 82 _ _ _ t hexit rfl rfl (List.take_prefix 5 _) ht
  refine ⟨t, hgo.trans hin, ?_⟩
  simp [osExitIrqCode, execAll, exec, Cpu.get, Cpu.set, slot, hcurrent, hnext] at ht
  subst ht
  simp [hcontrol]

/-- The task that was interrupted goes on. -/
theorem osExitIrq_stays (u : Cpu) (hcurrent : Aligned x.current) (hnext : Aligned x.nextRun)
    (hcontrol : u.cpsr.control = irqModeBits ||| noInt)
    (hsame : u.mem x.current = u.mem x.nextRun) :
    ∃ t, Reaches (x.program call apart) ⟨u, x.loc 33⟩ ⟨t, x.loc 34⟩ ∧
      Chosen u t (u.reg (.svc, .sp)) ∧ t.mem = u.mem := by
  obtain ⟨-, -, -, -, -, hexit, -⟩ := at_routines x call apart
  obtain ⟨v, hgo, hvc, hvz, hvlr, -, -, hvm, hvsp⟩ :=
    osExitIrq_compares x call apart u hcurrent hnext hcontrol
  rw [hsame, decide_eq_true rfl] at hvz
  have hout := beq_runs osExitIrq 5 82 osExitIrqOut _ v hexit rfl rfl hvz
  obtain ⟨t, ht⟩ : ∃ t, execAll (some v) (((osExitIrqCode x).drop 21).take 3) = some t := by
    simp [osExitIrqCode, execAll, exec, Cpu.get, Cpu.set, slot]
  have hin := part_runs osExitIrq 21 98 101 _ _ v t hexit rfl rfl (List.take_prefix 3 _) ht
  simp [osExitIrqCode, execAll, exec, Cpu.get, Cpu.set, slot] at ht
  have hlr : t.get .lr = x.loc 34 := by
    rw [← ht]
    simp [Cpu.get, slot, hvlr]
  have hret := return_runs osExitIrq 24 101 (x.loc 34) .lr _ t hexit rfl rfl hlr
  refine ⟨t, hgo.trans (hout.trans (hin.trans hret)), ?_, ?_⟩
  · constructor <;> rw [← ht] <;> simp [hvsp]
  · rw [← ht]
    simp [hvm]

/-- The other task is chosen before `switch_task` is called. -/
theorem osExitIrq_saves (u : Cpu) (low : Word) (hal : Aligned low) (hcurrent : Aligned x.current)
    (hnext : Aligned x.nextRun) (hcontrol : u.cpsr.control = irqModeBits ||| noInt)
    (hsp : u.reg (.irq, .sp) = low + 28#32) (hcur : Aligned (u.mem x.current))
    (hother : u.mem x.current ≠ u.mem x.nextRun) :
    ∃ t, Reaches (x.program call apart) ⟨u, x.loc 33⟩ ⟨t, x.switchTask⟩ ∧
      t.cpsr.control = irqModeBits ||| noInt ∧ t.reg (.irq, .lr) = x.loc 90 ∧
      t.reg (.user, .r0) = u.mem x.current ∧ t.reg (.user, .r1) = u.mem x.nextRun ∧
      t.reg (.irq, .sp) = low + 24#32 ∧
      t.mem = Function.update (Function.update u.mem (u.mem x.current) (u.reg (.svc, .sp)))
        (low + 24#32) (x.loc 34) := by
  obtain ⟨-, -, -, -, -, hexit, -⟩ := at_routines x call apart
  obtain ⟨v, hgo, hvc, hvz, hvlr, hv2, hv3, hvm, hvsp⟩ :=
    osExitIrq_compares x call apart u hcurrent hnext hcontrol
  rw [decide_eq_false hother] at hvz
  have hskip := beq_skip_runs osExitIrq 5 82 osExitIrqOut _ v hexit rfl rfl hvz
  rw [← hvsp] at hsp
  obtain ⟨w, hw⟩ : ∃ w, execAll (some v) (((osExitIrqCode x).drop 6).take 6) = some w := by
    simp [osExitIrqCode, execAll, exec, Cpu.get, Cpu.set, slot, hv2, hcur, hsp, spanOf,
      add_sub_lit, aligned_add, hal]
  have hin := part_runs osExitIrq 6 83 89 _ _ v w hexit rfl rfl (List.take_prefix 6 _) hw
  simp [osExitIrqCode, execAll, exec, Cpu.get, Cpu.set, slot, hv2, hcur, hsp, spanOf,
    add_sub_lit, aligned_add, hal, storeMany] at hw
  have hcall := bl_runs osExitIrq 12 89 _ _ w hexit rfl rfl
  have hwc : w.cpsr.bank = .irq := by
    rw [← hw]
    exact bank_irq _
  rw [hwc] at hcall
  refine ⟨_, hgo.trans (hskip.trans (hin.trans hcall)), ?_, Cpu.setReg_self .., ?_, ?_, ?_, ?_⟩ <;>
    rw [← hw] <;> simp [hv3, hvlr, hvm, hvsp]

/-- It is the current task after `switch_task` has returned. -/
theorem osExitIrq_switches (u : Cpu) (low : Word) (hal : Aligned low)
    (hcurrent : Aligned x.current) (hnext : Aligned x.nextRun)
    (hcontrol : u.cpsr.control = irqModeBits ||| noInt)
    (hsp : u.reg (.irq, .sp) = low + 24#32) (hlr : u.mem (low + 24#32) = x.loc 34)
    (hal' : Aligned (u.mem x.nextRun)) :
    ∃ t, Reaches (x.program call apart) ⟨u, x.loc 90⟩ ⟨t, x.loc 34⟩ ∧
      t.cpsr.control = irqModeBits ||| noInt ∧ t.reg (.irq, .sp) = low + 28#32 ∧
      t.mem = Function.update u.mem x.current (u.mem x.nextRun) ∧
      t.reg (.user, .r0) = t.mem (u.mem x.nextRun) := by
  obtain ⟨-, -, -, -, -, hexit, -⟩ := at_routines x call apart
  have hbank : u.cpsr.bank = .irq := by
    unfold Psr.bank Psr.mode
    rw [hcontrol]
    decide
  obtain ⟨t, ht⟩ : ∃ t, execAll (some u) (((osExitIrqCode x).drop 13).take 7) = some t := by
    simp [osExitIrqCode, execAll, exec, Cpu.get, Cpu.set, slot, hbank, hcurrent, hnext, hsp,
      aligned_add, hal, hal', loadMany]
  have hin := part_runs osExitIrq 13 90 97 _ _ u t hexit rfl rfl (List.take_prefix 7 _) ht
  simp [osExitIrqCode, execAll, exec, Cpu.get, Cpu.set, slot, hbank, hcurrent, hnext, hsp,
    aligned_add, hal, hal', loadMany, spanOf, add_add_lit, hlr] at ht
  have hback : t.get .lr = x.loc 34 := by
    rw [← ht]
    simp [Cpu.get, slot, hbank]
  have hret := return_runs osExitIrq 20 97 (x.loc 34) .lr _ t hexit rfl rfl hback
  refine ⟨t, hin.trans hret, ?_, ?_, ?_, ?_⟩ <;> rw [← ht] <;> simp [hcontrol]

end

end Mirros
