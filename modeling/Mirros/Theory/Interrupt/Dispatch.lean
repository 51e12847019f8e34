import Mirros.Core.Interrupt
import Mathlib.Data.List.Basic
import Mathlib.Logic.Function.Basic
import Mathlib.Tactic.SplitIfs

/-!
# Which Handler Runs

The kernel and the interrupt controller. Devices ask for service at any time, also between two
accesses of `irq_handler` to the controller, which hands one request at a time on to the
processor, whichever it likes among those that are not masked.

In every run the handler that is called is the first one that was registered for its source
(`interrupt_dispatch`): never an empty entry, and never more often than the source asked. But
not as often either. `platform_irq_clean_pending` clears whatever is pending, and all but the
one request that is served are dropped (`pending_dropped`).

## Main definitions

* `IrqPhase`, `IrqMachine`: Where `irq_handler` is.
* `IrqStep`, `IrqRun`: What the kernel, the devices and the controller do.
* `firstHandler`: The first handler registered for a source.
* `Wired`, `Pending`, `owed`, `Quiet`: What holds at any time, the calls that are still due, and
  a source that nobody asks for.

## Theorems

* `step_wired`, `step_pending`, `step_owed`, `step_quiet`: What each step does to them.
* `run_calls`, `run_callable`, `run_owed`, `run_quiet`: What a run does.
* `irqHandler_run`: With no request in between the accesses are `irq_handler`.
* `interrupt_dispatch`, `pending_dropped`: Whole runs.
-/

namespace Mirros

/-- Where the processor is in `irq_handler`: outside, before an access to the controller, or
    before the call of a handler. Each pending register is read, and written with what was
    read. -/
inductive IrqPhase where
  | outside
  | sub (nr : Nat)
  | subBack (nr : Nat) (v : BitVec 32)
  | src (nr : Nat)
  | srcBack (nr : Nat) (v : BitVec 32)
  | pnd (nr : Nat)
  | pndBack (nr : Nat) (v : BitVec 32)
  | call (nr : Nat)

/-- The source that is served. -/
def IrqPhase.source : IrqPhase → Option Nat
  | .outside => none
  | .sub nr => some nr
  | .subBack nr _ => some nr
  | .src nr => some nr
  | .srcBack nr _ => some nr
  | .pnd nr => some nr
  | .pndBack nr _ => some nr
  | .call nr => some nr

/-- The next access of `platform_irq_clean_pending`. -/
def irqAccess (r : IrqRegs) : IrqPhase → IrqRegs × IrqPhase
  | .outside => (r, .outside)
  | .sub nr => (r, .subBack nr r.subsrcpnd)
  | .subBack nr v => (r.clearSubsrcpnd v, .src nr)
  | .src nr => (r, .srcBack nr r.srcpnd)
  | .srcBack nr v => (r.clearSrcpnd v, .pnd nr)
  | .pnd nr => (r, .pndBack nr r.intpnd)
  | .pndBack nr v => (r.clearIntpnd v, .call nr)
  | .call nr => (r, .call nr)

/-- The kernel, and where it is in `irq_handler`. -/
structure IrqMachine where
  sys : IrqSys
  phase : IrqPhase

/-- What happens: a device asks for service, the controller hands a request on, a handler is
    registered, and `irq_handler` is entered, goes on, and calls a handler. -/
inductive IrqEvent where
  | raise (n : Nat)
  | raiseSub (n : Nat)
  | grant (n : Nat)
  | register (nr : Int) (fn arg : Nat)
  | enter
  | access
  | call (nr : Nat) (des : IrqDes)

namespace IrqMachine

/-- The controller changes. -/
def setRegs (m : IrqMachine) (r : IrqRegs) : IrqMachine :=
  { m with sys := { m.sys with regs := r } }

@[simp] theorem setRegs_regs (m : IrqMachine) (r : IrqRegs) : (m.setRegs r).sys.regs = r := rfl

@[simp] theorem setRegs_table (m : IrqMachine) (r : IrqRegs) :
    (m.setRegs r).sys.table = m.sys.table := rfl

@[simp] theorem setRegs_phase (m : IrqMachine) (r : IrqRegs) : (m.setRegs r).phase = m.phase := rfl

end IrqMachine

/-- One step. The controller holds one request at a time until it is cleared. `register_irq`
    runs with interrupts off. -/
inductive IrqStep : IrqMachine → IrqEvent → IrqMachine → Prop where
  | raised (m : IrqMachine) (n : Nat) (hn : n < irqBits) : IrqStep m (.raise n)
      (m.setRegs { m.sys.regs with srcpnd := m.sys.regs.srcpnd ||| irqBit n })
  | raisedSub (m : IrqMachine) (n : Nat) (hn : n < irqBits) : IrqStep m (.raiseSub n)
      (m.setRegs { m.sys.regs with subsrcpnd := m.sys.regs.subsrcpnd ||| irqBit n })
  | granted (m : IrqMachine) (n : Nat) (hn : n < irqBits) (hfree : m.sys.regs.intpnd = 0#32)
      (hsrc : m.sys.regs.srcpnd.getLsbD n = true) (hmask : m.sys.regs.intmsk.getLsbD n = false) :
      IrqStep m (.grant n) (m.setRegs { m.sys.regs with intpnd := irqBit n, intoffset := n })
  | registered (m : IrqMachine) (nr : Int) (fn arg : Nat) (ret : Int) (sys : IrqSys)
      (hphase : m.phase = .outside) (hrun : m.sys.registerIrq nr fn arg = some (ret, sys)) :
      IrqStep m (.register nr fn arg) { m with sys := sys }
  | entered (m : IrqMachine) (hphase : m.phase = .outside) (hpnd : m.sys.regs.intpnd ≠ 0#32) :
      IrqStep m .enter { m with phase := .sub m.sys.regs.platformGetIrqId }
  | accessed (m : IrqMachine) (hin : m.phase ≠ .outside) (hcall : ∀ nr, m.phase ≠ .call nr) :
      IrqStep m .access { m.setRegs (irqAccess m.sys.regs m.phase).1 with
        phase := (irqAccess m.sys.regs m.phase).2 }
  | called (m : IrqMachine) (nr : Nat) (des : IrqDes) (sys : IrqSys) (hphase : m.phase = .call nr)
      (hrun : m.sys.doIrqHandler nr = some (des, sys)) :
      IrqStep m (.call nr des) ⟨sys, .outside⟩

/-- Any number of steps, the last one at the end. -/
inductive IrqRun : IrqMachine → List IrqEvent → IrqMachine → Prop where
  | nil (m : IrqMachine) : IrqRun m [] m
  | snoc (m₀ m m' : IrqMachine) (es : List IrqEvent) (e : IrqEvent) (hrun : IrqRun m₀ es m)
      (hstep : IrqStep m e m') : IrqRun m₀ (es ++ [e]) m'

/-- The handler that an event registers for a source. -/
def IrqEvent.handler (n : Nat) : IrqEvent → Option IrqDes
  | .register nr fn arg => if nr = n ∧ fn ≠ 0 then some ⟨fn, arg⟩ else none
  | _ => none

theorem IrqEvent.handler_register (n : Nat) (nr : Int) (fn arg : Nat) :
    (IrqEvent.register nr fn arg).handler n
      = if nr = n ∧ fn ≠ 0 then some ⟨fn, arg⟩ else none := rfl

/-- The first handler that was registered for a source, or none. -/
def firstHandler (es : List IrqEvent) (n : Nat) : IrqDes :=
  (es.filterMap (IrqEvent.handler n)).headD ⟨0, 0⟩

theorem irqBit_getLsbD (n i : Nat) (hi : i < irqBits) :
    (irqBit n).getLsbD i = decide (i = n) := by
  unfold irqBit irqBits at *
  rw [BitVec.getLsbD_shiftLeft]
  by_cases h : i = n
  · subst h
    simp [hi]
  · have hone : i < n ∨ (1#32).getLsbD (i - n) = false := by
      by_cases hlt : i < n
      · exact Or.inl hlt
      · refine Or.inr ?_
        rw [BitVec.getLsbD_one]
        simp
        omega
    rcases hone with hlt | hone
    · simp [hlt, h]
    · simp [hone, h]

theorem irqBit_ne_zero (n : Nat) (hn : n < irqBits) : irqBit n ≠ 0#32 := by
  intro hc
  have hbit := irqBit_getLsbD n n hn
  rw [hc] at hbit
  simp at hbit

theorem irqBit_inj (n k : Nat) (hn : n < irqBits) (h : irqBit n = irqBit k) : n = k := by
  have hbit := irqBit_getLsbD k n hn
  rw [← h, irqBit_getLsbD n n hn] at hbit
  exact of_decide_eq_true (hbit.symm.trans (decide_eq_true rfl))

theorem filterMap_handler (es : List IrqEvent) (n : Nat) (des : IrqDes)
    (hdes : des ∈ es.filterMap (IrqEvent.handler n)) : des.fn ≠ 0 := by
  rcases List.mem_filterMap.mp hdes with ⟨e', -, he'⟩
  cases e' with
  | register nr fn arg =>
      rw [IrqEvent.handler_register] at he'
      split_ifs at he' with hcond
      rw [← Option.some.inj he']
      exact hcond.2
  | _ => exact absurd he' (by simp only [IrqEvent.handler, reduceCtorEq, not_false_eq_true])

/-- What was registered changes only by the first registration of a source. -/
theorem firstHandler_snoc (es : List IrqEvent) (e : IrqEvent) (n : Nat) :
    firstHandler (es ++ [e]) n = if (firstHandler es n).fn ≠ 0 then firstHandler es n
      else (e.handler n).getD ⟨0, 0⟩ := by
  unfold firstHandler
  rw [List.filterMap_append]
  cases hlist : es.filterMap (IrqEvent.handler n) with
  | nil =>
      rw [List.nil_append, List.headD_nil, if_neg (not_not.mpr rfl)]
      cases hhandler : e.handler n with
      | none =>
          rw [List.filterMap_cons_none hhandler]
          rfl
      | some des =>
          rw [List.filterMap_cons_some hhandler]
          rfl
  | cons des rest =>
      have hne := filterMap_handler es n des (hlist ▸ List.mem_cons_self)
      rw [List.cons_append, List.headD_cons, List.headD_cons, if_pos hne]

/-- What `register_irq` does, if it is defined. -/
theorem registerIrq_cases (s s' : IrqSys) (nr : Int) (fn arg : Nat) (ret : Int)
    (h : s.registerIrq nr fn arg = some (ret, s')) :
    (s' = s ∧ ∀ n < irqBits, nr = n → fn ≠ 0 → (s.table n).fn ≠ 0) ∨
      ∃ n < irqBits, nr = n ∧ fn ≠ 0 ∧ (s.table n).fn = 0 ∧ s' = { s with
        table := Function.update s.table n ⟨fn, arg⟩
        regs := s.regs.platformEnableIrq n } := by
  unfold IrqSys.registerIrq at h
  by_cases hbad : nr > irqNr - 1 ∨ fn = 0
  · rw [if_pos hbad, Option.some.injEq, Prod.mk.injEq] at h
    refine Or.inl ⟨h.2.symm, fun n hn hnr hfn => ?_⟩
    unfold irqNr irqBits at *
    omega
  rw [if_neg hbad] at h
  by_cases hneg : nr < 0
  · rw [if_pos hneg] at h
    exact absurd h (by simp only [reduceCtorEq, not_false_eq_true])
  rw [if_neg hneg] at h
  have hnr : nr = nr.toNat := (Int.toNat_of_nonneg (by omega)).symm
  unfold IrqSys.archRegisterIrq at h
  by_cases hfree : (s.table nr.toNat).fn = 0
  · rw [if_pos hfree] at h
    by_cases hbits : nr.toNat < irqBits
    · rw [if_pos hbits, Option.some.injEq, Prod.mk.injEq] at h
      exact Or.inr ⟨nr.toNat, hbits, hnr, fun hc => hbad (Or.inr hc), hfree, h.2.symm⟩
    · rw [if_neg hbits] at h
      exact absurd h (by simp only [reduceCtorEq, not_false_eq_true])
  · rw [if_neg hfree, Option.some.injEq, Prod.mk.injEq] at h
    refine Or.inl ⟨h.2.symm, fun n _ hn _ => ?_⟩
    have hsame : nr.toNat = n := by omega
    rw [← hsame]
    exact hfree

/-- `do_irq_handler` calls what is in the table. -/
theorem doIrqHandler_cases (s s' : IrqSys) (nr : Nat) (des : IrqDes)
    (h : s.doIrqHandler nr = some (des, s')) :
    des = s.table nr ∧ des.fn ≠ 0 ∧ s'.table = s.table ∧ s'.regs = s.regs := by
  unfold IrqSys.doIrqHandler at h
  by_cases hnull : (s.table nr).fn = 0
  · rw [if_pos hnull] at h
    exact absurd h (by simp only [reduceCtorEq, not_false_eq_true])
  rw [if_neg hnull, Option.some.injEq, Prod.mk.injEq] at h
  rw [← h.1, ← h.2]
  exact ⟨rfl, hnull, rfl, rfl⟩

/-- Every source that is not masked has a handler, and so has the one that is handed on and
    the one that is served. -/
structure Wired (m : IrqMachine) : Prop where
  masked : ∀ n < irqBits, m.sys.regs.intmsk.getLsbD n = false → (m.sys.table n).fn ≠ 0
  latched : m.sys.regs.intpnd = 0#32 ∨ ∃ n < irqBits, m.sys.regs.intpnd = irqBit n ∧
    m.sys.regs.intoffset = n ∧ (m.sys.table n).fn ≠ 0
  serving : ∀ nr, m.phase.source = some nr → nr < irqBits ∧ (m.sys.table nr).fn ≠ 0
  holding : ∀ nr, m.phase.source = some nr → m.phase ≠ .call nr →
    m.sys.regs.intpnd = irqBit nr
  back : ∀ nr v, m.phase = .pndBack nr v → v = irqBit nr

/-- Enabling a source unmasks nothing else. -/
theorem platformEnableIrq_intmsk (r : IrqRegs) (nr n : Nat) (hn : n < irqBits) :
    (r.platformEnableIrq nr).intmsk.getLsbD n = (r.intmsk.getLsbD n && !decide (n = nr)) := by
  show (r.intmsk &&& ~~~irqBit nr).getLsbD n = _
  rw [BitVec.getLsbD_and, BitVec.getLsbD_not, irqBit_getLsbD nr n hn]
  have hlt : n < 32 := hn
  rw [decide_eq_true hlt, Bool.true_and]

theorem step_wired (m m' : IrqMachine) (e : IrqEvent) (h : Wired m) (hstep : IrqStep m e m') :
    Wired m' := by
  cases hstep with
  | raised n hn => exact ⟨h.masked, h.latched, h.serving, h.holding, h.back⟩
  | raisedSub n hn => exact ⟨h.masked, h.latched, h.serving, h.holding, h.back⟩
  | granted n hn hfree hsrc hmask =>
      refine ⟨h.masked, Or.inr ⟨n, hn, rfl, rfl, h.masked n hn hmask⟩, h.serving,
        fun nr hnr hcall => ?_, h.back⟩
      -- The controller is free, so no request is being served.
      have hholding := h.holding nr hnr hcall
      exact absurd (hholding.symm.trans hfree) (irqBit_ne_zero nr (h.serving nr hnr).1)
  | registered nr fn arg ret sys hphase hrun =>
      rcases registerIrq_cases m.sys sys nr fn arg ret hrun with
        ⟨rfl, -⟩ | ⟨k, hk, -, hfn, hempty, rfl⟩
      · exact h
      have htable : ∀ n, (m.sys.table n).fn ≠ 0 →
          (Function.update m.sys.table k ⟨fn, arg⟩ n).fn ≠ 0 := by
        intro n hne
        rw [Function.update_apply]
        split_ifs
        · exact hfn
        · exact hne
      refine ⟨fun n hn hmask => ?_, ?_, fun nr hnr => ⟨(h.serving nr hnr).1,
        htable nr (h.serving nr hnr).2⟩, h.holding, h.back⟩
      · by_cases hnk : n = k
        · subst hnk
          show (Function.update m.sys.table n ⟨fn, arg⟩ n).fn ≠ 0
          rw [Function.update_self]
          exact hfn
        · have hmask' : (m.sys.regs.platformEnableIrq k).intmsk.getLsbD n = false := hmask
          rw [platformEnableIrq_intmsk m.sys.regs k n hn, decide_eq_false hnk, Bool.not_false,
            Bool.and_true] at hmask'
          exact htable n (h.masked n hn hmask')
      · rcases h.latched with hzero | ⟨n, hn, hpnd, hoffset, hhandler⟩
        · exact Or.inl hzero
        · exact Or.inr ⟨n, hn, hpnd, hoffset, htable n hhandler⟩
  | entered hphase hpnd =>
      rcases h.latched with hzero | ⟨n, hn, hbit, hoffset, hhandler⟩
      · exact absurd hzero hpnd
      have hid : ∀ nr, (IrqPhase.sub m.sys.regs.platformGetIrqId).source = some nr → nr = n :=
        fun nr hnr => (Option.some.inj hnr).symm.trans hoffset
      refine ⟨h.masked, h.latched, fun nr hnr => ?_, fun nr hnr _ => ?_, fun nr v hv => ?_⟩
      · rw [hid nr hnr]
        exact ⟨hn, hhandler⟩
      · rw [hid nr hnr]
        exact hbit
      · exact absurd hv (by simp only [reduceCtorEq, not_false_eq_true])
  | accessed hin hcall =>
      obtain ⟨sys, phase⟩ := m
      cases phase with
      | outside => exact absurd rfl hin
      | call nr => exact absurd rfl (hcall nr)
      | sub nr =>
          exact ⟨h.masked, h.latched, h.serving, fun k hk _ => h.holding k hk (hcall k),
            fun k v hv => absurd hv (by simp only [irqAccess, reduceCtorEq, not_false_eq_true])⟩
      | subBack nr v =>
          exact ⟨h.masked, h.latched, h.serving, fun k hk _ => h.holding k hk (hcall k),
            fun k v hv => absurd hv (by simp only [irqAccess, reduceCtorEq, not_false_eq_true])⟩
      | src nr =>
          exact ⟨h.masked, h.latched, h.serving, fun k hk _ => h.holding k hk (hcall k),
            fun k v hv => absurd hv (by simp only [irqAccess, reduceCtorEq, not_false_eq_true])⟩
      | srcBack nr v =>
          exact ⟨h.masked, h.latched, h.serving, fun k hk _ => h.holding k hk (hcall k),
            fun k v hv => absurd hv (by simp only [irqAccess, reduceCtorEq, not_false_eq_true])⟩
      | pnd nr =>
          refine ⟨h.masked, h.latched, h.serving, fun k hk _ => h.holding k hk (hcall k),
            fun k v hv => ?_⟩
          have hpair := IrqPhase.pndBack.inj hv
          rw [← hpair.1, ← hpair.2]
          exact h.holding nr rfl (hcall nr)
      | pndBack nr v =>
          -- The bit that was handed on is the only one, and is cleared.
          have hzero : sys.regs.intpnd &&& ~~~v = 0#32 := by
            rw [h.back nr v rfl, h.holding nr rfl (hcall nr)]
            exact BitVec.and_not_self _
          refine ⟨h.masked, Or.inl hzero, h.serving, fun k hk hne => ?_, fun k w hw => ?_⟩
          · exact absurd (congrArg IrqPhase.call (Option.some.inj hk)) hne
          · exact absurd hw (by simp only [irqAccess, reduceCtorEq, not_false_eq_true])
  | called nr des sys hphase hrun =>
      rcases doIrqHandler_cases m.sys sys nr des hrun with ⟨-, -, htable, hregs⟩
      refine ⟨?_, ?_,
        fun k hk => absurd hk (by simp only [IrqPhase.source, reduceCtorEq, not_false_eq_true]),
        fun k hk => absurd hk (by simp only [IrqPhase.source, reduceCtorEq, not_false_eq_true]),
        fun k v hv => absurd hv (by simp only [reduceCtorEq, not_false_eq_true])⟩
      · rw [htable, hregs]
        exact h.masked
      · rw [htable, hregs]
        exact h.latched

/-- The table holds the first handler of each source. -/
theorem step_table (m m' : IrqMachine) (e : IrqEvent) (es : List IrqEvent) (n : Nat)
    (hn : n < irqBits) (h : m.sys.table n = firstHandler es n) (hstep : IrqStep m e m') :
    m'.sys.table n = firstHandler (es ++ [e]) n := by
  have hother : e.handler n = none → m.sys.table n = firstHandler (es ++ [e]) n := by
    intro hnone
    rw [firstHandler_snoc, hnone, h]
    split_ifs with hfn
    · rfl
    · -- There was no handler, and there is none.
      have hnull : (firstHandler es n).fn = 0 := not_not.mp hfn
      unfold firstHandler at hnull ⊢
      cases hlist : es.filterMap (IrqEvent.handler n) with
      | nil => rfl
      | cons des rest =>
          rw [hlist] at hnull
          exact absurd hnull (filterMap_handler es n des (hlist ▸ List.mem_cons_self))
  cases hstep with
  | raised k hk => exact hother rfl
  | raisedSub k hk => exact hother rfl
  | granted k hk hfree hsrc hmask => exact hother rfl
  | entered hphase hpnd => exact hother rfl
  | accessed hin hcall => exact hother rfl
  | called nr des sys hphase hrun =>
      show sys.table n = _
      rw [(doIrqHandler_cases m.sys sys nr des hrun).2.2.1]
      exact hother rfl
  | registered nr fn arg ret sys hphase hrun =>
      rcases registerIrq_cases m.sys sys nr fn arg ret hrun with
        ⟨rfl, hfull⟩ | ⟨k, hk, hnr, hfn, hempty, rfl⟩
      · by_cases hreg : nr = n ∧ fn ≠ 0
        · have hne := hfull n hn hreg.1 hreg.2
          rw [h] at hne
          rw [firstHandler_snoc, if_pos hne]
          exact h
        · refine hother ?_
          rw [IrqEvent.handler_register, if_neg hreg]
      · show Function.update m.sys.table k ⟨fn, arg⟩ n = _
        by_cases hnk : n = k
        · subst hnk
          rw [Function.update_self, firstHandler_snoc, IrqEvent.handler_register, ← h,
            if_neg (not_not.mpr hempty), if_pos ⟨hnr, hfn⟩]
          rfl
        · rw [Function.update_of_ne hnk]
          refine hother ?_
          rw [IrqEvent.handler_register, if_neg (fun hc => hnk (by omega))]

/-- The source that is served, once its request has been cleared. -/
def IrqPhase.taken : IrqPhase → Option Nat
  | .pnd nr => some nr
  | .pndBack nr _ => some nr
  | .call nr => some nr
  | _ => none

/-- A request that is handed on stays pending until `irq_handler` clears it. -/
structure Pending (m : IrqMachine) : Prop where
  kept : ∀ n < irqBits, m.sys.regs.intpnd = irqBit n → m.phase.taken ≠ some n ∨ m.phase = .call n →
    m.sys.regs.srcpnd.getLsbD n = true
  read : ∀ nr v, m.phase = .srcBack nr v → v.getLsbD nr = true

/-- The calls that source `n` may still get: for the request that is pending, and for the one
    that is served. -/
def owed (m : IrqMachine) (n : Nat) : Nat :=
  (if m.sys.regs.srcpnd.getLsbD n = true then 1 else 0) +
    (if m.phase.taken = some n then 1 else 0)

/-- A call of a handler for source `n`. -/
def IrqEvent.isCall (n : Nat) : IrqEvent → Bool
  | .call nr _ => nr = n
  | _ => false

/-- A device asks for source `n`. -/
def IrqEvent.isRaise (n : Nat) : IrqEvent → Bool
  | .raise k => k = n
  | _ => false

theorem step_pending (m m' : IrqMachine) (e : IrqEvent) (hwired : Wired m) (h : Pending m)
    (hstep : IrqStep m e m') : Pending m' := by
  cases hstep with
  | raised n hn =>
      refine ⟨fun k hk hpnd hphase => ?_, h.read⟩
      show (m.sys.regs.srcpnd ||| irqBit n).getLsbD k = true
      rw [BitVec.getLsbD_or, h.kept k hk hpnd hphase, Bool.true_or]
  | raisedSub n hn => exact ⟨h.kept, h.read⟩
  | granted n hn hfree hsrc hmask =>
      refine ⟨fun k hk hpnd _ => ?_, h.read⟩
      rw [irqBit_inj k n hk hpnd.symm]
      exact hsrc
  | registered nr fn arg ret sys hphase hrun =>
      rcases registerIrq_cases m.sys sys nr fn arg ret hrun with ⟨rfl, -⟩ | ⟨k, -, -, -, -, rfl⟩
      · exact h
      · exact ⟨h.kept, h.read⟩
  | entered hphase hpnd =>
      refine ⟨fun k hk hbit _ => h.kept k hk hbit (Or.inl ?_), fun nr v hv => ?_⟩
      · rw [hphase]
        simp only [IrqPhase.taken, ne_eq, reduceCtorEq, not_false_eq_true]
      · exact absurd hv (by simp only [reduceCtorEq, not_false_eq_true])
  | accessed hin hcall =>
      obtain ⟨sys, phase⟩ := m
      cases phase with
      | outside => exact absurd rfl hin
      | call nr => exact absurd rfl (hcall nr)
      | sub nr =>
          exact ⟨fun k hk hbit _ => h.kept k hk hbit (Or.inl (Option.some_ne_none k).symm),
            fun k v hv => absurd hv (by simp only [irqAccess, reduceCtorEq, not_false_eq_true])⟩
      | subBack nr v =>
          exact ⟨fun k hk hbit _ => h.kept k hk hbit (Or.inl (Option.some_ne_none k).symm),
            fun k v hv => absurd hv (by simp only [irqAccess, reduceCtorEq, not_false_eq_true])⟩
      | src nr =>
          refine ⟨fun k hk hbit _ => h.kept k hk hbit (Or.inl (Option.some_ne_none k).symm),
            fun k v hv => ?_⟩
          -- What is served is still pending when the register is read.
          have hpair := IrqPhase.srcBack.inj hv
          rw [← hpair.1, ← hpair.2]
          exact h.kept nr (hwired.serving nr rfl).1 (hwired.holding nr rfl (hcall nr))
            (Or.inl (Option.some_ne_none nr).symm)
      | srcBack nr v =>
          refine ⟨fun k hk hbit hphase => ?_,
            fun k v hv => absurd hv (by simp only [irqAccess, reduceCtorEq, not_false_eq_true])⟩
          have hheld := hwired.holding nr rfl (hcall nr)
          have hsame : k = nr := irqBit_inj k nr hk (hbit.symm.trans hheld)
          rcases hphase with hne | hc
          · exact absurd (congrArg some hsame.symm) hne
          · exact absurd hc (by simp only [irqAccess, reduceCtorEq, not_false_eq_true])
      | pnd nr =>
          refine ⟨fun k hk hbit hphase => ?_,
            fun k v hv => absurd hv (by simp only [irqAccess, reduceCtorEq, not_false_eq_true])⟩
          have hheld := hwired.holding nr rfl (hcall nr)
          have hsame : k = nr := irqBit_inj k nr hk (hbit.symm.trans hheld)
          rcases hphase with hne | hc
          · exact absurd (congrArg some hsame.symm) hne
          · exact absurd hc (by simp only [irqAccess, reduceCtorEq, not_false_eq_true])
      | pndBack nr v =>
          refine ⟨fun k hk hbit _ => ?_,
            fun k v hv => absurd hv (by simp only [irqAccess, reduceCtorEq, not_false_eq_true])⟩
          have hzero : sys.regs.intpnd &&& ~~~v = 0#32 := by
            rw [hwired.back nr v rfl, hwired.holding nr rfl (hcall nr)]
            exact BitVec.and_not_self _
          exact absurd (hbit.symm.trans hzero) (irqBit_ne_zero k hk)
  | called nr des sys hphase hrun =>
      rcases doIrqHandler_cases m.sys sys nr des hrun with ⟨-, -, -, hregs⟩
      refine ⟨fun k hk hbit _ => ?_, fun k v hv => ?_⟩
      · show sys.regs.srcpnd.getLsbD k = true
        have hbit' : sys.regs.intpnd = irqBit k := hbit
        rw [hregs] at hbit' ⊢
        refine h.kept k hk hbit' ?_
        rw [hphase]
        by_cases hkn : k = nr
        · exact Or.inr (congrArg IrqPhase.call hkn.symm)
        · exact Or.inl (fun hc => hkn (Option.some.inj hc).symm)
      · exact absurd hv (by simp only [reduceCtorEq, not_false_eq_true])

theorem step_owed (m m' : IrqMachine) (e : IrqEvent) (n : Nat) (hn : n < irqBits)
    (hwired : Wired m) (h : Pending m) (hstep : IrqStep m e m') :
    owed m' n + (if e.isCall n then 1 else 0) ≤ owed m n + (if e.isRaise n then 1 else 0) := by
  -- Most steps change neither the request nor the phase in what counts.
  have hsame : (m'.sys.regs.srcpnd.getLsbD n = true → m.sys.regs.srcpnd.getLsbD n = true) →
      (m'.phase.taken = some n → m.phase.taken = some n) → e.isCall n = false →
      owed m' n + (if e.isCall n then 1 else 0) ≤ owed m n + (if e.isRaise n then 1 else 0) := by
    intro hsrc htaken hcall
    unfold owed
    rw [hcall]
    split_ifs <;> simp_all
  cases hstep with
  | raised k hk =>
      by_cases hkn : k = n
      · have hraise : (IrqEvent.raise k).isRaise n = true := decide_eq_true hkn
        rw [hraise]
        unfold owed IrqMachine.setRegs
        simp only [IrqEvent.isCall, Bool.false_eq_true, if_false, if_true]
        split_ifs <;> omega
      · refine hsame (fun hbit => ?_) id rfl
        have hbit' : (m.sys.regs.srcpnd ||| irqBit k).getLsbD n = true := hbit
        rw [BitVec.getLsbD_or, irqBit_getLsbD k n hn, decide_eq_false (Ne.symm hkn),
          Bool.or_false] at hbit'
        exact hbit'
  | raisedSub k hk => exact hsame id id rfl
  | granted k hk hfree hsrc hmask => exact hsame id id rfl
  | registered nr fn arg ret sys hphase hrun =>
      rcases registerIrq_cases m.sys sys nr fn arg ret hrun with ⟨rfl, -⟩ | ⟨k, -, -, -, -, rfl⟩
      · exact hsame id id rfl
      · exact hsame id id rfl
  | entered hphase hpnd =>
      refine hsame id (fun hc => ?_) rfl
      exact absurd hc (by simp only [IrqPhase.taken, reduceCtorEq, not_false_eq_true])
  | accessed hin hcall =>
      obtain ⟨sys, phase⟩ := m
      cases phase with
      | outside => exact absurd rfl hin
      | call nr => exact absurd rfl (hcall nr)
      | sub nr => exact hsame id id rfl
      | subBack nr v => exact hsame id id rfl
      | src nr => exact hsame id id rfl
      | srcBack nr v =>
          have hclear : ∀ b, (sys.regs.srcpnd &&& ~~~v).getLsbD n = b →
              b = (sys.regs.srcpnd.getLsbD n && !v.getLsbD n) := by
            intro b hb
            have hlt : n < 32 := hn
            rw [← hb, BitVec.getLsbD_and, BitVec.getLsbD_not, decide_eq_true hlt, Bool.true_and]
          by_cases hnr : nr = n
          · -- The request that is served is pending until now.
            subst hnr
            have hbefore := h.kept nr hn (hwired.holding nr rfl (hcall nr))
              (Or.inl (Option.some_ne_none nr).symm)
            have hafter := hclear _ rfl
            rw [h.read nr v rfl, Bool.not_true, Bool.and_false] at hafter
            unfold owed IrqMachine.setRegs
            simp only [irqAccess, IrqRegs.clearSrcpnd, IrqPhase.taken, IrqEvent.isCall, hafter]
            have hbefore' : sys.regs.srcpnd.getLsbD nr = true := hbefore
            rw [if_pos hbefore']
            simp
          · refine hsame (fun hbit => ?_) (fun hc => absurd (Option.some.inj hc) hnr) rfl
            have hafter := hclear true hbit
            exact (Bool.and_eq_true_iff.mp hafter.symm).1
      | pnd nr => exact hsame id id rfl
      | pndBack nr v => exact hsame id id rfl
  | called nr des sys hphase hrun =>
      rcases doIrqHandler_cases m.sys sys nr des hrun with ⟨-, -, -, hregs⟩
      unfold owed
      rw [hphase]
      show (if sys.regs.srcpnd.getLsbD n = true then 1 else 0) + 0 + _ ≤ _
      rw [hregs]
      by_cases hnr : nr = n
      · subst hnr
        simp [IrqPhase.taken, IrqEvent.isCall, IrqEvent.isRaise]
      · have hne : (IrqEvent.call nr des).isCall n = false := decide_eq_false hnr
        rw [hne]
        split_ifs <;> simp_all

/-- Nobody asks for source `n`, and it is neither handed on nor served. -/
structure Quiet (n : Nat) (m : IrqMachine) : Prop where
  request : m.sys.regs.srcpnd.getLsbD n = false
  latched : m.sys.regs.intpnd ≠ irqBit n
  phase : m.phase.source ≠ some n

theorem step_quiet (m m' : IrqMachine) (e : IrqEvent) (n : Nat) (hn : n < irqBits)
    (hwired : Wired m) (h : Quiet n m) (hstep : IrqStep m e m') (hraise : e.isRaise n = false) :
    Quiet n m' ∧ e.isCall n = false := by
  cases hstep with
  | raised k hk =>
      have hkn : n ≠ k := fun hc => absurd hraise (by simp only [IrqEvent.isRaise, hc, decide_true,
        Bool.true_eq_false, not_false_eq_true])
      refine ⟨⟨?_, h.latched, h.phase⟩, rfl⟩
      show (m.sys.regs.srcpnd ||| irqBit k).getLsbD n = false
      rw [BitVec.getLsbD_or, h.request, irqBit_getLsbD k n hn, decide_eq_false hkn, Bool.or_false]
  | raisedSub k hk => exact ⟨⟨h.request, h.latched, h.phase⟩, rfl⟩
  | granted k hk hfree hsrc hmask =>
      refine ⟨⟨h.request, fun hc => ?_, h.phase⟩, rfl⟩
      rw [irqBit_inj k n hk hc, h.request] at hsrc
      exact absurd hsrc (by decide)
  | registered nr fn arg ret sys hphase hrun =>
      rcases registerIrq_cases m.sys sys nr fn arg ret hrun with ⟨rfl, -⟩ | ⟨k, -, -, -, -, rfl⟩
      · exact ⟨h, rfl⟩
      · exact ⟨⟨h.request, h.latched, h.phase⟩, rfl⟩
  | entered hphase hpnd =>
      refine ⟨⟨h.request, h.latched, fun hc => ?_⟩, rfl⟩
      rcases hwired.latched with hzero | ⟨k, hk, hbit, hoffset, -⟩
      · exact hpnd hzero
      · have hsame : k = n := hoffset.symm.trans (Option.some.inj hc)
        exact h.latched (hsame ▸ hbit)
  | accessed hin hcall =>
      obtain ⟨sys, phase⟩ := m
      refine ⟨?_, rfl⟩
      cases phase with
      | outside => exact absurd rfl hin
      | call nr => exact absurd rfl (hcall nr)
      | sub nr => exact ⟨h.request, h.latched, h.phase⟩
      | subBack nr v => exact ⟨h.request, h.latched, h.phase⟩
      | src nr => exact ⟨h.request, h.latched, h.phase⟩
      | pnd nr => exact ⟨h.request, h.latched, h.phase⟩
      | srcBack nr v =>
          refine ⟨?_, h.latched, h.phase⟩
          have hrequest : sys.regs.srcpnd.getLsbD n = false := h.request
          show (sys.regs.srcpnd &&& ~~~v).getLsbD n = false
          rw [BitVec.getLsbD_and, hrequest, Bool.false_and]
      | pndBack nr v =>
          refine ⟨h.request, fun hc => ?_, h.phase⟩
          have hzero : sys.regs.intpnd &&& ~~~v = 0#32 := by
            rw [hwired.back nr v rfl, hwired.holding nr rfl (hcall nr)]
            exact BitVec.and_not_self _
          exact irqBit_ne_zero n hn (hc.symm.trans hzero)
  | called nr des sys hphase hrun =>
      rcases doIrqHandler_cases m.sys sys nr des hrun with ⟨-, -, -, hregs⟩
      have hnr : nr ≠ n := fun hc => h.phase (by rw [hphase, hc]; rfl)
      refine ⟨⟨?_, ?_, fun hc => ?_⟩, decide_eq_false hnr⟩
      · show sys.regs.srcpnd.getLsbD n = false
        rw [hregs]
        exact h.request
      · show sys.regs.intpnd ≠ irqBit n
        rw [hregs]
        exact h.latched
      · exact absurd hc (by simp only [IrqPhase.source, reduceCtorEq, not_false_eq_true])

/-- The state after `arch_irq_init`, if nothing had been handed on. -/
structure IrqBooted (m : IrqMachine) : Prop where
  table : ∀ n, m.sys.table n = ⟨0, 0⟩
  masked : m.sys.regs.intmsk = BitVec.allOnes 32
  latched : m.sys.regs.intpnd = 0#32
  phase : m.phase = .outside

theorem archIrqInit_booted (s : IrqSys) (tableBase : Nat) (hbase : tableBase ≠ 0)
    (hlatched : s.regs.intpnd = 0#32) : IrqBooted ⟨(s.archIrqInit tableBase).2, .outside⟩ := by
  have hinit : (s.archIrqInit tableBase).2
      = { s with table := fun _ => ⟨0, 0⟩, regs := s.regs.platformIrqInit } := by
    unfold IrqSys.archIrqInit
    rw [if_neg hbase]
  rw [hinit]
  exact ⟨fun _ => rfl, rfl, hlatched, rfl⟩

theorem booted_wired (m : IrqMachine) (h : IrqBooted m) : Wired m ∧ Pending m := by
  refine ⟨⟨fun n hn hmask => ?_, Or.inl h.latched, fun nr hnr => ?_, fun nr hnr => ?_,
    fun nr v hv => ?_⟩, fun n hn hbit => ?_, fun nr v hv => ?_⟩
  · have hlt : n < 32 := hn
    rw [h.masked, BitVec.getLsbD_allOnes, decide_eq_true hlt] at hmask
    exact absurd hmask (by decide)
  · rw [h.phase] at hnr
    exact absurd hnr (by simp only [IrqPhase.source, reduceCtorEq, not_false_eq_true])
  · rw [h.phase] at hnr
    exact absurd hnr (by simp only [IrqPhase.source, reduceCtorEq, not_false_eq_true])
  · rw [h.phase] at hv
    exact absurd hv (by simp only [reduceCtorEq, not_false_eq_true])
  · exact absurd (hbit.symm.trans h.latched) (irqBit_ne_zero n hn)
  · rw [h.phase] at hv
    exact absurd hv (by simp only [reduceCtorEq, not_false_eq_true])

theorem run_wired (m₀ m : IrqMachine) (es : List IrqEvent) (h : IrqBooted m₀)
    (hrun : IrqRun m₀ es m) : Wired m ∧ Pending m := by
  induction hrun with
  | nil => exact booted_wired m₀ h
  | snoc m m' es e hrun hstep ih =>
      rcases ih with ⟨hwired, hpending⟩
      exact ⟨step_wired m m' e hwired hstep, step_pending m m' e hwired hpending hstep⟩

theorem run_table (m₀ m : IrqMachine) (es : List IrqEvent) (n : Nat) (hn : n < irqBits)
    (h : IrqBooted m₀) (hrun : IrqRun m₀ es m) : m.sys.table n = firstHandler es n := by
  induction hrun with
  | nil => exact h.table n
  | snoc m m' es e hrun hstep ih => exact step_table m m' e es n hn ih hstep

theorem run_owed (m₀ m : IrqMachine) (es : List IrqEvent) (n : Nat) (hn : n < irqBits)
    (h : IrqBooted m₀) (hrun : IrqRun m₀ es m) :
    owed m n + es.countP (IrqEvent.isCall n) ≤ owed m₀ n + es.countP (IrqEvent.isRaise n) := by
  induction hrun with
  | nil => exact Nat.le_refl _
  | snoc m m' es e hrun hstep ih =>
      rcases run_wired m₀ m es h hrun with ⟨hwired, hpending⟩
      have hstep' := step_owed m m' e n hn hwired hpending hstep
      simp only [List.countP_append, List.countP_singleton]
      omega

theorem run_quiet (m₀ m m' : IrqMachine) (es es' : List IrqEvent) (n : Nat) (hn : n < irqBits)
    (h : IrqBooted m₀) (hrun : IrqRun m₀ es m) (hquiet : Quiet n m) (hrun' : IrqRun m es' m')
    (hraise : ∀ e ∈ es', e.isRaise n = false) :
    Quiet n m' ∧ Wired m' ∧ Pending m' ∧ ∀ e ∈ es', e.isCall n = false := by
  have hwired := run_wired m₀ m es h hrun
  clear hrun
  induction hrun' with
  | nil => exact ⟨hquiet, hwired.1, hwired.2, fun e he => absurd he List.not_mem_nil⟩
  | snoc m₁ m' es' e hrun' hstep ih =>
      rcases ih (fun e he => hraise e (List.mem_append_left _ he)) with
        ⟨hquiet₁, hwired₁, hpending₁, hcalls⟩
      rcases step_quiet m₁ m' e n hn hwired₁ hquiet₁ hstep
        (hraise e (List.mem_append_right _ (List.mem_singleton_self e))) with ⟨hquiet', hcall⟩
      refine ⟨hquiet', step_wired m₁ m' e hwired₁ hstep,
        step_pending m₁ m' e hwired₁ hpending₁ hstep, fun e' he' => ?_⟩
      rcases List.mem_append.mp he' with he' | he'
      · exact hcalls e' he'
      · rw [List.mem_singleton.mp he']
        exact hcall

/-- What a run calls is what had been registered first. -/
theorem run_calls (m₀ m : IrqMachine) (es : List IrqEvent) (h : IrqBooted m₀)
    (hrun : IrqRun m₀ es m) : ∀ before after nr des, es = before ++ .call nr des :: after →
      des = firstHandler before nr ∧ des.fn ≠ 0 := by
  induction hrun with
  | nil => exact fun before after nr des hes => absurd hes.symm (by simp)
  | snoc m m' es e hrun hstep ih =>
      intro before after nr des hes
      rcases List.eq_nil_or_concat after with rfl | ⟨init, last, rfl⟩
      · -- It is the last step.
        rcases List.append_inj' hes rfl with ⟨rfl, hlast⟩
        rw [List.cons.injEq] at hlast
        rw [hlast.1] at hstep
        cases hstep with
        | called nr des sys hphase hrun' =>
            have hwired := (run_wired m₀ m es h hrun).1
            rcases doIrqHandler_cases m.sys sys nr des hrun' with ⟨hdes, hfn, -, -⟩
            refine ⟨?_, hfn⟩
            rw [hdes]
            exact run_table m₀ m es nr (hwired.serving nr (by rw [hphase]; rfl)).1 h hrun
      · have hes' : es ++ [e] = (before ++ .call nr des :: init) ++ [last] := by
          rw [hes]
          simp
        exact ih before init nr des (List.append_inj' hes' rfl).1

/-- There is a handler whenever one is about to be called. -/
theorem run_callable (m₀ m : IrqMachine) (es : List IrqEvent) (nr : Nat) (h : IrqBooted m₀)
    (hrun : IrqRun m₀ es m) (hphase : m.phase = .call nr) :
    ∃ sys, m.sys.doIrqHandler nr = some (firstHandler es nr, sys) := by
  have hwired := (run_wired m₀ m es h hrun).1
  rcases hwired.serving nr (by rw [hphase]; rfl) with ⟨hlt, hfn⟩
  refine ⟨{ { m.sys with inInterrupt := true } with inInterrupt := false }, ?_⟩
  unfold IrqSys.doIrqHandler
  rw [if_neg hfn, ← run_table m₀ m es nr hlt h hrun]

/-- One more access. -/
theorem IrqRun.access (m₀ : IrqMachine) (es : List IrqEvent) (sys : IrqSys) (p : IrqPhase)
    (hrun : IrqRun m₀ es ⟨sys, p⟩) (hin : p.source ≠ none) (hcall : ∀ nr, p ≠ .call nr) :
    IrqRun m₀ (es ++ [.access])
      ⟨{ sys with regs := (irqAccess sys.regs p).1 }, (irqAccess sys.regs p).2⟩ := by
  refine IrqRun.snoc _ _ _ es _ hrun (IrqStep.accessed ⟨sys, p⟩ ?_ hcall)
  rintro rfl
  exact hin rfl

theorem IrqRun.append (m₀ m m' : IrqMachine) (es es' : List IrqEvent) (hrun : IrqRun m₀ es m)
    (hrun' : IrqRun m es' m') : IrqRun m₀ (es ++ es') m' := by
  induction hrun' with
  | nil =>
      rw [List.append_nil]
      exact hrun
  | snoc m₁ m' es' e hrun' hstep ih =>
      rw [← List.append_assoc]
      exact IrqRun.snoc _ _ _ _ _ ih hstep

/-- With nothing in between, the accesses and the call are `irq_handler`. -/
theorem irqHandler_run (s s' : IrqSys) (des : IrqDes) (hpnd : s.regs.intpnd ≠ 0#32)
    (h : s.irqHandler = some (des, s')) :
    IrqRun ⟨s, .outside⟩ [.enter, .access, .access, .access, .access, .access, .access,
      .call s.regs.intoffset des] ⟨s', .outside⟩ := by
  have h₀ := IrqRun.snoc _ _ _ [] _ (IrqRun.nil ⟨s, .outside⟩)
    (IrqStep.entered ⟨s, .outside⟩ rfl hpnd)
  have h₁ := IrqRun.access _ _ _ _ h₀ (Option.some_ne_none _) (fun nr hc => by cases hc)
  have h₂ := IrqRun.access _ _ _ _ h₁ (Option.some_ne_none _) (fun nr hc => by cases hc)
  have h₃ := IrqRun.access _ _ _ _ h₂ (Option.some_ne_none _) (fun nr hc => by cases hc)
  have h₄ := IrqRun.access _ _ _ _ h₃ (Option.some_ne_none _) (fun nr hc => by cases hc)
  have h₅ := IrqRun.access _ _ _ _ h₄ (Option.some_ne_none _) (fun nr hc => by cases hc)
  have h₆ := IrqRun.access _ _ _ _ h₅ (Option.some_ne_none _) (fun nr hc => by cases hc)
  exact IrqRun.snoc _ _ _ _ _ h₆ (IrqStep.called _ _ des s' rfl h)

/-- The board before `arch_irq_init`, with nothing pending. -/
def quietSys : IrqSys :=
  ⟨fun _ => ⟨0, 0⟩, ⟨0#32, 0#32, 0#32, 0#32, 0, 0#32, 0#32⟩, false⟩

/-- The timer and the serial line have handlers and ask for service, and the controller hands
    the request of the timer on. -/
theorem quietSys_granted : ∃ sys : IrqSys,
    IrqRun ⟨(quietSys.archIrqInit 0x80010000).2, .outside⟩ [.register 14 0x80001000 0,
        .register 28 0x80002000 0, .raise 14, .raise 28, .grant 14] ⟨sys, .outside⟩ ∧
      sys.regs.intpnd = irqBit 14 ∧ sys.regs.intoffset = 14 ∧
      sys.regs.srcpnd = 0#32 ||| irqBit 14 ||| irqBit 28 ∧
      (sys.table 14).fn = 0x80001000 := by
  have h₁ := IrqRun.snoc _ _ _ [] _ (IrqRun.nil ⟨(quietSys.archIrqInit 0x80010000).2, .outside⟩)
    (IrqStep.registered _ 14 0x80001000 0 0 _ rfl rfl)
  have h₂ := IrqRun.snoc _ _ _ _ _ h₁ (IrqStep.registered _ 28 0x80002000 0 0 _ rfl rfl)
  have h₃ := IrqRun.snoc _ _ _ _ _ h₂ (IrqStep.raised _ 14 (by decide))
  have h₄ := IrqRun.snoc _ _ _ _ _ h₃ (IrqStep.raised _ 28 (by decide))
  have h₅ := IrqRun.snoc _ _ _ _ _ h₄ (IrqStep.granted _ 14 (by decide) rfl (by decide) (by decide))
  exact ⟨_, h₅, rfl, rfl, rfl, rfl⟩

/-- In every run since `arch_irq_init` each call is one of the first handler that had been
    registered for its source, there always is one, and no source gets more calls than it
    asked for. -/
theorem interrupt_dispatch (s : IrqSys) (tableBase : Nat) (m : IrqMachine) (es : List IrqEvent)
    (hbase : tableBase ≠ 0) (hlatched : s.regs.intpnd = 0#32)
    (hrun : IrqRun ⟨(s.archIrqInit tableBase).2, .outside⟩ es m) :
    (∀ before after nr des, es = before ++ .call nr des :: after →
      des = firstHandler before nr ∧ des.fn ≠ 0) ∧
      (∀ nr, m.phase = .call nr → ∃ sys, m.sys.doIrqHandler nr = some (firstHandler es nr, sys)) ∧
      ∀ n < irqBits, es.countP (IrqEvent.isCall n)
        ≤ es.countP (IrqEvent.isRaise n) + if s.regs.srcpnd.getLsbD n then 1 else 0 := by
  have h := archIrqInit_booted s tableBase hbase hlatched
  refine ⟨run_calls _ m es h hrun, fun nr hphase => run_callable _ m es nr h hrun hphase,
    fun n hn => ?_⟩
  have howed := run_owed _ m es n hn h hrun
  have hstart : owed ⟨(s.archIrqInit tableBase).2, .outside⟩ n
      = if s.regs.srcpnd.getLsbD n = true then 1 else 0 := by
    unfold owed IrqSys.archIrqInit
    rw [if_neg hbase]
    rfl
  rw [hstart] at howed
  omega

theorem interrupt_dispatch_timer : ∃ (before : List IrqEvent) (m : IrqMachine) (des : IrqDes),
    IrqRun ⟨(quietSys.archIrqInit 0x80010000).2, .outside⟩ (before ++ [.call 14 des]) m ∧
      des = firstHandler before 14 ∧ des.fn = 0x80001000 := by
  obtain ⟨sys, hrun, hpnd, hoffset, -, hfn⟩ := quietSys_granted
  obtain ⟨s', hhandler⟩ : ∃ s', sys.irqHandler = some (sys.table 14, s') := by
    unfold IrqSys.irqHandler IrqSys.doIrqHandler IrqRegs.platformGetIrqId
    rw [hoffset]
    refine ⟨_, if_neg ?_⟩
    rw [hfn]
    decide
  have hserved := irqHandler_run sys s' _ (by
    rw [hpnd]
    exact irqBit_ne_zero 14 (by decide)) hhandler
  rw [hoffset] at hserved
  have hall := IrqRun.append _ _ _ _ _ hrun hserved
  obtain ⟨hdes, -⟩ := (interrupt_dispatch quietSys 0x80010000 _ _ (by decide) rfl hall).1
    [.register 14 0x80001000 0, .register 28 0x80002000 0, .raise 14, .raise 28, .grant 14, .enter,
      .access, .access, .access, .access, .access, .access] [] 14 (sys.table 14) rfl
  exact ⟨_, _, _, hall, hdes, hfn⟩

/-- What is pending when `irq_handler` reads SRCPND and is not the source it serves is dropped:
    in every run from there on its handler is not called until a device asks again. -/
theorem pending_dropped (s : IrqSys) (tableBase : Nat) (m m₁ m' : IrqMachine)
    (es es' : List IrqEvent) (nr n : Nat) (v : BitVec 32) (hbase : tableBase ≠ 0)
    (hlatched : s.regs.intpnd = 0#32)
    (hrun : IrqRun ⟨(s.archIrqInit tableBase).2, .outside⟩ es m) (hphase : m.phase = .srcBack nr v)
    (hn : n < irqBits) (hne : n ≠ nr) (hpending : v.getLsbD n = true) (hstep : IrqStep m .access m₁)
    (hrun' : IrqRun m₁ es' m') (hraise : ∀ e ∈ es', e.isRaise n = false) :
    ∀ e ∈ es', e.isCall n = false := by
  have h := archIrqInit_booted s tableBase hbase hlatched
  rcases run_wired _ m es h hrun with ⟨hwired, -⟩
  have hheld := hwired.holding nr (by rw [hphase]; rfl) (by
    rw [hphase]
    simp only [ne_eq, reduceCtorEq, not_false_eq_true])
  have hlt := (hwired.serving nr (by rw [hphase]; rfl)).1
  have hquiet : Quiet n m₁ := by
    cases hstep with
    | accessed hin hcall =>
        obtain ⟨sys, phase⟩ := m
        have hphase' : phase = .srcBack nr v := hphase
        subst hphase'
        refine ⟨?_, fun hc => ?_, fun hc => hne (Option.some.inj hc).symm⟩
        · show (sys.regs.srcpnd &&& ~~~v).getLsbD n = false
          rw [BitVec.getLsbD_and, BitVec.getLsbD_not, hpending, Bool.not_true, Bool.and_false,
            Bool.and_false]
        · have hc' : sys.regs.intpnd = irqBit n := hc
          exact hne (irqBit_inj nr n hlt (hheld.symm.trans hc')).symm
  exact (run_quiet _ m₁ m' _ es' n hn h (IrqRun.snoc _ _ _ _ _ hrun hstep) hquiet hrun'
    hraise).2.2.2

theorem pending_dropped_uart : ∃ (m m₁ m' : IrqMachine) (es es' : List IrqEvent) (v : BitVec 32),
    IrqRun ⟨(quietSys.archIrqInit 0x80010000).2, .outside⟩ es m ∧ m.phase = .srcBack 14 v ∧
      v.getLsbD 28 = true ∧ IrqStep m .access m₁ ∧ IrqRun m₁ es' m' ∧ m'.phase = .call 14 ∧
      ∀ e ∈ es', e.isCall 28 = false := by
  obtain ⟨sys, hrun, hpnd, hoffset, hsrc, -⟩ := quietSys_granted
  have hbit : sys.regs.srcpnd.getLsbD 28 = true := by
    rw [hsrc]
    decide
  have h₀ := IrqRun.snoc _ _ _ _ _ hrun (IrqStep.entered ⟨sys, .outside⟩ rfl (by
    rw [hpnd]
    exact irqBit_ne_zero 14 (by decide)))
  have h₁ := IrqRun.access _ _ _ _ h₀ (Option.some_ne_none _) (fun nr hc => by cases hc)
  have h₂ := IrqRun.access _ _ _ _ h₁ (Option.some_ne_none _) (fun nr hc => by cases hc)
  have h₃ := IrqRun.access _ _ _ _ h₂ (Option.some_ne_none _) (fun nr hc => by cases hc)
  obtain ⟨sys₃, es, hread⟩ : ∃ sys₃ es, IrqRun ⟨(quietSys.archIrqInit 0x80010000).2, .outside⟩ es
      ⟨sys₃, .srcBack 14 sys.regs.srcpnd⟩ := by
    rw [← hoffset]
    exact ⟨_, _, h₃⟩
  have hstep : IrqStep ⟨sys₃, .srcBack 14 sys.regs.srcpnd⟩ .access
      ⟨{ sys₃ with regs := sys₃.regs.clearSrcpnd sys.regs.srcpnd }, .pnd 14⟩ :=
    IrqStep.accessed _ IrqPhase.noConfusion (fun nr hc => by cases hc)
  have h₄ := IrqRun.access _ [] _ _ (IrqRun.nil
    ⟨{ sys₃ with regs := sys₃.regs.clearSrcpnd sys.regs.srcpnd }, .pnd 14⟩)
    (Option.some_ne_none _) (fun nr hc => by cases hc)
  have h₅ := IrqRun.access _ _ _ _ h₄ (Option.some_ne_none _) (fun nr hc => by cases hc)
  refine ⟨_, _, _, es, _, _, hread, rfl, hbit, hstep, h₅, rfl, ?_⟩
  refine pending_dropped quietSys 0x80010000 _ _ _ es _ 14 28 _ (by decide) rfl hread rfl
    (by decide) (by decide) hbit hstep h₅ (fun e he => ?_)
  rcases List.mem_append.mp he with he | he
  · rw [List.mem_singleton.mp he]
    rfl
  · rw [List.mem_singleton.mp he]
    rfl

end Mirros
