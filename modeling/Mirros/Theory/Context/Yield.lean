import Mirros.Theory.Context.Turn

/-!
# Giving the Processor Away

What `arch_switch_task_sw` does for a task that calls `sched`: its context is pushed on its
stack with the address of the caller, the next task becomes the current one, and its context is
put back, whether it was saved here or in an interrupt.

## Main definitions

* `yieldContext`: The context of a task that gives the processor away.
* `Yielded`, `Handy`: The stack and the registers on the way.

## Theorems

* `archSwitchTaskSw_saves`, `archSwitchTaskSw_loads`: The two halves.
* `svc_resumes`: The way out of the kernel that does not come from an interrupt.
* `yield_leaves`: The processor is with the next task.
-/

namespace Mirros

open Modes

/-- The context a task has when it gives the processor away: it goes on where
    `arch_switch_task_sw` was called. -/
def yieldContext (s : State) : Context :=
  { contextOf s with pc := s.cpu.get .lr }

/-- The context is on the stack, and the two tasks are known. -/
structure Yielded (x : Symbols) (s : State) (t : Cpu) (base : Word) : Prop where
  control : t.cpsr.control = s.cpu.cpsr.control
  svcSp : t.reg (.svc, .sp) = base
  irqSp : t.reg (.irq, .sp) = s.cpu.reg (.irq, .sp)
  framed : Framed t.mem base (yieldContext s)
  r0 : t.reg (.user, .r0) = t.mem x.current
  r1 : t.reg (.user, .r1) = t.mem x.nextRun
  same : SameOff (In base 72) s.cpu.mem t.mem

/-- The registers of the mode of the next task. -/
structure Handy (u t : Cpu) (base : Word) (c : Context) : Prop where
  bank : t.cpsr.bank = .svc
  svcSp : t.reg (.svc, .sp) = base
  r1 : t.reg (.user, .r1) = u.reg (.user, .r1)
  irqSp : t.reg (.irq, .sp) = u.reg (.irq, .sp)
  userSp : c.psr.mode = userModeBits → t.reg (.user, .sp) = c.sp
  own : t.reg (c.psr.bank, .lr) = c.lr
  mem : t.mem = u.mem

theorem swSwitchToUser_runs (u : Cpu) (base : Word) (c : Context) (hal : Aligned base)
    (hr0 : u.reg (.user, .r0) = base) (hsp : u.reg (.svc, .sp) = base)
    (hframed : Framed u.mem base c) (hmode : c.psr.mode = userModeBits) :
    ∃ t, execAll (some u) (swSwitchToUserCode.take 6) = some t ∧ Handy u t base c ∧
      t.reg (.svc, .lr) = u.reg (.svc, .lr) := by
  obtain ⟨t, ht⟩ : ∃ t, execAll (some u) (swSwitchToUserCode.take 6) = some t := by
    simp [swSwitchToUserCode, execAll, exec, Cpu.get, Cpu.set, slot, hr0, aligned_add, hal]
  refine ⟨t, ht, ?_⟩
  simp [swSwitchToUserCode, execAll, exec, Cpu.get, Cpu.set, slot, hr0, aligned_add, hal] at ht
  have hbank : c.psr.bank = .user := congrArg bankOf hmode
  have hsp' : u.mem (base + 60#32) = c.sp := by
    rcases hframed.mode with ⟨-, h⟩ | ⟨h, -⟩
    · exact h
    · rw [hmode] at h
      exact absurd h (by decide)
  subst ht
  refine ⟨?_, by simp⟩
  constructor
  case svcSp => simp [hsp]
  case userSp => intro _; simp [hsp']
  case own => simp [hbank, hframed.lr]
  all_goals simp

theorem swSwitchToSvc_runs (u : Cpu) (base : Word) (c : Context) (hal : Aligned base)
    (hbank : u.cpsr.bank = .svc) (hr0 : u.reg (.user, .r0) = base)
    (hsp : u.reg (.svc, .sp) = base)
    (hframed : Framed u.mem base c) (hmode : c.psr.mode = svcModeBits) :
    ∃ t, execAll (some u) (swSwitchToSvcCode.take 5) = some t ∧ Handy u t base c ∧
      t.reg (.user, .r3) = u.reg (.svc, .lr) := by
  obtain ⟨t, ht⟩ : ∃ t, execAll (some u) (swSwitchToSvcCode.take 5) = some t := by
    simp [swSwitchToSvcCode, execAll, exec, Cpu.get, Cpu.set, slot, hbank, hr0, aligned_add, hal]
  refine ⟨t, ht, ?_⟩
  simp [swSwitchToSvcCode, execAll, exec, Cpu.get, Cpu.set, slot, hbank, hr0, aligned_add,
    hal] at ht
  have hbank' : c.psr.bank = .svc := congrArg bankOf hmode
  subst ht
  refine ⟨?_, by simp⟩
  constructor
  case bank => simp [hbank]
  case svcSp => simp [hsp]
  case userSp =>
    intro h
    rw [hmode] at h
    exact absurd h (by decide)
  case own => simp [hbank', hframed.lr]
  all_goals simp

section

variable (x : Symbols) (call : Word → Option (Cpu → Cpu))
  (apart : ∀ i < (entryCode x).length, call (x.loc i) = none)

theorem archSwitchTaskSw_saves (s : State) (base : Word) (hx : x.Linked)
    (hmode : s.cpu.cpsr.mode = svcModeBits) (hal : Aligned base)
    (hsp : s.cpu.reg (.svc, .sp) = base + 72#32) :
    ∃ t, Reaches (x.program call apart) ⟨s.cpu, x.loc archSwitchTaskSw⟩ ⟨t, x.loc 116⟩ ∧
      Yielded x s t base := by
  obtain ⟨-, -, -, -, -, -, hsw, -⟩ := at_routines x call apart
  have hbank : s.cpu.cpsr.bank = .svc := congrArg bankOf hmode
  have hcurrent := hx.current
  have hnext := hx.nextRun
  obtain ⟨t, ht⟩ : ∃ t, execAll (some s.cpu) ((archSwitchTaskSwCode x).take 14) = some t := by
    simp [archSwitchTaskSwCode, execAll, exec, Cpu.get, Cpu.set, slot, hbank, hsp, hcurrent, hnext,
      aligned_add, hal, add_add_lit, add_sub_lit, spanOf, storeMany, lows]
  have hin := part_runs archSwitchTaskSw 0 102 116 _ _ s.cpu t hsw rfl rfl (List.take_prefix 14 _)
    ht
  refine ⟨t, hin, ?_⟩
  simp [archSwitchTaskSwCode, execAll, exec, Cpu.get, Cpu.set, slot, hbank, hsp, hcurrent, hnext,
      aligned_add, hal, add_add_lit, add_sub_lit, spanOf, storeMany, lows] at ht
  subst ht
  constructor
  case framed =>
    have hsvc : (yieldContext s).sp = (yieldContext s).top := by
      simp [yieldContext, contextOf, Cpu.get, slot, hbank]
    -- The word of the stack pointer is one that nothing reads.
    refine (framed_of_words _ base (s.cpu.spsr .svc).word (base - ptRegsSize) _ rfl ?_ hsp
      (Or.inr ⟨hmode, hsvc⟩)).1
    simp [loadWords, add_add_lit, yieldContext, contextOf, lows, Cpu.get, slot, hbank]
  case same =>
    intro a ha
    have hmiss : ∀ c : Word, c.toNat < 72 → a ≠ base + c := fun c hc => ne_add base a c 72 ha hc
    have hmiss₀ := hmiss 0#32 (by decide)
    rw [BitVec.add_zero] at hmiss₀
    simp [hmiss, hmiss₀]
  all_goals simp

/-- The next task is the current one, and its context is looked at. -/
theorem archSwitchTaskSw_loads (u : Cpu) (base b : Word) (c : Context) (hx : x.Linked)
    (hbank : u.cpsr.bank = .svc) (hsp : u.reg (.svc, .sp) = base)
    (hcur : Aligned (u.mem x.current)) (hn : Aligned (u.mem x.nextRun))
    (hother : x.nextRun ≠ u.mem x.current)
    (hb : Function.update (Function.update u.mem (u.mem x.current) base) x.current
      (u.mem x.nextRun) (u.mem x.nextRun) = b) (hal : Aligned b)
    (hframed : Framed (Function.update (Function.update u.mem (u.mem x.current) base) x.current
      (u.mem x.nextRun)) b c) :
    ∃ t, Reaches (x.program call apart) ⟨u, x.loc 117⟩ ⟨t, x.loc 127⟩ ∧
      t.cpsr = u.cpsr ∧ t.reg (.svc, .sp) = b ∧ t.reg (.irq, .sp) = u.reg (.irq, .sp) ∧
      t.reg (.user, .r0) = b ∧ t.reg (.user, .r1) = c.psr.word &&& modeMask ∧
      t.mem = Function.update (Function.update u.mem (u.mem x.current) base) x.current
        (u.mem x.nextRun) := by
  obtain ⟨-, -, -, -, -, -, hsw, -⟩ := at_routines x call apart
  have hcurrent := hx.current
  have hnext := hx.nextRun
  have hpsr := hframed.psr
  obtain ⟨v, hv⟩ : ∃ v, execAll (some u) (((archSwitchTaskSwCode x).drop 15).take 6) =
      some v := by
    simp [archSwitchTaskSwCode, execAll, exec, Cpu.get, Cpu.set, slot, hbank, hcurrent, hnext, hcur]
  have hgo := part_runs archSwitchTaskSw 15 117 123 _ _ u v hsw rfl rfl (List.take_prefix 6 _) hv
  simp [archSwitchTaskSwCode, execAll, exec, Cpu.get, Cpu.set, slot, hbank, hcurrent, hnext, hcur,
    hsp, hother] at hv
  obtain ⟨m, hm⟩ : ∃ m, m = Function.update (Function.update u.mem (u.mem x.current) base)
    x.current (u.mem x.nextRun) := ⟨_, rfl⟩
  rw [← hm] at hb hpsr hv ⊢
  obtain ⟨t, ht⟩ : ∃ t, execAll (some v) (((archSwitchTaskSwCode x).drop 21).take 4) =
      some t := by
    rw [← hv]
    simp [archSwitchTaskSwCode, execAll, exec, Cpu.get, Cpu.set, slot, hbank, hn, hb, aligned_add,
      hal]
  have hin := part_runs archSwitchTaskSw 21 123 127 _ _ v t hsw rfl rfl (List.take_prefix 4 _) ht
  rw [← hv] at ht
  simp [archSwitchTaskSwCode, execAll, exec, Cpu.get, Cpu.set, slot, hbank, hn, hb, aligned_add,
    hal, hpsr] at ht
  refine ⟨t, hgo.trans hin, ?_, ?_, ?_, ?_, ?_, ?_⟩ <;> rw [← ht] <;> simp

theorem handy_user (u : Cpu) (base : Word) (c : Context) (hal : Aligned base)
    (hbank : u.cpsr.bank = .svc) (hr0 : u.reg (.user, .r0) = base)
    (hsp : u.reg (.svc, .sp) = base) (hr1 : u.reg (.user, .r1) = userModeBits.setWidth 32)
    (hframed : Framed u.mem base c) (hmode : c.psr.mode = userModeBits) :
    ∃ t, Reaches (x.program call apart) ⟨u, x.loc 127⟩ ⟨t, x.loc 131⟩ ∧ Handy u t base c := by
  obtain ⟨-, -, -, -, -, -, hsw, huser, -⟩ := at_routines x call apart
  have hsame : decide (u.get .r1 = userModeBits.setWidth 32) = true := decide_eq_true hr1
  obtain ⟨v, hcmp, hzero, hflags⟩ := cmp_runs archSwitchTaskSw 25 127 .r1 _ _ u true hsw rfl rfl
    hsame
  have hbankv : v.cpsr.bank = .svc := (bank_of_control u v hflags.control).trans hbank
  have hgo := bleq_runs archSwitchTaskSw 26 128 swSwitchToUser _ v hsw rfl rfl hzero
  rw [hbankv] at hgo
  have hstack : ∀ k : Bank × Reg, k ≠ (.svc, .lr) →
      (v.setReg (.svc, .lr) (x.loc 129)).reg k = u.reg k := by
    intro k hk
    rw [Cpu.setReg_ne _ _ _ _ hk, hflags.reg]
  have hframedv : Framed (v.setReg (.svc, .lr) (x.loc 129)).mem base c := by
    rw [Cpu.setReg_mem, hflags.mem]
    exact hframed
  obtain ⟨w, hw, hhandy, hlr⟩ := swSwitchToUser_runs (v.setReg (.svc, .lr) (x.loc 129)) base c hal
    ((hstack _ (by decide)).trans hr0) ((hstack _ (by decide)).trans hsp) hframedv hmode
  have hin := part_runs swSwitchToUser 0 136 142 _ _ _ w huser rfl rfl (List.take_prefix 6 _) hw
  have hback : w.get .lr = x.loc 129 := by
    simp [Cpu.get, slot, hhandy.bank, hlr]
  have hout := return_runs swSwitchToUser 6 142 (x.loc 129) .lr _ w huser rfl rfl hback
  have hr1w : w.reg (.user, .r1) = userModeBits.setWidth 32 := by
    rw [hhandy.r1, hstack _ (by decide), hr1]
  have hother : decide (w.get .r1 = svcModeBits.setWidth 32) = false := by
    rw [show w.get .r1 = userModeBits.setWidth 32 from hr1w]
    decide
  obtain ⟨t, hcmp', hzero', hflags'⟩ := cmp_runs archSwitchTaskSw 27 129 .r1 _ _ w false hsw rfl
    rfl hother
  have hnot := skip_runs archSwitchTaskSw 28 130 swSwitchToSvc _ t hsw rfl rfl hzero'
  refine ⟨t, hcmp.trans (hgo.trans (hin.trans (hout.trans (hcmp'.trans hnot)))), ?_⟩
  constructor
  case bank => exact (bank_of_control w t hflags'.control).trans hhandy.bank
  case svcSp => rw [hflags'.reg, hhandy.svcSp]
  case r1 => rw [hflags'.reg, hhandy.r1, hstack _ (by decide)]
  case irqSp => rw [hflags'.reg, hhandy.irqSp, hstack _ (by decide)]
  case userSp => rw [hflags'.reg]; exact hhandy.userSp
  case own => rw [hflags'.reg, hhandy.own]
  case mem => rw [hflags'.mem, hhandy.mem, Cpu.setReg_mem, hflags.mem]

theorem handy_svc (u : Cpu) (base : Word) (c : Context) (hal : Aligned base)
    (hbank : u.cpsr.bank = .svc) (hr0 : u.reg (.user, .r0) = base)
    (hsp : u.reg (.svc, .sp) = base) (hr1 : u.reg (.user, .r1) = svcModeBits.setWidth 32)
    (hframed : Framed u.mem base c) (hmode : c.psr.mode = svcModeBits) :
    ∃ t, Reaches (x.program call apart) ⟨u, x.loc 127⟩ ⟨t, x.loc 131⟩ ∧ Handy u t base c := by
  obtain ⟨-, -, -, -, -, -, hsw, -, hsvc, -⟩ := at_routines x call apart
  have hother : decide (u.get .r1 = userModeBits.setWidth 32) = false := by
    rw [show u.get .r1 = svcModeBits.setWidth 32 from hr1]
    decide
  obtain ⟨v, hcmp, hzero, hflags⟩ := cmp_runs archSwitchTaskSw 25 127 .r1 _ _ u false hsw rfl rfl
    hother
  have hnot := skip_runs archSwitchTaskSw 26 128 swSwitchToUser _ v hsw rfl rfl hzero
  have hr1v : v.reg (.user, .r1) = svcModeBits.setWidth 32 := by rw [hflags.reg, hr1]
  have hsame : decide (v.get .r1 = svcModeBits.setWidth 32) = true := decide_eq_true hr1v
  obtain ⟨w, hcmp', hzero', hflags'⟩ := cmp_runs archSwitchTaskSw 27 129 .r1 _ _ v true hsw rfl
    rfl hsame
  have hbankw : w.cpsr.bank = .svc := (bank_of_control v w hflags'.control).trans
    ((bank_of_control u v hflags.control).trans hbank)
  have hgo := bleq_runs archSwitchTaskSw 28 130 swSwitchToSvc _ w hsw rfl rfl hzero'
  rw [hbankw] at hgo
  have hstack : ∀ k : Bank × Reg, k ≠ (.svc, .lr) →
      (w.setReg (.svc, .lr) (x.loc 131)).reg k = u.reg k := by
    intro k hk
    rw [Cpu.setReg_ne _ _ _ _ hk, hflags'.reg, hflags.reg]
  have hframedw : Framed (w.setReg (.svc, .lr) (x.loc 131)).mem base c := by
    rw [Cpu.setReg_mem, hflags'.mem, hflags.mem]
    exact hframed
  obtain ⟨t, ht, hhandy, hr3⟩ := swSwitchToSvc_runs (w.setReg (.svc, .lr) (x.loc 131)) base c hal
    hbankw ((hstack _ (by decide)).trans hr0) ((hstack _ (by decide)).trans hsp) hframedw hmode
  have hin := part_runs swSwitchToSvc 0 143 148 _ _ _ t hsvc rfl rfl (List.take_prefix 5 _) ht
  have hback : t.get .r3 = x.loc 131 := hr3.trans (Cpu.setReg_self ..)
  have hout := return_runs swSwitchToSvc 5 148 (x.loc 131) .r3 _ t hsvc rfl rfl hback
  refine ⟨t, hcmp.trans (hnot.trans (hcmp'.trans (hgo.trans (hin.trans hout)))), ?_⟩
  constructor
  case bank => exact hhandy.bank
  case svcSp => exact hhandy.svcSp
  case r1 => rw [hhandy.r1, hstack _ (by decide)]
  case irqSp => rw [hhandy.irqSp, hstack _ (by decide)]
  case userSp => exact hhandy.userSp
  case own => exact hhandy.own
  case mem => rw [hhandy.mem, Cpu.setReg_mem, hflags'.mem, hflags.mem]

/-- The last instructions of both ways out of the kernel that do not come from an interrupt. -/
def svcRestore : List Instr :=
  [.ldr .r1 .sp 64, .msrSpsr .r1, .ldmia .sp lows, .addImm .sp .sp 16, .ldmPc .sp]

theorem svcRestore_runs (u : Cpu) (base : Word) (c : Context) (hal : Aligned base)
    (hbank : u.cpsr.bank = .svc) (hsp : u.reg (.svc, .sp) = base)
    (hframed : Framed u.mem base c) :
    ∃ t, execAll (some u) (svcRestore.take 4) = some t ∧ t.cpsr = u.cpsr ∧ t.mem = u.mem ∧
      t.spsr .svc = c.psr ∧ lows.map (fun r => t.reg (.user, r)) = c.low ∧
      t.reg (.svc, .sp) = base + 68#32 ∧
      ∀ k, k.2 = .sp ∨ k.2 = .lr → k ≠ (.svc, .sp) → t.reg k = u.reg k := by
  obtain ⟨v, hv⟩ : ∃ v, v = (u.setReg (.user, .r1) c.psr.word).setSpsr .svc c.psr := ⟨_, rfl⟩
  have hbankv : v.cpsr.bank = .svc := by rw [hv]; exact hbank
  obtain ⟨hlow, hstack, hcpsr, hspsr, hmem⟩ := loadMany_lows v base
  have hbankm : (loadMany v base lows).cpsr.bank = .svc := by rw [hcpsr]; exact hbankv
  have hexec : execAll (some u) (svcRestore.take 4) =
      some ((loadMany v base lows).setReg (.svc, .sp) (base + 68#32)) := by
    simp [svcRestore, execAll, exec, Cpu.get, Cpu.set, slot, hsp, aligned_add, hal, hbank,
      hframed.psr]
    rw [← hv, hbankm, Cpu.setReg_setReg, show spanOf lows = 52#32 from rfl, add_add_lit]
    rfl
  refine ⟨_, hexec, ?_⟩
  have hmemv : v.mem = u.mem := by rw [hv]; rfl
  rw [hmemv] at hlow hmem
  refine ⟨?_, hmem, ?_, ?_, Cpu.setReg_self .., ?_⟩
  · rw [Cpu.setReg_cpsr, hcpsr, hv]
    rfl
  · rw [Cpu.setReg_spsr, hspsr, hv, Cpu.setSpsr_self]
  · rw [← hframed.low, ← hlow]
    exact List.map_congr_left fun r _ => Cpu.setReg_ne _ _ _ _ (by simp)
  · intro k hk hne
    rw [Cpu.setReg_ne _ _ _ _ hne, hstack k hk, hv, Cpu.setSpsr_reg, Cpu.setReg_ne]
    rintro rfl
    exact absurd hk (by decide)

theorem svc_resumes (l : Nat) (is : List Instr) (j : Nat)
    (hat : (x.program call apart).At l is) (hlast : is.drop j = svcRestore) (u v : Cpu)
    (base : Word) (c : Context) (hal : Aligned base) (hframed : Framed u.mem base c)
    (hhandy : Handy v u base c) :
    ∃ s, Leaves (x.program call apart) ⟨u, x.loc (l + j)⟩ s ∧ contextOf s = c ∧
      s.cpu.mem = u.mem ∧ s.cpu.reg (.irq, .sp) = u.reg (.irq, .sp) := by
  obtain ⟨t, ht, htc, htm, htspsr, htlow, htsp, htk⟩ :=
    svcRestore_runs u base c hal hhandy.bank hhandy.svcSp hframed
  have hgo := part_runs l j (l + j) (l + j + 4) is (svcRestore.take 4) u t hat rfl rfl
    (by rw [hlast]; exact List.take_prefix 4 _) ht
  have hbankt : t.cpsr.bank = .svc := by rw [htc]; exact hhandy.bank
  have hget : t.get .sp = base + 68#32 := by
    simp [Cpu.get, slot, hbankt, htsp]
  have hins : is[j + 4]? = some (.ldmPc .sp) := by
    rw [← List.getElem?_drop, hlast]
    rfl
  have hleave := leaves_runs l (j + 4) (l + j + 4) .sp (base + 68#32) is _ t hat
    (Nat.add_assoc l j 4).symm hins hgo (by rw [hbankt]; decide) hget
    ((aligned_add base _ (by decide)).mpr hal)
  refine ⟨_, hleave, ?_⟩
  have hset : t.set .sp (base + 68#32 + 4) = t.setReg (.svc, .sp) (base + 72#32) := by
    unfold Cpu.set
    rw [hbankt, add_add_lit]
    rfl
  rw [hbankt, htspsr, htm, hframed.pc, hset]
  have hstack : ∀ k : Bank × Reg, k.2 = .sp ∨ k.2 = .lr → k ≠ (.svc, .sp) →
      (t.setReg (.svc, .sp) (base + 72#32)).reg k = u.reg k := by
    intro k hk hne
    rw [Cpu.setReg_ne _ _ _ _ hne, htk k hk hne]
  refine ⟨?_, ?_, hstack (.irq, .sp) (Or.inl rfl) (by decide)⟩
  · have hlow : lows.map ((t.setReg (.svc, .sp) (base + 72#32)).setPsr c.psr).get = c.low := by
      rw [map_get_lows, Cpu.setPsr_reg, ← htlow]
      exact List.map_congr_left fun r _ => Cpu.setReg_ne _ _ _ _ (by simp)
    have hsp : ((t.setReg (.svc, .sp) (base + 72#32)).setPsr c.psr).get .sp = c.sp := by
      rcases hframed.mode with ⟨hm, -⟩ | ⟨hm, hsp⟩
      · have hbank : c.psr.bank = .user := congrArg bankOf hm
        have hget' := (hstack (.user, .sp) (Or.inl rfl) (by decide)).trans (hhandy.userSp hm)
        simpa [Cpu.get, slot, hbank] using hget'
      · have hbank : c.psr.bank = .svc := congrArg bankOf hm
        simp [Cpu.get, slot, hbank, hsp, hframed.top]
    have hlr : ((t.setReg (.svc, .sp) (base + 72#32)).setPsr c.psr).get .lr = c.lr :=
      (hstack (c.psr.bank, .lr) (Or.inr rfl) (by simp)).trans hhandy.own
    have htop : ((t.setReg (.svc, .sp) (base + 72#32)).setPsr c.psr).reg (.svc, .sp) = c.top := by
      rw [Cpu.setPsr_reg, Cpu.setReg_self, hframed.top]
    unfold contextOf
    rw [hlow, hsp, hlr, htop]
    rfl
  · rw [Cpu.setPsr_mem, Cpu.setReg_mem, htm]

end

section

variable (x : Symbols) (hx : x.Linked) (keep : Word → Prop) (low base n : Word)
  (h w : Cpu → Cpu)

/-- The processor was given away: it is with the next task, in the context that it had. The
    task that has called is in the one of its return. -/
theorem yield_leaves (s : State) (c : Context) (hpc : s.pc = x.loc archSwitchTaskSw)
    (hroom : Room s.cpu low base) (hmode : s.cpu.cpsr.mode = svcModeBits)
    (hclear : Clear x keep s.cpu.mem low base n) (hnext : s.cpu.mem x.nextRun = n)
    (hroom' : ¬In base 72 x.nextRun) (hw : Switches x keep low w)
    (hstay : n = s.cpu.mem x.current → c = yieldContext s)
    (hgo : n ≠ s.cpu.mem x.current → Framed s.cpu.mem (s.cpu.mem n) c ∧
      Aligned (s.cpu.mem n) ∧ ∀ a, In (s.cpu.mem n) 72 a →
        keep a ∧ ¬In base 72 a ∧ ¬In low 28 a ∧ a ≠ s.cpu.mem x.current ∧ a ≠ x.current) :
    ∃ s', Leaves (x.kernel hx h w) s s' ∧ contextOf s' = c ∧
      s'.cpu.reg (.irq, .sp) = low + 28#32 ∧
      Handed x keep s.cpu.mem s'.cpu.mem low base n (yieldContext s) := by
  obtain ⟨-, -, -, -, -, -, hsw, -⟩ := at_routines x (x.calls h w) (hx.apart h w)
  obtain ⟨u, hgo₁, hyield⟩ := archSwitchTaskSw_saves x (x.calls h w) (hx.apart h w) s base hx hmode
    hroom.baseAligned hroom.svcSp
  have hbank : u.cpsr.bank = .svc :=
    (bank_of_control s.cpu u hyield.control).trans (congrArg bankOf hmode)
  have hcall := bl_runs archSwitchTaskSw 14 116 x.switchTask _ u hsw rfl rfl
  rw [hbank] at hcall
  obtain ⟨v, hv⟩ : ∃ v, v = u.setReg (.svc, .lr) (x.loc 117) := ⟨_, rfl⟩
  have hrun := reaches_call (x.kernel hx h w) v x.switchTask w (hx.calls_switchTask h w)
  have hback : v.get .lr = x.loc 117 := by
    rw [hv]
    simp [Cpu.get, slot, hbank]
  rw [hback] at hrun
  have hret := hw v
  have hvm : v.mem = u.mem := by rw [hv]; rfl
  -- What is known of the memory then.
  have hmem : ∀ a, keep a → (w v).mem a = u.mem a := by
    intro a ha
    rw [hret.mem a (Or.inl ha), hvm]
  have hcur : (w v).mem x.current = s.cpu.mem x.current := by
    rw [hmem _ hclear.keepCurrent, hyield.same _ hclear.current.1]
  have hn : (w v).mem x.nextRun = n := by
    rw [hret.mem _ (Or.inr (Or.inl rfl)), hvm, hyield.same _ hroom', hnext]
  obtain ⟨m, hm⟩ : ∃ m, m = Function.update (Function.update (w v).mem (s.cpu.mem x.current) base)
    x.current n := ⟨_, rfl⟩
  have hplain : ∀ a, keep a → a ≠ s.cpu.mem x.current → a ≠ x.current → m a = u.mem a := by
    intro a ha hne hne'
    rw [hm, Function.update_of_ne hne', Function.update_of_ne hne, hmem a ha]
  have hhanded : Handed x keep s.cpu.mem m low base n (yieldContext s) := by
    constructor
    case current => rw [hm, Function.update_self]
    case framed =>
      exact hyield.framed.congr fun a ha => hplain a (hclear.keepRoom a ha)
        (in_ne ha hclear.task.1) (in_ne ha hclear.current.1)
    case saved =>
      intro _
      rw [hm, Function.update_of_ne hclear.other.1, Function.update_self]
    case same =>
      intro a ha hbase _ hne hne'
      rw [hplain a ha hne hne', hyield.same a hbase]
  obtain ⟨b, hb, hal, hframed⟩ : ∃ b, m n = b ∧ Aligned b ∧ Framed m b c := by
    by_cases hne : n = s.cpu.mem x.current
    · refine ⟨base, ?_, hroom.baseAligned, (hstay hne).symm ▸ hhanded.framed⟩
      rw [hm, Function.update_of_ne hclear.other.2, hne, Function.update_self]
    · obtain ⟨hframed, hal, hwords⟩ := hgo hne
      refine ⟨s.cpu.mem n, ?_, hal, hframed.congr fun a ha => ?_⟩
      · exact hhanded.same n hclear.keepNext hclear.next.1 hclear.next.2 hne hclear.other.2
      · obtain ⟨hkeep, hbase, hlow, hne, hne'⟩ := hwords a ha
        exact hhanded.same a hkeep hbase hlow hne hne'
  have hbank' : (w v).cpsr.bank = .svc := by
    rw [bank_of_control v (w v) hret.control, hv]
    exact hbank
  have hsvc : (w v).reg (.svc, .sp) = base := by
    rw [hret.svcSp, hv, Cpu.setReg_ne _ _ _ _ (by decide), hyield.svcSp]
  have hirq : (w v).reg (.irq, .sp) = low + 28#32 := by
    rw [hret.irqSp, hv, Cpu.setReg_ne _ _ _ _ (by decide), hyield.irqSp, hroom.irqSp]
  obtain ⟨t, ht, htc, htsp, htirq, ht0, ht1, htm⟩ := archSwitchTaskSw_loads x (x.calls h w)
    (hx.apart h w) (w v) base b c hx hbank' hsvc (by rw [hcur]; exact hclear.alignedTask)
    (by rw [hn]; exact hclear.alignedNext) (by rw [hcur]; exact hclear.nextRun.2)
    (by rw [hcur, hn, ← hm, hb]) hal (by rw [hcur, hn, ← hm]; exact hframed)
  rw [hcur, hn, ← hm] at htm
  have hbankt : t.cpsr.bank = .svc := by rw [htc]; exact hbank'
  have hframedt : Framed t.mem b c := htm ▸ hframed
  have hmask : ∀ mode, c.psr.mode = mode → t.reg (.user, .r1) = mode.setWidth 32 := by
    intro mode hmode
    rw [ht1]
    exact (Psr.word_mode _ mode).mpr hmode
  obtain ⟨r, hr, hhandy⟩ : ∃ r, Reaches (x.kernel hx h w) ⟨t, x.loc 127⟩ ⟨r, x.loc 131⟩ ∧
      Handy t r b c := by
    rcases hframed.mode with ⟨hmode, -⟩ | ⟨hmode, -⟩
    · exact handy_user x (x.calls h w) (hx.apart h w) t b c hal hbankt ht0 htsp (hmask _ hmode)
        hframedt hmode
    · exact handy_svc x (x.calls h w) (hx.apart h w) t b c hal hbankt ht0 htsp (hmask _ hmode)
        hframedt hmode
  have hframedr : Framed r.mem b c := hhandy.mem ▸ hframedt
  obtain ⟨s', hleaves, hcontext, hmem', hirq'⟩ := svc_resumes x (x.calls h w) (hx.apart h w)
    archSwitchTaskSw _ 29 hsw rfl r t b c hal hframedr hhandy
  refine ⟨s', ?_, hcontext, ?_, ?_⟩
  · have hstart : s = ⟨s.cpu, x.loc archSwitchTaskSw⟩ := by rw [← hpc]
    rw [← hv] at hcall
    rw [hstart]
    exact hleaves.of_reaches (hgo₁.trans (hcall.trans (hrun.trans (ht.trans hr))))
  · rw [hirq', hhandy.irqSp, htirq, hirq]
  · rw [hmem', hhandy.mem, htm]
    exact hhanded

end

end Mirros
