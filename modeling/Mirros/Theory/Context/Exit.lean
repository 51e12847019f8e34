import Mirros.Theory.Context.Frame

/-!
# Out of an Interrupt

What follows `os_exit_irq`: the context at `r0` is put back into the registers, those of the mode
first, and the processor leaves for the instruction in it.

## Main definitions

* `Given`, `Ready`: The registers of the mode, and the stack pointers.
* `Resumed`: The processor is back in a context.

## Theorems

* `irqMode_runs`, `irqRestore_runs`: The parts of the way back.
* `ready_user`, `ready_svc`: The two modes.
* `irq_resumes`: All of it.
-/

namespace Mirros

open Modes

/-- The registers of the mode to go back to. -/
structure Given (u t : Cpu) (c : Context) : Prop where
  cpsr : t.cpsr = ⟨u.cpsr.flags, irqModeBits ||| noInt⟩
  r0 : t.reg (.user, .r0) = u.reg (.user, .r0)
  r1 : t.reg (.user, .r1) = u.reg (.user, .r1)
  lr : t.reg (.irq, .lr) = u.reg (.irq, .lr)
  irqSp : t.reg (.irq, .sp) = u.reg (.irq, .sp)
  sp : t.reg (c.psr.bank, .sp) = c.sp
  own : t.reg (c.psr.bank, .lr) = c.lr
  top : t.reg (.svc, .sp) = c.top
  spsr : c.psr.mode = svcModeBits → (t.spsr .svc) = Psr.ofWord (u.mem (u.reg (.user, .r0) + 52#32))
  mem : t.mem = u.mem

theorem exitIrqFromUser_runs (u : Cpu) (base : Word) (c : Context) (hal : Aligned base)
    (hr0 : u.reg (.user, .r0) = base) (hframed : Framed u.mem base c)
    (hmode : c.psr.mode = userModeBits) :
    ∃ t, execAll (some u) (exitIrqFromUserCode.take 8) = some t ∧ Given u t c := by
  obtain ⟨t, ht⟩ : ∃ t, execAll (some u) (exitIrqFromUserCode.take 8) = some t := by
    simp [exitIrqFromUserCode, execAll, exec, Cpu.get, Cpu.set, slot, hr0, aligned_add, hal]
  refine ⟨t, ht, ?_⟩
  simp [exitIrqFromUserCode, execAll, exec, Cpu.get, Cpu.set, slot, hr0, aligned_add, hal] at ht
  subst ht
  have hbank : c.psr.bank = .user := congrArg bankOf hmode
  have hsp : u.mem (base + 60#32) = c.sp := by
    rcases hframed.mode with ⟨-, h⟩ | ⟨h, -⟩
    · exact h
    · rw [hmode] at h
      exact absurd h (by decide)
  constructor
  case sp => simp [hbank, hsp]
  case own => simp [hbank, hframed.lr]
  case top => simp [hframed.top, ptRegsSize]
  case spsr =>
    intro h
    rw [hmode] at h
    exact absurd h (by decide)
  all_goals simp [hr0]

theorem exitIrqFromSvc_runs (u : Cpu) (base : Word) (c : Context) (hal : Aligned base)
    (hr0 : u.reg (.user, .r0) = base) (hframed : Framed u.mem base c)
    (hmode : c.psr.mode = svcModeBits) :
    ∃ t, execAll (some u) (exitIrqFromSvcCode.take 7) = some t ∧ Given u t c := by
  obtain ⟨t, ht⟩ : ∃ t, execAll (some u) (exitIrqFromSvcCode.take 7) = some t := by
    simp [exitIrqFromSvcCode, execAll, exec, Cpu.get, Cpu.set, slot, hr0, aligned_add, hal]
  refine ⟨t, ht, ?_⟩
  simp [exitIrqFromSvcCode, execAll, exec, Cpu.get, Cpu.set, slot, hr0, aligned_add, hal] at ht
  subst ht
  have hbank : c.psr.bank = .svc := congrArg bankOf hmode
  have hsp : c.sp = base + 72#32 := by
    rcases hframed.mode with ⟨h, -⟩ | ⟨-, h⟩
    · rw [hmode] at h
      exact absurd h (by decide)
    · rw [h, hframed.top]
  constructor
  case sp => simp [hbank, hsp, ptRegsSize]
  case own => simp [hbank, hframed.lr]
  case top => simp [hframed.top, ptRegsSize]
  case spsr => intro _; simp [hr0]
  all_goals simp [hr0]

/-- The first thirteen registers are there again, and the way back is open. -/
theorem irqRestore_runs (u : Cpu) (base : Word) (c : Context) (hal : Aligned base)
    (hbank : u.cpsr.bank = .irq) (hr0 : u.reg (.user, .r0) = base)
    (hframed : Framed u.mem base c) :
    ∃ t, execAll (some u) irqRestore = some t ∧ t.cpsr = u.cpsr ∧ t.mem = u.mem ∧
      t.spsr .irq = c.psr ∧ t.spsr .svc = u.spsr .svc ∧
      lows.map (fun r => t.reg (.user, r)) = c.low ∧ t.reg (.irq, .lr) = base + 68#32 ∧
      ∀ k, k.2 = .sp ∨ k.2 = .lr → k ≠ (.irq, .lr) → t.reg k = u.reg k := by
  obtain ⟨v, hv⟩ : ∃ v, v = ((u.setReg (.user, .r1) c.psr.word).setSpsr .irq c.psr).setReg
    (.irq, .lr) base := ⟨_, rfl⟩
  have hbankv : v.cpsr.bank = .irq := by rw [hv]; exact hbank
  obtain ⟨hlow, hstack, hcpsr, hspsr, hmem⟩ := loadMany_lows v base
  have hbankm : (loadMany v base lows).cpsr.bank = .irq := by rw [hcpsr]; exact hbankv
  have hexec : execAll (some u) irqRestore =
      some ((loadMany v base lows).setReg (.irq, .lr) (base + 68#32)) := by
    simp [irqRestore, execAll, exec, Cpu.get, Cpu.set, slot, hr0, aligned_add, hal, hbank,
      hframed.psr]
    rw [← hv, hbankm, Cpu.setReg_setReg, show spanOf lows = 52#32 from rfl, add_add_lit]
    rfl
  refine ⟨_, hexec, ?_⟩
  have hmemv : v.mem = u.mem := by rw [hv]; rfl
  rw [hmemv] at hlow hmem
  refine ⟨?_, hmem, ?_, ?_, ?_, Cpu.setReg_self .., ?_⟩
  · rw [Cpu.setReg_cpsr, hcpsr, hv]
    rfl
  · rw [Cpu.setReg_spsr, hspsr, hv]
    simp
  · rw [Cpu.setReg_spsr, hspsr, hv]
    simp
  · rw [← hframed.low, ← hlow]
    exact List.map_congr_left fun r _ => Cpu.setReg_ne _ _ _ _ (by simp)
  · intro k hk hne
    rw [Cpu.setReg_ne _ _ _ _ hne, hstack k hk, hv, Cpu.setReg_ne _ _ _ _ hne, Cpu.setSpsr_reg,
      Cpu.setReg_ne]
    rintro rfl
    exact absurd hk (by decide)

theorem irqMode_runs (u : Cpu) (base : Word) (c : Context) (hal : Aligned base)
    (hr0 : u.reg (.user, .r0) = base) (hframed : Framed u.mem base c) :
    ∃ t, execAll (some u) irqMode = some t ∧ t.cpsr.control = u.cpsr.control ∧
      t.cpsr.zero = decide (c.psr.mode = userModeBits) ∧ t.mem = u.mem ∧
      t.reg (.user, .r1) = c.psr.word &&& modeMask ∧
      ∀ k, k ≠ (.user, .r1) → t.reg k = u.reg k := by
  obtain ⟨t, ht⟩ : ∃ t, execAll (some u) irqMode = some t := by
    simp [irqMode, execAll, exec, Cpu.get, Cpu.set, slot, hr0, aligned_add, hal]
  refine ⟨t, ht, ?_⟩
  simp [irqMode, execAll, exec, Cpu.get, Cpu.set, slot, hr0, aligned_add, hal,
    hframed.psr] at ht
  subst ht
  refine ⟨by simp, ?_, by simp, by simp, fun k hk => by simp [hk]⟩
  simp only [Cpu.setPsr_cpsr, nzcv_zero]
  exact decide_eq_decide.mpr (Psr.word_mode _ _)

/-- The stack pointers are those of the context. -/
structure Ready (u t : Cpu) (base : Word) (c : Context) : Prop where
  bank : t.cpsr.bank = .irq
  r0 : t.reg (.user, .r0) = base
  mem : t.mem = u.mem
  irqSp : t.reg (.irq, .sp) = u.reg (.irq, .sp)
  sp : t.reg (c.psr.bank, .sp) = c.sp
  own : t.reg (c.psr.bank, .lr) = c.lr
  top : t.reg (.svc, .sp) = c.top
  spsr : c.psr.mode = svcModeBits → t.spsr .svc = Psr.ofWord (u.mem (base + 52#32))

section

variable (x : Symbols) (call : Word → Option (Cpu → Cpu))
  (apart : ∀ i < (entryCode x).length, call (x.loc i) = none)

theorem ready_user (u : Cpu) (base : Word) (c : Context) (hal : Aligned base)
    (hbank : u.cpsr.bank = .irq) (hzero : u.cpsr.zero = true)
    (hr0 : u.reg (.user, .r0) = base)
    (hr1 : u.reg (.user, .r1) = userModeBits.setWidth 32) (hframed : Framed u.mem base c)
    (hmode : c.psr.mode = userModeBits) :
    ∃ t, Reaches (x.program call apart) ⟨u, x.loc 37⟩ ⟨t, x.loc 40⟩ ∧ Ready u t base c := by
  obtain ⟨-, -, -, -, -, hbranch, -⟩ := at_irq x call apart
  obtain ⟨-, -, -, huser, -⟩ := at_routines x call apart
  have hgo := bleq_runs 37 0 37 exitIrqFromUser _ u hbranch rfl rfl hzero
  rw [hbank] at hgo
  obtain ⟨v, hv, hgiven⟩ := exitIrqFromUser_runs (u.setReg (.irq, .lr) (x.loc 38)) base c hal
    hr0 hframed hmode
  have hin := part_runs exitIrqFromUser 0 60 68 _ _ _ _ huser rfl rfl (List.take_prefix 8 _) hv
  have hbankv : v.cpsr.bank = .irq := by
    rw [hgiven.cpsr]
    exact bank_irq _
  have hlr : v.get .lr = x.loc 38 := by
    simp [Cpu.get, slot, hbankv, hgiven.lr]
  have hout := return_runs exitIrqFromUser 8 68 (x.loc 38) .lr _ v huser rfl rfl hlr
  have hother : decide (v.get .r1 = svcModeBits.setWidth 32) = false := by
    simp [Cpu.get, slot, hgiven.r1, hr1]
    decide
  obtain ⟨t, hcmp, hzero', hflags⟩ := cmp_runs 37 1 38 .r1 _ _ v false hbranch rfl rfl hother
  have hnot := skip_runs 37 2 39 exitIrqFromSvc _ t hbranch rfl rfl hzero'
  refine ⟨t, hgo.trans (hin.trans (hout.trans (hcmp.trans hnot))), ?_⟩
  constructor
  case bank => exact (bank_of_control v t hflags.control).trans hbankv
  case r0 => rw [hflags.reg, hgiven.r0, Cpu.setReg_ne _ _ _ _ (by decide), hr0]
  case mem => rw [hflags.mem, hgiven.mem, Cpu.setReg_mem]
  case irqSp => rw [hflags.reg, hgiven.irqSp, Cpu.setReg_ne _ _ _ _ (by decide)]
  case sp => rw [hflags.reg, hgiven.sp]
  case own => rw [hflags.reg, hgiven.own]
  case top => rw [hflags.reg, hgiven.top]
  case spsr =>
    intro h
    rw [hmode] at h
    exact absurd h (by decide)

theorem ready_svc (u : Cpu) (base : Word) (c : Context) (hal : Aligned base)
    (hbank : u.cpsr.bank = .irq) (hzero : u.cpsr.zero = false)
    (hr0 : u.reg (.user, .r0) = base)
    (hr1 : u.reg (.user, .r1) = svcModeBits.setWidth 32) (hframed : Framed u.mem base c)
    (hmode : c.psr.mode = svcModeBits) :
    ∃ t, Reaches (x.program call apart) ⟨u, x.loc 37⟩ ⟨t, x.loc 40⟩ ∧ Ready u t base c := by
  obtain ⟨-, -, -, -, -, hbranch, -⟩ := at_irq x call apart
  obtain ⟨-, -, -, -, hsvc, -⟩ := at_routines x call apart
  have hnot := skip_runs 37 0 37 exitIrqFromUser _ u hbranch rfl rfl hzero
  have hsame : decide (u.get .r1 = svcModeBits.setWidth 32) = true := decide_eq_true hr1
  obtain ⟨v, hcmp, hzero', hflags⟩ := cmp_runs 37 1 38 .r1 _ _ u true hbranch rfl rfl hsame
  have hbankv : v.cpsr.bank = .irq := (bank_of_control u v hflags.control).trans hbank
  have hgo := bleq_runs 37 2 39 exitIrqFromSvc _ v hbranch rfl rfl hzero'
  rw [hbankv] at hgo
  have hr0v : (v.setReg (.irq, .lr) (x.loc 40)).reg (.user, .r0) = base := by
    rw [Cpu.setReg_ne _ _ _ _ (by decide), hflags.reg, hr0]
  have hframedv : Framed (v.setReg (.irq, .lr) (x.loc 40)).mem base c := by
    rw [Cpu.setReg_mem, hflags.mem]
    exact hframed
  obtain ⟨t, ht, hgiven⟩ := exitIrqFromSvc_runs (v.setReg (.irq, .lr) (x.loc 40)) base c hal
    hr0v hframedv hmode
  have hin := part_runs exitIrqFromSvc 0 69 76 _ _ _ _ hsvc rfl rfl (List.take_prefix 7 _) ht
  have hbankt : t.cpsr.bank = .irq := by
    rw [hgiven.cpsr]
    exact bank_irq _
  have hlr : t.get .lr = x.loc 40 := by
    simp [Cpu.get, slot, hbankt, hgiven.lr]
  have hout := return_runs exitIrqFromSvc 7 76 (x.loc 40) .lr _ t hsvc rfl rfl hlr
  refine ⟨t, hnot.trans (hcmp.trans (hgo.trans (hin.trans hout))), ?_⟩
  constructor
  case bank => exact hbankt
  case r0 => rw [hgiven.r0, hr0v]
  case mem => rw [hgiven.mem, Cpu.setReg_mem, hflags.mem]
  case irqSp => rw [hgiven.irqSp, Cpu.setReg_ne _ _ _ _ (by decide), hflags.reg]
  case sp => exact hgiven.sp
  case own => exact hgiven.own
  case top => exact hgiven.top
  case spsr =>
    intro h
    rw [hgiven.spsr h, hr0v, Cpu.setReg_mem, hflags.mem]

/-- The processor is back in a context. -/
structure Resumed (u : Cpu) (s : State) (base : Word) (c : Context) : Prop where
  context : contextOf s = c
  mem : s.cpu.mem = u.mem
  irqSp : s.cpu.reg (.irq, .sp) = u.reg (.irq, .sp)
  spsr : c.psr.mode = svcModeBits → s.cpu.spsr .svc = Psr.ofWord (u.mem (base + 52#32))

/-- An interrupt ends in the context that `os_exit_irq` has chosen. -/
theorem irq_resumes (u : Cpu) (base : Word) (c : Context) (hal : Aligned base)
    (hcontrol : u.cpsr.control = irqModeBits ||| noInt) (hr0 : u.reg (.user, .r0) = base)
    (hframed : Framed u.mem base c) :
    ∃ s, Leaves (x.program call apart) ⟨u, x.loc 34⟩ s ∧ Resumed u s base c := by
  obtain ⟨-, -, -, -, hmode, -, hrestore, hlast⟩ := at_irq x call apart
  obtain ⟨v, hv, hvc, hvz, hvm, hvr, hvk⟩ := irqMode_runs u base c hal hr0 hframed
  have hgo := part_runs 34 0 34 37 _ _ u v hmode rfl rfl List.prefix_rfl hv
  have hbankv : v.cpsr.bank = .irq := by
    unfold Psr.bank Psr.mode
    rw [hvc, hcontrol]
    decide
  have hv0 : v.reg (.user, .r0) = base := by rw [hvk _ (by decide), hr0]
  have hmask : ∀ m, c.psr.mode = m → v.reg (.user, .r1) = m.setWidth 32 := by
    intro m hm
    rw [hvr]
    exact (Psr.word_mode _ m).mpr hm
  have hframedv : Framed v.mem base c := hvm ▸ hframed
  -- The two modes a context may have.
  obtain ⟨w, hready, hw⟩ : ∃ w, Reaches (x.program call apart) ⟨v, x.loc 37⟩ ⟨w, x.loc 40⟩ ∧
      Ready v w base c := by
    rcases hframed.mode with ⟨hm, -⟩ | ⟨hm, -⟩
    · exact ready_user x call apart v base c hal hbankv (by rw [hvz, hm]; rfl) hv0 (hmask _ hm)
        hframedv hm
    · exact ready_svc x call apart v base c hal hbankv (by rw [hvz, hm]; rfl) hv0 (hmask _ hm)
        hframedv hm
  have hframedw : Framed w.mem base c := hw.mem ▸ hframedv
  obtain ⟨t, ht, htc, htm, htspsr, htsvc, htlow, htlr, htk⟩ :=
    irqRestore_runs w base c hal hw.bank hw.r0 hframedw
  have hend := part_runs 40 0 40 45 _ _ w t hrestore rfl rfl List.prefix_rfl ht
  have hbankt : t.cpsr.bank = .irq := by rw [htc]; exact hw.bank
  have hget : t.get .lr = base + 68#32 := by
    simp [Cpu.get, slot, hbankt, htlr]
  have hleave := leaves_runs 45 0 45 .lr (base + 68#32) _ _ t hlast rfl rfl
    (hgo.trans (hready.trans hend)) (by rw [hbankt]; decide) hget
    ((aligned_add base _ (by decide)).mpr hal)
  refine ⟨_, hleave, ?_⟩
  rw [hbankt, htspsr, htm, hframedw.pc]
  have hset : t.set .lr (base + 68#32 + 4) = t.setReg (.irq, .lr) (base + 68#32 + 4) := by
    unfold Cpu.set
    rw [hbankt]
    rfl
  rw [hset]
  have hbank : c.psr.bank ≠ .irq := by
    unfold Psr.bank
    rcases hframed.mode with ⟨hm, -⟩ | ⟨hm, -⟩ <;> rw [hm] <;> decide
  have hstack : ∀ k : Bank × Reg, k.2 = .sp ∨ k.2 = .lr → k ≠ (.irq, .lr) →
      (t.setReg (.irq, .lr) (base + 68#32 + 4)).reg k = w.reg k := by
    intro k hk hne
    rw [Cpu.setReg_ne _ _ _ _ hne, htk k hk hne]
  have hown : ∀ r : Reg, (c.psr.bank, r) ≠ (.irq, .lr) :=
    fun r h => hbank (Prod.mk.inj h).1
  constructor
  case context =>
    have hlow : lows.map ((t.setReg (.irq, .lr) (base + 68#32 + 4)).setPsr c.psr).get = c.low := by
      rw [map_get_lows, Cpu.setPsr_reg, ← htlow]
      exact List.map_congr_left fun r _ => Cpu.setReg_ne _ _ _ _ (by simp)
    have hsp : ((t.setReg (.irq, .lr) (base + 68#32 + 4)).setPsr c.psr).get .sp = c.sp :=
      (hstack (c.psr.bank, .sp) (Or.inl rfl) (hown .sp)).trans hw.sp
    have hlr : ((t.setReg (.irq, .lr) (base + 68#32 + 4)).setPsr c.psr).get .lr = c.lr :=
      (hstack (c.psr.bank, .lr) (Or.inr rfl) (hown .lr)).trans hw.own
    have htop : ((t.setReg (.irq, .lr) (base + 68#32 + 4)).setPsr c.psr).reg (.svc, .sp) =
        c.top := (hstack (.svc, .sp) (Or.inl rfl) (by decide)).trans hw.top
    unfold contextOf
    rw [hlow, hsp, hlr, htop]
    rfl
  case mem => rw [Cpu.setPsr_mem, Cpu.setReg_mem, htm, hw.mem, hvm]
  case irqSp =>
    rw [Cpu.setPsr_reg, hstack _ (Or.inl rfl) (by decide), hw.irqSp, hvk _ (by decide)]
  case spsr =>
    intro h
    rw [Cpu.setPsr_spsr, Cpu.setReg_spsr, htsvc, hw.spsr h, hvm]

end

end Mirros
