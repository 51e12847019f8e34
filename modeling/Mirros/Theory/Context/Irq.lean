import Mirros.Theory.Context.Frame

/-!
# Into an Interrupt

What `irq` does before it calls `irq_handler`: the context of the task is saved on the stack of
the interrupt mode first, because the registers of the task are still in use, and then moved to
the stack that the task has in the kernel.

## Main definitions

* `Spilled`, `Peeked`, `Filled`: The context on its way.
* `Room`: There is room on both stacks.
* `Entered`: The saved context, and the registers of the kernel.

## Theorems

* `irqSave_runs`, `look_user`, `look_svc`, `irqFill_runs`: The parts of the routine.
* `irq_enters`: All of it.
-/

namespace Mirros

open Modes

/-- The stack of the interrupt mode has the context of the task at first. -/
structure Spilled (u t : Cpu) (low : Word) : Prop where
  control : t.cpsr.control = u.cpsr.control
  zero : t.cpsr.zero = decide ((u.spsr .irq).word &&& modeMask = userModeBits.setWidth 32)
  reg : ∀ k, k ≠ (.irq, .lr) → k ≠ (.user, .r0) → t.reg k = u.reg k
  mode : t.reg (.user, .r0) = (u.spsr .irq).word &&& modeMask
  spsr : t.spsr = u.spsr
  pc : t.mem (low + 24#32) = u.reg (.irq, .lr) - 4
  psr : t.mem (low + 20#32) = (u.spsr .irq).word
  r0 : t.mem (low + 16#32) = u.reg (.user, .r0)
  r1 : t.mem (low + 12#32) = u.reg (.user, .r1)
  r2 : t.mem (low + 8#32) = u.reg (.user, .r2)
  r3 : t.mem (low + 4#32) = u.reg (.user, .r3)
  r4 : t.mem low = u.reg (.user, .r4)
  same : SameOff (In low 28) u.mem t.mem

theorem irqSave_runs (u : Cpu) (low : Word) (hbank : u.cpsr.bank = .irq) (hal : Aligned low)
    (hsp : u.reg (.irq, .sp) = low + 28#32) :
    ∃ t, execAll (some u) irqSave = some t ∧ Spilled u t low := by
  obtain ⟨t, ht⟩ : ∃ t, execAll (some u) irqSave = some t := by
    simp [irqSave, execAll, exec, Cpu.get, Cpu.set, slot, hbank, hsp, aligned_add, hal,
      add_add_lit]
  refine ⟨t, ht, ?_⟩
  simp [irqSave, execAll, exec, Cpu.get, Cpu.set, slot, hbank, hsp, aligned_add, hal,
    add_add_lit] at ht
  subst ht
  constructor
  case same =>
    intro x hx
    have hne : ∀ c : Word, c.toNat < 28 → x ≠ low + c := fun c hc => ne_add low x c 28 hx hc
    have hlow := hne 0#32 (by decide)
    rw [BitVec.add_zero] at hlow
    simp [hne, hlow]
  case reg =>
    intro k hk hk'
    simp [hk, hk']
  all_goals simp

/-- The registers of the mode that was interrupted. -/
structure Peeked (u t : Cpu) (spsr lr sp : Word) : Prop where
  cpsr : t.cpsr = u.cpsr
  reg : ∀ k, k ≠ (.user, .r1) → k ≠ (.user, .r2) → k ≠ (.user, .r3) → k ≠ (.user, .r4) →
    t.reg k = u.reg k
  r2 : t.reg (.user, .r2) = spsr
  r3 : t.reg (.user, .r3) = lr
  r4 : t.reg (.user, .r4) = sp
  spsr : t.spsr = u.spsr
  mem : t.mem = u.mem

theorem userToIrq_runs (u : Cpu) :
    ∃ t, execAll (some u) (userToIrqCode.take 6) = some t ∧
      Peeked u t 0 (u.reg (.user, .lr)) (u.reg (.user, .sp)) := by
  obtain ⟨t, ht⟩ : ∃ t, execAll (some u) (userToIrqCode.take 6) = some t := by
    simp [userToIrqCode, execAll, exec, Cpu.get, Cpu.set, slot]
  refine ⟨t, ht, ?_⟩
  simp [userToIrqCode, execAll, exec, Cpu.get, Cpu.set, slot] at ht
  subst ht
  constructor
  case reg =>
    intro k h1 h2 h3 h4
    simp [h1, h2, h3, h4]
  all_goals simp

theorem svcToIrq_runs (u : Cpu) :
    ∃ t, execAll (some u) (svcToIrqCode.take 6) = some t ∧
      Peeked u t (u.spsr .svc).word (u.reg (.svc, .lr)) (u.reg (.svc, .sp)) := by
  obtain ⟨t, ht⟩ : ∃ t, execAll (some u) (svcToIrqCode.take 6) = some t := by
    simp [svcToIrqCode, execAll, exec, Cpu.get, Cpu.set, slot]
  refine ⟨t, ht, ?_⟩
  simp [svcToIrqCode, execAll, exec, Cpu.get, Cpu.set, slot] at ht
  subst ht
  constructor
  case reg =>
    intro k h1 h2 h3 h4
    simp [h1, h2, h3, h4]
  all_goals simp

/-- The context is on the stack of the task. -/
structure Filled (u t : Cpu) (low base : Word) : Prop where
  control : t.cpsr.control = irqModeBits ||| noInt
  svcSp : t.reg (.svc, .sp) = base
  reg : ∀ k, k.2 = .sp ∨ k.2 = .lr → k ≠ (.svc, .sp) → t.reg k = u.reg k
  words : loadWords t.mem base 18 = [u.mem (low + 16#32), u.mem (low + 12#32), u.mem (low + 8#32),
    u.mem (low + 4#32), u.mem low, u.reg (.user, .r5), u.reg (.user, .r6), u.reg (.user, .r7),
    u.reg (.user, .r8), u.reg (.user, .r9), u.reg (.user, .r10), u.reg (.user, .r11),
    u.reg (.user, .r12), u.reg (.user, .r2), u.reg (.user, .r3), u.reg (.user, .r4),
    u.mem (low + 20#32), u.mem (low + 24#32)]
  spsr : t.spsr = u.spsr
  same : SameOff (In base 72) u.mem t.mem

theorem irqFill_runs (u : Cpu) (low base : Word) (hbank : u.cpsr.bank = .irq)
    (hal : Aligned low) (hal' : Aligned base) (hirq : u.reg (.irq, .sp) = low + 28#32)
    (hsvc : u.reg (.svc, .sp) = base + 72#32) (happart : ∀ a, In low 28 a → ¬In base 72 a) :
    ∃ t, execAll (some u) (irqRoom ++ irqMove ++ irqFill) = some t ∧ Filled u t low base := by
  -- No word of the one block is one of the other.
  have hne : ∀ c d : Word, c.toNat < 28 → d.toNat < 72 → low + c ≠ base + d :=
    fun c d hc hd => add_ne_add low base c d 28 72 happart hc hd
  have hlow : ∀ d : Word, d.toNat < 72 → low ≠ base + d := by
    intro d hd
    have h := hne 0 d (by decide) hd
    rwa [show low + 0 = low from BitVec.add_zero low] at h
  have hbase : ∀ c : Word, c.toNat < 28 → low + c ≠ base := by
    intro c hc
    have h := hne c 0 hc (by decide)
    rwa [show base + 0 = base from BitVec.add_zero base] at h
  obtain ⟨t, ht⟩ : ∃ t, execAll (some u) (irqRoom ++ irqMove ++ irqFill) = some t := by
    simp [irqRoom, irqMove, irqFill, execAll, exec, Cpu.get, Cpu.set, slot, hbank, hirq, hsvc,
      aligned_add, hal, hal', add_add_lit, add_sub_lit, spanOf, storeMany, hne, hlow, hbase]
  refine ⟨t, ht, ?_⟩
  simp [irqRoom, irqMove, irqFill, execAll, exec, Cpu.get, Cpu.set, slot, hbank, hirq, hsvc,
    aligned_add, hal, hal', add_add_lit, add_sub_lit, spanOf, storeMany, hne, hlow, hbase] at ht
  subst ht
  constructor
  case reg =>
    rintro ⟨b, r⟩ (hr | hr) hk <;> simp only at hr <;> subst hr <;> simp [hk]
  case words => simp [loadWords, add_add_lit]
  case same =>
    intro a ha
    have hmiss : ∀ c : Word, c.toNat < 72 → a ≠ base + c := fun c hc => ne_add base a c 72 ha hc
    have hmiss₀ := hmiss 0#32 (by decide)
    rw [BitVec.add_zero] at hmiss₀
    simp [hmiss, hmiss₀]
  all_goals simp

/-- There is room on the stack of the interrupt mode and on that of the task in the kernel. -/
structure Room (s : Cpu) (low base : Word) : Prop where
  lowAligned : Aligned low
  baseAligned : Aligned base
  irqSp : s.reg (.irq, .sp) = low + 28#32
  svcSp : s.reg (.svc, .sp) = base + 72#32
  apart : ∀ a, In low 28 a → ¬In base 72 a

/-- The same with the branches around it. -/
structure Looked (u t : Cpu) (mode : BitVec 8) : Prop where
  control : t.cpsr.control = u.cpsr.control
  reg : ∀ k, k ≠ (.irq, .lr) → k ≠ (.user, .r1) → k ≠ (.user, .r2) → k ≠ (.user, .r3) →
    k ≠ (.user, .r4) → t.reg k = u.reg k
  r2 : mode = svcModeBits → t.reg (.user, .r2) = (u.spsr .svc).word
  r3 : t.reg (.user, .r3) = u.reg (bankOf mode, .lr)
  r4 : t.reg (.user, .r4) = u.reg (bankOf mode, .sp)
  spsr : t.spsr = u.spsr
  mem : t.mem = u.mem

section

variable (x : Symbols) (call : Word → Option (Cpu → Cpu))
  (apart : ∀ i < (entryCode x).length, call (x.loc i) = none)

theorem look_user (u : Cpu) (hbank : u.cpsr.bank = .irq) (hzero : u.cpsr.zero = true)
    (hmode : u.reg (.user, .r0) = userModeBits.setWidth 32) :
    ∃ t, Reaches (x.program call apart) ⟨u, x.loc 11⟩ ⟨t, x.loc 14⟩ ∧
      Looked u t userModeBits := by
  obtain ⟨-, hirq, -⟩ := at_irq x call apart
  obtain ⟨-, huser, -⟩ := at_routines x call apart
  -- The first branch goes to `user_to_irq`, ...
  have hgo := bleq_runs 11 0 11 userToIrq _ u hirq rfl rfl hzero
  rw [hbank] at hgo
  obtain ⟨v, hv, hpeek⟩ := userToIrq_runs (u.setReg (.irq, .lr) (x.loc 12))
  have hin := part_runs userToIrq 0 46 52 _ _ _ _ huser rfl rfl (List.take_prefix 6 _) hv
  have hbank' : v.cpsr.bank = .irq := by rw [hpeek.cpsr]; exact hbank
  have hlr : v.get .lr = x.loc 12 := by
    simp [Cpu.get, slot, hbank', hpeek.reg]
  have hout := return_runs userToIrq 6 52 (x.loc 12) .lr _ v huser rfl rfl hlr
  -- ... and the second one is not taken.
  have hother : decide (v.get .r0 = svcModeBits.setWidth 32) = false := by
    simp [Cpu.get, slot, hpeek.reg, hmode]
    decide
  obtain ⟨t, hcmp, hzero', hflags⟩ := cmp_runs 11 1 12 .r0 _ _ v false hirq rfl rfl hother
  have hnot := skip_runs 11 2 13 svcToIrq _ t hirq rfl rfl hzero'
  refine ⟨t, hgo.trans (hin.trans (hout.trans (hcmp.trans hnot))), ?_⟩
  constructor
  case control => rw [hflags.control, hpeek.cpsr]; rfl
  case reg =>
    intro k h h1 h2 h3 h4
    rw [hflags.reg, hpeek.reg k h1 h2 h3 h4, Cpu.setReg_ne _ _ _ _ h]
  case r2 => intro h; exact absurd h (by decide)
  case r3 => rw [hflags.reg, hpeek.r3, Cpu.setReg_ne _ _ _ _ (by decide)]; rfl
  case r4 => rw [hflags.reg, hpeek.r4, Cpu.setReg_ne _ _ _ _ (by decide)]; rfl
  case spsr => rw [hflags.spsr, hpeek.spsr, Cpu.setReg_spsr]
  case mem => rw [hflags.mem, hpeek.mem, Cpu.setReg_mem]

theorem look_svc (u : Cpu) (hbank : u.cpsr.bank = .irq) (hzero : u.cpsr.zero = false)
    (hmode : u.reg (.user, .r0) = svcModeBits.setWidth 32) :
    ∃ t, Reaches (x.program call apart) ⟨u, x.loc 11⟩ ⟨t, x.loc 14⟩ ∧
      Looked u t svcModeBits := by
  obtain ⟨-, hirq, -⟩ := at_irq x call apart
  obtain ⟨-, -, hsvc, -⟩ := at_routines x call apart
  have hnot := skip_runs 11 0 11 userToIrq _ u hirq rfl rfl hzero
  have hsame : decide (u.get .r0 = svcModeBits.setWidth 32) = true := decide_eq_true hmode
  obtain ⟨w, hcmp, hzero', hflags⟩ := cmp_runs 11 1 12 .r0 _ _ u true hirq rfl rfl hsame
  have hbankw : w.cpsr.bank = .irq := (bank_of_control u w hflags.control).trans hbank
  have hgo := bleq_runs 11 2 13 svcToIrq _ w hirq rfl rfl hzero'
  rw [hbankw] at hgo
  obtain ⟨t, ht, hpeek⟩ := svcToIrq_runs (w.setReg (.irq, .lr) (x.loc 14))
  have hin := part_runs svcToIrq 0 53 59 _ _ _ _ hsvc rfl rfl (List.take_prefix 6 _) ht
  have hbank' : t.cpsr.bank = .irq := by rw [hpeek.cpsr]; exact hbankw
  have hlr : t.get .lr = x.loc 14 := by
    simp [Cpu.get, slot, hbank', hpeek.reg]
  have hout := return_runs svcToIrq 6 59 (x.loc 14) .lr _ t hsvc rfl rfl hlr
  refine ⟨t, hnot.trans (hcmp.trans (hgo.trans (hin.trans hout))), ?_⟩
  constructor
  case control => rw [hpeek.cpsr, Cpu.setReg_cpsr, hflags.control]
  case reg =>
    intro k h h1 h2 h3 h4
    rw [hpeek.reg k h1 h2 h3 h4, Cpu.setReg_ne _ _ _ _ h, hflags.reg]
  case r2 => intro _; rw [hpeek.r2, Cpu.setReg_spsr, hflags.spsr]
  case r3 => rw [hpeek.r3, Cpu.setReg_ne _ _ _ _ (by decide), hflags.reg]; rfl
  case r4 => rw [hpeek.r4, Cpu.setReg_ne _ _ _ _ (by decide), hflags.reg]; rfl
  case spsr => rw [hpeek.spsr, Cpu.setReg_spsr, hflags.spsr]
  case mem => rw [hpeek.mem, Cpu.setReg_mem, hflags.mem]

/-- The saved context, and the registers of the kernel. -/
structure Entered (s : State) (t : Cpu) (low base : Word) : Prop where
  control : t.cpsr.control = irqModeBits ||| noInt
  svcSp : t.reg (.svc, .sp) = base
  irqSp : t.reg (.irq, .sp) = low + 28#32
  userSp : t.reg (.user, .sp) = s.cpu.reg (.user, .sp)
  userLr : t.reg (.user, .lr) = s.cpu.reg (.user, .lr)
  framed : Framed t.mem base (contextOf s)
  spsr : s.cpu.cpsr.mode = svcModeBits → t.mem (base + 52#32) = (s.cpu.spsr .svc).word
  same : SameOff (fun a => In base 72 a ∨ In low 28 a) s.cpu.mem t.mem

/-- What an interrupt does before `irq_handler` is called. -/
theorem irq_enters (s : State) (low base : Word) (hroom : Room s.cpu low base)
    (hmode : s.cpu.cpsr.mode = userModeBits ∨ s.cpu.cpsr.mode = svcModeBits) :
    ∃ t, Reaches (x.program call apart) (takeIrq x s) ⟨t, x.loc 32⟩ ∧ Entered s t low base := by
  obtain ⟨hsave, -, hfill, -⟩ := at_irq x call apart
  obtain ⟨u₀, hu₀⟩ : ∃ u₀, u₀ = (takeIrq x s).cpu := ⟨_, rfl⟩
  have hbank₀ : u₀.cpsr.bank = .irq := hu₀ ▸ trap_bank s irqModeBits _ _ rfl
  have hreg₀ : ∀ k, k ≠ (.irq, .lr) → u₀.reg k = s.cpu.reg k :=
    fun k hk => hu₀ ▸ trap_reg s irqModeBits _ _ k hk
  have hlr₀ : u₀.reg (.irq, .lr) = s.pc + 4 := hu₀ ▸ trap_lr s irqModeBits _ _
  have hspsr₀ : u₀.spsr .irq = s.cpu.cpsr := hu₀ ▸ trap_spsr s irqModeBits _ _
  have hsvc₀ : u₀.spsr .svc = s.cpu.spsr .svc :=
    hu₀ ▸ trap_spsr_ne s irqModeBits _ _ .svc (by decide)
  have hmem₀ : u₀.mem = s.cpu.mem := hu₀ ▸ rfl
  -- The context goes to the stack of the interrupt mode.
  have hsp₀ : u₀.reg (.irq, .sp) = low + 28#32 := by
    rw [hreg₀ _ (by decide)]
    exact hroom.irqSp
  obtain ⟨u₁, hu₁, hspill⟩ := irqSave_runs u₀ low hbank₀ hroom.lowAligned hsp₀
  have hgo₁ := part_runs 0 0 0 11 _ _ u₀ u₁ hsave rfl rfl List.prefix_rfl hu₁
  have hbank₁ : u₁.cpsr.bank = .irq := (bank_of_control u₀ u₁ hspill.control).trans hbank₀
  have hmask : ∀ m : BitVec 8, s.cpu.cpsr.mode = m → u₁.reg (.user, .r0) = m.setWidth 32 := by
    intro m hm
    rw [hspill.mode, hspsr₀]
    exact (Psr.word_mode _ m).mpr hm
  obtain ⟨u₂, hgo₂, hlook⟩ : ∃ u₂, Reaches (x.program call apart) ⟨u₁, x.loc 11⟩
      ⟨u₂, x.loc 14⟩ ∧ Looked u₁ u₂ s.cpu.cpsr.mode := by
    have hzero : ∀ b, decide (s.cpu.cpsr.mode = userModeBits) = b → u₁.cpsr.zero = b := by
      rintro b rfl
      rw [hspill.zero, hspsr₀]
      exact decide_eq_decide.mpr (Psr.word_mode _ _)
    rcases hmode with h | h
    · have hgo := look_user x call apart u₁ hbank₁ (hzero true (by rw [h]; rfl)) (hmask _ h)
      rwa [h]
    · have hgo := look_svc x call apart u₁ hbank₁ (hzero false (by rw [h]; rfl)) (hmask _ h)
      rwa [h]
  -- Then it is moved to the stack of the task.
  have hbank₂ : u₂.cpsr.bank = .irq := (bank_of_control u₁ u₂ hlook.control).trans hbank₁
  have hstack : ∀ k : Bank × Reg, k.2 = .sp ∨ k.2 = .lr → k ≠ (.irq, .lr) →
      u₂.reg k = s.cpu.reg k := by
    rintro ⟨b, r⟩ (hr | hr) hk <;> simp only at hr <;> subst hr <;>
      rw [hlook.reg _ hk (by simp) (by simp) (by simp) (by simp), hspill.reg _ hk (by simp),
        hreg₀ _ hk]
  have hhigh : ∀ r : Reg, r ∈ [Reg.r5, .r6, .r7, .r8, .r9, .r10, .r11, .r12] →
      u₂.reg (.user, r) = s.cpu.reg (.user, r) := by
    intro r hr
    have hne : ∀ q : Bank × Reg, q ∈ [(Bank.irq, Reg.lr), (.user, .r0), (.user, .r1),
        (.user, .r2), (.user, .r3), (.user, .r4)] → (Bank.user, r) ≠ q := by
      revert r
      decide
    rw [hlook.reg _ (hne _ (by simp)) (hne _ (by simp)) (hne _ (by simp)) (hne _ (by simp))
      (hne _ (by simp)), hspill.reg _ (hne _ (by simp)) (hne _ (by simp)),
      hreg₀ _ (hne _ (by simp))]
  have hsp₂ : u₂.reg (.irq, .sp) = low + 28#32 := by
    rw [hstack _ (Or.inl rfl) (by decide)]
    exact hroom.irqSp
  have hsvc₂ : u₂.reg (.svc, .sp) = base + 72#32 := by
    rw [hstack _ (Or.inl rfl) (by decide)]
    exact hroom.svcSp
  obtain ⟨t, ht, hfilled⟩ := irqFill_runs u₂ low base hbank₂ hroom.lowAligned hroom.baseAligned
    hsp₂ hsvc₂ hroom.apart
  have hgo₃ := part_runs 14 0 14 32 _ _ u₂ t hfill rfl rfl List.prefix_rfl ht
  rw [show takeIrq x s = ⟨u₀, x.loc 0⟩ by rw [hu₀]; rfl]
  refine ⟨t, hgo₁.trans (hgo₂.trans hgo₃), ?_⟩
  have hwords := hfilled.words
  rw [hlook.mem, hspill.r0, hspill.r1, hspill.r2, hspill.r3, hspill.r4, hspill.psr, hspill.pc,
    hlr₀, hspsr₀, hlook.r3, hlook.r4] at hwords
  rw [hhigh .r5 (by decide), hhigh .r6 (by decide), hhigh .r7 (by decide), hhigh .r8 (by decide),
    hhigh .r9 (by decide), hhigh .r10 (by decide), hhigh .r11 (by decide),
    hhigh .r12 (by decide), hreg₀ _ (by decide), hreg₀ _ (by decide), hreg₀ _ (by decide),
    hreg₀ _ (by decide), hreg₀ _ (by decide)] at hwords
  have hown : ∀ r : Reg, r = .sp ∨ r = .lr →
      u₁.reg (s.cpu.cpsr.bank, r) = s.cpu.reg (s.cpu.cpsr.bank, r) := by
    intro r hr
    have hirq : s.cpu.cpsr.bank ≠ .irq := by
      unfold Psr.bank
      rcases hmode with h | h <;> rw [h] <;> decide
    have hk : (s.cpu.cpsr.bank, r) ≠ (.irq, .lr) := fun h => hirq (Prod.mk.inj h).1
    have hk' : (s.cpu.cpsr.bank, r) ≠ (.user, .r0) := by
      rcases hr with rfl | rfl <;> exact fun h => absurd (Prod.mk.inj h).2 (by decide)
    rw [hspill.reg _ hk hk', hreg₀ _ hk]
  have hback : s.pc + 4 - 4 = s.pc := BitVec.add_sub_cancel s.pc 4
  rw [show bankOf s.cpu.cpsr.mode = s.cpu.cpsr.bank from rfl, hown .lr (Or.inr rfl),
    hown .sp (Or.inl rfl), hback] at hwords
  have hsvcTop : s.cpu.cpsr.mode = svcModeBits → (contextOf s).sp = (contextOf s).top := by
    intro h
    have hsvc : s.cpu.cpsr.bank = .svc := congrArg bankOf h
    simp [contextOf, Cpu.get, slot, hsvc]
  obtain ⟨hframed, hspsr⟩ := framed_of_words t.mem base _ _ (contextOf s) rfl hwords
    hroom.svcSp (hmode.imp (fun h => ⟨h, rfl⟩) (fun h => ⟨h, hsvcTop h⟩))
  constructor
  case control => exact hfilled.control
  case svcSp => exact hfilled.svcSp
  case irqSp => rw [hfilled.reg _ (Or.inl rfl) (by decide), hsp₂]
  case userSp => rw [hfilled.reg _ (Or.inl rfl) (by decide), hstack _ (Or.inl rfl) (by decide)]
  case userLr => rw [hfilled.reg _ (Or.inr rfl) (by decide), hstack _ (Or.inr rfl) (by decide)]
  case framed => exact hframed
  case spsr =>
    intro h
    rw [hspsr, hlook.r2 h, hspill.spsr, hsvc₀]
  case same =>
    refine SameOff.trans _ _ u₂.mem _ ?_ (hfilled.same.mono _ _ _ _ fun _ => Or.inl)
    rw [hlook.mem, ← hmem₀]
    exact hspill.same.mono _ _ _ _ fun _ => Or.inr

end

end Mirros
