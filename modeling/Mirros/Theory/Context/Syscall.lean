import Mirros.Theory.Context.Yield

/-!
# System Calls

From the instruction `swi` through the table to a handler and back. The handler is known by what
it leaves alone, and may change the saved context of its task.

## Main definitions

* `swiContext`: The context of a task in a system call.
* `Trapped`, `Called`: The stack in front of `_syscall_handler`, and in front of the handler.
* `syscallSlot`, `syscallTarget`: Where the handler is.

## Theorems

* `softwareInterrupt_saves`, `syscallEntry_calls`: The way to the handler.
* `syscallEntry_returns`, `softwareInterrupt_leaves`: The way back.
* `syscall_returns`: All of it.
-/

namespace Mirros

open Modes

/-- The context a user task has when it makes a system call: it goes on behind the instruction. -/
def swiContext (s : State) : Context :=
  { contextOf s with pc := s.pc + 4 }

/-- The context is on the stack of the task, and interrupts are on. -/
structure Trapped (s : State) (t : Cpu) (base : Word) : Prop where
  control : t.cpsr.control = svcModeBits
  svcSp : t.reg (.svc, .sp) = base
  irqSp : t.reg (.irq, .sp) = s.cpu.reg (.irq, .sp)
  r8 : t.reg (.user, .r8) = base
  framed : Framed t.mem base (swiContext s)
  same : SameOff (In base 72) s.cpu.mem t.mem

/-- The handler of a system call has its arguments, and the way back is on the stack. -/
structure Called (u t : Cpu) (bot ret : Word) : Prop where
  control : t.cpsr.control = u.cpsr.control
  svcSp : t.reg (.svc, .sp) = bot
  irqSp : t.reg (.irq, .sp) = u.reg (.irq, .sp)
  fp : t.reg (.user, .r11) = bot + 28#32
  lr : t.reg (.svc, .lr) = ret
  args : [t.reg (.user, .r0), t.reg (.user, .r1), t.reg (.user, .r2), t.reg (.user, .r3),
    t.mem bot, t.mem (bot + 4#32), t.mem (bot + 8#32)] = loadWords u.mem (bot + 36#32) 7
  back : t.mem (bot + 24#32) = bot + 36#32
  oldFp : t.mem (bot + 28#32) = u.reg (.user, .r11)
  oldLr : t.mem (bot + 32#32) = u.reg (.svc, .lr)
  same : SameOff (In bot 36) u.mem t.mem

/-- Interrupts are on in a system call. -/
theorem swi_control (c : BitVec 8) : trapControl c svcModeBits &&&
    (~~~(noInt.setWidth 32) : Word).setWidth 8 = svcModeBits := by
  revert c
  decide

section

variable (x : Symbols) (call : Word → Option (Cpu → Cpu))
  (apart : ∀ i < (entryCode x).length, call (x.loc i) = none)

theorem softwareInterrupt_saves (s : State) (base : Word)
    (hmode : s.cpu.cpsr.mode = userModeBits) (hal : Aligned base)
    (hsp : s.cpu.reg (.svc, .sp) = base + 72#32) :
    ∃ t, Reaches (x.program call apart) (takeSwi x s) ⟨t, x.loc 165⟩ ∧ Trapped s t base := by
  obtain ⟨-, -, -, -, -, -, -, -, -, hswi, -⟩ := at_routines x call apart
  obtain ⟨u, hu⟩ : ∃ u, u = (takeSwi x s).cpu := ⟨_, rfl⟩
  have hbank : u.cpsr.bank = .svc := hu ▸ trap_bank s svcModeBits _ _ rfl
  have hreg : ∀ k, k ≠ (.svc, .lr) → u.reg k = s.cpu.reg k :=
    fun k hk => hu ▸ trap_reg s svcModeBits _ _ k hk
  have hlr : u.reg (.svc, .lr) = s.pc + 4 := hu ▸ trap_lr s svcModeBits _ _
  have hspsr : u.spsr .svc = s.cpu.cpsr := hu ▸ trap_spsr s svcModeBits _ _
  have hmem : u.mem = s.cpu.mem := hu ▸ rfl
  have hspu : u.reg (.svc, .sp) = base + 72#32 := (hreg _ (by decide)).trans hsp
  have hstart : takeSwi x s = ⟨u, x.loc softwareInterrupt⟩ := by rw [hu]; rfl
  obtain ⟨t, ht⟩ : ∃ t, execAll (some u) ((softwareInterruptCode x).take 16) = some t := by
    simp [softwareInterruptCode, execAll, exec, Cpu.get, Cpu.set, slot, hbank, hspu, hspsr, hlr,
      aligned_add, hal, add_add_lit, add_sub_lit, spanOf, storeMany, lows]
  have hin := part_runs softwareInterrupt 0 149 165 _ _ u t hswi rfl rfl (List.take_prefix 16 _) ht
  rw [hstart]
  refine ⟨t, hin, ?_⟩
  simp [softwareInterruptCode, execAll, exec, Cpu.get, Cpu.set, slot, hbank, hspu, hspsr, hlr,
      aligned_add, hal, add_add_lit, add_sub_lit, spanOf, storeMany, lows] at ht
  subst ht
  constructor
  case control =>
    have hcontrol : u.cpsr.control = trapControl s.cpu.cpsr.control svcModeBits := by
      rw [hu]
      rfl
    simp only [Cpu.setPsr_cpsr, Psr.ofWord_and, hcontrol]
    exact swi_control _
  case framed =>
    have hbank' : s.cpu.cpsr.bank = .user := congrArg bankOf hmode
    refine (framed_of_words _ base (u.mem (base + 52#32)) _ _ rfl ?_ hsp (Or.inl ⟨hmode, rfl⟩)).1
    simp [loadWords, add_add_lit, swiContext, contextOf, lows, Cpu.get, slot, hbank', hreg]
  case same =>
    intro a ha
    have hmiss : ∀ c : Word, c.toNat < 72 → a ≠ base + c := fun c hc => ne_add base a c 72 ha hc
    have hmiss₀ := hmiss 0#32 (by decide)
    rw [BitVec.add_zero] at hmiss₀
    simp [hmiss, hmiss₀, hmem]
  case irqSp => simp [hreg]
  all_goals simp

/-- The entry of the table for a system call. -/
def syscallSlot (mem : Word → Word) (nr : Word) : Word :=
  mem x.syscallTableBase + ((nr - BitVec.ofNat 32 nrSyscallBase) <<< 2)

/-- The handler in an entry of the table, or the default one. -/
def syscallTarget (w : Word) : Word := if w = 0 then x.defaultSyscallHandler else w

theorem syscallEntry_looks (u : Cpu) (e : Word) (hr6 : u.reg (.user, .r6) = e)
    (hal : Aligned e) :
    ∃ t, execAll (some u) (((syscallEntryCode x).drop 19).take 3) = some t ∧
      t.reg (.user, .r6) = syscallTarget x (u.mem e) ∧ t.cpsr.control = u.cpsr.control ∧
      t.mem = u.mem ∧ ∀ k, k ≠ (.user, .r6) → t.reg k = u.reg k := by
  unfold syscallTarget
  by_cases hzero : u.mem e = 0
  · obtain ⟨t, ht⟩ : ∃ t, execAll (some u) (((syscallEntryCode x).drop 19).take 3) = some t := by
      simp [syscallEntryCode, execAll, exec, Cpu.get, Cpu.set, slot, hr6, hal, hzero]
    refine ⟨t, ht, ?_⟩
    simp [syscallEntryCode, execAll, exec, Cpu.get, Cpu.set, slot, hr6, hal, hzero] at ht
    subst ht
    rw [if_pos hzero]
    exact ⟨by simp, by simp, by simp, fun k hk => by simp [hk]⟩
  · have hzero' : u.mem e ≠ 0#32 := hzero
    obtain ⟨t, ht⟩ : ∃ t, execAll (some u) (((syscallEntryCode x).drop 19).take 3) = some t := by
      simp [syscallEntryCode, execAll, exec, Cpu.get, Cpu.set, slot, hr6, hal, hzero']
    refine ⟨t, ht, ?_⟩
    simp [syscallEntryCode, execAll, exec, Cpu.get, Cpu.set, slot, hr6, hal, hzero'] at ht
    subst ht
    rw [if_neg hzero]
    exact ⟨by simp, by simp, by simp, fun k hk => by simp [hk]⟩

theorem syscallEntry_calls (u : Cpu) (bot : Word) (hbank : u.cpsr.bank = .svc)
    (hal : Aligned bot) (hsp : u.reg (.svc, .sp) = bot + 36#32)
    (hr8 : u.reg (.user, .r8) = bot + 36#32) (htable : Aligned x.syscallTableBase)
    (htable' : ¬In bot 36 x.syscallTableBase)
    (hslot : Aligned (syscallSlot x u.mem (u.mem (bot + 64#32))))
    (hslot' : ¬In bot 36 (syscallSlot x u.mem (u.mem (bot + 64#32)))) :
    ∃ t, Reaches (x.program call apart) ⟨u, x.loc 181⟩
        ⟨t, syscallTarget x (u.mem (syscallSlot x u.mem (u.mem (bot + 64#32))))⟩ ∧
      Called u t bot (x.loc 205) := by
  obtain ⟨-, -, -, -, -, -, -, -, -, -, hentry⟩ := at_routines x call apart
  obtain ⟨e, he⟩ : ∃ e, e = syscallSlot x u.mem (u.mem (bot + 64#32)) := ⟨_, rfl⟩
  rw [← he] at hslot hslot' ⊢
  have hmiss : ∀ a, ¬In bot 36 a → ∀ c : Word, c.toNat < 36 → a ≠ bot + c :=
    fun a ha c hc => ne_add bot a c 36 ha hc
  have hmiss₀ : ∀ a, ¬In bot 36 a → a ≠ bot := by
    intro a ha
    have h := hmiss a ha 0#32 (by decide)
    rwa [BitVec.add_zero] at h
  obtain ⟨v, hv⟩ : ∃ v, execAll (some u) ((syscallEntryCode x).take 19) = some v := by
    simp [syscallEntryCode, execAll, exec, Cpu.get, Cpu.set, slot, hbank, hsp, hr8, htable,
      aligned_add, hal, add_add_lit, add_sub_lit, spanOf, storeMany, hmiss _ htable',
      hmiss₀ _ htable']
  have hgo := part_runs syscallEntry 0 181 200 _ _ u v hentry rfl rfl (List.take_prefix 19 _) hv
  simp [syscallEntryCode, execAll, exec, Cpu.get, Cpu.set, slot, hbank, hsp, hr8, htable,
      aligned_add, hal, add_add_lit, add_sub_lit, spanOf, storeMany, hmiss _ htable',
      hmiss₀ _ htable'] at hv
  have hr6 : v.reg (.user, .r6) = e := by
    rw [← hv, he]
    simp [syscallSlot]
  have hbankv : v.cpsr.bank = .svc := by
    rw [← hv]
    exact hbank
  have hme : v.mem e = u.mem e := by
    rw [← hv]
    simp [hmiss _ hslot', hmiss₀ _ hslot']
  have hcalled : Called u v bot (v.reg (.svc, .lr)) := by
    subst hv
    constructor
    case args => simp [loadWords, add_add_lit]
    case same =>
      intro a ha
      simp [hmiss a ha, hmiss₀ a ha]
    all_goals simp
  obtain ⟨w, hw, hwr, hwc, hwm, hwk⟩ := syscallEntry_looks x v e hr6 hslot
  rw [hme] at hwr
  have hlook := part_runs syscallEntry 19 200 203 _ _ v w hentry rfl rfl (List.take_prefix 3 _) hw
  have hbankw : w.cpsr.bank = .svc := (bank_of_control v w hwc).trans hbankv
  obtain ⟨t, ht⟩ : ∃ t, t = w.setReg (.svc, .lr) (x.loc 205) := ⟨_, rfl⟩
  have hlr := link_runs syscallEntry 22 203 _ w hentry rfl rfl
  rw [hbankw, ← ht] at hlr
  have hr6t : t.get .r6 = syscallTarget x (u.mem e) := by
    rw [ht, ← hwr]
    exact Cpu.setReg_ne w (.svc, .lr) (.user, .r6) _ (by decide)
  have hjump := return_runs syscallEntry 23 204 _ .r6 _ t hentry rfl rfl hr6t
  refine ⟨t, hgo.trans (hlook.trans (hlr.trans hjump)), ?_⟩
  have hregt : ∀ k, k ≠ (.user, .r6) → k ≠ (.svc, .lr) → t.reg k = v.reg k := by
    intro k hk hk'
    rw [ht, Cpu.setReg_ne _ _ _ _ hk', hwk k hk]
  have hmemt : t.mem = v.mem := by rw [ht, Cpu.setReg_mem, hwm]
  constructor
  case control => rw [ht, Cpu.setReg_cpsr, hwc, hcalled.control]
  case svcSp => rw [hregt _ (by decide) (by decide), hcalled.svcSp]
  case irqSp => rw [hregt _ (by decide) (by decide), hcalled.irqSp]
  case fp => rw [hregt _ (by decide) (by decide), hcalled.fp]
  case lr => rw [ht, Cpu.setReg_self]
  case args =>
    rw [← hcalled.args, hmemt, hregt _ (by decide) (by decide), hregt _ (by decide) (by decide),
      hregt _ (by decide) (by decide), hregt _ (by decide) (by decide)]
  case back => rw [hmemt, hcalled.back]
  case oldFp => rw [hmemt, hcalled.oldFp]
  case oldLr => rw [hmemt, hcalled.oldLr]
  case same =>
    rw [hmemt]
    exact hcalled.same

/-- The result goes to the context, and the handler is behind. -/
theorem syscallEntry_returns (u : Cpu) (bot ret fp : Word) (hbank : u.cpsr.bank = .svc)
    (hal : Aligned bot) (hfp : u.reg (.user, .r11) = bot + 28#32)
    (hback : u.mem (bot + 24#32) = bot + 36#32) (holdFp : u.mem (bot + 28#32) = fp)
    (holdLr : u.mem (bot + 32#32) = ret) :
    ∃ t, Reaches (x.program call apart) ⟨u, x.loc 205⟩ ⟨t, ret⟩ ∧
      t.cpsr = u.cpsr ∧ t.reg (.svc, .sp) = bot + 36#32 ∧
      t.reg (.irq, .sp) = u.reg (.irq, .sp) ∧
      t.mem = Function.update u.mem (bot + 36#32) (u.reg (.user, .r0)) := by
  obtain ⟨-, -, -, -, -, -, -, -, -, -, hentry⟩ := at_routines x call apart
  obtain ⟨t, ht⟩ : ∃ t, execAll (some u) (((syscallEntryCode x).drop 24).take 4) = some t := by
    simp [syscallEntryCode, execAll, exec, Cpu.get, Cpu.set, slot, hbank, hfp, add_sub_lit,
      aligned_add, hal, loadMany, spanOf, add_add_lit, hback]
  have hgo := part_runs syscallEntry 24 205 209 _ _ u t hentry rfl rfl (List.take_prefix 4 _) ht
  simp [syscallEntryCode, execAll, exec, Cpu.get, Cpu.set, slot, hbank, hfp, add_sub_lit,
    aligned_add, hal, loadMany, spanOf, add_add_lit, hback, holdFp, holdLr] at ht
  have hlr : t.get .lr = ret := by
    rw [← ht]
    simp [Cpu.get, slot, hbank]
  have hret := return_runs syscallEntry 28 209 ret .lr _ t hentry rfl rfl hlr
  refine ⟨t, hgo.trans hret, ?_, ?_, ?_, ?_⟩ <;> rw [← ht] <;> simp

theorem softwareInterrupt_leaves (u : Cpu) (base : Word) (c : Context)
    (hcontrol : u.cpsr.control = svcModeBits) (hal : Aligned base)
    (hsp : u.reg (.svc, .sp) = base) (hframed : Framed u.mem base c)
    (hmode : c.psr.mode = userModeBits) :
    ∃ s, Leaves (x.program call apart) ⟨u, x.loc 166⟩ s ∧ contextOf s = c ∧
      s.cpu.mem = u.mem ∧ s.cpu.reg (.irq, .sp) = u.reg (.irq, .sp) := by
  obtain ⟨-, -, -, -, -, -, -, -, -, hswi, -⟩ := at_routines x call apart
  -- Interrupts are off again, in the same mode.
  have hoff : ∀ f, Psr.bank ⟨f, (Psr.ofWord (u.cpsr.word ||| noInt.setWidth 32)).control⟩ =
      .svc := by
    intro f
    rw [Psr.ofWord_or, hcontrol]
    exact bank_svc f
  obtain ⟨t, ht⟩ : ∃ t, execAll (some u) (((softwareInterruptCode x).drop 17).take 10) =
      some t := by
    simp [softwareInterruptCode, execAll, exec, Cpu.get, Cpu.set, slot, hoff, hsp, aligned_add,
      hal]
  have hgo := part_runs softwareInterrupt 17 166 176 _ _ u t hswi rfl rfl (List.take_prefix 10 _) ht
  simp [softwareInterruptCode, execAll, exec, Cpu.get, Cpu.set, slot, hoff, hsp, aligned_add,
    hal] at ht
  have hbank : c.psr.bank = .user := congrArg bankOf hmode
  have husp : u.mem (base + 60#32) = c.sp := by
    rcases hframed.mode with ⟨-, h⟩ | ⟨h, -⟩
    · exact h
    · rw [hmode] at h
      exact absurd h (by decide)
  have hmem : t.mem = u.mem := by
    rw [← ht]
    simp
  have hhandy : Handy t t base c := by
    constructor
    case bank =>
      rw [← ht]
      exact bank_svc _
    case svcSp =>
      rw [← ht]
      simp [hsp]
    case userSp =>
      intro _
      rw [← ht]
      simp [husp]
    case own =>
      rw [← ht]
      simp [hbank, hframed.lr]
    all_goals rfl
  obtain ⟨s, hleaves, hcontext, hsm, hirq⟩ := svc_resumes x call apart softwareInterrupt _ 27 hswi
    rfl t t base c hal (hmem ▸ hframed) hhandy
  refine ⟨s, hleaves.of_reaches hgo, hcontext, hsm.trans hmem, hirq.trans ?_⟩
  rw [← ht]
  simp

end

/-- Another value for the first register of a context. -/
theorem Framed.setFirst {mem : Word → Word} {base : Word} {c : Context} (h : Framed mem base c)
    (v : Word) :
    Framed (Function.update mem base v) base { c with low := v :: c.low.tail } := by
  constructor
  case low =>
    rw [← h.low]
    simp [loadWords, add_add_lit]
  case lr => simpa using h.lr
  case psr => simpa using h.psr
  case pc => simpa using h.pc
  case top => exact h.top
  case mode => simpa using h.mode

/-- A system call of a user task finds its handler by the number in `r7`, which gets the first
    seven registers, four of them in place and three on its stack. When it returns the task goes
    on behind the instruction, with the result in `r0` and all else as the handler left it in
    the saved context. -/
theorem syscall_returns (x : Symbols) (call : Word → Option (Cpu → Cpu))
    (apart : ∀ i < (entryCode x).length, call (x.loc i) = none) (s : State) (bot e : Word)
    (f : Cpu → Cpu) (hmode : s.cpu.cpsr.mode = userModeBits) (hal : Aligned bot)
    (hsp : s.cpu.reg (.svc, .sp) = bot + 108#32) (htable : Aligned x.syscallTableBase)
    (htable' : ¬In bot 108 x.syscallTableBase)
    (he : e = syscallSlot x s.cpu.mem (s.cpu.reg (.user, .r7))) (hslot : Aligned e)
    (hslot' : ¬In bot 108 e) (hf : call (syscallTarget x (s.cpu.mem e)) = some f) :
    ∃ t, Reaches (x.program call apart) (takeSwi x s) ⟨t, syscallTarget x (s.cpu.mem e)⟩ ∧
      t.cpsr.control = svcModeBits ∧ t.reg (.svc, .sp) = bot ∧
      [t.reg (.user, .r0), t.reg (.user, .r1), t.reg (.user, .r2), t.reg (.user, .r3),
        t.mem bot, t.mem (bot + 4#32), t.mem (bot + 8#32)] = (contextOf s).low.take 7 ∧
      Framed t.mem (bot + 36#32) (swiContext s) ∧ SameOff (In bot 108) s.cpu.mem t.mem ∧
      (Returns (In (bot + 24#32) 12) t (f t) → ∀ c, Framed (f t).mem (bot + 36#32) c →
        c.psr.mode = userModeBits →
        ∃ s', Leaves (x.program call apart) (takeSwi x s) s' ∧
          contextOf s' = { c with low := (f t).reg (.user, .r0) :: c.low.tail } ∧
          s'.cpu.mem = Function.update (f t).mem (bot + 36#32) ((f t).reg (.user, .r0)) ∧
          s'.cpu.reg (.irq, .sp) = s.cpu.reg (.irq, .sp)) := by
  have hbase : Aligned (bot + 36#32) := (aligned_add bot _ (by decide)).mpr hal
  obtain ⟨u, hu, htrap⟩ := softwareInterrupt_saves x call apart s (bot + 36#32) hmode hbase
    (by rw [add_add_lit]; exact hsp)
  have hframe : ∀ a, In (bot + 36#32) 72 a → In bot 108 a :=
    fun a ha => in_sub ha (by decide) (by decide)
  have hbelow : ∀ a, In bot 36 a → In bot 108 a := fun a ha => in_mono ha (by decide)
  have hlow := htrap.framed.low
  have hr7 : u.mem (bot + 64#32) = s.cpu.reg (.user, .r7) := by
    have hget := congrArg (fun l => l[7]?) hlow
    simpa [loadWords, add_add_lit, swiContext, contextOf, lows, Cpu.get, slot] using hget
  have hsame : ∀ a, ¬In bot 108 a → u.mem a = s.cpu.mem a :=
    fun a ha => htrap.same a fun hin => ha (hframe a hin)
  have hslotu : syscallSlot x u.mem (u.mem (bot + 64#32)) = e := by
    rw [he, hr7]
    unfold syscallSlot
    rw [hsame _ htable']
  have hbanku : u.cpsr.bank = .svc := by
    unfold Psr.bank Psr.mode
    rw [htrap.control]
    decide
  -- The call of `_syscall_handler`.
  obtain ⟨-, -, -, -, -, -, -, -, -, hswi, -⟩ := at_routines x call apart
  have hbl := bl_runs softwareInterrupt 16 165 _ _ u hswi rfl rfl
  rw [hbanku] at hbl
  obtain ⟨v, hv⟩ : ∃ v, v = u.setReg (.svc, .lr) (x.loc 166) := ⟨_, rfl⟩
  rw [← hv] at hbl
  have hvm : v.mem = u.mem := by rw [hv]; rfl
  have hvreg : ∀ k, k ≠ (.svc, .lr) → v.reg k = u.reg k := by
    intro k hk
    rw [hv, Cpu.setReg_ne _ _ _ _ hk]
  obtain ⟨t, ht, hcalled⟩ := syscallEntry_calls x call apart v bot (by rw [hv]; exact hbanku) hal
    ((hvreg _ (by decide)).trans htrap.svcSp) ((hvreg _ (by decide)).trans htrap.r8) htable
    (fun hin => htable' (hbelow _ hin)) (by rw [hvm, hslotu]; exact hslot)
    (by rw [hvm, hslotu]; exact fun hin => hslot' (hbelow _ hin))
  rw [hvm, hslotu, hsame e hslot'] at ht
  have hgo := hu.trans (hbl.trans ht)
  have hframed : Framed t.mem (bot + 36#32) (swiContext s) := by
    refine htrap.framed.congr fun a ha => ?_
    rw [hcalled.same a (in_after ha (by decide) (by decide)), hvm]
  refine ⟨t, hgo, ?_, hcalled.svcSp, ?_, hframed, ?_, ?_⟩
  · rw [hcalled.control, hv]
    exact htrap.control
  · rw [hcalled.args, hvm]
    have htake := congrArg (List.take 7) hlow
    rw [show (contextOf s).low = (swiContext s).low from rfl]
    simpa [loadWords, add_add_lit] using htake
  · intro a ha
    rw [hcalled.same a (fun hin => ha (hbelow a hin)), hvm, hsame a ha]
  -- The handler returns.
  intro hret c hc hcmode
  have hrun := reaches_call (x.program call apart) t _ f hf
  have hbankt : t.cpsr.bank = .svc := by
    rw [bank_of_control v t hcalled.control, hv]
    exact hbanku
  have hlr : t.get .lr = x.loc 205 := by
    simp [Cpu.get, slot, hbankt, hcalled.lr]
  rw [hlr] at hrun
  have hword : ∀ d : Word, d.toNat < 12 →
      (f t).mem (bot + (24#32 + d)) = t.mem (bot + (24#32 + d)) := by
    intro d hd
    rw [← add_add_lit]
    exact hret.mem _ (in_add _ d 12 hd)
  obtain ⟨w, hw, hwc, hwsp, hwirq, hwm⟩ := syscallEntry_returns x call apart (f t) bot (x.loc 166)
    (v.reg (.user, .r11)) ((bank_of_control t (f t) hret.control).trans hbankt) hal
    (hret.fp.trans hcalled.fp) ((hword 0#32 (by decide)).trans hcalled.back)
    ((hword 4#32 (by decide)).trans hcalled.oldFp)
    ((hword 8#32 (by decide)).trans (hcalled.oldLr.trans (by rw [hv, Cpu.setReg_self])))
  obtain ⟨s', hleaves, hcontext, hmem', hirq'⟩ := softwareInterrupt_leaves x call apart w
    (bot + 36#32) { c with low := (f t).reg (.user, .r0) :: c.low.tail }
    (by rw [hwc, hret.control, hcalled.control, hv]; exact htrap.control) hbase hwsp
    (by rw [hwm]; exact hc.setFirst _) hcmode
  refine ⟨s', hleaves.of_reaches (hgo.trans (hrun.trans hw)), hcontext, hmem'.trans hwm, ?_⟩
  rw [hirq', hwirq, hret.irqSp, hcalled.irqSp, hvreg _ (by decide), htrap.irqSp]

/-- A task in front of a system call with a handler. -/
def callingState : State where
  cpu :=
    { reg := fun k => if k = (.svc, .sp) then 0x406c
        else if k = (.user, .r7) then BitVec.ofNat 32 nrSyscallBase + 1 else 0
      spsr := fun _ => ⟨0, userModeBits⟩
      cpsr := ⟨0, userModeBits⟩
      mem := fun a => if a = 0x2008 then 0x2100 else if a = 0x2104 then 0x1010 else 0 }
  pc := 0x8000

/-- A handler that returns a number. -/
def answers (v : Word) (t : Cpu) : Cpu := t.setReg (.user, .r0) v

/-- The only function there is. -/
def oneCall (a : Word) : Option (Cpu → Cpu) := if a = 0x1010 then some (answers 42) else none

theorem syscall_returns_low : ∃ apart, ∃ s',
    Leaves (lowSymbols.program oneCall apart) (takeSwi lowSymbols callingState) s' ∧
      contextOf s' = { swiContext callingState with
        low := 42 :: (contextOf callingState).low.tail } := by
  have apart : ∀ i < (entryCode lowSymbols).length, oneCall (lowSymbols.loc i) = none := by
    intro i hi
    rw [entryCode_length] at hi
    exact if_neg (lowSymbols_loc i hi _ (by decide))
  obtain ⟨t, -, -, -, -, hframed, -, hback⟩ := syscall_returns lowSymbols oneCall apart
    callingState 0x4000 0x2104 (answers 42) rfl (by decide) (by decide) (by decide) (by decide)
    (by decide) (by decide) (by decide) rfl
  have hret : Returns (In (0x4000 + 24#32) 12) t (answers 42 t) :=
    ⟨rfl, Cpu.setReg_ne _ _ _ _ (by decide), Cpu.setReg_ne _ _ _ _ (by decide),
      Cpu.setReg_ne _ _ _ _ (by decide), fun _ _ => rfl⟩
  obtain ⟨s', hleaves, hcontext, -⟩ := hback hret (swiContext callingState) hframed rfl
  refine ⟨apart, s', hleaves, ?_⟩
  rw [hcontext, show (answers 42 t).reg (.user, .r0) = 42 from Cpu.setReg_self ..]
  rfl

end Mirros
