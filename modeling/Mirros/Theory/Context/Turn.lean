import Mirros.Theory.Context.Irq
import Mirros.Theory.Context.Exit
import Mirros.Theory.Context.Choose

/-!
# A Whole Interrupt

From the interrupt to the first instruction of the next task. The functions in C that are called
on the way are known by what they leave alone.

## Main definitions

* `Clear`, `Handed`: The words that matter, before and after.
* `Handles`, `Switches`: What `irq_handler` and `switch_task` leave alone.

## Theorems

* `irq_handled`, `irq_turns`: Up to the handler, and up to the choice.
* `irq_leaves`: The processor is with the next task.
-/

namespace Mirros

open Modes

/-- Which words are what: those that the functions in C leave alone, with the place for the
    context, the current task and the next one among them. -/
structure Clear (x : Symbols) (keep : Word → Prop) (mem : Word → Word) (low base n : Word) :
    Prop where
  keepCurrent : keep x.current
  keepTask : keep (mem x.current)
  keepNext : keep n
  keepRoom : ∀ a, In base 72 a → keep a
  current : ¬In base 72 x.current ∧ ¬In low 28 x.current
  task : ¬In base 72 (mem x.current) ∧ ¬In low 28 (mem x.current)
  next : ¬In base 72 n ∧ ¬In low 28 n
  nextRun : ¬In low 28 x.nextRun ∧ x.nextRun ≠ mem x.current
  other : mem x.current ≠ x.current ∧ n ≠ x.current
  alignedTask : Aligned (mem x.current)
  alignedNext : Aligned n

/-- The memory after the processor was handed to a task. -/
structure Handed (x : Symbols) (keep : Word → Prop) (mem mem' : Word → Word) (low base n : Word)
    (own : Context) : Prop where
  current : mem' x.current = n
  framed : Framed mem' base own
  saved : n ≠ mem x.current → mem' (mem x.current) = base
  same : ∀ a, keep a → ¬In base 72 a → ¬In low 28 a → a ≠ mem x.current → a ≠ x.current →
    mem' a = mem a

section

variable (x : Symbols) (hx : x.Linked) (keep : Word → Prop) (low base n : Word)
  (h w : Cpu → Cpu)

/-- `irq_handler` leaves alone what it has to, and there is a next task. -/
def Handles (h : Cpu → Cpu) : Prop :=
  ∀ u, Returns keep u (h u) ∧ (h u).mem x.nextRun = n

/-- `switch_task` leaves alone what it has to, the next task included, and the word of the stack
    of the interrupt mode that is in use. -/
def Switches (w : Cpu → Cpu) : Prop :=
  ∀ u, Returns (fun a => keep a ∨ a = x.nextRun ∨ a = low + 24#32) u (w u)

theorem irq_handled (s : State) (hroom : Room s.cpu low base)
    (hmode : s.cpu.cpsr.mode = userModeBits ∨ s.cpu.cpsr.mode = svcModeBits)
    (hkeep : ∀ a, In base 72 a → keep a) (hh : Handles x keep n h) :
    ∃ t, Reaches (x.kernel hx h w) (takeIrq x s) ⟨t, x.loc 33⟩ ∧
      t.cpsr.control = irqModeBits ||| noInt ∧ t.reg (.svc, .sp) = base ∧
      t.reg (.irq, .sp) = low + 28#32 ∧ t.mem x.nextRun = n ∧ Framed t.mem base (contextOf s) ∧
      (s.cpu.cpsr.mode = svcModeBits → t.mem (base + 52#32) = (s.cpu.spsr .svc).word) ∧
      ∀ a, keep a → ¬In base 72 a → ¬In low 28 a → t.mem a = s.cpu.mem a := by
  obtain ⟨-, -, -, hcall, -⟩ := at_irq x (x.calls h w) (hx.apart h w)
  obtain ⟨u, hgo, henter⟩ := irq_enters x (x.calls h w) (hx.apart h w) s low base hroom hmode
  have hbank : u.cpsr.bank = .irq := by
    unfold Psr.bank Psr.mode
    rw [henter.control]
    decide
  have hbl := bl_runs 32 0 32 x.irqHandler _ u hcall rfl rfl
  rw [hbank] at hbl
  have hrun := reaches_call (x.kernel hx h w) (u.setReg (.irq, .lr) (x.loc 33)) x.irqHandler h
    (Symbols.Linked.calls_irqHandler x h w)
  have hlr : (u.setReg (.irq, .lr) (x.loc 33)).get .lr = x.loc 33 := by
    simp [Cpu.get, slot, hbank]
  rw [hlr] at hrun
  obtain ⟨hret, hn⟩ := hh (u.setReg (.irq, .lr) (x.loc 33))
  have hmem : ∀ a, keep a → (h (u.setReg (.irq, .lr) (x.loc 33))).mem a = u.mem a :=
    fun a ha => hret.mem a ha
  refine ⟨_, hgo.trans (hbl.trans hrun), ?_, ?_, ?_, hn, ?_, ?_, ?_⟩
  · rw [hret.control]
    exact henter.control
  · rw [hret.svcSp, Cpu.setReg_ne _ _ _ _ (by decide), henter.svcSp]
  · rw [hret.irqSp, Cpu.setReg_ne _ _ _ _ (by decide), henter.irqSp]
  · exact henter.framed.congr fun a ha => hmem a (hkeep a ha)
  · intro hsvc
    rw [hmem _ (hkeep _ (in_add base _ 72 (by decide))), henter.spsr hsvc]
  · intro a ha hbase hlow
    rw [hmem a ha]
    exact henter.same a (not_or.mpr ⟨hbase, hlow⟩)

/-- Up to the choice of the context to go on with. -/
theorem irq_turns (s : State) (hroom : Room s.cpu low base)
    (hmode : s.cpu.cpsr.mode = userModeBits ∨ s.cpu.cpsr.mode = svcModeBits)
    (hclear : Clear x keep s.cpu.mem low base n) (hh : Handles x keep n h)
    (hw : Switches x keep low w) :
    ∃ t, Reaches (x.kernel hx h w) (takeIrq x s) ⟨t, x.loc 34⟩ ∧
      t.cpsr.control = irqModeBits ||| noInt ∧ t.reg (.irq, .sp) = low + 28#32 ∧
      Handed x keep s.cpu.mem t.mem low base n (contextOf s) ∧
      (s.cpu.cpsr.mode = svcModeBits → t.mem (base + 52#32) = (s.cpu.spsr .svc).word) ∧
      (n = s.cpu.mem x.current → t.reg (.user, .r0) = base) ∧
      (n ≠ s.cpu.mem x.current → t.reg (.user, .r0) = t.mem n) := by
  obtain ⟨u, hgo, hcontrol, hsvc, hirq, hn, hframed, hspsr, hsame⟩ :=
    irq_handled x hx keep low base n h w s hroom hmode hclear.keepRoom hh
  have hcurrent : u.mem x.current = s.cpu.mem x.current :=
    hsame _ hclear.keepCurrent hclear.current.1 hclear.current.2
  by_cases hstay : n = s.cpu.mem x.current
  · -- The task goes on.
    obtain ⟨t, ht, hchosen, hmem⟩ := osExitIrq_stays x (x.calls h w) (hx.apart h w) u hx.current
      hx.nextRun hcontrol (by rw [hcurrent, hn, hstay])
    refine ⟨t, hgo.trans ht, hchosen.control, hchosen.irqSp.trans hirq, ?_, ?_,
      fun _ => hchosen.r0.trans hsvc, fun hne => absurd hstay hne⟩
    · rw [hmem]
      exact ⟨hcurrent.trans hstay.symm, hframed, fun hne => absurd hstay hne,
        fun a ha hbase hlow _ _ => hsame a ha hbase hlow⟩
    · rwa [hmem]
  · -- Another task does.
    have hother : u.mem x.current ≠ u.mem x.nextRun := by
      rw [hcurrent, hn]
      exact fun hc => hstay hc.symm
    obtain ⟨v, hv, hvc, hvlr, -, -, hvsp, hvm⟩ := osExitIrq_saves x (x.calls h w) (hx.apart h w) u
      low hroom.lowAligned hx.current hx.nextRun hcontrol hirq
      (by rw [hcurrent]; exact hclear.alignedTask) hother
    rw [hcurrent, hsvc] at hvm
    have hrun := reaches_call (x.kernel hx h w) v x.switchTask w (hx.calls_switchTask h w)
    have hbank : v.cpsr.bank = .irq := by
      unfold Psr.bank Psr.mode
      rw [hvc]
      decide
    have hret : v.get .lr = x.loc 90 := by
      simp [Cpu.get, slot, hbank, hvlr]
    rw [hret] at hrun
    have hw' := hw v
    have hstack : ∀ a, ¬In low 28 a → a ≠ low + 24#32 :=
      fun a ha => ne_add low a _ 28 ha (by decide)
    have hwlr : (w v).mem (low + 24#32) = x.loc 34 := by
      rw [hw'.mem _ (Or.inr (Or.inr rfl)), hvm, Function.update_self]
    have hwn : (w v).mem x.nextRun = n := by
      rw [hw'.mem _ (Or.inr (Or.inl rfl)), hvm,
        Function.update_of_ne (hstack _ hclear.nextRun.1),
        Function.update_of_ne hclear.nextRun.2, hn]
    obtain ⟨t, ht, htc, htsp, htm, ht0⟩ := osExitIrq_switches x (x.calls h w) (hx.apart h w) (w v)
      low hroom.lowAligned hx.current hx.nextRun (hw'.control.trans hvc) (hw'.irqSp.trans hvsp)
      hwlr (by rw [hwn]; exact hclear.alignedNext)
    rw [hwn] at htm ht0
    -- A word that is kept and is none of those written.
    have hmem : ∀ a, keep a → ¬In low 28 a → a ≠ x.current → t.mem a =
        Function.update u.mem (s.cpu.mem x.current) base a := by
      intro a ha hlow hne
      rw [htm, Function.update_of_ne hne, hw'.mem a (Or.inl ha), hvm,
        Function.update_of_ne (hstack a hlow)]
    have hroomMem : ∀ a, In base 72 a → t.mem a = u.mem a := by
      intro a ha
      rw [hmem a (hclear.keepRoom a ha) (fun hc => hroom.apart a hc ha)
        (in_ne ha hclear.current.1),
        Function.update_of_ne (in_ne ha hclear.task.1)]
    refine ⟨t, hgo.trans (hv.trans (hrun.trans ht)), htc, htsp, ?_, ?_,
      fun hc => absurd hc hstay, fun _ => ht0⟩
    · constructor
      case current => rw [htm, Function.update_self]
      case framed => exact hframed.congr hroomMem
      case saved =>
        intro _
        rw [hmem _ hclear.keepTask hclear.task.2 hclear.other.1, Function.update_self]
      case same =>
        intro a ha hbase hlow hcur hne
        rw [hmem a ha hlow hne, Function.update_of_ne hcur, hsame a ha hbase hlow]
    · intro hm
      rw [hroomMem _ (in_add base _ 72 (by decide)), hspsr hm]

/-- An interrupt is over: the processor is with the next task, in the context that it had. -/
theorem irq_leaves (s : State) (c : Context) (hroom : Room s.cpu low base)
    (hmode : s.cpu.cpsr.mode = userModeBits ∨ s.cpu.cpsr.mode = svcModeBits)
    (hclear : Clear x keep s.cpu.mem low base n) (hh : Handles x keep n h)
    (hw : Switches x keep low w)
    (hstay : n = s.cpu.mem x.current → c = contextOf s)
    (hgo : n ≠ s.cpu.mem x.current → Framed s.cpu.mem (s.cpu.mem n) c ∧
      Aligned (s.cpu.mem n) ∧ ∀ a, In (s.cpu.mem n) 72 a →
        keep a ∧ ¬In base 72 a ∧ ¬In low 28 a ∧ a ≠ s.cpu.mem x.current ∧ a ≠ x.current) :
    ∃ s', Leaves (x.kernel hx h w) (takeIrq x s) s' ∧ contextOf s' = c ∧
      s'.cpu.reg (.irq, .sp) = low + 28#32 ∧
      Handed x keep s.cpu.mem s'.cpu.mem low base n (contextOf s) ∧
      (n = s.cpu.mem x.current → s.cpu.cpsr.mode = svcModeBits →
        s'.cpu.spsr .svc = s.cpu.spsr .svc) := by
  obtain ⟨t, ht, hcontrol, hirq, hhanded, hspsr, hr0stay, hr0go⟩ :=
    irq_turns x hx keep low base n h w s hroom hmode hclear hh hw
  obtain ⟨b, hb, hal, hframed, hbase⟩ : ∃ b, t.reg (.user, .r0) = b ∧ Aligned b ∧
      Framed t.mem b c ∧ (n = s.cpu.mem x.current → b = base) := by
    by_cases hn : n = s.cpu.mem x.current
    · exact ⟨base, hr0stay hn, hroom.baseAligned, (hstay hn).symm ▸ hhanded.framed, fun _ => rfl⟩
    · obtain ⟨hframed, hal, hwords⟩ := hgo hn
      have hnext : t.mem n = s.cpu.mem n :=
        hhanded.same n hclear.keepNext hclear.next.1 hclear.next.2 hn hclear.other.2
      refine ⟨s.cpu.mem n, (hr0go hn).trans hnext, hal, hframed.congr fun a ha => ?_,
        fun hc => absurd hc hn⟩
      obtain ⟨hkeep, hroom', hlow, hcur, hne⟩ := hwords a ha
      exact hhanded.same a hkeep hroom' hlow hcur hne
  obtain ⟨s', hleaves, hresumed⟩ := irq_resumes x (x.calls h w) (hx.apart h w) t b c hal hcontrol
    hb hframed
  refine ⟨s', ?_, hresumed.context, hresumed.irqSp.trans hirq, ?_, ?_⟩
  · exact hleaves.of_reaches ht
  · rw [hresumed.mem]
    exact hhanded
  · intro hn hm
    have hmode' : c.psr.mode = svcModeBits := by
      rw [hstay hn]
      exact hm
    rw [hresumed.spsr hmode', hbase hn, hspsr hm, Psr.ofWord_word]

end

end Mirros
