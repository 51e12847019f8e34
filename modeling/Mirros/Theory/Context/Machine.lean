import Mirros.Theory.Context.Yield
import Mirros.Lib.Turns

/-!
# Tasks That Share the Processor

The processor with the memory on one side, the tasks and what they were doing on the other. The
processor has the context of the current task, and the stack of every task that waits has its
context.

An event is allowed if the tasks keep to their own memory and stacks and the functions in C leave
alone what they have to.

## Main definitions

* `Sharing`: The tasks, where their stacks are, and the processor.
* `Event`, `Allowed`, `Happens`, `Step`: What may happen, and what it does.
* `Holds`, `Placed`: What holds at any time, and where the interrupt mode has its stack.

## Theorems

* `interrupt_holds`, `yield_holds`: The processor is handed on.
* `work_holds`, `start_holds`, `stop_holds`: The other events.
-/

namespace Mirros

open Modes Turns

/-- The tasks, where the stack of each is, and what the processor does. -/
structure Sharing where
  tasks : Share Word Context
  stack : Word → Word → Prop
  state : State

/-- What may happen on the processor. -/
inductive Event where
  | work (s : State)
  | interrupt (irqHandler switchTask : Cpu → Cpu) (n : Word)
  | yield (switchTask : Cpu → Cpu) (n : Word)
  | start (t : Word) (c : Context) (own : Word → Prop) (mem : Word → Word)
  | stop (t : Word)

namespace Sharing

/-- The address of a `task_struct` that is in use. -/
def task (k : Sharing) (t : Word) : Prop := t = k.tasks.current ∨ k.tasks.waits t = true

/-- The words that belong to tasks that wait: where the context is, and their stacks. -/
def rests (x : Symbols) (k : Sharing) (a : Word) : Prop :=
  a = x.current ∨ ∃ t, k.tasks.waits t = true ∧ (a = t ∨ k.stack t a)

/-- The words that the functions in C leave alone. -/
def keeps (x : Symbols) (k : Sharing) (a : Word) : Prop :=
  a = x.current ∨ ∃ t, k.task t ∧ (a = t ∨ k.stack t a)

/-- There is room for a context on the stack of the current task. -/
def Roomy (k : Sharing) (base : Word) : Prop :=
  k.state.cpu.reg (.svc, .sp) = base + 72#32 ∧ Aligned base ∧
    ∀ a, In base 72 a → k.stack k.tasks.current a

/-- What an event does to the tasks. -/
def act (k : Sharing) : Event → Act Word Context
  | .work s => .work (contextOf s)
  | .interrupt _ _ n => .turn (contextOf k.state) n
  | .yield _ n => .turn (yieldContext k.state) n
  | .start t c _ _ => .start t c
  | .stop t => .stop t

/-- The stacks after an event. -/
def stackNext (k : Sharing) : Event → Word → Word → Prop
  | .start t _ own _ => Function.update k.stack t own
  | _ => k.stack

/-- There is a place for another task and its stack. -/
def Fits (x : Symbols) (low : Word) (k : Sharing) (t : Word) (own : Word → Prop) : Prop :=
  ¬k.task t ∧ Aligned t ∧ t ≠ x.current ∧ t ≠ x.nextRun ∧ ¬In low 28 t ∧ ¬own t ∧
    (∀ u, k.task u → ¬k.stack u t ∧ ¬own u) ∧
    ∀ a, own a → a ≠ x.current ∧ a ≠ x.nextRun ∧ ¬In low 28 a ∧ ∀ u, k.task u → ¬k.stack u a

/-- When an event may happen: what the tasks and the functions in C have to keep to. -/
def Allowed (x : Symbols) (low : Word) (k : Sharing) : Event → Prop
  | .work s =>
      (s.cpu.cpsr.mode = userModeBits ∨ s.cpu.cpsr.mode = svcModeBits) ∧
        s.cpu.reg (.irq, .sp) = k.state.cpu.reg (.irq, .sp) ∧
        ∀ a, k.rests x a → s.cpu.mem a = k.state.cpu.mem a
  | .interrupt h w n =>
      (∃ base, k.Roomy base) ∧ Handles x (k.keeps x) n h ∧ Switches x (k.keeps x) low w ∧ k.task n
  | .yield w n =>
      (∃ base, k.Roomy base) ∧ k.state.pc = x.loc archSwitchTaskSw ∧
        k.state.cpu.cpsr.mode = svcModeBits ∧ k.state.cpu.mem x.nextRun = n ∧
        Switches x (k.keeps x) low w ∧ k.task n
  | .start t c own mem =>
      k.Fits x low t own ∧ Framed mem (mem t) c ∧ Aligned (mem t) ∧
        (∀ a, In (mem t) 72 a → own a) ∧ ∀ a, k.rests x a → mem a = k.state.cpu.mem a
  | .stop t => t ≠ k.tasks.current

/-- What happens on the processor: the tasks do their work, and the code of the kernel runs. -/
def Happens (x : Symbols) (hx : x.Linked) (s : State) : Event → State → Prop
  | .work s', s'' => s'' = s'
  | .interrupt h w _, s' => Leaves (x.kernel hx h w) (takeIrq x s) s'
  | .yield w _, s' => Leaves (x.kernel hx id w) s s'
  | .start _ _ _ mem, s' => s' = ⟨s.cpu.setMem mem, s.pc⟩
  | .stop _, s' => s' = s

/-- One event. -/
structure Step (x : Symbols) (hx : x.Linked) (low : Word) (k : Sharing) (e : Event)
    (k' : Sharing) : Prop where
  allowed : k.Allowed x low e
  tasks : k.tasks.next (k.act e) = some k'.tasks
  stack : k'.stack = k.stackNext e
  state : Happens x hx k.state e k'.state

/-- What holds of the processor and of the memory. -/
structure Holds (x : Symbols) (low : Word) (k : Sharing) : Prop where
  live : contextOf k.state = k.tasks.live
  mode : k.state.cpu.cpsr.mode = userModeBits ∨ k.state.cpu.cpsr.mode = svcModeBits
  current : k.state.cpu.mem x.current = k.tasks.current
  irqSp : k.state.cpu.reg (.irq, .sp) = low + 28#32
  idle : k.tasks.saved k.tasks.current = none
  aligned : ∀ t, k.task t → Aligned t
  saved : ∀ t c, k.tasks.saved t = some c → Framed k.state.cpu.mem (k.state.cpu.mem t) c ∧
    Aligned (k.state.cpu.mem t) ∧ ∀ a, In (k.state.cpu.mem t) 72 a → k.stack t a
  apart : ∀ t u, k.task t → k.task u → t ≠ u → ∀ a, k.stack t a → ¬k.stack u a
  stackWords : ∀ t a, k.task t → k.stack t a →
    a ≠ x.current ∧ a ≠ x.nextRun ∧ ¬In low 28 a ∧ ¬k.task a
  words : ∀ t, k.task t → t ≠ x.current ∧ t ≠ x.nextRun ∧ ¬In low 28 t

/-- Where the stack of the interrupt mode is. -/
structure Placed (x : Symbols) (low : Word) : Prop where
  aligned : Aligned low
  current : ¬In low 28 x.current
  nextRun : ¬In low 28 x.nextRun
  other : x.nextRun ≠ x.current

section

variable {x : Symbols} {low : Word} {k : Sharing}

theorem task_of_keep (k : Sharing) (own : Context) (t : Word) (c : Context)
    (h : k.tasks.keep own t = some c) : k.task t := by
  unfold Share.keep at h
  by_cases ht : t = k.tasks.current
  · exact Or.inl ht
  · rw [Function.update_of_ne ht] at h
    exact Or.inr (Option.isSome_iff_exists.mpr ⟨c, h⟩)

/-- The words of the model when the processor is handed on. -/
theorem clear_of_holds (hk : k.Holds x low) (hx : Placed x low) (base n : Word)
    (hroomy : k.Roomy base) (hn : k.task n) :
    Clear x (k.keeps x) k.state.cpu.mem low base n := by
  have hcur : k.task k.tasks.current := Or.inl rfl
  have hoff : ∀ t, k.task t → ¬In base 72 t :=
    fun t ht hin => (hk.stackWords _ t hcur (hroomy.2.2 t hin)).2.2.2 ht
  constructor
  case keepCurrent => exact Or.inl rfl
  case keepTask => exact Or.inr ⟨_, hcur, Or.inl hk.current⟩
  case keepNext => exact Or.inr ⟨n, hn, Or.inl rfl⟩
  case keepRoom => exact fun a ha => Or.inr ⟨_, hcur, Or.inr (hroomy.2.2 a ha)⟩
  case current =>
    exact ⟨fun hin => (hk.stackWords _ _ hcur (hroomy.2.2 _ hin)).1 rfl, hx.current⟩
  case task => exact hk.current ▸ ⟨hoff _ hcur, (hk.words _ hcur).2.2⟩
  case next => exact ⟨hoff n hn, (hk.words n hn).2.2⟩
  case nextRun => exact ⟨hx.nextRun, hk.current ▸ Ne.symm (hk.words _ hcur).2.1⟩
  case other => exact ⟨hk.current ▸ (hk.words _ hcur).1, (hk.words n hn).1⟩
  case alignedTask => exact hk.current ▸ hk.aligned _ hcur
  case alignedNext => exact hk.aligned n hn

/-- A task that waits has its context on its stack, away from what is written. -/
theorem frame_of_holds (hk : k.Holds x low) (base n : Word) (hroomy : k.Roomy base)
    (c : Context) (hn : n ≠ k.tasks.current) (hc : k.tasks.saved n = some c) :
    Framed k.state.cpu.mem (k.state.cpu.mem n) c ∧ Aligned (k.state.cpu.mem n) ∧
      ∀ a, In (k.state.cpu.mem n) 72 a → k.keeps x a ∧ ¬In base 72 a ∧ ¬In low 28 a ∧
        a ≠ k.state.cpu.mem x.current ∧ a ≠ x.current := by
  have htask : k.task n := Or.inr (Option.isSome_iff_exists.mpr ⟨c, hc⟩)
  have hcur : k.task k.tasks.current := Or.inl rfl
  obtain ⟨hframed, hal, hin⟩ := hk.saved n c hc
  refine ⟨hframed, hal, fun a ha => ?_⟩
  obtain ⟨hcurrent, -, hlow, htask'⟩ := hk.stackWords n a htask (hin a ha)
  refine ⟨Or.inr ⟨n, htask, Or.inr (hin a ha)⟩, ?_, hlow, ?_, hcurrent⟩
  · exact fun hbase => hk.apart n _ htask hcur hn a (hin a ha) (hroomy.2.2 a hbase)
  · rw [hk.current]
    exact fun heq => htask' (heq ▸ hcur)

/-- The tasks that are in use stay the same when the processor is handed on. -/
theorem task_of_turn (k : Sharing) (own c : Context) (n t : Word) (s : State) (hn : k.task n)
    (h : Sharing.task ⟨⟨n, c, Function.update (k.tasks.keep own) n none⟩, k.stack, s⟩ t) :
    k.task t := by
  rcases h with h | h
  · exact (show t = n from h) ▸ hn
  · obtain ⟨d, hd⟩ := Option.isSome_iff_exists.mp h
    change Function.update (k.tasks.keep own) n none t = some d at hd
    by_cases ht : t = n
    · exact ht ▸ hn
    · rw [Function.update_of_ne ht] at hd
      exact task_of_keep k own t d hd

/-- Everything holds when the processor was handed on. -/
theorem holds_of_handed (hk : k.Holds x low) (base n : Word) (hroomy : k.Roomy base)
    (hn : k.task n) (own c : Context) (s : State)
    (hhanded : Handed x (k.keeps x) k.state.cpu.mem s.cpu.mem low base n own)
    (hc : k.tasks.keep own n = some c) (hcontext : contextOf s = c)
    (hirq : s.cpu.reg (.irq, .sp) = low + 28#32) :
    Holds x low ⟨⟨n, c, Function.update (k.tasks.keep own) n none⟩, k.stack, s⟩ := by
  have hcur : k.task k.tasks.current := Or.inl rfl
  have hsub := fun t => task_of_turn k own c n t s hn
  have hpsr : s.cpu.cpsr = c.psr := congrArg Context.psr hcontext
  constructor
  case live => exact hcontext
  case mode =>
    change s.cpu.cpsr.mode = userModeBits ∨ s.cpu.cpsr.mode = svcModeBits
    rw [hpsr]
    unfold Share.keep at hc
    by_cases hstay : n = k.tasks.current
    · rw [hstay, Function.update_self, Option.some.injEq] at hc
      exact hc ▸ hhanded.framed.modes
    · rw [Function.update_of_ne hstay] at hc
      exact (hk.saved n c hc).1.modes
  case current => exact hhanded.current
  case irqSp => exact hirq
  case idle => exact Function.update_self ..
  case aligned => exact fun t ht => hk.aligned t (hsub t ht)
  case saved =>
    intro t d hd
    change Function.update (k.tasks.keep own) n none t = some d at hd
    change Framed s.cpu.mem (s.cpu.mem t) d ∧ Aligned (s.cpu.mem t) ∧
      ∀ a, In (s.cpu.mem t) 72 a → k.stack t a
    have htn : t ≠ n := by
      rintro rfl
      rw [Function.update_self] at hd
      exact absurd hd.symm (Option.some_ne_none d)
    rw [Function.update_of_ne htn] at hd
    unfold Share.keep at hd
    by_cases ht : t = k.tasks.current
    · -- The task that had the processor.
      rw [ht, Function.update_self, Option.some.injEq] at hd
      have hbase : s.cpu.mem t = base := by
        rw [ht, ← hk.current]
        exact hhanded.saved (by rw [hk.current, ← ht]; exact Ne.symm htn)
      rw [hbase, ← hd, ht]
      exact ⟨hhanded.framed, hroomy.2.1, hroomy.2.2⟩
    · -- A task that has been waiting.
      rw [Function.update_of_ne ht] at hd
      have htask : k.task t := Or.inr (Option.isSome_iff_exists.mpr ⟨d, hd⟩)
      obtain ⟨hframed, hal, hin⟩ := hk.saved t d hd
      have hroom : ∀ a, k.stack t a → ¬In base 72 a :=
        fun a ha hbase => hk.apart t _ htask hcur ht a ha (hroomy.2.2 a hbase)
      have hword : s.cpu.mem t = k.state.cpu.mem t := by
        refine hhanded.same t (Or.inr ⟨t, htask, Or.inl rfl⟩) ?_ (hk.words t htask).2.2 ?_
          (hk.words t htask).1
        · exact fun hbase => (hk.stackWords _ t hcur (hroomy.2.2 t hbase)).2.2.2 htask
        · rw [hk.current]
          exact ht
      rw [hword]
      refine ⟨hframed.congr fun a ha => ?_, hal, hin⟩
      obtain ⟨hcurrent, -, hlow, htask'⟩ := hk.stackWords t a htask (hin a ha)
      refine hhanded.same a (Or.inr ⟨t, htask, Or.inr (hin a ha)⟩) (hroom a (hin a ha)) hlow ?_
        hcurrent
      rw [hk.current]
      exact fun heq => htask' (heq ▸ hcur)
  case apart => exact fun t u ht hu => hk.apart t u (hsub t ht) (hsub u hu)
  case stackWords =>
    intro t a ht ha
    obtain ⟨hcurrent, hnext, hlow, htask⟩ := hk.stackWords t a (hsub t ht) ha
    exact ⟨hcurrent, hnext, hlow, fun h => htask (hsub a h)⟩
  case words => exact fun t ht => hk.words t (hsub t ht)

theorem room_of_holds (hk : k.Holds x low) (hx : Placed x low) (base : Word)
    (hroomy : k.Roomy base) : Room k.state.cpu low base where
  lowAligned := hx.aligned
  baseAligned := hroomy.2.1
  irqSp := hk.irqSp
  svcSp := hroomy.1
  apart a hlow hbase :=
    (hk.stackWords _ a (Or.inl rfl) (hroomy.2.2 a hbase)).2.2.1 hlow

/-- What the next task goes on with. -/
theorem keep_of_task (k : Sharing) (own : Context) (n : Word) (hn : k.task n) :
    ∃ c, k.tasks.keep own n = some c ∧ (n = k.tasks.current → c = own) ∧
      (n ≠ k.tasks.current → k.tasks.saved n = some c) := by
  unfold Share.keep
  by_cases hstay : n = k.tasks.current
  · refine ⟨own, ?_, fun _ => rfl, fun hne => absurd hstay hne⟩
    rw [hstay, Function.update_self]
  · rcases hn with hn | hn
    · exact absurd hn hstay
    · obtain ⟨c, hc⟩ := Option.isSome_iff_exists.mp hn
      exact ⟨c, (Function.update_of_ne hstay _ _).trans hc, fun h => absurd h hstay, fun _ => hc⟩

/-- An interrupt ends, with everything as it should be. -/
theorem interrupt_holds (hk : k.Holds x low) (hlinked : x.Linked) (hx : Placed x low)
    (h w : Cpu → Cpu) (n : Word) (hal : k.Allowed x low (.interrupt h w n)) :
    ∃ m s', k.tasks.next (k.act (.interrupt h w n)) = some m ∧
      Leaves (x.kernel hlinked h w) (takeIrq x k.state) s' ∧ Holds x low ⟨m, k.stack, s'⟩ := by
  obtain ⟨⟨base, hroomy⟩, hh, hw, hn⟩ := hal
  obtain ⟨c, hc, hstay, hgo⟩ := keep_of_task k (contextOf k.state) n hn
  have hclear := clear_of_holds hk hx base n hroomy hn
  obtain ⟨s', hleaves, hcontext, hirq, hhanded, -⟩ := irq_leaves x hlinked (k.keeps x) low base n h
    w k.state c (room_of_holds hk hx base hroomy) hk.mode hclear hh hw
    (by rw [hk.current]; exact hstay)
    (by
      rw [hk.current]
      intro hne
      have hframe := frame_of_holds hk base n hroomy c hne (hgo hne)
      rwa [hk.current] at hframe)
  refine ⟨_, s', congrArg (Option.map _) hc, hleaves, ?_⟩
  exact holds_of_handed hk base n hroomy hn _ c s' hhanded hc hcontext hirq

/-- A task gives the processor away, with everything as it should be. -/
theorem yield_holds (hk : k.Holds x low) (hlinked : x.Linked) (hx : Placed x low)
    (w : Cpu → Cpu) (n : Word) (hal : k.Allowed x low (.yield w n)) :
    ∃ m s', k.tasks.next (k.act (.yield w n)) = some m ∧
      Leaves (x.kernel hlinked id w) k.state s' ∧ Holds x low ⟨m, k.stack, s'⟩ := by
  obtain ⟨⟨base, hroomy⟩, hpc, hmode, hnext, hw, hn⟩ := hal
  obtain ⟨c, hc, hstay, hgo⟩ := keep_of_task k (yieldContext k.state) n hn
  have hclear := clear_of_holds hk hx base n hroomy hn
  have hnextRun : ¬In base 72 x.nextRun :=
    fun hin => (hk.stackWords _ _ (Or.inl rfl) (hroomy.2.2 _ hin)).2.1 rfl
  obtain ⟨s', hleaves, hcontext, hirq, hhanded⟩ := yield_leaves x hlinked (k.keeps x) low base n id
    w k.state c hpc (room_of_holds hk hx base hroomy) hmode hclear hnext hnextRun hw
    (by rw [hk.current]; exact hstay)
    (by
      rw [hk.current]
      intro hne
      have hframe := frame_of_holds hk base n hroomy c hne (hgo hne)
      rwa [hk.current] at hframe)
  refine ⟨_, s', congrArg (Option.map _) hc, hleaves, ?_⟩
  exact holds_of_handed hk base n hroomy hn _ c s' hhanded hc hcontext hirq

/-- A task that waits is not touched by what the others do. -/
theorem saved_of_rests (hk : k.Holds x low) (mem : Word → Word)
    (hsame : ∀ a, k.rests x a → mem a = k.state.cpu.mem a) (t : Word) (c : Context)
    (hc : k.tasks.saved t = some c) :
    Framed mem (mem t) c ∧ Aligned (mem t) ∧ ∀ a, In (mem t) 72 a → k.stack t a := by
  have hwaits : k.tasks.waits t = true := Option.isSome_iff_exists.mpr ⟨c, hc⟩
  obtain ⟨hframed, hal, hin⟩ := hk.saved t c hc
  rw [hsame t (Or.inr ⟨t, hwaits, Or.inl rfl⟩)]
  exact ⟨hframed.congr fun a ha => hsame a (Or.inr ⟨t, hwaits, Or.inr (hin a ha)⟩), hal, hin⟩

theorem work_holds (hk : k.Holds x low) (s : State) (hal : k.Allowed x low (.work s)) :
    Holds x low ⟨{ k.tasks with live := contextOf s }, k.stack, s⟩ := by
  obtain ⟨hmode, hirq, hsame⟩ := hal
  exact
    { live := rfl
      mode := hmode
      current := (hsame _ (Or.inl rfl)).trans hk.current
      irqSp := hirq.trans hk.irqSp
      idle := hk.idle
      aligned := hk.aligned
      saved := saved_of_rests hk s.cpu.mem hsame
      apart := hk.apart
      stackWords := hk.stackWords
      words := hk.words }

theorem start_holds (hk : k.Holds x low) (t : Word) (c : Context) (own : Word → Prop)
    (mem : Word → Word) (hal : k.Allowed x low (.start t c own mem)) :
    Holds x low ⟨{ k.tasks with saved := Function.update k.tasks.saved t (some c) },
      Function.update k.stack t own, ⟨k.state.cpu.setMem mem, k.state.pc⟩⟩ := by
  obtain ⟨⟨hnew, halt, hcur, hnext, hlow, hself, hothers, hown⟩, hframed, half, hin, hsame⟩ := hal
  have hne : t ≠ k.tasks.current := fun h => hnew (Or.inl h)
  have hsub : ∀ u, Sharing.task ⟨{ k.tasks with saved := Function.update k.tasks.saved t (some c) },
      Function.update k.stack t own, ⟨k.state.cpu.setMem mem, k.state.pc⟩⟩ u →
      u = t ∨ u ≠ t ∧ k.task u := by
    rintro u (h | h)
    · exact Or.inr ⟨fun hu => hne (hu ▸ h), Or.inl h⟩
    · by_cases hu : u = t
      · exact Or.inl hu
      · change (Function.update k.tasks.saved t (some c) u).isSome = true at h
        rw [Function.update_of_ne hu] at h
        exact Or.inr ⟨hu, Or.inr h⟩
  constructor
  case live => exact hk.live
  case mode => exact hk.mode
  case current => exact (hsame _ (Or.inl rfl)).trans hk.current
  case irqSp => exact hk.irqSp
  case idle => exact (Function.update_of_ne (Ne.symm hne) _ _).trans hk.idle
  case aligned =>
    intro u hu
    rcases hsub u hu with rfl | ⟨-, hu⟩
    · exact halt
    · exact hk.aligned u hu
  case saved =>
    intro u d hd
    change Function.update k.tasks.saved t (some c) u = some d at hd
    change Framed mem (mem u) d ∧ Aligned (mem u) ∧
      ∀ a, In (mem u) 72 a → Function.update k.stack t own u a
    by_cases hu : u = t
    · subst hu
      rw [Function.update_self, Option.some.injEq] at hd
      rw [Function.update_self, ← hd]
      exact ⟨hframed, half, hin⟩
    · rw [Function.update_of_ne hu] at hd ⊢
      exact saved_of_rests hk mem hsame u d hd
  case apart =>
    intro u v hu hv huv a ha
    change Function.update k.stack t own u a at ha
    change ¬Function.update k.stack t own v a
    rcases hsub u hu with rfl | ⟨hut, hu'⟩ <;> rcases hsub v hv with rfl | ⟨hvt, hv'⟩
    · exact absurd rfl huv
    · rw [Function.update_self] at ha
      rw [Function.update_of_ne hvt]
      exact (hown a ha).2.2.2 v hv'
    · rw [Function.update_of_ne hut] at ha
      rw [Function.update_self]
      exact fun h => (hown a h).2.2.2 u hu' ha
    · rw [Function.update_of_ne hut] at ha
      rw [Function.update_of_ne hvt]
      exact hk.apart u v hu' hv' huv a ha
  case stackWords =>
    intro u a hu ha
    change Function.update k.stack t own u a at ha
    rcases hsub u hu with rfl | ⟨hut, hu'⟩
    · rw [Function.update_self] at ha
      refine ⟨(hown a ha).1, (hown a ha).2.1, (hown a ha).2.2.1, fun h => ?_⟩
      rcases hsub a h with rfl | ⟨-, h⟩
      · exact hself ha
      · exact (hothers a h).2 ha
    · rw [Function.update_of_ne hut] at ha
      obtain ⟨hcur', hnext', hlow', htask⟩ := hk.stackWords u a hu' ha
      refine ⟨hcur', hnext', hlow', fun h => ?_⟩
      rcases hsub a h with rfl | ⟨-, h⟩
      · exact (hothers u hu').1 ha
      · exact htask h
  case words =>
    intro u hu
    rcases hsub u hu with rfl | ⟨-, hu⟩
    · exact ⟨hcur, hnext, hlow⟩
    · exact hk.words u hu

theorem stop_holds (hk : k.Holds x low) (t : Word) (hal : k.Allowed x low (.stop t)) :
    Holds x low ⟨{ k.tasks with saved := Function.update k.tasks.saved t none }, k.stack,
      k.state⟩ := by
  have hwas : ∀ u d, Function.update k.tasks.saved t none u = some d →
      k.tasks.saved u = some d := by
    intro u d hd
    by_cases hu : u = t
    · rw [hu, Function.update_self] at hd
      exact absurd hd.symm (Option.some_ne_none d)
    · rwa [Function.update_of_ne hu] at hd
  have hsub : ∀ u, Sharing.task ⟨{ k.tasks with saved := Function.update k.tasks.saved t none },
      k.stack, k.state⟩ u → k.task u := by
    rintro u (h | h)
    · exact Or.inl h
    · obtain ⟨d, hd⟩ := Option.isSome_iff_exists.mp h
      exact Or.inr (Option.isSome_iff_exists.mpr ⟨d, hwas u d hd⟩)
  exact
    { live := hk.live
      mode := hk.mode
      current := hk.current
      irqSp := hk.irqSp
      idle := (Function.update_of_ne (Ne.symm hal) _ _).trans hk.idle
      aligned := fun u hu => hk.aligned u (hsub u hu)
      saved := fun u d hd => hk.saved u d (hwas u d hd)
      apart := fun u v hu hv => hk.apart u v (hsub u hu) (hsub v hv)
      stackWords := fun u a hu ha =>
        let ⟨hcur, hnext, hlow, htask⟩ := hk.stackWords u a (hsub u hu) ha
        ⟨hcur, hnext, hlow, fun h => htask (hsub a h)⟩
      words := fun u hu => hk.words u (hsub u hu) }

end

end Sharing

end Mirros
