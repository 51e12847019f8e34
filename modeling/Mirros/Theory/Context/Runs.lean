import Mirros.Theory.Context.Machine

/-!
# Runs

Any number of events, one after the other: the code is never stuck, and what it does is what
tasks see that take turns.

## Main definitions

* `Sharing.Run`: A run, with what it does to the tasks.
* `Event.left`: The context a task goes on with that loses the processor.

## Theorems

* `Sharing.step_exists`, `Sharing.step_holds`: One event.
* `Sharing.run_holds`, `Sharing.run_tasks`: A run.
* `interrupt_unseen`, `sharing_refines`, `task_resumes`: What follows for the tasks.
-/

namespace Mirros

open Modes Turns

/-- The context a task goes on with that loses the processor to an event: it gives it away
    where it called `arch_switch_task_sw`, or is interrupted anywhere. -/
def Event.left (e : Event) (s : State) : Context :=
  match e with
  | .yield _ _ => yieldContext s
  | _ => contextOf s

namespace Sharing

variable {x : Symbols} {hx : x.Linked} {low : Word} {k k' : Sharing}

/-- What may happen happens: the code of the kernel does not get stuck. -/
theorem step_exists (hx : x.Linked) (hk : k.Holds x low) (hplaced : Placed x low) (e : Event)
    (hal : k.Allowed x low e) : ∃ k', Step x hx low k e k' := by
  cases e with
  | work s =>
      exact ⟨⟨{ k.tasks with live := contextOf s }, k.stack, s⟩, hal, rfl, rfl, rfl⟩
  | interrupt h w n =>
      obtain ⟨m, s, hm, hs, -⟩ := interrupt_holds hk hx hplaced h w n hal
      exact ⟨⟨m, k.stack, s⟩, hal, hm, rfl, hs⟩
  | yield w n =>
      obtain ⟨m, s, hm, hs, -⟩ := yield_holds hk hx hplaced w n hal
      exact ⟨⟨m, k.stack, s⟩, hal, hm, rfl, hs⟩
  | start t c own mem =>
      exact ⟨⟨{ k.tasks with saved := Function.update k.tasks.saved t (some c) },
        Function.update k.stack t own, ⟨k.state.cpu.setMem mem, k.state.pc⟩⟩, hal,
        if_neg hal.1.1, rfl, rfl⟩
  | stop t =>
      exact ⟨⟨{ k.tasks with saved := Function.update k.tasks.saved t none }, k.stack, k.state⟩,
        hal, if_neg hal, rfl, rfl⟩

/-- One event leaves everything as it should be. -/
theorem step_holds (hk : k.Holds x low) (hplaced : Placed x low) (e : Event)
    (hstep : Step x hx low k e k') : k'.Holds x low := by
  obtain ⟨hal, htasks, hstack, hstate⟩ := hstep
  obtain ⟨tasks, stack, state⟩ := k'
  change k.tasks.next (k.act e) = some tasks at htasks
  change stack = k.stackNext e at hstack
  change Happens x hx k.state e state at hstate
  subst hstack
  cases e with
  | work s =>
      change some { k.tasks with live := contextOf s } = some tasks at htasks
      change state = s at hstate
      rw [Option.some.injEq] at htasks
      subst htasks hstate
      exact work_holds hk state hal
  | interrupt h w n =>
      obtain ⟨m, s, hm, hs, hholds⟩ := interrupt_holds hk hx hplaced h w n hal
      rw [htasks, Option.some.injEq] at hm
      rw [leaves_unique _ _ _ _ hstate hs, hm]
      exact hholds
  | yield w n =>
      obtain ⟨m, s, hm, hs, hholds⟩ := yield_holds hk hx hplaced w n hal
      rw [htasks, Option.some.injEq] at hm
      rw [leaves_unique _ _ _ _ hstate hs, hm]
      exact hholds
  | start t c own mem =>
      have hnext := (if_neg hal.1.1).symm.trans htasks
      rw [Option.some.injEq] at hnext
      change state = ⟨k.state.cpu.setMem mem, k.state.pc⟩ at hstate
      subst hnext hstate
      exact start_holds hk t c own mem hal
  | stop t =>
      have hnext := (if_neg (show ¬t = k.tasks.current from hal)).symm.trans htasks
      rw [Option.some.injEq] at hnext
      change state = k.state at hstate
      subst hnext hstate
      exact stop_holds hk t hal

/-- A run, with what it does to the tasks. -/
inductive Run (x : Symbols) (hx : x.Linked) (low : Word) :
    Sharing → List (Act Word Context) → Sharing → Prop
  | nil (k : Sharing) : Run x hx low k [] k
  | cons (k k' k'' : Sharing) (e : Event) (as : List (Act Word Context))
      (hstep : Step x hx low k e k') (hrest : Run x hx low k' as k'') :
      Run x hx low k (k.act e :: as) k''

theorem run_holds (hk : k.Holds x low) (hplaced : Placed x low) (as : List (Act Word Context))
    (hrun : Run x hx low k as k') : k'.Holds x low := by
  induction hrun with
  | nil k => exact hk
  | cons k k₁ k₂ e as hstep _ ih => exact ih (step_holds hk hplaced e hstep)

theorem run_tasks (as : List (Act Word Context)) (hrun : Run x hx low k as k') :
    k.tasks.run as = some k'.tasks := by
  induction hrun with
  | nil k => rfl
  | cons k k₁ k₂ e as hstep _ ih => exact Option.bind_eq_some_iff.mpr ⟨_, hstep.tasks, ih⟩

/-- What a task is left with that loses the processor. -/
theorem step_left {e : Event} (hstep : Step x hx low k e k')
    (hne : k'.tasks.current ≠ k.tasks.current) :
    k.act e = .turn (e.left k.state) k'.tasks.current := by
  obtain ⟨own, hturn⟩ := next_turn k.tasks k'.tasks (k.act e) hstep.tasks hne
  cases e with
  | interrupt h w m => exact congrArg (Act.turn (contextOf k.state)) (Act.turn.inj hturn).2
  | yield w m => exact congrArg (Act.turn (yieldContext k.state)) (Act.turn.inj hturn).2
  | work s => exact nomatch (show Act.work _ = Act.turn own _ from hturn)
  | start t c o mem => exact nomatch (show Act.start _ _ = Act.turn own _ from hturn)
  | stop t => exact nomatch (show Act.stop _ = Act.turn own _ from hturn)

end Sharing

/-! ### Two tasks -/

theorem lowSymbols_placed : Sharing.Placed lowSymbols 0x3000 where
  aligned := by decide
  current := by decide
  nextRun := by decide
  other := by decide

/-- A user task that has not run yet. -/
def freshContext : Context :=
  { low := List.replicate 13 0
    sp := 0
    lr := 0
    pc := 0
    psr := ⟨0, userModeBits⟩
    top := 0x5148 }

/-- Two user tasks, of which one runs. -/
def twoTasks : Sharing where
  tasks :=
    { current := 0x4000
      live := ⟨List.replicate 13 0, 0, 0, 0x8000, ⟨0, userModeBits⟩, 0x4148⟩
      saved := fun t => if t = 0x5000 then some freshContext else none }
  stack t := In (t + 0x100) 72
  state :=
    { cpu :=
        { reg := fun k => if k = (.svc, .sp) then 0x4148 else if k = (.irq, .sp) then 0x301c else 0
          spsr := fun _ => ⟨0, userModeBits⟩
          cpsr := ⟨0, userModeBits⟩
          mem := fun a => if a = 0x2000 then 0x4000 else if a = 0x5000 then 0x5100
            else if a = 0x5140 then 0x10 else 0 }
      pc := 0x8000 }

theorem twoTasks_task (t : Word) (h : twoTasks.task t) : t = 0x4000 ∨ t = 0x5000 := by
  rcases h with h | h
  · exact Or.inl h
  · refine Or.inr (by_contra fun hne => ?_)
    change (if t = 0x5000 then some freshContext else none).isSome = true at h
    rw [if_neg hne] at h
    exact absurd h (by decide)

theorem twoTasks_holds : twoTasks.Holds lowSymbols 0x3000 := by
  have hstack : ∀ t a, twoTasks.task t → twoTasks.stack t a →
      In 0x4100 72 a ∧ t = 0x4000 ∨ In 0x5100 72 a ∧ t = 0x5000 := by
    intro t a ht ha
    rcases twoTasks_task t ht with rfl | rfl
    · exact Or.inl ⟨ha, rfl⟩
    · exact Or.inr ⟨ha, rfl⟩
  constructor
  case live => rfl
  case mode => exact Or.inl rfl
  case current => rfl
  case irqSp => rfl
  case idle => rfl
  case aligned =>
    intro t ht
    rcases twoTasks_task t ht with rfl | rfl <;> decide
  case saved =>
    intro t c hc
    change (if t = 0x5000 then some freshContext else none) = some c at hc
    split at hc
    · rename_i ht
      rw [Option.some.injEq] at hc
      subst ht hc
      exact ⟨⟨by decide, by decide, by decide, by decide, by decide, by decide⟩, by decide,
        fun a ha => ha⟩
    · exact absurd hc.symm (Option.some_ne_none c)
  case apart =>
    intro t u ht hu hne a ha hb
    rcases hstack t a ht ha with ⟨ha, rfl⟩ | ⟨ha, rfl⟩ <;>
      rcases hstack u a hu hb with ⟨hb, rfl⟩ | ⟨hb, rfl⟩
    · exact hne rfl
    · exact in_apart (by decide) (by decide) a ha hb
    · exact in_apart (by decide) (by decide) a ha hb
    · exact hne rfl
  case stackWords =>
    intro t a ht ha
    have hoff : ∀ b, ¬In (t + 0x100) 72 b → a ≠ b := fun b hb => in_ne ha hb
    rcases twoTasks_task t ht with rfl | rfl
    · refine ⟨hoff _ (by decide), hoff _ (by decide), in_apart (by decide) (by decide) a ha,
        fun h => ?_⟩
      rcases twoTasks_task a h with h | h <;> exact hoff _ (by decide) h
    · refine ⟨hoff _ (by decide), hoff _ (by decide), in_apart (by decide) (by decide) a ha,
        fun h => ?_⟩
      rcases twoTasks_task a h with h | h <;> exact hoff _ (by decide) h
  case words =>
    intro t ht
    rcases twoTasks_task t ht with rfl | rfl <;> decide

/-- An `irq_handler` that only finds the next task. -/
def pick (x : Symbols) (n : Word) (u : Cpu) : Cpu :=
  u.setMem (Function.update u.mem x.nextRun n)

theorem pick_handles (x : Symbols) (low : Word) (hplaced : Sharing.Placed x low) (k : Sharing)
    (hk : k.Holds x low) (n : Word) : Handles x (k.keeps x) n (pick x n) := by
  intro u
  refine ⟨⟨rfl, rfl, rfl, rfl, fun a ha => Function.update_of_ne ?_ _ _⟩, Function.update_self ..⟩
  rcases ha with rfl | ⟨t, ht, rfl | ha⟩
  · exact Ne.symm hplaced.other
  · exact (hk.words a ht).2.1
  · exact (hk.stackWords t a ht ha).2.1

theorem id_switches (x : Symbols) (keep : Word → Prop) (low : Word) : Switches x keep low id :=
  fun _ => ⟨rfl, rfl, rfl, rfl, fun _ _ => rfl⟩

/-- The first task is interrupted and the second one runs; an interrupt brings the first one
    back. -/
theorem twoTasks_run : ∃ k₁ own' k', Sharing.Step lowSymbols lowSymbols_linked 0x3000 twoTasks
      (.interrupt (pick lowSymbols 0x5000) id 0x5000) k₁ ∧ k₁.tasks.current = 0x5000 ∧
    Sharing.Run lowSymbols lowSymbols_linked 0x3000 k₁ ([] ++ [.turn own' 0x4000]) k' := by
  have hk := twoTasks_holds
  have hal : twoTasks.Allowed lowSymbols 0x3000 (.interrupt (pick lowSymbols 0x5000) id 0x5000) :=
    ⟨⟨0x4100, rfl, by decide, fun a ha => ha⟩, pick_handles _ _ lowSymbols_placed _ hk _,
      id_switches _ _ _, Or.inr rfl⟩
  obtain ⟨k₁, hstep⟩ := Sharing.step_exists lowSymbols_linked hk lowSymbols_placed _ hal
  have hk₁ := Sharing.step_holds hk lowSymbols_placed _ hstep
  have htasks : k₁.tasks.current = 0x5000 ∧ k₁.tasks.live = freshContext ∧
      k₁.tasks.waits 0x4000 = true := by
    rcases turn_some twoTasks.tasks k₁.tasks _ _ hstep.tasks with ⟨c, hc, hm⟩
    rw [hm]
    exact ⟨rfl, (Option.some.inj hc).symm, rfl⟩
  have hal₁ : k₁.Allowed lowSymbols 0x3000 (.interrupt (pick lowSymbols 0x4000) id 0x4000) := by
    refine ⟨⟨0x5100, ?_, by decide, fun a ha => ?_⟩, pick_handles _ _ lowSymbols_placed _ hk₁ _,
      id_switches _ _ _, Or.inr htasks.2.2⟩
    · have htop := congrArg Context.top (hk₁.live.trans htasks.2.1)
      exact htop
    · rw [hstep.stack, htasks.1]
      exact ha
  obtain ⟨k₂, hstep₁⟩ := Sharing.step_exists lowSymbols_linked hk₁ lowSymbols_placed _ hal₁
  exact ⟨k₁, _, k₂, hstep, htasks.1, Sharing.Run.cons _ _ _ _ _ hstep₁ (Sharing.Run.nil k₂)⟩

/-! ### Runs -/

/-- A task that is interrupted and goes on sees nothing of it: its registers, its status and the
    memory are as they were, but for what is below its stack and what the handler is there for. -/
theorem interrupt_unseen (x : Symbols) (hx : x.Linked) (keep : Word → Prop) (low base : Word)
    (h w : Cpu → Cpu) (s : State) (hroom : Room s.cpu low base)
    (hmode : s.cpu.cpsr.mode = userModeBits ∨ s.cpu.cpsr.mode = svcModeBits)
    (hclear : Clear x keep s.cpu.mem low base (s.cpu.mem x.current))
    (hh : Handles x keep (s.cpu.mem x.current) h) (hw : Switches x keep low w) :
    (∃ s', Leaves (x.kernel hx h w) (takeIrq x s) s') ∧
      ∀ s', Leaves (x.kernel hx h w) (takeIrq x s) s' → contextOf s' = contextOf s ∧
        (s.cpu.cpsr.mode = svcModeBits → s'.cpu.spsr .svc = s.cpu.spsr .svc) ∧
        s'.cpu.reg (.irq, .sp) = s.cpu.reg (.irq, .sp) ∧
        ∀ a, keep a → ¬In base 72 a → ¬In low 28 a → a ≠ s.cpu.mem x.current →
          s'.cpu.mem a = s.cpu.mem a := by
  obtain ⟨t, ht, hcontext, hirq, hhanded, hspsr⟩ := irq_leaves x hx keep low base _ h w s
    (contextOf s) hroom hmode hclear hh hw (fun _ => rfl) (fun hne => absurd rfl hne)
  refine ⟨⟨t, ht⟩, fun s' hs' => ?_⟩
  rw [leaves_unique _ _ _ _ hs' ht]
  refine ⟨hcontext, hspsr rfl, hirq.trans hroom.irqSp.symm, fun a ha hbase hlow hne => ?_⟩
  by_cases hcurrent : a = x.current
  · rw [hcurrent, hhanded.current]
  · exact hhanded.same a ha hbase hlow hne hcurrent

theorem interrupt_unseen_twoTasks : ∃ s',
    Leaves (lowSymbols.kernel lowSymbols_linked (pick lowSymbols 0x4000) id)
      (takeIrq lowSymbols twoTasks.state) s' ∧ contextOf s' = contextOf twoTasks.state := by
  have hroomy : twoTasks.Roomy 0x4100 := ⟨rfl, by decide, fun a ha => ha⟩
  have hclear := Sharing.clear_of_holds twoTasks_holds lowSymbols_placed 0x4100 0x4000 hroomy
    (Or.inl rfl)
  obtain ⟨⟨s', hs'⟩, hall⟩ := interrupt_unseen lowSymbols lowSymbols_linked
    (twoTasks.keeps lowSymbols) 0x3000 0x4100 (pick lowSymbols 0x4000) id twoTasks.state
    (Sharing.room_of_holds twoTasks_holds lowSymbols_placed 0x4100 hroomy) (Or.inl rfl) hclear
    (pick_handles _ _ lowSymbols_placed _ twoTasks_holds _) (id_switches _ _ _)
  exact ⟨s', hs', (hall s' hs').1⟩

/-- The code that saves and restores contexts does what the tasks see of it, along every run. It
    never gets stuck, whatever may happen next. -/
theorem sharing_refines (x : Symbols) (hx : x.Linked) (low : Word) (hplaced : Sharing.Placed x low)
    (k k' : Sharing) (as : List (Act Word Context)) (hk : k.Holds x low)
    (hrun : Sharing.Run x hx low k as k') :
    k.tasks.run as = some k'.tasks ∧ k'.Holds x low ∧
      ∀ e, k'.Allowed x low e → ∃ k'', Sharing.Step x hx low k' e k'' :=
  ⟨Sharing.run_tasks as hrun, Sharing.run_holds hk hplaced as hrun, fun e hal =>
    Sharing.step_exists hx (Sharing.run_holds hk hplaced as hrun) hplaced e hal⟩

theorem sharing_refines_twoTasks : ∃ as k',
    Sharing.Run lowSymbols lowSymbols_linked 0x3000 twoTasks as k' ∧ as.length = 2 ∧
      twoTasks.tasks.run as = some k'.tasks ∧ k'.Holds lowSymbols 0x3000 := by
  obtain ⟨k₁, own', k', hstep, -, hrest⟩ := twoTasks_run
  have hrun := Sharing.Run.cons _ _ _ _ _ hstep hrest
  obtain ⟨htasks, hholds, -⟩ := sharing_refines lowSymbols lowSymbols_linked 0x3000
    lowSymbols_placed twoTasks k' _ twoTasks_holds hrun
  exact ⟨_, k', hrun, rfl, htasks, hholds⟩

/-- A task that loses the processor, to an interrupt or because it gives it away, goes on as it
    had stopped when it gets the processor back, whatever the other tasks did meanwhile. -/
theorem task_resumes (x : Symbols) (hx : x.Linked) (low : Word) (hplaced : Sharing.Placed x low)
    (k k₁ k' : Sharing) (e : Event) (as : List (Act Word Context)) (own' : Context)
    (hk : k.Holds x low) (hstep : Sharing.Step x hx low k e k₁)
    (hloses : k₁.tasks.current ≠ k.tasks.current)
    (hquiet : ∀ a ∈ as, a.Quiet k.tasks.current)
    (hrun : Sharing.Run x hx low k₁ (as ++ [.turn own' k.tasks.current]) k') :
    k'.state.cpu.mem x.current = k.tasks.current ∧ contextOf k'.state = e.left k.state := by
  have hall := Sharing.Run.cons k k₁ k' e _ hstep hrun
  have hholds := Sharing.run_holds hk hplaced _ hall
  rw [Sharing.step_left hstep hloses] at hall
  obtain ⟨hcurrent, hlive⟩ := run_resumes k.tasks k'.tasks as (e.left k.state) own'
    k₁.tasks.current (Sharing.run_tasks _ hall) hquiet hloses
  exact ⟨hholds.current.trans hcurrent, hholds.live.trans hlive⟩

theorem task_resumes_twoTasks : ∃ k₁ own' k', Sharing.Step lowSymbols lowSymbols_linked 0x3000
      twoTasks (.interrupt (pick lowSymbols 0x5000) id 0x5000) k₁ ∧
    Sharing.Run lowSymbols lowSymbols_linked 0x3000 k₁ ([] ++ [.turn own' 0x4000]) k' ∧
      k'.state.cpu.mem lowSymbols.current = 0x4000 ∧
      contextOf k'.state = contextOf twoTasks.state := by
  obtain ⟨k₁, own', k', hstep, hcurrent, hrun⟩ := twoTasks_run
  have hloses : k₁.tasks.current ≠ twoTasks.tasks.current := by
    rw [hcurrent]
    decide
  obtain ⟨hback, hcontext⟩ := task_resumes lowSymbols lowSymbols_linked 0x3000 lowSymbols_placed
    twoTasks k₁ k' _ [] own' twoTasks_holds hstep hloses (fun a ha => nomatch ha) hrun
  exact ⟨k₁, own', k', hstep, hrun, hback, hcontext⟩

end Mirros
