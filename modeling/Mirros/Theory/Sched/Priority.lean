import Mirros.Theory.Sched.Running

/-!
# The Best Task Runs

Whether the task picked by a switch has the best priority of all that could run,
which are the current task if it is running and the tasks that are ready.

`find_next_run_task` takes the first ready list that is not empty, so among the
ready tasks it picks a best one (`firstReady_least`). The running task is on no
list and is put back on its own only afterwards, in `prepare_to_switch`: it
takes no part in the choice. So a ready task takes the processor from a better
one that is running, for one tick.

The last ready list is not looked at. When nobody is ready above it, the current
task stays; that is the best task if it is running, since the last priority is
the worst. It is no task that could run at all if it has gone to sleep and was
left in `current` because nobody else was ready.

## Main definitions

* `Runnable`: The tasks there are to choose from.
* `Best`: A best one of them.
* `Prefers`: When the choice made is a best one.
* `switchPoint`: The state in which a call chooses the next task.

## Theorems

* `firstReady_least`: The task picked from the ready lists is a best one there.
* `best_switch`: When a switch picks a best task.
* `sched_priority`: The same over whole runs.
-/

namespace Mirros

namespace Sched

/-- The task is the running one, or it is ready. -/
def Runnable (s : Sched) (pub : List Nat) (u : Nat) : Prop :=
  u = s.current ∧ (s.task u).state = .running ∨ s.Known pub u ∧ (s.task u).state = .prepare

/-- No task that could run has a better priority. -/
def Best (s : Sched) (pub : List Nat) (next : Nat) : Prop :=
  s.Runnable pub next ∧ ∀ u, s.Runnable pub u → (s.task next).prio ≤ (s.task u).prio

/-- If the current task is running, a ready task that takes its place is at least
    as good as it is. If not, there is a task to take its place, or the current
    one is ready again. -/
def Prefers (s : Sched) (pub : List Nat) : Prop :=
  ((s.task s.current).state = .running →
      (∃ u, s.Known pub u ∧ (s.task u).state = .prepare ∧ (s.task u).prio < maxPrio - 1) →
      ∃ u, s.Known pub u ∧ (s.task u).state = .prepare ∧
        (s.task u).prio ≤ (s.task s.current).prio) ∧
    ((s.task s.current).state ≠ .running →
      ∃ u, s.Known pub u ∧ (s.task u).state = .prepare ∧
        ((s.task u).prio < maxPrio - 1 ∨ u = s.current))

end Sched

/-- No ready task is better than the first one on the first list that is not
    empty. -/
theorem firstReady_least (s : Sched) (pub : List Nat) (hs : SchedOk s pub) (i : Nat)
    (h : s.firstReady = some i) (u : Nat) (hk : s.Known pub u) (hst : (s.task u).state = .prepare) :
    i ≤ (s.task u).prio := by
  unfold Sched.firstReady at h
  rw [List.find?_range_eq_some] at h
  rcases hs.spread with ⟨f, hf⟩
  have hvalid : (SchedList.prio (s.task u).prio).Valid := hs.prio u hk
  have hmem : TaskNode.prioRunning u ∈ f (.list (.prio (s.task u).prio)) := by
    rw [hf.mem _ hvalid]
    simp only [Sched.spot, hk, hst, and_self, if_true]
  -- The task hangs on the list of its priority.
  have hpos := List.length_pos_of_mem hmem
  -- A list before the one found is empty, and this one is not.
  by_contra hc
  have hempty := h.2.2 _ (Nat.lt_of_not_le hc)
  have hcount := hf.count _ hvalid
  simp only [Bool.not_eq_true', decide_eq_false_iff_not, not_not] at hempty
  omega

/-- When a switch picks a best task. -/
theorem best_switch (s s' : Sched) (pub : List Nat) (hs : SchedOk s pub)
    (hcur : s.Known pub s.current ∨ (s.task s.current).state ≠ .running)
    (hrun : s.switchTask = some s') : s.Best pub s'.nextRun ↔ s.Prefers pub := by
  rcases switchTask_spec s pub hs hcur with ⟨s'', next, hrun', _, hsw, hwhich⟩
  rw [hrun', Option.some.injEq] at hrun
  subst hrun
  rw [hsw.nextRun]
  have hready := firstReady_iff s pub hs
  rcases hwhich with ⟨hnone, rfl⟩ | ⟨i, hsome, hk, hst, hprio⟩
  · -- Nobody is ready above the last list, and the current task stays.
    have hnobody := not_exists.mp (fun hc => hready.mpr hc hnone)
    have hlast : ∀ u, s.Known pub u → (s.task u).state = .prepare →
        (s.task u).prio = maxPrio - 1 := by
      intro u hku hstu
      have hge : ¬(s.task u).prio < maxPrio - 1 := fun hc => hnobody u ⟨hku, hstu, hc⟩
      exact Nat.le_antisymm (Nat.le_sub_one_of_lt (hs.prio u hku)) (Nat.le_of_not_lt hge)
    have hbest : s.Runnable pub s.current → s.Best pub s.current := by
      refine fun hr => ⟨hr, fun u hu => ?_⟩
      rcases hu with ⟨rfl, _⟩ | ⟨hku, hstu⟩
      · exact Nat.le_refl _
      · -- The others have the last priority of all.
        have hself : (s.task s.current).prio < maxPrio := by
          rcases hr with ⟨_, hst⟩ | ⟨hk, _⟩
          · exact hs.prio _ (hcur.resolve_right (not_not.mpr hst))
          · exact hs.prio _ hk
        rw [hlast u hku hstu]
        exact Nat.le_sub_one_of_lt hself
    constructor
    · intro h
      refine ⟨fun _ ⟨u, hu⟩ => absurd hu (hnobody u), fun hnot => ?_⟩
      rcases h.1 with ⟨_, hst⟩ | ⟨hk, hst⟩
      · exact absurd hst hnot
      · exact ⟨s.current, hk, hst, Or.inr rfl⟩
    · intro h
      refine hbest ?_
      by_cases hst : (s.task s.current).state = .running
      · exact Or.inl ⟨rfl, hst⟩
      · rcases h.2 hst with ⟨u, hku, hstu, hlow | rfl⟩
        · exact absurd ⟨hku, hstu, hlow⟩ (hnobody u)
        · exact Or.inr ⟨hku, hstu⟩
  · -- The task picked is a best one of those that are ready.
    have hbelow : (s.task next).prio < maxPrio - 1 := hprio ▸ (firstReady_some s i hsome).1
    have hleast : ∀ u, s.Known pub u → (s.task u).state = .prepare →
        (s.task next).prio ≤ (s.task u).prio := by
      intro u hku hstu
      rw [hprio]
      exact firstReady_least s pub hs i hsome u hku hstu
    constructor
    · intro h
      refine ⟨fun hst _ => ⟨next, hk, ‹_›, h.2 s.current (Or.inl ⟨rfl, hst⟩)⟩, fun _ => ?_⟩
      exact ⟨next, hk, ‹_›, Or.inl hbelow⟩
    · intro h
      refine ⟨Or.inr ⟨hk, ‹_›⟩, fun u hu => ?_⟩
      -- The running task was left out of the choice, so the condition has to speak for it.
      rcases hu with ⟨rfl, hst⟩ | ⟨hku, hstu⟩
      · rcases h.1 hst ⟨next, hk, ‹_›, hbelow⟩ with ⟨v, hkv, hstv, hle⟩
        exact Nat.le_trans (hleast v hkv hstv) hle
      · exact hleast u hku hstu

/-- The state in which a call chooses the next task: `sched` called by a task
    that is running, and a tick at which the time of the current task is up. -/
def SchedSession.switchPoint (s : SchedSession) : SchedCall → Option Sched
  | .sched =>
      if s.sched.inInterrupt = false ∧ s.sched.scheduleRunning = true ∧
        (s.sched.task s.sched.current).state = .running then some s.sched else none
  | .tick => s.sched.tickDown.bind
      (fun k => if (k.task k.current).runTime = 0 then some k else none)
  | _ => none

/-- At a switch point the call is a switch, in a state with the lists right. -/
theorem switchPoint_spec (s : SchedSession) (c : SchedCall) (k : Sched) (h : SchedInv s)
    (hpoint : s.switchPoint c = some k) :
    SchedOk k s.published ∧
      (k.Known s.published k.current ∨ (k.task k.current).state ≠ .running) ∧
      s.call c = k.switchTask.map (fun k' => ((), ⟨k', s.published⟩)) := by
  cases c with
  | sched =>
      simp only [SchedSession.switchPoint, Option.ite_none_right_eq_some, Option.some.injEq]
        at hpoint
      rcases hpoint with ⟨⟨hint, hrun, _⟩, rfl⟩
      refine ⟨h.ok, h.current, ?_⟩
      simp only [SchedSession.call]
      rw [sched_eq_switch s.sched hint hrun]
  | tick =>
      rcases tickDown_spec s.sched s.published h.ok with ⟨k', hdown, hok, htick⟩
      simp only [SchedSession.switchPoint, hdown, Option.bind_some, Option.ite_none_right_eq_some,
        Option.some.injEq] at hpoint
      rcases hpoint with ⟨hzero, rfl⟩
      -- The time of the current task is up, so the tick ends in a switch.
      refine ⟨hok, ticked_current s.published s.sched k' htick h.current, ?_⟩
      simp only [SchedSession.call, osTickHandler_eq, hdown, Option.bind_some, if_pos hzero]
  | fork | suspend | wakeup | killSelf | remove | idlePrio =>
      exact absurd hpoint (by simp only [SchedSession.switchPoint, reduceCtorEq, not_false_eq_true])

/-- In every state of every run, a call that switches picks a best task of those
    that could run if and only if no better running task has to make way and
    there is a task to run. -/
theorem sched_priority (s : Sched) (idle : Nat) (ses : SchedSession)
    (hrun : Run.Reaches SchedSession.call SchedSession.Allowed (SchedSession.booted s idle) ses)
    (c : SchedCall) (k : Sched) (hpoint : ses.switchPoint c = some k) :
    ∃ ses', ses.call c = some ((), ses') ∧
      (k.Best ses.published ses'.sched.nextRun ↔ k.Prefers ses.published) := by
  rcases switchPoint_spec ses c k (schedInv_run s idle ses hrun) hpoint with ⟨hok, hcur, hcall⟩
  rcases switchTask_spec k ses.published hok hcur with ⟨k', _, hswitch, _⟩
  rw [hswitch] at hcall
  exact ⟨_, hcall, best_switch k k' ses.published hok hcur hswitch⟩

/-- The killer was forked and is as good as the idle task, which still has its
    priority of the boot. -/
theorem sched_priority_killer :
    ∃ (ses ses' : SchedSession) (k : Sched), ses.switchPoint .sched = some k ∧
      ses.call .sched = some ((), ses') ∧ k.Best ses.published ses'.sched.nextRun := by
  -- The board right after the fork, with what the theorem asks for.
  have heval : (Run.follow SchedSession.call SchedSession.Allowed
      (SchedSession.booted blankSched 0x100) [.fork 0x200 0 1 0x100]).bind
        (fun ses => (ses.switchPoint .sched).map (fun k => (ses.published,
          (k.task k.current).state, (k.task 0x200).state,
          decide ((k.task 0x200).prio ≤ (k.task k.current).prio))))
      = some ([0x200], .running, .prepare, true) := by decide +kernel
  rcases Option.bind_eq_some_iff.mp heval with ⟨ses, hses, hmap⟩
  rcases Option.map_eq_some_iff.mp hmap with ⟨k, hpoint, hk⟩
  simp only [Prod.mk.injEq, decide_eq_true_eq] at hk
  rcases hk with ⟨hpub, hcur, hst, hle⟩
  have hrun := Run.reaches_of_follow SchedSession.call SchedSession.Allowed _ _ ses hses
  -- The killer is ready and no worse than the idle task that runs.
  rcases sched_priority blankSched 0x100 ses hrun .sched k hpoint with ⟨ses', hcall, hiff⟩
  refine ⟨ses, ses', k, hpoint, hcall, hiff.mpr ⟨fun _ _ => ⟨0x200, Or.inl ?_, hst, hle⟩,
    fun hnot => absurd hcur hnot⟩⟩
  rw [hpub]
  exact List.mem_cons_self

/-- With the killer asleep, `init` takes the processor from the idle task, which
    is running and has its priority of the boot. -/
theorem sched_priority_fails :
    ∃ (ses ses' : SchedSession) (k : Sched),
      Run.Reaches SchedSession.call SchedSession.Allowed (SchedSession.booted blankSched 0x100)
        ses ∧
      ses.switchPoint .tick = some k ∧ ses.call .tick = some ((), ses') ∧
      ¬k.Best ses.published ses'.sched.nextRun := by
  -- Two forks and a sleep, up to the choice of the tick.
  have heval : (Run.follow SchedSession.call SchedSession.Allowed
      (SchedSession.booted blankSched 0x100)
      [.fork 0x200 0 1 0x100, .sched, .suspend 0x200 (-1), .fork 0x300 1 2 0x100]).bind
        (fun ses => (ses.switchPoint .tick).bind (fun k => (ses.call .tick).map (fun r =>
          ((k.task k.current).state,
            decide ((k.task k.current).prio < (k.task r.2.sched.nextRun).prio)))))
      = some (.running, true) := by decide +kernel
  rcases Option.bind_eq_some_iff.mp heval with ⟨ses, hses, hbind⟩
  rcases Option.bind_eq_some_iff.mp hbind with ⟨k, hpoint, hmap⟩
  rcases Option.map_eq_some_iff.mp hmap with ⟨⟨_, ses'⟩, hcall, hpair⟩
  simp only [Prod.mk.injEq, decide_eq_true_eq] at hpair
  have hrun := Run.reaches_of_follow SchedSession.call SchedSession.Allowed _ _ ses hses
  refine ⟨ses, ses', k, hrun, hpoint, hcall, fun hbest => ?_⟩
  -- The idle task was running and has the smaller number.
  exact Nat.not_le_of_lt hpair.2 (hbest.2 k.current (Or.inl ⟨rfl, hpair.1⟩))

end Mirros
