import Mathlib.Data.Set.List
import Mirros.Theory.Sched.Lists

/-!
# Operations of the Scheduler

`SchedOk` is what every operation of the scheduler relies on and keeps: the
lists agree with the states of the tasks, every task the scheduler knows has a
priority that has a ready list, and none is in a state it could not have got
into. One lemma for each operation says that it returns and keeps `SchedOk`, and
what it did to the records of the tasks.

The records are what the rest of the development reads. `setTaskState_task`
gives them in closed form for a change of state, `tickRecord` for a tick, and
`switchTask_spec` for a switch. The pointers matter only here: nothing outside
this module and the last looks at a ready list or at the list of sleeping tasks.

The tick walks over the list of sleeping tasks while it takes tasks off. The
induction is on the part of the list that is still ahead; the node just left
still points at it, because taking a node off does not change its own pointers
and putting the task on a ready list uses another node.

## Main definitions

* `SchedOk`: The invariant of the scheduler's lists.
* `tickRecord`: What a tick does to a sleeping task.
* `Sched.tickDown`: The tick up to the decision to switch.

## Theorems

* `findNextRunTask_spec`: The next task is a ready one, or there is none.
* `switchTask_spec`: A switch always returns.
* `osTickHandler_spec`: A tick always returns.
* `publish_spec`: A new task can be published.
* `schedUnlinkTask_spec`: A task waiting to be killed can be taken off its
  lists.
-/

namespace Mirros

/-- The lists agree with the states, and the states and priorities of the tasks
    the scheduler knows make sense. -/
structure SchedOk (s : Sched) (pub : List Nat) : Prop where
  spread : ∃ f, Spread s.links s.count (s.spot pub) f
  prio : ∀ t, s.Known pub t → (s.task t).prio < maxPrio
  live : ∀ t, s.Known pub t → (s.task t).state.Live

/-- A record that hangs on the same list in the same state. -/
theorem schedOk_setTask (s : Sched) (pub : List Nat) (t : Nat) (task : Task) (hs : SchedOk s pub)
    (hstate : task.state = (s.task t).state) (hprio : task.prio = (s.task t).prio) :
    SchedOk (s.setTask t task) pub := by
  have hhome : task.home t = (s.task t).home t := by
    unfold Task.home
    rw [hstate, hprio]
  rcases hs.spread with ⟨f, hf⟩
  -- The lists and the placement stay, since state and priority do.
  refine ⟨⟨f, ?_⟩, fun u hu => ?_, fun u hu => ?_⟩
  · rw [spot_setTask_same s pub t task hhome]
    exact hf
  · by_cases hut : u = t
    · rw [hut, setTask_task_self, hprio]
      exact hs.prio t (hut ▸ hu)
    · rw [setTask_task_other s t u task hut]
      exact hs.prio u hu
  · by_cases hut : u = t
    · rw [hut, setTask_task_self, hstate]
      exact hs.live t (hut ▸ hu)
    · rw [setTask_task_other s t u task hut]
      exact hs.live u hu

theorem known_setTaskState (s : Sched) (pub : List Nat) (t u : Nat) (new : TaskState) :
    (s.setTaskState t new).Known pub u ↔ s.Known pub u := by
  unfold Sched.Known
  rw [setTaskState_idle]

/-- The records after a change of state keep their priorities and stay live. -/
theorem schedOk_of_setTaskState (s : Sched) (pub : List Nat) (t : Nat) (new : TaskState)
    (hs : SchedOk s pub) (ht : s.Known pub t) (hnew : new.Live)
    (hspread : ∃ f, Spread (s.setTaskState t new).links (s.setTaskState t new).count
      ((s.setTaskState t new).spot pub) f) : SchedOk (s.setTaskState t new) pub := by
  have htask := setTaskState_task s t new (hs.live t ht) hnew
  refine ⟨hspread, fun u hu => ?_, fun u hu => ?_⟩
  · rw [known_setTaskState] at hu
    rw [htask, Function.update_apply]
    by_cases hut : u = t
    · rw [if_pos hut]
      exact hs.prio t ht
    · rw [if_neg hut]
      exact hs.prio u hu
  · rw [known_setTaskState] at hu
    rw [htask, Function.update_apply]
    by_cases hut : u = t
    · rw [if_pos hut]
      -- A task that is being killed stays idle whatever is asked for.
      by_cases hidle : (s.task t).state = .idle
      · rw [if_pos hidle]
        exact Or.inr (Or.inr (Or.inr rfl))
      · rw [if_neg hidle]
        exact hnew
    · rw [if_neg hut]
      exact hs.live u hu

theorem schedOk_setTaskState (s : Sched) (pub : List Nat) (t : Nat) (new : TaskState)
    (hs : SchedOk s pub) (ht : s.Known pub t) (hnew : new.Live)
    (hpp : (s.task t).state = .prepare → new ≠ .prepare) :
    SchedOk (s.setTaskState t new) pub ∧ Kept s.links (s.setTaskState t new).links := by
  rcases hs.spread with ⟨f, hf⟩
  rcases spread_setTaskState s pub f t new hf ht (hs.prio t ht) (hs.live t ht) hnew hpp with
    ⟨hsp, hk⟩
  exact ⟨schedOk_of_setTaskState s pub t new hs ht hnew ⟨_, hsp⟩, hk⟩

theorem firstReady_none (s : Sched) (h : s.firstReady = none) (i : Nat) (hi : i < maxPrio - 1) :
    s.count (.prio i) = 0 := by
  unfold Sched.firstReady at h
  rw [List.find?_eq_none] at h
  have := h i (List.mem_range.mpr hi)
  simpa using this

theorem firstReady_some (s : Sched) (i : Nat) (h : s.firstReady = some i) :
    i < maxPrio - 1 ∧ s.count (.prio i) ≠ 0 := by
  unfold Sched.firstReady at h
  have hmem := List.mem_of_find?_eq_some h
  have hp := List.find?_some h
  exact ⟨List.mem_range.mp hmem, by simpa using hp⟩

/-- The next task is the first one on a ready list, or the current one when the
    lists that are looked at are all empty. -/
theorem findNextRunTask_spec (s : Sched) (pub : List Nat) (hs : SchedOk s pub) :
    (s.firstReady = none ∧ s.findNextRunTask = some s.current) ∨
      ∃ i t, s.firstReady = some i ∧ s.findNextRunTask = some t ∧ s.Known pub t ∧
        (s.task t).state = .prepare ∧ (s.task t).prio = i := by
  rcases hs.spread with ⟨f, hf⟩
  rcases hi : s.firstReady with _ | i
  · exact Or.inl ⟨rfl, by simp only [Sched.findNextRunTask, hi]⟩
  · right
    rcases firstReady_some s i hi with ⟨hlt, hcount⟩
    have hvalid : (SchedList.prio i).Valid := by
      simp only [SchedList.Valid]
      omega
    have hnext := ring_next_head _ _ _ (hf.rings.1 _ (mem_schedHeads _ hvalid))
    rcases hseq : f (.list (.prio i)) with _ | ⟨n, q⟩
    · -- The list is not empty, as its counter is not zero.
      rw [hf.count _ hvalid, hseq] at hcount
      exact absurd rfl hcount
    · -- The first node is placed on this ready list, so a ready task owns it.
      rw [hseq, List.headD_cons] at hnext
      have hspot : s.spot pub n = some (.prio i) :=
        (hf.mem _ hvalid n).mp (hseq ▸ List.mem_cons_self)
      cases n with
      | prioRunning t =>
          simp only [Sched.spot, Option.ite_none_right_eq_some, Option.some.injEq,
            SchedList.prio.injEq] at hspot
          refine ⟨i, t, rfl, ?_, hspot.1.1, hspot.1.2, hspot.2⟩
          simp only [Sched.findNextRunTask, hi, hnext]
      | _ => simp [Sched.spot] at hspot

/-- What does not change while tasks move between lists. -/
structure Fixed (s s' : Sched) : Prop where
  kept : Kept s.links s'.links
  pidMap : s'.pidMap = s.pidMap
  idle : s'.idle = s.idle
  scheduleRunning : s'.scheduleRunning = s.scheduleRunning
  inInterrupt : s'.inInterrupt = s.inInterrupt
  pid : ∀ u, (s'.task u).pid = (s.task u).pid
  prio : ∀ u, (s'.task u).prio = (s.task u).prio

theorem fixed_refl (s : Sched) : Fixed s s :=
  ⟨kept_refl s.links, rfl, rfl, rfl, rfl, fun _ => rfl, fun _ => rfl⟩

theorem fixed_trans (s₁ s₂ s₃ : Sched) (h₁ : Fixed s₁ s₂) (h₂ : Fixed s₂ s₃) : Fixed s₁ s₃ :=
  ⟨kept_trans _ _ _ h₁.kept h₂.kept, h₂.pidMap.trans h₁.pidMap, h₂.idle.trans h₁.idle,
    h₂.scheduleRunning.trans h₁.scheduleRunning, h₂.inInterrupt.trans h₁.inInterrupt,
    fun u => (h₂.pid u).trans (h₁.pid u), fun u => (h₂.prio u).trans (h₁.prio u)⟩

theorem fixed_setTask (s : Sched) (t : Nat) (task : Task) (hpid : task.pid = (s.task t).pid)
    (hprio : task.prio = (s.task t).prio) : Fixed s (s.setTask t task) := by
  refine ⟨kept_refl s.links, rfl, rfl, rfl, rfl, fun u => ?_, fun u => ?_⟩
  · by_cases hu : u = t
    · rw [hu, setTask_task_self, hpid]
    · rw [setTask_task_other s t u task hu]
  · by_cases hu : u = t
    · rw [hu, setTask_task_self, hprio]
    · rw [setTask_task_other s t u task hu]

theorem fixed_setTaskState (s : Sched) (t : Nat) (new : TaskState)
    (hk : Kept s.links (s.setTaskState t new).links) : Fixed s (s.setTaskState t new) := by
  have hstore := fixed_setTask s t { s.task t with state := new } rfl rfl
  refine ⟨hk, setTaskState_pidMap s t new, setTaskState_idle s t new,
    setTaskState_scheduleRunning s t new, setTaskState_inInterrupt s t new, fun u => ?_,
    fun u => ?_⟩
  · rcases setTaskState_cases s t new with h | ⟨c, h⟩
    · rw [h]
    · rw [h, (applyChange_frame _ t c).1]
      exact hstore.pid u
  · rcases setTaskState_cases s t new with h | ⟨c, h⟩
    · rw [h]
    · rw [h, (applyChange_frame _ t c).1]
      exact hstore.prio u

theorem known_of_fixed (s s' : Sched) (pub : List Nat) (t : Nat) (h : Fixed s s') :
    s'.Known pub t ↔ s.Known pub t := by
  unfold Sched.Known
  rw [h.idle]

/-- The record of a task after a switch. -/
def switchRecord (s : Sched) (next u : Nat) : Task :=
  if u = next then
    if s.current = next then
      { s.task u with
        runCount := ((s.task u).runCount + 1) % 0x100000000
        runTime := 1 }
    else
      { s.task u with
        timeOut := if (s.task u).waitTime = 0 then 1 else (s.task u).timeOut
        waitTime := -1
        state := .running
        runCount := ((s.task u).runCount + 1) % 0x100000000
        runTime := 1 }
  else if u = s.current ∧ (s.task u).state = .running then { s.task u with state := .prepare }
  else s.task u

/-- The task that is switched away from. -/
theorem switchAway_spec (s : Sched) (pub : List Nat) (hs : SchedOk s pub)
    (hcur : s.Known pub s.current ∨ (s.task s.current).state ≠ .running) (s' : Sched)
    (hs' : s' = if (s.task s.current).state = .running then s.setTaskState s.current .prepare
      else s) :
    SchedOk s' pub ∧ Fixed s s' ∧ s'.current = s.current ∧ s'.nextRun = s.nextRun ∧
      ∀ u, s'.task u = if u = s.current ∧ (s.task u).state = .running
        then { s.task u with state := .prepare } else s.task u := by
  subst hs'
  by_cases hrun : (s.task s.current).state = .running
  · -- A running task that is switched away from is one the scheduler knows.
    have hk : s.Known pub s.current := by
      rcases hcur with hk | hk
      · exact hk
      · exact absurd hrun hk
    rw [if_pos hrun]
    have hlive : TaskState.prepare.Live := Or.inl rfl
    rcases schedOk_setTaskState s pub s.current .prepare hs hk hlive (by
      rw [hrun]
      simp only [reduceCtorEq, ne_eq, not_true_eq_false, imp_self]) with ⟨hok, hkept⟩
    refine ⟨hok, fixed_setTaskState s _ _ hkept, setTaskState_current s _ _,
      setTaskState_nextRun s _ _, fun u => ?_⟩
    rw [setTaskState_task s _ _ (hs.live _ hk) hlive, Function.update_apply]
    by_cases hu : u = s.current
    · rw [hu]
      simp only [hrun, if_true, and_self, reduceCtorEq, if_false]
    · rw [if_neg hu, if_neg (fun hc => hu hc.1)]
  · rw [if_neg hrun]
    refine ⟨hs, fixed_refl s, rfl, rfl, fun u => ?_⟩
    rw [if_neg]
    rintro ⟨rfl, hu⟩
    exact hrun hu

theorem prepareToSwitch_spec (s : Sched) (pub : List Nat) (next : Nat) (hs : SchedOk s pub)
    (hcur : s.Known pub s.current ∨ (s.task s.current).state ≠ .running)
    (hnext : next = s.current ∨ (s.Known pub next ∧ (s.task next).state = .prepare)) :
    SchedOk (s.prepareToSwitch next) pub ∧ Fixed s (s.prepareToSwitch next) ∧
      (s.prepareToSwitch next).current = s.current ∧
      (s.prepareToSwitch next).nextRun = s.nextRun ∧
      ∀ u, (s.prepareToSwitch next).task u = switchRecord s next u := by
  unfold Sched.prepareToSwitch
  by_cases hcn : s.current = next
  · -- The task goes on: only its times and its counter are written.
    simp only [hcn, if_true]
    refine ⟨schedOk_setTask s pub next _ hs rfl rfl, fixed_setTask s next _ rfl rfl, hcn, rfl,
      fun u => ?_⟩
    unfold switchRecord
    by_cases hu : u = next
    · rw [hu, setTask_task_self, if_pos rfl, if_pos hcn]
    · rw [setTask_task_other _ _ _ _ hu, if_neg hu, if_neg (fun hc => hu (hc.1.trans hcn))]
  · -- Another task is chosen, so it is a ready one.
    have hkn : s.Known pub next ∧ (s.task next).state = .prepare := by
      rcases hnext with h | h
      · exact absurd h.symm hcn
      · exact h
    simp only [hcn, if_false]
    -- The switch in three parts: the task before, the times of the next one, its state.
    generalize hs1 : (if (s.task s.current).state = .running
      then s.setTaskState s.current .prepare else s) = s1
    rcases switchAway_spec s pub hs hcur s1 hs1.symm with ⟨hok1, hfix1, hc1, hn1, htask1⟩
    have hk1 : s1.Known pub next := (known_of_fixed s s1 pub next hfix1).mpr hkn.1
    -- The next task is another one, so the first part left it alone.
    have hn1' : s1.task next = s.task next := by
      rw [htask1, if_neg (fun hc => hcn hc.1.symm)]
    generalize hs2 : s1.setTask next { s1.task next with
      timeOut := if (s1.task next).waitTime = 0 then 1 else (s1.task next).timeOut
      waitTime := -1 } = s2
    have hok2 : SchedOk s2 pub := hs2 ▸ schedOk_setTask s1 pub next _ hok1 rfl rfl
    have hfix2 : Fixed s1 s2 := hs2 ▸ fixed_setTask s1 next _ rfl rfl
    have hc2 : s2.current = s1.current := hs2 ▸ rfl
    have hr2 : s2.nextRun = s1.nextRun := hs2 ▸ rfl
    have hk2 : s2.Known pub next := (known_of_fixed s1 s2 pub next hfix2).mpr hk1
    have hst2 : (s2.task next).state = .prepare := by
      rw [← hs2, setTask_task_self, hn1']
      exact hkn.2
    have hlive : TaskState.running.Live := Or.inr (Or.inl rfl)
    rcases schedOk_setTaskState s2 pub next .running hok2 hk2 hlive (fun _ => by
      simp only [ne_eq, reduceCtorEq, not_false_eq_true]) with ⟨hok3, hkept3⟩
    have htask3 := setTaskState_task s2 next .running (hok2.live next hk2) hlive
    refine ⟨schedOk_setTask _ pub next _ hok3 rfl rfl, ?_, ?_, ?_, fun u => ?_⟩
    · exact fixed_trans s _ _ (fixed_trans s _ _ (fixed_trans s _ _ hfix1 hfix2)
        (fixed_setTaskState s2 next .running hkept3)) (fixed_setTask _ next _ rfl rfl)
    · exact ((setTaskState_current s2 next .running).trans hc2).trans hc1
    · exact ((setTaskState_nextRun s2 next .running).trans hr2).trans hn1
    · unfold switchRecord
      by_cases hu : u = next
      · rw [hu, setTask_task_self, if_pos rfl, if_neg hcn, htask3, Function.update_self, ← hs2,
          setTask_task_self, hn1']
        simp only [hkn.2, reduceCtorEq, if_false]
      · rw [setTask_task_other _ _ _ _ hu, htask3, Function.update_of_ne hu, ← hs2,
          setTask_task_other _ _ _ _ hu, if_neg hu]
        exact htask1 u

@[simp] theorem prepareToSwitch_nextRun (s : Sched) (next : Nat) :
    (s.prepareToSwitch next).nextRun = s.nextRun := by
  unfold Sched.prepareToSwitch
  by_cases hcn : s.current = next
  · simp only [hcn, if_true]
    rfl
  · by_cases hrun : (s.task s.current).state = .running
    · simp only [hcn, hrun, if_true, if_false, Sched.setTask, setTaskState_nextRun]
    · simp only [hcn, hrun, if_false, Sched.setTask, setTaskState_nextRun]

/-- A switch goes to the task that `find_next_run_task` found. -/
theorem switchTask_nextRun (s s' : Sched) (next : Nat) (hfind : s.findNextRunTask = some next)
    (hrun : s.switchTask = some s') : s'.nextRun = next := by
  simp only [Sched.switchTask, hfind, Option.bind_eq_bind, Option.bind_some, Option.pure_def,
    Option.some.injEq] at hrun
  rw [← hrun]
  exact prepareToSwitch_nextRun _ _

/-- What a switch did, and to which task. -/
structure Switched (s s' : Sched) (next : Nat) : Prop where
  fixed : Fixed s s'
  current : s'.current = next
  nextRun : s'.nextRun = next
  task : ∀ u, s'.task u = switchRecord s next u

theorem switchTask_spec (s : Sched) (pub : List Nat) (hs : SchedOk s pub)
    (hcur : s.Known pub s.current ∨ (s.task s.current).state ≠ .running) :
    ∃ s' next, s.switchTask = some s' ∧ SchedOk s' pub ∧ Switched s s' next ∧
      ((s.firstReady = none ∧ next = s.current) ∨
        ∃ i, s.firstReady = some i ∧ s.Known pub next ∧ (s.task next).state = .prepare ∧
          (s.task next).prio = i) := by
  -- A task was found, on a ready list or the current one.
  have hchoice : ∃ next, s.findNextRunTask = some next ∧
      ((s.firstReady = none ∧ next = s.current) ∨
        ∃ i, s.firstReady = some i ∧ s.Known pub next ∧ (s.task next).state = .prepare ∧
          (s.task next).prio = i) := by
    rcases findNextRunTask_spec s pub hs with ⟨hn, hf⟩ | ⟨i, t, hi, hf, hk, hst, hp⟩
    · exact ⟨_, hf, Or.inl ⟨hn, rfl⟩⟩
    · exact ⟨t, hf, Or.inr ⟨i, hi, hk, hst, hp⟩⟩
  rcases hchoice with ⟨next, hfind, hwhich⟩
  have hnext : next = s.current ∨ (s.Known pub next ∧ (s.task next).state = .prepare) := by
    rcases hwhich with ⟨_, h⟩ | ⟨i, _, hk, hst, _⟩
    · exact Or.inl h
    · exact Or.inr ⟨hk, hst⟩
  rcases prepareToSwitch_spec { s with nextRun := next } pub next
    ⟨hs.spread, hs.prio, hs.live⟩ hcur hnext with ⟨hok, hfix, _, hr, htask⟩
  refine ⟨{ Sched.prepareToSwitch { s with nextRun := next } next with
    current := (Sched.prepareToSwitch { s with nextRun := next } next).nextRun }, next, ?_,
    ⟨hok.spread, hok.prio, hok.live⟩, ⟨⟨hfix.kept, hfix.pidMap, hfix.idle, hfix.scheduleRunning,
      hfix.inInterrupt, hfix.pid, hfix.prio⟩, hr, hr, htask⟩, hwhich⟩
  simp only [Sched.switchTask, hfind, Option.bind_eq_bind, Option.bind_some, Option.pure_def]

/-- The sequences after a task has left the list of sleeping tasks for the end of its ready
    list. -/
def wokenSeq (f : TaskNode → List TaskNode) (t p : Nat) : TaskNode → List TaskNode :=
  Function.update (Function.update f (.list .sleep) ((f (.list .sleep)).erase (.sleep t)))
    (.list (.prio p)) (f (.list (.prio p)) ++ [.prioRunning t])

theorem wokenSeq_sleep (f : TaskNode → List TaskNode) (t p : Nat) :
    wokenSeq f t p (.list .sleep) = (f (.list .sleep)).erase (.sleep t) := by
  unfold wokenSeq
  rw [Function.update_of_ne (by simp only [ne_eq, TaskNode.list.injEq, reduceCtorEq,
    not_false_eq_true]), Function.update_self]

theorem wokenSeq_prio (f : TaskNode → List TaskNode) (t p q : Nat) :
    wokenSeq f t p (.list (.prio q)) =
      if p = q then f (.list (.prio q)) ++ [.prioRunning t] else f (.list (.prio q)) := by
  unfold wokenSeq
  split_ifs with hpq
  · rw [hpq, Function.update_self]
  · rw [Function.update_of_ne (by
      simp only [ne_eq, TaskNode.list.injEq, SchedList.prio.injEq]
      exact fun hc => hpq hc.symm), Function.update_of_ne (by
      simp only [ne_eq, TaskNode.list.injEq, reduceCtorEq, not_false_eq_true])]

/-- A task that is woken up leaves the list of sleeping tasks, and its node there
    still points at what came after it. -/
theorem wake_spec (s : Sched) (pub : List Nat) (f : TaskNode → List TaskNode) (t : Nat)
    (hs : SchedOk s pub) (hf : Spread s.links s.count (s.spot pub) f) (ht : s.Known pub t)
    (hst : (s.task t).state = .sleep) :
    Spread (s.setTaskState t .prepare).links (s.setTaskState t .prepare).count
        ((s.setTaskState t .prepare).spot pub) (wokenSeq f t (s.task t).prio) ∧
      (s.setTaskState t .prepare).links.next (.sleep t) = s.links.next (.sleep t) := by
  have hlive : TaskState.prepare.Live := Or.inl rfl
  have hne : (s.task t).state ≠ .prepare := by
    rw [hst]
    simp only [ne_eq, reduceCtorEq, not_false_eq_true]
  -- The node is taken off the list of sleeping tasks and put on a ready list.
  have hhome : (s.task t).home t = some (.sleep, .sleep t) := by
    simp only [Task.home, hst]
  have hprio := hs.prio t ht
  have hmove := setTaskState_move s t .prepare (hs.live t ht) hlive (by
    rw [hst]
    simp only [ne_eq, reduceCtorEq, not_false_eq_true]) hne
  have hseq : moveSeq f (s.task t) t .prepare = wokenSeq f t (s.task t).prio := by
    unfold moveSeq wokenSeq
    rw [if_neg (by rw [hst]; simp only [reduceCtorEq, or_self, not_false_eq_true]), hhome]
    simp only [Task.home, enterSeq, leaveSeq]
    rw [Function.update_of_ne (by simp only [ne_eq, TaskNode.list.injEq, reduceCtorEq,
      not_false_eq_true])]
  refine ⟨hseq ▸ (spread_setTaskState s pub f t .prepare hf ht hprio (hs.live t ht) hlive
    (fun hc => absurd hc hne)).1, ?_⟩
  -- Taking it off leaves its pointers, and adding the other node does not touch them.
  have hspot : s.spot pub (.sleep t) = some .sleep := by
    simp only [Sched.spot, ht, hst, and_self, if_true]
  have hmem := (hf.mem .sleep trivial (.sleep t)).mpr hspot
  have hring := hf.rings.1 _ (mem_schedHeads .sleep trivial)
  have hpre := (ring_neighbours_ne s.links _ _ _ hring hmem).2
  have hdel := spread_del s.links s.count (s.spot pub) f hf .sleep (.sleep t) hspot
  have hring' := hdel.rings.1 _ (mem_schedHeads (.prio (s.task t).prio) hprio)
  have hoff := spread_off _ _ _ _ hdel (.sleep t) (Function.update_self _ _ _)
    (fun l => by simp only [ne_eq, reduceCtorEq, not_false_eq_true]) _
    (mem_schedHeads (.prio (s.task t).prio) hprio)
  have hadd := listAddTail_off _ _ (.sleep t) _ hring' hoff (.prioRunning t)
    (by simp only [ne_eq, reduceCtorEq, not_false_eq_true])
  rw [hmove, hhome]
  simp only [Task.home, Sched.enter, Sched.leave]
  exact hadd.1.trans (listDel_next_self s.links (.sleep t) hpre)

/-- The record of a sleeping task after a tick. -/
def tickRecord (task : Task) : Task :=
  let waitTime := if 0 < task.waitTime then task.waitTime - 1 else task.waitTime
  { task with
    waitTime := waitTime
    state := if waitTime = 0 then .prepare else task.state }

theorem tickRecord_eq (task r : Task) (hr : r = if 0 < task.waitTime
    then { task with waitTime := task.waitTime - 1 } else task) :
    tickRecord task = if r.waitTime = 0 then { r with state := .prepare } else r := by
  subst hr
  unfold tickRecord
  by_cases hw : 0 < task.waitTime
  · simp only [hw, if_true]
    by_cases h0 : task.waitTime - 1 = 0
    · simp only [h0, if_true]
    · simp only [h0, if_false]
  · simp only [hw, if_false]
    by_cases h0 : task.waitTime = 0
    · simp only [h0, if_true]
    · simp only [h0, if_false]

/-- The time of a sleeping task is over at the next tick. -/
def Task.Expires (task : Task) : Prop :=
  task.waitTime = 0 ∨ task.waitTime = 1

instance (task : Task) : Decidable task.Expires :=
  inferInstanceAs (Decidable (_ ∨ _))

theorem tickTask_spec (s : Sched) (pub : List Nat) (f : TaskNode → List TaskNode) (t : Nat)
    (hs : SchedOk s pub) (hf : Spread s.links s.count (s.spot pub) f) (ht : s.Known pub t)
    (hst : (s.task t).state = .sleep) (s' : Sched) (hs' : s' = s.tickTask t) :
    SchedOk s' pub ∧ Fixed s s' ∧ s'.current = s.current ∧ s'.nextRun = s.nextRun ∧
      s'.task = Function.update s.task t (tickRecord (s.task t)) ∧
      s'.links.next (.sleep t) = s.links.next (.sleep t) ∧
      Spread s'.links s'.count (s'.spot pub)
        (if (s.task t).Expires then wokenSeq f t (s.task t).prio else f) := by
  subst hs'
  unfold Sched.tickTask
  simp only []
  -- The record with the time counted down; its state and its priority are as before.
  generalize hr : (if 0 < (s.task t).waitTime
    then { s.task t with waitTime := (s.task t).waitTime - 1 } else s.task t) = r
  rw [tickRecord_eq (s.task t) r hr.symm]
  have hrs : r.state = (s.task t).state := by
    rw [← hr]
    split <;> rfl
  have hrp : r.prio = (s.task t).prio := by
    rw [← hr]
    split <;> rfl
  have hrpid : r.pid = (s.task t).pid := by
    rw [← hr]
    split <;> rfl
  have hexp : r.waitTime = 0 ↔ (s.task t).Expires := by
    unfold Task.Expires
    rw [← hr]
    split_ifs
    · simp only
      omega
    · omega
  have hok := schedOk_setTask s pub t r hs hrs hrp
  have hf1 : Spread (s.setTask t r).links (s.setTask t r).count ((s.setTask t r).spot pub) f := by
    rw [spot_setTask_same s pub t r (by simp only [Task.home, hrs, hrp])]
    exact hf
  have hst1 : ((s.setTask t r).task t).state = .sleep := by
    rw [setTask_task_self, hrs, hst]
  -- At zero the task is woken up, and its node leaves the list.
  by_cases hw : r.waitTime = 0
  · rw [if_pos hw, if_pos hw, if_pos (hexp.mp hw)]
    have hlive : TaskState.prepare.Live := Or.inl rfl
    rcases schedOk_setTaskState (s.setTask t r) pub t .prepare hok ht hlive (by
      rw [hst1]
      simp only [reduceCtorEq, ne_eq, not_true_eq_false, imp_self]) with ⟨hok2, hk2⟩
    rcases wake_spec (s.setTask t r) pub f t hok hf1 ht hst1 with ⟨hf', hnext⟩
    rw [setTask_task_self, hrp] at hf'
    refine ⟨hok2, fixed_trans s _ _ (fixed_setTask s t r hrpid hrp) (fixed_setTaskState _ _ _ hk2),
      setTaskState_current _ _ _, setTaskState_nextRun _ _ _, ?_, hnext, hf'⟩
    rw [setTaskState_task _ t .prepare (hok.live t ht) hlive, setTask_task_self]
    simp only [Sched.setTask, Function.update_idem, hrs, hst, reduceCtorEq, if_false]
  · rw [if_neg hw, if_neg hw, if_neg (fun hc => hw (hexp.mpr hc))]
    exact ⟨hok, fixed_setTask s t r hrpid hrp, rfl, rfl, rfl, rfl, hf1⟩

/-- The walk over the part `ts` of the list that is still ahead: each task there is counted
    down once, and those whose time is over go to the ends of their ready lists, in the order
    of the list. -/
theorem tickLoop_spec (pub : List Nat) : ∀ (ts : List Nat) (fuel : Nat) (s : Sched)
    (f : TaskNode → List TaskNode) (k : List TaskNode), SchedOk s pub →
    Spread s.links s.count (s.spot pub) f → f (.list .sleep) = k ++ ts.map .sleep →
    ts.length < fuel →
    ∃ s' f', Sched.tickLoop fuel s ((ts.map TaskNode.sleep).headD (.list .sleep)) = some s' ∧
      SchedOk s' pub ∧ Fixed s s' ∧ s'.current = s.current ∧ s'.nextRun = s.nextRun ∧
      (∀ u, s'.task u = if u ∈ ts then tickRecord (s.task u) else s.task u) ∧
      Spread s'.links s'.count (s'.spot pub) f' ∧
      f' (.list .sleep) = k ++ (ts.filter (fun u => ¬(s.task u).Expires)).map .sleep ∧
      ∀ p, f' (.list (.prio p)) = f (.list (.prio p)) ++
        (ts.filter (fun u => (s.task u).Expires ∧ (s.task u).prio = p)).map .prioRunning := by
  intro ts
  induction ts with
  | nil =>
      intro fuel s f k hs hf hseq hfuel
      rcases Nat.exists_eq_add_one_of_ne_zero (Nat.ne_of_gt (Nat.zero_lt_of_lt hfuel)) with
        ⟨fuel', rfl⟩
      refine ⟨s, f, ?_, hs, fixed_refl s, rfl, rfl, fun u => ?_, hf, hseq, fun p => ?_⟩
      · simp only [List.map_nil, List.headD_nil, Sched.tickLoop, if_true]
      · rw [if_neg (List.not_mem_nil)]
      · rw [List.filter_nil, List.map_nil, List.append_nil]
  | cons t ts ih =>
      intro fuel s f k hs hf hseq hfuel
      rcases Nat.exists_eq_add_one_of_ne_zero (Nat.ne_of_gt (Nat.zero_lt_of_lt hfuel)) with
        ⟨fuel', rfl⟩
      rw [List.map_cons] at hseq
      -- The nodes still to come are all of sleeping tasks.
      have hspot : s.spot pub (.sleep t) = some .sleep := by
        rw [← hf.mem .sleep trivial, hseq]
        exact List.mem_append_right k List.mem_cons_self
      have hring := hf.rings.1 _ (mem_schedHeads .sleep trivial)
      rw [hseq] at hring
      simp only [Sched.spot, Option.ite_none_right_eq_some, and_true] at hspot
      rcases tickTask_spec s pub f t hs hf hspot.1 hspot.2 _ rfl with
        ⟨hok, hfix, hc, hn, htask, hnext, hf'⟩
      have hnd := List.nodup_append.mp (List.nodup_cons.mp hring.1).2
      have htq : TaskNode.sleep t ∉ ts.map TaskNode.sleep := (List.nodup_cons.mp hnd.2.1).1
      have htts : t ∉ ts := fun hm => htq (List.mem_map_of_mem hm)
      -- The tasks still to come have the records they had.
      have hother : ∀ u ∈ ts, (s.tickTask t).task u = s.task u := by
        intro u hu
        have hut : u ≠ t := fun hc => htts (hc ▸ hu)
        rw [htask, Function.update_of_ne hut]
      have hsleep : (ts.filter (fun u => ¬((s.tickTask t).task u).Expires)) =
          ts.filter (fun u => ¬(s.task u).Expires) :=
        List.filter_congr (fun u hu => by rw [hother u hu])
      have hready : ∀ p, (ts.filter (fun u => ((s.tickTask t).task u).Expires ∧
            ((s.tickTask t).task u).prio = p)) =
          ts.filter (fun u => (s.task u).Expires ∧ (s.task u).prio = p) :=
        fun p => List.filter_congr (fun u hu => by rw [hother u hu])
      have htasks : ∀ s' : Sched, (∀ u, s'.task u = if u ∈ ts then tickRecord ((s.tickTask t).task u)
          else (s.tickTask t).task u) →
          ∀ u, s'.task u = if u ∈ t :: ts then tickRecord (s.task u) else s.task u := by
        intro s' htask' u
        rw [htask', htask, Function.update_apply]
        by_cases hu : u = t
        · rw [hu, if_neg htts, if_pos rfl, if_pos List.mem_cons_self]
        · have hmem : u ∈ t :: ts ↔ u ∈ ts := by
            simp only [List.mem_cons, hu, false_or]
          simp only [hu, if_false, hmem]
      -- The loop goes on by the pointer of the node, wherever that is by now.
      have hgo : ∀ s', Sched.tickLoop fuel' (s.tickTask t)
          ((ts.map TaskNode.sleep).headD (.list .sleep)) = some s' →
          Sched.tickLoop (fuel' + 1) s (((t :: ts).map TaskNode.sleep).headD (.list .sleep)) =
            some s' := by
        intro s' hrun
        simp only [List.map_cons, List.headD_cons, Sched.tickLoop, reduceCtorEq, if_false]
        rw [hnext, (ring_split _ _ _ k _ hring).2]
        exact hrun
      have hfuel' : ts.length < fuel' := by
        rw [List.length_cons] at hfuel
        omega
      by_cases hexp : (s.task t).Expires
      · rw [if_pos hexp] at hf'
        have hleft : wokenSeq f t (s.task t).prio (.list .sleep) = k ++ ts.map .sleep := by
          rw [wokenSeq_sleep, hseq, List.erase_append_right _ (fun hc =>
            hnd.2.2 _ hc _ List.mem_cons_self rfl), List.erase_cons_head]
        rcases ih fuel' (s.tickTask t) _ k hok hf' hleft hfuel' with
          ⟨s', f', hrun, hok', hfix', hc', hn', htask', hspread, hseq', hprio'⟩
        refine ⟨s', f', hgo s' hrun, hok', fixed_trans s _ _ hfix hfix', hc'.trans hc,
          hn'.trans hn, htasks s' htask', hspread, ?_, fun p => ?_⟩
        · rw [hseq', hsleep, List.filter_cons_of_neg (by simp only [hexp, not_true_eq_false,
            decide_false, Bool.false_eq_true, not_false_eq_true])]
        · rw [hprio', hready, wokenSeq_prio]
          by_cases hp : (s.task t).prio = p
          · rw [if_pos hp, List.filter_cons_of_pos (by simp only [hexp, hp, and_self, decide_true]),
              List.map_cons, List.append_assoc]
            rfl
          · rw [if_neg hp, List.filter_cons_of_neg (by simp only [hp, and_false, decide_false,
              Bool.false_eq_true, not_false_eq_true])]
      · rw [if_neg hexp] at hf'
        have hkept : f (.list .sleep) = (k ++ [.sleep t]) ++ ts.map .sleep := by
          rw [hseq, List.append_assoc]
          rfl
        rcases ih fuel' (s.tickTask t) f (k ++ [.sleep t]) hok hf' hkept hfuel' with
          ⟨s', f', hrun, hok', hfix', hc', hn', htask', hspread, hseq', hprio'⟩
        refine ⟨s', f', hgo s' hrun, hok', fixed_trans s _ _ hfix hfix', hc'.trans hc,
          hn'.trans hn, htasks s' htask', hspread, ?_, fun p => ?_⟩
        · rw [hseq', hsleep, List.filter_cons_of_pos (by simp only [hexp, not_false_eq_true,
            decide_true]), List.map_cons, List.append_assoc]
          rfl
        · rw [hprio', hready, List.filter_cons_of_neg (by simp only [hexp, false_and, decide_false,
            Bool.false_eq_true, not_false_eq_true])]

/-- The nodes on the list of sleeping tasks are those of the tasks that sleep. -/
theorem spread_sleep (s : Sched) (pub : List Nat) (f : TaskNode → List TaskNode)
    (hf : Spread s.links s.count (s.spot pub) f) :
    ∃ ts : List Nat, f (.list .sleep) = ts.map .sleep ∧
      ∀ u, u ∈ ts ↔ s.Known pub u ∧ (s.task u).state = .sleep := by
  have hrange : f (.list .sleep) ∈ Set.range (List.map TaskNode.sleep) := by
    rw [Set.range_list_map]
    intro n hn
    rw [hf.mem .sleep trivial] at hn
    cases n with
    | sleep u => exact ⟨u, rfl⟩
    | _ => simp [Sched.spot] at hn
  rcases hrange with ⟨ts, hts⟩
  refine ⟨ts, hts.symm, fun u => ?_⟩
  have hmem : u ∈ ts ↔ TaskNode.sleep u ∈ f (.list .sleep) := by
    rw [← hts, List.mem_map_of_injective (fun a b hab => TaskNode.sleep.inj hab)]
  rw [hmem, hf.mem .sleep trivial]
  simp only [Sched.spot, Option.ite_none_right_eq_some, and_true]

/-- What a tick does before it decides whether to switch. -/
structure Ticked (pub : List Nat) (s s' : Sched) : Prop where
  fixed : Fixed s s'
  current : s'.current = s.current
  nextRun : s'.nextRun = s.nextRun
  other : ∀ u, u ≠ s.current → s'.task u =
    if s.Known pub u ∧ (s.task u).state = .sleep then tickRecord (s.task u) else s.task u
  self : ∃ r, r = (if s.Known pub s.current ∧ (s.task s.current).state = .sleep
    then tickRecord (s.task s.current) else s.task s.current) ∧
      s'.task s.current = { r with runTime := r.runTime - 1 }

/-- The part of `os_tick_handler` before it decides whether to switch. -/
def Sched.tickDown (s : Sched) : Option Sched := do
  let s ← tickLoop ((s.count .sleep).toNat + 1) s (s.links.next (.list .sleep))
  return s.setTask s.current { s.task s.current with runTime := (s.task s.current).runTime - 1 }

theorem osTickHandler_eq (s : Sched) :
    s.osTickHandler = s.tickDown.bind
      (fun k => if (k.task k.current).runTime = 0 then k.switchTask else some k) := by
  unfold Sched.osTickHandler Sched.tickDown
  rcases Sched.tickLoop ((s.count .sleep).toNat + 1) s (s.links.next (.list .sleep)) with _ | k
  · rfl
  · simp only [Option.bind_eq_bind, Option.bind_some, Option.pure_def]
    rw [show (k.setTask k.current { k.task k.current with
      runTime := (k.task k.current).runTime - 1 }).current = k.current from rfl,
      setTask_task_self]

theorem tickDown_spec (s : Sched) (pub : List Nat) (hs : SchedOk s pub) :
    ∃ s', s.tickDown = some s' ∧ SchedOk s' pub ∧ Ticked pub s s' := by
  rcases hs.spread with ⟨f, hf⟩
  rcases spread_sleep s pub f hf with ⟨ts, hts, hmem⟩
  have hnext := ring_next_head _ _ _ (hf.rings.1 _ (mem_schedHeads .sleep trivial))
  rcases tickLoop_spec pub ts ((s.count .sleep).toNat + 1) s f [] hs hf hts (by
    rw [hf.count .sleep trivial, hts, List.length_map]
    omega) with ⟨s1, f1, hrun, hok1, hfix1, hc1, hn1, htask1, -⟩
  rw [← hts, ← hnext] at hrun
  simp only [hmem] at htask1
  refine ⟨s1.setTask s1.current { s1.task s1.current with
    runTime := (s1.task s1.current).runTime - 1 }, ?_, schedOk_setTask s1 pub _ _ hok1 rfl rfl,
    ⟨fixed_trans s _ _ hfix1 (fixed_setTask s1 _ _ rfl rfl), hc1, hn1, fun u hu => ?_,
      s1.task s.current, htask1 s.current, ?_⟩⟩
  · simp only [Sched.tickDown, hrun, Option.bind_eq_bind, Option.bind_some, Option.pure_def]
  · rw [setTask_task_other _ _ _ _ (by rw [hc1]; exact hu)]
    exact htask1 u
  · rw [hc1, setTask_task_self]

theorem osTickHandler_spec (s : Sched) (pub : List Nat) (hs : SchedOk s pub) :
    ∃ s', SchedOk s' pub ∧ Ticked pub s s' ∧
      s.osTickHandler = if (s'.task s'.current).runTime = 0 then s'.switchTask else some s' := by
  rcases tickDown_spec s pub hs with ⟨s', hdown, hok, htick⟩
  refine ⟨s', hok, htick, ?_⟩
  rw [osTickHandler_eq, hdown]
  rfl

theorem tickRecord_state (task : Task) :
    (tickRecord task).state = task.state ∨ (tickRecord task).state = .prepare := by
  unfold tickRecord
  simp only []
  generalize (if 0 < task.waitTime then task.waitTime - 1 else task.waitTime) = w
  by_cases hw : w = 0
  · exact Or.inr (if_pos hw)
  · exact Or.inl (if_neg hw)

/-- A tick only wakes sleeping tasks. -/
theorem ticked_state (pub : List Nat) (s s' : Sched) (h : Ticked pub s s') (u : Nat) :
    (s'.task u).state = (s.task u).state ∨
      ((s.task u).state = .sleep ∧ (s'.task u).state = .prepare) := by
  -- The same of the record before the time of the current task is counted down.
  have hrec : ∀ r : Task, r = (if s.Known pub u ∧ (s.task u).state = .sleep
      then tickRecord (s.task u) else s.task u) →
      r.state = (s.task u).state ∨ ((s.task u).state = .sleep ∧ r.state = .prepare) := by
    rintro r rfl
    by_cases hk : s.Known pub u ∧ (s.task u).state = .sleep
    · rw [if_pos hk]
      rcases tickRecord_state (s.task u) with h | h
      · exact Or.inl h
      · exact Or.inr ⟨hk.2, h⟩
    · rw [if_neg hk]
      exact Or.inl rfl
  by_cases hu : u = s.current
  · subst hu
    rcases h.self with ⟨r, hr, htask⟩
    rw [htask]
    exact hrec r hr
  · exact hrec _ (h.other u hu)

/-- A current task that the scheduler does not know is not running after a tick
    either. -/
theorem ticked_current (pub : List Nat) (s s' : Sched) (h : Ticked pub s s')
    (hcur : s.Known pub s.current ∨ (s.task s.current).state ≠ .running) :
    s'.Known pub s'.current ∨ (s'.task s'.current).state ≠ .running := by
  rw [known_of_fixed _ _ _ _ h.fixed, h.current]
  rcases hcur with hk | hk
  · exact Or.inl hk
  · right
    rcases ticked_state pub s s' h s.current with he | ⟨_, he⟩
    · rw [he]
      exact hk
    · rw [he]
      simp only [ne_eq, reduceCtorEq, not_false_eq_true]

theorem wakeupTask_spec (s : Sched) (pub : List Nat) (t : Nat) (hs : SchedOk s pub)
    (ht : s.Known pub t) :
    SchedOk (s.wakeupTask t) pub ∧ Fixed s (s.wakeupTask t) ∧
      (s.wakeupTask t).current = s.current ∧ (s.wakeupTask t).nextRun = s.nextRun ∧
      ∀ u, (s.wakeupTask t).task u = if u = t ∧ (s.task u).state = .sleep
        then { s.task u with runTime := 1, state := .prepare } else s.task u := by
  unfold Sched.wakeupTask
  -- Only a sleeping task is woken up.
  by_cases hst : (s.task t).state = .sleep
  · rw [if_neg (not_not.mpr hst)]
    have hok := schedOk_setTask s pub t { s.task t with runTime := 1 } hs rfl rfl
    have hlive : TaskState.prepare.Live := Or.inl rfl
    rcases schedOk_setTaskState _ pub t .prepare hok ht hlive (by
      rw [setTask_task_self, hst]
      simp only [reduceCtorEq, ne_eq, not_true_eq_false, imp_self]) with ⟨hok2, hk2⟩
    have hfix := fixed_setTask s t { s.task t with runTime := 1 } rfl rfl
    refine ⟨hok2, fixed_trans s _ _ hfix (fixed_setTaskState _ _ _ hk2),
      setTaskState_current _ _ _, setTaskState_nextRun _ _ _, fun u => ?_⟩
    rw [setTaskState_task _ t .prepare (hok.live t ht) hlive, Function.update_apply,
      setTask_task_self]
    by_cases hu : u = t
    · simp only [hu, hst, and_self, if_true, reduceCtorEq, if_false]
    · rw [if_neg hu, if_neg (fun hc => hu hc.1), setTask_task_other _ _ _ _ hu]
  · rw [if_pos hst]
    refine ⟨hs, fixed_refl s, rfl, rfl, fun u => ?_⟩
    rw [if_neg]
    rintro ⟨rfl, hu⟩
    exact hst hu

/-- Only a running task that is switched away from and the next one change their
    state in a switch. -/
theorem switched_state (s s' : Sched) (next : Nat) (h : Switched s s' next) (u : Nat) :
    (s'.task u).state =
      if u = next then if s.current = next then (s.task u).state else .running
      else if u = s.current ∧ (s.task u).state = .running then .prepare
      else (s.task u).state := by
  rw [h.task, switchRecord]
  by_cases hu : u = next
  · rw [if_pos hu, if_pos hu]
    by_cases hc : s.current = next
    · rw [if_pos hc, if_pos hc]
    · rw [if_neg hc, if_neg hc]
  · rw [if_neg hu, if_neg hu]
    by_cases hc : u = s.current ∧ (s.task u).state = .running
    · rw [if_pos hc, if_pos hc]
    · rw [if_neg hc, if_neg hc]

/-- `sched` does nothing, or it switches. -/
theorem sched_spec (s : Sched) (pub : List Nat) (hs : SchedOk s pub)
    (hcur : s.Known pub s.current ∨ (s.task s.current).state ≠ .running) :
    ((s.inInterrupt = true ∨ s.scheduleRunning = false) ∧ s.sched = some s) ∨
      ∃ s' next, s.sched = some s' ∧ SchedOk s' pub ∧ Switched s s' next ∧
        ((s.firstReady = none ∧ next = s.current) ∨
          ∃ i, s.firstReady = some i ∧ s.Known pub next ∧ (s.task next).state = .prepare ∧
            (s.task next).prio = i) := by
  unfold Sched.sched
  by_cases hi : s.inInterrupt = true
  · exact Or.inl ⟨Or.inl hi, if_pos hi⟩
  · rw [if_neg hi]
    by_cases hr : s.scheduleRunning = true
    · rw [if_neg (by rw [hr]; decide)]
      exact Or.inr (switchTask_spec s pub hs hcur)
    · rw [Bool.not_eq_true] at hr
      exact Or.inl ⟨Or.inr hr, if_pos (by rw [hr]; rfl)⟩

/-- `suspend_task_timeout` up to its call of `sched`. -/
theorem suspendTaskTimeout_spec (s : Sched) (pub : List Nat) (t : Nat) (timeout : Int)
    (hs : SchedOk s pub) (ht : s.Known pub t) :
    ((t = 0 ∨ timeout = 0 ∨ (s.task t).state = .idle) ∧ s.suspendTaskTimeout t timeout = some s) ∨
      ∃ s', SchedOk s' pub ∧ Fixed s s' ∧ s'.current = s.current ∧ s'.nextRun = s.nextRun ∧
        (s.task t).state ≠ .idle ∧ t ≠ 0 ∧ timeout ≠ 0 ∧
        s'.task = Function.update s.task t { s.task t with
          waitTime := timeout
          timeOut := 0
          state := .sleep } ∧ s.suspendTaskTimeout t timeout = s'.sched := by
  unfold Sched.suspendTaskTimeout
  -- There is no task or no time.
  by_cases h0 : t = 0 ∨ timeout = 0
  · left
    rw [if_pos h0]
    exact ⟨by tauto, rfl⟩
  · rw [if_neg h0]
    -- A task that is being killed does not go to sleep.
    by_cases hidle : (s.task t).state = .idle
    · left
      rw [if_neg (not_not.mpr hidle)]
      exact ⟨Or.inr (Or.inr hidle), rfl⟩
    · right
      rw [if_pos hidle]
      rw [not_or] at h0
      have hok := schedOk_setTask s pub t { s.task t with waitTime := timeout, timeOut := 0 } hs
        rfl rfl
      have hlive : TaskState.sleep.Live := Or.inr (Or.inr (Or.inl rfl))
      rcases schedOk_setTaskState _ pub t .sleep hok ht hlive (fun _ => by
        simp only [ne_eq, reduceCtorEq, not_false_eq_true]) with ⟨hok2, hk2⟩
      have hfix := fixed_setTask s t { s.task t with waitTime := timeout, timeOut := 0 } rfl rfl
      refine ⟨_, hok2, fixed_trans s _ _ hfix (fixed_setTaskState _ _ _ hk2),
        setTaskState_current _ _ _, setTaskState_nextRun _ _ _, hidle, h0.1, h0.2, ?_, rfl⟩
      rw [setTaskState_task _ t .sleep (hok.live t ht) hlive, setTask_task_self]
      simp only [Sched.setTask, Function.update_idem, hidle, if_false]

/-- `task_kill_self` up to its call of `sched`. -/
theorem taskKillSelf_spec (s : Sched) (pub : List Nat) (t : Nat) (hs : SchedOk s pub)
    (ht : s.Known pub t) (hkiller : s.pidMap 0 = 0 ∨ s.Known pub (s.pidMap 0)) :
    (s.pidMap 0 = 0 ∧ s.taskKillSelf t = some s) ∨
      ∃ s', SchedOk s' pub ∧ Fixed s s' ∧ s'.current = s.current ∧ s'.nextRun = s.nextRun ∧
        s.pidMap 0 ≠ 0 ∧ s.taskKillSelf t = s'.sched ∧
        (∀ u, s'.task u = if u = t then { s.task u with state := .idle }
          else if u = s.pidMap 0 ∧ (s.task u).state = .sleep
          then { s.task u with runTime := 1, state := .prepare } else s.task u) := by
  unfold Sched.taskKillSelf Sched.pidGetTask
  by_cases hk : s.pidMap 0 = 0
  · left
    exact ⟨hk, if_pos hk⟩
  · right
    have hlive : TaskState.idle.Live := Or.inr (Or.inr (Or.inr rfl))
    rcases schedOk_setTaskState s pub t .idle hs ht hlive (fun _ => by
      simp only [ne_eq, reduceCtorEq, not_false_eq_true]) with ⟨hok1, hk1⟩
    -- The task is idle first, and then the killer is woken up.
    have hfix1 := fixed_setTaskState s t .idle hk1
    have htask1 := setTaskState_task s t .idle (hs.live t ht) hlive
    rw [ite_self] at htask1
    have hknown : (s.setTaskState t .idle).Known pub (s.pidMap 0) := by
      rw [known_of_fixed s _ pub _ hfix1]
      rcases hkiller with h | h
      · exact absurd h hk
      · exact h
    rcases wakeupTask_spec _ pub (s.pidMap 0) hok1 hknown with ⟨hok2, hfix2, hc2, hn2, htask2⟩
    refine ⟨_, hok2, fixed_trans s _ _ hfix1 hfix2, hc2.trans (setTaskState_current _ _ _),
      hn2.trans (setTaskState_nextRun _ _ _), hk, if_neg hk, fun u => ?_⟩
    rw [htask2, htask1, Function.update_apply]
    by_cases hu : u = t
    · simp only [hu, if_true, reduceCtorEq, and_false, if_false]
    · simp only [hu, if_false]

/-- The priority of a running task can be changed: it is on no ready list. -/
theorem setTaskPrio_running (s : Sched) (pub : List Nat) (t prio : Nat) (hs : SchedOk s pub)
    (hst : (s.task t).state = .running) (hprio : prio < maxPrio) :
    s.setTaskPrio t prio = s.setTask t { s.task t with prePrio := (s.task t).prio, prio := prio } ∧
      SchedOk (s.setTaskPrio t prio) pub := by
  -- A running task is on no list of a priority, so its record is all there is to change.
  have heq : s.setTaskPrio t prio =
      s.setTask t { s.task t with prePrio := (s.task t).prio, prio := prio } := by
    unfold Sched.setTaskPrio
    simp only [hst, Nat.not_le.mpr hprio, if_false]
  refine ⟨heq, ?_⟩
  rw [heq]
  rcases hs.spread with ⟨f, hf⟩
  refine ⟨⟨f, ?_⟩, fun u hu => ?_, fun u hu => ?_⟩
  · rw [spot_setTask_same s pub t _ (by simp only [Task.home, hst])]
    exact hf
  · by_cases hut : u = t
    · rw [hut, setTask_task_self]
      exact hprio
    · rw [setTask_task_other s t u _ hut]
      exact hs.prio u hu
  · by_cases hut : u = t
    · rw [hut, setTask_task_self]
      exact hs.live t (hut ▸ hu)
    · rw [setTask_task_other s t u _ hut]
      exact hs.live u hu

/-- The list nodes `init_sched_struct` initialises. -/
def freshNodes (t : Nat) : List TaskNode :=
  [.prioRunning t, .system t, .sleep t, .idle t, .mutexGet t, .wait t]

/-- Initialising the nodes of a task the scheduler does not know disturbs no
    list. -/
theorem spread_fresh (s : Sched) (pub : List Nat) (f : TaskNode → List TaskNode) (t : Nat)
    (ht : ¬s.Known pub t) (hf : Spread s.links s.count (s.spot pub) f) :
    Spread ((freshNodes t).foldl initList s.links) s.count (s.spot pub) f := by
  -- A task that is not known yet has its nodes nowhere.
  have hnone : ∀ n ∈ freshNodes t, s.spot pub n = none ∧ ∀ l, n ≠ .list l := by
    intro n hn
    have htp : t ∉ pub := fun hc => ht (Or.inl hc)
    simp only [freshNodes, List.mem_cons, List.not_mem_nil, or_false] at hn
    rcases hn with rfl | rfl | rfl | rfl | rfl | rfl <;>
      simp only [Sched.spot, ht, htp, false_and, if_false, ne_eq, reduceCtorEq, not_false_eq_true,
        implies_true, and_self]
  refine ⟨rings_congr s.links _ schedHeads f (fun h hh a ha => ?_) hf.rings, hf.mem, hf.count,
    hf.valid, hf.head⟩
  -- No node of a list is initialised.
  have han : a ∉ freshNodes t := fun hc =>
    spread_off _ _ _ _ hf a (hnone a hc).1 (hnone a hc).2 h hh ha
  rw [(foldl_initList _ a _).1, (foldl_initList _ a _).2, if_neg han, if_neg han]
  exact ⟨rfl, rfl⟩

/-- A new task gets a record and goes on the system list and on a ready list. -/
theorem publish_eq (s : Sched) (t pid flag parent : Nat) (hpt : parent ≠ t)
    (hprio : (s.task parent).prio < maxPrio) :
    ∃ r : Task, s.publish t pid flag parent =
        (Sched.listAddTaskTail { s.setTask t r with
          links := (freshNodes t).foldl initList s.links
          pidMap := Function.update s.pidMap pid t } .system (.system t)).listAddTaskTail
          (.prio r.prio) (.prioRunning t) ∧
      r.state = .prepare ∧ r.prio < maxPrio ∧ r.pid = pid ∧ r.flag = flag ∧ r.parent = parent ∧
      r.waitTime = -1 ∧ r.timeOut = 0 := by
  -- The four cases of `init_sched_struct`.
  let prio :=
    if flag &&& processTypeKernel ≠ 0 ∧ (0 : Int) < pid then kernelThreadPrio
    else if flag &&& processTypeUser ≠ 0 ∧ (pid : Int) = 1 then processDefaultPrio
    else if flag &&& processTypeUser ≠ 0 ∧ (1 : Int) < pid then (s.task parent).prio
    else kernelThreadPrio - 1
  refine ⟨{ s.task t with
    pid := pid
    flag := flag
    parent := parent
    prio := prio
    prePrio := prio
    runTime := 1
    waitTime := -1
    timeOut := 0
    runCount := 0
    state := .prepare
    exitState := .unknown }, ?_, rfl, ?_, rfl, rfl, rfl, rfl, rfl⟩
  · simp [Sched.publish, Sched.initSchedStruct, Sched.setTaskState, Sched.setTask, getStateChange,
      changeTable, Sched.applyChange, Sched.prioListAddTaskTail, Sched.listAddTaskTail,
      Function.update_of_ne hpt, freshNodes, prio]
  · simp only [prio, kernelThreadPrio, processDefaultPrio]
    unfold maxPrio at hprio ⊢
    -- The priority of the parent is the only one that is not a constant.
    split
    · omega
    · split
      · omega
      · split
        · exact hprio
        · omega

/-- Placing a new task on the system list and on a ready list. -/
theorem spot_publish (s : Sched) (pub : List Nat) (t : Nat) (r : Task) (ht : ¬s.Known pub t)
    (hr : r.state = .prepare) :
    (s.setTask t r).spot (t :: pub) =
      Function.update (Function.update (s.spot pub) (.system t) (some .system)) (.prioRunning t)
        (some (.prio r.prio)) := by
  -- For the other tasks nothing has changed.
  have hother : ∀ u, u ≠ t → ((s.setTask t r).Known (t :: pub) u ↔ s.Known pub u) := by
    intro u hu
    simp only [Sched.Known, Sched.setTask, List.mem_cons, hu, false_or]
  have hself : (s.setTask t r).Known (t :: pub) t := Or.inl List.mem_cons_self
  funext n
  cases n with
  | prioRunning u =>
      by_cases hu : u = t
      · rw [hu, Function.update_self, Sched.spot, setTask_task_self, if_pos ⟨hself, hr⟩]
      · rw [Function.update_of_ne (by simpa using hu), Function.update_of_ne (by simp)]
        simp only [Sched.spot, setTask_task_other s t u r hu, hother u hu]
  | system u =>
      rw [Function.update_of_ne (by simp)]
      by_cases hu : u = t
      · rw [hu, Function.update_self, Sched.spot, if_pos List.mem_cons_self]
      · rw [Function.update_of_ne (by simpa using hu)]
        simp only [Sched.spot, List.mem_cons, hu, false_or]
  | sleep u | idle u =>
      rw [Function.update_of_ne (by simp), Function.update_of_ne (by simp)]
      by_cases hu : u = t
      · simp only [hu, Sched.spot, setTask_task_self, hr, ht, reduceCtorEq, and_false, false_and,
          if_false]
      · simp only [Sched.spot, setTask_task_other s t u r hu, hother u hu]
  | _ =>
      rw [Function.update_of_ne (by simp), Function.update_of_ne (by simp)]
      rfl

theorem publish_spec (s : Sched) (pub : List Nat) (t pid flag parent : Nat) (hs : SchedOk s pub)
    (ht : ¬s.Known pub t) (hpt : parent ≠ t) (hprio : (s.task parent).prio < maxPrio) :
    ∃ r : Task, (s.publish t pid flag parent).task = Function.update s.task t r ∧
      r.state = .prepare ∧ r.prio < maxPrio ∧ r.pid = pid ∧ r.flag = flag ∧ r.parent = parent ∧
      r.waitTime = -1 ∧ r.timeOut = 0 ∧ SchedOk (s.publish t pid flag parent) (t :: pub) ∧
      (s.publish t pid flag parent).current = s.current ∧
      (s.publish t pid flag parent).nextRun = s.nextRun ∧
      (s.publish t pid flag parent).idle = s.idle ∧
      (s.publish t pid flag parent).scheduleRunning = s.scheduleRunning ∧
      (s.publish t pid flag parent).inInterrupt = s.inInterrupt ∧
      (s.publish t pid flag parent).pidMap = Function.update s.pidMap pid t ∧
      Kept ((freshNodes t).foldl initList s.links) (s.publish t pid flag parent).links := by
  rcases publish_eq s t pid flag parent hpt hprio with ⟨r, heq, hrs, hrp, hpid, hflag, hpar, hw, ho⟩
  rcases hs.spread with ⟨f, hf⟩
  have htp : t ∉ pub := fun hc => ht (Or.inl hc)
  -- The nodes are initialised, and then two of them are put on lists.
  have hf1 := spread_fresh s pub f t ht hf
  have hadd1 := spread_add _ s.count _ f hf1 .system (.system t) trivial
    (by simp only [Sched.spot, htp, if_false])
    (fun l => by simp only [ne_eq, reduceCtorEq, not_false_eq_true])
  have hadd2 := spread_add _ _ _ _ hadd1 (.prio r.prio) (.prioRunning t) hrp
    (by
      rw [Function.update_of_ne (by simp)]
      simp only [Sched.spot, ht, false_and, if_false])
    (fun l => by simp only [ne_eq, reduceCtorEq, not_false_eq_true])
  -- Any other task was known before.
  have hknown : ∀ u, u ≠ t → u ∈ t :: pub ∨ u = s.idle → s.Known pub u := by
    intro u hu hk
    simpa only [List.mem_cons, hu, false_or, Sched.Known] using hk
  rw [← spot_publish s pub t r ht hrs] at hadd2
  rw [heq]
  refine ⟨r, rfl, hrs, hrp, hpid, hflag, hpar, hw, ho,
    ⟨⟨_, hadd2⟩, fun u hu => ?_, fun u hu => ?_⟩, rfl, rfl, rfl, rfl, rfl, rfl, fun n hn => ?_⟩
  · by_cases hut : u = t
    · rw [hut]
      exact (setTask_task_self s t r).symm ▸ hrp
    · have hother : (s.setTask t r).task u = s.task u := setTask_task_other s t u r hut
      exact hother.symm ▸ hs.prio u (hknown u hut hu)
  · by_cases hut : u = t
    · rw [hut]
      exact (setTask_task_self s t r).symm ▸ (Or.inl hrs)
    · have hother : (s.setTask t r).task u = s.task u := setTask_task_other s t u r hut
      exact hother.symm ▸ hs.live u (hknown u hut hu)
  · -- A node the scheduler does not use is on neither of the two lists.
    have hns : ∀ m : TaskNode, m.isSched = true → n ≠ m := by
      rintro m hm rfl
      rw [hm] at hn
      exact absurd hn (by simp only [reduceCtorEq, not_false_eq_true])
    have hspot := onlySched_spot s pub n hn
    have hhead : ∀ l, n ≠ .list l := fun l => hns _ rfl
    have hoff1 := spread_off _ _ _ _ hf1 n hspot hhead _ (mem_schedHeads .system trivial)
    have hoff2 := spread_off _ _ _ _ hadd1 n (by
      rw [Function.update_of_ne (hns _ rfl)]
      exact hspot) hhead _ (mem_schedHeads (.prio r.prio) hrp)
    have h1 := listAddTail_off _ _ n _ (hf1.rings.1 _ (mem_schedHeads .system trivial)) hoff1
      (.system t) (hns _ rfl)
    have h2 := listAddTail_off _ _ n _ (hadd1.rings.1 _ (mem_schedHeads (.prio r.prio) hrp)) hoff2
      (.prioRunning t) (hns _ rfl)
    exact ⟨h2.1.trans h1.1, h2.2.trans h1.2⟩

/-- A task waiting to be killed is on the idle list and on the system list, and
    on nothing else. -/
theorem spot_remove (s : Sched) (pub : List Nat) (t : Nat) (hnd : pub.Nodup) (hidle : s.idle ∉ pub)
    (ht : t ∈ pub) (hst : (s.task t).state = .idle) :
    s.spot (pub.erase t) =
      Function.update (Function.update (s.spot pub) (.idle t) none) (.system t) none := by
  -- The task is not known any more, and the others are as before.
  have hmem : ∀ u, u ∈ pub.erase t ↔ u ≠ t ∧ u ∈ pub := fun u => hnd.mem_erase_iff
  have hti : t ≠ s.idle := fun hc => hidle (hc ▸ ht)
  have hother : ∀ u, u ≠ t → (s.Known (pub.erase t) u ↔ s.Known pub u) := by
    intro u hu
    simp only [Sched.Known, hmem, hu, ne_eq, not_false_eq_true, true_and]
  have hself : ¬s.Known (pub.erase t) t := by
    simp only [Sched.Known, hmem, ne_eq, not_true_eq_false, false_and, hti, or_self,
      not_false_eq_true]
  funext n
  cases n with
  | prioRunning u | sleep u =>
      rw [Function.update_of_ne (by simp), Function.update_of_ne (by simp)]
      by_cases hu : u = t
      · simp only [hu, Sched.spot, hst, reduceCtorEq, and_false, if_false]
      · simp only [Sched.spot, hother u hu]
  | idle u =>
      rw [Function.update_of_ne (by simp)]
      by_cases hu : u = t
      · rw [hu, Function.update_self]
        simp only [Sched.spot, hself, false_and, if_false]
      · rw [Function.update_of_ne (by simpa using hu)]
        simp only [Sched.spot, hother u hu]
  | system u =>
      by_cases hu : u = t
      · rw [hu, Function.update_self]
        simp only [Sched.spot, hmem, ne_eq, not_true_eq_false, false_and, if_false]
      · rw [Function.update_of_ne (by simpa using hu), Function.update_of_ne (by simp)]
        simp only [Sched.spot, hmem, ne_eq, hu, not_false_eq_true, true_and]
  | _ =>
      rw [Function.update_of_ne (by simp), Function.update_of_ne (by simp)]
      rfl

theorem schedUnlinkTask_spec (s : Sched) (pub : List Nat) (t : Nat) (hs : SchedOk s pub)
    (hnd : pub.Nodup) (hidle : s.idle ∉ pub) (ht : t ∈ pub) (s' : Sched)
    (hrun : s.schedUnlinkTask t = (true, s')) :
    SchedOk s' (pub.erase t) ∧ Fixed s s' ∧ s'.task = s.task ∧ s'.current = s.current ∧
      s'.nextRun = s.nextRun ∧ (s.task t).state = .idle ∧ (s.task t).pid ≠ 1 ∧
      (s.task t).pid ≠ 0 := by
  unfold Sched.schedUnlinkTask at hrun
  by_cases hst : (s.task t).state = .idle
  · rw [if_neg (not_not.mpr hst)] at hrun
    by_cases hpid : (s.task t).pid = 1 ∨ (s.task t).pid = 0
    · rw [if_pos hpid] at hrun
      exact absurd hrun (by simp only [Prod.mk.injEq, reduceCtorEq, false_and, not_false_eq_true])
    · rw [if_neg hpid] at hrun
      rw [not_or] at hpid
      simp only [Prod.mk.injEq, true_and] at hrun
      subst hrun
      -- The node on the list of idle tasks goes first, then that on the list of all.
      rcases hs.spread with ⟨f, hf⟩
      have hk : s.Known pub t := Or.inl ht
      have hspot1 : s.spot pub (.idle t) = some .idle := by
        simp only [Sched.spot, hk, hst, and_self, if_true]
      have hspot2 : Function.update (s.spot pub) (.idle t) none (.system t) = some .system := by
        rw [Function.update_of_ne (by simp)]
        simp only [Sched.spot, ht, if_true]
      have hdel1 := spread_del _ _ _ f hf .idle (.idle t) hspot1
      have hdel2 := spread_del _ _ _ _ hdel1 .system (.system t) hspot2
      rw [← spot_remove s pub t hnd hidle ht hst] at hdel2
      have hknown : ∀ u, s.Known (pub.erase t) u → s.Known pub u := by
        intro u hu
        rcases hu with hu | hu
        · exact Or.inl (List.mem_of_mem_erase hu)
        · exact Or.inr hu
      refine ⟨⟨⟨_, hdel2⟩, fun u hu => hs.prio u (hknown u hu), fun u hu => hs.live u (hknown u hu)⟩,
        ⟨fun n hn => ?_, rfl, rfl, rfl, rfl, fun _ => rfl, fun _ => rfl⟩, rfl, rfl, rfl, hst,
        hpid.1, hpid.2⟩
      -- A node of another kind is off both lists.
      have hhead : ∀ l, n ≠ .list l := by
        rintro l rfl
        exact absurd hn (by simp only [TaskNode.isSched, reduceCtorEq, not_false_eq_true])
      have hnone := onlySched_spot s pub n hn
      have hnone' : Function.update (s.spot pub) (.idle t) none n = none := by
        rw [Function.update_apply, hnone, ite_self]
      have hoff1 := spread_off _ _ _ _ hf n hnone hhead _ (mem_schedHeads .idle trivial)
      have hoff2 := spread_off _ _ _ _ hdel1 n hnone' hhead _ (mem_schedHeads .system trivial)
      have h1 := listDel_off _ _ n _ (hf.rings.1 _ (mem_schedHeads .idle trivial)) hoff1 (.idle t)
        ((hf.mem .idle trivial _).mpr hspot1)
      have h2 := listDel_off _ _ n _ (hdel1.rings.1 _ (mem_schedHeads .system trivial)) hoff2
        (.system t) ((hdel1.mem .system trivial _).mpr hspot2)
      exact ⟨h2.1.trans h1.1, h2.2.trans h1.2⟩
  · rw [if_pos hst] at hrun
    exact absurd hrun (by simp only [Prod.mk.injEq, reduceCtorEq, false_and, not_false_eq_true])

theorem schedUnlinkTask_refused (s s' : Sched) (t : Nat)
    (hrun : s.schedUnlinkTask t = (false, s')) : s' = s := by
  unfold Sched.schedUnlinkTask at hrun
  split at hrun
  · exact (Prod.mk.inj hrun).2.symm
  · split at hrun
    · exact (Prod.mk.inj hrun).2.symm
    · exact absurd (Prod.mk.inj hrun).1 (by simp only [reduceCtorEq, not_false_eq_true])

/-- `sched_remove_task` takes the task off its lists and clears its pid, or
    refuses. -/
theorem schedRemoveTask_cases (s : Sched) (t : Nat) :
    s.schedRemoveTask t = (false, s) ∨
      ∃ k, s.schedUnlinkTask t = (true, k) ∧ s.schedRemoveTask t = (true, k.releasePid t) := by
  unfold Sched.schedRemoveTask
  rcases hrun : s.schedUnlinkTask t with ⟨b, k⟩
  cases b with
  | false =>
      left
      rw [schedUnlinkTask_refused s k t hrun]
  | true => exact Or.inr ⟨k, rfl, rfl⟩

/-- The scheduler after `sched_init` and `build_idle_task`: every list is empty
    and the idle task runs. -/
theorem boot_spec (s : Sched) (idle : Nat) (s' : Sched)
    (hs' : s' = s.schedInit.buildIdleTask idle) :
    SchedOk s' [] ∧ s'.current = idle ∧ s'.nextRun = idle ∧ s'.idle = idle ∧
      s'.scheduleRunning = true ∧ s'.inInterrupt = s.inInterrupt ∧
      (∀ pid, pid < 1024 → s'.pidMap pid = 0) ∧ (s'.task idle).state = .running ∧
      (∀ u, u ≠ idle → s'.task u = s.task u) := by
  subst hs'
  -- The record of the idle task, which is running from the start.
  have hself : (s.schedInit.buildIdleTask idle).task idle =
      { s.task idle with
        pid := -1
        flag := processTypeKernel
        parent := 0
        prio := kernelThreadPrio - 1
        prePrio := kernelThreadPrio - 1
        runTime := 1
        waitTime := -1
        timeOut := 0
        runCount := 0
        state := .running
        exitState := .unknown } := by
    simp [Sched.buildIdleTask, Sched.initSchedStruct, Sched.setTask, Sched.schedInit,
      processTypeKernel, processTypeUser]
  have hother : ∀ u, u ≠ idle → (s.schedInit.buildIdleTask idle).task u = s.task u := by
    intro u hu
    simp only [Sched.buildIdleTask, Sched.initSchedStruct, Sched.setTask, Sched.schedInit,
      Function.update_of_ne hu]
  have hlinks : (s.schedInit.buildIdleTask idle).links =
      (freshNodes idle).foldl initList ([TaskNode.child idle, .p idle].foldl initList
        s.schedInit.links) := rfl
  refine ⟨⟨⟨fun _ => [], ?_⟩, fun u hu => ?_, fun u hu => ?_⟩, rfl, rfl, rfl, rfl, rfl,
    fun pid hpid => if_pos hpid, ?_, hother⟩
  · -- Every list is initialised and empty.
    have hheads : ∀ l : SchedList, l.Valid →
        (s.schedInit.buildIdleTask idle).links.next (.list l) = .list l ∧
          (s.schedInit.buildIdleTask idle).links.pre (.list l) = .list l := by
      intro l hl
      -- The nodes of the idle task are no heads.
      have hfresh : TaskNode.list l ∉ freshNodes idle := by
        simp only [freshNodes, List.mem_cons, reduceCtorEq, List.not_mem_nil, or_self,
          not_false_eq_true]
      have hmem : TaskNode.list l ∈ (List.range maxPrio).map (fun i => TaskNode.list (.prio i)) ++
          [TaskNode.list .sleep, .list .idle, .list .system] := by
        cases l with
        | prio i =>
            simp only [SchedList.Valid] at hl
            simp [hl]
        | system | idle | sleep => simp
      have hfamily : TaskNode.list l ∉ [TaskNode.child idle, .p idle] := by
        simp only [List.mem_cons, reduceCtorEq, List.not_mem_nil, or_self, not_false_eq_true]
      rw [hlinks, (foldl_initList _ _ _).1, (foldl_initList _ _ _).2, if_neg hfresh, if_neg hfresh,
        (foldl_initList _ _ _).1, (foldl_initList _ _ _).2, if_neg hfamily, if_neg hfamily]
      unfold Sched.schedInit
      simp only []
      rw [(foldl_initList _ _ _).1, (foldl_initList _ _ _).2, if_pos hmem, if_pos hmem]
      exact ⟨rfl, rfl⟩
    have hspot : ∀ n, (s.schedInit.buildIdleTask idle).spot [] n = none := by
      intro n
      -- The idle task is the only one there is, and is running.
      have hk : ∀ u, (s.schedInit.buildIdleTask idle).Known [] u → u = idle := by
        rintro u (hu | hu)
        · exact absurd hu List.not_mem_nil
        · exact hu
      cases n with
      | prioRunning u | sleep u | idle u =>
          rw [Sched.spot, if_neg]
          rintro ⟨hu, hst⟩
          rw [hk u hu, hself] at hst
          exact absurd hst (by simp only [reduceCtorEq, not_false_eq_true])
      | system u => rw [Sched.spot, if_neg List.not_mem_nil]
      | _ => rfl
    refine ⟨⟨?_, ?_⟩, fun l hl n => ?_, fun l hl => ?_, fun n l hn => ?_, fun l => hspot _⟩
    · rintro h ⟨l, hl, rfl⟩
      refine ⟨List.nodup_singleton _, ?_⟩
      exact List.isChain_pair.mpr (hheads l hl)
    · rintro h _ h' _ hne a ha ha'
      rw [List.mem_singleton] at ha ha'
      exact hne (ha.symm.trans ha')
    · rw [hspot n]
      simp only [List.not_mem_nil, reduceCtorEq]
    · cases l with
      | prio i => exact if_pos hl
      | _ => rfl
    · rw [hspot n] at hn
      exact absurd hn (by simp only [reduceCtorEq, not_false_eq_true])
  · rcases hu with hu | hu
    · exact absurd hu List.not_mem_nil
    · rw [show u = idle from hu, hself]
      simp only [kernelThreadPrio, maxPrio]
      omega
  · rcases hu with hu | hu
    · exact absurd hu List.not_mem_nil
    · rw [show u = idle from hu, hself]
      exact Or.inr (Or.inl rfl)
  · rw [hself]

end Mirros
