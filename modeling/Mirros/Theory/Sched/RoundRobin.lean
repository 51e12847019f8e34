import Mirros.Lib.Rota
import Mirros.Theory.Sched.Running

/-!
# Taking Turns

Tasks of one priority, with nobody better, take turns: one tick each, in the
order of their ready list.

A tick uses up the one unit of time that `get_task_run_time` gives out, so every
tick switches. The switch takes the first task of the ready list; the task that
was running goes to the end of the list before the next one leaves it. On the
list that begins with the running task and goes on with the ready list, that is
moving the first task to the end (`tick_turns`). A task that is alone takes the
other path through `prepare_to_switch`, where it is elected again, and moving it
to the end of its list changes nothing there either.

The walk over the sleeping tasks does not disturb this as long as no sleeper is
due: it changes records but no pointer (`tickLoop_quiet`).

## Main definitions

* `InLine`: The running task and the ready ones after it, in their order.
* `Turns`: The same, when the running task has one tick left.
* `NoneDue`: Nobody wakes up for a number of ticks.
* `Sched.ticks`: A number of ticks.

## Theorems

* `tickLoop_quiet`: The walk over sleeping tasks that are not due.
* `prepareToSwitch_ring`: The ready list after a switch.
* `tick_turns`: A tick moves the first task to the end.
* `round_robin`: The same for any number of ticks.
-/

namespace Mirros

/-- The first task is running and the others are ready, in this order on the list
    of their priority. Nobody else is ready above the last list. -/
structure InLine (s : Sched) (pub : List Nat) (p : Nat) (ts : List Nat) : Prop where
  above : p < maxPrio - 1
  known : ∀ t ∈ ts, s.Known pub t
  prio : ∀ t ∈ ts, (s.task t).prio = p
  first : ts.head? = some s.current
  running : (s.task s.current).state = .running
  ready : Ring s.links (.list (.prio p)) (ts.tail.map TaskNode.prioRunning)
  others : ∀ u, s.Known pub u → (s.task u).state = .prepare → (s.task u).prio < maxPrio - 1 →
    u ∈ ts.tail

/-- The tasks take turns, and the first one has one tick left. -/
structure Turns (s : Sched) (pub : List Nat) (p : Nat) (ts : List Nat) : Prop
    extends InLine s pub p ts where
  time : (s.task s.current).runTime = 1

/-- No sleeping task wakes up in the next `m` ticks. -/
def NoneDue (s : Sched) (pub : List Nat) (m : Nat) : Prop :=
  ∀ u, s.Known pub u → (s.task u).state = .sleep → (s.task u).waitTime < 0 ∨ m < (s.task u).waitTime

/-- A number of ticks, each followed by the switch at the end of the interrupt. -/
def Sched.ticks (s : Sched) : Nat → Option Sched
  | 0 => some s
  | k + 1 => (s.ticks k).bind Sched.osTickHandler

/-- The walk over sleeping tasks that are not due changes no list. -/
theorem tickLoop_quiet (q : List TaskNode) (fuel : Nat) (s s' : Sched) (k : List TaskNode)
    (hring : Ring s.links (.list .sleep) (k ++ q))
    (hdue : ∀ u, .sleep u ∈ q → (s.task u).waitTime ≠ 0 ∧ (s.task u).waitTime ≠ 1)
    (hrun : Sched.tickLoop fuel s (q.headD (.list .sleep)) = some s') :
    s'.links = s.links ∧ s'.count = s.count := by
  -- Over the tasks still ahead; those the walk has passed are in `k`.
  induction q generalizing fuel s k with
  | nil =>
      cases fuel with
      | zero => exact absurd hrun (by simp only [Sched.tickLoop, reduceCtorEq, not_false_eq_true])
      | succ fuel =>
          simp only [List.headD_nil, Sched.tickLoop, if_true, Option.some.injEq] at hrun
          rw [← hrun]
          exact ⟨rfl, rfl⟩
  | cons n q ih =>
      have hnh : n ≠ .list .sleep := by
        rintro rfl
        exact (List.nodup_cons.mp hring.1).1 (List.mem_append_right k List.mem_cons_self)
      cases fuel with
      | zero => exact absurd hrun (by simp only [Sched.tickLoop, reduceCtorEq, not_false_eq_true])
      | succ fuel =>
          cases n with
          | sleep t =>
              simp only [List.headD_cons, Sched.tickLoop, reduceCtorEq, if_false] at hrun
              -- The record changes and the task stays where it is.
              have htick : ∃ r, s.tickTask t = s.setTask t r := by
                rcases hdue t List.mem_cons_self with ⟨h0, h1⟩
                unfold Sched.tickTask
                simp only []
                refine ⟨_, if_neg ?_⟩
                split
                · simp only []
                  omega
                · exact h0
              rcases htick with ⟨r, hr⟩
              have hnd := (List.nodup_cons.mp hring.1).2
              have htq : TaskNode.sleep t ∉ q :=
                (List.nodup_cons.mp (List.nodup_append.mp hnd).2.1).1
              rw [hr, show (s.setTask t r).links = s.links from rfl,
                (ring_split _ _ _ k q hring).2] at hrun
              rw [List.append_cons] at hring
              -- The tasks ahead are other tasks, so their times are as they were.
              have hdue' : ∀ u, TaskNode.sleep u ∈ q → ((s.setTask t r).task u).waitTime ≠ 0 ∧
                  ((s.setTask t r).task u).waitTime ≠ 1 := by
                intro u hu
                have hut : u ≠ t := by
                  rintro rfl
                  exact htq hu
                rw [setTask_task_other _ _ _ _ hut]
                exact hdue u (List.mem_cons_of_mem _ hu)
              exact ih fuel (s.setTask t r) (k ++ [TaskNode.sleep t]) hring hdue' hrun
          | list l =>
              simp only [List.headD_cons, Sched.tickLoop, hnh, if_false, reduceCtorEq] at hrun
          | _ => simp only [List.headD_cons, Sched.tickLoop, reduceCtorEq, if_false] at hrun

/-- A tick at which nobody wakes up changes no list. -/
theorem tickDown_quiet (s d : Sched) (pub : List Nat) (hs : SchedOk s pub)
    (hdue : NoneDue s pub 1) (hdown : s.tickDown = some d) :
    d.links = s.links ∧ d.count = s.count := by
  rcases hs.spread with ⟨f, hf⟩
  have hring := hf.rings.1 _ (mem_schedHeads .sleep trivial)
  simp only [Sched.tickDown, ring_next_head _ _ _ hring, Option.pure_def, Option.bind_eq_bind,
    Option.bind_eq_some_iff, Option.some.injEq] at hdown
  rcases hdown with ⟨s1, hrun, rfl⟩
  refine tickLoop_quiet (f (.list .sleep)) _ s s1 [] hring (fun u hu => ?_) hrun
  rw [hf.mem .sleep trivial] at hu
  simp only [Sched.spot, Option.ite_none_right_eq_some, and_true] at hu
  -- A negative time is a sleep without an end.
  rcases hdue u hu.1 hu.2 with hneg | hlate
  · exact ⟨by omega, by omega⟩
  · exact ⟨by omega, by omega⟩

/-- A sleeping task that is not due goes on sleeping, for one tick less. -/
theorem tickRecord_quiet (task : Task) (m : Nat)
    (h : task.waitTime < 0 ∨ (m : Int) + 1 < task.waitTime) :
    (tickRecord task).state = task.state ∧
      ((tickRecord task).waitTime < 0 ∨ (m : Int) < (tickRecord task).waitTime) := by
  unfold tickRecord
  simp only []
  rcases h with hneg | hlate
  · rw [if_neg (show ¬0 < task.waitTime by omega), if_neg (show task.waitTime ≠ 0 by omega)]
    exact ⟨rfl, Or.inl hneg⟩
  · rw [if_pos (show 0 < task.waitTime by omega), if_neg (show task.waitTime - 1 ≠ 0 by omega)]
    exact ⟨rfl, Or.inr (show (m : Int) < task.waitTime - 1 by omega)⟩

/-- What a tick at which nobody wakes up does to the tasks: the current one has
    used up its time and no task changes its state. -/
theorem ticked_quiet (s d : Sched) (pub : List Nat) (m : Nat) (h : Ticked pub s d)
    (hrun : (s.task s.current).state = .running) (htime : (s.task s.current).runTime = 1)
    (hdue : NoneDue s pub (m + 1)) :
    (d.task d.current).runTime = 0 ∧ (∀ u, (d.task u).state = (s.task u).state) ∧
      NoneDue d pub m := by
  rcases h.self with ⟨r, hr, hself⟩
  have hawake : ¬(s.Known pub s.current ∧ (s.task s.current).state = .sleep) := by
    rw [hrun]
    simp only [reduceCtorEq, and_false, not_false_eq_true]
  rw [if_neg hawake] at hr
  -- Three kinds of tasks: the current one, those that sleep, and those that do not.
  have hstate : ∀ u, (d.task u).state = (s.task u).state := by
    intro u
    by_cases hu : u = s.current
    · rw [hu, hself, hr]
    · rw [h.other u hu]
      by_cases hk : s.Known pub u ∧ (s.task u).state = .sleep
      · rw [if_pos hk]
        exact (tickRecord_quiet _ m (by exact_mod_cast hdue u hk.1 hk.2)).1
      · rw [if_neg hk]
  refine ⟨?_, hstate, fun u hk hst => ?_⟩
  · rw [h.current, hself, hr]
    simp only [htime]
    rfl
  · rw [known_of_fixed _ _ _ _ h.fixed] at hk
    rw [hstate] at hst
    have hu : u ≠ s.current := by
      rintro rfl
      rw [hrun] at hst
      exact absurd hst (by simp only [reduceCtorEq, not_false_eq_true])
    rw [h.other u hu, if_pos ⟨hk, hst⟩]
    exact (tickRecord_quiet _ m (by exact_mod_cast hdue u hk hst)).2

/-- A switch between two tasks of one priority puts the running task at the end
    of the ready list and takes the next one off. -/
theorem prepareToSwitch_ring (s : Sched) (pub : List Nat) (f : TaskNode → List TaskNode)
    (next p : Nat) (hs : SchedOk s pub) (hf : Spread s.links s.count (s.spot pub) f)
    (hcur : s.Known pub s.current) (hrun : (s.task s.current).state = .running)
    (hnext : s.Known pub next) (hst : (s.task next).state = .prepare)
    (hpc : (s.task s.current).prio = p) (hpn : (s.task next).prio = p) :
    Ring (s.prepareToSwitch next).links (.list (.prio p))
      ((f (.list (.prio p)) ++ [TaskNode.prioRunning s.current]).erase (.prioRunning next)) := by
  have hne : s.current ≠ next := by
    rintro rfl
    rw [hrun] at hst
    exact absurd hst (by simp only [reduceCtorEq, not_false_eq_true])
  have hpreplive : TaskState.prepare.Live := Or.inl rfl
  have hrunlive : TaskState.running.Live := Or.inr (Or.inl rfl)
  unfold Sched.prepareToSwitch
  simp only [if_neg hne, if_pos hrun]
  -- First the running task goes to the end of its list.
  rcases spread_setTaskState s pub f s.current .prepare hf hcur (hs.prio _ hcur)
    (hs.live _ hcur) hpreplive (fun hc => by
      rw [hrun] at hc
      exact absurd hc (by simp only [reduceCtorEq, not_false_eq_true])) with ⟨hf1, hkept1⟩
  have hok1 := (schedOk_setTaskState s pub s.current .prepare hs hcur hpreplive (fun hc => by
      rw [hrun] at hc
      exact absurd hc (by simp only [reduceCtorEq, not_false_eq_true]))).1
  have hseq1 : moveSeq f (s.task s.current) s.current .prepare (.list (.prio p))
      = f (.list (.prio p)) ++ [.prioRunning s.current] := by
    unfold moveSeq
    rw [if_neg (by rw [hrun]; simp only [reduceCtorEq, or_self, not_false_eq_true])]
    simp only [Task.home, hrun, leaveSeq, enterSeq, hpc, Function.update_self]
  have htask1 : (s.setTaskState s.current .prepare).task next = s.task next := by
    rw [setTaskState_task s _ _ (hs.live _ hcur) hpreplive, Function.update_of_ne (Ne.symm hne)]
  generalize hs1 : s.setTaskState s.current .prepare = s1 at hf1 hok1 htask1
  have hk1 : s1.Known pub next := by
    rw [← hs1, known_setTaskState]
    exact hnext
  -- Then the next task leaves the list, with its record made up.
  generalize hr : ({ s1.task next with
    timeOut := if (s1.task next).waitTime = 0 then 1 else (s1.task next).timeOut
    waitTime := -1 } : Task) = r
  have hrs : r.state = .prepare := by
    rw [← hr, htask1]
    exact hst
  have hrp : r.prio = p := by
    rw [← hr, htask1]
    exact hpn
  have hhome : r.home next = (s1.task next).home next := by
    rw [← hr]
    rfl
  have hf2 : Spread (s1.setTask next r).links (s1.setTask next r).count
      ((s1.setTask next r).spot pub) (moveSeq f (s.task s.current) s.current .prepare) := by
    rw [spot_setTask_same s1 pub next r hhome]
    exact hf1
  have hrec : (s1.setTask next r).task next = r := setTask_task_self s1 next r
  have hf3 := (spread_setTaskState (s1.setTask next r) pub _ next .running hf2 hk1
    (by rw [hrec, hrp, ← hpn]; exact hs.prio next hnext) (by rw [hrec, hrs]; exact hpreplive)
    hrunlive (fun _ => by simp only [ne_eq, reduceCtorEq, not_false_eq_true])).1
  have hring := hf3.rings.1 (.list (.prio p)) (mem_schedHeads (.prio p)
    (show p < maxPrio from hpn ▸ hs.prio next hnext))
  have hseq3 : moveSeq (moveSeq f (s.task s.current) s.current .prepare)
      ((s1.setTask next r).task next) next .running (.list (.prio p))
      = (f (.list (.prio p)) ++ [TaskNode.prioRunning s.current]).erase (.prioRunning next) := by
    rw [hrec]
    unfold moveSeq
    rw [if_neg (by rw [hrs]; simp only [reduceCtorEq, or_self, not_false_eq_true])]
    simp only [Task.home, hrs, leaveSeq, enterSeq, hrp, Function.update_self]
    rw [← hseq1]
    rfl
  rw [hseq3] at hring
  exact hring

/-- A tick at which nobody wakes up leaves the line as it is. -/
theorem inLine_ticked (s d : Sched) (pub : List Nat) (p : Nat) (ts : List Nat)
    (h : InLine s pub p ts) (htick : Ticked pub s d) (hlinks : d.links = s.links)
    (hstate : ∀ u, (d.task u).state = (s.task u).state) : InLine d pub p ts := by
  -- None of the facts mentions a time, and the rest is as before.
  refine ⟨h.above, fun t ht => ?_, fun t ht => ?_, ?_, ?_, ?_, fun u hk hst hlow => ?_⟩
  · rw [known_of_fixed _ _ _ _ htick.fixed]
    exact h.known t ht
  · rw [htick.fixed.prio]
    exact h.prio t ht
  · rw [htick.current]
    exact h.first
  · rw [htick.current, hstate]
    exact h.running
  · rw [hlinks]
    exact h.ready
  · rw [known_of_fixed _ _ _ _ htick.fixed] at hk
    rw [hstate] at hst
    rw [htick.fixed.prio] at hlow
    exact h.others u hk hst hlow

/-- The ready tasks of a line hang on its list in their order. -/
theorem inLine_seq (d : Sched) (pub : List Nat) (p : Nat) (ts : List Nat) (h : InLine d pub p ts)
    (f : TaskNode → List TaskNode) (hf : Spread d.links d.count (d.spot pub) f) :
    f (.list (.prio p)) = ts.tail.map TaskNode.prioRunning := by
  have hvalid : (SchedList.prio p).Valid := Nat.lt_of_lt_of_le h.above (Nat.sub_le _ _)
  exact ring_unique d.links _ _ _ (hf.rings.1 _ (mem_schedHeads _ hvalid)) h.ready

/-- The task after the first one is picked, or the first one again when it is
    alone. -/
theorem inLine_next (d : Sched) (pub : List Nat) (p t : Nat) (rest : List Nat)
    (hs : SchedOk d pub) (h : InLine d pub p (t :: rest)) :
    d.findNextRunTask = some (rest.headD t) := by
  have htc : t = d.current := Option.some.inj h.first
  have hready := firstReady_iff d pub hs
  rcases findNextRunTask_spec d pub hs with ⟨hnone, hfind⟩ | ⟨i, u, hsome, hfind, hk, hst, hprio⟩
  · cases rest with
    | nil => rw [hfind, List.headD_nil, htc]
    | cons t' rest =>
        -- The second task is ready, so a list is not empty.
        rcases hs.spread with ⟨f, hf⟩
        have hmem : TaskNode.prioRunning t' ∈ f (.list (.prio p)) := by
          rw [inLine_seq d pub p _ h f hf]
          exact List.mem_cons_self
        rw [hf.mem (.prio p) (Nat.lt_of_lt_of_le h.above (Nat.sub_le _ _))] at hmem
        simp only [Sched.spot, Option.ite_none_right_eq_some, Option.some.injEq,
          SchedList.prio.injEq] at hmem
        exact absurd hnone (hready.mpr ⟨t', hmem.1.1, hmem.1.2, hmem.2 ▸ h.above⟩)
  · -- Only tasks of the line are ready, so it is their list that was found.
    have hlow := (firstReady_some d i hsome).1
    have hu := h.others u hk hst (hprio ▸ hlow)
    cases rest with
    | nil => exact absurd hu List.not_mem_nil
    | cons t' rest =>
        have hip : i = p := hprio ▸ h.prio u (List.mem_cons_of_mem t hu)
        subst hip
        have hnext := ring_next_head _ _ _ h.ready
        simp only [List.tail_cons, List.map_cons, List.headD_cons] at hnext
        simp only [Sched.findNextRunTask, hsome, hnext, List.headD_cons]

/-- The ready list after the switch: the first task has gone to its end, and the
    next one has left it. -/
theorem inLine_ring (d d' : Sched) (pub : List Nat) (p t : Nat) (rest : List Nat)
    (hs : SchedOk d pub) (h : InLine d pub p (t :: rest)) (hrun : d.switchTask = some d') :
    Ring d'.links (.list (.prio p)) ((rest ++ [t]).tail.map TaskNode.prioRunning) := by
  have htc : t = d.current := Option.some.inj h.first
  have hfind := inLine_next d pub p t rest hs h
  simp only [Sched.switchTask, hfind, Option.bind_eq_bind, Option.bind_some, Option.pure_def,
    Option.some.injEq] at hrun
  subst hrun
  cases rest with
  | nil =>
      -- Elected again: no list is touched.
      simp only [List.headD_nil, htc, Sched.prepareToSwitch, if_true]
      exact h.ready
  | cons t' rest =>
      rcases hs.spread with ⟨f, hf⟩
      have hseq := inLine_seq d pub p _ h f hf
      have hk' : d.Known pub t' := h.known t' (List.mem_cons_of_mem t List.mem_cons_self)
      have hmem : TaskNode.prioRunning t' ∈ f (.list (.prio p)) := by
        rw [hseq]
        exact List.mem_cons_self
      rw [hf.mem (.prio p) (Nat.lt_of_lt_of_le h.above (Nat.sub_le _ _))] at hmem
      simp only [Sched.spot, Option.ite_none_right_eq_some, Option.some.injEq,
        SchedList.prio.injEq] at hmem
      have hring := prepareToSwitch_ring { d with nextRun := t' } pub f t' p
        ⟨hs.spread, hs.prio, hs.live⟩ hf (htc ▸ h.known t List.mem_cons_self) h.running hk'
        hmem.1.2 (htc ▸ h.prio t List.mem_cons_self) hmem.2
      rw [hseq] at hring
      simp only [List.tail_cons, List.map_cons, List.cons_append, List.erase_cons_head] at hring
      simp only [List.headD_cons, List.cons_append, List.tail_cons, List.map_append, List.map_cons,
        List.map_nil]
      rw [htc]
      exact hring

/-- A switch moves the first task of a line to its end, and the one that is first
    then has one tick. -/
theorem inLine_switch (d : Sched) (pub : List Nat) (p t : Nat) (rest : List Nat) (m : Nat)
    (hs : SchedOk d pub) (h : InLine d pub p (t :: rest)) (hdue : NoneDue d pub m) :
    ∃ d', d.switchTask = some d' ∧ SchedOk d' pub ∧ Turns d' pub p (rest ++ [t]) ∧
      NoneDue d' pub m := by
  have htc : t = d.current := Option.some.inj h.first
  have hcur : d.Known pub d.current := htc ▸ h.known t List.mem_cons_self
  rcases switchTask_spec d pub hs (Or.inl hcur) with ⟨d', next, hrun, hok, hsw, _⟩
  have hnext : next = rest.headD t := by
    rw [← hsw.nextRun]
    exact switchTask_nextRun d d' _ (inLine_next d pub p t rest hs h) hrun
  have hstate := switched_state d d' next hsw
  have hfirst : (d'.task next).state = .running := by
    rw [hstate, if_pos rfl]
    by_cases hc : d.current = next
    · rw [if_pos hc, ← hc]
      exact h.running
    · rw [if_neg hc]
  have haway : ∀ u, (d'.task u).state ≠ .running → u ≠ next := by
    rintro u hst rfl
    exact hst hfirst
  -- The others are in the state they were in, but for the task that was running.
  have hother : ∀ u, (d'.task u).state ≠ .running →
      (u = t ∧ rest ≠ [] ∧ (d'.task u).state = .prepare) ∨ d'.task u = d.task u := by
    intro u hst
    have hu := haway u hst
    by_cases hc : u = d.current ∧ (d.task u).state = .running
    · left
      refine ⟨hc.1.trans htc.symm, ?_, ?_⟩
      · rintro rfl
        exact hu (hc.1.trans (htc.symm.trans hnext.symm))
      · rw [hstate, if_neg hu, if_pos hc]
    · right
      rw [hsw.task, switchRecord, if_neg hu, if_neg hc]
  have hmem : ∀ u, u ∈ rest ++ [t] → u ∈ t :: rest := by
    intro u hu
    rcases List.mem_append.mp hu with hu | hu
    · exact List.mem_cons_of_mem t hu
    · exact List.mem_singleton.mp hu ▸ List.mem_cons_self
  refine ⟨d', hrun, hok, ⟨⟨h.above, fun u hu => ?_, fun u hu => ?_, ?_, ?_, ?_,
    fun u hk hst hlow => ?_⟩, ?_⟩, fun u hk hst => ?_⟩
  · rw [known_of_fixed _ _ _ _ hsw.fixed]
    exact h.known u (hmem u hu)
  · rw [hsw.fixed.prio]
    exact h.prio u (hmem u hu)
  · rw [hsw.current, hnext]
    cases rest <;> rfl
  · rw [hsw.current]
    exact hfirst
  · exact inLine_ring d d' pub p t rest hs h hrun
  · have hwaits : (d'.task u).state ≠ .running := by
      rw [hst]
      simp only [ne_eq, reduceCtorEq, not_false_eq_true]
    rcases hother u hwaits with ⟨rfl, hne, _⟩ | heq
    · cases rest with
      | nil => exact absurd rfl hne
      | cons t' rest => exact List.mem_append_right rest List.mem_cons_self
    · rw [heq] at hst hlow
      rw [known_of_fixed _ _ _ _ hsw.fixed] at hk
      have hin := h.others u hk hst hlow
      cases rest with
      | nil => exact absurd hin List.not_mem_nil
      | cons t' rest =>
          rcases List.mem_cons.mp hin with hc | hin
          · exact absurd (hc.trans hnext.symm) (haway u hwaits)
          · exact List.mem_append_left [t] hin
  · rw [hsw.current, hsw.task, switchRecord, if_pos rfl]
    by_cases hc : d.current = next
    · rw [if_pos hc]
    · rw [if_neg hc]
  · have hsleeps : (d'.task u).state ≠ .running := by
      rw [hst]
      simp only [ne_eq, reduceCtorEq, not_false_eq_true]
    rcases hother u hsleeps with ⟨_, _, hp⟩ | heq
    · rw [hst] at hp
      exact absurd hp (by simp only [reduceCtorEq, not_false_eq_true])
    · rw [heq] at hst ⊢
      rw [known_of_fixed _ _ _ _ hsw.fixed] at hk
      exact hdue u hk hst

/-- A tick at which nobody wakes up is a switch, and moves the first task to the
    end of the line. -/
theorem tick_turns (s : Sched) (pub : List Nat) (p t : Nat) (rest : List Nat) (m : Nat)
    (hs : SchedOk s pub) (h : Turns s pub p (t :: rest)) (hdue : NoneDue s pub (m + 1)) :
    ∃ d s', s.tickDown = some d ∧ (d.task d.current).runTime = 0 ∧ d.switchTask = some s' ∧
      s.osTickHandler = some s' ∧ SchedOk s' pub ∧ Turns s' pub p (rest ++ [t]) ∧
      NoneDue s' pub m := by
  rcases tickDown_spec s pub hs with ⟨d, hdown, hok, htick⟩
  -- Nobody is due at this tick.
  have hone : NoneDue s pub 1 := by
    intro u hk hst
    rcases hdue u hk hst with hneg | hlate
    · exact Or.inl hneg
    · exact Or.inr (by omega)
  have hlinks := (tickDown_quiet s d pub hs hone hdown).1
  rcases ticked_quiet s d pub m htick h.running h.time hdue with ⟨hzero, hstate, hdue'⟩
  have hline := inLine_ticked s d pub p _ h.toInLine htick hlinks hstate
  rcases inLine_switch d pub p t rest m hok hline hdue' with ⟨s', hrun, hok', hturns, hdue''⟩
  refine ⟨d, s', hdown, hzero, hrun, ?_, hok', hturns, hdue''⟩
  rw [osTickHandler_eq, hdown, Option.bind_some, if_pos hzero]
  exact hrun

/-- After `k` ticks the line is moved on by `k`. -/
theorem ticks_turns (s : Sched) (pub : List Nat) (p : Nat) (ts : List Nat) (m : Nat)
    (hs : SchedOk s pub) (h : Turns s pub p ts) (hdue : NoneDue s pub m) (k : Nat) (hk : k ≤ m) :
    ∃ s', s.ticks k = some s' ∧ SchedOk s' pub ∧ Turns s' pub p (ts.rotate k) ∧
      NoneDue s' pub (m - k) := by
  induction k with
  | zero => exact ⟨s, rfl, hs, (List.rotate_zero ts).symm ▸ h, hdue⟩
  | succ k ih =>
      rcases ih (by omega) with ⟨s', hrun, hok, hturns, hdue'⟩
      -- A line is never empty, as its first task is running.
      rcases hline : ts.rotate k with _ | ⟨t, rest⟩
      · rw [hline] at hturns
        exact absurd hturns.first (by simp only [List.head?_nil, reduceCtorEq, not_false_eq_true])
      · rw [hline] at hturns
        rw [show m - k = m - (k + 1) + 1 by omega] at hdue'
        rcases tick_turns s' pub p t rest _ hok hturns hdue' with
          ⟨_, s'', _, _, _, htick, hok', hturns', hdue''⟩
        refine ⟨s'', ?_, hok', ?_, hdue''⟩
        · rw [Sched.ticks, hrun]
          exact htick
        · rw [← List.rotate_rotate, hline, List.rotate_cons_succ, List.rotate_zero]
          exact hturns'

/-- No task is in a line twice. -/
theorem inLine_nodup (s : Sched) (pub : List Nat) (p : Nat) (ts : List Nat) (hs : SchedOk s pub)
    (h : InLine s pub p ts) : ts.Nodup := by
  rcases hs.spread with ⟨f, hf⟩
  have hseq := inLine_seq s pub p ts h f hf
  cases ts with
  | nil => exact List.nodup_nil
  | cons t rest =>
      refine List.nodup_cons.mpr ⟨fun hmem => ?_, ?_⟩
      · -- The first task is running, and those on the list are ready.
        have hnode : TaskNode.prioRunning t ∈ f (.list (.prio p)) := by
          rw [hseq]
          exact List.mem_map.mpr ⟨t, hmem, rfl⟩
        rw [hf.mem (.prio p) (Nat.lt_of_lt_of_le h.above (Nat.sub_le _ _))] at hnode
        simp only [Sched.spot, Option.ite_none_right_eq_some] at hnode
        have hrun := h.running
        rw [← Option.some.inj h.first, hnode.1.2] at hrun
        exact absurd hrun (by simp only [reduceCtorEq, not_false_eq_true])
      · exact (List.nodup_cons.mp h.ready.1).2.of_map

/-- Tasks that take turns, in a state with the lists right, as every state of a
    run since boot is (`schedInv_run`), and with nobody due for `m` ticks. After
    `k` ticks the task whose number is `k` modulo their number is running; every
    tick ends the time of the current task and switches; and each task runs
    exactly once in as many ticks in a row as there are tasks. -/
theorem round_robin (s : Sched) (pub : List Nat) (p : Nat) (ts : List Nat) (m : Nat)
    (hs : SchedOk s pub) (h : Turns s pub p ts) (hdue : NoneDue s pub m) :
    (∀ k ≤ m, ∃ s', s.ticks k = some s' ∧ ts[k % ts.length]? = some s'.current ∧
        (s'.task s'.current).state = .running ∧ (s'.task s'.current).runTime = 1) ∧
      (∀ k < m, ∃ s' d, s.ticks k = some s' ∧ s'.tickDown = some d ∧
        (d.task d.current).runTime = 0 ∧ d.switchTask = s.ticks (k + 1)) ∧
      ∀ k, k + ts.length ≤ m + 1 → ∀ t ∈ ts,
        ∃! j, (k ≤ j ∧ j < k + ts.length) ∧ (s.ticks j).map Sched.current = some t := by
  have hne : ts ≠ [] := by
    rintro rfl
    exact absurd h.first (by simp only [List.head?_nil, reduceCtorEq, not_false_eq_true])
  have hcur : ∀ k ≤ m, ∃ s', s.ticks k = some s' ∧ Turns s' pub p (ts.rotate k) ∧
      turn ts k = some s'.current := by
    intro k hk
    rcases ticks_turns s pub p ts m hs h hdue k hk with ⟨s', hrun, _, hturns, _⟩
    exact ⟨s', hrun, hturns, (head?_rotate_turn ts hne k).symm.trans hturns.first⟩
  refine ⟨fun k hk => ?_, fun k hk => ?_, fun k hk t ht => ?_⟩
  · rcases hcur k hk with ⟨s', hrun, hturns, hturn⟩
    exact ⟨s', hrun, hturn, hturns.running, hturns.time⟩
  · rcases ticks_turns s pub p ts m hs h hdue k (Nat.le_of_lt hk) with
      ⟨s', hrun, hok, hturns, hdue'⟩
    rcases hline : ts.rotate k with _ | ⟨t, rest⟩
    · exact absurd (List.rotate_eq_nil_iff.mp hline) hne
    · rw [hline] at hturns
      rw [show m - k = m - (k + 1) + 1 by omega] at hdue'
      rcases tick_turns s' pub p t rest _ hok hturns hdue' with
        ⟨d, s'', hdown, hzero, hswitch, htick, _⟩
      refine ⟨s', d, hrun, hdown, hzero, ?_⟩
      rw [Sched.ticks, hrun, hswitch]
      exact htick.symm
  · -- The current tasks of these ticks are those whose turn it is.
    have hmap : ∀ j, j ≤ m → (s.ticks j).map Sched.current = turn ts j := by
      intro j hj
      rcases hcur j hj with ⟨s', hrun, _, hturn⟩
      rw [hrun, hturn]
      rfl
    rcases turn_window ts (inLine_nodup s pub p ts hs h.toInLine) k t ht with
      ⟨j, ⟨hspan, hj⟩, huniq⟩
    refine ⟨j, ⟨hspan, ?_⟩, fun i hi => huniq i ⟨hi.1, ?_⟩⟩
    · rw [hmap j (by omega)]
      exact hj
    · rw [← hmap i (by omega)]
      exact hi.2

/-- `init` and two processes that it forked, after the idle task has got its last
    priority. -/
theorem round_robin_three :
    ∃ ses, Run.Reaches SchedSession.call SchedSession.Allowed
        (SchedSession.booted blankSched 0x100) ses ∧
      Turns ses.sched ses.published 20 [0x300, 0x400, 0x500] ∧
      ∃ s', ses.sched.ticks 7 = some s' ∧ s'.current = 0x400 := by
  have heval : (Run.follow SchedSession.call SchedSession.Allowed
      (SchedSession.booted blankSched 0x100)
      [.fork 0x300 1 2 0x100, .fork 0x400 2 2 0x300, .fork 0x500 3 2 0x300, .idlePrio, .sched]).map
        (fun ses => decide (ses.published = [0x500, 0x400, 0x300] ∧ ses.sched.idle = 0x100 ∧
          ses.sched.current = 0x300 ∧
          (ses.sched.task 0x300).state = .running ∧ (ses.sched.task 0x300).runTime = 1 ∧
          (∀ t ∈ ([0x300, 0x400, 0x500] : List Nat), (ses.sched.task t).prio = 20 ∧
            (ses.sched.task t).state ≠ .sleep) ∧
          (ses.sched.task 0x100).prio = 63 ∧ (ses.sched.task 0x100).state = .prepare ∧
          Ring ses.sched.links (.list (.prio 20)) [.prioRunning 0x400, .prioRunning 0x500]))
      = some true := by decide +kernel
  rcases Option.map_eq_some_iff.mp heval with ⟨ses, hses, hdec⟩
  rw [decide_eq_true_eq] at hdec
  rcases hdec with ⟨hpub, hidle, hcur, hrun, htime, hall, hlast, hready, hring⟩
  have hreach := Run.reaches_of_follow SchedSession.call SchedSession.Allowed _ _ ses hses
  -- Only these four tasks are known.
  have hknown : ∀ u, ses.sched.Known ses.published u ↔ u ∈ [0x500, 0x400, 0x300] ∨ u = 0x100 := by
    intro u
    unfold Sched.Known
    rw [hpub, hidle]
  have hturns : Turns ses.sched ses.published 20 [0x300, 0x400, 0x500] := by
    refine ⟨⟨by decide, fun t ht => (hknown t).mpr (Or.inl (List.mem_reverse.mp ht)),
      fun t ht => (hall t ht).1, by rw [hcur]; rfl, by rw [hcur]; exact hrun, hring,
      fun u hk hst hlow => ?_⟩, by rw [hcur]; exact htime⟩
    -- The others are not ready below the last priority.
    rcases (hknown u).mp hk with hu | rfl
    · have hne : u ≠ 0x300 := by
        rintro rfl
        rw [hrun] at hst
        exact absurd hst (by simp only [reduceCtorEq, not_false_eq_true])
      rcases List.mem_cons.mp (List.mem_reverse.mpr hu) with hc | hu
      · exact absurd hc hne
      · exact hu
    · rw [hlast] at hlow
      exact absurd hlow (by decide)
  -- Nobody sleeps, so nobody is due.
  have hdue : NoneDue ses.sched ses.published 7 := by
    intro u hk hst
    rcases (hknown u).mp hk with hu | rfl
    · exact absurd hst (hall u (List.mem_reverse.mpr hu)).2
    · rw [hready] at hst
      exact absurd hst (by simp only [reduceCtorEq, not_false_eq_true])
  rcases (round_robin ses.sched ses.published 20 _ 7 (schedInv_run blankSched 0x100 ses hreach).ok
    hturns hdue).1 7 (Nat.le_refl 7) with ⟨s', hticks, hturn, _⟩
  exact ⟨ses, hreach, hturns, s', hticks, (Option.some.inj hturn).symm⟩

end Mirros
