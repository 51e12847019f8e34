import Mirros.Theory.Sched.Session

/-!
# Only a Running Task Runs

After every switch the task in `current` should be the one task in state
RUNNING. `find_next_run_task` looks at every ready list but the last, where the
idle task is once `main` has lowered its priority, and when it finds nothing it
returns `current`. That is right when the current task is still running. It is
wrong when the task has just gone to sleep or killed itself, because then the
task that continues is one that is not running.

So the property holds as long as a task gives up the processor only when there
is somebody to give it to: a task on one of the lists that are looked at, or, for
a task that kills itself, the killer if it is asleep and will be put on one. This
is exactly when it holds: the first time it is not so, the property fails.

## Main definitions

* `Runs`: The current task is running and no other is.
* `HandsOver`: The call leaves the processor to somebody.

## Theorems

* `firstReady_iff`: Some list is not empty exactly when some task is ready there.
* `runs_sched`: The two outcomes of a switch.
* `runs_call`: A call keeps the property exactly when it hands over.
* `running_runs`: The property over whole runs.
-/

namespace Mirros

/-- The current task is the one task that is running. -/
def Runs (s : SchedSession) : Prop :=
  s.sched.nextRun = s.sched.current ∧ (s.sched.task s.sched.current).state = .running ∧
    ∀ u, s.Known u → (s.sched.task u).state = .running → u = s.sched.current

/-- If the call takes the processor from the current task, a task below the last
    priority is ready, or the killer is asleep and is woken up by the call. -/
def HandsOver (s : SchedSession) : SchedCall → Prop
  | .suspend t timeout =>
      t = s.sched.current → timeout ≠ 0 → s.sched.firstReady ≠ none
  | .killSelf t =>
      t = s.sched.current → s.sched.pidMap 0 ≠ 0 → s.sched.firstReady ≠ none ∨
        (s.sched.task (s.sched.pidMap 0)).state = .sleep ∧
          (s.sched.task (s.sched.pidMap 0)).prio < maxPrio - 1
  | _ => True

/-- The ready lists that are looked at hold the ready tasks of those
    priorities. -/
theorem firstReady_iff (s : Sched) (pub : List Nat) (hs : SchedOk s pub) :
    s.firstReady ≠ none ↔
      ∃ u, s.Known pub u ∧ (s.task u).state = .prepare ∧ (s.task u).prio < maxPrio - 1 := by
  constructor
  · intro h
    rcases findNextRunTask_spec s pub hs with ⟨hn, _⟩ | ⟨i, t, hi, _, hk, hst, hp⟩
    · exact absurd hn h
    · exact ⟨t, hk, hst, hp ▸ (firstReady_some s i hi).1⟩
  · rintro ⟨u, hk, hst, hp⟩ hn
    rcases hs.spread with ⟨f, hf⟩
    -- The task is on the list of its priority, so that list is not empty.
    have hvalid : (SchedList.prio (s.task u).prio).Valid := hs.prio u hk
    have hmem : TaskNode.prioRunning u ∈ f (.list (.prio (s.task u).prio)) := by
      rw [hf.mem _ hvalid]
      simp only [Sched.spot, hk, hst, and_self, if_true]
    have hcount := firstReady_none s hn _ hp
    rw [hf.count _ hvalid] at hcount
    have hpos := List.length_pos_of_mem hmem
    omega

/-- After a running task killed itself somebody is ready if somebody was, or if the
    killer slept and has a priority that is looked at. -/
theorem ready_killed (s k : Sched) (pub : List Nat) (t : Nat) (hs : SchedOk s pub)
    (hok : SchedOk k pub) (hfix : Fixed s k) (hkiller : s.Known pub (s.pidMap 0))
    (hrunning : (s.task t).state = .running)
    (hst : ∀ u, (k.task u).state = if u = t then .idle
      else if u = s.pidMap 0 ∧ (s.task u).state = .sleep then .prepare else (s.task u).state) :
    k.firstReady ≠ none ↔ s.firstReady ≠ none ∨
      (s.task (s.pidMap 0)).state = .sleep ∧ (s.task (s.pidMap 0)).prio < maxPrio - 1 := by
  rw [firstReady_iff k pub hok, firstReady_iff s pub hs]
  constructor
  · rintro ⟨u, hu, hus, hup⟩
    rw [known_of_fixed _ _ _ u hfix] at hu
    rw [hfix.prio] at hup
    rw [hst] at hus
    split at hus
    · exact absurd hus (by simp only [reduceCtorEq, not_false_eq_true])
    · split at hus
      · -- The task was woken up, so it is the killer.
        rename_i hw
        exact Or.inr (hw.1 ▸ ⟨hw.2, hup⟩)
      · exact Or.inl ⟨u, hu, hus, hup⟩
  · rintro (⟨u, hu, hus, hup⟩ | ⟨hks, hkp⟩)
    · -- A task that was ready is neither the one that ran nor one that slept.
      have hut : u ≠ t := by
        rintro rfl
        rw [hrunning] at hus
        exact absurd hus (by simp only [reduceCtorEq, not_false_eq_true])
      refine ⟨u, (known_of_fixed _ _ _ u hfix).mpr hu, ?_, by rw [hfix.prio]; exact hup⟩
      rw [hst, if_neg hut, if_neg, hus]
      rintro ⟨_, hsl⟩
      rw [hus] at hsl
      exact absurd hsl (by simp only [reduceCtorEq, not_false_eq_true])
    · have hkt : s.pidMap 0 ≠ t := by
        rintro hkt
        rw [hkt, hrunning] at hks
        exact absurd hks (by simp only [reduceCtorEq, not_false_eq_true])
      refine ⟨s.pidMap 0, (known_of_fixed _ _ _ _ hfix).mpr hkiller, ?_, by
        rw [hfix.prio]; exact hkp⟩
      rw [hst, if_neg hkt, if_pos ⟨rfl, hks⟩]

/-- What a run keeps besides the lists. -/
structure RunInv (s : SchedSession) : Prop where
  inv : SchedInv s
  runs : Runs s
  nonzero : ∀ u, s.Known u → u ≠ 0
  outside : s.sched.inInterrupt = false
  started : s.sched.scheduleRunning = true

/-- The current task is one the scheduler knows, since it is running. -/
theorem runInv_current (s : SchedSession) (h : RunInv s) : s.Known s.sched.current := by
  rcases h.inv.current with hk | hk
  · exact hk
  · exact absurd h.runs.2.1 hk

/-- A switch from a state in which only the current task may be running: it is
    right if somebody is ready, and leaves the current task as it is if not. -/
theorem runs_switch (k : Sched) (pub : List Nat) (hok : SchedOk k pub)
    (hcur : k.Known pub k.current ∨ (k.task k.current).state ≠ .running)
    (honly : ∀ u, k.Known pub u → (k.task u).state = .running → u = k.current) (k' : Sched)
    (hrun : k.switchTask = some k') :
    Fixed k k' ∧ k'.nextRun = k'.current ∧
      (∀ u, k'.Known pub u → (k'.task u).state = .running → u = k'.current) ∧
      ((k.firstReady = none ∧ k'.current = k.current ∧
          (k'.task k'.current).state = (k.task k.current).state) ∨
        (k.firstReady ≠ none ∧ (k.task k'.current).state = .prepare ∧
          (k'.current ≠ k.current → (k'.task k'.current).state = .running))) := by
  rcases switchTask_spec k pub hok hcur with ⟨k'', next, hrun', _, hsw, hwhich⟩
  rw [hrun', Option.some.injEq] at hrun
  subst hrun
  have hstate := switched_state k k'' next hsw
  refine ⟨hsw.fixed, hsw.nextRun.trans hsw.current.symm, fun u hu hst => ?_, ?_⟩
  · rw [known_of_fixed k k'' pub u hsw.fixed] at hu
    rw [hsw.current]
    -- Any other running task would be the one that was switched away from.
    by_contra hne
    rw [hstate, if_neg hne] at hst
    by_cases hc : u = k.current ∧ (k.task u).state = .running
    · rw [if_pos hc] at hst
      exact absurd hst (by simp only [reduceCtorEq, not_false_eq_true])
    · rw [if_neg hc] at hst
      exact hc ⟨honly u hu hst, hst⟩
  · rw [hsw.current]
    rcases hwhich with ⟨hn, rfl⟩ | ⟨i, hi, _, hst, _⟩
    · -- Nobody was ready, and the current task goes on as it was.
      left
      refine ⟨hn, rfl, ?_⟩
      rw [hstate, if_pos rfl, if_pos rfl]
    · -- Somebody was, and is running now.
      right
      refine ⟨by rw [hi]; simp only [ne_eq, reduceCtorEq, not_false_eq_true], hst, fun hne => ?_⟩
      rw [hstate, if_pos rfl, if_neg (Ne.symm hne)]

/-- After a switch the property holds exactly when the current task was still
    running or there was somebody to switch to. -/
theorem runs_sched (k : Sched) (pub : List Nat) (hok : SchedOk k pub)
    (hcur : k.Known pub k.current ∨ (k.task k.current).state ≠ .running)
    (honly : ∀ u, k.Known pub u → (k.task u).state = .running → u = k.current)
    (hnp : (k.task k.current).state ≠ .prepare) (k' : Sched) (hrun : k.switchTask = some k') :
    Fixed k k' ∧ (Runs ⟨k', pub⟩ ↔
      (k.task k.current).state = .running ∨ k.firstReady ≠ none) := by
  rcases runs_switch k pub hok hcur honly k' hrun with ⟨hfix, hnext, honly', hwhich⟩
  refine ⟨hfix, ?_⟩
  rcases hwhich with ⟨hn, hc, hst⟩ | ⟨hn, hst, hnew⟩
  · constructor
    · intro h
      exact Or.inl (hst ▸ h.2.1)
    · rintro (h | h)
      · exact ⟨hnext, hst.trans h, honly'⟩
      · exact absurd hn h
  · -- The task picked is ready and the current one is not, so they differ.
    have hne : k'.current ≠ k.current := by
      intro hc
      rw [hc] at hst
      exact hnp hst
    exact ⟨fun _ => Or.inr hn, fun _ => ⟨hnext, hnew hne, honly'⟩⟩

theorem sched_eq_switch (k : Sched) (hi : k.inInterrupt = false) (hr : k.scheduleRunning = true) :
    k.sched = k.switchTask := by
  unfold Sched.sched
  rw [hi, hr]
  rfl

/-- The parts of the invariant that every call keeps. -/
structure Settled (s : SchedSession) : Prop where
  nonzero : ∀ u, s.Known u → u ≠ 0
  outside : s.sched.inInterrupt = false
  started : s.sched.scheduleRunning = true

theorem settled_fixed (s : SchedSession) (k : Sched) (h : RunInv s) (hfix : Fixed s.sched k) :
    Settled ⟨k, s.published⟩ := by
  refine ⟨fun u hu => h.nonzero u ?_, hfix.inInterrupt.trans h.outside,
    hfix.scheduleRunning.trans h.started⟩
  exact (known_of_fixed s.sched k s.published u hfix).mp hu

section Calls

variable (s s' : SchedSession) (h : RunInv s)

include h

theorem runs_fork (t pid flag parent : Nat) (hc : s.Allowed (.fork t pid flag parent) ())
    (hcall : s.call (.fork t pid flag parent) = some ((), s')) : Runs s' ∧ Settled s' := by
  simp only [SchedSession.call, Option.some.injEq, Prod.mk.injEq, true_and] at hcall
  subst hcall
  rcases hc with ⟨ht0, ht, hpar⟩
  have hpt : parent ≠ t := by
    rintro rfl
    exact ht hpar
  rcases publish_spec s.sched s.published t pid flag parent h.inv.ok ht hpt
    (h.inv.ok.prio parent hpar) with
    ⟨r, htask, hrst, _, _, _, _, _, _, _, hcur, hnext, hidle, hstart, hint, _, _⟩
  have hct : s.sched.current ≠ t := by
    intro hct
    exact ht (hct ▸ runInv_current s h)
  have hknown : ∀ u, u ≠ t →
      SchedSession.Known ⟨s.sched.publish t pid flag parent, t :: s.published⟩ u → s.Known u := by
    intro u hu hk
    unfold SchedSession.Known Sched.Known at hk ⊢
    simpa only [List.mem_cons, hu, false_or, hidle] using hk
  refine ⟨⟨?_, ?_, fun u hu hst => ?_⟩, ⟨fun u hu => ?_, hint.trans h.outside,
    hstart.trans h.started⟩⟩
  · simp only [hnext, hcur]
    exact h.runs.1
  · simp only [hcur, htask, Function.update_of_ne hct]
    exact h.runs.2.1
  · simp only [hcur, htask] at hst ⊢
    -- The new task is ready, and no other state has changed.
    by_cases hut : u = t
    · rw [hut, Function.update_self, hrst] at hst
      exact absurd hst (by simp only [reduceCtorEq, not_false_eq_true])
    · rw [Function.update_of_ne hut] at hst
      exact h.runs.2.2 u (hknown u hut hu) hst
  · by_cases hut : u = t
    · rw [hut]
      exact ht0
    · exact h.nonzero u (hknown u hut hu)

theorem runs_tick (hcall : s.call .tick = some ((), s')) : Runs s' ∧ Settled s' := by
  rcases osTickHandler_spec s.sched s.published h.inv.ok with ⟨k, hok, htick, hrun⟩
  have hstate := ticked_state s.published s.sched k htick
  -- Waking up makes nobody run.
  have hrunning : ∀ u, (k.task u).state = .running ↔ (s.sched.task u).state = .running := by
    intro u
    rcases hstate u with he | ⟨hs1, hs2⟩
    · rw [he]
    · rw [hs1, hs2]
      simp only [reduceCtorEq]
  have hst : (k.task k.current).state = .running := by
    rw [hrunning, htick.current]
    exact h.runs.2.1
  have honly : ∀ u, k.Known s.published u → (k.task u).state = .running → u = k.current := by
    intro u hu hr
    rw [htick.current]
    exact h.runs.2.2 u ((known_of_fixed _ _ _ u htick.fixed).mp hu) ((hrunning u).mp hr)
  have hcur : k.Known s.published k.current := by
    rw [known_of_fixed _ _ _ _ htick.fixed, htick.current]
    exact runInv_current s h
  simp only [SchedSession.call, hrun] at hcall
  -- The time of the current task is over, or it goes on.
  by_cases hrt : (k.task k.current).runTime = 0
  · rw [if_pos hrt] at hcall
    rcases Option.map_eq_some_iff.mp hcall with ⟨k', hk', heq⟩
    rw [Prod.mk.injEq] at heq
    rw [← heq.2]
    rcases runs_sched k s.published hok (Or.inl hcur) honly (by rw [hst]; simp) k' hk' with
      ⟨hfix, hiff⟩
    exact ⟨hiff.mpr (Or.inl hst), settled_fixed s k' h (fixed_trans _ _ _ htick.fixed hfix)⟩
  · rw [if_neg hrt] at hcall
    simp only [Option.map_some, Option.some.injEq, Prod.mk.injEq, true_and] at hcall
    rw [← hcall]
    refine ⟨⟨?_, hst, honly⟩, settled_fixed s k h htick.fixed⟩
    simp only [htick.nextRun, htick.current]
    exact h.runs.1

/-- A call that changes the states of some tasks, none of them to RUNNING, and
    then schedules. -/
theorem runs_through (k : Sched) (hok : SchedOk k s.published) (hfix : Fixed s.sched k)
    (hcur : k.current = s.sched.current) (hnp : (k.task k.current).state ≠ .prepare)
    (hothers : ∀ u, (k.task u).state = .running → (s.sched.task u).state = .running)
    (hcall : k.sched.map (fun k => ((), (⟨k, s.published⟩ : SchedSession))) = some ((), s')) :
    (Runs s' ↔ (k.task k.current).state = .running ∨ k.firstReady ≠ none) ∧ Settled s' := by
  rw [sched_eq_switch k (hfix.inInterrupt.trans h.outside)
    (hfix.scheduleRunning.trans h.started)] at hcall
  rcases Option.map_eq_some_iff.mp hcall with ⟨k', hk', heq⟩
  rw [Prod.mk.injEq] at heq
  rw [← heq.2]
  -- None but the current task was running before.
  have honly : ∀ u, k.Known s.published u → (k.task u).state = .running → u = k.current := by
    intro u hu hr
    rw [hcur]
    exact h.runs.2.2 u ((known_of_fixed _ _ _ u hfix).mp hu) (hothers u hr)
  have hk : k.Known s.published k.current := by
    rw [known_of_fixed _ _ _ _ hfix, hcur]
    exact runInv_current s h
  rcases runs_sched k s.published hok (Or.inl hk) honly hnp k' hk' with ⟨hfix', hiff⟩
  exact ⟨hiff, settled_fixed s k' h (fixed_trans _ _ _ hfix hfix')⟩

theorem settled_self : Settled s :=
  ⟨h.nonzero, h.outside, h.started⟩

theorem runs_suspend (t : Nat) (timeout : Int) (hc : s.Known t)
    (hcall : s.call (.suspend t timeout) = some ((), s')) :
    (Runs s' ↔ HandsOver s (.suspend t timeout)) ∧ Settled s' := by
  simp only [SchedSession.call] at hcall
  rcases suspendTaskTimeout_spec s.sched s.published t timeout h.inv.ok hc with
    ⟨hnone, hrun⟩ | ⟨k, hok, hfix, hcur, _, hidle, ht0, htime, htask, hrun⟩
  · -- The call refuses: there is no such task, no time, or the task is being killed.
    rw [hrun] at hcall
    simp only [Option.map_some, Option.some.injEq, Prod.mk.injEq, true_and] at hcall
    rw [← hcall]
    refine ⟨⟨fun _ htc htime => ?_, fun _ => h.runs⟩, settled_self s h⟩
    rcases hnone with h0 | h0 | h0
    · exact absurd h0 (h.nonzero t hc)
    · exact absurd h0 htime
    · rw [htc, h.runs.2.1] at h0
      exact absurd h0 (by simp only [reduceCtorEq, not_false_eq_true])
  · rw [hrun] at hcall
    -- The state of this task has changed, and no other.
    have hst : ∀ u, (k.task u).state = if u = t then .sleep else (s.sched.task u).state := by
      intro u
      rw [htask, Function.update_apply]
      by_cases hu : u = t
      · rw [if_pos hu, if_pos hu]
      · rw [if_neg hu, if_neg hu]
    have hothers : ∀ u, (k.task u).state = .running → (s.sched.task u).state = .running := by
      intro u hu
      rw [hst] at hu
      by_cases hut : u = t
      · rw [if_pos hut] at hu
        exact absurd hu (by simp only [reduceCtorEq, not_false_eq_true])
      · rw [if_neg hut] at hu
        exact hu
    have hcst := hst k.current
    rw [hcur] at hcst
    -- If it is the current one, somebody must be there to run.
    by_cases htc : t = s.sched.current
    · rw [if_pos htc.symm, ← hcur] at hcst
      rcases runs_through s s' h k hok hfix hcur (by rw [hcst]; simp) hothers hcall with
        ⟨hiff, hset⟩
      refine ⟨?_, hset⟩
      rw [hiff, hcst]
      simp only [reduceCtorEq, false_or, HandsOver, htc, htime, ne_eq, not_false_eq_true,
        forall_const]
      rw [← ne_eq, ← ne_eq, firstReady_iff k s.published hok,
        firstReady_iff s.sched s.published h.inv.ok]
      refine exists_congr (fun u => ?_)
      rw [known_of_fixed _ _ _ u hfix, hst, hfix.prio]
      by_cases hut : u = t
      · -- The task was running and sleeps now, so it is not ready either way.
        rw [if_pos hut, hut, htc, h.runs.2.1]
        simp only [reduceCtorEq, false_and, and_false]
      · rw [if_neg hut]
    · -- Another task sleeps, and the current one goes on.
      rw [if_neg (Ne.symm htc), h.runs.2.1, ← hcur] at hcst
      rcases runs_through s s' h k hok hfix hcur (by rw [hcst]; simp) hothers hcall with
        ⟨hiff, hset⟩
      exact ⟨⟨fun _ hc' => absurd hc' htc, fun _ => hiff.mpr (Or.inl hcst)⟩, hset⟩

theorem runs_killSelf (t : Nat) (hc : t ∈ s.published)
    (hcall : s.call (.killSelf t) = some ((), s')) :
    (Runs s' ↔ HandsOver s (.killSelf t)) ∧ Settled s' := by
  simp only [SchedSession.call] at hcall
  have hkiller := killer_known s h.inv
  rcases taskKillSelf_spec s.sched s.published t h.inv.ok (Or.inl hc) hkiller with
    ⟨hk0, hrun⟩ | ⟨k, hok, hfix, hcur, _, hk0, hrun, htask⟩
  · rw [hrun] at hcall
    simp only [Option.map_some, Option.some.injEq, Prod.mk.injEq, true_and] at hcall
    rw [← hcall]
    exact ⟨⟨fun _ _ hne => absurd hk0 hne, fun _ => h.runs⟩, settled_self s h⟩
  · rw [hrun] at hcall
    -- The task is idle now, and a killer that slept is ready.
    have hst : ∀ u, (k.task u).state = if u = t then .idle
        else if u = s.sched.pidMap 0 ∧ (s.sched.task u).state = .sleep then .prepare
        else (s.sched.task u).state := by
      intro u
      rw [htask]
      by_cases hu : u = t
      · rw [if_pos hu, if_pos hu]
      · rw [if_neg hu, if_neg hu]
        by_cases hw : u = s.sched.pidMap 0 ∧ (s.sched.task u).state = .sleep
        · rw [if_pos hw, if_pos hw]
        · rw [if_neg hw, if_neg hw]
    have hothers : ∀ u, (k.task u).state = .running → (s.sched.task u).state = .running := by
      intro u hu
      rw [hst] at hu
      split at hu
      · exact absurd hu (by simp only [reduceCtorEq, not_false_eq_true])
      · split at hu
        · exact absurd hu (by simp only [reduceCtorEq, not_false_eq_true])
        · exact hu
    have hcst := hst k.current
    rw [hcur] at hcst
    -- If it is the current one, somebody must be there to run.
    by_cases htc : t = s.sched.current
    · rw [if_pos htc.symm, ← hcur] at hcst
      rcases runs_through s s' h k hok hfix hcur (by rw [hcst]; simp) hothers hcall with
        ⟨hiff, hset⟩
      refine ⟨?_, hset⟩
      rw [hiff, hcst]
      simp only [reduceCtorEq, false_or, HandsOver, htc, hk0, ne_eq, not_false_eq_true,
        forall_const]
      rw [← ne_eq, ← ne_eq]
      exact ready_killed s.sched k s.published t h.inv.ok hok hfix (hkiller.resolve_left hk0)
        (htc ▸ h.runs.2.1) hst
    · -- The current task is running, so it is not the killer that was woken up.
      have hns : ¬(s.sched.current = s.sched.pidMap 0 ∧
          (s.sched.task s.sched.current).state = .sleep) := by
        rw [h.runs.2.1]
        simp only [reduceCtorEq, and_false, not_false_eq_true]
      rw [if_neg (Ne.symm htc), if_neg hns, h.runs.2.1, ← hcur] at hcst
      rcases runs_through s s' h k hok hfix hcur (by rw [hcst]; simp) hothers hcall with
        ⟨hiff, hset⟩
      exact ⟨⟨fun _ hc' => absurd hc' htc, fun _ => hiff.mpr (Or.inl hcst)⟩, hset⟩

theorem runs_wakeup (t : Nat) (hc : s.Known t) (hcall : s.call (.wakeup t) = some ((), s')) :
    Runs s' ∧ Settled s' := by
  simp only [SchedSession.call, Option.some.injEq, Prod.mk.injEq, true_and] at hcall
  rw [← hcall]
  rcases wakeupTask_spec s.sched s.published t h.inv.ok hc with ⟨_, hfix, hcur, hnext, htask⟩
  -- Only a sleeping task changes its state.
  have hrunning : ∀ u, ((s.sched.wakeupTask t).task u).state = .running ↔
      (s.sched.task u).state = .running := by
    intro u
    rw [htask]
    by_cases hw : u = t ∧ (s.sched.task u).state = .sleep
    · rw [if_pos hw, hw.2]
      simp only [reduceCtorEq]
    · rw [if_neg hw]
  refine ⟨⟨?_, ?_, fun u hu hst => ?_⟩, settled_fixed s _ h hfix⟩
  · simp only [hnext, hcur]
    exact h.runs.1
  · simp only [hrunning, hcur]
    exact h.runs.2.1
  · simp only [hcur]
    exact h.runs.2.2 u ((known_of_fixed _ _ _ u hfix).mp hu) ((hrunning u).mp hst)

theorem runs_remove (t : Nat) (hc : t ∈ s.published)
    (hcall : s.call (.remove t) = some ((), s')) : Runs s' ∧ Settled s' := by
  simp only [SchedSession.call] at hcall
  rcases schedRemoveTask_cases s.sched t with hrun | ⟨k, hun, hrun⟩
  · rw [hrun] at hcall
    simp only [Option.some.injEq, Prod.mk.injEq, true_and] at hcall
    rw [← hcall]
    exact ⟨h.runs, settled_self s h⟩
  · rw [hrun] at hcall
    simp only [Option.some.injEq, Prod.mk.injEq, true_and] at hcall
    rw [← hcall]
    rcases schedUnlinkTask_spec s.sched s.published t h.inv.ok h.inv.nodup h.inv.idle hc k hun with
      ⟨_, hfix, htask, hcur, hnext, _, _, _⟩
    -- The tasks that are left were known before.
    have hknown : ∀ u, SchedSession.Known ⟨k.releasePid t, s.published.erase t⟩ u → s.Known u := by
      rintro u (hu | hu)
      · exact Or.inl (List.mem_of_mem_erase hu)
      · exact Or.inr (hu.trans hfix.idle)
    refine ⟨⟨(hnext.trans h.runs.1).trans hcur.symm, ?_, fun u hu hst => ?_⟩,
      ⟨fun u hu => h.nonzero u (hknown u hu), hfix.inInterrupt.trans h.outside,
        hfix.scheduleRunning.trans h.started⟩⟩
    · simp only [Sched.releasePid, htask, hcur]
      exact h.runs.2.1
    · simp only [Sched.releasePid, htask, hcur] at hst ⊢
      exact h.runs.2.2 u (hknown u hu) hst

theorem runs_idlePrio (hc : (s.sched.task s.sched.idle).state = .running)
    (hcall : s.call .idlePrio = some ((), s')) : Runs s' ∧ Settled s' := by
  simp only [SchedSession.call, Option.some.injEq, Prod.mk.injEq, true_and] at hcall
  rw [(setTaskPrio_running s.sched s.published s.sched.idle (maxPrio - 1) h.inv.ok hc
    (by decide)).1] at hcall
  rw [← hcall]
  have hstate : ∀ u, ((s.sched.setTask s.sched.idle { s.sched.task s.sched.idle with
      prePrio := (s.sched.task s.sched.idle).prio
      prio := maxPrio - 1 }).task u).state = (s.sched.task u).state := by
    intro u
    by_cases hu : u = s.sched.idle
    · rw [hu, setTask_task_self]
    · rw [setTask_task_other _ _ _ _ hu]
  refine ⟨⟨h.runs.1, (hstate _).trans h.runs.2.1, fun u hu hst => ?_⟩,
    ⟨h.nonzero, h.outside, h.started⟩⟩
  simp only [hstate] at hst
  exact h.runs.2.2 u hu hst

/-- A task that puts itself to sleep is not the one that goes on, if the call
    hands over. -/
theorem suspend_other (timeout : Int) (htime : timeout ≠ 0)
    (hcall : s.call (.suspend s.sched.current timeout) = some ((), s')) (hruns : Runs s') :
    s'.sched.current ≠ s.sched.current := by
  have hk := runInv_current s h
  simp only [SchedSession.call] at hcall
  rcases suspendTaskTimeout_spec s.sched s.published _ timeout h.inv.ok hk with
    ⟨hnone, _⟩ | ⟨k, hok, hfix, hcur, _, _, _, _, htask, hrun⟩
  · -- None of the reasons to refuse applies.
    rcases hnone with h0 | h0 | h0
    · exact absurd h0 (h.nonzero _ hk)
    · exact absurd h0 htime
    · rw [h.runs.2.1] at h0
      exact absurd h0 (by simp only [reduceCtorEq, not_false_eq_true])
  · rw [hrun, sched_eq_switch k (hfix.inInterrupt.trans h.outside)
      (hfix.scheduleRunning.trans h.started)] at hcall
    rcases Option.map_eq_some_iff.mp hcall with ⟨k', hk', heq⟩
    rw [Prod.mk.injEq] at heq
    rw [← heq.2] at hruns ⊢
    have hst : ∀ u, (k.task u).state =
        if u = s.sched.current then .sleep else (s.sched.task u).state := by
      intro u
      rw [htask, Function.update_apply]
      by_cases hu : u = s.sched.current
      · rw [if_pos hu, if_pos hu]
      · rw [if_neg hu, if_neg hu]
    -- The current task is asleep when the next one is chosen.
    have hsleep : (k.task s.sched.current).state = .sleep := by rw [hst, if_pos rfl]
    rcases runs_switch k s.published hok (Or.inr (by rw [hcur, hsleep]; simp)) (fun u hu hr => by
      rw [hcur]
      rw [hst] at hr
      by_cases huc : u = s.sched.current
      · exact huc
      · rw [if_neg huc] at hr
        exact h.runs.2.2 u ((known_of_fixed _ _ _ u hfix).mp hu) hr) k' hk' with
      ⟨_, _, _, ⟨_, _, hsame⟩ | ⟨_, hprep, _⟩⟩
    · -- With nobody ready it would go on, asleep.
      rw [hcur, hsleep] at hsame
      have hrunning := hruns.2.1
      simp only [hsame, reduceCtorEq] at hrunning
    · -- The task chosen was ready, so it is another one.
      intro heqc
      simp only [] at heqc
      rw [heqc, hsleep] at hprep
      exact absurd hprep (by simp only [reduceCtorEq, not_false_eq_true])

end Calls

/-- A call keeps the property exactly when it hands over. -/
theorem runs_call (s s' : SchedSession) (c : SchedCall) (h : RunInv s) (hc : s.Allowed c ())
    (hcall : s.call c = some ((), s')) : (Runs s' ↔ HandsOver s c) ∧ Settled s' := by
  have htriv : ∀ P : Prop, Runs s' ∧ Settled s' → P → (Runs s' ↔ P) ∧ Settled s' :=
    fun P hrs hP => ⟨⟨fun _ => hP, fun _ => hrs.1⟩, hrs.2⟩
  cases c with
  | fork t pid flag parent => exact htriv _ (runs_fork s s' h t pid flag parent hc hcall) trivial
  | sched =>
      have hnp : (s.sched.task s.sched.current).state ≠ .prepare := by
        rw [h.runs.2.1]
        simp only [ne_eq, reduceCtorEq, not_false_eq_true]
      rcases runs_through s s' h s.sched h.inv.ok (fixed_refl s.sched) rfl hnp (fun u hu => hu)
        hcall with ⟨hiff, hset⟩
      exact htriv _ ⟨hiff.mpr (Or.inl h.runs.2.1), hset⟩ trivial
  | tick => exact htriv _ (runs_tick s s' h hcall) trivial
  | suspend t timeout => exact runs_suspend s s' h t timeout hc hcall
  | wakeup t => exact htriv _ (runs_wakeup s s' h t hc hcall) trivial
  | killSelf t => exact runs_killSelf s s' h t hc hcall
  | remove t => exact htriv _ (runs_remove s s' h t hc hcall) trivial
  | idlePrio => exact htriv _ (runs_idlePrio s s' h hc hcall) trivial

theorem runInv_booted (s : Sched) (idle : Nat) (hidle : idle ≠ 0) (hint : s.inInterrupt = false) :
    RunInv (SchedSession.booted s idle) := by
  rcases boot_spec s idle _ rfl with ⟨_, hcur, hnext, hid, hstart, hin, _, hst, _⟩
  have hknown : ∀ u, (SchedSession.booted s idle).Known u → u = idle := by
    rintro u (hu | hu)
    · exact absurd hu List.not_mem_nil
    · exact hu.trans hid
  refine ⟨schedInv_booted s idle, ⟨hnext.trans hcur.symm, ?_, fun u hu _ => ?_⟩, fun u hu => ?_,
    hin.trans hint, hstart⟩
  · simp only [SchedSession.booted, hcur]
    exact hst
  · exact (hknown u hu).trans hcur.symm
  · rw [hknown u hu]
    exact hidle

/-- A call that can be made and hands over. -/
def Hands (s : SchedSession) (c : SchedCall) (u : Unit) : Prop :=
  s.Allowed c u ∧ HandsOver s c

/-- Over every run whose calls hand the processor over, the current task is the
    one running task, and a task that puts itself to sleep does not go on. Of the
    next call, it is exactly the ones that hand over after which this is so. -/
theorem running_runs (s : Sched) (idle : Nat) (hidle : idle ≠ 0) (hint : s.inInterrupt = false)
    (ses : SchedSession)
    (hrun : Run.Reaches SchedSession.call Hands (SchedSession.booted s idle) ses) :
    Runs ses ∧
      (∀ c ses', ses.Allowed c () → ses.call c = some ((), ses') →
        (Runs ses' ↔ HandsOver ses c)) ∧
      ∀ timeout ses', timeout ≠ 0 → HandsOver ses (.suspend ses.sched.current timeout) →
        ses.call (.suspend ses.sched.current timeout) = some ((), ses') →
          ses'.sched.current ≠ ses.sched.current := by
  -- Every call that hands the processor over keeps the invariant.
  have hinv : RunInv ses := by
    refine Run.invariant_of_reaches SchedSession.call Hands RunInv ?_ _ ses hrun
      (runInv_booted s idle hidle hint)
    rintro t c _ t' h ⟨hc, hh⟩ hcall
    rcases runs_call t t' c h hc hcall with ⟨hiff, hset⟩
    rcases schedInv_call t c h.inv hc with ⟨t'', hcall', h'⟩
    rw [hcall', Option.some.injEq, Prod.mk.injEq] at hcall
    exact ⟨hcall.2 ▸ h', hiff.mpr hh, hset.nonzero, hset.outside, hset.started⟩
  refine ⟨hinv.runs, fun c ses' hc hcall => (runs_call ses ses' c hinv hc hcall).1,
    fun timeout ses' htime hh hcall => ?_⟩
  have hk := runInv_current ses hinv
  exact suspend_other ses ses' hinv timeout htime hcall
    ((runs_call ses ses' (.suspend ses.sched.current timeout) hinv hk hcall).1.mpr hh)

instance (s : SchedSession) (c : SchedCall) : Decidable (HandsOver s c) :=
  match c with
  | .suspend t timeout =>
      inferInstanceAs (Decidable (t = s.sched.current → timeout ≠ 0 → s.sched.firstReady ≠ none))
  | .killSelf t =>
      inferInstanceAs (Decidable (t = s.sched.current → s.sched.pidMap 0 ≠ 0 →
        s.sched.firstReady ≠ none ∨ (s.sched.task (s.sched.pidMap 0)).state = .sleep ∧
          (s.sched.task (s.sched.pidMap 0)).prio < maxPrio - 1))
  | .fork _ _ _ _ | .sched | .tick | .wakeup _ | .remove _ | .idlePrio =>
      inferInstanceAs (Decidable True)

instance (s : SchedSession) (c : SchedCall) (u : Unit) : Decidable (Hands s c u) :=
  inferInstanceAs (Decidable (_ ∧ _))

/-- The killer and `init` are forked and the idle task gets the last priority;
    when the killer goes to sleep, `init` runs. -/
theorem running_runs_two :
    ∃ ses, Run.Reaches SchedSession.call Hands (SchedSession.booted blankSched 0x100) ses ∧
      ses.sched.current = 0x300 ∧ (ses.sched.task 0x200).state = .sleep ∧ Runs ses := by
  have heval : (Run.follow SchedSession.call Hands (SchedSession.booted blankSched 0x100)
      [.fork 0x200 0 1 0x100, .fork 0x300 1 2 0x100, .idlePrio, .sched, .suspend 0x200 (-1)]).map
        (fun ses => (ses.sched.current, (ses.sched.task 0x200).state))
      = some (0x300, .sleep) := by decide +kernel
  rcases Option.map_eq_some_iff.mp heval with ⟨ses, hses, hpair⟩
  rw [Prod.mk.injEq] at hpair
  have hrun := Run.reaches_of_follow SchedSession.call Hands _ _ ses hses
  exact ⟨ses, hrun, hpair.1, hpair.2,
    (running_runs blankSched 0x100 (by decide) rfl ses hrun).1⟩

/-- Without `init`, the killer goes to sleep and is still the task that runs. -/
theorem running_runs_fails :
    ¬∀ ses, Run.Reaches SchedSession.call SchedSession.Allowed
      (SchedSession.booted blankSched 0x100) ses → Runs ses := by
  intro hall
  have heval : (Run.follow SchedSession.call SchedSession.Allowed
      (SchedSession.booted blankSched 0x100)
      [.fork 0x200 0 1 0x100, .idlePrio, .sched, .suspend 0x200 (-1)]).map
        (fun ses => (ses.sched.task ses.sched.current).state) = some .sleep := by decide +kernel
  rcases Option.map_eq_some_iff.mp heval with ⟨ses, hses, hstate⟩
  have hruns := hall ses
    (Run.reaches_of_follow SchedSession.call SchedSession.Allowed _ _ ses hses)
  rw [Runs, hstate] at hruns
  exact absurd hruns.2.1 (by simp only [reduceCtorEq, not_false_eq_true])

end Mirros
