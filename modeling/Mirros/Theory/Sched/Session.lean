import Mirros.Lib.Run
import Mirros.Theory.Sched.Ops

/-!
# Runs of the Scheduler

A session is the scheduler together with the tasks that have been published and
not removed since. Its calls are what the rest of the kernel can ask of the
scheduler: publish a task that was forked, give up the processor, tick, put a
task to sleep, wake it up, have it killed and remove what is left of it. `main`
also lowers the priority of the idle task, once, while that task is running.

Calls are about tasks there are: a forked task is one the scheduler does not
know yet and its parent is one it does, and only a published task is killed or
removed. Nothing else is asked of a run.

`SchedInv` adds to `SchedOk` what the calls need of the global variables. The
task in `current` may have been removed, and its memory forked again, but it is
not marked as running then; entry zero of the pid map is the task that kills, and
it is never removed.

## Main definitions

* `SchedSession`, `SchedCall`: The scheduler and what is asked of it.
* `SchedInv`: The invariant of a run.
* `OnLists`: A task hangs on the system list and on the list of its state.

## Theorems

* `schedInv_call`: Every call returns and keeps the invariant.
* `schedInv_run`: The invariant holds along every run.
* `sched_lists`: Every published task is on the lists of its state.
-/

namespace Mirros

/-- The scheduler and the tasks that are published. -/
structure SchedSession where
  sched : Sched
  published : List Nat

/-- A call of the scheduler. -/
inductive SchedCall where
  | fork (t pid flag parent : Nat)
  | sched
  | tick
  | suspend (t : Nat) (timeout : Int)
  | wakeup (t : Nat)
  | killSelf (t : Nat)
  | remove (t : Nat)
  | idlePrio
  deriving DecidableEq, Repr

namespace SchedSession

/-- The task is one the scheduler knows. -/
def Known (s : SchedSession) (t : Nat) : Prop :=
  s.sched.Known s.published t

instance (s : SchedSession) (t : Nat) : Decidable (s.Known t) :=
  inferInstanceAs (Decidable (s.sched.Known s.published t))

/-- Make a call. -/
def call (s : SchedSession) : SchedCall → Option (Unit × SchedSession)
  | .fork t pid flag parent =>
      some ((), ⟨s.sched.publish t pid flag parent, t :: s.published⟩)
  | .sched => s.sched.sched.map (fun k => ((), ⟨k, s.published⟩))
  | .tick => s.sched.osTickHandler.map (fun k => ((), ⟨k, s.published⟩))
  | .suspend t timeout =>
      (s.sched.suspendTaskTimeout t timeout).map (fun k => ((), ⟨k, s.published⟩))
  | .wakeup t => some ((), ⟨s.sched.wakeupTask t, s.published⟩)
  | .killSelf t => (s.sched.taskKillSelf t).map (fun k => ((), ⟨k, s.published⟩))
  | .remove t =>
      match s.sched.schedRemoveTask t with
      | (true, k) => some ((), ⟨k, s.published.erase t⟩)
      | (false, k) => some ((), ⟨k, s.published⟩)
  | .idlePrio => some ((), ⟨s.sched.setTaskPrio s.sched.idle (maxPrio - 1), s.published⟩)

/-- Which calls can be made. -/
def Allowed (s : SchedSession) (c : SchedCall) (_ : Unit) : Prop :=
  match c with
  | .fork t _ _ parent => t ≠ 0 ∧ ¬s.Known t ∧ s.Known parent
  | .sched => True
  | .tick => True
  | .suspend t _ => s.Known t
  | .wakeup t => s.Known t
  | .killSelf t => t ∈ s.published
  | .remove t => t ∈ s.published
  | .idlePrio => (s.sched.task s.sched.idle).state = .running

/-- The scheduler after `sched_init` and `build_idle_task`. -/
def booted (s : Sched) (idle : Nat) : SchedSession :=
  ⟨s.schedInit.buildIdleTask idle, []⟩

end SchedSession

instance (s : SchedSession) (c : SchedCall) (u : Unit) : Decidable (s.Allowed c u) :=
  match c with
  | .fork _ _ _ _ => inferInstanceAs (Decidable (_ ∧ _))
  | .sched => inferInstanceAs (Decidable True)
  | .tick => inferInstanceAs (Decidable True)
  | .suspend t _ => inferInstanceAs (Decidable (s.Known t))
  | .wakeup t => inferInstanceAs (Decidable (s.Known t))
  | .killSelf t => inferInstanceAs (Decidable (t ∈ s.published))
  | .remove t => inferInstanceAs (Decidable (t ∈ s.published))
  | .idlePrio => inferInstanceAs (Decidable (_ = _))

/-- The lists are right, and so are the variables the calls go by. -/
structure SchedInv (s : SchedSession) : Prop where
  ok : SchedOk s.sched s.published
  nodup : s.published.Nodup
  idle : s.sched.idle ∉ s.published
  current : s.Known s.sched.current ∨ (s.sched.task s.sched.current).state ≠ .running
  killer : s.sched.pidMap 0 = 0 ∨
    s.sched.pidMap 0 ∈ s.published ∧ (s.sched.task (s.sched.pidMap 0)).pid = 0

/-- What is left to show when the set of tasks stays the same. -/
theorem schedInv_fixed (s : SchedSession) (k : Sched) (h : SchedInv s)
    (hok : SchedOk k s.published) (hfix : Fixed s.sched k)
    (hcur : k.Known s.published k.current ∨ (k.task k.current).state ≠ .running) :
    SchedInv ⟨k, s.published⟩ := by
  refine ⟨hok, h.nodup, ?_, hcur, ?_⟩
  · simp only [hfix.idle]
    exact h.idle
  · simp only [hfix.pidMap, hfix.pid]
    exact h.killer

/-- The current task after a switch is one the scheduler knows, or the one it
    was before in the same state. -/
theorem current_switched (k k' : Sched) (pub : List Nat) (next : Nat) (h : Switched k k' next)
    (hcur : k.Known pub k.current ∨ (k.task k.current).state ≠ .running)
    (hnext : next = k.current ∨ k.Known pub next) :
    k'.Known pub k'.current ∨ (k'.task k'.current).state ≠ .running := by
  rw [h.current, known_of_fixed k k' pub next h.fixed, switched_state k k' next h, if_pos rfl]
  rcases hnext with rfl | hnext
  · rw [if_pos rfl]
    exact hcur
  · exact Or.inl hnext

/-- A switch, made from a state that is as the calls leave it. -/
theorem schedInv_switch (s : SchedSession) (k : Sched) (h : SchedInv s)
    (hok : SchedOk k s.published) (hfix : Fixed s.sched k)
    (hcur : k.Known s.published k.current ∨ (k.task k.current).state ≠ .running) :
    ∃ k', k.switchTask = some k' ∧ SchedInv ⟨k', s.published⟩ := by
  rcases switchTask_spec k s.published hok hcur with ⟨k', next, hrun, hok', hsw, hwhich⟩
  refine ⟨k', hrun, schedInv_fixed s k' h hok' (fixed_trans _ _ _ hfix hsw.fixed)
    (current_switched k k' s.published next hsw hcur ?_)⟩
  rcases hwhich with ⟨_, heq⟩ | ⟨i, _, hk, _⟩
  · exact Or.inl heq
  · exact Or.inr hk

theorem schedInv_sched (s : SchedSession) (k : Sched) (h : SchedInv s)
    (hok : SchedOk k s.published) (hfix : Fixed s.sched k)
    (hcur : k.Known s.published k.current ∨ (k.task k.current).state ≠ .running) :
    ∃ k', k.sched = some k' ∧ SchedInv ⟨k', s.published⟩ := by
  unfold Sched.sched
  by_cases hi : k.inInterrupt = true
  · exact ⟨k, if_pos hi, schedInv_fixed s k h hok hfix hcur⟩
  · rw [if_neg hi]
    by_cases hr : (!k.scheduleRunning) = true
    · exact ⟨k, if_pos hr, schedInv_fixed s k h hok hfix hcur⟩
    · rw [if_neg hr]
      exact schedInv_switch s k h hok hfix hcur

/-- The killer, once there is one, is a task the scheduler knows. -/
theorem killer_known (s : SchedSession) (h : SchedInv s) :
    s.sched.pidMap 0 = 0 ∨ s.sched.Known s.published (s.sched.pidMap 0) := by
  rcases h.killer with hk | ⟨hk, _⟩
  · exact Or.inl hk
  · exact Or.inr (Or.inl hk)

theorem schedInv_fork (s : SchedSession) (t pid flag parent : Nat) (h : SchedInv s)
    (hc : s.Allowed (.fork t pid flag parent) ()) :
    SchedInv ⟨s.sched.publish t pid flag parent, t :: s.published⟩ := by
  rcases hc with ⟨ht0, ht, hpar⟩
  have hpt : parent ≠ t := by
    rintro rfl
    exact ht hpar
  have htp : t ∉ s.published := fun hm => ht (Or.inl hm)
  rcases publish_spec s.sched s.published t pid flag parent h.ok ht hpt (h.ok.prio parent hpar) with
    ⟨r, htask, _, _, hrpid, _, _, _, _, hok, hcur, _, hidle, _, _, hpid, _⟩
  -- Only the new task has a new record.
  have hother : ∀ u, u ≠ t → (s.sched.publish t pid flag parent).task u = s.sched.task u := by
    intro u hu
    rw [htask, Function.update_of_ne hu]
  refine ⟨hok, List.nodup_cons.mpr ⟨htp, h.nodup⟩, ?_, ?_, ?_⟩
  · simp only [hidle, List.mem_cons, not_or]
    exact ⟨fun hc => ht (Or.inr hc.symm), h.idle⟩
  · unfold SchedSession.Known Sched.Known
    simp only [hcur, hidle, List.mem_cons]
    -- The current task is known still, or does not run.
    by_cases hct : s.sched.current = t
    · exact Or.inl (Or.inl (Or.inl hct))
    · rw [hother _ hct]
      rcases h.current with (hk | hk) | hk
      · exact Or.inl (Or.inl (Or.inr hk))
      · exact Or.inl (Or.inr hk)
      · exact Or.inr hk
  · -- The killer is the new task, or who it was.
    simp only [hpid]
    by_cases hp : pid = 0
    · right
      rw [hp, Function.update_self]
      refine ⟨List.mem_cons_self, ?_⟩
      rw [← hp, htask, Function.update_self, hrpid, hp]
      rfl
    · rw [Function.update_of_ne (Ne.symm hp)]
      rcases h.killer with hk | ⟨hk, hkp⟩
      · exact Or.inl hk
      · right
        refine ⟨List.mem_cons_of_mem t hk, ?_⟩
        rw [hother _ (fun hc => htp (hc ▸ hk))]
        exact hkp

theorem schedInv_remove (s : SchedSession) (t : Nat) (h : SchedInv s) (ht : t ∈ s.published)
    (k : Sched) (hrun : s.sched.schedUnlinkTask t = (true, k)) :
    SchedInv ⟨k.releasePid t, s.published.erase t⟩ := by
  rcases schedUnlinkTask_spec s.sched s.published t h.ok h.nodup h.idle ht k hrun with
    ⟨hok, hfix, htask, hcur, _, hst, _, hp0⟩
  have hidle : (k.releasePid t).idle = s.sched.idle := hfix.idle
  have hcur' : (k.releasePid t).current = s.sched.current := hcur
  have htask' : (k.releasePid t).task = s.sched.task := htask
  refine ⟨⟨hok.spread, hok.prio, hok.live⟩, h.nodup.erase t, ?_, ?_, ?_⟩
  · simp only [hidle]
    exact fun hm => h.idle (List.mem_of_mem_erase hm)
  · unfold SchedSession.Known Sched.Known
    simp only [hcur', hidle, htask', h.nodup.mem_erase_iff]
    -- A task that is removed is idle, so it does not run.
    by_cases hct : s.sched.current = t
    · right
      rw [hct, hst]
      simp only [ne_eq, reduceCtorEq, not_false_eq_true]
    · rcases h.current with (hk | hk) | hk
      · exact Or.inl (Or.inl ⟨hct, hk⟩)
      · exact Or.inl (Or.inr hk)
      · exact Or.inr hk
  · simp only [Sched.releasePid, htask, hfix.pidMap]
    -- The entry of the killer is only cleared with the pid zero.
    by_cases hz : (s.sched.task t).pid.toNat = 0
    · rw [hz, Function.update_self]
      exact Or.inl rfl
    · rw [Function.update_of_ne (Ne.symm hz)]
      rcases h.killer with hk | ⟨hk, hkp⟩
      · exact Or.inl hk
      · refine Or.inr ⟨(h.nodup.mem_erase_iff).mpr ⟨?_, hk⟩, hkp⟩
        intro hc
        rw [hc] at hkp
        exact hp0 hkp

/-- The idle task gets its last priority while it is running. -/
theorem schedInv_idlePrio (s : SchedSession) (h : SchedInv s)
    (hc : (s.sched.task s.sched.idle).state = .running) :
    SchedInv ⟨s.sched.setTaskPrio s.sched.idle (maxPrio - 1), s.published⟩ := by
  rcases setTaskPrio_running s.sched s.published s.sched.idle (maxPrio - 1) h.ok hc
    (by decide) with ⟨heq, hok⟩
  -- The record of a running task is all that changes, and its state and pid stay.
  have hstate : ∀ u, ((s.sched.setTaskPrio s.sched.idle (maxPrio - 1)).task u).state =
      (s.sched.task u).state ∧ ((s.sched.setTaskPrio s.sched.idle (maxPrio - 1)).task u).pid =
      (s.sched.task u).pid := by
    intro u
    rw [heq]
    by_cases hu : u = s.sched.idle
    · rw [hu, setTask_task_self]
      exact ⟨rfl, rfl⟩
    · rw [setTask_task_other _ _ _ _ hu]
      exact ⟨rfl, rfl⟩
  have hcur : (s.sched.setTaskPrio s.sched.idle (maxPrio - 1)).current = s.sched.current := by
    rw [heq]
    rfl
  have hidle : (s.sched.setTaskPrio s.sched.idle (maxPrio - 1)).idle = s.sched.idle := by
    rw [heq]
    rfl
  have hpid : (s.sched.setTaskPrio s.sched.idle (maxPrio - 1)).pidMap = s.sched.pidMap := by
    rw [heq]
    rfl
  refine ⟨hok, h.nodup, ?_, ?_, ?_⟩
  · simp only [hidle]
    exact h.idle
  · unfold SchedSession.Known Sched.Known
    simp only [hidle, hcur, (hstate _).1]
    exact h.current
  · simp only [hpid, (hstate _).2]
    exact h.killer

/-- Every call returns and keeps the invariant. -/
theorem schedInv_call (s : SchedSession) (c : SchedCall) (h : SchedInv s) (hc : s.Allowed c ()) :
    ∃ s', s.call c = some ((), s') ∧ SchedInv s' := by
  have hlift : ∀ o : Option Sched, (∃ k, o = some k ∧ SchedInv ⟨k, s.published⟩) →
      ∃ s', o.map (fun k => ((), (⟨k, s.published⟩ : SchedSession))) = some ((), s') ∧
        SchedInv s' := by
    rintro o ⟨k, rfl, hk⟩
    exact ⟨_, rfl, hk⟩
  have hkiller := killer_known s h
  cases c with
  | fork t pid flag parent => exact ⟨_, rfl, schedInv_fork s t pid flag parent h hc⟩
  | sched => exact hlift _ (schedInv_sched s s.sched h h.ok (fixed_refl s.sched) h.current)
  | tick =>
      rcases osTickHandler_spec s.sched s.published h.ok with ⟨k, hok, htick, hrun⟩
      have hcur := ticked_current s.published s.sched k htick h.current
      refine hlift _ ?_
      rw [hrun]
      by_cases hrt : (k.task k.current).runTime = 0
      · rw [if_pos hrt]
        exact schedInv_switch s k h hok htick.fixed hcur
      · rw [if_neg hrt]
        exact ⟨k, rfl, schedInv_fixed s k h hok htick.fixed hcur⟩
  | suspend t timeout =>
      refine hlift _ ?_
      rcases suspendTaskTimeout_spec s.sched s.published t timeout h.ok hc with
        ⟨_, hrun⟩ | ⟨k, hok, hfix, hcur, _, _, _, _, htask, hrun⟩
      · exact ⟨s.sched, hrun, h⟩
      · rw [hrun]
        refine schedInv_sched s k h hok hfix ?_
        rw [known_of_fixed _ _ _ _ hfix, hcur, htask, Function.update_apply]
        by_cases hct : s.sched.current = t
        · rw [if_pos hct]
          right
          simp only [ne_eq, reduceCtorEq, not_false_eq_true]
        · rw [if_neg hct]
          exact h.current
  | wakeup t =>
      rcases wakeupTask_spec s.sched s.published t h.ok hc with ⟨hok, hfix, hcur, _, htask⟩
      refine ⟨_, rfl, schedInv_fixed s _ h hok hfix ?_⟩
      rw [known_of_fixed _ _ _ _ hfix, hcur, htask]
      by_cases hct : s.sched.current = t ∧ (s.sched.task s.sched.current).state = .sleep
      · rw [if_pos hct]
        right
        simp only [ne_eq, reduceCtorEq, not_false_eq_true]
      · rw [if_neg hct]
        exact h.current
  | killSelf t =>
      refine hlift _ ?_
      rcases taskKillSelf_spec s.sched s.published t h.ok (Or.inl hc) hkiller with
        ⟨_, hrun⟩ | ⟨k, hok, hfix, hcur, _, _, hrun, htask⟩
      · exact ⟨s.sched, hrun, h⟩
      · rw [hrun]
        refine schedInv_sched s k h hok hfix ?_
        rw [known_of_fixed _ _ _ _ hfix, hcur, htask]
        split
        · right
          simp only [ne_eq, reduceCtorEq, not_false_eq_true]
        · split
          · right
            simp only [ne_eq, reduceCtorEq, not_false_eq_true]
          · exact h.current
  | remove t =>
      rcases schedRemoveTask_cases s.sched t with hrun | ⟨k, hun, hrun⟩
      · exact ⟨s, by simp only [SchedSession.call, hrun], h⟩
      · exact ⟨_, by simp only [SchedSession.call, hrun], schedInv_remove s t h hc k hun⟩
  | idlePrio => exact ⟨_, rfl, schedInv_idlePrio s h hc⟩

theorem schedInv_booted (s : Sched) (idle : Nat) : SchedInv (SchedSession.booted s idle) := by
  rcases boot_spec s idle _ rfl with ⟨hok, hcur, _, hidle, _, _, hpid, _, _⟩
  refine ⟨hok, List.nodup_nil, List.not_mem_nil, Or.inl (Or.inr ?_), Or.inl (hpid 0 (by decide))⟩
  exact hcur.trans hidle.symm

theorem schedInv_run (s : Sched) (idle : Nat) (ses : SchedSession)
    (hrun : Run.Reaches SchedSession.call SchedSession.Allowed (SchedSession.booted s idle) ses) :
    SchedInv ses := by
  refine Run.invariant_of_reaches SchedSession.call SchedSession.Allowed SchedInv ?_ _ ses hrun
    (schedInv_booted s idle)
  intro t c _ t' h hc hcall
  rcases schedInv_call t c h hc with ⟨t'', hcall', h'⟩
  rw [hcall', Option.some.injEq, Prod.mk.injEq] at hcall
  exact hcall.2 ▸ h'

/-- The task is on the system list once, and on the list of its state once and on
    no other. -/
structure OnLists (f : TaskNode → List TaskNode) (task : Task) (t : Nat) : Prop where
  system : (f (.list .system)).count (.system t) = 1
  ready : ∀ i, i < maxPrio → (f (.list (.prio i))).count (.prioRunning t) =
    if task.state = .prepare ∧ task.prio = i then 1 else 0
  sleep : (f (.list .sleep)).count (.sleep t) = if task.state = .sleep then 1 else 0
  idle : (f (.list .idle)).count (.idle t) = if task.state = .idle then 1 else 0
  running : task.state = .running ↔
    (∀ i, i < maxPrio → .prioRunning t ∉ f (.list (.prio i))) ∧ .sleep t ∉ f (.list .sleep) ∧
      .idle t ∉ f (.list .idle)

/-- On a ring a node occurs once or not at all. -/
theorem count_spread (links : Links TaskNode) (count : SchedList → Int)
    (spot : TaskNode → Option SchedList) (f : TaskNode → List TaskNode)
    (hf : Spread links count spot f) (l : SchedList) (hl : l.Valid) (n : TaskNode) :
    (f (.list l)).count n = if spot n = some l then 1 else 0 := by
  have hnd := (List.nodup_cons.mp (hf.rings.1 _ (mem_schedHeads l hl)).1).2
  by_cases hn : spot n = some l
  · rw [if_pos hn]
    exact List.count_eq_one_of_mem hnd ((hf.mem l hl n).mpr hn)
  · rw [if_neg hn]
    exact List.count_eq_zero_of_not_mem (fun hm => hn ((hf.mem l hl n).mp hm))

theorem onLists_of_spread (s : Sched) (pub : List Nat) (f : TaskNode → List TaskNode) (t : Nat)
    (hs : SchedOk s pub) (hf : Spread s.links s.count (s.spot pub) f) (ht : t ∈ pub) :
    OnLists f (s.task t) t := by
  have hk : s.Known pub t := Or.inl ht
  refine ⟨?_, fun i hi => ?_, ?_, ?_, ⟨fun hst => ⟨fun i hi hm => ?_, fun hm => ?_, fun hm => ?_⟩,
    fun hnot => ?_⟩⟩
  · rw [count_spread _ _ _ f hf .system trivial]
    simp only [Sched.spot, ht, if_true]
  · rw [count_spread _ _ _ f hf (.prio i) hi]
    simp only [Sched.spot, hk, true_and, Option.ite_none_right_eq_some, Option.some.injEq,
      SchedList.prio.injEq]
  · rw [count_spread _ _ _ f hf .sleep trivial]
    simp only [Sched.spot, hk, true_and, Option.ite_none_right_eq_some, and_true]
  · rw [count_spread _ _ _ f hf .idle trivial]
    simp only [Sched.spot, hk, true_and, Option.ite_none_right_eq_some, and_true]
  · rw [hf.mem (.prio i) hi] at hm
    simp only [Sched.spot, hst, reduceCtorEq, and_false, if_false] at hm
  · rw [hf.mem .sleep trivial] at hm
    simp only [Sched.spot, hst, reduceCtorEq, and_false, if_false] at hm
  · rw [hf.mem .idle trivial] at hm
    simp only [Sched.spot, hst, reduceCtorEq, and_false, if_false] at hm
  · -- A live task that is on none of the three lists is in none of the three states.
    rcases hs.live t hk with hst | hst | hst | hst
    · refine absurd ?_ (hnot.1 _ (hs.prio t hk))
      rw [hf.mem (.prio (s.task t).prio) (hs.prio t hk)]
      simp only [Sched.spot, hk, hst, and_self, if_true]
    · exact hst
    · refine absurd ?_ hnot.2.1
      rw [hf.mem .sleep trivial]
      simp only [Sched.spot, hk, hst, and_self, if_true]
    · refine absurd ?_ hnot.2.2
      rw [hf.mem .idle trivial]
      simp only [Sched.spot, hk, hst, and_self, if_true]

/-- After any run of calls since boot, the scheduler's lists are rings with no
    node in common, their counters are their lengths, and every published task
    is on the system list and on the list of its state. Every further call
    returns. -/
theorem sched_lists (s : Sched) (idle : Nat) (ses : SchedSession)
    (hrun : Run.Reaches SchedSession.call SchedSession.Allowed (SchedSession.booted s idle) ses) :
    (∃ f, Rings ses.sched.links schedHeads f ∧
      (∀ l : SchedList, l.Valid → ses.sched.count l = (f (.list l)).length) ∧
      ∀ t ∈ ses.published, OnLists f (ses.sched.task t) t) ∧
    ∀ c, ses.Allowed c () → ∃ ses', ses.call c = some ((), ses') := by
  have hinv := schedInv_run s idle ses hrun
  rcases hinv.ok.spread with ⟨f, hf⟩
  refine ⟨⟨f, hf.rings, hf.count, fun t ht =>
    onLists_of_spread ses.sched ses.published f t hinv.ok hf ht⟩, fun c hc => ?_⟩
  rcases schedInv_call ses c hinv hc with ⟨ses', hcall, _⟩
  exact ⟨ses', hcall⟩

/-- A scheduler before `sched_init`, with everything zero. -/
def blankSched : Sched where
  task _ := ⟨0, 0, .prepare, .prepare, 0, 0, 0, 0, 0, 0, 0⟩
  links := ⟨id, id⟩
  count _ := 0
  pidMap _ := 0
  current := 0
  nextRun := 0
  idle := 0
  scheduleRunning := false
  inInterrupt := false

/-- Three tasks are forked; the killer sleeps for two ticks while the second
    task kills itself, and is put back on a ready list by it. -/
theorem sched_lists_three :
    ∃ ses, Run.Reaches SchedSession.call SchedSession.Allowed
        (SchedSession.booted blankSched 0x100) ses ∧
      ses.published = [0x400, 0x300, 0x200] ∧
      ses.published.map (fun t => (ses.sched.task t).state) = [.prepare, .idle, .prepare] ∧
      (∃ f, Rings ses.sched.links schedHeads f ∧
        (∀ l : SchedList, l.Valid → ses.sched.count l = (f (.list l)).length) ∧
        ∀ t ∈ ses.published, OnLists f (ses.sched.task t) t) := by
  have heval : (Run.follow SchedSession.call SchedSession.Allowed
      (SchedSession.booted blankSched 0x100)
      [.fork 0x200 0 1 0x100, .fork 0x300 1 2 0x100, .fork 0x400 2 2 0x300, .sched,
        .suspend 0x200 2, .tick, .killSelf 0x300]).map
        (fun ses => (ses.published, ses.published.map (fun t => (ses.sched.task t).state)))
      = some ([0x400, 0x300, 0x200], [.prepare, .idle, .prepare]) := by decide +kernel
  rcases Option.map_eq_some_iff.mp heval with ⟨ses, hses, hpair⟩
  rw [Prod.mk.injEq] at hpair
  have hrun := Run.reaches_of_follow SchedSession.call SchedSession.Allowed _ _ ses hses
  exact ⟨ses, hrun, hpair.1, hpair.2, (sched_lists blankSched 0x100 ses hrun).1⟩

end Mirros
