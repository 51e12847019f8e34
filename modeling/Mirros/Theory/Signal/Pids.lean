import Mirros.Core.Signal
import Mirros.Theory.Mutex.Runs

/-!
# What Keeps the Pid Map

Nothing of what the scheduler and the mutexes do touches the pid map or a pid. A fork does, and
so does a kill: it clears the entry of the pid of its task, whatever that entry is.

## Main definitions

* `SamePids`: The pid map and all pids are the same.

## Theorems

* `samePids_schedCall`, `samePids_mutexUnlock`: What the scheduler and the mutexes keep.
* `killTask_pids`: What a kill does to the map.
-/

namespace Mirros

/-- The pid map and the pids of all tasks are the same. -/
structure SamePids (s s' : Sched) : Prop where
  pidMap : s'.pidMap = s.pidMap
  pid : ∀ t, (s'.task t).pid = (s.task t).pid

theorem samePids_refl (s : Sched) : SamePids s s :=
  ⟨rfl, fun _ => rfl⟩

theorem samePids_trans (s₁ s₂ s₃ : Sched) (h₁ : SamePids s₁ s₂) (h₂ : SamePids s₂ s₃) :
    SamePids s₁ s₃ :=
  ⟨h₂.pidMap.trans h₁.pidMap, fun t => (h₂.pid t).trans (h₁.pid t)⟩

section Sched

variable (s : Sched) (t : Nat)

theorem samePids_setTask (task : Task) (h : task.pid = (s.task t).pid) :
    SamePids s (s.setTask t task) := by
  refine ⟨rfl, fun u => ?_⟩
  unfold Sched.setTask
  dsimp only
  rw [Function.update_apply]
  split_ifs with hu
  · rw [h, hu]
  · rfl

theorem samePids_setTaskState (state : TaskState) : SamePids s (s.setTaskState t state) := by
  unfold Sched.setTaskState
  dsimp only
  split_ifs with hnone
  · exact samePids_refl s
  · refine samePids_trans _ _ _
      (samePids_setTask s t { s.task t with state := state } rfl) ?_
    generalize getStateChange (s.task t).state state = change
    cases change <;> exact ⟨rfl, fun _ => rfl⟩

theorem samePids_wakeupTask : SamePids s (s.wakeupTask t) := by
  unfold Sched.wakeupTask
  split_ifs with hstate
  · exact samePids_refl s
  · refine samePids_trans _ _ _ (samePids_setTask s t { s.task t with runTime := 1 } rfl) ?_
    exact samePids_setTaskState _ t .prepare

theorem samePids_prepareToSwitch (next : Nat) : SamePids s (s.prepareToSwitch next) := by
  have hback : SamePids s
      (if (s.task s.current).state = .running then s.setTaskState s.current .prepare else s) := by
    split_ifs with hrunning
    · exact samePids_setTaskState s s.current .prepare
    · exact samePids_refl s
  unfold Sched.prepareToSwitch
  dsimp only
  refine samePids_trans _ _ _ ?_ (samePids_setTask _ next _ rfl)
  by_cases hsame : s.current = next
  · rw [if_pos hsame]
    exact samePids_refl s
  · rw [if_neg hsame]
    generalize (if (s.task s.current).state = .running then s.setTaskState s.current .prepare
      else s) = s₁ at hback ⊢
    refine samePids_trans _ _ _ hback ?_
    refine samePids_trans _ _ _ ?_ (samePids_setTaskState _ next .running)
    exact samePids_setTask s₁ next _ rfl

theorem samePids_switchTask (s' : Sched) (h : s.switchTask = some s') : SamePids s s' := by
  unfold Sched.switchTask at h
  rcases Option.bind_eq_some_iff.mp h with ⟨next, -, h⟩
  have hprepared := samePids_prepareToSwitch { s with nextRun := next } next
  rw [← Option.some.inj h]
  exact ⟨hprepared.pidMap, hprepared.pid⟩

theorem samePids_sched (s' : Sched) (h : s.sched = some s') : SamePids s s' := by
  unfold Sched.sched at h
  split_ifs at h with hirq hstopped
  · rw [← Option.some.inj h]
    exact samePids_refl s
  · rw [← Option.some.inj h]
    exact samePids_refl s
  · exact samePids_switchTask s s' h

theorem samePids_tickTask : SamePids s (s.tickTask t) := by
  have hpid : (if 0 < (s.task t).waitTime then
      { s.task t with waitTime := (s.task t).waitTime - 1 } else s.task t).pid =
        (s.task t).pid := by
    split_ifs <;> rfl
  unfold Sched.tickTask
  dsimp only
  split_ifs at hpid ⊢
  · exact samePids_trans _ _ _ (samePids_setTask s t _ hpid) (samePids_setTaskState _ t _)
  · exact samePids_setTask s t _ hpid
  · exact samePids_trans _ _ _ (samePids_setTask s t _ hpid) (samePids_setTaskState _ t _)
  · exact samePids_setTask s t _ hpid

theorem samePids_tickLoop (fuel : Nat) : ∀ (s s' : Sched) (list : TaskNode),
    Sched.tickLoop fuel s list = some s' → SamePids s s' := by
  induction fuel with
  | zero =>
      intro s s' list h
      cases h
  | succ fuel ih =>
      intro s s' list h
      rw [Sched.tickLoop.eq_def] at h
      dsimp only at h
      split_ifs at h with hend
      · rw [← Option.some.inj h]
        exact samePids_refl s
      · split at h
        · exact samePids_trans _ _ _ (samePids_tickTask s _) (ih _ s' _ h)
        · cases h

theorem samePids_osTickHandler (s' : Sched) (h : s.osTickHandler = some s') : SamePids s s' := by
  unfold Sched.osTickHandler at h
  rcases Option.bind_eq_some_iff.mp h with ⟨s₁, hloop, h⟩
  refine samePids_trans _ _ _ (samePids_tickLoop _ s s₁ _ hloop) ?_
  refine samePids_trans _ _ _ (samePids_setTask s₁ s₁.current { s₁.task s₁.current with
    runTime := (s₁.task s₁.current).runTime - 1 } rfl) ?_
  dsimp only at h
  split_ifs at h with hout
  · exact samePids_switchTask _ s' h
  · rw [← Option.some.inj h]
    exact samePids_refl _

theorem samePids_suspend (timeout : Int) (s' : Sched)
    (h : s.suspendTaskTimeout t timeout = some s') : SamePids s s' := by
  unfold Sched.suspendTaskTimeout at h
  split_ifs at h with hnone hstate
  · rw [← Option.some.inj h]
    exact samePids_refl s
  · refine samePids_trans _ _ _
      (samePids_setTask s t { s.task t with waitTime := timeout, timeOut := 0 } rfl) ?_
    exact samePids_trans _ _ _ (samePids_setTaskState _ t .sleep) (samePids_sched _ s' h)
  · rw [← Option.some.inj h]
    exact samePids_refl s

theorem samePids_killSelf (s' : Sched) (h : s.taskKillSelf t = some s') : SamePids s s' := by
  unfold Sched.taskKillSelf at h
  dsimp only at h
  split_ifs at h with hkiller
  · rw [← Option.some.inj h]
    exact samePids_refl s
  · refine samePids_trans _ _ _ (samePids_setTaskState s t .idle) ?_
    exact samePids_trans _ _ _ (samePids_wakeupTask _ _) (samePids_sched _ s' h)

theorem samePids_setTaskPrio (prio : Nat) : SamePids s (s.setTaskPrio t prio) := by
  unfold Sched.setTaskPrio
  dsimp only
  split_ifs with hprio
  · exact samePids_refl s
  · split
    · exact samePids_setTask s t _ rfl
    · exact samePids_setTask s t _ rfl
    · have hout := samePids_setTaskState s t .unknown
      generalize s.setTaskState t .unknown = s₁ at hout ⊢
      refine samePids_trans _ _ _ hout (samePids_trans _ _ _ ?_ (samePids_setTaskState _ t .prepare))
      exact samePids_setTask s₁ t _ rfl
    · exact samePids_refl s

theorem samePids_initSchedStruct : SamePids s (s.initSchedStruct t) := by
  refine ⟨rfl, fun u => ?_⟩
  unfold Sched.initSchedStruct Sched.setTask
  dsimp only
  rw [Function.update_apply]
  by_cases hu : u = t
  · rw [if_pos hu, hu]
  · rw [if_neg hu]

theorem samePids_schedUnlink : SamePids s (s.schedUnlinkTask t).2 := by
  unfold Sched.schedUnlinkTask
  split_ifs
  · exact samePids_refl s
  · exact samePids_refl s
  · exact ⟨rfl, fun _ => rfl⟩

/-- The calls of the scheduler that neither fork nor remove a task. -/
theorem samePids_schedCall (ses ses' : SchedSession) (c : SchedCall) (hplain : c.Plain)
    (h : ses.call c = some ((), ses')) :
    SamePids ses.sched ses'.sched ∧ ses'.published = ses.published := by
  cases c with
  | fork t pid flag parent => exact absurd hplain id
  | remove t => exact absurd hplain id
  | sched =>
      rcases Option.map_eq_some_iff.mp h with ⟨k, hrun, heq⟩
      rw [← (Prod.mk.inj heq).2]
      exact ⟨samePids_sched _ k hrun, rfl⟩
  | tick =>
      rcases Option.map_eq_some_iff.mp h with ⟨k, hrun, heq⟩
      rw [← (Prod.mk.inj heq).2]
      exact ⟨samePids_osTickHandler _ k hrun, rfl⟩
  | suspend t timeout =>
      rcases Option.map_eq_some_iff.mp h with ⟨k, hrun, heq⟩
      rw [← (Prod.mk.inj heq).2]
      exact ⟨samePids_suspend _ t timeout k hrun, rfl⟩
  | wakeup t =>
      rw [← (Prod.mk.inj (Option.some.inj h)).2]
      exact ⟨samePids_wakeupTask _ t, rfl⟩
  | killSelf t =>
      rcases Option.map_eq_some_iff.mp h with ⟨k, hrun, heq⟩
      rw [← (Prod.mk.inj heq).2]
      exact ⟨samePids_killSelf _ t k hrun, rfl⟩
  | idlePrio =>
      rw [← (Prod.mk.inj (Option.some.inj h)).2]
      exact ⟨samePids_setTaskPrio ses.sched ses.sched.idle (maxPrio - 1), rfl⟩

end Sched

section Mutex

theorem samePids_wakeLoop (m fuel : Nat) : ∀ (s s' : Sched) (list : TaskNode),
    MutexSys.wakeLoop fuel s m list = some s' → SamePids s s' := by
  induction fuel with
  | zero =>
      intro s s' list h
      cases h
  | succ fuel ih =>
      intro s s' list h
      rw [MutexSys.wakeLoop.eq_def] at h
      dsimp only at h
      split_ifs at h with hend
      · rw [← Option.some.inj h]
        exact samePids_refl s
      · split at h
        · rename_i t
          have hwoken := samePids_wakeupTask { s with links := listDel s.links (.wait t) } t
          exact samePids_trans _ _ _ ⟨hwoken.pidMap, hwoken.pid⟩ (ih _ s' _ h)
        · cases h

theorem samePids_mutexUnlock (fuel : Nat) (k k' : MutexSys) (m : Nat)
    (h : MutexSys.mutexUnlock fuel k m = some k') : SamePids k.sched k'.sched := by
  unfold MutexSys.mutexUnlock at h
  split_ifs at h with hfree
  · rw [← Option.some.inj h]
    exact samePids_refl _
  · dsimp only at h
    rcases Option.bind_eq_some_iff.mp h with ⟨s, hloop, h⟩
    have hwoken := samePids_wakeLoop m fuel _ s _ hloop
    split_ifs at h with hon
    · rw [← Option.some.inj h]
      exact ⟨hwoken.pidMap, hwoken.pid⟩
    · rw [← Option.some.inj h]
      exact hwoken

theorem samePids_lockPass (k : MutexSys) (t m : Nat) (ms : Int) (r : LockPass × MutexSys)
    (h : k.lockPass t m ms = some r) : SamePids k.sched r.2.sched := by
  unfold MutexSys.lockPass at h
  dsimp only at h
  split_ifs at h with hheld hquit ht
  · rw [← Option.some.inj h]
    exact ⟨rfl, fun _ => rfl⟩
  · rcases Option.bind_eq_some_iff.mp h with ⟨s, hrun, h⟩
    have hslept := samePids_suspend _ t ms s hrun
    rw [← Option.some.inj h]
    exact ⟨hslept.pidMap, hslept.pid⟩
  · rw [← Option.some.inj h]
    exact ⟨rfl, fun _ => rfl⟩
  · rw [← Option.some.inj h]
    exact ⟨rfl, fun _ => rfl⟩

theorem samePids_lockResume (k : MutexSys) (t m : Nat) (ms : Int) (r : LockPass × MutexSys)
    (h : k.lockResume t m ms = some r) : SamePids k.sched r.2.sched := by
  unfold MutexSys.lockResume at h
  split_ifs at h with hout
  · rw [← Option.some.inj h]
    exact ⟨rfl, fun _ => rfl⟩
  · exact samePids_lockPass k t m ms r h

theorem samePids_adoptLoop (t fuel : Nat) : ∀ (s s' : Sched) (list : TaskNode),
    MutexSys.adoptLoop fuel s t list = some s' → SamePids s s' := by
  induction fuel with
  | zero =>
      intro s s' list h
      cases h
  | succ fuel ih =>
      intro s s' list h
      rw [MutexSys.adoptLoop.eq_def] at h
      dsimp only at h
      split_ifs at h with hend
      · rw [← Option.some.inj h]
        exact samePids_refl s
      · split at h
        · rename_i child
          have hadopted :=
            samePids_setTask s child { s.task child with parent := (s.task t).parent } rfl
          have hrest := ih _ s' _ h
          exact ⟨hrest.pidMap.trans hadopted.pidMap,
            fun u => (hrest.pid u).trans (hadopted.pid u)⟩
        · cases h

theorem samePids_unlockLoop (t fuel : Nat) : ∀ (k k' : MutexSys) (list : TaskNode),
    MutexSys.unlockLoop fuel k t list = some k' → SamePids k.sched k'.sched := by
  induction fuel with
  | zero =>
      intro k k' list h
      cases h
  | succ fuel ih =>
      intro k k' list h
      rw [MutexSys.unlockLoop.eq_def] at h
      dsimp only at h
      split_ifs at h with hend
      · rw [← Option.some.inj h]
        exact samePids_refl _
      · split at h
        · rcases Option.bind_eq_some_iff.mp h with ⟨k₁, hunlock, h⟩
          exact samePids_trans _ _ _ (samePids_mutexUnlock fuel k k₁ _ hunlock) (ih k₁ k' _ h)
        · cases h

theorem samePids_killEnd (fuel : Nat) (k k' : MutexSys) (t : Nat)
    (h : MutexSys.killEnd fuel k t = some k') : SamePids k.sched k'.sched := by
  unfold MutexSys.killEnd at h
  dsimp only at h
  rcases Option.bind_eq_some_iff.mp h with ⟨s, hadopt, h⟩
  have hadopted := samePids_adoptLoop t fuel _ s _ hadopt
  refine samePids_trans _ s _ ⟨hadopted.pidMap, hadopted.pid⟩ ?_
  have hleft := samePids_unlockLoop t fuel _ k' _ h
  split_ifs at hleft with hwait
  · exact ⟨hleft.pidMap, hleft.pid⟩
  · exact ⟨hleft.pidMap, hleft.pid⟩

/-- A kill that is refused leaves the pid map, and one that is not clears the entry of the pid
    of the task. -/
theorem killTask_pids (fuel : Nat) (k k' : MutexSys) (t : Nat) (r : Int)
    (h : MutexSys.killTask fuel k t = some (r, k')) :
    (r = errInval ∧ SamePids k.sched k'.sched) ∨
      (r = 0 ∧ k'.sched.pidMap =
          Function.update k.sched.pidMap (k.sched.task t).pid.toNat 0 ∧
        ∀ u, (k'.sched.task u).pid = (k.sched.task u).pid) := by
  unfold MutexSys.killTask at h
  split_ifs at h with ht
  · rw [Option.some.injEq, Prod.mk.injEq] at h
    rw [← h.1, ← h.2]
    exact Or.inl ⟨rfl, samePids_refl _⟩
  · have hbegun : SamePids k.sched (k.killBegin t).2.sched :=
      samePids_trans _ _ _ (samePids_setTaskState k.sched t .idle) (samePids_schedUnlink _ t)
    split at h
    · rename_i k₁ hbegin
      rw [hbegin] at hbegun
      rw [Option.some.injEq, Prod.mk.injEq] at h
      rw [← h.1, ← h.2]
      exact Or.inl ⟨rfl, hbegun⟩
    · rename_i k₁ hbegin
      rw [hbegin] at hbegun
      rcases Option.bind_eq_some_iff.mp h with ⟨k₂, hend, h⟩
      have hended := samePids_killEnd fuel _ k₂ t hend
      rw [Option.pure_def, Option.some.injEq, Prod.mk.injEq] at h
      rw [← h.1, ← h.2]
      refine Or.inr ⟨rfl, ?_, fun u => (hended.pid u).trans (hbegun.pid u)⟩
      rw [hended.pidMap]
      unfold Sched.releasePid
      dsimp only
      rw [hbegun.pidMap, hbegun.pid]

end Mutex

end Mirros
