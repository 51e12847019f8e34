import Mirros.Theory.Signal.Pids

/-!
# A Signal in One State

`sys_signal` tests the number of the signal first, then that the pid map has a task for the
sender and one for the pid, and at last that the sender may kill the other task. Two things
are not tested: that the pid is not negative, and that the task the entry leads to is alive.

So a negative pid makes `pid_get_task` read in front of the map, unless the number of the signal
is out of range. And what was a task may be killed again, unless it is in a state in which
`kill_task` refuses to.

## Main definitions

* `SenderOk`: The entry of the sender.
* `SignalSafe`: What a signal should do.
* `SignalCond`: What is not tested holds.

## Theorems

* `killTask_spent`: When a kill does nothing.
* `signalSafe_iff`: When a signal does what it should.
-/

namespace Mirros

/-- The entry of the current task is its own. -/
structure SenderOk (k : MutexSys) : Prop where
  task : k.sched.current ≠ 0
  low : 0 ≤ (k.sched.task k.sched.current).pid
  high : (k.sched.task k.sched.current).pid < pidMapNr
  entry : k.sched.pidMap (k.sched.task k.sched.current).pid.toNat = k.sched.current

/-- The pid map is not read outside of its entries; a pid or a number out of range is refused
    and nothing changes; and with the pid of another task nothing changes either, unless that
    task is alive and its priority is greater than that of the sender. -/
structure SignalSafe (k : MutexSys) (live : List Nat) (pid : Int) (sig : Nat) : Prop where
  inside : ∀ fuel i, k.sysSignal fuel pid sig ≠ .error (.index i)
  refused : pid < 0 ∨ (pidMapNr : Int) ≤ pid ∨ maxSignal ≤ sig →
    ∀ fuel, k.sysSignal fuel pid sig = .ok (errInval, k)
  killed : ∀ fuel, pid ≠ (k.sched.task k.sched.current).pid →
    k.sysSignal fuel pid sig = .ok (errInval, k) ∨
      (k.sched.pidMap pid.toNat ∈ live ∧
        (k.sched.task k.sched.current).prio < (k.sched.task (k.sched.pidMap pid.toNat)).prio)

/-- A task that `kill_task` does something to. -/
def Task.Killable (task : Task) : Prop :=
  Movable task.state ∨ (task.state = .idle ∧ task.pid ≠ 0 ∧ task.pid ≠ 1)

/-- A kill of something that was a task and is not. -/
def KillsDead (k : MutexSys) (live : List Nat) (pid : Int) (sig : Nat) : Prop :=
  sig = processSignalKill ∧ pid ≠ (k.sched.task k.sched.current).pid ∧ pid < pidMapNr ∧
    k.sched.pidMap pid.toNat ≠ 0 ∧ k.sched.pidMap pid.toNat ∉ live ∧
    (k.sched.task k.sched.current).prio < (k.sched.task (k.sched.pidMap pid.toNat)).prio ∧
    (k.sched.task (k.sched.pidMap pid.toNat)).Killable

/-- The number is out of range, or the pid is not negative and does not lead to something that
    was a task and would be killed. -/
def SignalCond (k : MutexSys) (live : List Nat) (pid : Int) (sig : Nat) : Prop :=
  maxSignal ≤ sig ∨ (0 ≤ pid ∧ ¬KillsDead k live pid sig)

instance (task : Task) : Decidable task.Killable :=
  inferInstanceAs (Decidable ((_ ∨ _ ∨ _) ∨ _))

instance (k : MutexSys) (live : List Nat) (pid : Int) (sig : Nat) :
    Decidable (KillsDead k live pid sig) :=
  inferInstanceAs (Decidable (_ ∧ _))

instance (k : MutexSys) (live : List Nat) (pid : Int) (sig : Nat) :
    Decidable (SignalCond k live pid sig) :=
  inferInstanceAs (Decidable (_ ∨ _))

/-- A kill is refused and leaves everything as it is, exactly when there is nothing it could do
    to the task. -/
theorem killTask_spent (fuel : Nat) (k : MutexSys) (t : Nat) (ht : t ≠ 0) :
    MutexSys.killTask fuel k t = some (errInval, k) ↔ ¬(k.sched.task t).Killable := by
  have hzero : (0 : Int) ≠ errInval := by decide
  constructor
  · rintro h (hmov | ⟨hidle, hpid⟩)
    · -- The state is set before anything is tested.
      rcases hbegin : k.killBegin t with ⟨b, k₁⟩
      unfold MutexSys.killTask at h
      rw [if_neg ht, hbegin] at h
      cases b with
      | false =>
          have hk₁ := (killBegin_refused k k₁ t hbegin).1
          have hsame := (Prod.mk.inj (Option.some.inj h)).2
          have hstate := congrArg (fun k : MutexSys => (k.sched.task t).state) (hk₁.symm.trans hsame)
          dsimp only at hstate
          rw [setTaskState_movable k.sched t hmov] at hstate
          rcases hmov with hmov | hmov | hmov
          · rw [hmov] at hstate
            cases hstate
          · rw [hmov] at hstate
            cases hstate
          · rw [hmov] at hstate
            cases hstate
      | true =>
          rcases Option.bind_eq_some_iff.mp h with ⟨k₂, -, h⟩
          exact hzero (Prod.mk.inj (Option.some.inj h)).1
    · have hset : k.sched.setTaskState t .idle = k.sched := by
        unfold Sched.setTaskState
        rw [hidle]
        exact if_pos (by decide)
      have hbegin : ∃ k₁, k.killBegin t = (true, k₁) := by
        unfold MutexSys.killBegin Sched.schedUnlinkTask
        rw [hset, if_neg (not_not.mpr hidle), if_neg (fun hc => hc.elim hpid.2 hpid.1)]
        exact ⟨_, rfl⟩
      rcases hbegin with ⟨k₁, hbegin⟩
      unfold MutexSys.killTask at h
      rw [if_neg ht, hbegin] at h
      rcases Option.bind_eq_some_iff.mp h with ⟨k₂, -, h⟩
      exact hzero (Prod.mk.inj (Option.some.inj h)).1
  · intro hnot
    unfold Task.Killable at hnot
    rw [not_or] at hnot
    have hset : k.sched.setTaskState t .idle = k.sched := by
      unfold Sched.setTaskState
      exact if_pos (not_not.mp (fun hc => hnot.1 ((getStateChange_idle _).mp hc)))
    have hbegin : k.killBegin t = (false, k) := by
      unfold MutexSys.killBegin Sched.schedUnlinkTask
      rw [hset]
      by_cases hidle : (k.sched.task t).state = .idle
      · have hpid : (k.sched.task t).pid = 1 ∨ (k.sched.task t).pid = 0 := by
          by_contra hc
          rw [not_or] at hc
          exact hnot.2 ⟨hidle, hc.2, hc.1⟩
        rw [if_neg (not_not.mpr hidle), if_pos hpid]
      · rw [if_pos hidle]
    unfold MutexSys.killTask
    rw [if_neg ht, hbegin]

section

variable (k : MutexSys) (pid : Int) (sig : Nat) (fuel : Nat)

theorem pidGetTask_inside (hlow : 0 ≤ pid) (hhigh : pid < pidMapNr) :
    k.pidGetTask pid = .ok (k.sched.pidMap pid.toNat) := by
  unfold MutexSys.pidGetTask
  rw [if_pos hhigh, if_pos hlow]

theorem pidGetTask_above (hhigh : (pidMapNr : Int) ≤ pid) : k.pidGetTask pid = .ok 0 := by
  unfold MutexSys.pidGetTask
  rw [if_neg (not_lt.mpr hhigh)]

theorem pidGetTask_below (hlow : pid < 0) : k.pidGetTask pid = .error (.index pid) := by
  have hhigh : pid < (pidMapNr : Int) := Int.lt_of_lt_of_le hlow (Int.natCast_nonneg _)
  unfold MutexSys.pidGetTask
  rw [if_pos hhigh, if_neg (not_le.mpr hlow)]

/-- The task that is read for a pid that is not negative. -/
def entryOf : Nat :=
  if pid < pidMapNr then k.sched.pidMap pid.toNat else 0

theorem pidGetTask_entryOf (hlow : 0 ≤ pid) : k.pidGetTask pid = .ok (entryOf k pid) := by
  unfold entryOf
  split_ifs with hhigh
  · exact pidGetTask_inside k pid hlow hhigh
  · exact pidGetTask_above k pid (not_lt.mp hhigh)

/-- A number out of range is refused before the pid map is read. -/
theorem sysSignal_sig (hsig : maxSignal ≤ sig) :
    k.sysSignal fuel pid sig = .ok (errInval, k) := by
  unfold MutexSys.sysSignal MutexSys.isVaildSignal
  dsimp only
  rw [if_pos hsig]
  rfl

variable (hsender : SenderOk k) (hsig : sig < maxSignal)

include hsender hsig

theorem isVaildSignal_eq :
    k.isVaildSignal (k.sched.task k.sched.current).pid pid sig =
      (k.pidGetTask pid).map (fun u => decide (u ≠ 0)) := by
  unfold MutexSys.isVaildSignal
  rw [if_neg (not_le.mpr hsig), pidGetTask_inside k _ hsender.low hsender.high, hsender.entry]
  dsimp only [pure, Except.pure, bind, Except.bind]
  rw [if_neg hsender.task]
  cases k.pidGetTask pid with
  | error fault => rfl
  | ok u =>
      by_cases hu : u = 0
      · rw [hu]
        rfl
      · dsimp only [Except.map]
        rw [if_neg hu, decide_eq_true hu]

/-- A negative pid. -/
theorem sysSignal_below (hlow : pid < 0) :
    k.sysSignal fuel pid sig = .error (.index pid) := by
  unfold MutexSys.sysSignal
  dsimp only
  rw [isVaildSignal_eq k pid sig hsender hsig, pidGetTask_below k pid hlow]
  rfl

/-- A pid without an entry. -/
theorem sysSignal_empty (hlow : 0 ≤ pid) (hnone : entryOf k pid = 0) :
    k.sysSignal fuel pid sig = .ok (errInval, k) := by
  unfold MutexSys.sysSignal
  dsimp only
  rw [isVaildSignal_eq k pid sig hsender hsig, pidGetTask_entryOf k pid hlow, hnone]
  rfl

/-- A pid with one, for the signals that have no handler. -/
theorem sysSignal_unhandled (hlow : 0 ≤ pid) (hkill : sig ≠ processSignalKill) :
    k.sysSignal fuel pid sig = .ok (errInval, k) := by
  by_cases hnone : entryOf k pid = 0
  · exact sysSignal_empty k pid sig fuel hsender hsig hlow hnone
  · unfold MutexSys.sysSignal MutexSys.signalTable
    dsimp only
    rw [isVaildSignal_eq k pid sig hsender hsig, pidGetTask_entryOf k pid hlow, if_neg hkill]
    dsimp only [bind, Except.bind, Except.map]
    rw [decide_eq_true hnone]
    rfl

omit hsig in
/-- A kill of another task. -/
theorem sysSignal_other (hlow : 0 ≤ pid) (hne : entryOf k pid ≠ 0)
    (hother : pid ≠ (k.sched.task k.sched.current).pid) :
    k.sysSignal fuel pid processSignalKill =
      if (k.sched.task k.sched.current).prio < (k.sched.task (entryOf k pid)).prio then
        MutexSys.taskKillOther fuel k (entryOf k pid)
      else .ok (errInval, k) := by
  unfold MutexSys.sysSignal MutexSys.signalTable
  dsimp only
  rw [isVaildSignal_eq k pid _ hsender (by decide), pidGetTask_entryOf k pid hlow, if_pos rfl]
  dsimp only [bind, Except.bind, Except.map]
  rw [decide_eq_true hne, if_pos rfl]
  unfold MutexSys.signalKill
  rw [pidGetTask_inside k _ hsender.low hsender.high, hsender.entry,
    pidGetTask_entryOf k pid hlow]
  dsimp only [bind, Except.bind]
  rw [if_neg (Ne.symm hother)]

omit hsig in
/-- A task that kills itself. -/
theorem sysSignal_self :
    k.sysSignal fuel (k.sched.task k.sched.current).pid processSignalKill =
      k.taskKillSelf k.sched.current := by
  have hentry := pidGetTask_inside k _ hsender.low hsender.high
  rw [hsender.entry] at hentry
  unfold MutexSys.sysSignal MutexSys.signalTable
  dsimp only
  rw [isVaildSignal_eq k _ _ hsender (by decide), hentry, if_pos rfl]
  dsimp only [bind, Except.bind, Except.map]
  rw [decide_eq_true hsender.task, if_pos rfl]
  unfold MutexSys.signalKill
  rw [hentry]
  dsimp only [bind, Except.bind]
  rw [if_pos rfl]

end

/-- A signal that comes back changes nothing, or kills the sender, or another task. -/
theorem sysSignal_ok (k k' : MutexSys) (pid : Int) (sig fuel : Nat) (r : Int)
    (hsender : SenderOk k) (h : k.sysSignal fuel pid sig = .ok (r, k')) :
    (r = errInval ∧ k' = k) ∨
      (pid = (k.sched.task k.sched.current).pid ∧ SamePids k.sched k'.sched) ∨
      (pid ≠ (k.sched.task k.sched.current).pid ∧ sig = processSignalKill ∧ pid < pidMapNr ∧
        k.sched.pidMap pid.toNat ≠ 0 ∧
        (k.sched.task k.sched.current).prio < (k.sched.task (k.sched.pidMap pid.toNat)).prio ∧
        MutexSys.killTask fuel k (k.sched.pidMap pid.toNat) = some (r, k')) := by
  have hrefused : k.sysSignal fuel pid sig = .ok (errInval, k) → r = errInval ∧ k' = k := by
    intro hsame
    rw [hsame, Except.ok.injEq, Prod.mk.injEq] at h
    exact ⟨h.1.symm, h.2.symm⟩
  by_cases hsig : sig < maxSignal
  · by_cases hlow : 0 ≤ pid
    · by_cases hnone : entryOf k pid = 0
      · exact Or.inl (hrefused (sysSignal_empty k pid sig fuel hsender hsig hlow hnone))
      by_cases hkill : sig = processSignalKill
      · subst hkill
        by_cases hself : pid = (k.sched.task k.sched.current).pid
        · refine Or.inr (Or.inl ⟨hself, ?_⟩)
          rw [hself, sysSignal_self k fuel hsender] at h
          unfold MutexSys.taskKillSelf at h
          rw [pidGetTask_inside k 0 (by decide) (by decide)] at h
          dsimp only [bind, Except.bind] at h
          split_ifs at h with hkiller
          · rw [Except.ok.injEq, Prod.mk.injEq] at h
            rw [← h.2]
            exact samePids_refl _
          · split at h
            · rename_i s hrun
              rw [Except.ok.injEq, Prod.mk.injEq] at h
              rw [← h.2]
              exact samePids_killSelf _ _ s hrun
            · cases h
        · have hhigh : pid < pidMapNr := by
            by_contra hc
            exact hnone (if_neg hc)
          have hentry : entryOf k pid = k.sched.pidMap pid.toNat := if_pos hhigh
          have hother := sysSignal_other k pid fuel hsender hlow hnone hself
          rw [hentry] at hnone hother
          by_cases hprio : (k.sched.task k.sched.current).prio <
              (k.sched.task (k.sched.pidMap pid.toNat)).prio
          · rw [hother, if_pos hprio] at h
            refine Or.inr (Or.inr ⟨hself, rfl, hhigh, hnone, hprio, ?_⟩)
            unfold MutexSys.taskKillOther at h
            split at h
            · rename_i a hrun
              rw [hrun, Except.ok.inj h]
            · cases h
          · exact Or.inl (hrefused (hother.trans (if_neg hprio)))
      · exact Or.inl (hrefused (sysSignal_unhandled k pid sig fuel hsender hsig hlow hkill))
    · rw [sysSignal_below k pid sig fuel hsender hsig (not_le.mp hlow)] at h
      cases h
  · exact Or.inl (hrefused (sysSignal_sig k pid sig fuel (Nat.le_of_not_lt hsig)))

theorem taskKillOther_spent (fuel : Nat) (k : MutexSys) (t : Nat) (ht : t ≠ 0) :
    MutexSys.taskKillOther fuel k t = .ok (errInval, k) ↔ ¬(k.sched.task t).Killable := by
  rw [← killTask_spent fuel k t ht]
  unfold MutexSys.taskKillOther
  cases MutexSys.killTask fuel k t with
  | none => exact iff_of_false (fun h => by cases h) (fun h => by cases h)
  | some r =>
      dsimp only
      rw [Except.ok.injEq, Option.some.injEq]

theorem taskKillOther_index (fuel : Nat) (k : MutexSys) (t : Nat) (i : Int) :
    MutexSys.taskKillOther fuel k t ≠ .error (.index i) := by
  intro h
  unfold MutexSys.taskKillOther at h
  split at h
  · cases h
  · cases h

theorem taskKillSelf_index (k : MutexSys) (t : Nat) (i : Int) :
    k.taskKillSelf t ≠ .error (.index i) := by
  intro h
  unfold MutexSys.taskKillSelf at h
  rw [pidGetTask_inside k 0 (by decide) (by decide)] at h
  dsimp only [bind, Except.bind] at h
  split_ifs at h with hkiller
  split at h
  · cases h
  · cases h

theorem signalSafe_sig (k : MutexSys) (live : List Nat) (pid : Int) (sig : Nat)
    (hsig : maxSignal ≤ sig) : SignalSafe k live pid sig := by
  refine ⟨fun fuel i h => ?_, fun _ fuel => sysSignal_sig k pid sig fuel hsig,
    fun fuel _ => Or.inl (sysSignal_sig k pid sig fuel hsig)⟩
  rw [sysSignal_sig k pid sig fuel hsig] at h
  cases h

/-- In a state in which the entry of the sender is right: a signal does what it should exactly
    when what is not tested holds. -/
theorem signalSafe_iff (k : MutexSys) (live : List Nat) (hsender : SenderOk k) (pid : Int)
    (sig : Nat) : SignalSafe k live pid sig ↔ SignalCond k live pid sig := by
  constructor
  · intro h
    rcases Nat.lt_or_ge sig maxSignal with hsig | hsig
    · right
      constructor
      · by_contra hlow
        exact h.inside 0 pid (sysSignal_below k pid sig 0 hsender hsig (not_le.mp hlow))
      · rintro ⟨rfl, hother, hhigh, hne, hdead, hprio, hkillable⟩
        rcases h.killed 0 hother with hsame | ⟨hlive, -⟩
        · by_cases hlow : 0 ≤ pid
          · have hentry : entryOf k pid = k.sched.pidMap pid.toNat := if_pos hhigh
            rw [sysSignal_other k pid 0 hsender hlow (hentry ▸ hne) hother, hentry, if_pos hprio]
              at hsame
            exact (taskKillOther_spent 0 k _ hne).mp hsame hkillable
          · exact h.inside 0 pid (sysSignal_below k pid _ 0 hsender hsig (not_le.mp hlow))
        · exact hdead hlive
    · exact Or.inl hsig
  · intro hcond
    by_cases hsig : sig < maxSignal
    · rcases hcond with hsig' | ⟨hlow, hdead⟩
      · exact absurd hsig (Nat.not_lt.mpr hsig')
      refine ⟨fun fuel i h => ?_, fun hrange fuel => ?_, fun fuel hother => ?_⟩
      · by_cases hnone : entryOf k pid = 0
        · rw [sysSignal_empty k pid sig fuel hsender hsig hlow hnone] at h
          cases h
        by_cases hkill : sig = processSignalKill
        · subst hkill
          by_cases hself : pid = (k.sched.task k.sched.current).pid
          · rw [hself, sysSignal_self k fuel hsender] at h
            exact taskKillSelf_index k _ i h
          · rw [sysSignal_other k pid fuel hsender hlow hnone hself] at h
            split_ifs at h with hprio
            exact taskKillOther_index fuel k _ i h
        · rw [sysSignal_unhandled k pid sig fuel hsender hsig hlow hkill] at h
          cases h
      · rcases hrange with hneg | hhigh | hsig'
        · exact absurd hlow (not_le.mpr hneg)
        · exact sysSignal_empty k pid sig fuel hsender hsig hlow (if_neg (not_lt.mpr hhigh))
        · exact absurd hsig (Nat.not_lt.mpr hsig')
      · by_cases hnone : entryOf k pid = 0
        · exact Or.inl (sysSignal_empty k pid sig fuel hsender hsig hlow hnone)
        by_cases hkill : sig = processSignalKill
        · subst hkill
          have hhigh : pid < pidMapNr := by
            by_contra hc
            exact hnone (if_neg hc)
          have hentry : entryOf k pid = k.sched.pidMap pid.toNat := if_pos hhigh
          rw [sysSignal_other k pid fuel hsender hlow hnone hother, hentry]
          rw [hentry] at hnone
          by_cases hprio : (k.sched.task k.sched.current).prio <
              (k.sched.task (k.sched.pidMap pid.toNat)).prio
          · rw [if_pos hprio]
            by_cases hlive : k.sched.pidMap pid.toNat ∈ live
            · exact Or.inr ⟨hlive, hprio⟩
            · refine Or.inl ((taskKillOther_spent fuel k _ hnone).mpr (fun hkillable => ?_))
              exact hdead ⟨rfl, hother, hhigh, hnone, hlive, hprio, hkillable⟩
          · exact Or.inl (if_neg hprio)
        · exact Or.inl (sysSignal_unhandled k pid sig fuel hsender hsig hlow hkill)
    · exact signalSafe_sig k live pid sig (Nat.le_of_not_lt hsig)

end Mirros
