import Mirros.Lib.Hang
import Mirros.Theory.Mutex.Kinds

/-!
# Waking the Waiters

`mutex_unlock` walks the list of the tasks that wait for the mutex, takes each of
them off the list and wakes it up. The walk goes by the pointer a removed node
still has, so on a list that is whole it meets every waiter once and ends.

A wait list is not always whole: `kill_task` may take a node off a list it left
long ago. What is left then is that the walk, if it ends, has only touched wait
nodes and woken tasks, and both cases are wanted: the first to say what unlocking
does, the second to say what it cannot do.

## Main definitions

* `Woke`: Some tasks were woken up, and wait nodes were edited.
* `WaitLists`, `OwnLists`, `Families`: The three other kinds of lists.

## Theorems

* `wakeLoop_frame`: What the walk leaves alone, on any pointers.
* `wakeLoop_lists`: What the walk does on whole lists.
-/

namespace Mirros

/-- The tasks that wait for each mutex. -/
def WaitLists (links : Links TaskNode) (mutexes : Nat → Prop) (waiters : Nat → List Nat) : Prop :=
  Hangs links TaskNode.mutexWait TaskNode.wait mutexes waiters

/-- The mutexes that each task has got. -/
def OwnLists (links : Links TaskNode) (tracked : Nat → Prop) (owns : Nat → List Nat) : Prop :=
  Hangs links TaskNode.mutexGet TaskNode.mutexTask tracked owns

/-- The children of each task. -/
def Families (links : Links TaskNode) (tracked : Nat → Prop) (kids : Nat → List Nat) : Prop :=
  Hangs links TaskNode.child TaskNode.p tracked kids

theorem mutexWait_injective : Function.Injective TaskNode.mutexWait :=
  fun _ _ h => TaskNode.mutexWait.inj h

theorem wait_injective : Function.Injective TaskNode.wait :=
  fun _ _ h => TaskNode.wait.inj h

theorem mutexGet_injective : Function.Injective TaskNode.mutexGet :=
  fun _ _ h => TaskNode.mutexGet.inj h

theorem mutexTask_injective : Function.Injective TaskNode.mutexTask :=
  fun _ _ h => TaskNode.mutexTask.inj h

theorem child_injective : Function.Injective TaskNode.child :=
  fun _ _ h => TaskNode.child.inj h

theorem p_injective : Function.Injective TaskNode.p :=
  fun _ _ h => TaskNode.p.inj h

section Kinds

variable (links links' : Links TaskNode) (tracked : Nat → Prop) (members : Nat → List Nat)
  (k : NodeKind) (ho : Only k links links')

include ho

theorem waitLists_only (hk : k ≠ .wait) (h : WaitLists links tracked members) :
    WaitLists links' tracked members :=
  hangs_congr _ _ _ _ _ h _ (fun _ _ => ho _ (Ne.symm hk)) (fun _ _ _ _ => ho _ (Ne.symm hk))

theorem ownLists_only (hk : k ≠ .own) (h : OwnLists links tracked members) :
    OwnLists links' tracked members :=
  hangs_congr _ _ _ _ _ h _ (fun _ _ => ho _ (Ne.symm hk)) (fun _ _ _ _ => ho _ (Ne.symm hk))

theorem families_only (hk : k ≠ .family) (h : Families links tracked members) :
    Families links' tracked members :=
  hangs_congr _ _ _ _ _ h _ (fun _ _ => ho _ (Ne.symm hk)) (fun _ _ _ _ => ho _ (Ne.symm hk))

end Kinds

/-- An edit of another kind of nodes is nothing to the scheduler. -/
theorem schedInv_only (s : Sched) (pub : List Nat) (k : NodeKind) (links : Links TaskNode)
    (hk : k ≠ .sched) (ho : Only k s.links links) (h : SchedInv ⟨s, pub⟩) :
    SchedInv ⟨{ s with links := links }, pub⟩ :=
  ⟨schedOk_only s pub k links hk ho h.ok, h.nodup, h.idle, h.current, h.killer⟩

/-- The two records of a task that may have been woken up. -/
def WokenUp (task task' : Task) : Prop :=
  task' = task ∨ (task.state = .sleep ∧ task' = { task with runTime := 1, state := .prepare })

theorem wokenUp_trans (a b c : Task) (hab : WokenUp a b) (hbc : WokenUp b c) : WokenUp a c := by
  rcases hab with rfl | ⟨ha, rfl⟩
  · exact hbc
  · rcases hbc with rfl | ⟨hb, _⟩
    · exact Or.inr ⟨ha, rfl⟩
    · exact absurd hb (by simp only [reduceCtorEq, not_false_eq_true])

/-- The record of a task that was woken up if it slept. -/
def wokenRecord (woken : Prop) [Decidable woken] (task : Task) : Task :=
  if woken ∧ task.state = .sleep then { task with runTime := 1, state := .prepare } else task

theorem wokenUp_record (woken : Prop) [Decidable woken] (task : Task) :
    WokenUp task (wokenRecord woken task) := by
  unfold wokenRecord
  split_ifs with h
  · exact Or.inr ⟨h.2, rfl⟩
  · exact Or.inl rfl

theorem wokenRecord_false (woken : Prop) [Decidable woken] (task : Task) (h : ¬woken) :
    wokenRecord woken task = task :=
  if_neg (fun hc => h hc.1)

/-- Waking up a second time does nothing. -/
theorem wokenRecord_or (p q r : Prop) [Decidable p] [Decidable q] [Decidable r] (task : Task)
    (hr : r ↔ q ∨ p) : wokenRecord p (wokenRecord q task) = wokenRecord r task := by
  unfold wokenRecord
  by_cases hq : q ∧ task.state = .sleep
  · rw [if_pos hq, if_neg (by simp only [reduceCtorEq, and_false, not_false_eq_true]),
      if_pos ⟨hr.mpr (Or.inl hq.1), hq.2⟩]
  · rw [if_neg hq]
    by_cases hp : p ∧ task.state = .sleep
    · rw [if_pos hp, if_pos ⟨hr.mpr (Or.inr hp.1), hp.2⟩]
    · rw [if_neg hp, if_neg (by rw [hr]; tauto)]

/-- Some tasks were woken up, and only nodes of some kinds have other pointers. -/
structure Woke (ks : List NodeKind) (s s' : Sched) : Prop where
  links : ∀ n : TaskNode, n.kind ∉ ks →
    s'.links.next n = s.links.next n ∧ s'.links.pre n = s.links.pre n
  current : s'.current = s.current
  idle : s'.idle = s.idle
  pidMap : s'.pidMap = s.pidMap
  scheduleRunning : s'.scheduleRunning = s.scheduleRunning
  inInterrupt : s'.inInterrupt = s.inInterrupt
  task : ∀ u, WokenUp (s.task u) (s'.task u)

theorem woke_refl (ks : List NodeKind) (s : Sched) : Woke ks s s :=
  ⟨fun _ _ => ⟨rfl, rfl⟩, rfl, rfl, rfl, rfl, rfl, fun _ => Or.inl rfl⟩

theorem woke_trans (ks : List NodeKind) (s₁ s₂ s₃ : Sched) (h₁ : Woke ks s₁ s₂)
    (h₂ : Woke ks s₂ s₃) : Woke ks s₁ s₃ := by
  refine ⟨fun n hn => ?_, h₂.current.trans h₁.current, h₂.idle.trans h₁.idle,
    h₂.pidMap.trans h₁.pidMap, h₂.scheduleRunning.trans h₁.scheduleRunning,
    h₂.inInterrupt.trans h₁.inInterrupt,
    fun u => wokenUp_trans _ _ _ (h₁.task u) (h₂.task u)⟩
  rw [(h₂.links n hn).1, (h₂.links n hn).2]
  exact h₁.links n hn

/-- The body of the loop of `mutex_unlock`. -/
def wakeOne (s : Sched) (t : Nat) : Sched :=
  Sched.wakeupTask { s with links := listDel s.links (.wait t) } t

/-- One turn of the loop, for a task the scheduler knows or one that does not
    sleep. -/
theorem wakeOne_spec (s : Sched) (pub : List Nat) (S : Set TaskNode) (t : Nat)
    (hinv : SchedInv ⟨s, pub⟩) (hS : ClosedKind s.links .wait S) (ht : .wait t ∈ S)
    (hk : s.Known pub t ∨ (s.task t).state ≠ .sleep) :
    SchedInv ⟨wakeOne s t, pub⟩ ∧ Woke [.sched, .wait] s (wakeOne s t) ∧
      Only .sched (listDel s.links (.wait t)) (wakeOne s t).links ∧
      ClosedKind (wakeOne s t).links .wait S ∧
      ∀ u, (wakeOne s t).task u = wokenRecord (u = t) (s.task u) := by
  rcases only_listDel s.links .wait S hS (.wait t) ht with ⟨honly, hS'⟩
  have hdel := schedInv_only s pub .wait _ (by decide) honly hinv
  have hframe : ∀ n : TaskNode, n.kind ∉ [NodeKind.sched, .wait] →
      (listDel s.links (.wait t)).next n = s.links.next n ∧
        (listDel s.links (.wait t)).pre n = s.links.pre n := by
    intro n hn
    simp only [List.mem_cons, List.not_mem_nil, or_false, not_or] at hn
    exact honly n hn.2
  by_cases hst : (s.task t).state = .sleep
  · -- A task that sleeps is one the scheduler knows.
    have hkn : s.Known pub t := hk.resolve_right (not_not.mpr hst)
    rcases wakeupTask_spec { s with links := listDel s.links (.wait t) } pub t hdel.ok hkn with
      ⟨_, hfix, hcur, _, htask⟩
    rcases schedInv_call ⟨{ s with links := listDel s.links (.wait t) }, pub⟩ (.wakeup t) hdel hkn
      with ⟨s', hcall, hinv'⟩
    rw [SchedSession.call, Option.some.injEq, Prod.mk.injEq] at hcall
    rw [← hcall.2] at hinv'
    have honly' := only_of_kept _ _ hfix.kept
    refine ⟨hinv', ⟨fun n hn => ?_, hcur, hfix.idle, hfix.pidMap, hfix.scheduleRunning,
      hfix.inInterrupt, fun u => ?_⟩, honly', closedKind_only _ _ _ hS' .sched _ (by decide) honly',
      htask⟩
    · rw [← (hframe n hn).1, ← (hframe n hn).2]
      exact honly' n (fun hc => hn (hc ▸ List.mem_cons_self))
    · unfold wakeOne
      rw [htask]
      exact wokenUp_record _ _
  · -- Otherwise the list is all that changes.
    have heq : wakeOne s t = { s with links := listDel s.links (.wait t) } := by
      unfold wakeOne Sched.wakeupTask
      rw [if_pos hst]
    rw [heq]
    refine ⟨hdel, ⟨hframe, rfl, rfl, rfl, rfl, rfl, fun u => Or.inl rfl⟩, only_refl _ _, hS',
      fun u => ?_⟩
    refine (if_neg ?_).symm
    rintro ⟨rfl, hc⟩
    exact hst hc

/-- A task with a wait node that the scheduler does not know is not asleep. -/
def Awake (s : Sched) (pub : List Nat) (S : Set TaskNode) : Prop :=
  ∀ t, .wait t ∈ S → s.Known pub t ∨ (s.task t).state ≠ .sleep

theorem awake_woke (s s' : Sched) (pub : List Nat) (S : Set TaskNode) (h : Awake s pub S)
    (ks : List NodeKind) (hw : Woke ks s s') : Awake s' pub S := by
  intro t ht
  rcases h t ht with hk | hst
  · left
    unfold Sched.Known
    rw [hw.idle]
    exact hk
  · right
    rcases hw.task t with heq | ⟨hc, _⟩
    · rw [heq]
      exact hst
    · exact absurd hc hst

theorem wakeLoop_wait (fuel : Nat) (s : Sched) (m t : Nat) :
    MutexSys.wakeLoop (fuel + 1) s m (.wait t) =
      MutexSys.wakeLoop fuel (wakeOne s t) m ((wakeOne s t).links.next (.wait t)) := by
  simp only [MutexSys.wakeLoop, reduceCtorEq, if_false, wakeOne]

theorem wakeLoop_stop (fuel : Nat) (s : Sched) (m : Nat) :
    MutexSys.wakeLoop (fuel + 1) s m (.mutexWait m) = some s := by
  simp only [MutexSys.wakeLoop, if_true]

section Loop

variable (pub : List Nat) (S : Set TaskNode) (m : Nat)

/-- Whatever the pointers are, a walk that ends has only woken tasks and edited
    wait nodes. -/
theorem wakeLoop_frame (fuel : Nat) : ∀ (s s' : Sched) (list : TaskNode), SchedInv ⟨s, pub⟩ →
    ClosedKind s.links .wait S → list ∈ S → Awake s pub S →
    MutexSys.wakeLoop fuel s m list = some s' →
    SchedInv ⟨s', pub⟩ ∧ Woke [.sched, .wait] s s' ∧ ClosedKind s'.links .wait S := by
  induction fuel with
  | zero =>
      intro s s' list _ _ _ _ hrun
      rw [MutexSys.wakeLoop] at hrun
      exact absurd hrun (by simp only [reduceCtorEq, not_false_eq_true])
  | succ fuel ih =>
      intro s s' list hinv hS hl ha hrun
      by_cases hend : list = .mutexWait m
      · rw [hend, wakeLoop_stop, Option.some.injEq] at hrun
        exact hrun ▸ ⟨hinv, woke_refl _ s, hS⟩
      · -- The node is one of a task, or the walk would not have ended.
        cases list with
        | wait t =>
            rw [wakeLoop_wait] at hrun
            rcases wakeOne_spec s pub S t hinv hS hl (ha t hl) with ⟨hinv1, hw1, _, hS1, _⟩
            rcases ih _ s' _ hinv1 hS1 (hS1.closed _ hl).1 (awake_woke s _ pub S ha _ hw1) hrun with
              ⟨hinv', hw', hS'⟩
            exact ⟨hinv', woke_trans _ _ _ _ hw1 hw', hS'⟩
        | _ =>
            simp only [MutexSys.wakeLoop, hend, if_false, reduceCtorEq] at hrun

/-- On whole lists the walk ends, and it has woken every waiter and emptied the
    list of this mutex. -/
theorem wakeLoop_lists (mutexes : Nat → Prop) (hm : mutexes m) (hmS : .mutexWait m ∈ S) :
    ∀ (xs : List Nat) (fuel : Nat) (s : Sched) (waiters : Nat → List Nat), SchedInv ⟨s, pub⟩ →
    ClosedKind s.links .wait S → Awake s pub S → WaitLists s.links mutexes waiters →
    waiters m = xs → xs.length < fuel →
    ∃ s', MutexSys.wakeLoop fuel s m (s.links.next (.mutexWait m)) = some s' ∧
      SchedInv ⟨s', pub⟩ ∧ Woke [.sched, .wait] s s' ∧ ClosedKind s'.links .wait S ∧
      WaitLists s'.links mutexes (Function.update waiters m []) ∧
      ∀ u, s'.task u = wokenRecord (u ∈ xs) (s.task u) := by
  intro xs
  induction xs with
  | nil =>
      intro fuel s waiters hinv hS _ hlists hxs hfuel
      have hring := hangs_ring _ _ _ _ _ hlists m hm
      rw [hxs, List.map_nil] at hring
      have hnext := ring_next_head _ _ _ hring
      rcases fuel with _ | fuel
      · exact absurd hfuel (Nat.not_lt_zero _)
      · refine ⟨s, ?_, hinv, woke_refl _ s, hS, ?_, fun u => ?_⟩
        · rw [hnext, List.headD_nil, wakeLoop_stop]
        · rw [← hxs, Function.update_eq_self]
          exact hlists
        · rw [wokenRecord_false _ _ List.not_mem_nil]
  | cons t xs ih =>
      intro fuel s waiters hinv hS ha hlists hxs hfuel
      have hring := hangs_ring _ _ _ _ _ hlists m hm
      rw [hxs, List.map_cons] at hring
      have hnext := ring_next_head _ _ _ hring
      rw [List.headD_cons] at hnext
      have htS : .wait t ∈ S := hnext ▸ (hS.closed _ hmS).1
      rcases fuel with _ | fuel
      · exact absurd hfuel (Nat.not_lt_zero _)
      rcases wakeOne_spec s pub S t hinv hS htS (ha t htS) with ⟨hinv1, hw1, ho1, hS1, htask1⟩
      -- The waiter is off the list, and its pointer goes where the one of the head goes.
      have hlists1 : WaitLists (wakeOne s t).links mutexes (Function.update waiters m xs) := by
        refine waitLists_only _ _ _ _ .sched ho1 (by decide) ?_
        have hrem := hangs_remove s.links _ _ mutexes waiters hlists mutexWait_injective m hm t
          wait_injective (hxs ▸ List.mem_cons_self)
        rw [hxs, List.erase_cons_head, ← listDel_eq_link] at hrem
        exact hrem
      have hring1 := hangs_ring _ _ _ _ _ hlists1 m hm
      rw [Function.update_self] at hring1
      have hgo : (wakeOne s t).links.next (.wait t) =
          (wakeOne s t).links.next (.mutexWait m) := by
        rw [ring_next_head _ _ _ hring1, (ho1 (.wait t) (fun hc => by cases hc)).1, listDel_next_self _ _
          (ring_neighbours_ne _ _ _ _ hring List.mem_cons_self).2]
        exact (ring_split _ _ _ [] _ hring).2
      rcases ih fuel (wakeOne s t) _ hinv1 hS1 (awake_woke s _ pub S ha _ hw1) hlists1
        (Function.update_self _ _ _) (by simpa using hfuel) with
        ⟨s', hrun, hinv', hw', hS', hlists', htask'⟩
      refine ⟨s', ?_, hinv', woke_trans _ _ _ _ hw1 hw', hS', ?_, fun u => ?_⟩
      · rw [hnext, wakeLoop_wait, hgo]
        exact hrun
      · rw [Function.update_idem] at hlists'
        exact hlists'
      · -- A task is woken up in this turn or in a later one.
        rw [htask', htask1]
        exact wokenRecord_or _ _ _ _ List.mem_cons

end Loop

end Mirros
