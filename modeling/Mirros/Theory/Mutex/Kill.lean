import Mathlib.Algebra.Order.BigOperators.Group.List
import Mathlib.Algebra.Order.Ring.Nat
import Mirros.Theory.Mutex.Unlock

/-!
# Killing a Task

`kill_task` moves its task to IDLE, has the scheduler forget it, hands its children
to its parent, and gives back the mutexes it has got.

The state is set before the test that may refuse the kill, and is not set back.
So a refused kill of a task that was ready, running or asleep is not without a
trace: the task stays on the list of idle tasks.

The second half hands over the children and leaves the lists of the mutexes. Here it
is followed for a task without children, as the loop over the children does not end
for any other.

## Main definitions

* `Unmoved`: What a refused kill should leave as it is.
* `ProcessTree`: The lists of children of all tasks.
* `unwait`: The lists after a task has left the wait list its node is on.

## Theorems

* `killTask_refused`: When a refused kill leaves everything as it is.
* `adoptLoop_child`: The loop does not end with a child.
* `killEnd_lists`: The second half, for a task without children.
-/

namespace Mirros

/-- The state of the task, the lists with their counts, the pid map and the process
    tree are the same. -/
structure Unmoved (s s' : Sched) (t : Nat) : Prop where
  state : (s'.task t).state = (s.task t).state
  links : s'.links = s.links
  count : s'.count = s.count
  pidMap : s'.pidMap = s.pidMap
  parent : ∀ u, (s'.task u).parent = (s.task u).parent

/-- A task in one of the three states from which there is a change to IDLE. -/
def Movable (state : TaskState) : Prop :=
  state = .prepare ∨ state = .running ∨ state = .sleep

theorem getStateChange_idle (state : TaskState) :
    getStateChange state .idle ≠ .noneToNone ↔ Movable state := by
  cases state <;> simp [Movable, getStateChange, changeTable]

theorem setTaskState_movable (s : Sched) (t : Nat) (h : Movable (s.task t).state) :
    (s.setTaskState t .idle).task t = { s.task t with state := .idle } := by
  have hlive : (s.task t).state.Live := by
    rcases h with h | h | h <;> simp [TaskState.Live, h]
  have hni : (s.task t).state ≠ .idle := by
    rcases h with h | h | h <;> simp [h]
  rw [setTaskState_task _ _ _ hlive (by simp [TaskState.Live]), Function.update_self, if_neg hni]

/-- With one of the first two pids no task is removed. -/
theorem schedUnlinkTask_pid (s : Sched) (t : Nat)
    (h : (s.task t).pid = 0 ∨ (s.task t).pid = 1) : s.schedUnlinkTask t = (false, s) := by
  unfold Sched.schedUnlinkTask
  rw [or_comm] at h
  rw [if_pos h, ite_self]

/-- A kill that goes no further has only set the state. -/
theorem killBegin_refused (k k' : MutexSys) (t : Nat) (h : k.killBegin t = (false, k')) :
    k' = { k with sched := k.sched.setTaskState t .idle } ∧
      (Movable (k.sched.task t).state → (k.sched.task t).pid = 0 ∨ (k.sched.task t).pid = 1) := by
  unfold MutexSys.killBegin at h
  rw [Prod.mk.injEq] at h
  rcases hun : (k.sched.setTaskState t .idle).schedUnlinkTask t with ⟨b, s'⟩
  rw [hun] at h
  simp only at h
  rcases h with ⟨rfl, rfl⟩
  have hs' := schedUnlinkTask_refused _ s' t hun
  subst hs'
  refine ⟨rfl, fun hmov => ?_⟩
  -- From a state that can change, the test that refuses is the one of the pid.
  unfold Sched.schedUnlinkTask at hun
  rw [setTaskState_movable k.sched t hmov] at hun
  by_contra hpid
  simp only [ne_eq, not_true_eq_false, if_false, or_comm, hpid, Prod.mk.injEq, reduceCtorEq,
    false_and] at hun

/-- A kill that is refused leaves everything as it is, except for a task with one of
    the first two pids that is ready, running or asleep: it is idle then. -/
theorem killTask_refused (fuel : Nat) (k : MutexSys) (t : Nat) :
    (∀ (r : Int) (k' : MutexSys), k.killTask fuel t = some (r, k') → r ≠ 0 →
      Unmoved k.sched k'.sched t) ↔
    ¬(t ≠ 0 ∧ ((k.sched.task t).pid = 0 ∨ (k.sched.task t).pid = 1) ∧
      Movable (k.sched.task t).state) := by
  constructor
  · rintro hall ⟨ht, hpid, hmov⟩
    -- The kill is refused after the state has been set.
    have hset := setTaskState_movable k.sched t hmov
    have hbegin : k.killBegin t = (false, { k with sched := k.sched.setTaskState t .idle }) := by
      unfold MutexSys.killBegin
      rw [schedUnlinkTask_pid _ t (by rw [hset]; exact hpid)]
    have hun := hall errInval { k with sched := k.sched.setTaskState t .idle }
      (by simp only [MutexSys.killTask, ht, if_false, hbegin]) (by decide)
    have hstate := hun.state
    simp only [hset] at hstate
    rcases hmov with h | h | h <;> rw [h] at hstate <;> cases hstate
  · intro hnot r k' hrun hr
    unfold MutexSys.killTask at hrun
    by_cases ht : t = 0
    · rw [if_pos ht, Option.some.injEq, Prod.mk.injEq] at hrun
      rw [← hrun.2]
      exact ⟨rfl, rfl, rfl, rfl, fun _ => rfl⟩
    · rw [if_neg ht] at hrun
      rcases hbegin : k.killBegin t with ⟨b, k1⟩
      rw [hbegin] at hrun
      cases b with
      | true =>
          -- A kill that goes on returns zero.
          simp only [Option.bind_eq_bind, Option.bind_eq_some_iff, Option.pure_def,
            Option.some.injEq, Prod.mk.injEq] at hrun
          rcases hrun with ⟨k2, _, h0, _⟩
          exact absurd h0.symm hr
      | false =>
          rcases killBegin_refused k k1 t hbegin with ⟨rfl, hpid⟩
          simp only [Option.some.injEq, Prod.mk.injEq] at hrun
          rw [← hrun.2]
          -- There was no change of state to make.
          have hmov : ¬Movable (k.sched.task t).state := fun hc => hnot ⟨ht, hpid hc, hc⟩
          have hsame : k.sched.setTaskState t .idle = k.sched := by
            unfold Sched.setTaskState
            rw [if_pos (not_not.mp (fun hc => hmov ((getStateChange_idle _).mp hc)))]
          simp only [hsame]
          exact ⟨rfl, rfl, rfl, rfl, fun _ => rfl⟩

/-- `init` has been forked and is ready. A kill of it is refused, and it is on the
    list of idle tasks from then on. -/
theorem killTask_refused_init :
    ∃ ses k', Run.Reaches SchedSession.call SchedSession.Allowed
        (SchedSession.booted blankSched 0x100) ses ∧
      MutexSys.killTask 1 ⟨ses.sched, fun _ => 0⟩ 0x300 = some (errInval, k') ∧
      (ses.sched.task 0x300).state = .prepare ∧ (k'.sched.task 0x300).state = .idle ∧
      k'.sched.count .idle = ses.sched.count .idle + 1 ∧
      ¬Unmoved ses.sched k'.sched 0x300 := by
  have heval : ((Run.follow SchedSession.call SchedSession.Allowed
      (SchedSession.booted blankSched 0x100)
      [.fork 0x200 0 1 0x100, .fork 0x300 1 2 0x100]).bind (fun ses =>
        (MutexSys.killTask 1 ⟨ses.sched, fun _ => 0⟩ 0x300).map (fun r =>
          (r.1, (ses.sched.task 0x300).state, (r.2.sched.task 0x300).state,
            ses.sched.count .idle, r.2.sched.count .idle)))) =
      some (errInval, .prepare, .idle, 0, 1) := by decide +kernel
  rcases Option.bind_eq_some_iff.mp heval with ⟨ses, hses, hkill⟩
  rcases Option.map_eq_some_iff.mp hkill with ⟨⟨r, k'⟩, hk', hval⟩
  simp only [Prod.mk.injEq] at hval
  rcases hval with ⟨rfl, hbefore, hafter, hc, hc'⟩
  refine ⟨ses, k', Run.reaches_of_follow SchedSession.call SchedSession.Allowed _ _ ses hses, hk',
    hbefore, hafter, by rw [hc, hc']; rfl, fun hun => ?_⟩
  have hstate := hun.state
  rw [hbefore, hafter] at hstate
  cases hstate

/-- The lists of children of all tasks, as a tree: a child is a task that has its
    parent for a parent, and lies deeper than it. -/
structure ProcessTree (s : Sched) (tracked : Nat → Prop) (kids : Nat → List Nat) : Prop where
  lists : Families s.links tracked kids
  known : ∀ u, tracked u → ∀ c ∈ kids u, tracked c
  parent : ∀ u, tracked u → ∀ c ∈ kids u, (s.task c).parent = u
  rank : ∃ depth : Nat → Nat, ∀ u, tracked u → ∀ c ∈ kids u, depth u < depth c

/-- The children after a task was killed: those of the task come after those of its
    parent. -/
def adopted (kids : Nat → List Nat) (t q : Nat) (u : Nat) : List Nat :=
  if u = q then (kids q).erase t ++ kids t else kids u

/-- What is left of the wait lists when a task leaves the one its node is on. -/
def unwait (links : Links TaskNode) (t : Nat) : Links TaskNode :=
  if !isListEmpty links (.wait t) then listDel links (.wait t) else links

theorem unwait_only (links : Links TaskNode) (S : Set TaskNode) (t : Nat)
    (hS : ClosedKind links .wait S) (ht : .wait t ∈ S) :
    Only .wait links (unwait links t) ∧ ClosedKind (unwait links t) .wait S := by
  unfold unwait
  split_ifs with h
  · exact only_listDel links .wait S hS _ ht
  · exact ⟨only_refl _ _, hS⟩

/-- A published task is made idle. -/
theorem setIdle_spec (s : Sched) (pub : List Nat) (t : Nat) (hinv : SchedInv ⟨s, pub⟩)
    (ht : t ∈ pub) :
    SchedInv ⟨s.setTaskState t .idle, pub⟩ ∧ Fixed s (s.setTaskState t .idle) ∧
      (s.setTaskState t .idle).current = s.current ∧
      (s.setTaskState t .idle).task =
        Function.update s.task t { s.task t with state := .idle } := by
  have hkn : s.Known pub t := Or.inl ht
  rcases schedOk_setTaskState s pub t .idle hinv.ok hkn (by simp [TaskState.Live])
    (fun _ => by decide) with ⟨hok, hkept⟩
  have hfix := fixed_setTaskState s t .idle hkept
  have htask : (s.setTaskState t .idle).task =
      Function.update s.task t { s.task t with state := .idle } := by
    rw [setTaskState_task _ _ _ (hinv.ok.live t hkn) (by simp [TaskState.Live]), ite_self]
  refine ⟨schedInv_fixed ⟨s, pub⟩ _ hinv hok hfix ?_, hfix, setTaskState_current _ _ _, htask⟩
  -- The task does not run any more.
  rw [known_of_fixed _ _ _ _ hfix, setTaskState_current, htask, Function.update_apply]
  split_ifs with hc
  · exact Or.inr (by simp)
  · exact hinv.current

/-- A task that can be killed is off the lists of the scheduler after the first half
    of `kill_task`. -/
theorem killBegin_spec (k : MutexSys) (pub : List Nat) (t : Nat) (hinv : SchedInv ⟨k.sched, pub⟩)
    (ht : t ∈ pub) (hpid : (k.sched.task t).pid ≠ 0 ∧ (k.sched.task t).pid ≠ 1) :
    ∃ s, k.killBegin t = (true, { k with sched := s }) ∧
      SchedInv ⟨s.releasePid t, pub.erase t⟩ ∧ Only .sched k.sched.links s.links ∧
      s.current = k.sched.current ∧ s.idle = k.sched.idle ∧
      s.inInterrupt = k.sched.inInterrupt ∧ s.scheduleRunning = k.sched.scheduleRunning ∧
      s.task = Function.update k.sched.task t { k.sched.task t with state := .idle } := by
  rcases setIdle_spec k.sched pub t hinv ht with ⟨hinv1, hfix, hcur, htask⟩
  rcases hun : (k.sched.setTaskState t .idle).schedUnlinkTask t with ⟨b, s⟩
  have hb : b = true := by
    cases b with
    | true => rfl
    | false =>
        unfold Sched.schedUnlinkTask at hun
        simp only [htask, Function.update_self, ne_eq, not_true_eq_false, if_false, hpid.1,
          hpid.2, or_self, Prod.mk.injEq, reduceCtorEq, false_and] at hun
  subst hb
  rcases schedUnlinkTask_spec _ pub t hinv1.ok hinv.nodup hinv1.idle ht s hun with
    ⟨_, hfix', htask', hcur', _, _, _, _⟩
  refine ⟨s, ?_, schedInv_remove ⟨_, pub⟩ t hinv1 ht s hun,
    only_trans _ _ _ _ (only_of_kept _ _ hfix.kept) (only_of_kept _ _ hfix'.kept), ?_, ?_, ?_, ?_, ?_⟩
  · simp only [MutexSys.killBegin, hun]
  · rw [hcur', hcur]
  · rw [hfix'.idle, hfix.idle]
  · rw [hfix'.inInterrupt, hfix.inInterrupt]
  · rw [hfix'.scheduleRunning, hfix.scheduleRunning]
  · rw [htask', htask]

theorem killTask_eq (k : MutexSys) (t : Nat) (s : Sched) (ht0 : t ≠ 0)
    (hbegin : k.killBegin t = (true, { k with sched := s })) (fuel : Nat) :
    k.killTask fuel t =
      (MutexSys.killEnd fuel { k with sched := s.releasePid t } t).map (fun k => (0, k)) := by
  unfold MutexSys.killTask
  rw [if_neg ht0, hbegin, Option.map_eq_bind]
  rfl

/-- The task that was removed is idle. -/
theorem awake_removed (s s' : Sched) (pub : List Nat) (S : Set TaskNode) (t : Nat)
    (hnd : pub.Nodup) (ha : Awake s pub S) (hidle : s'.idle = s.idle)
    (htask : s'.task = Function.update s.task t { s.task t with state := .idle }) :
    Awake (s'.releasePid t) (pub.erase t) S := by
  intro u huS
  simp only [Sched.Known, Sched.releasePid, hidle, htask, hnd.mem_erase_iff, Function.update_apply]
  by_cases hut : u = t
  · right
    rw [if_pos hut]
    simp only [ne_eq, reduceCtorEq, not_false_eq_true]
  · rw [if_neg hut]
    rcases ha u huS with (hk | hk) | hst
    · exact Or.inl (Or.inl ⟨hut, hk⟩)
    · exact Or.inl (Or.inr hk)
    · exact Or.inr hst

/-- The first child that is put on the list of the parent leads the loop off the
    list it walks. -/
theorem adoptLoop_child (fuel : Nat) (s : Sched) (t c : Nat) (hc : c ≠ t)
    (hq : (s.task t).parent ≠ t) : MutexSys.adoptLoop fuel s t (.p c) = none := by
  rcases fuel with _ | fuel
  · rfl
  · have hpar : ((s.setTask c { s.task c with parent := (s.task t).parent }).task t).parent =
        (s.task t).parent := by
      rw [setTask_task_other _ _ _ _ (Ne.symm hc)]
    simp only [MutexSys.adoptLoop, reduceCtorEq, if_false, hpar]
    -- The child is followed by the head of the list of the parent.
    have hnext : (listAddTail (s.setTask c { s.task c with parent := (s.task t).parent }).links
        (.child (s.task t).parent) (.p c)).next (.p c) = .child (s.task t).parent := by
      rw [listAddTail_eq_link, Links.link_next, if_pos rfl]
    rw [hnext]
    rcases fuel with _ | fuel
    · rfl
    · simp only [MutexSys.adoptLoop, TaskNode.child.injEq, hq, if_false]

/-- Leaving a wait list depends on the wait nodes only. -/
theorem unwait_agree (links links' : Links TaskNode) (t : Nat)
    (h : ∀ n : TaskNode, n.kind = .wait →
      links'.next n = links.next n ∧ links'.pre n = links.pre n)
    (n : TaskNode) (hn : n.kind = .wait) :
    (unwait links' t).next n = (unwait links t).next n ∧
      (unwait links' t).pre n = (unwait links t).pre n := by
  have hempty : isListEmpty links' (.wait t) = isListEmpty links (.wait t) := by
    unfold isListEmpty
    rw [(h (.wait t) rfl).1]
  unfold unwait
  rw [hempty]
  split_ifs with he
  · rw [listDel_eq_link, listDel_eq_link, (h (.wait t) rfl).1, (h (.wait t) rfl).2,
      Links.link_next, Links.link_next, Links.link_pre, Links.link_pre, (h n hn).1, (h n hn).2]
    exact ⟨rfl, rfl⟩
  · exact h n hn

theorem waitLists_agree (links links' : Links TaskNode) (mutexes : Nat → Prop)
    (waiters : Nat → List Nat)
    (h : ∀ n : TaskNode, n.kind = .wait →
      links'.next n = links.next n ∧ links'.pre n = links.pre n)
    (hl : WaitLists links mutexes waiters) : WaitLists links' mutexes waiters :=
  hangs_congr _ _ _ _ _ hl _ (fun _ _ => h _ rfl) (fun _ _ _ _ => h _ rfl)

/-- The second half of `kill_task` for a task without children. -/
theorem killEnd_eq (fuel : Nat) (k : MutexSys) (t : Nat)
    (hchild : (listDel k.sched.links (.p t)).next (.child t) = .child t) :
    MutexSys.killEnd (fuel + 1) k t =
      MutexSys.unlockLoop (fuel + 1) (k.setLinks (unwait (listDel k.sched.links (.p t)) t)) t
        ((unwait (listDel k.sched.links (.p t)) t).next (.mutexGet t)) := by
  unfold MutexSys.killEnd
  simp only [MutexSys.setLinks, hchild, MutexSys.adoptLoop, if_true, Option.bind_eq_bind,
    Option.bind_some]
  unfold unwait
  by_cases he : (!isListEmpty (listDel k.sched.links (.p t)) (.wait t)) = true
  · rw [if_pos he, if_pos he]
  · rw [if_neg he, if_neg he]

/-- The loop over the children has ended at once, or there were more turns to go. -/
theorem adoptLoop_mono (t fuel : Nat) : ∀ (fuel' : Nat) (s s' : Sched) (list : TaskNode),
    fuel ≤ fuel' → MutexSys.adoptLoop fuel s t list = some s' →
    MutexSys.adoptLoop fuel' s t list = some s' := by
  induction fuel with
  | zero =>
      intro fuel' s s' list _ hrun
      rw [MutexSys.adoptLoop] at hrun
      cases hrun
  | succ fuel ih =>
      intro fuel' s s' list hle hrun
      rcases fuel' with _ | fuel'
      · omega
      by_cases hend : list = .child t
      · simp only [MutexSys.adoptLoop, hend, if_true] at hrun ⊢
        exact hrun
      · cases list with
        | p c =>
            simp only [MutexSys.adoptLoop, hend, if_false] at hrun ⊢
            exact ih fuel' _ _ _ (by omega) hrun
        | _ => simp only [MutexSys.adoptLoop, hend, if_false, reduceCtorEq] at hrun

theorem killEnd_mono (k k' : MutexSys) (t fuel fuel' : Nat) (hle : fuel ≤ fuel')
    (hrun : MutexSys.killEnd fuel k t = some k') : MutexSys.killEnd fuel' k t = some k' := by
  unfold MutexSys.killEnd at hrun ⊢
  rcases Option.bind_eq_some_iff.mp hrun with ⟨s, hs, hrest⟩
  exact Option.bind_eq_some_iff.mpr ⟨s, adoptLoop_mono t fuel fuel' _ _ _ hle hs,
    unlockLoop_mono t fuel fuel' _ _ _ hle hrest⟩

/-- However many turns the loops had, `kill_task` comes to the same end. -/
theorem killEnd_unique (k k' k'' : MutexSys) (t fuel fuel' : Nat)
    (h : MutexSys.killEnd fuel k t = some k') (h' : MutexSys.killEnd fuel' k t = some k'') :
    k' = k'' := by
  have h1 := killEnd_mono k k' t fuel _ (le_max_left fuel fuel') h
  have h2 := killEnd_mono k k'' t fuel' _ (le_max_right fuel fuel') h'
  rw [h1, Option.some.injEq] at h2
  exact h2

/-- On whole lists the second half of `kill_task` ends, for a task without children.
    The node of the task is off its list of siblings, nobody waits for the mutexes
    it had, and they are unlocked. -/
theorem killEnd_lists (k : MutexSys) (pub : List Nat) (S : Set TaskNode)
    (tracked mutexes : Nat → Prop) (owns waiters : Nat → List Nat) (t : Nat)
    (hinv : SchedInv ⟨k.sched, pub⟩) (hS : ClosedKind k.sched.links .wait S)
    (htS : .wait t ∈ S) (ha : Awake k.sched pub S)
    (hfam : Only .family k.sched.links (listDel k.sched.links (.p t)))
    (hchild : (listDel k.sched.links (.p t)).next (.child t) = .child t)
    (hown : OwnLists k.sched.links tracked owns) (ht : tracked t)
    (hlists : WaitLists (unwait k.sched.links t) mutexes waiters)
    (hms : ∀ m ∈ owns t, mutexes m ∧ TaskNode.mutexWait m ∈ S ∧ k.count m ≠ 0) :
    ∃ fuel k', MutexSys.killEnd fuel k t = some k' ∧ SchedInv ⟨k'.sched, pub⟩ ∧
      ClosedKind k'.sched.links .wait S ∧
      OwnLists k'.sched.links tracked (Function.update owns t []) ∧
      (∀ m, k'.count m = if m ∈ owns t then 0 else k.count m) ∧
      WaitLists k'.sched.links mutexes (fun m => if m ∈ owns t then [] else waiters m) ∧
      (∀ u, k'.sched.task u =
        wokenRecord (∃ m ∈ owns t, u ∈ waiters m) (k.sched.task u)) ∧
      (∀ n : TaskNode, n.kind = .family →
        k'.sched.links.next n = (listDel k.sched.links (.p t)).next n ∧
          k'.sched.links.pre n = (listDel k.sched.links (.p t)).pre n) ∧
      ∃ links, Woke unlockKinds { k.sched with links := links } k'.sched := by
  -- The two nodes of the task that are taken off lists first.
  have hS1 := closedKind_only _ _ _ hS .family _ (by decide) hfam
  rcases unwait_only _ S t hS1 htS with ⟨honly, hS2⟩
  have hinv2 := schedInv_only k.sched pub .family _ (by decide) hfam hinv
  have hinv3 := schedInv_only _ pub .wait _ (by decide) honly hinv2
  have hown2 := ownLists_only _ _ _ _ .wait honly (by decide)
    (ownLists_only _ _ _ _ .family hfam (by decide) hown)
  have hlists2 := waitLists_agree _ (unwait (listDel k.sched.links (.p t)) t) _ _
    (fun n hn => unwait_agree _ _ t (fun n hn => hfam n (by rw [hn]; decide)) n hn) hlists
  -- Enough turns for the longest of the lists.
  have hlen : ∀ m ∈ owns t, (waiters m).length ≤
      ((owns t).map (fun m => (waiters m).length)).sum := fun m hm =>
    List.single_le_sum (fun _ _ => Nat.zero_le _) _ (List.mem_map_of_mem hm)
  rcases unlockLoop_lists pub S tracked mutexes t ht _
    (((owns t).map (fun m => (waiters m).length)).sum + (owns t).length + 1)
    (k.setLinks (unwait (listDel k.sched.links (.p t)) t)) owns waiters hinv3 hS2 ha hown2 hlists2
    rfl (fun m hm => ⟨(hms m hm).1, (hms m hm).2.1, (hms m hm).2.2, by
      have := hlen m hm
      omega⟩) (by omega) with
    ⟨k', hrun, hinv', hw, hS', hown', hcount, hlists', htask⟩
  refine ⟨_, k', (killEnd_eq _ k t hchild).trans hrun, hinv', hS', hown', hcount, hlists', htask,
    fun n hn => ?_, ⟨_, hw⟩⟩
  have h1 := hw.links n (by rw [hn]; decide)
  have h2 := honly n (by rw [hn]; decide)
  exact ⟨h1.1.trans h2.1, h1.2.trans h2.2⟩

/-- In a tree, taking a child off the list of its parent leaves its own children. -/
theorem processTree_leave (s : Sched) (tracked : Nat → Prop) (kids : Nat → List Nat) (t q : Nat)
    (h : ProcessTree s tracked kids) (htr : tracked t) (hq : tracked q) (ht : t ∈ kids q) :
    q ≠ t ∧ t ∉ kids t ∧ Only .family s.links (listDel s.links (.p t)) ∧
      Ring (listDel s.links (.p t)) (.child t) ((kids t).map .p) := by
  rcases h.rank with ⟨depth, hdepth⟩
  have hqt : q ≠ t := by
    rintro rfl
    exact absurd (hdepth _ hq _ ht) (lt_irrefl _)
  have hrem := hangs_remove s.links _ _ tracked kids h.lists child_injective q hq t p_injective ht
  rw [← listDel_eq_link] at hrem
  have hring := hangs_ring _ _ _ _ _ hrem t htr
  rw [Function.update_of_ne (Ne.symm hqt)] at hring
  refine ⟨hqt, fun hc => absurd (hdepth _ htr _ hc) (lt_irrefl _), ?_, hring⟩
  refine (only_listDel _ .family _ (closedKind_ring _ _ _ .family
    (hangs_ring _ _ _ _ _ h.lists q hq) (fun a ha => ?_)) (.p t)
    (List.mem_cons_of_mem _ (List.mem_map_of_mem ht))).1
  rcases List.mem_cons.mp ha with rfl | ha
  · rfl
  · rcases List.mem_map.mp ha with ⟨c, _, rfl⟩
    rfl

/-- The state of a task is nothing to the tree. -/
theorem processTree_state (s s' : Sched) (tracked : Nat → Prop) (kids : Nat → List Nat) (t : Nat)
    (h : ProcessTree s tracked kids) (honly : Only .sched s.links s'.links)
    (htask : s'.task = Function.update s.task t { s.task t with state := .idle }) :
    ProcessTree (s'.releasePid t) tracked kids := by
  refine ⟨families_only _ _ _ _ .sched honly (by decide) h.lists, h.known,
    fun u hu c hc => ?_, h.rank⟩
  rw [← h.parent u hu c hc]
  simp only [Sched.releasePid, htask, Function.update_apply]
  split_ifs with hct
  · rw [hct]
  · rfl

/-- A child is on the list of its parent only, and a task without children leaves
    the tree a tree. -/
theorem processTree_childless (s s' : Sched) (tracked : Nat → Prop) (kids : Nat → List Nat)
    (t q : Nat) (h : ProcessTree s tracked kids) (hq : tracked q) (ht : t ∈ kids q)
    (hnone : kids t = [])
    (hlinks : ∀ n : TaskNode, n.kind = .family →
      s'.links.next n = (listDel s.links (.p t)).next n ∧
        s'.links.pre n = (listDel s.links (.p t)).pre n)
    (hparent : ∀ u, (s'.task u).parent = (s.task u).parent) :
    ProcessTree s' (fun u => tracked u ∧ u ≠ t) (adopted kids t q) := by
  have hnd := hangs_nodup _ _ _ _ _ h.lists q hq
  have hupd : adopted kids t q = Function.update kids q ((kids q).erase t) := by
    funext u
    unfold adopted
    rw [hnone, List.append_nil, Function.update_apply]
  have hrem := hangs_remove s.links _ _ tracked kids h.lists child_injective q hq t p_injective ht
  rw [← listDel_eq_link, ← hupd] at hrem
  have hin : ∀ u, tracked u → ∀ c ∈ adopted kids t q u, c ∈ kids u ∧ c ≠ t := by
    intro u hu c hc
    unfold adopted at hc
    rw [hnone, List.append_nil] at hc
    split_ifs at hc with huq
    · subst huq
      exact ⟨List.mem_of_mem_erase hc, ((hnd.mem_erase_iff).mp hc).1⟩
    · refine ⟨hc, ?_⟩
      rintro rfl
      exact huq (hangs_apart _ _ _ _ _ h.lists child_injective u q hu hq c hc ht)
  rcases h.rank with ⟨depth, hdepth⟩
  refine ⟨?_, fun u hu c hc => ?_, fun u hu c hc => ?_, depth, fun u hu c hc => ?_⟩
  · exact hangs_mono _ _ _ _ _ (hangs_congr _ _ _ _ _ hrem _ (fun _ _ => hlinks _ rfl)
      (fun _ _ _ _ => hlinks _ rfl)) _ (fun u hu => hu.1)
  · exact ⟨h.known u hu.1 c (hin u hu.1 c hc).1, (hin u hu.1 c hc).2⟩
  · rw [hparent]
    exact h.parent u hu.1 c (hin u hu.1 c hc).1
  · exact hdepth u hu.1 c (hin u hu.1 c hc).1

end Mirros
