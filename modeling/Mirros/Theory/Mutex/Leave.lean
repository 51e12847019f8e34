import Mirros.Theory.Mutex.Adopt
import Mirros.Theory.Mutex.Result

/-!
# Waiters of Other Tasks

`kill_task` takes the wait node of its task off the list it is on. Whether it is on one
is guessed from the node pointing at itself or not, and a node that was taken off a list
before does not point at itself: it still has the neighbours it had when an unlock woke
the task up. Unlinking it a second time joins those two, wherever they are by now.

The runs here are of locks without a time limit, unlocks and kills, with switches and
ticks in between. Their invariant is that every wait list is whole, and has tasks on it
that sleep inside `mutex_lock`. A kill keeps it under the condition `Harmless`: the node of
the task is alone, or the task waits, or unlinking its node changes no pointer of a node
that is on a list now.

There is one state in which a wait list is not whole although no kill has spoiled it. When
nobody is ready the task that goes to sleep is the one that goes on, and puts itself on
the list again, for ever.

## Main definitions

* `Harmless`: The kill does not touch the list of anybody else.
* `WaitOk`, `Stuck`: The invariant of the wait lists, and the state that has no exit.

## Theorems

* `steady_call`: What the calls of the scheduler do to tasks that sleep.
* `waitInv_run`: The invariant of the runs.
* `killTask_leaves`: What a kill does to the wait lists.
-/

namespace Mirros

/-- Taking the wait node of the task off whatever list it is on leaves the lists of the
    other tasks alone. -/
def Harmless (links : Links TaskNode) (locks : List Nat) (t : Nat) : Prop :=
  isListEmpty links (.wait t) = true ∨
  (∃ m ∈ locks, ∃ xs, Ring links (.mutexWait m) xs ∧ TaskNode.wait t ∈ xs) ∨
  ∀ m ∈ locks, ∀ xs, Ring links (.mutexWait m) xs → ∀ n ∈ TaskNode.mutexWait m :: xs,
    (listDel links (.wait t)).next n = links.next n ∧
      (listDel links (.wait t)).pre n = links.pre n

/-- After a harmless kill the task leaves the list it is on, and no other. -/
theorem unwait_lists (links : Links TaskNode) (locks : List Nat) (waiters : Nat → List Nat)
    (t : Nat) (h : WaitLists links (fun m => m ∈ locks) waiters) (hc : Harmless links locks t) :
    WaitLists (unwait links t) (fun m => m ∈ locks) (fun m => (waiters m).erase t) := by
  by_cases hin : ∃ m ∈ locks, t ∈ waiters m
  · rcases hin with ⟨m, hm, hmt⟩
    have hring := hangs_ring _ _ _ _ _ h m hm
    have hne : isListEmpty links (.wait t) = false := by
      rw [isListEmpty, decide_eq_false_iff_not]
      exact (ring_neighbours_ne _ _ _ _ hring (List.mem_map_of_mem hmt)).1
    have hrem := hangs_remove links _ _ _ waiters h mutexWait_injective m hm t wait_injective hmt
    unfold unwait
    rw [hne, Bool.not_false, if_pos rfl, listDel_eq_link]
    refine hangs_agree _ _ _ _ _ hrem _ (fun m' hm' => ?_)
    rw [Function.update_apply]
    split_ifs with hmm
    · rw [hmm]
    · refine List.erase_of_not_mem (fun hc' => hmm ?_)
      exact hangs_apart _ _ _ _ _ h mutexWait_injective m' m hm' hm t hc' hmt
  · have hsame : WaitLists links (fun m => m ∈ locks) (fun m => (waiters m).erase t) :=
      hangs_agree _ _ _ _ _ h _ (fun m hm => List.erase_of_not_mem (fun hc' => hin ⟨m, hm, hc'⟩))
    unfold unwait
    by_cases he : isListEmpty links (.wait t) = true
    · rw [he, Bool.not_true, if_neg Bool.false_ne_true]
      exact hsame
    · rw [Bool.not_eq_true] at he
      rw [he, Bool.not_false, if_pos rfl]
      rcases hc with hc | ⟨m, hm, xs, hxs, hmem⟩ | hc
      · rw [he] at hc
        cases hc
      · rw [ring_unique _ _ _ _ hxs (hangs_ring _ _ _ _ _ h m hm)] at hmem
        exact absurd ⟨m, hm, (List.mem_map_of_injective wait_injective).mp hmem⟩ hin
      · -- The node is on no list, and its old neighbours are none either.
        refine hangs_congr _ _ _ _ _ hsame _ (fun m hm => ?_) (fun m hm u hu => ?_)
        · exact hc m hm _ (hangs_ring _ _ _ _ _ h m hm) _ List.mem_cons_self
        · exact hc m hm _ (hangs_ring _ _ _ _ _ h m hm) _
            (List.mem_cons_of_mem _ (List.mem_map_of_mem (List.mem_of_mem_erase hu)))

/-- What a switch or a tick does to a task with no time limit, and which task runs. -/
structure Steady (s s' : Sched) : Prop where
  record : ∀ u, (s.task u).waitTime = -1 → (s.task u).timeOut = 0 →
    (s'.task u).waitTime = -1 ∧ (s'.task u).timeOut = 0 ∧
      ((s.task u).state = .sleep ∨ (s.task u).state = .idle →
        (s'.task u).state = (s.task u).state)
  current : s'.current = s.current ∨ (s'.task s'.current).state = .running

theorem steady_refl (s : Sched) : Steady s s :=
  ⟨fun _ hw ho => ⟨hw, ho, fun _ => rfl⟩, Or.inl rfl⟩

/-- A task that is switched to is ready, or it is the one that runs. -/
theorem steady_switched (s s' : Sched) (next : Nat) (h : Switched s s' next)
    (hnext : next = s.current ∨ (s.task next).state = .prepare) : Steady s s' := by
  refine ⟨fun u hw ho => ⟨?_, ?_, fun hst => ?_⟩, ?_⟩
  · rw [h.task, switchRecord]
    split_ifs <;> first | exact hw | rfl
  · rw [h.task, switchRecord]
    have hnot : ¬((s.task u).waitTime = 0) := by
      rw [hw]
      decide
    split_ifs <;> exact ho
  · rw [switched_state s s' next h]
    have hnr : ¬(u = s.current ∧ (s.task u).state = .running) := by
      rintro ⟨_, hr⟩
      rw [hr] at hst
      rcases hst with hst | hst <;> cases hst
    by_cases hun : u = next
    · rw [if_pos hun]
      by_cases hcn : s.current = next
      · rw [if_pos hcn]
      · -- The task that is switched to was ready.
        rcases hnext with hn | hn
        · exact absurd hn.symm hcn
        · rw [hun, hn] at hst
          rcases hst with hst | hst <;> cases hst
    · rw [if_neg hun, if_neg hnr]
  · rw [h.current, switched_state s s' next h, if_pos rfl]
    by_cases hcn : s.current = next
    · exact Or.inl hcn.symm
    · rw [if_neg hcn]
      exact Or.inr rfl

theorem steady_ticked (pub : List Nat) (s s' : Sched) (h : Ticked pub s s') : Steady s s' := by
  -- The record before the time of the current task is counted down.
  have hrec : ∀ u, (s.task u).waitTime = -1 → ∀ r : Task,
      r = (if s.Known pub u ∧ (s.task u).state = .sleep then tickRecord (s.task u) else s.task u) →
      r.waitTime = -1 ∧ r.timeOut = (s.task u).timeOut ∧ r.state = (s.task u).state := by
    rintro u hw r rfl
    split_ifs
    · simp [tickRecord, hw]
    · exact ⟨hw, rfl, rfl⟩
  refine ⟨fun u hw ho => ?_, Or.inl h.current⟩
  by_cases huc : u = s.current
  · rcases h.self with ⟨r, hr, hself⟩
    subst huc
    rw [hself]
    rcases hrec _ hw r hr with ⟨h1, h2, h3⟩
    exact ⟨h1, h2.trans ho, fun _ => h3⟩
  · rw [h.other u huc]
    rcases hrec u hw _ rfl with ⟨h1, h2, h3⟩
    exact ⟨h1, h2.trans ho, fun _ => h3⟩

theorem steady_trans (s₁ s₂ s₃ : Sched) (h₁ : Steady s₁ s₂) (hcur : s₂.current = s₁.current)
    (h₂ : Steady s₂ s₃) : Steady s₁ s₃ := by
  refine ⟨fun u hw ho => ?_, hcur ▸ h₂.current⟩
  rcases h₁.record u hw ho with ⟨hw1, ho1, hst1⟩
  rcases h₂.record u hw1 ho1 with ⟨hw2, ho2, hst2⟩
  refine ⟨hw2, ho2, fun hst => ?_⟩
  have heq := hst1 hst
  rw [← heq] at hst
  exact (hst2 hst).trans heq

/-- The calls that wake nobody but by the clock. -/
def SchedCall.Quiet : SchedCall → Prop
  | .sched => True
  | .tick => True
  | .idlePrio => True
  | _ => False

instance (c : SchedCall) : Decidable c.Quiet :=
  match c with
  | .fork _ _ _ _ => inferInstanceAs (Decidable False)
  | .remove _ => inferInstanceAs (Decidable False)
  | .sched => inferInstanceAs (Decidable True)
  | .tick => inferInstanceAs (Decidable True)
  | .suspend _ _ => inferInstanceAs (Decidable False)
  | .wakeup _ => inferInstanceAs (Decidable False)
  | .killSelf _ => inferInstanceAs (Decidable False)
  | .idlePrio => inferInstanceAs (Decidable True)

theorem steady_call (s s' : SchedSession) (c : SchedCall) (h : SchedInv s)
    (hc : s.Allowed c ()) (hq : c.Quiet) (hcall : s.call c = some ((), s')) :
    Steady s.sched s'.sched := by
  have hmap : ∀ o : Option Sched,
      o.map (fun k => ((), (⟨k, s.published⟩ : SchedSession))) = some ((), s') →
      o = some s'.sched := by
    intro o ho
    rcases Option.map_eq_some_iff.mp ho with ⟨k, rfl, hk⟩
    rw [← (Prod.mk.inj hk).2]
  have hsw : ∀ (k k' : Sched) (next : Nat), Switched k k' next →
      ((k.firstReady = none ∧ next = k.current) ∨
        ∃ i, k.firstReady = some i ∧ k.Known s.published next ∧ (k.task next).state = .prepare ∧
          (k.task next).prio = i) → Steady k k' := by
    intro k k' next hs hwhich
    refine steady_switched k k' next hs ?_
    rcases hwhich with ⟨_, heq⟩ | ⟨_, _, _, hst, _⟩
    · exact Or.inl heq
    · exact Or.inr hst
  cases c with
  | sched =>
      rcases sched_spec s.sched s.published h.ok h.current with
        ⟨_, heq⟩ | ⟨k, next, heq, _, hs, hwhich⟩
      · rw [SchedSession.call] at hcall
        have hk := hmap _ hcall
        rw [heq, Option.some.injEq] at hk
        exact hk ▸ steady_refl s.sched
      · rw [SchedSession.call] at hcall
        have hk := hmap _ hcall
        rw [heq, Option.some.injEq] at hk
        exact hk ▸ hsw s.sched k next hs hwhich
  | tick =>
      rw [SchedSession.call] at hcall
      have hk := hmap _ hcall
      rcases osTickHandler_spec s.sched s.published h.ok with ⟨k1, hok, htick, heq⟩
      have hst := steady_ticked s.published s.sched k1 htick
      rw [heq] at hk
      split_ifs at hk with hrt
      · rcases switchTask_spec k1 s.published hok (ticked_current s.published _ k1 htick h.current)
          with ⟨k2, next, heq2, _, hs, hwhich⟩
        rw [heq2, Option.some.injEq] at hk
        exact hk ▸ steady_trans _ _ _ hst htick.current (hsw k1 k2 next hs hwhich)
      · rw [Option.some.injEq] at hk
        exact hk ▸ hst
  | idlePrio =>
      rw [SchedSession.call, Option.some.injEq, Prod.mk.injEq] at hcall
      have hset := (setTaskPrio_running s.sched s.published s.sched.idle (maxPrio - 1) h.ok hc
        (by decide)).1
      rw [← hcall.2]
      simp only [hset]
      refine ⟨fun u hw ho => ?_, Or.inl rfl⟩
      simp only [Sched.setTask, Function.update_apply]
      split_ifs with hu
      · rw [← hu]
        exact ⟨hw, ho, fun _ => rfl⟩
      · exact ⟨hw, ho, fun _ => rfl⟩
  | _ => exact absurd hq id

/-- No other task is found to switch to. -/
def NoSwitch (s : Sched) : Prop :=
  s.inInterrupt = true ∨ s.scheduleRunning = false ∨ s.firstReady = none

/-- The task goes on, and would go on again. -/
theorem sched_noSwitch (s s' : Sched) (h : NoSwitch s) (hrun : s.sched = some s') :
    NoSwitch s' ∧ s'.current = s.current ∧
      ∀ u, (s'.task u).state = (s.task u).state ∧ (s'.task u).timeOut = (s.task u).timeOut := by
  unfold Sched.sched at hrun
  split_ifs at hrun with hi hr
  · rw [Option.some.injEq] at hrun
    exact hrun ▸ ⟨h, rfl, fun _ => ⟨rfl, rfl⟩⟩
  · rw [Option.some.injEq] at hrun
    exact hrun ▸ ⟨h, rfl, fun _ => ⟨rfl, rfl⟩⟩
  · -- The lists are empty, and only the times of the task are set.
    have hnone : s.firstReady = none := by
      rcases h with h | h | h
      · exact absurd h hi
      · exact absurd (by rw [h]; rfl) hr
      · exact h
    have hfind : s.findNextRunTask = some s.current := by
      simp only [Sched.findNextRunTask, hnone]
    simp only [Sched.switchTask, hfind, Option.bind_eq_bind, Option.bind_some, Option.pure_def,
      Option.some.injEq, Sched.prepareToSwitch, if_true] at hrun
    rw [← hrun]
    refine ⟨Or.inr (Or.inr hnone), rfl, fun u => ?_⟩
    simp only [Sched.setTask, Function.update_apply]
    split_ifs with hu
    · rw [hu]
      exact ⟨rfl, rfl⟩
    · exact ⟨rfl, rfl⟩

/-- The wait lists of the mutexes are whole. The tasks on them sleep, or were made idle by
    a kill that was refused, and are inside `mutex_lock`, which has no time limit; and a
    task that is inside `mutex_lock` and has the processor back runs. -/
structure WaitOk (k : Sched) (locks : List Nat) (waiting : List (Nat × Nat × Int))
    (waiters : Nat → List Nat) : Prop where
  lists : WaitLists k.links (fun m => m ∈ locks) waiters
  asleep : ∀ m ∈ locks, ∀ t ∈ waiters m,
    ((k.task t).state = .sleep ∨ (k.task t).state = .idle) ∧ ∃ e ∈ waiting, e.1 = t
  patient : ∀ e ∈ waiting, (k.task e.1).waitTime = -1 ∧ (k.task e.1).timeOut = 0 ∧ e.2.2 = -1
  current : ∀ e ∈ waiting, e.1 = k.current → (k.task k.current).state = .running

/-- The current task sleeps inside `mutex_lock`, and no other task is there to run. -/
def Stuck (s : MutexSession) : Prop :=
  ∃ e, s.suspended = some e ∧ e.2.2 = -1 ∧ (s.sys.sched.task e.1).state = .sleep ∧
    (s.sys.sched.task e.1).timeOut = 0 ∧ s.sys.count e.2.1 ≠ 0 ∧ NoSwitch s.sys.sched

section WaitOk

variable (k : Sched) (locks : List Nat) (waiting : List (Nat × Nat × Int))
  (waiters : Nat → List Nat) (h : WaitOk k locks waiting waiters)

include h

/-- A switch or a tick, when the task that runs is not inside `mutex_lock`. -/
theorem waitOk_steady (k' : Sched) (ho : Only .sched k.links k'.links) (hst : Steady k k')
    (hfree : ∀ e ∈ waiting, e.1 ≠ k.current) : WaitOk k' locks waiting waiters := by
  refine ⟨waitLists_only _ _ _ _ .sched ho (by decide) h.lists, fun m hm t ht => ?_,
    fun e he => ?_, fun e he hec => ?_⟩
  · rcases h.asleep m hm t ht with ⟨hs, e, he, het⟩
    rcases h.patient e he with ⟨hw, ho, _⟩
    rw [het] at hw ho
    rw [(hst.record t hw ho).2.2 hs]
    exact ⟨hs, e, he, het⟩
  · rcases h.patient e he with ⟨hw, ho, hms⟩
    rcases hst.record e.1 hw ho with ⟨hw', ho', _⟩
    exact ⟨hw', ho', hms⟩
  · rcases hst.current with hc | hc
    · exact absurd (hec.trans hc) (hfree e he)
    · exact hc

/-- A task that runs is on no wait list. -/
theorem waitOk_off (t : Nat) (ht : (k.task t).state = .running) (m : Nat) (hm : m ∈ locks) :
    t ∉ waiters m := by
  intro hc
  rcases (h.asleep m hm t hc).1 with hs | hs <;> rw [ht] at hs <;> cases hs

/-- A task that is on no wait list is done with `mutex_lock`. -/
theorem waitOk_filter (t : Nat) (ht : ∀ m ∈ locks, t ∉ waiters m) :
    WaitOk k locks (waiting.filter (fun e => e.1 ≠ t)) waiters := by
  refine ⟨h.lists, fun m hm u hu => ?_, fun e he => h.patient e (List.mem_filter.mp he).1,
    fun e he => h.current e (List.mem_filter.mp he).1⟩
  rcases h.asleep m hm u hu with ⟨hs, e, he, heu⟩
  refine ⟨hs, e, List.mem_filter.mpr ⟨he, ?_⟩, heu⟩
  rw [decide_eq_true_eq, heu]
  rintro rfl
  exact ht m hm hu

/-- An edit of nodes that do not wait. -/
theorem waitOk_only (kind : NodeKind) (hk : kind ≠ .wait) (links : Links TaskNode)
    (ho : Only kind k.links links) : WaitOk { k with links := links } locks waiting waiters :=
  ⟨waitLists_only _ _ _ _ kind ho hk h.lists, h.asleep, h.patient, h.current⟩

/-- Waiters that are off their lists were woken up. -/
theorem waitOk_woken (k' : Sched) (waiters' : Nat → List Nat) (P : Nat → Prop)
    [DecidablePred P] (hl : WaitLists k'.links (fun m => m ∈ locks) waiters')
    (hcur : k'.current = k.current) (htask : ∀ u, k'.task u = wokenRecord (P u) (k.task u))
    (hsub : ∀ m ∈ locks, ∀ u ∈ waiters' m, u ∈ waiters m ∧ ¬P u) :
    WaitOk k' locks waiting waiters' := by
  refine ⟨hl, fun m hm u hu => ?_, fun e he => ?_, fun e he hec => ?_⟩
  · rw [htask, wokenRecord_false _ _ (hsub m hm u hu).2]
    exact h.asleep m hm u (hsub m hm u hu).1
  · rw [htask]
    unfold wokenRecord
    split_ifs <;> exact h.patient e he
  · rw [hcur] at hec
    have hr := h.current e he hec
    rw [hcur, htask]
    unfold wokenRecord
    rw [if_neg (by rw [hr]; simp only [reduceCtorEq, and_false, not_false_eq_true])]
    exact hr

/-- A task is made idle, when the task that runs is not inside `mutex_lock`. -/
theorem waitOk_idle (k' : Sched) (t : Nat) (ho : Only .sched k.links k'.links)
    (hcur : k'.current = k.current)
    (htask : k'.task = Function.update k.task t { k.task t with state := .idle })
    (hfree : ∀ e ∈ waiting, e.1 ≠ k.current) : WaitOk k' locks waiting waiters := by
  refine ⟨waitLists_only _ _ _ _ .sched ho (by decide) h.lists, fun m hm u hu => ?_,
    fun e he => ?_, fun e he hec => absurd (hec.trans hcur) (hfree e he)⟩
  · rw [htask, Function.update_apply]
    refine ⟨?_, (h.asleep m hm u hu).2⟩
    split_ifs
    · exact Or.inr rfl
    · exact (h.asleep m hm u hu).1
  · rw [htask, Function.update_apply]
    split_ifs with het
    · rw [← het]
      exact h.patient e he
    · exact h.patient e he

/-- A fork. The new task is none of those that wait. -/
theorem waitOk_fork (pub : List Nat) (k' : Sched) (t parent : Nat) (hf : Forked pub k k' t parent)
    (hne : ∀ e ∈ waiting, e.1 ≠ t) (hfree : ∀ e ∈ waiting, e.1 ≠ k.current) :
    WaitOk k' locks waiting waiters := by
  rcases hf.task with ⟨r, htask, _⟩
  have hon : ∀ m ∈ locks, ∀ u ∈ waiters m, u ≠ t := by
    intro m hm u hu
    rcases (h.asleep m hm u hu).2 with ⟨e, he, rfl⟩
    exact hne e he
  refine ⟨hangs_congr _ _ _ _ _ h.lists _ (fun m _ => hf.rest _ (Or.inl ⟨rfl, by simp⟩))
    (fun m hm u hu => hf.rest _ (Or.inl ⟨rfl, fun hc => hon m hm u hu (wait_injective hc)⟩)),
    fun m hm u hu => ?_, fun e he => ?_, fun e he hec => ?_⟩
  · rw [htask, Function.update_of_ne (hon m hm u hu)]
    exact h.asleep m hm u hu
  · rw [htask, Function.update_of_ne (hne e he)]
    exact h.patient e he
  · exact absurd (hec.trans hf.current) (hfree e he)

end WaitOk

/-- A mutex that is set up has an empty wait list. -/
theorem waitOk_initMutex (k : MutexSys) (locks : List Nat) (waiting : List (Nat × Nat × Int))
    (waiters : Nat → List Nat) (h : WaitOk k.sched locks waiting waiters) (m : Nat)
    (hm : m ∉ locks) :
    WaitOk (k.initMutex m).sched (m :: locks) waiting (Function.update waiters m []) := by
  have hrest : ∀ n : TaskNode, n ≠ .mutexWait m → n ≠ .mutexTask m →
      (k.initMutex m).sched.links.next n = k.sched.links.next n ∧
        (k.initMutex m).sched.links.pre n = k.sched.links.pre n := by
    intro n hnw hnt
    simp only [MutexSys.initMutex, MutexSys.setLinks, initList, Links.setPre_next,
      Links.setNext_next, Links.setPre_pre, Links.setNext_pre, hnw, hnt, if_false, and_self]
  have hself : (k.initMutex m).sched.links.next (.mutexWait m) = .mutexWait m ∧
      (k.initMutex m).sched.links.pre (.mutexWait m) = .mutexWait m := by
    simp [MutexSys.initMutex, MutexSys.setLinks, initList]
  have hfresh := hangs_fresh k.sched.links (k.initMutex m).sched.links _ _ _ waiters h.lists
    mutexWait_injective (fun _ _ hc => by cases hc) m hm hself
    (fun m' hm' => hrest _ (fun hc => hm (mutexWait_injective hc ▸ hm')) (by simp))
    (fun m' _ u _ => hrest _ (by simp) (by simp))
  refine ⟨hangs_mono _ _ _ _ _ hfresh _ (fun m' hm' => ?_), fun m' hm' u hu => ?_, h.patient,
    h.current⟩
  · rcases List.mem_cons.mp hm' with rfl | hm'
    · exact Or.inr rfl
    · exact Or.inl hm'
  · rw [Function.update_apply] at hu
    split_ifs at hu with hmm
    · exact absurd hu List.not_mem_nil
    · exact h.asleep m' ((List.mem_cons.mp hm').resolve_left hmm) u hu

/-- The task has queued up and gone to sleep, and another one was switched to. -/
theorem waitOk_queued (k : Sched) (pub locks : List Nat) (waiting : List (Nat × Nat × Int))
    (waiters : Nat → List Nat) (h : WaitOk k locks waiting waiters) (t m : Nat)
    (ht : (k.task t).state = .running) (hcur : t = k.current) (hm : m ∈ locks) (s s' : Sched)
    (next : Nat)
    (honly : Only .sched (listAddTail k.links (.mutexWait m) (.wait t)) s.links)
    (hcurs : s.current = k.current)
    (htask : s.task = Function.update k.task t
      { k.task t with waitTime := -1, timeOut := 0, state := .sleep })
    (hsw : Switched s s' next) (hnext : s.Known pub next ∧ (s.task next).state = .prepare) :
    WaitOk s' locks ((t, m, -1) :: waiting.filter (fun e => e.1 ≠ t))
      (Function.update waiters m (waiters m ++ [t])) := by
  have hst := steady_switched s s' next hsw (Or.inr hnext.2)
  have hoff := waitOk_off k locks waiting waiters h t ht
  have hself : s.task t = { k.task t with waitTime := -1, timeOut := 0, state := .sleep } := by
    rw [htask, Function.update_self]
  have hother : ∀ u, u ≠ t → s.task u = k.task u := by
    intro u hu
    rw [htask, Function.update_of_ne hu]
  have hrec := hst.record t (by rw [hself]) (by rw [hself])
  refine ⟨?_, fun m' hm' u hu => ?_, fun e he => ?_, fun e _ _ => ?_⟩
  · refine waitLists_only _ _ _ _ .sched
      (only_trans _ _ _ _ honly (only_of_kept _ _ hsw.fixed.kept)) (by decide) ?_
    rw [listAddTail_eq_link]
    exact hangs_append k.links _ _ _ waiters h.lists mutexWait_injective m hm t wait_injective
      (fun _ hc => by cases hc) hoff
  · -- The task itself, or one that was on the list before.
    have hold : u = t ∨ (u ≠ t ∧ u ∈ waiters m') := by
      by_cases hut : u = t
      · exact Or.inl hut
      · rw [Function.update_apply] at hu
        split_ifs at hu with hmm
        · rcases List.mem_append.mp hu with hu | hu
          · exact Or.inr ⟨hut, hmm ▸ hu⟩
          · exact absurd (List.mem_singleton.mp hu) hut
        · exact Or.inr ⟨hut, hu⟩
    rcases hold with rfl | ⟨hut, hu⟩
    · refine ⟨Or.inl ?_, _, List.mem_cons_self, rfl⟩
      rw [hrec.2.2 (Or.inl (by rw [hself])), hself]
    · rcases h.asleep m' hm' u hu with ⟨hs, e, he, heu⟩
      rcases h.patient e he with ⟨hw, ho, _⟩
      rw [heu, ← hother u hut] at hw ho
      rw [← hother u hut] at hs
      refine ⟨(hst.record u hw ho).2.2 hs ▸ hs, e, List.mem_cons_of_mem _
        (List.mem_filter.mpr ⟨he, ?_⟩), heu⟩
      rw [decide_eq_true_eq, heu]
      exact hut
  · rcases List.mem_cons.mp he with rfl | he
    · exact ⟨hrec.1, hrec.2.1, rfl⟩
    · rcases List.mem_filter.mp he with ⟨he, hne⟩
      rw [decide_eq_true_eq] at hne
      rcases h.patient e he with ⟨hw, ho, hms⟩
      rw [← hother _ hne] at hw ho
      exact ⟨(hst.record e.1 hw ho).1, (hst.record e.1 hw ho).2.1, hms⟩
  · -- The task that runs now is another one.
    have hne : s.current ≠ next := by
      rintro hc
      rw [← hc, hcurs, ← hcur, hself] at hnext
      cases hnext.2
    rw [hsw.current, switched_state s s' next hsw, if_pos rfl, if_neg hne]

/-- One pass of the loop of `mutex_lock` for the task that runs. -/
theorem waitOk_pass (k : MutexSys) (pub locks : List Nat) (S : Set TaskNode)
    (owns kids : Nat → List Nat) (waiting : List (Nat × Nat × Int)) (waiters : Nat → List Nat)
    (hok : MutexOk k pub locks S owns kids) (h : WaitOk k.sched locks waiting waiters) (t m : Nat)
    (ht : k.sched.Known pub t) (hcur : t = k.sched.current)
    (hst : (k.sched.task t).state = .running) (hm : m ∈ locks) (r : LockPass) (k' : MutexSys)
    (hrun : k.lockPass t m (-1) = some (r, k')) :
    (r = .got ∧ WaitOk k'.sched locks (waiting.filter (fun e => e.1 ≠ t)) waiters) ∨
    (r = .blocked ∧
      ((∃ waiters', WaitOk k'.sched locks ((t, m, -1) :: waiting.filter (fun e => e.1 ≠ t))
          waiters') ∨
        (NoSwitch k'.sched ∧ k'.sched.current = t ∧ (k'.sched.task t).state = .sleep ∧
          (k'.sched.task t).timeOut = 0 ∧ k'.count m ≠ 0))) := by
  have ht0 : t ≠ 0 := (hok.known t ht).2
  have hoff := waitOk_off k.sched locks waiting waiters h t hst
  unfold MutexSys.lockPass at hrun
  by_cases h0 : k.count m = 0
  · left
    simp only [h0, ne_eq, not_true_eq_false, if_false, ht0, not_false_eq_true, if_true,
      Option.some.injEq, Prod.mk.injEq] at hrun
    rcases hrun with ⟨rfl, rfl⟩
    have hfree : ∀ u, k.sched.Known pub u → m ∉ owns u := by
      rcases hok.count m hm with ⟨_, hf⟩ | ⟨h1, _⟩
      · exact hf
      · rw [h0] at h1
        cases h1
    exact ⟨rfl, waitOk_only _ locks _ waiters
      (waitOk_filter k.sched locks waiting waiters h t hoff) .own (by decide) _
      (ownLists_get k.sched.links _ owns hok.own t m ht hfree).2⟩
  · right
    have hni : (k.sched.task t).state ≠ .idle := by
      rw [hst]
      decide
    simp only [h0, ne_eq, not_false_eq_true, if_true, ht0, MutexSys.setLinks, hni, or_self,
      show ¬(-1 : Int) = 0 by decide, if_false, Option.bind_eq_bind, Option.bind_eq_some_iff,
      Option.pure_def, Option.some.injEq, Prod.mk.injEq] at hrun
    rcases hrun with ⟨s2, hs, rfl, rfl⟩
    refine ⟨rfl, ?_⟩
    rcases only_listAddTail k.sched.links .wait S hok.closed (.mutexWait m) (.wait t)
      (hok.heads m hm) (hok.known t ht).1 with ⟨honly, _⟩
    have hinv1 := schedInv_only k.sched pub .wait _ (by decide) honly hok.sched
    rcases suspendTaskTimeout_spec _ pub t (-1) hinv1.ok ht with
      ⟨hbad, _⟩ | ⟨s1, hok1, hfix, hcur1, _, _, _, _, htask, heq⟩
    · rcases hbad with hb | hb | hb
      · exact absurd hb ht0
      · cases hb
      · exact absurd hb hni
    · rw [heq] at hs
      by_cases hno : NoSwitch s1
      · -- The task itself goes on.
        right
        rcases sched_noSwitch s1 s2 hno hs with ⟨hno', hcur', hsame⟩
        refine ⟨hno', by rw [hcur', hcur1, hcur], ?_, ?_, h0⟩
        · rw [(hsame t).1, htask, Function.update_self]
        · rw [(hsame t).2, htask, Function.update_self]
      · left
        have hnr : s1.Known pub s1.current ∨ (s1.task s1.current).state ≠ .running := by
          right
          rw [hcur1, ← hcur, htask, Function.update_self]
          simp only [ne_eq, reduceCtorEq, not_false_eq_true]
        rcases sched_spec s1 pub hok1 hnr with
          ⟨hbad, _⟩ | ⟨s3, next, heq3, _, hsw, ⟨hbad, _⟩ | ⟨i, _, hk, hp, _⟩⟩
        · exact absurd (hbad.elim Or.inl (fun hb => Or.inr (Or.inl hb))) hno
        · exact absurd (Or.inr (Or.inr hbad)) hno
        · rw [heq3, Option.some.injEq] at hs
          subst hs
          exact ⟨_, waitOk_queued k.sched pub locks waiting waiters h t m hst hcur hm s1 s3 next
            (only_of_kept _ _ hfix.kept) hcur1 htask hsw ⟨hk, hp⟩⟩

/-- The task that is alone queues up once more. -/
theorem stuck_pass (k : MutexSys) (t m : Nat) (ht0 : t ≠ 0)
    (hst : (k.sched.task t).state = .sleep) (h0 : k.count m ≠ 0) (hno : NoSwitch k.sched)
    (r : LockPass) (k' : MutexSys) (hrun : k.lockPass t m (-1) = some (r, k')) :
    r = .blocked ∧ NoSwitch k'.sched ∧ k'.sched.current = k.sched.current ∧
      (k'.sched.task t).state = .sleep ∧ (k'.sched.task t).timeOut = 0 ∧ k'.count m ≠ 0 := by
  have hni : (k.sched.task t).state ≠ .idle := by
    rw [hst]
    decide
  unfold MutexSys.lockPass at hrun
  simp only [h0, ne_eq, not_false_eq_true, if_true, ht0, MutexSys.setLinks, hni, or_self,
    show ¬(-1 : Int) = 0 by decide, if_false, Option.bind_eq_bind, Option.bind_eq_some_iff,
    Option.pure_def, Option.some.injEq, Prod.mk.injEq] at hrun
  rcases hrun with ⟨s2, hs, rfl, rfl⟩
  -- It is on the list of sleepers already.
  unfold Sched.suspendTaskTimeout at hs
  simp only [ht0, show ¬(-1 : Int) = 0 by decide, or_self, if_false, hni, ne_eq,
    not_false_eq_true, if_true] at hs
  rw [setTaskState_same _ _ _ (by simp [TaskState.Live]) (Or.inr ⟨by
    rw [setTask_task_self]; exact hst, by decide⟩)] at hs
  generalize hk1 : Sched.setTask { k.sched with
    links := listAddTail k.sched.links (.mutexWait m) (.wait t) } t
    { k.sched.task t with waitTime := -1, timeOut := 0 } = k1 at hs
  have hno1 : NoSwitch k1 := by
    rw [← hk1]
    exact hno
  have htask : k1.task t = { k.sched.task t with waitTime := -1, timeOut := 0 } := by
    rw [← hk1, setTask_task_self]
  rcases sched_noSwitch k1 s2 hno1 hs with ⟨hno', hcur', hsame⟩
  refine ⟨rfl, hno', hcur'.trans (by rw [← hk1]; rfl), ?_, ?_, h0⟩
  · rw [(hsame t).1, htask]
    exact hst
  · rw [(hsame t).2, htask]

section Killed

variable (k : MutexSys) (pub locks : List Nat) (S : Set TaskNode) (owns kids : Nat → List Nat)
  (hok : MutexOk k pub locks S owns kids)

include hok

/-- A kill that succeeds was not refused for the pid. -/
theorem kill_accepted (t : Nat) (ht : t ∈ pub) (fuel : Nat) (k' : MutexSys)
    (hrun : k.killTask fuel t = some (0, k')) :
    (k.sched.task t).pid ≠ 0 ∧ (k.sched.task t).pid ≠ 1 := by
  rw [← not_or]
  intro hp
  have ht0 : t ≠ 0 := (hok.known t (Or.inl ht)).2
  have hset := (setIdle_spec k.sched pub t hok.sched ht).2.2.2
  have hbegin : k.killBegin t = (false, { k with sched := k.sched.setTaskState t .idle }) := by
    unfold MutexSys.killBegin
    rw [schedUnlinkTask_pid _ t (by rw [hset, Function.update_self]; exact hp)]
  simp only [MutexSys.killTask, ht0, if_false, hbegin, Option.some.injEq, Prod.mk.injEq] at hrun
  exact absurd hrun.1 (by decide)

/-- The tasks that are known after a kill are those that were, without this one. -/
theorem known_killed (t : Nat) (ht : t ∈ pub) (k' : MutexSys)
    (hidle : k'.sched.idle = k.sched.idle) :
    k'.sched.Known (pub.erase t) = fun u => k.sched.Known pub u ∧ u ≠ t := by
  have hti : t ≠ k.sched.idle := fun hc => hok.sched.idle (hc ▸ ht)
  funext u
  unfold Sched.Known
  rw [hidle, hok.sched.nodup.mem_erase_iff, eq_iff_iff]
  constructor
  · rintro (⟨hu, hm⟩ | rfl)
    · exact ⟨Or.inl hm, hu⟩
    · exact ⟨Or.inr rfl, Ne.symm hti⟩
  · rintro ⟨hm | rfl, hu⟩
    · exact Or.inl ⟨hu, hm⟩
    · exact Or.inr rfl

/-- The mutexes of the task are free after a kill, and the others have the owners they had. -/
theorem count_killed (t : Nat) (ht : k.sched.Known pub t) (m : Nat) (hm : m ∈ locks) (n : Int)
    (hn : n = if m ∈ owns t then 0 else k.count m) :
    (n = 0 ∧ ∀ u, k.sched.Known pub u ∧ u ≠ t → m ∉ Function.update owns t [] u) ∨
      (n = 1 ∧ ∃ u, (k.sched.Known pub u ∧ u ≠ t) ∧ m ∈ Function.update owns t [] u) := by
  rw [hn]
  by_cases hmt : m ∈ owns t
  · rw [if_pos hmt]
    refine Or.inl ⟨rfl, fun u hu hc => ?_⟩
    rw [Function.update_of_ne hu.2] at hc
    exact hu.2 (owner_unique k pub locks S owns kids hok u t m hu.1 ht hc hmt)
  · rw [if_neg hmt]
    rcases hok.count m hm with ⟨h0, hno⟩ | ⟨h1, u, hu, hmu⟩
    · refine Or.inl ⟨h0, fun u hu hc => hno u hu.1 ?_⟩
      rwa [Function.update_of_ne hu.2] at hc
    · have hut : u ≠ t := by
        rintro rfl
        exact hmt hmu
      exact Or.inr ⟨h1, u, ⟨hu, hut⟩, by rwa [Function.update_of_ne hut]⟩

/-- Every task that is left still has a parent. -/
theorem born_killed (t q : Nat) (hnone : kids t = []) (u : Nat) (hu : u ∈ pub.erase t) :
    ∃ q', (k.sched.Known pub q' ∧ q' ≠ t) ∧ u ∈ adopted kids t q q' := by
  rw [hok.sched.nodup.mem_erase_iff] at hu
  rcases hok.born u hu.2 with ⟨q', hq', huq⟩
  have hqt' : q' ≠ t := by
    rintro rfl
    rw [hnone] at huq
    exact List.not_mem_nil huq
  refine ⟨q', ⟨hq', hqt'⟩, ?_⟩
  unfold adopted
  split_ifs with hqq
  · rw [hnone, List.append_nil]
    exact (List.mem_erase_of_ne hu.1).mpr (hqq ▸ huq)
  · exact huq

end Killed

section Unlocks

variable (k : MutexSys) (pub locks : List Nat) (S : Set TaskNode) (owns kids : Nat → List Nat)
  (waiting : List (Nat × Nat × Int)) (waiters : Nat → List Nat)
  (hok : MutexOk k pub locks S owns kids) (h : WaitOk k.sched locks waiting waiters)

include hok h

theorem waitOk_unlock (fuel m : Nat) (hm : m ∈ locks) (k' : MutexSys)
    (hrun : MutexSys.mutexUnlock fuel k m = some k') :
    (∃ waiters', WaitOk k'.sched locks waiting waiters') := by
  rcases hok.count m hm with ⟨h0, _⟩ | ⟨h1, t, ht, hmt⟩
  · unfold MutexSys.mutexUnlock at hrun
    rw [if_pos h0, Option.some.injEq] at hrun
    exact ⟨waiters, hrun ▸ h⟩
  · rcases mutexUnlock_lists pub S _ owns t m (max fuel ((waiters m).length + 1)) k _ waiters
      hok.sched hok.closed (hok.heads m hm) hok.awake hok.own ht hmt (by rw [h1]; decide) h.lists hm
      (lt_of_lt_of_le (Nat.lt_succ_self _) (le_max_right _ _)) with
      ⟨k1, hrun1, _, hw, _, _, _, _, hlists, htask⟩
    rw [mutexUnlock_mono k k' m fuel _ (le_max_left _ _) hrun, Option.some.injEq] at hrun1
    subst hrun1
    refine ⟨_, waitOk_woken k.sched locks waiting waiters h k'.sched _ (fun u => u ∈ waiters m)
      hlists hw.current htask (fun m' hm' u hu => ?_)⟩
    rw [Function.update_apply] at hu
    split_ifs at hu with hmm
    · exact absurd hu List.not_mem_nil
    · exact ⟨hu, fun hc => hmm (hangs_apart _ _ _ _ _ h.lists mutexWait_injective m' m hm' hm u hu
        hc)⟩

/-- The wait lists after a kill: the task is made idle, then its node leaves its list, and
    then the waiters of its mutexes are woken up. -/
theorem waitOk_killed (t : Nat) (ht : k.sched.Known pub t)
    (hfree : ∀ e ∈ waiting, e.1 ≠ k.sched.current) (s s' : Sched)
    (honly : Only .sched k.sched.links s.links) (hcur : s.current = k.sched.current)
    (htask : s.task = Function.update k.sched.task t { k.sched.task t with state := .idle })
    (hleft : WaitLists (unwait s.links t) (fun m => m ∈ locks) (fun m => (waiters m).erase t))
    (hlists : WaitLists s'.links (fun m => m ∈ locks)
      (fun m => if m ∈ owns t then [] else (waiters m).erase t))
    (hcur' : s'.current = s.current)
    (htask' : ∀ u, s'.task u = wokenRecord (∃ m ∈ owns t, u ∈ (waiters m).erase t) (s.task u)) :
    WaitOk s' locks (waiting.filter (fun e => e.1 ≠ t))
      (fun m => if m ∈ owns t then [] else (waiters m).erase t) := by
  have h1 := waitOk_idle k.sched locks waiting waiters h s t honly hcur htask hfree
  have h2 : WaitOk { s with links := unwait s.links t } locks waiting
      (fun m => (waiters m).erase t) :=
    ⟨hleft, fun m hm u hu => h1.asleep m hm u (List.mem_of_mem_erase hu), h1.patient, h1.current⟩
  -- A task that is still on a list waits for no mutex of the task.
  have hsub : ∀ m ∈ locks, ∀ u ∈ (if m ∈ owns t then [] else (waiters m).erase t),
      u ∈ (waiters m).erase t ∧ ¬∃ m' ∈ owns t, u ∈ (waiters m').erase t := by
    intro m hm u hu
    split_ifs at hu with hmt
    · exact absurd hu List.not_mem_nil
    · refine ⟨hu, ?_⟩
      rintro ⟨m', hm', hu'⟩
      refine hmt ?_
      rw [hangs_apart _ _ _ _ _ h.lists mutexWait_injective m m' hm (hok.owned t ht m' hm') u
        (List.mem_of_mem_erase hu) (List.mem_of_mem_erase hu')]
      exact hm'
  have h3 := waitOk_woken _ locks waiting _ h2 s'
    (fun m => if m ∈ owns t then [] else (waiters m).erase t)
    (fun u => ∃ m ∈ owns t, u ∈ (waiters m).erase t) hlists hcur' htask' hsub
  refine waitOk_filter _ locks waiting _ h3 t (fun m hm hc => ?_)
  split_ifs at hc with hmt
  · exact List.not_mem_nil hc
  · exact ((hangs_nodup _ _ _ _ _ h.lists m hm).mem_erase_iff.mp hc).1 rfl

/-- A kill that succeeds. -/
theorem kill_ok (t : Nat) (ht : t ∈ pub) (hfree : ∀ e ∈ waiting, e.1 ≠ k.sched.current)
    (hclean : Harmless k.sched.links locks t) (fuel : Nat) (k' : MutexSys)
    (hrun : k.killTask fuel t = some (0, k')) :
    ∃ kids', MutexOk k' (pub.erase t) locks S (Function.update owns t []) kids' ∧
      WaitOk k'.sched locks (waiting.filter (fun e => e.1 ≠ t))
        (fun m => if m ∈ owns t then [] else (waiters m).erase t) ∧
      (∀ m, k'.count m = if m ∈ owns t then 0 else k.count m) ∧
      (∀ m ∈ owns t, ∀ u ∈ waiters m, u ≠ t → (k'.sched.task u).state ≠ .sleep) ∧
      k'.sched.current = k.sched.current ∧ k'.sched.idle = k.sched.idle := by
  have hkn : k.sched.Known pub t := Or.inl ht
  have ht0 : t ≠ 0 := (hok.known t hkn).2
  have hpid := kill_accepted k pub locks S owns kids hok t ht fuel k' hrun
  rcases hok.born t ht with ⟨q, hq, hqt⟩
  -- The loop over the children of a task that has some never ends.
  have hnone : kids t = [] := by
    by_contra hkids
    rw [killTask_stuck k pub _ kids t q hok.sched hok.tree ht ht0 hpid hkn hq hqt hkids fuel] at hrun
    cases hrun
  rcases killBegin_spec k pub t hok.sched ht hpid with
    ⟨s, hbegin, hinv1, honly, hcur, hidle, _, _, htask⟩
  have htree1 := processTree_state k.sched s _ kids t hok.tree honly htask
  rcases processTree_leave _ _ kids t q htree1 hkn hq hqt with ⟨hqne, _, hfam, hring⟩
  rw [hnone] at hring
  have hunwait := unwait_lists k.sched.links locks waiters t h.lists hclean
  have hlists1 := waitLists_agree _ (unwait (s.releasePid t).links t) _ _
    (fun n hn => unwait_agree _ _ t (fun n hn => honly n (by rw [hn]; decide)) n hn) hunwait
  have hms : ∀ m ∈ owns t, m ∈ locks ∧ TaskNode.mutexWait m ∈ S ∧ k.count m ≠ 0 := by
    intro m hm
    have hl := hok.owned t hkn m hm
    refine ⟨hl, hok.heads m hl, ?_⟩
    rcases hok.count m hl with ⟨_, hno⟩ | ⟨h1, _⟩
    · exact absurd hm (hno t hkn)
    · rw [h1]
      decide
  have hawake := awake_removed k.sched s pub S t hok.sched.nodup hok.awake hidle htask
  rcases killEnd_lists { k with sched := s.releasePid t } (pub.erase t) S (k.sched.Known pub)
    _ owns _ t hinv1 (closedKind_only _ _ _ hok.closed .sched _ (by decide) honly)
    (hok.known t hkn).1 hawake hfam (ring_next_head _ _ _ hring)
    (ownLists_only _ _ _ _ .sched honly (by decide) hok.own) hkn hlists1 hms with
    ⟨fuel', k1, hrun1, hinv', hS', hown', hcount', hlists', htask', hlinks, links, hw⟩
  rw [killTask_eq k t s ht0 hbegin] at hrun
  rcases Option.map_eq_some_iff.mp hrun with ⟨k2, hk2, heq⟩
  have hk1 : k1 = k' := by
    rw [← (Prod.mk.inj heq).2]
    exact killEnd_unique _ _ _ t _ _ hrun1 hk2
  subst hk1
  have hidle' : k1.sched.idle = k.sched.idle := hw.idle.trans hidle
  have hcur' : k1.sched.current = k.sched.current := hw.current.trans hcur
  have hknown := known_killed k pub locks S owns kids hok t ht k1 hidle'
  have hparent : ∀ u, (k1.sched.task u).parent = ((s.releasePid t).task u).parent := by
    intro u
    rw [htask']
    unfold wokenRecord
    split_ifs <;> rfl
  refine ⟨adopted kids t q, ⟨hinv', awake_woke { s.releasePid t with links := links } _ _ S hawake _
    hw, hS', fun u hu => ?_, hok.heads, ?_, fun u hu m hm => ?_, fun m hm => ?_, ?_,
    fun u hu => ?_⟩, ?_, hcount', fun m hm u hu hut => ?_, hcur', hidle'⟩
  · rw [hknown] at hu
    exact hok.known u hu.1
  · rw [hknown]
    exact hangs_mono _ _ _ _ _ hown' _ (fun u hu => hu.1)
  · rw [hknown] at hu
    rw [Function.update_of_ne hu.2] at hm
    exact hok.owned u hu.1 m hm
  · rw [hknown]
    exact count_killed k pub locks S owns kids hok t hkn m hm _ (hcount' m)
  · rw [hknown]
    exact processTree_childless _ _ _ kids t q htree1 hq hqt hnone hlinks hparent
  · rw [hknown]
    exact born_killed k pub locks S owns kids hok t q hnone u hu
  · exact waitOk_killed k pub locks S owns kids waiting waiters hok h t hkn hfree (s.releasePid t)
      k1.sched honly hcur htask hlists1 hlists' hw.current htask'
  · -- The waiters of a mutex of the task were woken up.
    rw [htask']
    unfold wokenRecord
    split_ifs with hwoken
    · simp only [ne_eq, reduceCtorEq, not_false_eq_true]
    · exact fun hsl => hwoken ⟨⟨m, hm, (List.mem_erase_of_ne hut).mpr hu⟩, hsl⟩

end Unlocks

/-- A kill that fails has made the task idle, and no more. -/
theorem kill_refused (k : MutexSys) (t : Nat) (ht0 : t ≠ 0) (fuel : Nat) (r : Int)
    (k' : MutexSys) (hrun : k.killTask fuel t = some (r, k')) (hr : r ≠ 0) :
    k' = { k with sched := k.sched.setTaskState t .idle } := by
  rcases hbegin : k.killBegin t with ⟨_ | _, k1⟩
  · simp only [MutexSys.killTask, ht0, if_false, hbegin, Option.some.injEq, Prod.mk.injEq] at hrun
    exact hrun.2 ▸ (killBegin_refused k k1 t hbegin).1
  · simp only [MutexSys.killTask, ht0, if_false, hbegin, Option.bind_eq_bind,
      Option.bind_eq_some_iff, Option.pure_def, Option.some.injEq, Prod.mk.injEq] at hrun
    rcases hrun with ⟨_, _, h0, _⟩
    exact absurd h0.symm hr

/-- The calls of a run in which `mutex_lock` has no time limit. -/
def MutexCall.Patient : MutexCall → Prop
  | .lock _ ms => ms = -1
  | .sched c => c.Quiet
  | _ => True

instance (c : MutexCall) : Decidable c.Patient :=
  match c with
  | .sched c => inferInstanceAs (Decidable c.Quiet)
  | .fork _ _ _ _ => inferInstanceAs (Decidable True)
  | .initMutex _ => inferInstanceAs (Decidable True)
  | .lock _ _ => inferInstanceAs (Decidable (_ = _))
  | .resume => inferInstanceAs (Decidable True)
  | .unlock _ _ => inferInstanceAs (Decidable True)
  | .kill _ _ => inferInstanceAs (Decidable True)

/-- The steps of a run whose kills are all harmless. -/
def MutexSession.Careful (s : MutexSession) (c : MutexCall) (a : MutexAnswer) : Prop :=
  s.Allowed c a ∧ c.Patient ∧
    match c with
    | .kill _ t => Harmless s.sys.sched.links s.mutexes t
    | _ => True

/-- The invariant of such a run. -/
structure WaitInv (s : MutexSession) : Prop where
  inv : MutexInv s
  lists : (∃ waiters, WaitOk s.sys.sched s.mutexes s.waiting waiters) ∨ Stuck s

theorem suspended_none (s : MutexSession) (h : s.suspended = none) :
    ∀ e ∈ s.waiting, e.1 ≠ s.sys.sched.current := by
  intro e he
  have := List.find?_eq_none.mp h e he
  simpa using this

/-- A task that is stuck is inside `mutex_lock`. -/
theorem waitOk_free (s : MutexSession) (h : WaitInv s) (hfree : s.suspended = none) :
    ∃ waiters, WaitOk s.sys.sched s.mutexes s.waiting waiters := by
  rcases h.lists with hw | ⟨e, he, _⟩
  · exact hw
  · rw [hfree] at he
    cases he

/-- The end of a pass of the loop of `mutex_lock` for the current task. -/
theorem waitInv_passed (s : MutexSession) (t m : Nat) (r : LockPass) (k' : MutexSys)
    (hlists : (r = .got ∧ ∃ waiters, WaitOk k'.sched s.mutexes
        (s.waiting.filter (fun e => e.1 ≠ t)) waiters) ∨
      (r = .blocked ∧
        ((∃ waiters', WaitOk k'.sched s.mutexes
            ((t, m, -1) :: s.waiting.filter (fun e => e.1 ≠ t)) waiters') ∨
          (NoSwitch k'.sched ∧ k'.sched.current = t ∧ (k'.sched.task t).state = .sleep ∧
            (k'.sched.task t).timeOut = 0 ∧ k'.count m ≠ 0))))
    (hinv : MutexInv (s.passed (t, m, -1) (r, k')).2) :
    WaitInv (s.passed (t, m, -1) (r, k')).2 := by
  refine ⟨hinv, ?_⟩
  rcases hlists with ⟨rfl, hw⟩ | ⟨rfl, hw | ⟨hno, hcur, hst, hto, h0⟩⟩
  · exact Or.inl hw
  · exact Or.inl hw
  · refine Or.inr ⟨(t, m, -1), ?_, rfl, hst, hto, h0, hno⟩
    unfold MutexSession.suspended MutexSession.passed
    simp only [LockPass.ret, hcur, List.find?_cons_of_pos, decide_true]

/-- The task inside `mutex_lock` goes on. -/
theorem waitInv_resume (s : MutexSession) (h : WaitInv s) (t m : Nat) (ms : Int)
    (hsus : s.suspended = some (t, m, ms)) (r : LockPass) (k' : MutexSys)
    (hrun : s.sys.lockResume t m ms = some (r, k'))
    (hinv : MutexInv (s.passed (t, m, ms) (r, k')).2) :
    WaitInv (s.passed (t, m, ms) (r, k')).2 := by
  rcases h.inv.ok with ⟨S, owns, kids, hok⟩
  have hmem := suspended_mem s _ hsus
  have hke := h.inv.waiting _ hmem.1
  unfold MutexSys.lockResume at hrun
  rcases h.lists with ⟨waiters, hw⟩ | ⟨e, he, hms, hst, hto, h0, hno⟩
  · -- The task runs again, and its time is not over.
    rcases hw.patient _ hmem.1 with ⟨_, hto, rfl⟩
    have hself := hw.current _ hmem.1 hmem.2
    rw [← hmem.2] at hself
    rw [if_neg (not_not.mpr hto)] at hrun
    have hpass := waitOk_pass s.sys s.published s.mutexes S owns kids s.waiting waiters hok hw
      t m hke.1 hmem.2 hself hke.2 r k' hrun
    exact waitInv_passed s t m r k' (hpass.imp (fun hg => ⟨hg.1, waiters, hg.2⟩) id) hinv
  · -- It never stopped to run, and sleeps.
    rw [hsus, Option.some.injEq] at he
    subst he
    rw [show ms = -1 from hms] at hrun hinv ⊢
    rw [if_neg (not_not.mpr hto)] at hrun
    rcases stuck_pass s.sys t m (hok.known t hke.1).2 hst h0 hno r k' hrun with
      ⟨hrb, hno', hcur', hst', hto', h0'⟩
    exact waitInv_passed s t m r k'
      (Or.inr ⟨hrb, Or.inr ⟨hno', hcur'.trans hmem.2.symm, hst', hto', h0'⟩⟩) hinv

/-- After a harmless kill the task is gone, and does not wait any more. -/
theorem waitInv_killed (s : MutexSession) (h : WaitInv s) (hfree : s.suspended = none) (t : Nat)
    (ht : t ∈ s.published) (hclean : Harmless s.sys.sched.links s.mutexes t) (fuel : Nat)
    (k' : MutexSys) (hrun : s.sys.killTask fuel t = some (0, k')) :
    WaitInv { s with
      sys := k'
      published := s.published.erase t
      waiting := s.waiting.filter (fun e => e.1 ≠ t) } := by
  rcases h.inv.ok with ⟨S, owns, kids, hok⟩
  rcases waitOk_free s h hfree with ⟨waiters, hw⟩
  rcases kill_ok s.sys s.published s.mutexes S owns kids s.waiting waiters hok hw t ht
    (suspended_none s hfree) hclean fuel k' hrun with ⟨kids', hok', hw', _, _, _, hidle'⟩
  refine ⟨⟨⟨S, _, kids', hok'⟩, fun e he => ?_⟩, Or.inl ⟨_, hw'⟩⟩
  rcases List.mem_filter.mp he with ⟨he, hne⟩
  rw [decide_eq_true_eq] at hne
  unfold MutexSession.Known Sched.Known
  simp only [hidle']
  rcases (h.inv.waiting e he).1 with hk | hk
  · exact ⟨Or.inl ((List.mem_erase_of_ne hne).mpr hk), (h.inv.waiting e he).2⟩
  · exact ⟨Or.inr hk, (h.inv.waiting e he).2⟩

/-- After a kill that was refused the task is idle, and where it was. -/
theorem waitInv_refused (s : MutexSession) (h : WaitInv s) (hfree : s.suspended = none) (t : Nat)
    (ht : t ∈ s.published) :
    WaitInv { s with sys := { s.sys with sched := s.sys.sched.setTaskState t .idle } } := by
  rcases h.inv.ok with ⟨S, owns, kids, hok⟩
  rcases waitOk_free s h hfree with ⟨waiters, hw⟩
  rcases setIdle_spec s.sys.sched s.published t hok.sched ht with ⟨hinv', hfix, hcur, htask⟩
  have hcalm : Calm s.published s.sys.sched (s.sys.sched.setTaskState t .idle) := by
    refine ⟨hfix.kept, hfix.idle, fun u => ?_, fun u hu => Or.inl ?_⟩
    · rw [htask, Function.update_apply]
      split_ifs with hut
      · rw [hut]
      · rfl
    · rw [htask, Function.update_apply] at hu
      split_ifs at hu
      exact hu
  refine ⟨⟨⟨S, owns, kids, mutexOk_calm s.sys s.published s.mutexes S owns kids hok _ hinv'
    hcalm⟩, fun e he => ?_⟩, Or.inl ⟨waiters, waitOk_idle s.sys.sched s.mutexes s.waiting
      waiters hw _ t (only_of_kept _ _ hfix.kept) hcur htask (suspended_none s hfree)⟩⟩
  unfold MutexSession.Known Sched.Known
  simp only [hfix.idle]
  exact h.inv.waiting e he

theorem waitInv_call (s s' : MutexSession) (c : MutexCall) (a : MutexAnswer) (h : WaitInv s)
    (hc : s.Careful c a) (hcall : s.call c = some (a, s')) : WaitInv s' := by
  rcases hc with ⟨hal, hpat, hclean⟩
  rcases h.inv.ok with ⟨S, owns, kids, hok⟩
  cases c with
  | sched c =>
      have hinv' := mutexInv_call s s' _ a h.inv hal trivial hcall
      rcases hal with ⟨hfree, hplain, hal⟩
      rcases waitOk_free s h hfree with ⟨waiters, hw⟩
      rcases Option.map_eq_some_iff.mp hcall with ⟨⟨u, r⟩, hr, heq⟩
      rw [Prod.mk.injEq] at heq
      refine ⟨hinv', Or.inl ⟨waiters, ?_⟩⟩
      rw [← heq.2]
      exact waitOk_steady s.sys.sched s.mutexes s.waiting waiters hw r.sched
        (only_of_kept _ _ (schedCall_calm s.schedSession r c hok.sched hal hplain hr).2.kept)
        (steady_call s.schedSession r c hok.sched hal hpat hr) (suspended_none s hfree)
  | fork t pid flag parent =>
      have hinv' := mutexInv_call s s' _ a h.inv hal trivial hcall
      rcases hal with ⟨hfree, ht0, ht, hpar⟩
      rcases waitOk_free s h hfree with ⟨waiters, hw⟩
      have hf := (fork_spec s.sys s.published s.mutexes S owns kids hok t pid flag parent ht0 ht
        hpar).2
      rw [MutexSession.call, Option.some.injEq, Prod.mk.injEq] at hcall
      refine ⟨hinv', Or.inl ⟨waiters, ?_⟩⟩
      rw [← hcall.2]
      -- A task that waits is known, so it is another one.
      exact waitOk_fork s.sys.sched s.mutexes s.waiting waiters hw s.published _ t parent hf
        (fun e he het => ht (het ▸ (h.inv.waiting e he).1)) (suspended_none s hfree)
  | initMutex m =>
      have hinv' := mutexInv_call s s' _ a h.inv hal trivial hcall
      rcases waitOk_free s h hal.1 with ⟨waiters, hw⟩
      rw [MutexSession.call, Option.some.injEq, Prod.mk.injEq] at hcall
      refine ⟨hinv', Or.inl ⟨Function.update waiters m [], ?_⟩⟩
      rw [← hcall.2]
      exact waitOk_initMutex s.sys s.mutexes s.waiting waiters hw m hal.2
  | lock m ms =>
      have hinv' := mutexInv_call s s' _ a h.inv hal trivial hcall
      rcases hal with ⟨hfree, hm, hk, hst⟩
      rw [show ms = -1 from hpat] at hcall
      rcases waitOk_free s h hfree with ⟨waiters, hw⟩
      rcases Option.map_eq_some_iff.mp hcall with ⟨⟨r, k'⟩, hr, heq⟩
      have hs' : s' = (s.passed (s.sys.sched.current, m, -1) (r, k')).2 := by rw [heq]
      rw [hs'] at hinv' ⊢
      have hpass := waitOk_pass s.sys s.published s.mutexes S owns kids s.waiting waiters hok hw _ m
        hk rfl hst hm r k' hr
      exact waitInv_passed s _ m r k'
        (hpass.imp (fun hg => ⟨hg.1, waiters, hg.2⟩) id) hinv'
  | resume =>
      have hinv' := mutexInv_call s s' _ a h.inv hal trivial hcall
      rw [MutexSession.call] at hcall
      rcases hsus : s.suspended with _ | ⟨t, m, ms⟩
      · rw [hsus] at hcall
        cases hcall
      · simp only [hsus] at hcall
        rcases Option.map_eq_some_iff.mp hcall with ⟨⟨r, k'⟩, hr, heq⟩
        have hs' : s' = (s.passed (t, m, ms) (r, k')).2 := by rw [heq]
        rw [hs'] at hinv' ⊢
        exact waitInv_resume s h t m ms hsus r k' hr hinv'
  | unlock fuel m =>
      have hinv' := mutexInv_call s s' _ a h.inv hal trivial hcall
      rcases hal with ⟨hfree, hm⟩
      rcases waitOk_free s h hfree with ⟨waiters, hw⟩
      rcases Option.map_eq_some_iff.mp hcall with ⟨k', hr, heq⟩
      rw [Prod.mk.injEq] at heq
      refine ⟨hinv', Or.inl ?_⟩
      rw [← heq.2]
      exact waitOk_unlock s.sys s.published s.mutexes S owns kids s.waiting waiters hok hw fuel m hm
        k' hr
  | kill fuel t =>
      rcases hal with ⟨hfree, ht⟩
      rcases Option.map_eq_some_iff.mp hcall with ⟨⟨r, k'⟩, hr, heq⟩
      by_cases hr0 : r = 0
      · subst hr0
        rw [if_pos rfl, Prod.mk.injEq] at heq
        rw [← heq.2]
        exact waitInv_killed s h hfree t ht hclean fuel k' hr
      · rcases kill_refused s.sys t (hok.known t (Or.inl ht)).2 fuel r k' hr hr0 with rfl
        rw [if_neg hr0, Prod.mk.injEq] at heq
        rw [← heq.2]
        exact waitInv_refused s h hfree t ht

/-- The invariant holds along every run whose kills are all harmless. -/
theorem waitInv_run (s : Sched) (count : Nat → Int) (idle : Nat) (hidle : idle ≠ 0)
    (ses : MutexSession)
    (hrun : Run.Reaches MutexSession.call MutexSession.Careful
      (MutexSession.booted s count idle) ses) : WaitInv ses := by
  refine Run.invariant_of_reaches MutexSession.call _ WaitInv ?_ _ ses hrun
    ⟨mutexInv_booted s count idle hidle, Or.inl ⟨fun _ => [], ?_⟩⟩
  · intro t c a t' h hc hcall
    exact waitInv_call t t' c a h hc hcall
  · exact ⟨hangs_none _ _ _ _ _ (fun m hm => absurd hm List.not_mem_nil),
      fun m hm => absurd hm List.not_mem_nil, fun e he => absurd he List.not_mem_nil,
      fun e he => absurd he List.not_mem_nil⟩

/-- In any run of locks without a time limit, unlocks and harmless kills, with forks,
    switches and ticks in between, a kill that succeeds takes its task off the wait lists
    and wakes up the waiters of the mutexes the task held, which are free. Every other
    waiter is still where it was. -/
theorem killTask_leaves (s : Sched) (count : Nat → Int) (idle : Nat) (hidle : idle ≠ 0)
    (ses ses' : MutexSession) (fuel t : Nat)
    (hrun : Run.Reaches MutexSession.call MutexSession.Careful
      (MutexSession.booted s count idle) ses)
    (hc : ses.Careful (.kill fuel t) (.killed 0))
    (hcall : ses.call (.kill fuel t) = some (.killed 0, ses')) (m : Nat) (hm : m ∈ ses.mutexes) :
    (Owner ses.sys t m → ses'.sys.count m = 0) ∧
    ∃ xs xs', Ring ses.sys.sched.links (.mutexWait m) xs ∧
      Ring ses'.sys.sched.links (.mutexWait m) xs' ∧
      (∀ n, n ∈ xs' ↔ n ∈ xs ∧ n ≠ .wait t ∧ ¬Owner ses.sys t m) ∧
      ∀ u, Owner ses.sys t m → TaskNode.wait u ∈ xs → u ≠ t →
        (ses'.sys.sched.task u).state ≠ .sleep := by
  have hinv := waitInv_run s count idle hidle ses hrun
  rcases hc with ⟨⟨hfree, ht⟩, _, hclean⟩
  rcases hinv.inv.ok with ⟨S, owns, kids, hok⟩
  rcases waitOk_free ses hinv hfree with ⟨waiters, hw⟩
  rcases Option.map_eq_some_iff.mp hcall with ⟨⟨r, k'⟩, hr, heq⟩
  have hr0 : r = 0 ∧ ses'.sys = k' := by
    split_ifs at heq with h0
    · exact ⟨h0, by rw [← (Prod.mk.inj heq).2]⟩
    · simp only [Prod.mk.injEq, MutexAnswer.killed.injEq] at heq
      exact absurd heq.1 h0
  rcases hr0 with ⟨rfl, hsys⟩
  rcases kill_ok ses.sys ses.published ses.mutexes S owns kids ses.waiting waiters hok hw t ht
    (suspended_none ses hfree) hclean fuel k' hr with ⟨_, _, hw', hcount, hwoken, _, _⟩
  rw [hsys, owner_iff ses.sys ses.published ses.mutexes S owns kids hok t m (Or.inl ht) hm]
  refine ⟨fun hmt => by rw [hcount, if_pos hmt], _, _, hangs_ring _ _ _ _ _ hw.lists m hm,
    hangs_ring _ _ _ _ _ hw'.lists m hm, fun n => ?_, fun u hmt hu hut => ?_⟩
  · simp only [List.mem_map]
    constructor
    · rintro ⟨u, hu, rfl⟩
      split_ifs at hu with hmt
      · exact absurd hu List.not_mem_nil
      · have hmem := (hangs_nodup _ _ _ _ _ hw.lists m hm).mem_erase_iff.mp hu
        exact ⟨⟨u, hmem.2, rfl⟩, fun he => hmem.1 (wait_injective he), hmt⟩
    · rintro ⟨⟨u, hu, rfl⟩, hne, hmt⟩
      refine ⟨u, ?_, rfl⟩
      rw [if_neg hmt]
      exact (List.mem_erase_of_ne (fun he => hne (congrArg _ he))).mpr hu
  · exact hwoken m hmt u ((List.mem_map_of_injective wait_injective).mp hu) hut

/-- One task has the mutex, and two others wait for it. -/
def twoWaiters : List MutexCall :=
  [.fork 0x200 2 2 0x100, .fork 0x300 3 2 0x100, .fork 0x400 4 2 0x100, .initMutex 0x900,
    .sched .idlePrio, .sched .sched, .lock 0x900 (-1), .sched .sched, .lock 0x900 (-1),
    .lock 0x900 (-1)]

/-- The first waiter is killed, and the second goes on waiting. -/
theorem killTask_leaves_waiter :
    ∃ ses ses', Run.Reaches MutexSession.call MutexSession.Careful
        (MutexSession.booted blankSched (fun _ => 0) 0x100) ses ∧
      ses.call (.kill 1 0x300) = some (.killed 0, ses') ∧
      Ring ses.sys.sched.links (.mutexWait 0x900) [.wait 0x300, .wait 0x400] ∧
      ∃ xs', Ring ses'.sys.sched.links (.mutexWait 0x900) xs' ∧
        TaskNode.wait 0x400 ∈ xs' ∧ TaskNode.wait 0x300 ∉ xs' := by
  have heval : ((Run.follow MutexSession.call
      (fun s c a => s.Allowed c a ∧ c.Patient ∧ c.Live)
      (MutexSession.booted blankSched (fun _ => 0) 0x100) twoWaiters).bind (fun ses =>
        (ses.call (.kill 1 0x300)).map (fun r => (r.1,
          decide (ses.Allowed (.kill 1 0x300) (.killed 0)), decide (0x900 ∈ ses.mutexes),
          decide (Ring ses.sys.sched.links (.mutexWait 0x900) [.wait 0x300, .wait 0x400]),
          ses.sys.sched.links.next (.mutexGet 0x300))))) =
      some (.killed 0, true, true, true, .mutexGet 0x300) := by decide +kernel
  rcases Option.bind_eq_some_iff.mp heval with ⟨ses, hses, hcall⟩
  rcases Option.map_eq_some_iff.mp hcall with ⟨⟨a, ses'⟩, hr, hval⟩
  simp only [Prod.mk.injEq, decide_eq_true_eq] at hval
  rcases hval with ⟨rfl, hal, hm, hring, hget⟩
  have hrun : Run.Reaches MutexSession.call MutexSession.Careful
      (MutexSession.booted blankSched (fun _ => 0) 0x100) ses := by
    refine Relation.ReflTransGen.mono ?_ _ _ (Run.reaches_of_follow _ _ _ _ ses hses)
    rintro s s' ⟨c, a, hc, hal, hpat, hlive⟩
    refine ⟨c, a, hc, hal, hpat, ?_⟩
    cases c with
    | kill fuel t => exact absurd hlive id
    | _ => trivial
  have hc : ses.Careful (.kill 1 0x300) (.killed 0) :=
    ⟨hal, trivial, Or.inr (Or.inl ⟨0x900, hm, _, hring, List.mem_cons_self⟩)⟩
  rcases killTask_leaves blankSched (fun _ => 0) 0x100 (by decide) ses ses' 1 0x300 hrun hc hr 0x900
    hm with ⟨_, xs, xs', hxs, hxs', hmem, _⟩
  rw [ring_unique _ _ _ _ hxs hring] at hmem
  refine ⟨ses, ses', hrun, hr, hring, xs', hxs', (hmem _).mpr ⟨?_, ?_, not_owner _ _ _ hget⟩,
    fun hin => ((hmem _).mp hin).2.1 rfl⟩
  · exact List.mem_cons_of_mem _ List.mem_cons_self
  · simp only [ne_eq, TaskNode.wait.injEq, Nat.reduceEqDiff, not_false_eq_true]

/-- The second task waits for the mutex, gets it and gives it back. Then the first one
    has it again, and the third waits. -/
def staleWaiter : List MutexCall :=
  [.fork 0x200 2 2 0x100, .fork 0x300 3 2 0x100, .fork 0x400 4 2 0x100, .initMutex 0x900,
    .sched .idlePrio, .sched .sched, .lock 0x900 (-1), .sched .sched, .lock 0x900 (-1),
    .sched .sched, .unlock 2 0x900, .sched .sched, .sched .sched, .resume, .unlock 1 0x900,
    .sched .sched, .lock 0x900 (-1), .sched .sched, .lock 0x900 (-1), .sched .sched]

/-- The second task has no mutex and waits for none. Killing it takes the third off the
    wait list, and it sleeps on. -/
theorem killTask_leaves_stale :
    ∃ ses ses', Run.Reaches MutexSession.call (fun s c a => s.Allowed c a ∧ c.Patient)
        (MutexSession.booted blankSched (fun _ => 0) 0x100) ses ∧
      ses.Allowed (.kill 1 0x300) (.killed 0) ∧
      ses.call (.kill 1 0x300) = some (.killed 0, ses') ∧ ¬Owner ses.sys 0x300 0x900 ∧
      Ring ses.sys.sched.links (.mutexWait 0x900) [.wait 0x400] ∧
      Ring ses'.sys.sched.links (.mutexWait 0x900) [] ∧
      (ses'.sys.sched.task 0x400).state = .sleep := by
  have heval : ((Run.follow MutexSession.call (fun s c a => s.Allowed c a ∧ c.Patient)
      (MutexSession.booted blankSched (fun _ => 0) 0x100) staleWaiter).bind (fun ses =>
        (ses.call (.kill 1 0x300)).map (fun r => (r.1,
          decide (ses.Allowed (.kill 1 0x300) (.killed 0)),
          ses.sys.sched.links.next (.mutexGet 0x300),
          decide (Ring ses.sys.sched.links (.mutexWait 0x900) [.wait 0x400]),
          decide (Ring r.2.sys.sched.links (.mutexWait 0x900) []),
          (r.2.sys.sched.task 0x400).state)))) =
      some (.killed 0, true, .mutexGet 0x300, true, true, .sleep) := by decide +kernel
  rcases Option.bind_eq_some_iff.mp heval with ⟨ses, hses, hcall⟩
  rcases Option.map_eq_some_iff.mp hcall with ⟨⟨a, ses'⟩, hr, hval⟩
  simp only [Prod.mk.injEq, decide_eq_true_eq] at hval
  rcases hval with ⟨rfl, hal, hget, hring, hring', hst⟩
  exact ⟨ses, ses', Run.reaches_of_follow _ _ _ _ ses hses, hal, hr, not_owner _ _ _ hget, hring,
    hring', hst⟩

end Mirros
