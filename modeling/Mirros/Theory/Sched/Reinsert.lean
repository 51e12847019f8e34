import Mathlib.Data.List.TakeWhile
import Mirros.Theory.Sched.Session

/-!
# Second Insertions

What happens when `set_task_state` links a task that is linked already.

There are two ways to it. `change_table` ends with two rows of zeros, which say
that staying in PREPARE is the change NONE_TO_PREPARE: a task that is ready and
is made ready again enters the list of all tasks and its ready list a second
time. And `set_task_prio` moves a ready task through the state UNKNOWN: leaving
PREPARE takes the task off its ready list only, but coming back to it enters the
list of all tasks as well, where the task still is.

Both show in the counter of the list of all tasks, which goes up although no
task was added. The pointers are no ring any more when the node is added a
second time: the walk from the head ends at it, and the tasks behind it are lost
to a reader (`forward_listAddTail`). So whatever sequence the pointers are taken
to describe, it is shorter than the counter says (`bounce_system`).

Everything else is as it should be: no other change of state does anything when
it is asked for twice, and the priority of a task that is on no ready list is in
its record alone.

## Main definitions

* `Reprio`: What a change of priority should leave behind.
* `PrioMoves`: The change of a priority does that, or is refused.
* `readySched`: A scheduler with one task that is ready.

## Theorems

* `setTaskState_ready`: A ready task made ready is counted twice.
* `setTaskState_twice`: When a change of state can be asked for twice.
* `bounce_system`: The list of all tasks after a ready task was moved.
* `setTaskPrioInt_moves`: When a change of priority does what it should.
-/

namespace Mirros

/-- Staying in PREPARE is in the table, as a row of zeros. -/
theorem getStateChange_self (state : TaskState) :
    getStateChange state state = if state = .prepare then .noneToPrepare else .noneToNone := by
  cases state <;> rfl

/-- Nothing leads from the states of a dead task to PREPARE, and everything else
    does. -/
theorem getStateChange_prepare (state : TaskState) :
    getStateChange state .prepare = .noneToNone ↔ state = .idle ∨ state = .stop := by
  cases state <;> decide

theorem setTaskState_state (s : Sched) (t : Nat) (new : TaskState) :
    ((s.setTaskState t new).task t).state =
      if getStateChange (s.task t).state new = .noneToNone then (s.task t).state else new := by
  unfold Sched.setTaskState
  by_cases h : getStateChange (s.task t).state new = .noneToNone
  · simp only [h, if_true]
  · simp only [h, if_false]
    rw [(applyChange_frame _ t _).1, setTask_task_self]

/-- The task is put on the list of all tasks, whether it is there or not. -/
theorem setTaskState_ready (s : Sched) (t : Nat) (h : (s.task t).state = .prepare) :
    (s.setTaskState t .prepare).count .system = s.count .system + 1 := by
  have hchange : getStateChange (s.task t).state .prepare = .noneToPrepare := by
    rw [h]
    rfl
  unfold Sched.setTaskState
  simp only [hchange, reduceCtorEq, if_false, Sched.applyChange, Sched.prioListAddTaskTail,
    Sched.listAddTaskTail, Sched.setTask]
  rw [Function.update_of_ne (by simp only [ne_eq, reduceCtorEq, not_false_eq_true]),
    Function.update_self]

/-- A ready task that is made ready again is not left as it was. -/
theorem setTaskState_ready_ne (s : Sched) (t : Nat) (h : (s.task t).state = .prepare) :
    s.setTaskState t .prepare ≠ s := by
  intro hc
  have hcount := setTaskState_ready s t h
  rw [hc] at hcount
  omega

/-- A state that is set again, other than PREPARE, is kept and nothing is done. -/
theorem setTaskState_stay (s : Sched) (t : Nat) (h : (s.task t).state ≠ .prepare) :
    s.setTaskState t (s.task t).state = s := by
  unfold Sched.setTaskState
  rw [if_pos]
  rw [getStateChange_self, if_neg h]

/-- Setting a state twice is the same as setting it once, unless the state is
    PREPARE and the task gets into it; and setting the state a task has does
    nothing, unless it is ready. -/
theorem setTaskState_twice (s : Sched) (t : Nat) (new : TaskState) :
    ((s.setTaskState t new).setTaskState t new = s.setTaskState t new ↔
        new ≠ .prepare ∨ (s.task t).state = .idle ∨ (s.task t).state = .stop) ∧
      (s.setTaskState t (s.task t).state = s ↔ (s.task t).state ≠ .prepare) := by
  have hstate := setTaskState_state s t new
  refine ⟨⟨fun htwice => ?_, fun hcond => ?_⟩, fun h hc => ?_, setTaskState_stay s t⟩
  · by_contra hc
    simp only [not_or, ne_eq, not_not] at hc
    rcases hc with ⟨rfl, hc⟩
    -- After the first time the task is ready.
    rw [if_neg (fun hn => not_or.mpr hc ((getStateChange_prepare _).mp hn))] at hstate
    exact setTaskState_ready_ne _ t hstate htwice
  · by_cases hn : getStateChange (s.task t).state new = .noneToNone
    · have hsame : s.setTaskState t new = s := if_pos hn
      rw [hsame, hsame]
    · rw [if_neg hn] at hstate
      -- The task is in the new state, which is not PREPARE.
      have hnew : new ≠ .prepare := by
        rintro rfl
        exact hn ((getStateChange_prepare _).mpr (hcond.resolve_left (fun hp => hp rfl)))
      have hstay := setTaskState_stay (s.setTaskState t new) t (by rw [hstate]; exact hnew)
      rw [hstate] at hstay
      exact hstay
  · rw [hc] at h
    exact setTaskState_ready_ne s t hc h

/-- The scheduler after boot and the fork of one task. -/
def readySched : Sched :=
  (SchedSession.booted blankSched 0x100).sched.publish 0x200 0 1 0x100

theorem readySched_inv : SchedInv ⟨readySched, [0x200]⟩ :=
  schedInv_fork _ 0x200 0 1 0x100 (schedInv_booted blankSched 0x100) (by decide +kernel)

theorem readySched_state : (readySched.task 0x200).state = .prepare := by decide +kernel

/-- The task that was forked is ready on well-formed lists, and being made ready
    twice differs from being made ready once, as that does from leaving it. -/
theorem setTaskState_twice_fails :
    SchedOk readySched [0x200] ∧ (readySched.task 0x200).state = .prepare ∧
      (readySched.setTaskState 0x200 .prepare).setTaskState 0x200 .prepare ≠
        readySched.setTaskState 0x200 .prepare ∧
      readySched.setTaskState 0x200 .prepare ≠ readySched := by
  have hready := readySched_state
  have hagain : ((readySched.setTaskState 0x200 .prepare).task 0x200).state = .prepare := by
    rw [setTaskState_state, hready]
    rfl
  exact ⟨readySched_inv.ok, hready, setTaskState_ready_ne _ _ hagain,
    setTaskState_ready_ne _ _ hready⟩

/-- What a change of the priority of a task should leave behind: the new priority
    in the record, the lists it was on apart from the ready lists, one entry on
    the ready list of the new priority if it is ready, and counters that are
    right. `f` and `f'` are the sequences on the lists before and after. -/
structure Reprio (s s' : Sched) (t : Nat) (prio : Int) (f f' : TaskNode → List TaskNode) :
    Prop where
  record : ((s'.task t).prio : Int) = prio
  state : (s'.task t).state = (s.task t).state
  rings : Rings s'.links schedHeads f'
  count : ∀ l : SchedList, l.Valid → s'.count l = (f' (.list l)).length
  stay : ∀ l ∈ [SchedList.system, .sleep, .idle], ∀ n ∈ [TaskNode.system t, .sleep t, .idle t],
    (f' (.list l)).count n = (f (.list l)).count n
  ready : (s.task t).state = .prepare → ∀ i, i < maxPrio →
    (f' (.list (.prio i))).count (.prioRunning t) = if (i : Int) = prio then 1 else 0

/-- The call returns, a priority it accepts has been set as it should be, and one
    that has no ready list is not accepted. -/
def Sched.PrioMoves (s : Sched) (t : Nat) (prio : Int) : Prop :=
  ∃ r s', s.setTaskPrioInt t prio = some (r, s') ∧
    (r = 0 → ∃ f f', Rings s.links schedHeads f ∧ Reprio s s' t prio f f') ∧
    (prio < 0 ∨ (maxPrio : Int) ≤ prio → r ≠ 0)

/-- The scheduler after a ready task was taken off its ready list and given
    another priority, in the state it then goes back to. -/
def Sched.bounced (s : Sched) (t prio : Nat) : Sched :=
  (s.setTask t { s.task t with prePrio := (s.task t).prio, prio := prio }).listDelTask
    (.prio (s.task t).prio) (.prioRunning t)

/-- Going through UNKNOWN a ready task leaves one list and enters two. -/
theorem setTaskPrioInt_ready (s : Sched) (t prio : Nat) (h : (s.task t).state = .prepare)
    (hprio : prio < maxPrio) :
    s.setTaskPrioInt t prio = some (0, ((s.bounced t prio).listAddTaskTail .system
      (.system t)).listAddTaskTail (.prio prio) (.prioRunning t)) := by
  rw [Sched.setTaskPrioInt_eq, if_neg (Nat.not_le.mpr hprio)]
  unfold Sched.setTaskPrio
  rw [if_neg (Nat.not_le.mpr hprio)]
  simp [h, Sched.setTaskState, getStateChange, changeTable, Sched.applyChange,
    Sched.prioListDelTask, Sched.prioListAddTaskTail, Sched.setTask, Sched.bounced,
    Sched.listDelTask, Sched.listAddTaskTail]

/-- A walk that meets neither a node nor the end of the list it is then added to
    is not disturbed. -/
theorem forward_listAddTail_other (links : Links TaskNode) (h n : TaskNode)
    (xs : List TaskNode) (hn : n ∉ xs) (hpre : links.pre h ∉ xs) (hx : Forward links xs) :
    Forward (listAddTail links h n) xs := by
  refine hx.imp_of_mem_imp (fun a b ha _ hab => ?_)
  have han : a ≠ n := fun hc => hn (hc ▸ ha)
  have hap : a ≠ links.pre h := fun hc => hpre (hc ▸ ha)
  rw [listAddTail_eq_link, Links.link_next, if_neg han, Links.link_next, if_neg hap]
  exact hab

section Bounce

variable (s : Sched) (pub : List Nat) (f : TaskNode → List TaskNode) (t prio : Nat)
  (hf : Spread s.links s.count (s.spot pub) f) (ht : s.Known pub t)
  (h : (s.task t).state = .prepare)

include hf ht h

/-- Without the ready task, the lists are right still. -/
theorem spread_bounced :
    Spread (s.bounced t prio).links (s.bounced t prio).count
      (Function.update (s.spot pub) (.prioRunning t) none)
      (Function.update f (.list (.prio (s.task t).prio))
        ((f (.list (.prio (s.task t).prio))).erase (.prioRunning t))) := by
  have hspot : s.spot pub (.prioRunning t) = some (.prio (s.task t).prio) := by
    simp only [Sched.spot, ht, h, and_self, if_true]
  exact spread_del s.links s.count (s.spot pub) f hf _ _ hspot

/-- The list of all tasks after a ready task was moved: the walk ends at the
    task, which was on the list or has come onto it. -/
theorem bounce_system (hprio : prio < maxPrio) (ys : List TaskNode)
    (hys : Ring (((s.bounced t prio).listAddTaskTail .system (.system t)).listAddTaskTail
      (.prio prio) (.prioRunning t)).links (.list .system) ys) :
    ys = (f (.list .system)).takeWhile (fun c => c ≠ .system t) ++ [.system t] := by
  have hsp := spread_bounced s pub f t prio hf ht h
  set links := (s.bounced t prio).links
  set f' := Function.update f (.list (.prio (s.task t).prio))
    ((f (.list (.prio (s.task t).prio))).erase (.prioRunning t)) with hf'
  -- Only a ready list has lost a node.
  have hsys : f' (.list .system) = f (.list .system) := by
    rw [hf']
    exact Function.update_of_ne (by simp only [ne_eq, TaskNode.list.injEq, reduceCtorEq,
      not_false_eq_true]) _ _
  have hring : Ring links (.list .system) (f (.list .system)) :=
    hsys ▸ hsp.rings.1 _ (mem_schedHeads .system trivial)
  have hwalk := forward_listAddTail links (.list .system) (.system t) _ hring
    (by simp only [ne_eq, reduceCtorEq, not_false_eq_true])
  set walk := (f (.list .system)).takeWhile (fun c => c ≠ .system t) ++ [.system t] with hw
  -- What the walk meets is the task, or was on the list of all tasks.
  have hmem : ∀ a ∈ TaskNode.list .system :: walk ++ [.list .system],
      a = .system t ∨ a ∈ TaskNode.list .system :: f' (.list .system) := by
    intro a ha
    rw [hsys]
    simp only [hw, List.cons_append, List.mem_cons, List.mem_append, List.not_mem_nil,
      or_false] at ha
    rcases ha with rfl | (ha | rfl) | rfl
    · exact Or.inr List.mem_cons_self
    · exact Or.inr (List.mem_cons_of_mem _ ((List.takeWhile_sublist _).mem ha))
    · exact Or.inl rfl
    · exact Or.inr List.mem_cons_self
  -- The node and the end of the ready list are on no list, and on that list.
  have hready := mem_schedHeads (.prio prio) hprio
  have hend : (listAddTail links (.list .system) (.system t)).pre (.list (.prio prio)) ∈
      TaskNode.list (.prio prio) :: f' (.list (.prio prio)) := by
    rw [listAddTail_eq_link, Links.link_pre, if_neg (by simp), Links.link_pre, if_neg (by simp)]
    exact ring_pre_mem links _ _ _ (hsp.rings.1 _ hready) List.mem_cons_self
  have hoff : ∀ a ∈ TaskNode.list .system :: walk ++ [.list .system],
      a ≠ .prioRunning t ∧ a ∉ TaskNode.list (.prio prio) :: f' (.list (.prio prio)) := by
    intro a ha
    rcases hmem a ha with rfl | ha
    · refine ⟨by simp, fun hc => ?_⟩
      have hc := (List.mem_cons.mp hc).resolve_left (by simp)
      rw [hsp.mem (.prio prio) hprio, Function.update_of_ne (by simp), Sched.spot] at hc
      exact absurd hc (by simp)
    · refine ⟨?_, ?_⟩
      · rintro rfl
        have hc := (List.mem_cons.mp ha).resolve_left (by simp)
        rw [hsp.mem .system trivial, Function.update_self] at hc
        exact absurd hc (by simp)
      · exact hsp.rings.2 _ (mem_schedHeads .system trivial) _ hready (by simp) a ha
  have hfin := forward_listAddTail_other _ (.list (.prio prio)) (.prioRunning t) _
    (fun hc => (hoff _ hc).1 rfl) (fun hc => (hoff _ hc).2 hend) hwalk
  refine ring_forward _ (.list .system) walk ys hfin (fun hc => ?_) hys
  rcases List.mem_append.mp hc with hc | hc
  · exact (List.nodup_cons.mp hring.1).1 ((List.takeWhile_sublist _).mem hc)
  · exact absurd (List.mem_singleton.mp hc) (by simp)

/-- A ready task cannot be moved without the list of all tasks going wrong: its
    counter is above its length, or the task was not on it before. -/
theorem bounce_wrong (hprio : prio < maxPrio) (g g' : TaskNode → List TaskNode)
    (hg : Rings s.links schedHeads g) :
    ¬Reprio s (((s.bounced t prio).listAddTaskTail .system (.system t)).listAddTaskTail
      (.prio prio) (.prioRunning t)) t prio g g' := by
  intro hr
  have hsys := mem_schedHeads .system trivial
  have hgf : g (.list .system) = f (.list .system) :=
    ring_unique s.links _ _ _ (hg.1 _ hsys) (hf.rings.1 _ hsys)
  have hys := bounce_system s pub f t prio hf ht h hprio _ (hr.rings.1 _ hsys)
  by_cases htp : t ∈ pub
  · -- The counter went up, and the walk got no longer.
    have hcount := hr.count .system trivial
    have hup : (((s.bounced t prio).listAddTaskTail .system (.system t)).listAddTaskTail
        (.prio prio) (.prioRunning t)).count .system = s.count .system + 1 := by
      simp [Sched.listAddTaskTail, Sched.bounced, Sched.listDelTask, Sched.setTask]
    have hmem : TaskNode.system t ∈ f (.list .system) := by
      rw [hf.mem .system trivial]
      simp only [Sched.spot, htp, if_true]
    have hshort : ((f (.list .system)).takeWhile (fun c => c ≠ .system t)).length <
        (f (.list .system)).length := by
      have hsplit := congrArg List.length
        (@List.takeWhile_append_dropWhile _ (fun c => c ≠ .system t) (f (.list .system)))
      have hne : (f (.list .system)).dropWhile (fun c => c ≠ .system t) ≠ [] := by
        intro hc
        have hall := List.dropWhile_eq_nil_iff.mp hc _ hmem
        simp at hall
      have hpos := List.length_pos_of_ne_nil hne
      rw [List.length_append] at hsplit
      omega
    rw [hup, hys, List.length_append, List.length_singleton, hf.count .system trivial] at hcount
    omega
  · -- The task is new on the list.
    have hstay := hr.stay .system (by simp) (.system t) (by simp)
    have hnone : (f (.list .system)).count (.system t) = 0 := by
      refine List.count_eq_zero_of_not_mem (fun hm => ?_)
      rw [hf.mem .system trivial] at hm
      simp only [Sched.spot, htp, if_false, reduceCtorEq] at hm
    rw [hgf, hnone, List.count_eq_zero, hys] at hstay
    exact hstay (List.mem_append_right _ List.mem_cons_self)

end Bounce

/-- The priority of a task that is on no ready list is in its record alone. -/
theorem reprio_off (s : Sched) (f : TaskNode → List TaskNode) (t prio : Nat)
    (hr : Rings s.links schedHeads f)
    (hc : ∀ l : SchedList, l.Valid → s.count l = (f (.list l)).length)
    (h : (s.task t).state ≠ .prepare) :
    Reprio s (s.setTask t { s.task t with prePrio := (s.task t).prio, prio := prio }) t prio f f := by
  refine ⟨?_, ?_, hr, hc, fun _ _ _ _ => rfl, fun hp => absurd hp h⟩
  · rw [setTask_task_self]
  · rw [setTask_task_self]

/-- A change of priority does what it should, or is refused, unless it is below
    zero or the task is ready. -/
theorem setTaskPrioInt_moves (s : Sched) (pub : List Nat) (t : Nat) (prio : Int)
    (hs : SchedOk s pub) (ht : s.Known pub t)
    (hst : (s.task t).state = .prepare ∨ (s.task t).state = .running ∨
      (s.task t).state = .sleep) :
    s.PrioMoves t prio ↔
      (maxPrio : Int) ≤ prio ∨ 0 ≤ prio ∧ (s.task t).state ≠ .prepare := by
  rcases hs.spread with ⟨f, hf⟩
  by_cases hmax : (maxPrio : Int) ≤ prio
  · refine ⟨fun _ => Or.inl hmax, fun _ => ⟨errInval, s, ?_, ?_, ?_⟩⟩
    · unfold Sched.setTaskPrioInt
      rw [if_pos hmax]
    · exact fun hc => absurd hc (by decide)
    · exact fun _ => by decide
  by_cases hneg : prio < 0
  · refine ⟨?_, fun hc => by omega⟩
    rintro ⟨r, s', hrun, _, hrej⟩
    -- It is accepted, or there is no list to move the task to.
    refine absurd ?_ (hrej (Or.inl hneg))
    unfold Sched.setTaskPrioInt at hrun
    rcases hst with hst | hst | hst <;>
      simp only [hmax, hst, hneg, if_false, if_true, reduceCtorEq, Option.some.injEq,
        Prod.mk.injEq] at hrun
    · exact hrun.1.symm
    · exact hrun.1.symm
  · rcases Int.eq_ofNat_of_zero_le (Int.not_lt.mp hneg) with ⟨n, rfl⟩
    have hn : n < maxPrio := by omega
    have hrange : ¬((n : Int) < 0 ∨ (maxPrio : Int) ≤ n) := by omega
    by_cases hp : (s.task t).state = .prepare
    · refine ⟨?_, fun hc => absurd hp (hc.resolve_left hmax).2⟩
      rintro ⟨r, s', hrun, hok, _⟩
      rw [setTaskPrioInt_ready s t n hp hn, Option.some.injEq, Prod.mk.injEq] at hrun
      rcases hrun with ⟨rfl, rfl⟩
      rcases hok rfl with ⟨g, g', hg, hre⟩
      exact absurd hre (bounce_wrong s pub f t n hf ht hp hn g g' hg)
    · refine ⟨fun _ => Or.inr ⟨Int.natCast_nonneg n, hp⟩, fun _ => ?_⟩
      refine ⟨0, _, ?_, fun _ => ⟨f, f, hf.rings, reprio_off s f t n hf.rings hf.count hp⟩,
        fun hc => absurd hc hrange⟩
      rw [Sched.setTaskPrioInt_eq, if_neg (Nat.not_le.mpr hn)]
      unfold Sched.setTaskPrio
      rw [if_neg (Nat.not_le.mpr hn)]
      rcases hst.resolve_left hp with hst | hst <;> simp only [hst]

/-- The idle task is running after boot, and its priority can be set to the
    last. -/
theorem setTaskPrioInt_moves_idle :
    SchedOk readySched [0x200] ∧ readySched.Known [0x200] 0x100 ∧
      (readySched.task 0x100).state = .running ∧ readySched.PrioMoves 0x100 63 := by
  have hknown : readySched.Known [0x200] 0x100 := by decide +kernel
  have hrun : (readySched.task 0x100).state = .running := by decide +kernel
  refine ⟨readySched_inv.ok, hknown, hrun, ?_⟩
  refine (setTaskPrioInt_moves readySched [0x200] 0x100 63 readySched_inv.ok hknown
    (Or.inr (Or.inl hrun))).mpr (Or.inr ⟨by decide, ?_⟩)
  rw [hrun]
  decide

/-- The forked task is ready, and gets a priority in range: that goes wrong. So
    does a priority below zero for the running task, which is accepted. -/
theorem setTaskPrioInt_moves_fails :
    SchedOk readySched [0x200] ∧ readySched.Known [0x200] 0x200 ∧
      (readySched.task 0x200).state = .prepare ∧ ¬readySched.PrioMoves 0x200 10 ∧
      (readySched.task 0x100).state = .running ∧
      (readySched.setTaskPrioInt 0x100 (-1)).map Prod.fst = some 0 := by
  have hknown : readySched.Known [0x200] 0x200 := by decide +kernel
  refine ⟨readySched_inv.ok, hknown, readySched_state, ?_, by decide +kernel, by decide +kernel⟩
  rintro ⟨r, s', hrun, hok, _⟩
  rcases readySched_inv.ok.spread with ⟨f, hf⟩
  rw [show (10 : Int) = ((10 : Nat) : Int) from rfl,
    setTaskPrioInt_ready readySched 0x200 10 readySched_state (by decide), Option.some.injEq,
    Prod.mk.injEq] at hrun
  rcases hrun with ⟨rfl, rfl⟩
  rcases hok rfl with ⟨g, g', hg, hre⟩
  exact bounce_wrong readySched [0x200] f 0x200 10 hf hknown readySched_state (by decide) g g' hg
    hre

end Mirros
