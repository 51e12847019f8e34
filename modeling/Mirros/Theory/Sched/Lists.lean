import Mirros.Core.Sched

/-!
# The Lists of the Scheduler

Where every list node of every task stands, as a function of the task's state.
A task has four nodes the scheduler uses and each belongs to one list only:
`spot` says which of them are linked, and on what. The states of the tasks
determine it completely, apart from the system list, which holds whatever has
been published.

`Spread` says that the pointers and the counters agree with such a placement.
The two edits of the scheduler, adding a node that is nowhere and deleting one
that is somewhere, change the placement at that node (`spread_add`,
`spread_del`). Every transition of `set_task_state` that a live task can make is
then the same thing: leave the list of the old state, enter the list of the new
one (`setTaskState_move`), with nothing on either side when the state is
RUNNING.

## Main definitions

* `Spread`: Pointers and counters agree with a placement of the nodes.
* `home`: The list and the node of a task by its state.
* `spot`: The placement the states of the tasks ask for.
* `leave`, `enter`: Taking a task off its list and putting it on one.

## Theorems

* `spread_add`, `spread_del`: The two edits.
* `setTaskState_move`: A change of state as leaving and entering.
* `setTaskState_same`: The changes of state that do nothing.
* `spread_setTaskState`: A change of state keeps the lists right.
-/

namespace Mirros

/-- The lists that exist: there are `MAX_PRIO` ready lists. -/
def SchedList.Valid : SchedList → Prop
  | .prio i => i < maxPrio
  | _ => True

/-- The heads of the lists that exist. -/
def schedHeads : Set TaskNode :=
  { n | ∃ l : SchedList, l.Valid ∧ n = .list l }

theorem mem_schedHeads (l : SchedList) (hl : l.Valid) : TaskNode.list l ∈ schedHeads :=
  ⟨l, hl, rfl⟩

/-- The pointers describe rings, with the nodes where the placement says and the
    counters equal to the lengths. -/
structure Spread (links : Links TaskNode) (count : SchedList → Int)
    (spot : TaskNode → Option SchedList) (f : TaskNode → List TaskNode) : Prop where
  rings : Rings links schedHeads f
  mem : ∀ l : SchedList, l.Valid → ∀ n, n ∈ f (.list l) ↔ spot n = some l
  count : ∀ l : SchedList, l.Valid → count l = (f (.list l)).length
  valid : ∀ n l, spot n = some l → l.Valid
  head : ∀ l, spot (.list l) = none

section Edits

variable (links : Links TaskNode) (count : SchedList → Int) (spot : TaskNode → Option SchedList)
  (f : TaskNode → List TaskNode) (hs : Spread links count spot f)

include hs

/-- A node that is placed nowhere is on none of the rings. -/
theorem spread_off (n : TaskNode) (hn : spot n = none) (hhead : ∀ l, n ≠ .list l) :
    ∀ h ∈ schedHeads, n ∉ h :: f h := by
  rintro h ⟨l, hl, rfl⟩ hmem
  rcases List.mem_cons.mp hmem with heq | hmem
  · exact hhead l heq
  · rw [hs.mem l hl, hn] at hmem
    exact absurd hmem (by simp only [reduceCtorEq, not_false_eq_true])

/-- The shape shared by both ways of adding: the new sequence has one more node
    and is otherwise the old one. -/
theorem spread_insert (links' : Links TaskNode) (l : SchedList) (n : TaskNode)
    (xs : List TaskNode) (hl : l.Valid) (hn : spot n = none) (hhead : ∀ l, n ≠ .list l)
    (hrings : Rings links' schedHeads (Function.update f (.list l) xs))
    (hperm : xs.Perm (n :: f (.list l))) :
    Spread links' (Function.update count l (count l + 1)) (Function.update spot n (some l))
      (Function.update f (.list l) xs) := by
  refine ⟨hrings, fun l' hl' m => ?_, fun l' hl' => ?_, fun m l' hm => ?_, fun l' => ?_⟩
  · -- The members of the lists: the node is new on this one, and was on no other.
    by_cases hll : l' = l
    · rw [hll, Function.update_self, hperm.mem_iff, List.mem_cons, hs.mem l hl]
      by_cases hmn : m = n
      · rw [hmn, Function.update_self]
        simp only [true_or]
      · rw [Function.update_of_ne hmn]
        simp only [hmn, false_or]
    · rw [Function.update_of_ne (fun hc => hll (TaskNode.list.inj hc)), hs.mem l' hl']
      by_cases hmn : m = n
      · rw [hmn, Function.update_self, hn]
        simp only [reduceCtorEq, Option.some.injEq, false_iff]
        exact fun hc => hll hc.symm
      · rw [Function.update_of_ne hmn]
  · -- The counter goes up with the length.
    by_cases hll : l' = l
    · rw [hll, Function.update_self, Function.update_self, hperm.length_eq, List.length_cons,
        hs.count l hl]
      push_cast
      rfl
    · rw [Function.update_of_ne hll, Function.update_of_ne (fun hc => hll (TaskNode.list.inj hc))]
      exact hs.count l' hl'
  · -- A node with a place is on a list there is.
    by_cases hmn : m = n
    · rw [hmn, Function.update_self, Option.some.injEq] at hm
      exact hm ▸ hl
    · rw [Function.update_of_ne hmn] at hm
      exact hs.valid m l' hm
  · rw [Function.update_of_ne (Ne.symm (hhead l'))]
    exact hs.head l'

theorem spread_add (l : SchedList) (n : TaskNode) (hl : l.Valid) (hn : spot n = none)
    (hhead : ∀ l, n ≠ .list l) :
    Spread (listAddTail links (.list l) n) (Function.update count l (count l + 1))
      (Function.update spot n (some l))
      (Function.update f (.list l) (f (.list l) ++ [n])) :=
  spread_insert links count spot f hs _ l n _ hl hn hhead
    (rings_listAddTail links schedHeads f _ n hs.rings (mem_schedHeads l hl)
      (spread_off links count spot f hs n hn hhead))
    (List.perm_append_singleton n (f (.list l)))

theorem spread_del (l : SchedList) (n : TaskNode) (hn : spot n = some l) :
    Spread (listDel links n) (Function.update count l (count l - 1))
      (Function.update spot n none)
      (Function.update f (.list l) ((f (.list l)).erase n)) := by
  have hl := hs.valid n l hn
  have hmem := (hs.mem l hl n).mpr hn
  have hnd : (f (.list l)).Nodup := (List.nodup_cons.mp (hs.rings.1 _ (mem_schedHeads l hl)).1).2
  refine ⟨rings_listDel links schedHeads f _ n hs.rings (mem_schedHeads l hl) hmem,
    fun l' hl' m => ?_, fun l' hl' => ?_, fun m l' hm => ?_, fun l' => ?_⟩
  · -- The members of the lists: the node has left this one, and was on no other.
    by_cases hll : l' = l
    · rw [hll, Function.update_self, hnd.mem_erase_iff, hs.mem l hl]
      by_cases hmn : m = n
      · rw [hmn, Function.update_self]
        simp only [ne_eq, not_true_eq_false, false_and, reduceCtorEq]
      · rw [Function.update_of_ne hmn]
        simp only [ne_eq, hmn, not_false_eq_true, true_and]
    · rw [Function.update_of_ne (fun hc => hll (TaskNode.list.inj hc)), hs.mem l' hl']
      by_cases hmn : m = n
      · rw [hmn, Function.update_self, hn]
        simp only [reduceCtorEq, Option.some.injEq, iff_false]
        exact fun hc => hll hc.symm
      · rw [Function.update_of_ne hmn]
  · -- The counter goes down with the length.
    by_cases hll : l' = l
    · have hpos := List.length_pos_of_mem hmem
      rw [hll, Function.update_self, Function.update_self, List.length_erase_of_mem hmem,
        hs.count l hl]
      omega
    · rw [Function.update_of_ne hll, Function.update_of_ne (fun hc => hll (TaskNode.list.inj hc))]
      exact hs.count l' hl'
  · by_cases hmn : m = n
    · rw [hmn, Function.update_self] at hm
      exact absurd hm (by simp only [reduceCtorEq, not_false_eq_true])
    · rw [Function.update_of_ne hmn] at hm
      exact hs.valid m l' hm
  · by_cases hmn : TaskNode.list l' = n
    · rw [hmn, Function.update_self]
    · rw [Function.update_of_ne hmn]
      exact hs.head l'

end Edits

/-- The states a published task can be in. -/
def TaskState.Live (state : TaskState) : Prop :=
  state = .prepare ∨ state = .running ∨ state = .sleep ∨ state = .idle

/-- The list a task hangs on in its state, and the node it hangs by. -/
def Task.home (task : Task) (t : Nat) : Option (SchedList × TaskNode) :=
  match task.state with
  | .prepare => some (.prio task.prio, .prioRunning t)
  | .sleep => some (.sleep, .sleep t)
  | .idle => some (.idle, .idle t)
  | _ => none

namespace Sched

/-- The task is published, or is the idle task, which is not. -/
def Known (s : Sched) (pub : List Nat) (t : Nat) : Prop :=
  t ∈ pub ∨ t = s.idle

instance (s : Sched) (pub : List Nat) (t : Nat) : Decidable (s.Known pub t) :=
  inferInstanceAs (Decidable (_ ∨ _))

/-- The list each node should be on, by the states of the tasks. -/
def spot (s : Sched) (pub : List Nat) : TaskNode → Option SchedList
  | .prioRunning t =>
      if s.Known pub t ∧ (s.task t).state = .prepare then some (.prio (s.task t).prio) else none
  | .sleep t => if s.Known pub t ∧ (s.task t).state = .sleep then some .sleep else none
  | .idle t => if s.Known pub t ∧ (s.task t).state = .idle then some .idle else none
  | .system t => if t ∈ pub then some .system else none
  | _ => none

/-- Take a node off a list, if there is one to take off. -/
def leave (s : Sched) : Option (SchedList × TaskNode) → Sched
  | none => s
  | some (l, n) => s.listDelTask l n

/-- Put a node at the end of a list, if there is one to put. -/
def enter (s : Sched) : Option (SchedList × TaskNode) → Sched
  | none => s
  | some (l, n) => s.listAddTaskTail l n

end Sched

/-- The sequences after a node has left its list. -/
def leaveSeq (f : TaskNode → List TaskNode) :
    Option (SchedList × TaskNode) → TaskNode → List TaskNode
  | none => f
  | some (l, n) => Function.update f (.list l) ((f (.list l)).erase n)

/-- The sequences after a node has entered a list. -/
def enterSeq (f : TaskNode → List TaskNode) :
    Option (SchedList × TaskNode) → TaskNode → List TaskNode
  | none => f
  | some (l, n) => Function.update f (.list l) (f (.list l) ++ [n])

/-- The placement after a node has left its list. -/
def leaveSpot (spot : TaskNode → Option SchedList) :
    Option (SchedList × TaskNode) → TaskNode → Option SchedList
  | none => spot
  | some (_, n) => Function.update spot n none

/-- The placement after a node has entered a list. -/
def enterSpot (spot : TaskNode → Option SchedList) :
    Option (SchedList × TaskNode) → TaskNode → Option SchedList
  | none => spot
  | some (l, n) => Function.update spot n (some l)

theorem setTaskState_same (s : Sched) (t : Nat) (new : TaskState) (hnew : new.Live)
    (h : (s.task t).state = .idle ∨ ((s.task t).state = new ∧ new ≠ .prepare)) :
    s.setTaskState t new = s := by
  have hchange : getStateChange (s.task t).state new = .noneToNone := by
    rcases h with h | ⟨h, hp⟩
    · rw [h]
      rcases hnew with rfl | rfl | rfl | rfl <;> rfl
    · rw [h]
      rcases hnew with rfl | rfl | rfl | rfl
      · exact absurd rfl hp
      all_goals rfl
  unfold Sched.setTaskState
  rw [if_pos hchange]

/-- A change of state is leaving the list of the old state and entering the list
    of the new one. -/
theorem setTaskState_move (s : Sched) (t : Nat) (new : TaskState)
    (hold : (s.task t).state.Live) (hnew : new.Live) (hidle : (s.task t).state ≠ .idle)
    (hne : (s.task t).state ≠ new) :
    s.setTaskState t new =
      ((s.setTask t { s.task t with state := new }).leave ((s.task t).home t)).enter
        (Task.home { s.task t with state := new } t) := by
  -- One case for each change of state; the table has a row for all of them.
  rcases hold with h | h | h | h
  · rcases hnew with rfl | rfl | rfl | rfl
    · exact absurd h hne
    all_goals
      simp only [Sched.setTaskState, Task.home, h]
      simp [getStateChange, changeTable, Sched.applyChange, Sched.leave, Sched.enter,
        Sched.prioListDelTask, Sched.setTask]
  · rcases hnew with rfl | rfl | rfl | rfl
    · simp only [Sched.setTaskState, Task.home, h]
      simp [getStateChange, changeTable, Sched.applyChange, Sched.leave, Sched.enter,
        Sched.prioListAddTaskTail, Sched.setTask]
    · exact absurd h hne
    all_goals
      simp only [Sched.setTaskState, Task.home, h]
      simp [getStateChange, changeTable, Sched.applyChange, Sched.leave, Sched.enter]
  · rcases hnew with rfl | rfl | rfl | rfl
    · simp only [Sched.setTaskState, Task.home, h]
      simp [getStateChange, changeTable, Sched.applyChange, Sched.leave, Sched.enter,
        Sched.prioListAddTaskTail, Sched.setTask, Sched.listDelTask]
    · simp only [Sched.setTaskState, Task.home, h]
      simp [getStateChange, changeTable, Sched.applyChange, Sched.leave, Sched.enter]
    · exact absurd h hne
    · simp only [Sched.setTaskState, Task.home, h]
      simp [getStateChange, changeTable, Sched.applyChange, Sched.leave, Sched.enter]
  · exact absurd h hidle

@[simp] theorem setTask_task_self (s : Sched) (t : Nat) (task : Task) :
    (s.setTask t task).task t = task := by
  simp only [Sched.setTask, Function.update_self]

theorem setTask_task_other (s : Sched) (t u : Nat) (task : Task) (hu : u ≠ t) :
    (s.setTask t task).task u = s.task u := by
  simp only [Sched.setTask, Function.update_of_ne hu]

/-- What an edit of the lists never touches. -/
theorem applyChange_frame (s : Sched) (t : Nat) (change : StateChange) :
    (s.applyChange t change).task = s.task ∧ (s.applyChange t change).pidMap = s.pidMap ∧
      (s.applyChange t change).current = s.current ∧ (s.applyChange t change).nextRun = s.nextRun ∧
      (s.applyChange t change).idle = s.idle ∧
      (s.applyChange t change).scheduleRunning = s.scheduleRunning ∧
      (s.applyChange t change).inInterrupt = s.inInterrupt := by
  cases change <;> exact ⟨rfl, rfl, rfl, rfl, rfl, rfl, rfl⟩

section Frame

variable (s : Sched) (t : Nat) (new : TaskState)

/-- A property of the rest of the state survives a change of state when it
    survives storing the state. -/
theorem setTaskState_cases :
    s.setTaskState t new = s ∨ ∃ change, s.setTaskState t new =
      (s.setTask t { s.task t with state := new }).applyChange t change := by
  unfold Sched.setTaskState
  by_cases h : getStateChange (s.task t).state new = .noneToNone
  · exact Or.inl (if_pos h)
  · exact Or.inr ⟨_, if_neg h⟩

@[simp] theorem setTaskState_pidMap : (s.setTaskState t new).pidMap = s.pidMap := by
  rcases setTaskState_cases s t new with h | ⟨c, h⟩
  · rw [h]
  · rw [h, (applyChange_frame _ t c).2.1]
    rfl

@[simp] theorem setTaskState_current : (s.setTaskState t new).current = s.current := by
  rcases setTaskState_cases s t new with h | ⟨c, h⟩
  · rw [h]
  · rw [h, (applyChange_frame _ t c).2.2.1]
    rfl

@[simp] theorem setTaskState_nextRun : (s.setTaskState t new).nextRun = s.nextRun := by
  rcases setTaskState_cases s t new with h | ⟨c, h⟩
  · rw [h]
  · rw [h, (applyChange_frame _ t c).2.2.2.1]
    rfl

@[simp] theorem setTaskState_idle : (s.setTaskState t new).idle = s.idle := by
  rcases setTaskState_cases s t new with h | ⟨c, h⟩
  · rw [h]
  · rw [h, (applyChange_frame _ t c).2.2.2.2.1]
    rfl

@[simp] theorem setTaskState_scheduleRunning :
    (s.setTaskState t new).scheduleRunning = s.scheduleRunning := by
  rcases setTaskState_cases s t new with h | ⟨c, h⟩
  · rw [h]
  · rw [h, (applyChange_frame _ t c).2.2.2.2.2.1]
    rfl

@[simp] theorem setTaskState_inInterrupt :
    (s.setTaskState t new).inInterrupt = s.inInterrupt := by
  rcases setTaskState_cases s t new with h | ⟨c, h⟩
  · rw [h]
  · rw [h, (applyChange_frame _ t c).2.2.2.2.2.2]
    rfl

theorem setTaskState_task (hold : (s.task t).state.Live) (hnew : new.Live) :
    (s.setTaskState t new).task = Function.update s.task t { s.task t with
      state := if (s.task t).state = .idle then .idle else new } := by
  rcases setTaskState_cases s t new with h | ⟨c, h⟩
  · -- Nothing was stored, so the task was idle or in that state already.
    have hst : (if (s.task t).state = .idle then .idle else new) = (s.task t).state := by
      by_contra hc
      have hidle : (s.task t).state ≠ .idle := fun hi => hc (by rw [if_pos hi, hi])
      rw [if_neg hidle] at hc
      rw [setTaskState_move s t new hold hnew hidle (Ne.symm hc)] at h
      have := congrArg (fun s => (s.task t).state) h
      rcases hold with ho | ho | ho | ho <;> rcases hnew with rfl | rfl | rfl | rfl <;>
        simp [Sched.leave, Sched.enter, Task.home, ho, Sched.setTask, Sched.listDelTask,
          Sched.listAddTaskTail] at this hc
    rw [h, hst]
    exact (Function.update_eq_self t s.task).symm
  · have hidle : (s.task t).state = .idle → s.setTaskState t new = s := fun hi =>
      setTaskState_same s t new hnew (Or.inl hi)
    -- A task that is being killed keeps its state, and any other gets the new one.
    by_cases hi : (s.task t).state = .idle
    · rw [hidle hi, if_pos hi, ← hi]
      exact (Function.update_eq_self t s.task).symm
    · rw [h, if_neg hi, (applyChange_frame _ t c).1]
      rfl

end Frame

/-- The nodes of a task that its state decides about. -/
def stateNode (t : Nat) (n : TaskNode) : Prop :=
  n = .prioRunning t ∨ n = .sleep t ∨ n = .idle t

theorem home_stateNode (task : Task) (t : Nat) (l : SchedList) (n : TaskNode)
    (h : task.home t = some (l, n)) : stateNode t n := by
  unfold Task.home at h
  split at h
  · simp only [Option.some.injEq, Prod.mk.injEq] at h
    exact Or.inl h.2.symm
  · simp only [Option.some.injEq, Prod.mk.injEq] at h
    exact Or.inr (Or.inl h.2.symm)
  · simp only [Option.some.injEq, Prod.mk.injEq] at h
    exact Or.inr (Or.inr h.2.symm)
  · exact absurd h (by simp only [reduceCtorEq, not_false_eq_true])

/-- The nodes a state decides about are placed exactly when they are the home. -/
theorem spot_stateNode (s : Sched) (pub : List Nat) (t : Nat) (n : TaskNode) (l : SchedList)
    (ht : s.Known pub t) (hn : stateNode t n) :
    s.spot pub n = some l ↔ (s.task t).home t = some (l, n) := by
  unfold Task.home
  rcases hn with rfl | rfl | rfl
  all_goals
    simp only [Sched.spot, ht, true_and]
    cases (s.task t).state <;> simp [eq_comm]

theorem spot_setTask_other (s : Sched) (pub : List Nat) (t : Nat) (task : Task) (n : TaskNode)
    (hn : ¬stateNode t n) : (s.setTask t task).spot pub n = s.spot pub n := by
  cases n with
  | prioRunning u | sleep u | idle u =>
      have hut : u ≠ t := by
        rintro rfl
        simp only [stateNode, true_or, or_true, not_true_eq_false] at hn
      simp only [Sched.spot, setTask_task_other s t u task hut]
      rfl
  | _ => rfl

/-- A node the state decides about is placed nowhere once the task has left. -/
theorem leaveSpot_stateNode (s : Sched) (pub : List Nat) (t : Nat) (n : TaskNode)
    (ht : s.Known pub t) (hn : stateNode t n) :
    leaveSpot (s.spot pub) ((s.task t).home t) n = none := by
  have hspot := fun l => spot_stateNode s pub t n l ht hn
  rcases hhome : (s.task t).home t with _ | ⟨l, m⟩
  · simp only [leaveSpot]
    rw [Option.eq_none_iff_forall_ne_some]
    intro l hl
    rw [hspot l, hhome] at hl
    exact absurd hl (by simp only [reduceCtorEq, not_false_eq_true])
  · simp only [leaveSpot, Function.update_apply]
    -- The one node the state decides about is taken off, and the others were nowhere.
    by_cases hnm : n = m
    · rw [if_pos hnm]
    · rw [if_neg hnm, Option.eq_none_iff_forall_ne_some]
      intro l' hl'
      rw [hspot l', hhome, Option.some.injEq, Prod.mk.injEq] at hl'
      exact hnm hl'.2.symm

theorem leaveSpot_other (s : Sched) (pub : List Nat) (t : Nat) (n : TaskNode)
    (hn : ¬stateNode t n) :
    leaveSpot (s.spot pub) ((s.task t).home t) n = s.spot pub n := by
  rcases hhome : (s.task t).home t with _ | ⟨l, m⟩
  · rfl
  · have hnm : n ≠ m := fun hc => hn (hc ▸ home_stateNode _ t l m hhome)
    simp only [leaveSpot, Function.update_of_ne hnm]

/-- Storing a record in a task changes the placement by the task leaving its
    list and entering another. -/
theorem spot_setTask (s : Sched) (pub : List Nat) (t : Nat) (task : Task)
    (ht : s.Known pub t) :
    (s.setTask t task).spot pub =
      enterSpot (leaveSpot (s.spot pub) ((s.task t).home t)) (task.home t) := by
  funext n
  -- The nodes of the task that its state decides about, and all other nodes.
  by_cases hn : stateNode t n
  · have hspot := fun l => spot_stateNode (s.setTask t task) pub t n l ht hn
    rw [setTask_task_self] at hspot
    rcases hhome : task.home t with _ | ⟨l, m⟩
    · simp only [enterSpot]
      rw [leaveSpot_stateNode s pub t n ht hn, Option.eq_none_iff_forall_ne_some]
      intro l hl
      rw [hspot l, hhome] at hl
      exact absurd hl (by simp only [reduceCtorEq, not_false_eq_true])
    · simp only [enterSpot, Function.update_apply]
      by_cases hnm : n = m
      · rw [if_pos hnm, hspot l, hhome, hnm]
      · rw [if_neg hnm, leaveSpot_stateNode s pub t n ht hn, Option.eq_none_iff_forall_ne_some]
        intro l' hl'
        rw [hspot l', hhome, Option.some.injEq, Prod.mk.injEq] at hl'
        exact hnm hl'.2.symm
  · rw [spot_setTask_other s pub t task n hn]
    rcases hhome : task.home t with _ | ⟨l, m⟩
    · exact (leaveSpot_other s pub t n hn).symm
    · have hnm : n ≠ m := fun hc => hn (hc ▸ home_stateNode _ t l m hhome)
      simp only [enterSpot, Function.update_of_ne hnm]
      exact (leaveSpot_other s pub t n hn).symm

/-- The records of tasks the scheduler does not know do not matter. -/
theorem spot_setTask_unknown (s : Sched) (pub : List Nat) (t : Nat) (task : Task)
    (ht : ¬s.Known pub t) : (s.setTask t task).spot pub = s.spot pub := by
  funext n
  by_cases hn : stateNode t n
  · rcases hn with rfl | rfl | rfl <;>
      rw [Sched.spot, Sched.spot, if_neg (fun hc => ht hc.1), if_neg (fun hc => ht hc.1)]
  · exact spot_setTask_other s pub t task n hn

/-- The task's record changes but its list does not. -/
theorem spot_setTask_same (s : Sched) (pub : List Nat) (t : Nat) (task : Task)
    (hhome : task.home t = (s.task t).home t) :
    (s.setTask t task).spot pub = s.spot pub := by
  by_cases ht : s.Known pub t
  · rw [spot_setTask s pub t task ht, hhome]
    rcases hh : (s.task t).home t with _ | ⟨l, n⟩
    · rfl
    · have hspot := (spot_stateNode s pub t n l ht (home_stateNode _ t l n hh)).mpr hh
      simp only [enterSpot, leaveSpot, Function.update_idem, ← hspot, Function.update_eq_self]
  · exact spot_setTask_unknown s pub t task ht

/-- The nodes that only the scheduler's lists use. -/
def TaskNode.isSched : TaskNode → Bool
  | .list _ | .prioRunning _ | .system _ | .sleep _ | .idle _ => true
  | _ => false

/-- The nodes the scheduler does not use keep their pointers. -/
def Kept (links links' : Links TaskNode) : Prop :=
  ∀ n : TaskNode, n.isSched = false → links'.next n = links.next n ∧ links'.pre n = links.pre n

theorem kept_refl (links : Links TaskNode) : Kept links links :=
  fun _ _ => ⟨rfl, rfl⟩

theorem kept_trans (links₁ links₂ links₃ : Links TaskNode) (h₁ : Kept links₁ links₂)
    (h₂ : Kept links₂ links₃) : Kept links₁ links₃ := by
  intro n hn
  rw [(h₂ n hn).1, (h₂ n hn).2]
  exact h₁ n hn

/-- The placement only speaks of the scheduler's nodes. -/
def OnlySched (spot : TaskNode → Option SchedList) : Prop :=
  ∀ n : TaskNode, n.isSched = false → spot n = none

theorem onlySched_spot (s : Sched) (pub : List Nat) : OnlySched (s.spot pub) := by
  intro n hn
  cases n <;> first | rfl | exact absurd hn (by simp only [TaskNode.isSched, reduceCtorEq,
    not_false_eq_true])

section Moves

variable (s : Sched) (spot : TaskNode → Option SchedList) (f : TaskNode → List TaskNode)
  (hs : Spread s.links s.count spot f) (ho : OnlySched spot)

include hs ho

theorem spread_off_kept (n : TaskNode) (hn : n.isSched = false) (h : TaskNode)
    (hh : h ∈ schedHeads) : n ∉ h :: f h := by
  refine spread_off s.links s.count spot f hs n (ho n hn) (fun l hc => ?_) h hh
  rw [hc] at hn
  exact absurd hn (by simp only [TaskNode.isSched, reduceCtorEq, not_false_eq_true])

theorem spread_leave (h : Option (SchedList × TaskNode))
    (hh : ∀ l n, h = some (l, n) → spot n = some l) :
    Spread (s.leave h).links (s.leave h).count (leaveSpot spot h) (leaveSeq f h) ∧
      Kept s.links (s.leave h).links := by
  rcases h with _ | ⟨l, n⟩
  · exact ⟨hs, kept_refl s.links⟩
  · have hn := hh l n rfl
    have hl := hs.valid n l hn
    refine ⟨spread_del s.links s.count spot f hs l n hn, fun m hm => ?_⟩
    exact listDel_off s.links (.list l) m (f (.list l)) (hs.rings.1 _ (mem_schedHeads l hl))
      (spread_off_kept s spot f hs ho m hm _ (mem_schedHeads l hl)) n ((hs.mem l hl n).mpr hn)

theorem spread_enter (h : Option (SchedList × TaskNode))
    (hh : ∀ l n, h = some (l, n) → l.Valid ∧ spot n = none ∧ n.isSched = true ∧
      ∀ l', n ≠ .list l') :
    Spread (s.enter h).links (s.enter h).count (enterSpot spot h) (enterSeq f h) ∧
      Kept s.links (s.enter h).links := by
  rcases h with _ | ⟨l, n⟩
  · exact ⟨hs, kept_refl s.links⟩
  · rcases hh l n rfl with ⟨hl, hn, hsched, hhead⟩
    refine ⟨spread_add s.links s.count spot f hs l n hl hn hhead, fun m hm => ?_⟩
    refine listAddTail_off s.links (.list l) m (f (.list l)) (hs.rings.1 _ (mem_schedHeads l hl))
      (spread_off_kept s spot f hs ho m hm _ (mem_schedHeads l hl)) n ?_
    rintro rfl
    rw [hsched] at hm
    exact absurd hm (by simp only [reduceCtorEq, not_false_eq_true])

end Moves

theorem spot_leave (s : Sched) (pub : List Nat) (h : Option (SchedList × TaskNode)) :
    (s.leave h).spot pub = s.spot pub := by
  rcases h with _ | ⟨l, n⟩ <;> rfl

theorem spot_enter (s : Sched) (pub : List Nat) (h : Option (SchedList × TaskNode)) :
    (s.enter h).spot pub = s.spot pub := by
  rcases h with _ | ⟨l, n⟩ <;> rfl

theorem home_valid (task : Task) (t : Nat) (l : SchedList) (n : TaskNode)
    (hprio : task.prio < maxPrio) (h : task.home t = some (l, n)) : l.Valid := by
  unfold Task.home at h
  split at h
  · simp only [Option.some.injEq, Prod.mk.injEq] at h
    exact h.1 ▸ hprio
  · simp only [Option.some.injEq, Prod.mk.injEq] at h
    exact h.1 ▸ trivial
  · simp only [Option.some.injEq, Prod.mk.injEq] at h
    exact h.1 ▸ trivial
  · exact absurd h (by simp only [reduceCtorEq, not_false_eq_true])

theorem stateNode_isSched (t : Nat) (n : TaskNode) (hn : stateNode t n) :
    n.isSched = true ∧ ∀ l, n ≠ .list l := by
  rcases hn with rfl | rfl | rfl <;>
    exact ⟨rfl, fun l => by simp only [ne_eq, reduceCtorEq, not_false_eq_true]⟩

/-- Store a record and move the task between the lists of the two records. -/
theorem spread_rehome (s : Sched) (pub : List Nat) (f : TaskNode → List TaskNode) (t : Nat)
    (task : Task) (s' : Sched)
    (hs' : s' = ((s.setTask t task).leave ((s.task t).home t)).enter (task.home t))
    (hs : Spread s.links s.count (s.spot pub) f) (ht : s.Known pub t)
    (hprio : task.prio < maxPrio) :
    Spread s'.links s'.count (s'.spot pub)
        (enterSeq (leaveSeq f ((s.task t).home t)) (task.home t)) ∧
      Kept s.links s'.links := by
  subst hs'
  rw [spot_enter, spot_leave, spot_setTask s pub t task ht]
  -- Off its list the task is nowhere, so it may be put on any.
  have hleft : ∀ n, stateNode t n → leaveSpot (s.spot pub) ((s.task t).home t) n = none :=
    fun n hn => leaveSpot_stateNode s pub t n ht hn
  rcases spread_leave (s.setTask t task) (s.spot pub) f hs (onlySched_spot s pub)
    ((s.task t).home t) (fun l n hh =>
      (spot_stateNode s pub t n l ht (home_stateNode _ t l n hh)).mpr hh) with ⟨hl, hk⟩
  have honly : OnlySched (leaveSpot (s.spot pub) ((s.task t).home t)) := by
    intro n hn
    by_cases hst : stateNode t n
    · exact hleft n hst
    · rw [leaveSpot_other s pub t n hst]
      exact onlySched_spot s pub n hn
  rcases spread_enter _ _ _ hl honly (task.home t) (fun l n hh => by
    have hst := home_stateNode task t l n hh
    exact ⟨home_valid task t l n hprio hh, hleft n hst, stateNode_isSched t n hst⟩) with ⟨he, hk'⟩
  exact ⟨he, kept_trans s.links _ _ hk hk'⟩

/-- The sequences after a change of state. -/
def moveSeq (f : TaskNode → List TaskNode) (task : Task) (t : Nat) (new : TaskState) :
    TaskNode → List TaskNode :=
  if task.state = .idle ∨ task.state = new then f
  else enterSeq (leaveSeq f (task.home t)) (Task.home { task with state := new } t)

theorem spread_setTaskState (s : Sched) (pub : List Nat) (f : TaskNode → List TaskNode) (t : Nat)
    (new : TaskState) (hs : Spread s.links s.count (s.spot pub) f) (ht : s.Known pub t)
    (hprio : (s.task t).prio < maxPrio) (hold : (s.task t).state.Live) (hnew : new.Live)
    (hpp : (s.task t).state = .prepare → new ≠ .prepare) :
    Spread (s.setTaskState t new).links (s.setTaskState t new).count
        ((s.setTaskState t new).spot pub) (moveSeq f (s.task t) t new) ∧
      Kept s.links (s.setTaskState t new).links := by
  unfold moveSeq
  -- No change of state, or the task moves.
  by_cases h : (s.task t).state = .idle ∨ (s.task t).state = new
  · have hsame : (s.task t).state = .idle ∨ ((s.task t).state = new ∧ new ≠ .prepare) := by
      rcases h with h | h
      · exact Or.inl h
      · exact Or.inr ⟨h, fun hc => hpp (h.trans hc) hc⟩
    rw [if_pos h, setTaskState_same s t new hnew hsame]
    exact ⟨hs, kept_refl s.links⟩
  · rw [if_neg h]
    exact spread_rehome s pub f t _ _ (setTaskState_move s t new hold hnew (fun hc => h (Or.inl hc))
      (fun hc => h (Or.inr hc))) hs ht hprio

end Mirros
