import Mirros.Core.List

/-!
# The Scheduler

The scheduler of `kernel/sched.c`: an array of ready lists, one per priority,
lists of all tasks, of sleeping tasks and of tasks waiting to be killed, and the
functions that move tasks between them and pick the next one to run.

Tasks are identified by the address of their `struct task_struct`, with zero for
the null pointer. All list nodes of tasks and mutexes live in one heap of links.
A list head keeps a count next to it, which is not bounded here.

A function that reads a task through a list returns `none` when the node it
finds is not a task's, since what it would read there is not a task. The walk
over the sleeping tasks in the tick may in principle never end; it is given one
step more than there are sleeping tasks.

Critical sections do not show: every function below runs with interrupts
disabled where it touches shared data. `arch_switch_task_sw` and `os_exit_irq`
are the assignment of `next_run` to `current`.

## Main definitions

* `TaskState`, `Task`, `TaskNode`, `Sched`: The data of the scheduler.
* `getStateChange`, `setTaskState`: Moving a task between lists.
* `findNextRunTask`, `prepareToSwitch`, `sched`: Switching to the next task.
* `osTickHandler`: The tick.
* `suspendTaskTimeout`, `wakeupTask`, `schedRemoveTask`, `taskKillSelf`: The
  operations on a task.
-/

namespace Mirros

/-- `state_t` -/
inductive TaskState where
  | prepare
  | running
  | sleep
  | idle
  | stop
  | unknown
  deriving DecidableEq, Repr

/-- The lists of the scheduler: `os_sched_table[i]`, `task_system`, `task_idle`
    and `task_sleep`. -/
inductive SchedList where
  | prio (i : Nat)
  | system
  | idle
  | sleep
  deriving DecidableEq, Repr

/-- The list nodes of tasks, of mutexes and of the scheduler. -/
inductive TaskNode where
  | list (l : SchedList)
  | prioRunning (t : Nat)
  | system (t : Nat)
  | sleep (t : Nat)
  | idle (t : Nat)
  | wait (t : Nat)
  | mutexGet (t : Nat)
  | child (t : Nat)
  | p (t : Nat)
  | mutexWait (m : Nat)
  | mutexTask (m : Nat)
  deriving DecidableEq, Repr

/-- The fields of `struct task_struct` that scheduling reads or writes. -/
structure Task where
  pid : Int
  flag : Nat
  state : TaskState
  exitState : TaskState
  prio : Nat
  prePrio : Nat
  runTime : Int
  waitTime : Int
  timeOut : Nat
  runCount : Nat
  parent : Nat
  deriving DecidableEq, Repr

/-- The variables of `sched.c` with the tasks, the list nodes and the pid map. -/
structure Sched where
  task : Nat → Task
  links : Links TaskNode
  count : SchedList → Int
  pidMap : Nat → Nat
  current : Nat
  nextRun : Nat
  idle : Nat
  scheduleRunning : Bool
  inInterrupt : Bool

/-- `MAX_PRIO` -/
def maxPrio : Nat := 64

/-- `-EINVAL` -/
def errInval : Int := -22

/-- `PROCESS_DEFAULT_PRIO` -/
def processDefaultPrio : Nat := 20

/-- `KERNEL_THREAD_PRIO` -/
def kernelThreadPrio : Nat := 5

/-- `PROCESS_TYPE_KERNEL` -/
def processTypeKernel : Nat := 0x1

/-- `PROCESS_TYPE_USER` -/
def processTypeUser : Nat := 0x2

/-- `state_change_t` -/
inductive StateChange where
  | noneToPrepare
  | noneToSleep
  | prepareToRunning
  | prepareToSleep
  | prepareToIdle
  | runningToSleep
  | runningToPrepare
  | runningToIdle
  | sleepToPrepare
  | sleepToIdle
  | sleepToRunning
  | prepareToUnknown
  | noneToNone
  deriving DecidableEq, Repr

/-- `change_table`. It has room for fourteen rows and twelve are given, so the
    last two are zero, which is a row for staying in PREPARE. -/
def changeTable : List (TaskState × TaskState × StateChange) :=
  [(.unknown, .prepare, .noneToPrepare),
   (.unknown, .sleep, .noneToSleep),
   (.prepare, .running, .prepareToRunning),
   (.prepare, .sleep, .prepareToSleep),
   (.prepare, .idle, .prepareToIdle),
   (.running, .sleep, .runningToSleep),
   (.running, .prepare, .runningToPrepare),
   (.running, .idle, .runningToIdle),
   (.sleep, .prepare, .sleepToPrepare),
   (.sleep, .idle, .sleepToIdle),
   (.sleep, .running, .sleepToRunning),
   (.prepare, .unknown, .prepareToUnknown),
   (.prepare, .prepare, .noneToPrepare),
   (.prepare, .prepare, .noneToPrepare)]

/-- `get_state_change` -/
def getStateChange (old new : TaskState) : StateChange :=
  match changeTable.find? (fun row => old = row.1 && new = row.2.1) with
  | some row => row.2.2
  | none => .noneToNone

namespace Sched

/-- Replace the record of a task. -/
def setTask (s : Sched) (t : Nat) (task : Task) : Sched :=
  { s with task := Function.update s.task t task }

/-- `sched_list_add_task` and `prio_list_add_task` -/
def listAddTask (s : Sched) (l : SchedList) (n : TaskNode) : Sched :=
  { s with
    links := listAdd s.links (.list l) n
    count := Function.update s.count l (s.count l + 1) }

/-- `sched_list_add_task_tail` and `prio_list_add_task_tail` -/
def listAddTaskTail (s : Sched) (l : SchedList) (n : TaskNode) : Sched :=
  { s with
    links := listAddTail s.links (.list l) n
    count := Function.update s.count l (s.count l + 1) }

/-- `sched_list_del_task` and `prio_list_del_task` -/
def listDelTask (s : Sched) (l : SchedList) (n : TaskNode) : Sched :=
  { s with
    links := listDel s.links n
    count := Function.update s.count l (s.count l - 1) }

/-- `prio_list_add_task_tail` -/
def prioListAddTaskTail (s : Sched) (t : Nat) : Sched :=
  s.listAddTaskTail (.prio (s.task t).prio) (.prioRunning t)

/-- `prio_list_del_task` -/
def prioListDelTask (s : Sched) (t : Nat) : Sched :=
  s.listDelTask (.prio (s.task t).prio) (.prioRunning t)

/-- The `switch` of `set_task_state`. -/
def applyChange (s : Sched) (t : Nat) : StateChange → Sched
  | .noneToPrepare => (s.listAddTaskTail .system (.system t)).prioListAddTaskTail t
  | .noneToSleep => (s.listAddTaskTail .system (.system t)).listAddTask .sleep (.sleep t)
  | .prepareToRunning => s.prioListDelTask t
  | .prepareToIdle => (s.prioListDelTask t).listAddTaskTail .idle (.idle t)
  | .prepareToSleep => (s.prioListDelTask t).listAddTaskTail .sleep (.sleep t)
  | .runningToSleep => s.listAddTaskTail .sleep (.sleep t)
  | .runningToPrepare => s.prioListAddTaskTail t
  | .runningToIdle => s.listAddTaskTail .idle (.idle t)
  | .sleepToPrepare => (s.listDelTask .sleep (.sleep t)).prioListAddTaskTail t
  | .sleepToIdle => (s.listDelTask .sleep (.sleep t)).listAddTaskTail .idle (.idle t)
  | .sleepToRunning => s.listDelTask .sleep (.sleep t)
  | .prepareToUnknown => s.prioListDelTask t
  | .noneToNone => s

/-- `set_task_state` -/
def setTaskState (s : Sched) (t : Nat) (state : TaskState) : Sched :=
  let change := getStateChange (s.task t).state state
  -- A change that is not in the table is dropped, without an error.
  if change = .noneToNone then s
  -- The lists are edited after the state has been set.
  else (s.setTask t { s.task t with state := state }).applyChange t change

/-- `init_sched_struct` -/
def initSchedStruct (s : Sched) (t : Nat) : Sched :=
  let task := s.task t
  let prio :=
    if task.flag &&& processTypeKernel ≠ 0 ∧ 0 < task.pid then kernelThreadPrio
    else if task.flag &&& processTypeUser ≠ 0 ∧ task.pid = 1 then processDefaultPrio
    else if task.flag &&& processTypeUser ≠ 0 ∧ 1 < task.pid then (s.task task.parent).prio
    -- The idle task, and the killer, whose pid is zero.
    else kernelThreadPrio - 1
  let s := s.setTask t { task with
    prio := prio
    prePrio := prio
    runTime := 1
    waitTime := -1
    timeOut := 0
    runCount := 0
    state := .unknown
    exitState := .unknown }
  { s with
    links := [TaskNode.prioRunning t, .system t, .sleep t, .idle t, .mutexGet t, .wait t].foldl
      initList s.links }

/-- The end of `init_task_struct`, which puts a new task on its parent's list of
    children. -/
def addChild (s : Sched) (parent t : Nat) : Sched :=
  { s with links := listAdd ([TaskNode.p t, .child t].foldl initList s.links) (.child parent) (.p t) }

/-- `pid_get_task` -/
def pidGetTask (s : Sched) (pid : Nat) : Nat :=
  s.pidMap pid

/-- `set_task_prio`. The priority is not negative here. -/
def setTaskPrio (s : Sched) (t prio : Nat) : Sched :=
  let newPrio (s : Sched) :=
    s.setTask t { s.task t with prePrio := (s.task t).prio, prio := prio }
  -- A priority below zero passes the test as well.
  if maxPrio ≤ prio then s
  else
    match (s.task t).state with
    | .running => newPrio s
    | .sleep => newPrio s
    | .prepare => (newPrio (s.setTaskState t .unknown)).setTaskState t .prepare
    | _ => s

/-- `set_task_prio` for any priority, with what it returns. -/
def setTaskPrioInt (s : Sched) (t : Nat) (prio : Int) : Option (Int × Sched) :=
  let newPrio (s : Sched) :=
    s.setTask t
      { s.task t with prePrio := (s.task t).prio, prio := (prio % 0x100000000).toNat }
  if (maxPrio : Int) ≤ prio then some (errInval, s)
  else
    match (s.task t).state with
    | .running => some (0, newPrio s)
    | .sleep => some (0, newPrio s)
    | .prepare =>
        -- There is no ready list in front of the first one.
        if prio < 0 then none
        else some (0, (newPrio (s.setTaskState t .unknown)).setTaskState t .prepare)
    -- The message is all there is of the error.
    | _ => some (0, s)

theorem setTaskPrioInt_eq (s : Sched) (t prio : Nat) :
    s.setTaskPrioInt t prio =
      some (if maxPrio ≤ prio then errInval else 0, s.setTaskPrio t prio) := by
  unfold setTaskPrioInt setTaskPrio
  by_cases h : maxPrio ≤ prio
  · rw [if_pos (by exact_mod_cast h), if_pos h, if_pos h]
  · have hword : ((prio : Int) % 0x100000000).toNat = prio := by
      simp only [maxPrio] at h
      omega
    rw [if_neg (by exact_mod_cast h), if_neg h, if_neg h, if_neg (by omega)]
    simp only [hword]
    cases (s.task t).state <;> rfl

/-- The first priority below the last one whose ready list is not empty. -/
def firstReady (s : Sched) : Option Nat :=
  (List.range (maxPrio - 1)).find? (fun i => s.count (.prio i) ≠ 0)

/-- `find_next_run_task` -/
def findNextRunTask (s : Sched) : Option Nat :=
  match s.firstReady with
  -- Nobody is ready: `current` is chosen whatever its state is.
  | none => some s.current
  | some i =>
      match s.links.next (.list (.prio i)) with
      | .prioRunning t => some t
      | _ => none

/-- `prepare_to_switch` -/
def prepareToSwitch (s : Sched) (next : Nat) : Sched :=
  let s :=
    -- The task goes on running, and nothing is set but its times.
    if s.current = next then s
    else
      -- A task that went to sleep or was killed is not put back.
      let s := if (s.task s.current).state = .running then s.setTaskState s.current .prepare else s
      let task := s.task next
      let s := s.setTask next { task with
        timeOut := if task.waitTime = 0 then 1 else task.timeOut
        waitTime := -1 }
      s.setTaskState next .running
  s.setTask next { s.task next with
    runCount := ((s.task next).runCount + 1) % 0x100000000
    runTime := 1 }

/-- Choose the next task, prepare it and switch to it. -/
def switchTask (s : Sched) : Option Sched := do
  let next ← s.findNextRunTask
  let s := { s with nextRun := next }
  let s := s.prepareToSwitch next
  return { s with current := s.nextRun }

/-- `sched` -/
def sched (s : Sched) : Option Sched :=
  if s.inInterrupt then some s
  else if !s.scheduleRunning then some s
  else s.switchTask

/-- The body of the loop of `os_tick_handler`. -/
def tickTask (s : Sched) (t : Nat) : Sched :=
  let task := s.task t
  let task := if 0 < task.waitTime then { task with waitTime := task.waitTime - 1 } else task
  let s := s.setTask t task
  -- With a negative `wait_time` a task sleeps until it is woken up.
  if task.waitTime = 0 then s.setTaskState t .prepare else s

/-- The loop of `os_tick_handler` over the sleeping tasks. The node of a task
    that was woken up still has its forward pointer. -/
def tickLoop : Nat → Sched → TaskNode → Option Sched
  | 0, _, _ => none
  | fuel + 1, s, list =>
      if list = .list .sleep then some s
      else
        match list with
        | .sleep t =>
            let s := s.tickTask t
            tickLoop fuel s (s.links.next (.sleep t))
        | _ => none

/-- `os_tick_handler`, up to the end of the interrupt. -/
def osTickHandler (s : Sched) : Option Sched := do
  let s ← tickLoop ((s.count .sleep).toNat + 1) s (s.links.next (.list .sleep))
  let runTime := (s.task s.current).runTime - 1
  let s := s.setTask s.current { s.task s.current with runTime := runTime }
  -- At any other value, also below zero, the task goes on.
  if runTime = 0 then s.switchTask else return s

/-- `suspend_task_timeout`, up to the switch to another task. -/
def suspendTaskTimeout (s : Sched) (t : Nat) (timeout : Int) : Option Sched :=
  if t = 0 ∨ timeout = 0 then some s
  else if (s.task t).state ≠ .idle then
    let s := s.setTask t { s.task t with waitTime := timeout, timeOut := 0 }
    (s.setTaskState t .sleep).sched
  else some s

/-- `wakeup_task` -/
def wakeupTask (s : Sched) (t : Nat) : Sched :=
  -- Only a sleeping task can be woken up.
  if (s.task t).state ≠ .sleep then s
  else (s.setTask t { s.task t with runTime := 1 }).setTaskState t .prepare

/-- `release_pid` -/
def releasePid (s : Sched) (t : Nat) : Sched :=
  -- The entry is cleared, and neither the cursor nor the counter is touched.
  { s with pidMap := Function.update s.pidMap (s.task t).pid.toNat 0 }

/-- `sched_remove_task` up to `release_pid`, with whether it succeeded. -/
def schedUnlinkTask (s : Sched) (t : Nat) : Bool × Sched :=
  if (s.task t).state ≠ .idle then (false, s)
  else if (s.task t).pid = 1 ∨ (s.task t).pid = 0 then (false, s)
  else (true, (s.listDelTask .idle (.idle t)).listDelTask .system (.system t))

/-- `sched_remove_task`, with whether it succeeded. -/
def schedRemoveTask (s : Sched) (t : Nat) : Bool × Sched :=
  match s.schedUnlinkTask t with
  | (true, s) => (true, s.releasePid t)
  | (false, s) => (false, s)

/-- `task_kill_self`, up to the switch to another task. -/
def taskKillSelf (s : Sched) (t : Nat) : Option Sched :=
  let killer := s.pidGetTask 0
  if killer = 0 then some s
  else ((s.setTaskState t .idle).wakeupTask killer).sched

/-- The end of `do_fork` and `do_exec` for a new task: it has its pid, its flag
    and its parent, gets its scheduling data, and is published. -/
def publish (s : Sched) (t pid flag parent : Nat) : Sched :=
  let s := { s with pidMap := Function.update s.pidMap pid t }
  let s := s.setTask t { s.task t with pid := pid, flag := flag, parent := parent }
  (s.initSchedStruct t).setTaskState t .prepare

/-- `sched_init` -/
def schedInit (s : Sched) : Sched :=
  { s with
    links := ((List.range maxPrio).map (fun i => TaskNode.list (.prio i)) ++
      [TaskNode.list .sleep, .list .idle, .list .system]).foldl initList s.links
    count := fun l =>
      match l with
      | .prio i => if i < maxPrio then 0 else s.count l
      | _ => 0
    pidMap := fun pid => if pid < 1024 then 0 else s.pidMap pid
    current := 0
    nextRun := 0
    scheduleRunning := true }

/-- `build_idle_task`, for the task at the address `kmalloc` returned. -/
def buildIdleTask (s : Sched) (idle : Nat) : Sched :=
  let s := s.setTask idle { s.task idle with pid := -1, flag := processTypeKernel, parent := 0 }
  let s := { s with links := [TaskNode.child idle, .p idle].foldl initList s.links }
  let s := s.initSchedStruct idle
  let s := s.setTask idle { s.task idle with state := .running }
  { s with idle := idle, current := idle, nextRun := idle }

end Sched

end Mirros
