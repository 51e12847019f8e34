import Mirros.Core.Sched

/-!
# Mutexes

The sleeping mutex of `kernel/mutex.c` and what `kill_task` of `kernel/task.c`
does with the mutexes of a task that is killed.

A mutex is identified by its address. It has a count, a list of the tasks that
wait for it, and a node by which it hangs on the list of the mutexes its owner
has got.

`mutex_lock_timeout` runs with interrupts disabled and gives up the processor in
the middle, in `suspend_task_timeout`. One pass of its loop up to that point is
`lockPass`; what it does when the task is running again is `lockResume`. The
answer of a pass says whether the function has returned, and with or without
the mutex, or whether the task is inside `suspend_task_timeout`.

The loops over lists follow pointers and take a bound on the number of nodes.
They return nothing when the bound is reached, and when a node is not one of a
task or a mutex as the loop takes it to be.

## Main definitions

* `MutexSys`: The scheduler and the mutexes.
* `lockPass`, `lockResume`, `LockPass.ret`: `mutex_lock_timeout`, cut where the task is
  suspended.
* `mutexUnlock`: Wakes all the tasks that wait.
* `killBegin`, `killEnd`: `kill_task`, cut where `release_pid` takes a mutex.
* `killTask`: `kill_task` as a whole.
-/

namespace Mirros

/-- The scheduler and the count of every mutex. -/
structure MutexSys where
  sched : Sched
  count : Nat → Int

/-- How a pass of `mutex_lock_timeout` ends. -/
inductive LockPass where
  | got
  | quit
  | blocked
  deriving DecidableEq, Repr

/-- What `mutex_lock_timeout` returns at the end of a pass, if it returns. -/
def LockPass.ret : LockPass → Option Int
  | .got => some 0
  -- The timeout is not handed on.
  | .quit => some 0
  | .blocked => none

namespace MutexSys

/-- Replace the list nodes. -/
def setLinks (k : MutexSys) (links : Links TaskNode) : MutexSys :=
  { k with sched := { k.sched with links := links } }

/-- `init_mutex` -/
def initMutex (k : MutexSys) (m : Nat) : MutexSys :=
  { k.setLinks (initList (initList k.sched.links (.mutexWait m)) (.mutexTask m)) with
    count := Function.update k.count m 0 }

/-- The loop of `mutex_lock_timeout` for the task `task`, from the test of the
    count to the switch to another task. When `suspend_task_timeout` refuses, its
    error code is taken for a timeout. -/
def lockPass (k : MutexSys) (task m : Nat) (ms : Int) : Option (LockPass × MutexSys) :=
  if k.count m ≠ 0 then
    -- The task queues up again each time it finds the mutex locked.
    let k := k.setLinks (listAddTail k.sched.links (.mutexWait m) (.wait task))
    if task = 0 ∨ ms = 0 ∨ (k.sched.task task).state = .idle then
      some (.quit, k.setLinks (listDel k.sched.links (.wait task)))
    else do
      let sched ← k.sched.suspendTaskTimeout task ms
      return (.blocked, { k with sched := sched })
  else
    let k := { k with count := Function.update k.count m 1 }
    -- Before there are tasks a mutex has no owner.
    if task ≠ 0 then
      some (.got, k.setLinks (listAddTail k.sched.links (.mutexGet task) (.mutexTask m)))
    else some (.got, k)

/-- `mutex_lock_timeout`, from its start. -/
def mutexLockTimeout (k : MutexSys) (m : Nat) (ms : Int) : Option (LockPass × MutexSys) :=
  k.lockPass k.sched.current m ms

/-- `mutex_lock_timeout`, from where `suspend_task_timeout` returns. -/
def lockResume (k : MutexSys) (task m : Nat) (ms : Int) : Option (LockPass × MutexSys) :=
  -- The result of `mutex_lock_timeout` does not tell this from a lock.
  if (k.sched.task task).timeOut ≠ 0 then
    some (.quit, k.setLinks (listDel k.sched.links (.wait task)))
  else k.lockPass task m ms

/-- The loop of `mutex_unlock` over the waiting tasks. A node that was taken off
    still has its forward pointer. -/
def wakeLoop : Nat → Sched → Nat → TaskNode → Option Sched
  | 0, _, _, _ => none
  | fuel + 1, s, m, list =>
      if list = .mutexWait m then some s
      else
        match list with
        | .wait t =>
            let s := { s with links := listDel s.links (.wait t) }
            -- All of them are woken up, and the first to run gets the mutex.
            let s := s.wakeupTask t
            wakeLoop fuel s m (s.links.next (.wait t))
        | _ => none

/-- `mutex_unlock` -/
def mutexUnlock (fuel : Nat) (k : MutexSys) (m : Nat) : Option MutexSys :=
  if k.count m = 0 then some k
  else do
    let k := { k with count := Function.update k.count m 0 }
    let sched ← wakeLoop fuel k.sched m (k.sched.links.next (.mutexWait m))
    let k := { k with sched := sched }
    -- A mutex that was locked without a task is on no list.
    if !isListEmpty k.sched.links (.mutexTask m) then
      return k.setLinks (listDel k.sched.links (.mutexTask m))
    else return k

/-- `kill_task` up to `release_pid`, with whether it goes on. -/
def killBegin (k : MutexSys) (t : Nat) : Bool × MutexSys :=
  let r := (k.sched.setTaskState t .idle).schedUnlinkTask t
  (r.1, { k with sched := r.2 })

/-- The loop of `kill_task` over the children of the task. Moving a child to the
    new parent changes the pointer the loop goes on by. -/
def adoptLoop : Nat → Sched → Nat → TaskNode → Option Sched
  | 0, _, _, _ => none
  | fuel + 1, s, t, list =>
      if list = .child t then some s
      else
        match list with
        | .p child =>
            let s := s.setTask child { s.task child with parent := (s.task t).parent }
            let s := { s with links := listAddTail s.links (.child (s.task t).parent) list }
            -- The node now points into the list of the new parent.
            adoptLoop fuel s t (s.links.next list)
        | _ => none

/-- The loop of `kill_task` over the mutexes the task has got. -/
def unlockLoop : Nat → MutexSys → Nat → TaskNode → Option MutexSys
  | 0, _, _, _ => none
  | fuel + 1, k, t, list =>
      if list = .mutexGet t then some k
      else
        match list with
        | .mutexTask m => do
            -- Unlocking takes the mutex off the list the loop walks.
            let k ← mutexUnlock fuel k m
            unlockLoop fuel k t (k.sched.links.next (.mutexTask m))
        | _ => none

/-- `kill_task` from `release_pid` to `release_task`. -/
def killEnd (fuel : Nat) (k : MutexSys) (t : Nat) : Option MutexSys := do
  let k := k.setLinks (listDel k.sched.links (.p t))
  let sched ← adoptLoop fuel k.sched t (k.sched.links.next (.child t))
  let k := { k with sched := sched }
  -- A task that waits for a mutex leaves its list.
  let k :=
    if !isListEmpty k.sched.links (.wait t) then
      k.setLinks (listDel k.sched.links (.wait t))
    else k
  unlockLoop fuel k t (k.sched.links.next (.mutexGet t))

/-- `kill_task`, up to `release_task`, with what it returns. Nobody else has the
    mutex of the pid map here, so `release_pid` takes it and gives it back. -/
def killTask (fuel : Nat) (k : MutexSys) (t : Nat) : Option (Int × MutexSys) :=
  if t = 0 then some (errInval, k)
  else
    match k.killBegin t with
    -- The task stays in the state it was put into before the test.
    | (false, k) => some (errInval, k)
    | (true, k) => do
        let k ← killEnd fuel { k with sched := k.sched.releasePid t } t
        return (0, k)

end MutexSys

end Mirros
