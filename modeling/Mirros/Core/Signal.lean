import Mirros.Core.Mutex
import Mirros.Core.Pid

/-!
# Signals

`sys_signal` of `kernel/signal.c` with what it calls, as far as a task is killed by it. The one
signal with a handler is the one to kill.

The pid map is the scheduler's. `pid_get_task` reads an entry of it, and reading behind or before
the map is a fault. The other fault is a list that `kill_task` or the scheduler walks over
without coming to its end. Priorities are not negative here.

## Main definitions

* `SignalFault`: What can go wrong.
* `pidGetTask`: An entry of the pid map.
* `isVaildSignal`, `signalKill`, `sysSignal`: A signal.
-/

namespace Mirros

/-- `pid_map.nr` -/
def pidMapNr : Nat := pidMapPageNr * pageSize / 4

/-- `PROCESS_SIGNAL_KILL` -/
def processSignalKill : Nat := 0

/-- `MAX_SIGNAL` -/
def maxSignal : Nat := 4

/-- What can go wrong. -/
inductive SignalFault where
  /-- There is no such entry in the pid map. -/
  | index (pid : Int)
  /-- A list is not what a loop over it takes it to be. -/
  | list
  deriving DecidableEq, Repr

namespace MutexSys

/-- `pid_get_task`, with zero for the null pointer. -/
def pidGetTask (k : MutexSys) (pid : Int) : Except SignalFault Nat :=
  -- Both sides are signed.
  if pid < pidMapNr then
    if 0 ≤ pid then .ok (k.sched.pidMap pid.toNat) else .error (.index pid)
  else .ok 0

/-- `task_kill_self`, up to the switch to another task. -/
def taskKillSelf (k : MutexSys) (t : Nat) : Except SignalFault (Int × MutexSys) := do
  let killer ← k.pidGetTask 0
  if killer = 0 then .ok (errInval, k)
  else
    match k.sched.taskKillSelf t with
    | some sched => .ok (0, { k with sched := sched })
    | none => .error .list

/-- `task_kill_other` -/
def taskKillOther (fuel : Nat) (k : MutexSys) (t : Nat) : Except SignalFault (Int × MutexSys) :=
  match killTask fuel k t with
  | some r => .ok r
  | none => .error .list

/-- `signal_kill`, for `signal->from` and `signal->to`. -/
def signalKill (fuel : Nat) (k : MutexSys) (source target : Int) :
    Except SignalFault (Int × MutexSys) := do
  let t ← k.pidGetTask source
  let u ← k.pidGetTask target
  if source = target then
    k.taskKillSelf t
  else if (k.sched.task t).prio < (k.sched.task u).prio then
    taskKillOther fuel k u
  else
    .ok (errInval, k)

/-- `is_vaild_signal` -/
def isVaildSignal (k : MutexSys) (source target : Int) (sig : Nat) : Except SignalFault Bool := do
  if maxSignal ≤ sig then
    return false
  let t ← k.pidGetTask source
  if t = 0 then
    return false
  let u ← k.pidGetTask target
  if u = 0 then
    return false
  return true

/-- `signal_table`, after `init_signal_handler`. -/
def signalTable (fuel : Nat) (sig : Nat) :
    Option (MutexSys → Int → Int → Except SignalFault (Int × MutexSys)) :=
  if sig = processSignalKill then some (signalKill fuel) else none

/-- `sys_signal`, with what it returns. The number bounds the loops of `kill_task`. -/
def sysSignal (fuel : Nat) (k : MutexSys) (pid : Int) (sig : Nat) :
    Except SignalFault (Int × MutexSys) := do
  let source := (k.sched.task k.sched.current).pid
  let vaild ← k.isVaildSignal source pid sig
  if vaild then
    match signalTable fuel sig with
    | some handler => handler k source pid
    | none => .ok (errInval, k)
  else
    .ok (errInval, k)

end MutexSys

end Mirros
