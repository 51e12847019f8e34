import Mirros.Core.Task

/-!
# Process Ids

The pid map of `kernel/sched.c`: one page of entries, an entry for each pid with
the address of the task that holds it. `get_new_pid` itself is in `Core.Task`,
where `init_task_struct` calls it.

Each of these functions takes `pid_map_mutex` at its start and gives it back
before it returns, and they are not interleaved with each other here, so the
mutex is free at every call and does not show. As elsewhere `none` is an access
outside the page.

## Main definitions

* `initPidAllocater`: Setting up the map.
* `releasePid`: Giving a pid back.
* `pidGetTask`: The task that holds a pid.
-/

namespace Mirros

/-- `PID_MAP_PAGE_NR` -/
def pidMapPageNr : Nat := 1

namespace Kernel

/-- Replace the pid map. -/
def setPidMap (k : Kernel) (map : PidMap) : Kernel :=
  { k with pidMap := map }

/-- `init_pid_allocater`. The `memset` clears one page, which is all entries. -/
def initPidAllocater (k : Kernel) : Option (Int × Kernel) := do
  let nr := pidMapPageNr * pageSize / 4
  let k := k.setPidMap { k.pidMap with nr := nr, nrFree := nr, current := 0 }
  let (addr, mm) ← k.mm.getFreePages pidMapPageNr gfpKernel
  let k := k.setMm mm
  -- The numbers are set by then.
  if addr = 0 then
    return (errNoMem, k)
  return (0, k.setPidMap { k.pidMap with
    addr := fun i => if i < pidMapPageNr * pageSize / 4 then 0 else k.pidMap.addr i })

/-- `release_pid`. Neither the counter nor the cursor goes back. -/
def releasePid (k : Kernel) (t : Nat) : Option Kernel :=
  let pid := (k.task t).pid
  -- The entry is written whatever the pid is, so outside of the map nothing is defined.
  if 0 ≤ pid ∧ pid < k.pidMap.nr then
    some (k.setPidMap { k.pidMap with addr := Function.update k.pidMap.addr pid.toNat 0 })
  else none

/-- `pid_get_task`, with zero for the null pointer. Only the upper bound of the
    pid is tested. -/
def pidGetTask (k : Kernel) (pid : Int) : Option Nat :=
  if pid < k.pidMap.nr then
    if 0 ≤ pid then some (k.pidMap.addr pid.toNat) else none
  else some 0

end Kernel

end Mirros
