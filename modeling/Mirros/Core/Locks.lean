import Mirros.Core.Cache
import Mirros.Core.Pid

/-!
# The Mutexes of the Allocators

The page allocator keeps the count of each zone's mutex, and the slab allocator that
of its own. The mutex of the pid map does not show in `Kernel`, where no call of the
pid allocator ever meets it locked; here it stands beside the kernel, and the two pid
functions take it and give it back line by line.

A call takes a mutex by finding its count at zero. A mutex that is held is never
released while the caller waits for it, so such a call does not come back.

## Main definitions

* `LockState`: The kernel with the mutex of the pid map.
* `getNewPid`, `releasePid`: The pid functions with their mutex.
* `LockCall`, `LockState.call`: The calls that take mutexes.

## Theorems

* `getNewPid_kernel`, `releasePid_kernel`: With the mutex free, these are the functions of
  `Kernel`.
-/

namespace Mirros

/-- The kernel with `pid_map_mutex`. -/
structure LockState where
  kernel : Kernel
  pidMapMutex : Nat

/-- The functions of the allocators that take a mutex. -/
inductive LockCall where
  | getFreePages (count : Int) (flag : Nat)
  | freePages (addr : Nat)
  | getFreePageAligin (aligin flag : Nat)
  | kmalloc (size : Int) (flag : Nat)
  | kfreeKernelMem (addr : Nat)
  | getNewPid (t : Nat)
  | releasePid (t : Nat)
  deriving DecidableEq, Repr

namespace LockState

/-- `mutex_lock(&map->pid_map_mutex)` -/
def lockPidMap (l : LockState) : Option LockState :=
  if l.pidMapMutex = 0 then some { l with pidMapMutex := 1 } else none

/-- `mutex_unlock(&map->pid_map_mutex)` -/
def unlockPidMap (l : LockState) : LockState :=
  { l with pidMapMutex := 0 }

/-- Replace the pid map. -/
def setPidMap (l : LockState) (map : PidMap) : LockState :=
  { l with kernel := l.kernel.setPidMap map }

/-- Replace the page allocator. -/
def setMm (l : LockState) (mm : Mm) : LockState :=
  { l with kernel := l.kernel.setMm mm }

/-- Replace the slab allocator. -/
def setSlab (l : LockState) (slab : Slab) : LockState :=
  { l with kernel := { l.kernel with slab := slab } }

/-- `get_new_pid` -/
def getNewPid (l : LockState) (t : Nat) : Option (Int × LockState) := do
  let l ← l.lockPidMap
  let map := l.kernel.pidMap
  if map.nrFree = 0 then
    return (-1, l.unlockPidMap)
  match (List.range' map.current (map.nr - map.current)).find? (fun i => map.addr i = 0) with
  | some i =>
      let l := l.setPidMap { map with
        nrFree := map.nrFree - 1
        current := map.current + 1
        addr := Function.update map.addr i t }
      return (i, l.unlockPidMap)
  | none => return (-1, l.unlockPidMap)

/-- `release_pid` -/
def releasePid (l : LockState) (t : Nat) : Option LockState := do
  let l ← l.lockPidMap
  let pid := (l.kernel.task t).pid
  if 0 ≤ pid ∧ pid < l.kernel.pidMap.nr then
    let l := l.setPidMap { l.kernel.pidMap with
      addr := Function.update l.kernel.pidMap.addr pid.toNat 0 }
    return l.unlockPidMap
  else none

/-- Make a call, and forget what it returns. The loop of `get_slab_in_list` makes at
    most `fuel` turns. -/
def call (fuel : Nat) (l : LockState) : LockCall → Option LockState
  | .getFreePages count flag => (l.kernel.mm.getFreePages count flag).map (fun r => l.setMm r.2)
  | .freePages addr => (l.kernel.mm.freePages addr).map l.setMm
  | .getFreePageAligin aligin flag =>
      (l.kernel.mm.getFreePageAligin aligin flag).map (fun r => l.setMm r.2)
  | .kmalloc size flag => (l.kernel.slab.kmallocRepet size flag fuel).map (fun r => l.setSlab r.2)
  | .kfreeKernelMem addr => (l.kernel.slab.kfreeKernelMem addr).map l.setSlab
  | .getNewPid t => (l.getNewPid t).map Prod.snd
  | .releasePid t => l.releasePid t

theorem getNewPid_kernel (k : Kernel) (t : Nat) :
    getNewPid ⟨k, 0⟩ t = some ((k.getNewPid t).1, ⟨(k.getNewPid t).2, 0⟩) := by
  unfold getNewPid lockPidMap Kernel.getNewPid
  rw [if_pos rfl]
  simp only [Option.pure_def, Option.bind_eq_bind, Option.bind_some]
  by_cases hfree : k.pidMap.nrFree = 0
  · rw [if_pos hfree, if_pos hfree]
    rfl
  rw [if_neg hfree, if_neg hfree]
  -- Both ways out of the loop unlock.
  cases (List.range' k.pidMap.current (k.pidMap.nr - k.pidMap.current)).find?
      (fun i => k.pidMap.addr i = 0) with
  | none => rfl
  | some i => rfl

theorem releasePid_kernel (k : Kernel) (t : Nat) :
    releasePid ⟨k, 0⟩ t = (k.releasePid t).map (fun k => ⟨k, 0⟩) := by
  unfold releasePid lockPidMap Kernel.releasePid
  rw [if_pos rfl]
  simp only [Option.pure_def, Option.bind_eq_bind, Option.bind_some]
  by_cases hpid : 0 ≤ (k.task t).pid ∧ (k.task t).pid < k.pidMap.nr
  · rw [if_pos hpid, if_pos hpid]
    rfl
  · rw [if_neg hpid, if_neg hpid]
    rfl

end LockState

end Mirros
