import Mirros.Core.Mutex
import Mirros.Theory.Sched.Session

/-!
# The Kinds of List Nodes

The list nodes of a task fall into four kinds that are never on a list together:
those of the scheduler, those of waiting for mutexes, those of owning mutexes,
and those of the family of a task. Every list operation of the kernel stays in
one kind, and that alone carries most of the frame conditions: an operation on
one kind keeps every property of the others (`Only`).

## Main definitions

* `NodeKind`, `Only`: The kinds of list nodes, and edits that stay in one.
* `ClosedKind`: A closed set of nodes of one kind.

## Theorems

* `only_listAddTail`, `only_listDel`: An edit in a closed set of one kind.
* `only_initList`: A node that is made to stand alone.
* `schedOk_only`: The scheduler does not see edits of other kinds.
-/

namespace Mirros

/-- What a list node is for. -/
inductive NodeKind where
  | sched
  | wait
  | own
  | family
  deriving DecidableEq, Repr

/-- The kind of each node. -/
def TaskNode.kind : TaskNode → NodeKind
  | .list _ | .prioRunning _ | .system _ | .sleep _ | .idle _ => .sched
  | .wait _ | .mutexWait _ => .wait
  | .mutexGet _ | .mutexTask _ => .own
  | .child _ | .p _ => .family

/-- Only the pointers of nodes of one kind have changed. -/
def Only (k : NodeKind) (links links' : Links TaskNode) : Prop :=
  ∀ n : TaskNode, n.kind ≠ k → links'.next n = links.next n ∧ links'.pre n = links.pre n

theorem only_refl (k : NodeKind) (links : Links TaskNode) : Only k links links :=
  fun _ _ => ⟨rfl, rfl⟩

theorem only_trans (k : NodeKind) (links₁ links₂ links₃ : Links TaskNode)
    (h₁ : Only k links₁ links₂) (h₂ : Only k links₂ links₃) : Only k links₁ links₃ := by
  intro n hn
  rw [(h₂ n hn).1, (h₂ n hn).2]
  exact h₁ n hn

theorem only_of_kept (links links' : Links TaskNode) (h : Kept links links') :
    Only .sched links links' := by
  intro n hn
  refine h n ?_
  cases n <;> first | rfl | exact absurd rfl hn

/-- The set is closed and of one kind. -/
structure ClosedKind (links : Links TaskNode) (k : NodeKind) (S : Set TaskNode) : Prop where
  closed : Closed links S
  kind : ∀ n ∈ S, n.kind = k

section ClosedKind

variable (links : Links TaskNode) (k : NodeKind) (S : Set TaskNode) (h : ClosedKind links k S)

include h

theorem only_listAddTail (head new : TaskNode) (hh : head ∈ S) (hn : new ∈ S) :
    Only k links (listAddTail links head new) ∧ ClosedKind (listAddTail links head new) k S := by
  refine ⟨fun n hnk => ?_, closed_listAddTail links S h.closed head new hh hn, h.kind⟩
  exact listAddTail_outside links S h.closed head new n hh hn (fun hc => hnk (h.kind n hc))

theorem only_listDel (list : TaskNode) (hn : list ∈ S) :
    Only k links (listDel links list) ∧ ClosedKind (listDel links list) k S := by
  refine ⟨fun n hnk => ?_, closed_listDel links S h.closed list hn, h.kind⟩
  exact listDel_outside links S h.closed list n hn (fun hc => hnk (h.kind n hc))

/-- Edits of another kind. -/
theorem closedKind_only (k' : NodeKind) (links' : Links TaskNode) (hk : k ≠ k')
    (ho : Only k' links links') : ClosedKind links' k S := by
  refine ⟨fun n hn => ?_, h.kind⟩
  rw [(ho n (by rw [h.kind n hn]; exact hk)).1, (ho n (by rw [h.kind n hn]; exact hk)).2]
  exact h.closed n hn

end ClosedKind

/-- Initialising a node. -/
theorem only_initList (links : Links TaskNode) (n : TaskNode) :
    Only n.kind links (initList links n) := by
  intro x hx
  have hne : x ≠ n := by
    rintro rfl
    exact hx rfl
  unfold initList
  simp only [Links.setPre_next, Links.setNext_next, Links.setPre_pre, Links.setNext_pre, hne,
    if_false, and_self]

/-- The scheduler only looks at its own nodes. -/
theorem schedOk_only (s : Sched) (pub : List Nat) (k : NodeKind) (links : Links TaskNode)
    (hk : k ≠ .sched) (ho : Only k s.links links) (hs : SchedOk s pub) :
    SchedOk { s with links := links } pub := by
  rcases hs.spread with ⟨f, hf⟩
  refine ⟨⟨f, ⟨rings_congr s.links links schedHeads f (fun h hh a ha => ho a ?_) hf.rings, hf.mem,
    hf.count, hf.valid, hf.head⟩⟩, hs.prio, hs.live⟩
  have hsched : a.isSched = true := by
    by_contra hc
    rw [Bool.not_eq_true] at hc
    exact spread_off_kept s _ f hf (onlySched_spot s pub) a hc h hh ha
  cases a <;> first | exact Ne.symm hk |
    exact absurd hsched (by simp only [TaskNode.isSched, Bool.false_eq_true, not_false_eq_true])

end Mirros
