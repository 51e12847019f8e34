import Mathlib.Data.Set.Insert
import Mirros.Lib.Ring

/-!
# Kernel Lists

The intrusive list of `include/os/list.h`, over the heap of pointers of
`Lib.Ring`. The kernel never allocates list cells: every object that can stand
on a list embeds a `struct list_head`, and a list is the embedded node of some
object used as a head. The node type is therefore a parameter here, and each
subsystem brings an inductive type that names its embedded nodes.

The definitions perform the stores of the C functions one by one and in the C
order, reading each pointer from the heap as it stands at that moment. That is
what makes the aliased cases right without a case split: on an empty list the
head is its own neighbour, and the second store then overwrites the first.

`listDel` does not reset the node it takes off. The node keeps both pointers,
which the loops of the kernel rely on to step over an element they have just
removed, and which makes a second `listDel` of the same node an edit of
whatever its old neighbours have become.

## Main definitions

* `initList`: A node that is alone on its list.
* `listAdd`: Insert after the head.
* `listAddTail`: Insert before the head.
* `listDel`: Unlink a node from its neighbours.
* `listDelTail`: Unlink the last node.
* `isListEmpty`: The head points at itself.
* `listForEach`: The loop over a list.

## Theorems

* `listAdd_eq_link`, `listAddTail_eq_link`, `listDel_eq_link`, `listDelTail_eq_link`:
  Each edit in terms of `Links.link`.
* `rings_listAdd`, `rings_listAddTail`, `rings_listDel`: Each edit on a
  collection of rings.
* `isListEmpty_iff`: The emptiness test decides emptiness of the sequence.
* `listDel_next_self`: A removed node keeps its forward pointer.
* `listAdd_off`, `listAddTail_off`, `listDel_off`: Each edit leaves the nodes off
  its ring alone.
* `forward_listAddTail`: The walk after any node was added, also one that was on
  the list.
* `closed_listAdd`, `closed_listAddTail`, `closed_listDel`, `closed_initList`: Each
  edit on a closed set of nodes.
* `listAdd_outside`, `listAddTail_outside`, `listDel_outside`: Each edit leaves
  the nodes outside the set alone.
* `foldl_initList`: Initialising many nodes.
-/

namespace Mirros

variable {α : Type} [DecidableEq α]

/-- `init_list` -/
def initList (l : Links α) (list : α) : Links α :=
  (l.setNext list list).setPre list list

/-- `list_add`: the four stores, each reading the heap left by the last. -/
def listAdd (l : Links α) (head new : α) : Links α :=
  let l₁ := l.setPre (l.next head) new
  let l₂ := l₁.setNext new (l₁.next head)
  let l₃ := l₂.setPre new head
  l₃.setNext head new

/-- `list_add_tail` -/
def listAddTail (l : Links α) (head new : α) : Links α :=
  let l₁ := l.setNext (l.pre head) new
  let l₂ := l₁.setNext new head
  let l₃ := l₂.setPre new (l₂.pre head)
  l₃.setPre head new

/-- `list_del`: the neighbours are joined, the node itself is left as it is. -/
def listDel (l : Links α) (list : α) : Links α :=
  let l₁ := l.setPre (l.next list) (l.pre list)
  l₁.setNext (l₁.pre list) (l₁.next list)

/-- `list_del_tail`: the node in front of the last one becomes the last. -/
def listDelTail (l : Links α) (head : α) : Links α :=
  let l₁ := l.setNext (l.pre (l.pre head)) head
  l₁.setPre head (l₁.pre (l₁.pre head))

/-- `is_list_empty` -/
def isListEmpty (l : Links α) (head : α) : Bool :=
  l.next head = head

/-- The loop `list_for_each(head, list)` from the node it stands on: the nodes the body was
    run at, and the heap behind the loop. The next node is read after the body. -/
def listForEach (head : α) (body : Links α → α → Links α) :
    Nat → Links α → α → Option (List α × Links α)
  | 0, _, _ => none
  | fuel + 1, l, list =>
      if list = head then some ([], l)
      else
        let l := body l list
        (listForEach head body fuel l (l.next list)).map (fun r => (list :: r.1, r.2))

theorem listAdd_eq_link (l : Links α) (head new : α) :
    listAdd l head new = (l.link new (l.next head)).link head new := rfl

theorem listAddTail_eq_link (l : Links α) (head new : α) :
    listAddTail l head new = (l.link (l.pre head) new).link new head := rfl

theorem listDel_eq_link (l : Links α) (list : α) :
    listDel l list = l.link (l.pre list) (l.next list) := by
  -- The first store can hit the node's own `pre` only when it is alone, and
  -- then it writes back the value that was there.
  have hpre : (l.setPre (l.next list) (l.pre list)).pre list = l.pre list := by
    rw [Links.setPre_pre]
    by_cases h : list = l.next list
    · rw [if_pos h]
    · rw [if_neg h]
  unfold listDel
  simp only [hpre]
  rfl

theorem listDelTail_eq_link (l : Links α) (head : α) :
    listDelTail l head = l.link (l.pre (l.pre head)) head := rfl

theorem listDel_next_self (l : Links α) (list : α) (h : l.pre list ≠ list) :
    (listDel l list).next list = l.next list := by
  rw [listDel_eq_link, Links.link_next, if_neg (Ne.symm h)]

section

variable (l : Links α) (heads : Set α) (f : α → List α) (h n : α) (hr : Rings l heads f)
  (hh : h ∈ heads)

include hr hh

theorem rings_listAdd (hn : ∀ h' ∈ heads, n ∉ h' :: f h') :
    Rings (listAdd l h n) heads (Function.update f h (n :: f h)) := by
  rw [listAdd_eq_link]
  exact rings_push l heads f h n hr hh hn

theorem rings_listAddTail (hn : ∀ h' ∈ heads, n ∉ h' :: f h') :
    Rings (listAddTail l h n) heads (Function.update f h (f h ++ [n])) := by
  rw [listAddTail_eq_link]
  exact rings_append l heads f h n hr hh hn

theorem rings_listDel (hn : n ∈ f h) :
    Rings (listDel l n) heads (Function.update f h ((f h).erase n)) := by
  rw [listDel_eq_link]
  exact rings_remove l heads f h n hr hh hn

theorem isListEmpty_iff : isListEmpty l h = true ↔ f h = [] := by
  rw [isListEmpty, decide_eq_true_iff]
  exact ring_next_self_iff l h (f h) (hr.1 h hh)

end

section

variable (l : Links α) (h a : α) (xs : List α) (hr : Ring l h xs) (ha : a ∉ h :: xs)

include hr ha

theorem listAdd_off (n : α) (han : a ≠ n) :
    (listAdd l h n).next a = l.next a ∧ (listAdd l h n).pre a = l.pre a := by
  have hah : a ≠ h := fun hc => ha (hc ▸ List.mem_cons_self)
  have hax : a ≠ l.next h := fun hc => ha (hc ▸ ring_next_mem l h h xs hr List.mem_cons_self)
  rw [listAdd_eq_link, (link_other _ h n a hah han).1, (link_other _ h n a hah han).2]
  exact link_other l n (l.next h) a han hax

theorem listAddTail_off (n : α) (han : a ≠ n) :
    (listAddTail l h n).next a = l.next a ∧ (listAddTail l h n).pre a = l.pre a := by
  have hah : a ≠ h := fun hc => ha (hc ▸ List.mem_cons_self)
  have hax : a ≠ l.pre h := fun hc => ha (hc ▸ ring_pre_mem l h h xs hr List.mem_cons_self)
  rw [listAddTail_eq_link, (link_other _ n h a han hah).1, (link_other _ n h a han hah).2]
  exact link_other l (l.pre h) n a hax han

theorem listDel_off (n : α) (hn : n ∈ xs) :
    (listDel l n).next a = l.next a ∧ (listDel l n).pre a = l.pre a := by
  have hmem := List.mem_cons_of_mem h hn
  rw [listDel_eq_link]
  exact link_other l _ _ a (fun hc => ha (hc ▸ ring_pre_mem l h n xs hr hmem))
    (fun hc => ha (hc ▸ ring_next_mem l h n xs hr hmem))

end

/-- After `list_add_tail` of any node, the walk from the head ends with it. -/
theorem forward_listAddTail (l : Links α) (h n : α) (xs : List α) (hr : Ring l h xs)
    (hn : n ≠ h) :
    Forward (listAddTail l h n) (h :: (xs.takeWhile (fun c => c ≠ n) ++ [n]) ++ [h]) := by
  rw [listAddTail_eq_link]
  exact forward_append l h n xs hr hn

section

variable (l : Links α) (S : Set α) (hl : Closed l S)

include hl

theorem closed_listAdd (head new : α) (hh : head ∈ S) (hn : new ∈ S) :
    Closed (listAdd l head new) S := by
  rw [listAdd_eq_link]
  exact closed_link _ S head new (closed_link l S new _ hl hn (hl head hh).1) hh hn

theorem closed_listAddTail (head new : α) (hh : head ∈ S) (hn : new ∈ S) :
    Closed (listAddTail l head new) S := by
  rw [listAddTail_eq_link]
  exact closed_link _ S new head (closed_link l S _ new hl (hl head hh).2 hn) hn hh

theorem closed_listDel (list : α) (hn : list ∈ S) : Closed (listDel l list) S := by
  rw [listDel_eq_link]
  exact closed_link l S _ _ hl (hl list hn).2 (hl list hn).1

theorem listAdd_outside (head new x : α) (hh : head ∈ S) (hn : new ∈ S) (hx : x ∉ S) :
    (listAdd l head new).next x = l.next x ∧ (listAdd l head new).pre x = l.pre x := by
  rw [listAdd_eq_link, (link_outside _ S head new x hh hn hx).1,
    (link_outside _ S head new x hh hn hx).2]
  exact link_outside l S new _ x hn (hl head hh).1 hx

theorem listAddTail_outside (head new x : α) (hh : head ∈ S) (hn : new ∈ S) (hx : x ∉ S) :
    (listAddTail l head new).next x = l.next x ∧ (listAddTail l head new).pre x = l.pre x := by
  rw [listAddTail_eq_link, (link_outside _ S new head x hn hh hx).1,
    (link_outside _ S new head x hn hh hx).2]
  exact link_outside l S _ new x (hl head hh).2 hn hx

theorem listDel_outside (list x : α) (hn : list ∈ S) (hx : x ∉ S) :
    (listDel l list).next x = l.next x ∧ (listDel l list).pre x = l.pre x := by
  rw [listDel_eq_link]
  exact link_outside l S _ _ x (hl list hn).2 (hl list hn).1 hx

theorem closed_initList (list : α) : Closed (initList l list) (insert list S) := by
  intro n hn
  unfold initList
  rw [Links.setPre_next, Links.setNext_next, Links.setPre_pre, Links.setNext_pre]
  by_cases hnl : n = list
  · rw [if_pos hnl, if_pos hnl]
    exact ⟨Set.mem_insert _ _, Set.mem_insert _ _⟩
  · rw [if_neg hnl, if_neg hnl]
    have hnS := hl n (Set.mem_of_mem_insert_of_ne hn hnl)
    exact ⟨Set.mem_insert_of_mem _ hnS.1, Set.mem_insert_of_mem _ hnS.2⟩

end

theorem initList_next (l : Links α) (list x : α) :
    (initList l list).next x = if x = list then list else l.next x := by
  unfold initList
  rw [Links.setPre_next, Links.setNext_next]

theorem initList_pre (l : Links α) (list x : α) :
    (initList l list).pre x = if x = list then list else l.pre x := by
  unfold initList
  rw [Links.setPre_pre, Links.setNext_pre]

/-- Initialising many nodes, in whatever order. -/
theorem foldl_initList (ns : List α) (x : α) : ∀ l : Links α,
    (ns.foldl initList l).next x = (if x ∈ ns then x else l.next x) ∧
      (ns.foldl initList l).pre x = if x ∈ ns then x else l.pre x := by
  induction ns with
  | nil =>
      intro l
      simp only [List.foldl_nil, List.not_mem_nil, if_false, and_self]
  | cons n ns ih =>
      intro l
      rw [List.foldl_cons, (ih _).1, (ih _).2]
      unfold initList
      rw [Links.setPre_next, Links.setNext_next, Links.setPre_pre, Links.setNext_pre]
      by_cases hx : x = n
      · simp [hx]
      · simp [hx]

end Mirros
