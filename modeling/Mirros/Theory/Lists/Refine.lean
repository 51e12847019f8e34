import Mathlib.Data.Fin.VecNotation
import Mirros.Core.List

/-!
# Lists as Sequences

What the functions of `include/os/list.h` do to the sequences on the heads, for any heap
that holds any number of lists. The lists have no node in common; which other objects the
nodes are embedded in does not matter.

Each edit changes the sequence on one head and leaves the sequences on all other heads
alone. That the other lists keep their sequences is part of each result, because the lists
are given as one collection.

`list_for_each` reads the next node after its body has run, and from the node the body was
run at. This is right when the body takes that node off the list, because `list_del` does
not write the node it takes off.

## Main definitions

* `delBody`: A body that takes some of the nodes off.
* `ActsAsSequence`: What the functions do to the sequence on a head.

## Theorems

* `rings_listDelTail`: `list_del_tail` drops the last element.
* `listForEach_visits`: The loop meets the sequence in order.
* `lists_refine`: The lists of every heap act as sequences.
-/

namespace Mirros

variable {α : Type} [DecidableEq α]

/-- A body that calls `list_del` for some of the nodes it is run at. -/
def delBody (drop : α → Bool) (l : Links α) (list : α) : Links α :=
  if drop list then listDel l list else l

section

variable (l : Links α) (heads : Set α) (f : α → List α) (h : α) (hr : Rings l heads f)
  (hh : h ∈ heads)

include hr hh

/-- On an empty list, `list_del_tail` stores what is there. -/
theorem listDelTail_nil (hf : f h = []) : listDelTail l h = l := by
  have hring := hr.1 h hh
  rw [hf] at hring
  have hnext : l.next h = h := ring_next_head l h [] hring
  have hpre : l.pre h = h := ring_pre_head l h [] hring
  rw [listDelTail_eq_link, hpre, hpre]
  unfold Links.link
  rw [Function.update_eq_self_iff.mpr hnext.symm, Function.update_eq_self_iff.mpr hpre.symm]

/-- On any other list it is `list_del` of the last node. -/
theorem listDelTail_concat (ys : List α) (y : α) (hf : f h = ys ++ [y]) :
    listDelTail l h = listDel l y := by
  have hring := hr.1 h hh
  rw [hf] at hring
  have hlast : l.pre h = y := by
    rw [ring_pre_head l h _ hring, List.getLastD_concat]
  have hnext : l.next y = h := (ring_split l h y ys [] hring).2
  rw [listDelTail_eq_link, listDel_eq_link, hlast, hnext]

theorem rings_listDelTail :
    Rings (listDelTail l h) heads (Function.update f h (f h).dropLast) := by
  rcases List.eq_nil_or_concat (f h) with hf | ⟨ys, y, hf⟩
  · rw [listDelTail_nil l heads f h hr hh hf, hf, List.dropLast_nil, ← hf, Function.update_eq_self]
    exact hr
  · rw [List.concat_eq_append] at hf
    have hmem : y ∈ f h := by
      rw [hf]
      exact List.mem_append_right ys List.mem_cons_self
    have hy : y ∉ ys := by
      have hnd := (List.nodup_cons.mp (hr.1 h hh).1).2
      rw [hf] at hnd
      exact fun hc => (List.nodup_append.mp hnd).2.2 y hc y List.mem_cons_self rfl
    have hdel := rings_listDel l heads f h y hr hh hmem
    rw [listDelTail_concat l heads f h hr hh ys y hf, hf, List.dropLast_concat]
    rw [hf, List.erase_append_right _ hy, List.erase_cons_head, List.append_nil] at hdel
    exact hdel

/-- A node that was taken off still points at the one behind it. -/
theorem listDel_keeps_next (n : α) (hn : n ∈ f h) : (listDel l n).next n = l.next n :=
  listDel_next_self l n (ring_neighbours_ne l h n (f h) (hr.1 h hh) hn).2

/-- What is behind a node of a list, and the list without the node. -/
theorem rings_split (n : α) (p q : List α) (hf : f h = p ++ n :: q) :
    l.next n = q.headD h ∧ n ≠ h ∧ (f h).erase n = p ++ q := by
  have hring := hr.1 h hh
  rw [hf] at hring
  have hnd := List.nodup_cons.mp hring.1
  have hp : n ∉ p := fun hc => (List.nodup_append.mp hnd.2).2.2 n hc n List.mem_cons_self rfl
  refine ⟨(ring_split l h n p q hring).2, fun hc => ?_, ?_⟩
  · exact hnd.1 (hc ▸ List.mem_append_right p List.mem_cons_self)
  · rw [hf, List.erase_append_right _ hp, List.erase_cons_head]

end

/-- The loop from somewhere in the sequence: the nodes in front are the ones the body left,
    and the body is run at all the others. -/
theorem listForEach_visits (heads : Set α) (h : α) (hh : h ∈ heads) (drop : α → Bool)
    (q : List α) : ∀ (l : Links α) (f : α → List α) (p : List α), Rings l heads f →
      f h = p ++ q → ∃ l', listForEach h (delBody drop) (q.length + 1) l (q.headD h)
          = some (q, l') ∧
        Rings l' heads (Function.update f h (p ++ q.filter (fun n => !drop n))) := by
  induction q with
  | nil =>
      intro l f p hr hf
      refine ⟨l, if_pos rfl, ?_⟩
      rw [List.filter_nil, ← hf, Function.update_eq_self]
      exact hr
  | cons n q ih =>
      intro l f p hr hf
      rcases rings_split l heads f h hr hh n p q hf with ⟨hnext, hne, herase⟩
      have hmem : n ∈ f h := by
        rw [hf]
        exact List.mem_append_right p List.mem_cons_self
      rw [List.length_cons, listForEach, List.headD_cons, if_neg hne]
      unfold delBody
      by_cases hdrop : drop n = true
      · -- The node is taken off and still points at the rest.
        have hdel := rings_listDel l heads f h n hr hh hmem
        rw [herase] at hdel
        rcases ih (listDel l n) _ p hdel (Function.update_self h _ f) with ⟨l', hrun, hrings⟩
        rw [Function.update_idem] at hrings
        refine ⟨l', ?_, ?_⟩
        · simp only [if_pos hdrop]
          rw [listDel_keeps_next l heads f h hr hh n hmem, hnext]
          unfold delBody at hrun
          rw [hrun, Option.map_some]
        · rw [List.filter_cons_of_neg (by rw [hdrop]; exact Bool.false_ne_true)]
          exact hrings
      · rcases ih l f (p ++ [n]) hr (by rw [hf, List.append_assoc, List.singleton_append]) with
          ⟨l', hrun, hrings⟩
        refine ⟨l', ?_, ?_⟩
        · simp only [if_neg hdrop]
          unfold delBody at hrun
          rw [hnext, hrun, Option.map_some]
        · rw [List.filter_cons_of_pos (by rw [Bool.not_eq_true', ← Bool.not_eq_true]; exact hdrop)]
          rw [List.append_assoc, List.singleton_append] at hrings
          exact hrings

/-- The functions act on the list of the head as on its sequence, and leave the sequences on
    all other heads as they are. -/
structure ActsAsSequence (l : Links α) (heads : Set α) (f : α → List α) (h : α) : Prop where
  add : ∀ n, (∀ h' ∈ heads, n ∉ h' :: f h') →
    Rings (listAdd l h n) heads (Function.update f h (n :: f h))
  addTail : ∀ n, (∀ h' ∈ heads, n ∉ h' :: f h') →
    Rings (listAddTail l h n) heads (Function.update f h (f h ++ [n]))
  del : ∀ n ∈ f h, Rings (listDel l n) heads (Function.update f h ((f h).erase n)) ∧
    (listDel l n).next n = l.next n
  delTail : Rings (listDelTail l h) heads (Function.update f h (f h).dropLast)
  delTailNil : f h = [] → listDelTail l h = l
  empty : isListEmpty l h = true ↔ f h = []
  forEach : ∀ drop : α → Bool, ∃ l',
    listForEach h (delBody drop) ((f h).length + 1) l (l.next h) = some (f h, l') ∧
      Rings l' heads (Function.update f h ((f h).filter (fun n => !drop n)))

/-- In every heap, the lists of every collection without common nodes act as sequences. -/
theorem lists_refine (l : Links α) (heads : Set α) (f : α → List α) (hr : Rings l heads f) (h : α)
    (hh : h ∈ heads) : ActsAsSequence l heads f h := by
  refine ⟨fun n hn => rings_listAdd l heads f h n hr hh hn,
    fun n hn => rings_listAddTail l heads f h n hr hh hn, fun n hn => ⟨?_, ?_⟩,
    rings_listDelTail l heads f h hr hh, listDelTail_nil l heads f h hr hh,
    isListEmpty_iff l heads f h hr hh, fun drop => ?_⟩
  · exact rings_listDel l heads f h n hr hh hn
  · exact listDel_keeps_next l heads f h hr hh n hn
  · rw [ring_next_head l h (f h) (hr.1 h hh)]
    exact listForEach_visits heads h hh drop (f h) l f [] hr rfl

/-- Two lists, one of two nodes and one that is empty. -/
theorem lists_refine_two :
    ActsAsSequence (α := Fin 4) ⟨![1, 2, 0, 3], ![2, 0, 1, 3]⟩ {0, 3} ![[1, 2], [], [], []] 0 := by
  refine lists_refine _ _ _ ⟨?_, ?_⟩ 0 (Set.mem_insert _ _)
  · rintro h (rfl | rfl)
    · decide
    · decide
  · rintro h (rfl | rfl) h' (rfl | rfl)
    · decide
    · decide
    · decide
    · decide

end Mirros
