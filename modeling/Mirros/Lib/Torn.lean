import Mathlib.Data.Set.Insert
import Mirros.Lib.Ring

/-!
# Rings Among Torn Lists

A heap of list nodes in which some lists are rings and others are not: a node that was
put on a second list without being taken off the first is still the successor of its
old neighbour. The rings survive an edit of the other lists as long as the edit is
local. A node may be unlinked when its neighbours know it, and may be linked in behind
a head whose first node knows the head.

Both conditions look at two pointers only. They are enough because no pointer leads out
of a ring, so a node that knows a node off the rings is off the rings too.

## Main definitions

* `ringNodes`: The nodes of a collection of rings.
* `LinkedBack`: The neighbours of a node know it.
* `HeadBack`: The first node behind a head knows the head.

## Theorems

* `rings_closed`: No pointer leads out of the rings.
* `rings_unlink`: Unlinking a node, on a ring or off the rings.
* `rings_linkFirst`: Linking a node in behind a head, of a ring or off the rings.
* `rings_reset`: Nodes that are made to point at themselves.
* `rings_alone`: Nodes that are alone are the heads of more rings.
-/

namespace Mirros

variable {α : Type}

/-- The nodes of a collection of rings. -/
def ringNodes (heads : Set α) (f : α → List α) : Set α :=
  { n | ∃ h ∈ heads, n ∈ h :: f h }

/-- The neighbours of the node know it. A node may be its own successor. -/
def LinkedBack (l : Links α) (n : α) : Prop :=
  l.next (l.pre n) = n ∧ (l.next n = n ∨ l.pre (l.next n) = n)

/-- The first node behind the head knows the head, or is the node itself. -/
def HeadBack (l : Links α) (head n : α) : Prop :=
  l.next head = n ∨ l.pre (l.next head) = head

instance [DecidableEq α] (l : Links α) (n : α) : Decidable (LinkedBack l n) :=
  inferInstanceAs (Decidable (_ ∧ _))

instance [DecidableEq α] (l : Links α) (head n : α) : Decidable (HeadBack l head n) :=
  inferInstanceAs (Decidable (_ ∨ _))

/-- Some of the rings. -/
theorem rings_subset (l : Links α) (heads heads' : Set α) (f : α → List α)
    (hsub : heads' ⊆ heads) (hr : Rings l heads f) : Rings l heads' f :=
  ⟨fun h hh => hr.1 h (hsub hh), fun h hh h' hh' => hr.2 h (hsub hh) h' (hsub hh')⟩

/-- A walk that starts in a closed set of nodes stays there. -/
theorem closed_iterate (l : Links α) (S : Set α) (hc : Closed l S) (n : α) (hn : n ∈ S) :
    ∀ k, l.next^[k] n ∈ S := by
  intro k
  induction k with
  | zero => exact hn
  | succ k ih =>
      rw [Function.iterate_succ_apply']
      exact (hc _ ih).1

/-- A walk along a list comes by every node of it. -/
theorem forward_reaches (l : Links α) (z n : α) (xs : List α) : ∀ a : α,
    Forward l (a :: xs ++ [z]) → n ∈ xs → ∃ k, l.next^[k] a = n := by
  induction xs with
  | nil => exact fun a _ hn => absurd hn List.not_mem_nil
  | cons x xs ih =>
      intro a h hn
      rcases List.isChain_cons_cons.mp h with ⟨hax, hrest⟩
      rcases List.mem_cons.mp hn with hn | hn
      · exact ⟨1, hax.trans hn.symm⟩
      · rcases ih x hrest hn with ⟨k, hk⟩
        refine ⟨k + 1, ?_⟩
        rw [Function.iterate_succ_apply, hax]
        exact hk

section

variable (l : Links α) (heads : Set α) (f : α → List α) (hr : Rings l heads f)

include hr

/-- No pointer leads out of the rings. -/
theorem rings_closed : Closed l (ringNodes heads f) := by
  rintro n ⟨h, hh, hn⟩
  exact ⟨⟨h, hh, ring_next_mem l h n (f h) (hr.1 h hh) hn⟩,
    ⟨h, hh, ring_pre_mem l h n (f h) (hr.1 h hh) hn⟩⟩

/-- A walk along a list that is a ring meets its nodes only. -/
theorem rings_walk (h n : α) (hh : h ∈ heads) (k : Nat) (hk : l.next^[k] h = n) :
    n ∈ h :: f h := by
  have hclosed : Closed l { m | m ∈ h :: f h } := fun m hm =>
    ⟨ring_next_mem l h m (f h) (hr.1 h hh) hm, ring_pre_mem l h m (f h) (hr.1 h hh) hm⟩
  rw [← hk]
  exact closed_iterate l _ hclosed h List.mem_cons_self k

/-- Nodes that are made to point at themselves: a head among them has an empty ring. -/
theorem rings_reset (l' : Links α) (N : Set α) [DecidablePred (· ∈ N)]
    (hin : ∀ n ∈ N, l'.next n = n ∧ l'.pre n = n)
    (hout : ∀ n ∉ N, l'.next n = l.next n ∧ l'.pre n = l.pre n)
    (hmem : ∀ h ∈ heads, ∀ m ∈ f h, m ∉ N) :
    Rings l' heads (fun h => if h ∈ N then [] else f h) := by
  have hsub : ∀ h n, n ∈ h :: (if h ∈ N then [] else f h) → n ∈ h :: f h := by
    intro h n hn
    by_cases hN : h ∈ N
    · rw [if_pos hN, List.mem_singleton] at hn
      rw [hn]
      exact List.mem_cons_self
    · rw [if_neg hN] at hn
      exact hn
  refine ⟨fun h hh => ?_, fun h hh h' hh' hne n hn hn' => ?_⟩
  · by_cases hN : h ∈ N
    · simp only [if_pos hN]
      refine ⟨List.nodup_singleton h, ?_⟩
      exact List.isChain_cons_cons.mpr ⟨hin h hN, List.isChain_singleton h⟩
    · simp only [if_neg hN]
      apply ring_congr l l' h (f h) _ (hr.1 h hh)
      intro n hn
      apply hout
      rcases List.mem_cons.mp hn with hn | hn
      · rw [hn]
        exact hN
      · exact hmem h hh n hn
  · exact hr.2 h hh h' hh' hne n (hsub h n hn) (hsub h' n hn')

variable [DecidableEq α]

/-- An edit between nodes off the rings. -/
theorem rings_link_off (a b : α) (ha : a ∉ ringNodes heads f) (hb : b ∉ ringNodes heads f) :
    Rings (l.link a b) heads f := by
  apply rings_congr l _ heads f _ hr
  intro h hh n hn
  have hring : n ∈ ringNodes heads f := ⟨h, hh, hn⟩
  exact link_other l a b n (fun hc => ha (hc ▸ hring)) (fun hc => hb (hc ▸ hring))

/-- Unlinking a node that is no head. Off the rings its neighbours have to know it. -/
theorem rings_unlink (n : α) (hhead : n ∉ heads)
    (hback : n ∉ ringNodes heads f → LinkedBack l n) :
    ∃ g, Rings (l.link (l.pre n) (l.next n)) heads g ∧ n ∉ ringNodes heads g ∧
      ∀ h ∈ heads, ∀ m ∈ g h, m ∈ f h := by
  by_cases hn : n ∈ ringNodes heads f
  · rcases hn with ⟨h, hh, hn⟩
    have hnh : n ≠ h := fun hc => hhead (hc ▸ hh)
    have hmem : n ∈ f h := List.mem_of_ne_of_mem hnh hn
    have hnd := (List.nodup_cons.mp (hr.1 h hh).1).2
    refine ⟨_, rings_remove l heads f h n hr hh hmem, ?_, fun h' _ m hm => ?_⟩
    · rintro ⟨h', hh', hn'⟩
      by_cases heq : h' = h
      · rw [heq, Function.update_self] at hn'
        exact (hnd.mem_erase_iff.mp (List.mem_of_ne_of_mem hnh hn')).1 rfl
      · rw [Function.update_of_ne heq] at hn'
        exact hr.2 h hh h' hh' (Ne.symm heq) n (List.mem_cons_of_mem h hmem) hn'
    · by_cases heq : h' = h
      · rw [heq, Function.update_self] at hm
        rw [heq]
        exact List.mem_of_mem_erase hm
      · rw [Function.update_of_ne heq] at hm
        exact hm
  · -- Neighbours on a ring would know a node of the ring.
    rcases hback hn with ⟨hpre, hnext⟩
    have hclosed := rings_closed l heads f hr
    refine ⟨f, rings_link_off l heads f hr _ _ (fun hc => hn ?_) (fun hc => hn ?_), hn,
      fun _ _ _ hm => hm⟩
    · rw [← hpre]
      exact (hclosed _ hc).1
    · rcases hnext with hnext | hnext
      · rw [← hnext]
        exact hc
      · rw [← hnext]
        exact (hclosed _ hc).2

/-- Linking in a node that is on no ring, behind a head of a ring, or behind a node off
    the rings that its first node knows. -/
theorem rings_linkFirst (head n : α) (hn : n ∉ ringNodes heads f)
    (hhead : head ∈ heads ∨ head ∉ ringNodes heads f ∧ HeadBack l head n) :
    ∃ g, Rings ((l.link n (l.next head)).link head n) heads g ∧
      (∀ h ∈ heads, ∀ m ∈ g h, m ∈ f h ∨ m = n ∧ h = head) ∧
      (head ∈ heads → g = Function.update f head (n :: f head)) := by
  rcases hhead with hhead | ⟨hoff, hback⟩
  · refine ⟨_, rings_push l heads f head n hr hhead (fun h hh hm => hn ⟨h, hh, hm⟩),
      fun h _ m hm => ?_, fun _ => rfl⟩
    by_cases heq : h = head
    · rw [heq, Function.update_self] at hm
      rcases List.mem_cons.mp hm with hm | hm
      · exact Or.inr ⟨hm, heq⟩
      · rw [heq]
        exact Or.inl hm
    · rw [Function.update_of_ne heq] at hm
      exact Or.inl hm
  · have hnext : l.next head ∉ ringNodes heads f := by
      intro hc
      rcases hback with hback | hback
      · exact hn (hback ▸ hc)
      · exact hoff (hback ▸ (rings_closed l heads f hr _ hc).2)
    have hr₁ := rings_link_off l heads f hr n (l.next head) hn hnext
    exact ⟨f, rings_link_off _ heads f hr₁ head n hoff hn, fun _ _ _ hm => Or.inl hm,
      fun hc => absurd ⟨head, hc, List.mem_cons_self⟩ hoff⟩

end

/-- Nodes that are alone are the heads of more rings. -/
theorem rings_alone (l : Links α) (heads : Set α) (f : α → List α) (N : Set α)
    [DecidablePred (· ∈ N)] (hr : Rings l heads f) (hoff : ∀ n ∈ N, n ∉ ringNodes heads f)
    (hself : ∀ n ∈ N, l.next n = n ∧ l.pre n = n) :
    Rings l (N ∪ heads) (fun n => if n ∈ N then [] else f n) := by
  have hnot : ∀ n ∈ heads, n ∉ N := fun n hn hc => hoff n hc ⟨n, hn, List.mem_cons_self⟩
  refine ⟨fun n hn => ?_, fun n hn n' hn' hne m hm hm' => ?_⟩
  · by_cases hN : n ∈ N
    · simp only [if_pos hN]
      refine ⟨List.nodup_singleton n, ?_⟩
      exact List.isChain_cons_cons.mpr ⟨hself n hN, List.isChain_singleton n⟩
    · simp only [if_neg hN]
      exact hr.1 n (hn.resolve_left hN)
  · simp only at hm hm'
    rcases hn with hn | hn <;> rcases hn' with hn' | hn'
    · rw [if_pos hn, List.mem_singleton] at hm
      rw [if_pos hn', List.mem_singleton] at hm'
      exact hne (hm.symm.trans hm')
    · rw [if_pos hn, List.mem_singleton] at hm
      rw [if_neg (hnot n' hn')] at hm'
      exact hoff n hn ⟨n', hn', hm ▸ hm'⟩
    · rw [if_pos hn', List.mem_singleton] at hm'
      rw [if_neg (hnot n hn)] at hm
      exact hoff n' hn' ⟨n, hn, hm' ▸ hm⟩
    · rw [if_neg (hnot n hn)] at hm
      rw [if_neg (hnot n' hn')] at hm'
      exact hr.2 n hn n' hn' hne m hm hm'

end Mirros
