import Mathlib.Data.List.Chain
import Mathlib.Data.List.Nodup
import Mathlib.Logic.Function.Basic

/-!
# Circular Doubly Linked Lists

Two pointer fields per node and nothing else: a `Links` value is a heap of
`next` and `pre` pointers over an arbitrary node type. There is no separate
list object. A list is a node that happens to be its head, together with
whatever the pointers say comes after it.

`Ring l h xs` says that the pointers describe the sequence `xs` hanging on the
head `h`: no node repeats, every node's successor points back at it, and the
last one closes the circle. The chain is written `h :: xs ++ [h]`, with the
head at both ends, so that inserting next to the head is the same edit as
inserting anywhere else.

Every edit is made of one primitive, `link a b`, which makes `b` follow `a`.
Inserting a node is two links around it and removing one is a single link
across it. `ring_insert` and `ring_remove` are those two edits on one ring,
stated for a split of the sequence.

A heap holds many rings at once and an edit must not be allowed to disturb the
others. `Rings l heads f` collects them: `f` gives the sequence of each head,
and no node stands on two of them. The edits are restated for the collection,
where the frame condition is part of the result rather than a side proof:
`rings_push`, `rings_append`, `rings_remove` change `f` at one head only.

Some pointers do not describe rings, because a node was put on a second list
while it was on a first one. What is left to say about them is which nodes they
can reach at all: `Closed l S` says that no pointer of a node of `S` leaves `S`.

## Main definitions

* `Links`: A heap of forward and backward pointers.
* `Links.link`: Make one node follow another.
* `Linked`: Consecutive nodes point at each other.
* `Forward`: Each node points at the next one.
* `Ring`: The pointers describe a sequence hanging on a head.
* `Rings`: A collection of rings with no node in common.
* `Closed`: A set of nodes no pointer leaves.

## Theorems

* `ring_congr`: A ring only depends on the pointers of its own nodes.
* `ring_next_head`: The head points at the first node.
* `ring_pre_head`: The head points back at the last node.
* `ring_next_self_iff`: The head points at itself exactly when the ring is
  empty.
* `ring_forward`, `ring_unique`: A head has one sequence only, the one the walk
  along the forward pointers meets.
* `forward_append`: The walk after any node was put at the back, also one that
  was on the ring.
* `ring_insert`: Linking a fresh node into a ring.
* `ring_remove`: Linking across a node of a ring.
* `ring_next_mem`: The successor of a node of the ring is on the ring.
* `ring_pre_mem`: The predecessor of a node of the ring is on the ring.
* `ring_neighbours_ne`: The neighbours of a node of the ring are other nodes.
* `rings_congr`: A collection only depends on the pointers of its nodes.
* `rings_push`: Linking a fresh node in at the front of one ring.
* `rings_append`: Linking a fresh node in at the back of one ring.
* `rings_remove`: Linking across a node of one ring.
* `closed_link`: An edit inside a closed set keeps it closed.
* `link_outside`: An edit inside a set leaves the nodes outside alone.
-/

namespace Mirros

/-- A heap of list nodes: the two pointer fields of every node. -/
structure Links (α : Type) where
  next : α → α
  pre : α → α

namespace Links

variable {α : Type} [DecidableEq α]

/-- Store a forward pointer. -/
def setNext (l : Links α) (a b : α) : Links α :=
  { l with next := Function.update l.next a b }

/-- Store a backward pointer. -/
def setPre (l : Links α) (a b : α) : Links α :=
  { l with pre := Function.update l.pre a b }

/-- Make `b` follow `a`, writing both pointers between them. -/
def link (l : Links α) (a b : α) : Links α :=
  { next := Function.update l.next a b, pre := Function.update l.pre b a }

@[simp] theorem setNext_next (l : Links α) (a b c : α) :
    (l.setNext a b).next c = if c = a then b else l.next c := by
  simp only [setNext, Function.update_apply]

@[simp] theorem setNext_pre (l : Links α) (a b : α) : (l.setNext a b).pre = l.pre := rfl

@[simp] theorem setPre_next (l : Links α) (a b : α) : (l.setPre a b).next = l.next := rfl

@[simp] theorem setPre_pre (l : Links α) (a b c : α) :
    (l.setPre a b).pre c = if c = a then b else l.pre c := by
  simp only [setPre, Function.update_apply]

@[simp] theorem link_next (l : Links α) (a b c : α) :
    (l.link a b).next c = if c = a then b else l.next c := by
  simp only [link, Function.update_apply]

@[simp] theorem link_pre (l : Links α) (a b c : α) :
    (l.link a b).pre c = if c = b then a else l.pre c := by
  simp only [link, Function.update_apply]

end Links

variable {α : Type}

/-- Consecutive nodes of the sequence point at each other. -/
def Linked (l : Links α) (xs : List α) : Prop :=
  xs.IsChain (fun a b => l.next a = b ∧ l.pre b = a)

/-- The pointers describe the sequence `xs` on the head `h`. -/
def Ring (l : Links α) (h : α) (xs : List α) : Prop :=
  (h :: xs).Nodup ∧ Linked l (h :: xs ++ [h])

instance [DecidableEq α] (l : Links α) (xs : List α) : Decidable (Linked l xs) :=
  inferInstanceAs (Decidable (List.IsChain _ _))

instance [DecidableEq α] (l : Links α) (h : α) (xs : List α) : Decidable (Ring l h xs) :=
  inferInstanceAs (Decidable (_ ∧ _))

theorem ring_congr (l l' : Links α) (h : α) (xs : List α)
    (hagree : ∀ a ∈ h :: xs, l'.next a = l.next a ∧ l'.pre a = l.pre a)
    (hr : Ring l h xs) : Ring l' h xs := by
  refine ⟨hr.1, hr.2.imp_of_mem_imp (fun a b ha hb hab => ?_)⟩
  -- The closing head occurs twice in the chain but is the same node.
  have hmem : ∀ c ∈ h :: xs ++ [h], c ∈ h :: xs := by
    intro c hc
    simp only [List.cons_append, List.mem_cons, List.mem_append, List.not_mem_nil,
      or_false] at hc ⊢
    tauto
  rw [(hagree a (hmem a ha)).1, (hagree b (hmem b hb)).2]
  exact hab

/-- The two ends of a seam between two halves of a chain. -/
theorem linked_append (l : Links α) (u v : List α) (a b : α) :
    Linked l (u ++ a :: b :: v) ↔ Linked l (u ++ [a]) ∧ (l.next a = b ∧ l.pre b = a) ∧
      Linked l (b :: v) :=
  List.isChain_append_cons_cons

theorem ring_next_head (l : Links α) (h : α) (xs : List α) (hr : Ring l h xs) :
    l.next h = xs.headD h := by
  cases xs with
  | nil => exact (List.isChain_cons_cons.mp hr.2).1.1
  | cons x xs => exact (List.isChain_cons_cons.mp hr.2).1.1

theorem ring_pre_head (l : Links α) (h : α) (xs : List α) (hr : Ring l h xs) :
    l.pre h = xs.getLastD h := by
  rcases List.eq_nil_or_concat xs with rfl | ⟨ys, y, rfl⟩
  · exact (List.isChain_cons_cons.mp hr.2).1.2
  · have hch : Linked l ((h :: ys) ++ y :: h :: []) := by
      have := hr.2
      simpa only [List.concat_eq_append, List.cons_append, List.append_assoc,
        List.nil_append] using this
    rw [((linked_append l _ _ _ _).mp hch).2.1.2, List.concat_eq_append, List.getLastD_concat]

theorem ring_next_self_iff (l : Links α) (h : α) (xs : List α) (hr : Ring l h xs) :
    l.next h = h ↔ xs = [] := by
  rw [ring_next_head l h xs hr]
  cases xs with
  | nil => simp only [List.headD_nil]
  | cons x xs =>
      simp only [List.headD_cons, reduceCtorEq, iff_false]
      rintro rfl
      exact (List.nodup_cons.mp hr.1).1 List.mem_cons_self

/-- Each node of the sequence points forward at the next one. -/
def Forward (l : Links α) (xs : List α) : Prop :=
  xs.IsChain (fun a b => l.next a = b)

theorem forward_of_linked (l : Links α) (xs : List α) (h : Linked l xs) : Forward l xs :=
  h.imp (fun _ _ hab => hab.1)

/-- A walk goes on behind another first node that points at the same place. -/
theorem forward_skip (l l' : Links α) (z : α) (ys : List α) : ∀ a x : α,
    Forward l (x :: ys ++ [z]) → l'.next a = l.next x → (∀ y ∈ ys, l'.next y = l.next y) →
      Forward l' (a :: ys ++ [z]) := by
  induction ys with
  | nil =>
      intro a x h ha _
      have hxz := (List.isChain_cons_cons.mp h).1
      exact List.isChain_cons_cons.mpr ⟨ha.trans hxz, List.isChain_singleton z⟩
  | cons y ys ih =>
      intro a x h ha hys
      rcases List.isChain_cons_cons.mp h with ⟨hxy, hrest⟩
      refine List.isChain_cons_cons.mpr ⟨ha.trans hxy, ?_⟩
      exact ih y y hrest (hys y List.mem_cons_self) (fun b hb => hys b (List.mem_cons_of_mem y hb))

/-- Two walks along the forward pointers from one node to the head meet the same
    nodes. -/
theorem forward_unique (l : Links α) (h : α) (xs ys : List α) (a : α)
    (hx : Forward l (a :: xs ++ [h])) (hy : Forward l (a :: ys ++ [h])) (hhx : h ∉ xs)
    (hhy : h ∉ ys) : xs = ys := by
  -- Whichever list ends first has the head as its next node, which is in neither.
  induction xs generalizing a ys with
  | nil =>
      have hah := (List.isChain_cons_cons.mp hx).1
      cases ys with
      | nil => rfl
      | cons y ys =>
          have hay := (List.isChain_cons_cons.mp hy).1
          exact absurd (hah.symm.trans hay ▸ List.mem_cons_self) hhy
  | cons x xs ih =>
      have hax := (List.isChain_cons_cons.mp hx).1
      cases ys with
      | nil =>
          have hah := (List.isChain_cons_cons.mp hy).1
          exact absurd (hah.symm.trans hax ▸ List.mem_cons_self) hhx
      | cons y ys =>
          have hay := (List.isChain_cons_cons.mp hy).1
          rw [hax] at hay
          subst hay
          rw [ih ys x (List.isChain_cons_cons.mp hx).2 (List.isChain_cons_cons.mp hy).2
            (fun hm => hhx (List.mem_cons_of_mem x hm)) (fun hm => hhy (List.mem_cons_of_mem x hm))]

/-- The sequence of a ring is what the forward walk from its head meets. -/
theorem ring_forward (l : Links α) (h : α) (xs ys : List α) (hx : Forward l (h :: xs ++ [h]))
    (hhx : h ∉ xs) (hy : Ring l h ys) : ys = xs :=
  forward_unique l h ys xs h (forward_of_linked l _ hy.2) hx (List.nodup_cons.mp hy.1).1 hhx

/-- The pointers describe one sequence on a head only. -/
theorem ring_unique (l : Links α) (h : α) (xs ys : List α) (hx : Ring l h xs) (hy : Ring l h ys) :
    xs = ys :=
  ring_forward l h ys xs (forward_of_linked l _ hy.2) (List.nodup_cons.mp hy.1).1 hx

/-- The node before and the node after a member, with the ring split there. -/
theorem ring_split (l : Links α) (h x : α) (p q : List α) (hr : Ring l h (p ++ x :: q)) :
    l.pre x = p.getLastD h ∧ l.next x = q.headD h := by
  have hch : Linked l ((h :: p) ++ x :: (q ++ [h])) := by
    simpa only [List.cons_append, List.append_assoc] using hr.2
  constructor
  · -- The node before is the last of `p`, or the head.
    rcases List.eq_nil_or_concat p with rfl | ⟨ys, y, rfl⟩
    · exact (List.isChain_cons_cons.mp hch).1.2
    · rw [List.concat_eq_append, ← List.cons_append, List.append_assoc] at hch
      rw [List.concat_eq_append, List.getLastD_concat]
      exact ((linked_append l _ _ _ _).mp hch).2.1.2
  · -- The node after is the first of `q`, or the head.
    cases q with
    | nil => exact ((linked_append l _ _ _ _).mp hch).2.1.1
    | cons y ys => exact ((linked_append l _ _ _ _).mp hch).2.1.1

theorem headD_mem (h : α) (q : List α) : q.headD h ∈ h :: q := by
  cases q with
  | nil => exact List.mem_cons_self
  | cons y ys => exact List.mem_cons_of_mem _ List.mem_cons_self

theorem getLastD_mem (h : α) (p : List α) : p.getLastD h ∈ h :: p := by
  rcases List.eq_nil_or_concat p with rfl | ⟨ys, y, rfl⟩
  · exact List.mem_cons_self
  · rw [List.concat_eq_append, List.getLastD_concat]
    simp only [List.mem_cons, List.mem_append, List.not_mem_nil, or_false, or_true]

theorem ring_next_mem (l : Links α) (h x : α) (xs : List α) (hr : Ring l h xs)
    (hx : x ∈ h :: xs) : l.next x ∈ h :: xs := by
  rcases List.mem_cons.mp hx with rfl | hx
  · rw [ring_next_head l x xs hr]
    exact headD_mem x xs
  · rcases List.append_of_mem hx with ⟨p, q, rfl⟩
    rw [(ring_split l h x p q hr).2]
    have := headD_mem h q
    simp only [List.mem_cons, List.mem_append] at this ⊢
    tauto

theorem ring_pre_mem (l : Links α) (h x : α) (xs : List α) (hr : Ring l h xs)
    (hx : x ∈ h :: xs) : l.pre x ∈ h :: xs := by
  rcases List.mem_cons.mp hx with rfl | hx
  · rw [ring_pre_head l x xs hr]
    exact getLastD_mem x xs
  · rcases List.append_of_mem hx with ⟨p, q, rfl⟩
    rw [(ring_split l h x p q hr).1]
    have := getLastD_mem h p
    simp only [List.mem_cons, List.mem_append] at this ⊢
    tauto

/-- A node of a ring is not its own neighbour: the head is there too. -/
theorem ring_neighbours_ne (l : Links α) (h x : α) (xs : List α) (hr : Ring l h xs) (hx : x ∈ xs) :
    l.next x ≠ x ∧ l.pre x ≠ x := by
  rcases List.append_of_mem hx with ⟨p, q, rfl⟩
  -- The neighbours are members of the halves, or the head.
  have hnd := List.nodup_cons.mp hr.1
  have happ := List.nodup_append.mp hnd.2
  have hhx : h ≠ x := fun hc => hnd.1 (hc ▸ hx)
  rw [(ring_split l h x p q hr).1, (ring_split l h x p q hr).2]
  constructor
  · intro hc
    have hmem := headD_mem h q
    rw [hc] at hmem
    rcases List.mem_cons.mp hmem with hc' | hc'
    · exact hhx hc'.symm
    · exact (List.nodup_cons.mp happ.2.1).1 hc'
  · intro hc
    have hmem := getLastD_mem h p
    rw [hc] at hmem
    rcases List.mem_cons.mp hmem with hc' | hc'
    · exact hhx hc'.symm
    · exact happ.2.2 x hc' x List.mem_cons_self rfl

theorem head?_closed (h : α) (q : List α) : (q ++ [h]).head? = some (q.headD h) := by
  cases q with
  | nil => rfl
  | cons y ys => rfl

/-- Cutting the chain of a ring after the prefix `p` leaves a seam between its
    last node and the first node of the rest. -/
theorem linked_cut (l : Links α) (h : α) (p q : List α) :
    Linked l (h :: (p ++ q) ++ [h]) ↔ Linked l (h :: p) ∧
      (l.next (p.getLastD h) = q.headD h ∧ l.pre (q.headD h) = p.getLastD h) ∧
      Linked l (q ++ [h]) := by
  -- The chain is cut between the two lists.
  have hassoc : h :: (p ++ q) ++ [h] = (h :: p) ++ (q ++ [h]) := by
    simp only [List.cons_append, List.append_assoc]
  have hlast : (h :: p).getLast? = some (p.getLastD h) := by
    rw [List.getLast?_cons, List.getLastD_eq_getLast?]
  rw [hassoc, Linked, List.isChain_append, hlast, head?_closed]
  simp only [Option.mem_def, Option.some.injEq, forall_eq']
  exact ⟨fun hc => ⟨hc.1, hc.2.2, hc.2.1⟩, fun hc => ⟨hc.1, hc.2.2, hc.2.1⟩⟩

/-- Two halves of a ring keep their own links across an edit at the seam.
    The pointers outside the seam and the fresh nodes are untouched, and
    inside a half no node but the seam's own points across it. -/
theorem linked_half (l l' : Links α) (a b : α) (xs : List α)
    (hnext : ∀ c ∈ xs, c ≠ a → l'.next c = l.next c)
    (hpre : ∀ c ∈ xs.tail, c ≠ b → l'.pre c = l.pre c)
    (hb : b ∉ xs.tail) (ha : ∀ d ∈ xs.tail, l.next a ≠ d)
    (hl : Linked l xs) : Linked l' xs := by
  refine hl.imp_of_mem_tail_imp (fun c d hc hd hcd => ?_)
  have hca : c ≠ a := by
    rintro rfl
    exact ha d hd hcd.1
  have hdb : d ≠ b := by
    rintro rfl
    exact hb hd
  rw [hnext c hc hca, hpre d hd hdb]
  exact hcd

/-- The tails of the two halves of a ring avoid the node after the cut. -/
theorem ring_tails (h : α) (p q : List α) (hnd : (h :: (p ++ q)).Nodup) :
    q.headD h ∉ p ∧ q.headD h ∉ (q ++ [h]).tail := by
  have hnd' := List.nodup_cons.mp hnd
  have happ := List.nodup_append.mp hnd'.2
  have hh : h ∉ p ∧ h ∉ q := by
    simpa only [List.mem_append, not_or] using hnd'.1
  -- The node after the cut is the head if nothing follows it.
  cases q with
  | nil => exact ⟨hh.1, by simp only [List.nil_append, List.tail_cons, List.not_mem_nil,
      not_false_eq_true]⟩
  | cons y ys =>
      simp only [List.headD_cons, List.cons_append, List.tail_cons, List.mem_append,
        List.mem_singleton, not_or]
      refine ⟨fun hy => ?_, (List.nodup_cons.mp happ.2.1).1, fun hy => ?_⟩
      · exact happ.2.2 y hy y List.mem_cons_self rfl
      · exact hh.2 (hy ▸ List.mem_cons_self)

section Edits

variable [DecidableEq α]

theorem link_comm (l : Links α) (a b c d : α) (hac : a ≠ c) (hbd : b ≠ d) :
    (l.link a b).link c d = (l.link c d).link a b := by
  unfold Links.link
  rw [Function.update_comm hac, Function.update_comm hbd]

/-- Linking a fresh node into a ring, between the two parts of a split. -/
theorem ring_insert (l : Links α) (h n : α) (p q : List α) (hr : Ring l h (p ++ q))
    (hn : n ∉ h :: (p ++ q)) :
    Ring ((l.link n (q.headD h)).link (p.getLastD h) n) h (p ++ n :: q) := by
  rcases hr with ⟨hnd, hl⟩
  rcases (linked_cut l h p q).mp hl with ⟨hlp, hseam, hlq⟩
  have hmem : ∀ c, c ∈ h :: p ∨ c ∈ q ++ [h] → c ≠ n := by
    rintro c hc rfl
    refine hn ?_
    simp only [List.mem_cons, List.mem_append, List.not_mem_nil, or_false] at hc ⊢
    tauto
  have hna : p.getLastD h ≠ n := hmem _ (Or.inl (getLastD_mem h p))
  have hnb : q.headD h ≠ n := hmem _ (Or.inr (by
    have := headD_mem h q
    simp only [List.mem_cons, List.mem_append, List.not_mem_nil, or_false] at this ⊢
    tauto))
  rcases ring_tails h p q hnd with ⟨hbp, hbq⟩
  refine ⟨?_, ?_⟩
  · have hperm : (h :: (p ++ n :: q)).Perm (n :: h :: (p ++ q)) := by
      refine List.Perm.trans (List.Perm.cons h List.perm_middle) (List.Perm.swap n h (p ++ q))
    exact hperm.nodup_iff.mpr (List.nodup_cons.mpr ⟨hn, hnd⟩)
  · -- The two halves are unchanged; the seam now runs through `n`.
    have hhalf : ∀ xs : List α, (∀ c ∈ xs, c ∈ h :: p ∨ c ∈ q ++ [h]) → q.headD h ∉ xs.tail →
        Linked l xs → Linked ((l.link n (q.headD h)).link (p.getLastD h) n) xs := by
      intro xs hxs hbx hlx
      refine linked_half l _ (p.getLastD h) (q.headD h) xs ?_ ?_ hbx ?_ hlx
      · intro c hc hca
        rw [Links.link_next, if_neg hca, Links.link_next, if_neg (hmem c (hxs c hc))]
      · intro c hc hcb
        rw [Links.link_pre, if_neg (hmem c (hxs c (List.mem_of_mem_tail hc))), Links.link_pre,
          if_neg hcb]
      · rintro d hd rfl
        rw [hseam.1] at hd
        exact hbx hd
    refine (linked_cut _ h p (n :: q)).mpr ⟨hhalf (h :: p) (fun c hc => Or.inl hc) hbp hlp, ?_, ?_⟩
    · rw [List.headD_cons, Links.link_next, if_pos rfl, Links.link_pre, if_pos rfl]
      exact ⟨rfl, rfl⟩
    · rw [Linked, List.cons_append, List.isChain_cons]
      refine ⟨fun y hy => ?_, hhalf (q ++ [h]) (fun c hc => Or.inr hc) hbq hlq⟩
      rw [head?_closed, Option.mem_def, Option.some.injEq] at hy
      rw [← hy, Links.link_next, if_neg (Ne.symm hna), Links.link_next, if_pos rfl,
        Links.link_pre, if_neg hnb, Links.link_pre, if_pos rfl]
      exact ⟨rfl, rfl⟩

/-- Linking across a node of a ring takes it off. -/
theorem ring_remove (l : Links α) (h x : α) (p q : List α) (hr : Ring l h (p ++ x :: q)) :
    Ring (l.link (l.pre x) (l.next x)) h (p ++ q) := by
  rcases ring_split l h x p q hr with ⟨hpx, hnx⟩
  rcases hr with ⟨hnd, hl⟩
  rcases (linked_cut l h p (x :: q)).mp hl with ⟨hlp, hseam, hlx⟩
  have hlq : Linked l (q ++ [h]) := (List.isChain_cons.mp hlx).2
  -- Without `x` the nodes are still different.
  have hperm : (h :: (p ++ x :: q)).Perm (x :: h :: (p ++ q)) := by
    refine List.Perm.trans (List.Perm.cons h List.perm_middle) (List.Perm.swap x h (p ++ q))
  have hnd' := List.nodup_cons.mp (hperm.nodup_iff.mp hnd)
  have hxmem : ∀ c, c ∈ h :: p ∨ c ∈ q ++ [h] → c ≠ x := by
    rintro c hc rfl
    refine hnd'.1 ?_
    simp only [List.mem_cons, List.mem_append, List.not_mem_nil, or_false] at hc ⊢
    tauto
  rcases ring_tails h p q hnd'.2 with ⟨hbp, hbq⟩
  rw [hpx, hnx]
  -- The two halves keep their links, and the link across `x` joins them.
  refine ⟨hnd'.2, (linked_cut _ h p q).mpr ⟨?_, ?_, ?_⟩⟩
  · refine linked_half l _ (p.getLastD h) (q.headD h) (h :: p) ?_ ?_ hbp ?_ hlp
    · intro c _ hca
      rw [Links.link_next, if_neg hca]
    · intro c _ hcb
      rw [Links.link_pre, if_neg hcb]
    · rintro d hd rfl
      rw [hseam.1] at hd
      exact hxmem x (Or.inl (List.mem_cons_of_mem _ hd)) rfl
  · rw [Links.link_next, if_pos rfl, Links.link_pre, if_pos rfl]
    exact ⟨rfl, rfl⟩
  · refine linked_half l _ (p.getLastD h) (q.headD h) (q ++ [h]) ?_ ?_ hbq ?_ hlq
    · intro c _ hca
      rw [Links.link_next, if_neg hca]
    · intro c _ hcb
      rw [Links.link_pre, if_neg hcb]
    · rintro d hd rfl
      rw [hseam.1] at hd
      exact hxmem x (Or.inr (List.mem_of_mem_tail hd)) rfl

/-- A link leaves the pointers of every other node alone. -/
theorem link_other (l : Links α) (a b c : α) (ha : c ≠ a) (hb : c ≠ b) :
    (l.link a b).next c = l.next c ∧ (l.link a b).pre c = l.pre c := by
  rw [Links.link_next, if_neg ha, Links.link_pre, if_neg hb]
  exact ⟨rfl, rfl⟩

/-- A walk to the head whose last node has been pointed at `n`, and `n` at the
    head: it meets the same nodes, up to `n`. -/
theorem forward_stop (l l' : Links α) (h n z : α) (hself : l'.next n = h)
    (hother : ∀ c, c ≠ n → l'.next c = if c = z then n else l.next c) :
    ∀ (xs : List α) (a : α), a ≠ n → (a :: xs).Nodup → z = xs.getLastD a →
      Forward l (a :: xs ++ [h]) →
      Forward l' (a :: (xs.takeWhile (fun c => c ≠ n) ++ [n]) ++ [h]) := by
  intro xs
  induction xs with
  | nil =>
      intro a han _ hz _
      have hnext : l'.next a = n := by
        rw [hother a han, if_pos (hz.trans List.getLastD_nil).symm]
      exact List.isChain_cons_cons.mpr ⟨hnext, List.isChain_cons_cons.mpr
        ⟨hself, List.isChain_singleton h⟩⟩
  | cons x xs ih =>
      intro a han hnd hz hl
      rcases List.isChain_cons_cons.mp hl with ⟨hax, hrest⟩
      rw [List.getLastD_cons] at hz
      -- The last node is further on, so the pointer of this one is the old one.
      have haz : a ≠ z := by
        rw [hz]
        exact fun hc => (List.nodup_cons.mp hnd).1 (hc ▸ getLastD_mem x xs)
      have hnext : l'.next a = x := by
        rw [hother a han, if_neg haz, hax]
      by_cases hxn : x = n
      · rw [List.takeWhile_cons_of_neg (by simp only [hxn, ne_eq, not_true_eq_false, decide_false,
          Bool.false_eq_true, not_false_eq_true])]
        exact List.isChain_cons_cons.mpr ⟨hnext.trans hxn, List.isChain_cons_cons.mpr
          ⟨hself, List.isChain_singleton h⟩⟩
      · rw [List.takeWhile_cons_of_pos (by exact decide_eq_true hxn)]
        exact List.isChain_cons_cons.mpr
          ⟨hnext, ih x hxn (List.nodup_cons.mp hnd).2 hz hrest⟩

/-- Linking any node in at the back of a ring. If it was on the ring already, the
    walk from the head now ends there. -/
theorem forward_append (l : Links α) (h n : α) (xs : List α) (hr : Ring l h xs) (hn : n ≠ h) :
    Forward ((l.link (l.pre h) n).link n h)
      (h :: (xs.takeWhile (fun c => c ≠ n) ++ [n]) ++ [h]) := by
  refine forward_stop l _ h n (l.pre h) ?_ (fun c hc => ?_) xs h (Ne.symm hn) hr.1
    (ring_pre_head l h xs hr) (forward_of_linked l _ hr.2)
  · rw [Links.link_next, if_pos rfl]
  · rw [Links.link_next, if_neg hc, Links.link_next]

end Edits

/-- A collection of rings: `f` gives the sequence on each head, and no node
    stands on two of them. -/
def Rings (l : Links α) (heads : Set α) (f : α → List α) : Prop :=
  (∀ h ∈ heads, Ring l h (f h)) ∧
    ∀ h ∈ heads, ∀ h' ∈ heads, h ≠ h' → ∀ a ∈ h :: f h, a ∉ h' :: f h'

theorem rings_congr (l l' : Links α) (heads : Set α) (f : α → List α)
    (hagree : ∀ h ∈ heads, ∀ a ∈ h :: f h, l'.next a = l.next a ∧ l'.pre a = l.pre a)
    (hr : Rings l heads f) : Rings l' heads f :=
  ⟨fun h hh => ring_congr l l' h (f h) (hagree h hh) (hr.1 h hh), hr.2⟩

/-- Nodes of one ring, and nodes on no ring, are not on another ring. -/
theorem rings_off (l : Links α) (heads : Set α) (f : α → List α) (h n : α) (hr : Rings l heads f)
    (hh : h ∈ heads) (hn : ∀ h' ∈ heads, n ∉ h' :: f h') (h' : α) (hh' : h' ∈ heads)
    (hne : h' ≠ h) (a : α) (ha : a = n ∨ a ∈ h :: f h) : a ∉ h' :: f h' := by
  rcases ha with rfl | ha
  · exact hn h' hh'
  · exact hr.2 h hh h' hh' (Ne.symm hne) a ha

section Collections

variable [DecidableEq α]

/-- Changing one ring of a collection. The new sequence may take nodes from no
    other ring, and the edit may touch the pointers of no other ring. -/
theorem rings_edit (l l' : Links α) (heads : Set α) (f : α → List α) (h : α) (ys : List α)
    (hr : Rings l heads f) (hring : Ring l' h ys)
    (hfresh : ∀ h' ∈ heads, h' ≠ h → ∀ a ∈ h :: ys, a ∉ h' :: f h')
    (hagree : ∀ h' ∈ heads, h' ≠ h → ∀ a ∈ h' :: f h',
      l'.next a = l.next a ∧ l'.pre a = l.pre a) :
    Rings l' heads (Function.update f h ys) := by
  refine ⟨fun h' hh' => ?_, fun h1 hh1 h2 hh2 hne a ha => ?_⟩
  · -- The ring that was changed is the new one, and the others are as before.
    by_cases heq : h' = h
    · rw [heq, Function.update_self]
      exact hring
    · rw [Function.update_of_ne heq]
      exact ring_congr l l' h' (f h') (hagree h' hh' heq) (hr.1 h' hh')
  · by_cases h1h : h1 = h
    · -- Only pairs with the changed ring in them are new.
      have h2h : h2 ≠ h := fun hc => hne (h1h.trans hc.symm)
      rw [h1h, Function.update_self] at ha
      rw [Function.update_of_ne h2h]
      exact hfresh h2 hh2 h2h a ha
    · rw [Function.update_of_ne h1h] at ha
      by_cases h2h : h2 = h
      · rw [h2h, Function.update_self]
        exact fun ha' => hfresh h1 hh1 h1h a ha' ha
      · rw [Function.update_of_ne h2h]
        exact hr.2 h1 hh1 h2 hh2 hne a ha

theorem rings_push (l : Links α) (heads : Set α) (f : α → List α) (h n : α)
    (hr : Rings l heads f) (hh : h ∈ heads) (hn : ∀ h' ∈ heads, n ∉ h' :: f h') :
    Rings ((l.link n (l.next h)).link h n) heads (Function.update f h (n :: f h)) := by
  have hring := hr.1 h hh
  have hins := ring_insert l h n [] (f h) hring (hn h hh)
  rw [← ring_next_head l h (f h) hring] at hins
  -- The other rings are off both links of the edit.
  refine rings_edit l _ heads f h _ hr hins ?_ ?_
  · intro h' hh' hne a ha
    refine rings_off l heads f h n hr hh hn h' hh' hne a ?_
    simp only [List.mem_cons] at ha ⊢
    tauto
  · intro h' hh' hne a ha
    have hoff : ∀ b, b = n ∨ b ∈ h :: f h → a ≠ b := by
      rintro b hb rfl
      exact rings_off l heads f h n hr hh hn h' hh' hne a hb ha
    have hah := hoff h (Or.inr List.mem_cons_self)
    have han := hoff n (Or.inl rfl)
    have hanx := hoff (l.next h) (Or.inr (ring_next_mem l h h (f h) hring List.mem_cons_self))
    rw [(link_other _ h n a hah han).1, (link_other _ h n a hah han).2]
    exact link_other l n (l.next h) a han hanx

theorem rings_append (l : Links α) (heads : Set α) (f : α → List α) (h n : α)
    (hr : Rings l heads f) (hh : h ∈ heads) (hn : ∀ h' ∈ heads, n ∉ h' :: f h') :
    Rings ((l.link (l.pre h) n).link n h) heads (Function.update f h (f h ++ [n])) := by
  have hring := hr.1 h hh
  have hpm := ring_pre_mem l h h (f h) hring List.mem_cons_self
  have hnh : n ≠ h := fun hc => hn h hh (hc ▸ List.mem_cons_self)
  have hnp : l.pre h ≠ n := fun hc => hn h hh (hc ▸ hpm)
  have hins := ring_insert l h n (f h) [] (by rw [List.append_nil]; exact hring)
    (by rw [List.append_nil]; exact hn h hh)
  rw [← ring_pre_head l h (f h) hring, List.headD_nil, link_comm l n h (l.pre h) n
    (Ne.symm hnp) (Ne.symm hnh)] at hins
  -- The other rings are off both links of the edit.
  refine rings_edit l _ heads f h _ hr hins ?_ ?_
  · intro h' hh' hne a ha
    refine rings_off l heads f h n hr hh hn h' hh' hne a ?_
    simp only [List.mem_cons, List.mem_append, List.not_mem_nil, or_false] at ha ⊢
    tauto
  · intro h' hh' hne a ha
    have hoff : ∀ b, b = n ∨ b ∈ h :: f h → a ≠ b := by
      rintro b hb rfl
      exact rings_off l heads f h n hr hh hn h' hh' hne a hb ha
    have hah := hoff h (Or.inr List.mem_cons_self)
    have han := hoff n (Or.inl rfl)
    have hap := hoff (l.pre h) (Or.inr hpm)
    rw [(link_other _ n h a han hah).1, (link_other _ n h a han hah).2]
    exact link_other l (l.pre h) n a hap han

theorem rings_remove (l : Links α) (heads : Set α) (f : α → List α) (h x : α)
    (hr : Rings l heads f) (hh : h ∈ heads) (hx : x ∈ f h) :
    Rings (l.link (l.pre x) (l.next x)) heads (Function.update f h ((f h).erase x)) := by
  have hring := hr.1 h hh
  have hxm : x ∈ h :: f h := List.mem_cons_of_mem h hx
  rcases List.append_of_mem hx with ⟨p, q, hpq⟩
  -- A node occurs once, so erasing it takes it from the middle.
  have hxp : x ∉ p := by
    have hnd := (List.nodup_cons.mp hring.1).2
    rw [hpq] at hnd
    intro hxp
    exact (List.nodup_append.mp hnd).2.2 x hxp x List.mem_cons_self rfl
  have hrem := ring_remove l h x p q (hpq ▸ hring)
  have herase : (f h).erase x = p ++ q := by
    rw [hpq, List.erase_append_right _ hxp, List.erase_cons_head]
  rw [herase]
  refine rings_edit l _ heads f h _ hr hrem ?_ ?_
  · -- The ring has lost a node, so it still meets no other.
    intro h' hh' hne a ha
    refine hr.2 h hh h' hh' (Ne.symm hne) a ?_
    rw [hpq]
    simp only [List.mem_cons, List.mem_append] at ha ⊢
    tauto
  · intro h' hh' hne a ha
    have hoff : ∀ b ∈ h :: f h, a ≠ b := by
      rintro b hb rfl
      exact hr.2 h hh h' hh' (Ne.symm hne) a hb ha
    exact link_other l (l.pre x) (l.next x) a
      (hoff _ (ring_pre_mem l h x (f h) hring hxm)) (hoff _ (ring_next_mem l h x (f h) hring hxm))

end Collections

/-- No pointer of a node of the set leaves the set. -/
def Closed (l : Links α) (S : Set α) : Prop :=
  ∀ n ∈ S, l.next n ∈ S ∧ l.pre n ∈ S

theorem closed_link [DecidableEq α] (l : Links α) (S : Set α) (a b : α) (h : Closed l S)
    (ha : a ∈ S)
    (hb : b ∈ S) : Closed (l.link a b) S := by
  intro n hn
  rw [Links.link_next, Links.link_pre]
  constructor
  · by_cases hna : n = a
    · rw [if_pos hna]
      exact hb
    · rw [if_neg hna]
      exact (h n hn).1
  · by_cases hnb : n = b
    · rw [if_pos hnb]
      exact ha
    · rw [if_neg hnb]
      exact (h n hn).2

theorem link_outside [DecidableEq α] (l : Links α) (S : Set α) (a b x : α) (ha : a ∈ S) (hb : b ∈ S)
    (hx : x ∉ S) : (l.link a b).next x = l.next x ∧ (l.link a b).pre x = l.pre x := by
  have hxa : x ≠ a := fun hc => hx (hc ▸ ha)
  have hxb : x ≠ b := fun hc => hx (hc ▸ hb)
  rw [Links.link_next, Links.link_pre, if_neg hxa, if_neg hxb]
  exact ⟨rfl, rfl⟩

end Mirros
