import Mirros.Lib.Ring

/-!
# Lists of Members

A collection of rings that belong to indices: the ring of an index hangs on the
head of the index and has one node for each of its members, in their order. The
heads and the nodes are embedded in objects, so there is a function from the
index to its head and one from the member to its node, and a proof about such a
collection speaks of indices and members and not of nodes.

A member may be on the list of one index only, since it has one node.

## Main definitions

* `Hangs`: The members of every tracked index hang on its head.

## Theorems

* `hangs_ring`, `hangs_nodup`, `hangs_apart`: What a collection says of its rings.
* `hangs_congr`: A collection only depends on the pointers of its nodes.
* `hangs_mono`, `hangs_agree`: Fewer indices, and the members written otherwise.
* `hangs_push`, `hangs_append`, `hangs_remove`: One member more at the front or at the
  back, and one less.
* `hangs_none`, `hangs_fresh`: No index, and one index more, whose head is alone.
* `exists_hangs`: Pointers for given members.
-/

namespace Mirros

variable {α ι κ : Type}

/-- Every tracked index has a ring on its head with a node for each member. -/
def Hangs (l : Links α) (head : ι → α) (node : κ → α) (tracked : ι → Prop)
    (members : ι → List κ) : Prop :=
  ∃ f, Rings l { a | ∃ i, tracked i ∧ a = head i } f ∧
    ∀ i, tracked i → f (head i) = (members i).map node

/-- A collection without an index has no rings. -/
theorem hangs_none (l : Links α) (head : ι → α) (node : κ → α) (tracked : ι → Prop)
    (members : ι → List κ) (hnone : ∀ i, ¬tracked i) : Hangs l head node tracked members :=
  ⟨fun _ => [], ⟨fun _ ⟨i, hi, _⟩ => absurd hi (hnone i), fun _ ⟨i, hi, _⟩ => absurd hi (hnone i)⟩,
    fun i hi => absurd hi (hnone i)⟩

section

variable (l : Links α) (head : ι → α) (node : κ → α) (tracked : ι → Prop) (members : ι → List κ)
  (h : Hangs l head node tracked members)

include h

theorem hangs_ring (i : ι) (hi : tracked i) : Ring l (head i) ((members i).map node) := by
  rcases h with ⟨f, hf, hmem⟩
  rw [← hmem i hi]
  exact hf.1 _ ⟨i, hi, rfl⟩

theorem hangs_nodup (i : ι) (hi : tracked i) : (members i).Nodup :=
  List.Nodup.of_map node (List.nodup_cons.mp (hangs_ring l head node tracked members h i hi).1).2

/-- A member is on one list only. -/
theorem hangs_apart (hhead : Function.Injective head) (i j : ι) (hi : tracked i) (hj : tracked j)
    (k : κ) (hki : k ∈ members i) (hkj : k ∈ members j) : i = j := by
  rcases h with ⟨f, hf, hmem⟩
  by_contra hne
  have hin : ∀ i', tracked i' → k ∈ members i' → node k ∈ head i' :: f (head i') := by
    intro i' hi' hk
    rw [hmem i' hi']
    exact List.mem_cons_of_mem _ (List.mem_map_of_mem hk)
  exact hf.2 _ ⟨i, hi, rfl⟩ _ ⟨j, hj, rfl⟩ (fun hc => hne (hhead hc)) _ (hin i hi hki)
    (hin j hj hkj)

theorem hangs_congr (l' : Links α)
    (hheads : ∀ i, tracked i → l'.next (head i) = l.next (head i) ∧
      l'.pre (head i) = l.pre (head i))
    (hnodes : ∀ i, tracked i → ∀ k ∈ members i, l'.next (node k) = l.next (node k) ∧
      l'.pre (node k) = l.pre (node k)) : Hangs l' head node tracked members := by
  rcases h with ⟨f, hf, hmem⟩
  refine ⟨f, rings_congr l l' _ f ?_ hf, hmem⟩
  rintro _ ⟨i, hi, rfl⟩ a ha
  rcases List.mem_cons.mp ha with rfl | ha
  · exact hheads i hi
  · rw [hmem i hi] at ha
    rcases List.mem_map.mp ha with ⟨k, hk, rfl⟩
    exact hnodes i hi k hk

theorem hangs_mono (tracked' : ι → Prop) (hsub : ∀ i, tracked' i → tracked i) :
    Hangs l head node tracked' members := by
  rcases h with ⟨f, hf, hmem⟩
  have hheads : ∀ a : α, (∃ i, tracked' i ∧ a = head i) → ∃ i, tracked i ∧ a = head i := by
    rintro a ⟨i, hi, rfl⟩
    exact ⟨i, hsub i hi, rfl⟩
  exact ⟨f, ⟨fun a ha => hf.1 a (hheads a ha),
    fun a ha b hb => hf.2 a (hheads a ha) b (hheads b hb)⟩, fun i hi => hmem i (hsub i hi)⟩

theorem hangs_agree (members' : ι → List κ) (heq : ∀ i, tracked i → members' i = members i) :
    Hangs l head node tracked members' := by
  rcases h with ⟨f, hf, hmem⟩
  exact ⟨f, hf, fun i hi => (hmem i hi).trans (by rw [heq i hi])⟩

end

/-- The sequences after the one of `i` was replaced. -/
theorem update_head [DecidableEq α] [DecidableEq ι] (head : ι → α) (node : κ → α)
    (tracked : ι → Prop) (members : ι → List κ) (hhead : Function.Injective head) (i : ι)
    (f : α → List α) (xs : List κ)
    (hmem : ∀ j, tracked j → f (head j) = (members j).map node) (j : ι) (hj : tracked j) :
    Function.update f (head i) (xs.map node) (head j) =
      (Function.update members i xs j).map node := by
  by_cases hji : j = i
  · rw [hji, Function.update_self, Function.update_self]
  · rw [Function.update_of_ne (fun hc => hji (hhead hc)), Function.update_of_ne hji]
    exact hmem j hj

/-- A node that belongs to no member is on no ring. -/
theorem hangs_off (head : ι → α) (node : κ → α) (tracked : ι → Prop) (members : ι → List κ) (k : κ)
    (f : α → List α) (hnode : Function.Injective node)
    (hmem : ∀ j, tracked j → f (head j) = (members j).map node) (hdiff : ∀ j, head j ≠ node k)
    (hk : ∀ j, tracked j → k ∉ members j) :
    ∀ a ∈ { a | ∃ j, tracked j ∧ a = head j }, node k ∉ a :: f a := by
  rintro _ ⟨j, hj, rfl⟩ hc
  rw [hmem j hj] at hc
  rcases List.mem_cons.mp hc with hc | hc
  · exact hdiff j hc.symm
  · exact hk j hj ((List.mem_map_of_injective hnode).mp hc)

section Edits

variable [DecidableEq α] [DecidableEq ι] (l : Links α) (head : ι → α) (node : κ → α)
  (tracked : ι → Prop) (members : ι → List κ) (h : Hangs l head node tracked members)
  (hhead : Function.Injective head) (i : ι) (hi : tracked i) (k : κ)

include h hhead hi

theorem hangs_push (hnode : Function.Injective node) (hdiff : ∀ j, head j ≠ node k)
    (hk : ∀ j, tracked j → k ∉ members j) :
    Hangs ((l.link (node k) (l.next (head i))).link (head i) (node k)) head node tracked
      (Function.update members i (k :: members i)) := by
  rcases h with ⟨f, hf, hmem⟩
  refine ⟨_, rings_push l _ f (head i) (node k) hf ⟨i, hi, rfl⟩
    (hangs_off head node tracked members k f hnode hmem hdiff hk), fun j hj => ?_⟩
  rw [← update_head head node tracked members hhead i f _ hmem j hj, List.map_cons, hmem i hi]

theorem hangs_append (hnode : Function.Injective node) (hdiff : ∀ j, head j ≠ node k)
    (hk : ∀ j, tracked j → k ∉ members j) :
    Hangs ((l.link (l.pre (head i)) (node k)).link (node k) (head i)) head node tracked
      (Function.update members i (members i ++ [k])) := by
  rcases h with ⟨f, hf, hmem⟩
  refine ⟨_, rings_append l _ f (head i) (node k) hf ⟨i, hi, rfl⟩
    (hangs_off head node tracked members k f hnode hmem hdiff hk), fun j hj => ?_⟩
  rw [← update_head head node tracked members hhead i f _ hmem j hj, List.map_append,
    hmem i hi]
  rfl

theorem hangs_remove [DecidableEq κ] (hnode : Function.Injective node) (hk : k ∈ members i) :
    Hangs (l.link (l.pre (node k)) (l.next (node k))) head node tracked
      (Function.update members i ((members i).erase k)) := by
  rcases h with ⟨f, hf, hmem⟩
  have hin : node k ∈ f (head i) := by
    rw [hmem i hi]
    exact List.mem_map_of_mem hk
  refine ⟨_, rings_remove l _ f (head i) (node k) hf ⟨i, hi, rfl⟩ hin, fun j hj => ?_⟩
  rw [← update_head head node tracked members hhead i f _ hmem j hj,
    List.map_erase hnode, hmem i hi]

end Edits

/-- A new index whose head points at itself, and is no node of a list there is. -/
theorem hangs_fresh [DecidableEq ι] (l l' : Links α) (head : ι → α) (node : κ → α)
    (tracked : ι → Prop) (members : ι → List κ) (h : Hangs l head node tracked members)
    (hhead : Function.Injective head) (hdiff : ∀ i k, head i ≠ node k) (i : ι) (hi : ¬tracked i)
    (hself : l'.next (head i) = head i ∧ l'.pre (head i) = head i)
    (hheads : ∀ j, tracked j → l'.next (head j) = l.next (head j) ∧
      l'.pre (head j) = l.pre (head j))
    (hnodes : ∀ j, tracked j → ∀ k ∈ members j, l'.next (node k) = l.next (node k) ∧
      l'.pre (node k) = l.pre (node k)) :
    Hangs l' head node (fun j => tracked j ∨ j = i) (Function.update members i []) := by
  classical
  rcases hangs_congr l head node tracked members h l' hheads hnodes with ⟨f, hf, hmem⟩
  have hne : ∀ j, tracked j → j ≠ i := by
    rintro j hj rfl
    exact hi hj
  have hupd : ∀ j, tracked j → Function.update f (head i) [] (head j) = (members j).map node := by
    intro j hj
    rw [Function.update_of_ne (fun hc => hne j hj (hhead hc))]
    exact hmem j hj
  -- The head of the new index is on no list of another one.
  have hoff : ∀ j, tracked j → head i ∉ head j :: (members j).map node := by
    intro j hj hc
    rcases List.mem_cons.mp hc with hc | hc
    · exact hne j hj (hhead hc).symm
    · rcases List.mem_map.mp hc with ⟨k, _, hk⟩
      exact hdiff i k hk.symm
  refine ⟨Function.update f (head i) [], ⟨?_, ?_⟩, ?_⟩
  · rintro _ ⟨j, hj | rfl, rfl⟩
    · rw [hupd j hj, ← hmem j hj]
      exact hf.1 _ ⟨j, hj, rfl⟩
    · rw [Function.update_self]
      exact ⟨List.nodup_singleton _, List.isChain_pair.mpr hself⟩
  · rintro _ ⟨j, hj | rfl, rfl⟩ _ ⟨j', hj' | rfl, rfl⟩ hjj a ha
    · rw [hupd j hj, ← hmem j hj] at ha
      rw [hupd j' hj', ← hmem j' hj']
      exact hf.2 _ ⟨j, hj, rfl⟩ _ ⟨j', hj', rfl⟩ hjj a ha
    · rw [hupd j hj] at ha
      rw [Function.update_self, List.mem_singleton]
      rintro rfl
      exact hoff j hj ha
    · rw [Function.update_self, List.mem_singleton] at ha
      rw [hupd j' hj', ha]
      exact hoff j' hj'
    · exact absurd rfl hjj
  · rintro j (hj | rfl)
    · rw [hupd j hj, Function.update_of_ne (hne j hj)]
    · rw [Function.update_self, Function.update_self]
      rfl

/-- There are pointers for any members, as long as no two are the same. -/
theorem exists_hangs [DecidableEq α] [DecidableEq ι] (head : ι → α) (node : κ → α)
    (hhead : Function.Injective head) (hnode : Function.Injective node)
    (hdiff : ∀ i k, head i ≠ node k) (es : List (ι × κ)) (hnodup : (es.map Prod.snd).Nodup) :
    ∃ l, Hangs l head node (fun _ => True)
      (fun i => (es.filter (fun e => e.1 = i)).map Prod.snd) := by
  induction es with
  | nil =>
      -- Every head is alone.
      refine ⟨⟨id, id⟩, fun _ => [], ⟨fun a _ => ?_, fun a _ b _ hab c hc hc' => ?_⟩, fun _ _ => rfl⟩
      · exact ⟨List.nodup_singleton a,
          List.isChain_cons_cons.mpr ⟨⟨rfl, rfl⟩, List.isChain_singleton a⟩⟩
      · rw [List.mem_singleton] at hc hc'
        exact hab (hc.symm.trans hc')
  | cons e es ih =>
      rcases e with ⟨i, k⟩
      rw [List.map_cons, List.nodup_cons] at hnodup
      rcases ih hnodup.2 with ⟨l, hl⟩
      have hk : ∀ j, True → k ∉ (es.filter (fun e => e.1 = j)).map Prod.snd := by
        intro j _ hc
        rcases List.mem_map.mp hc with ⟨e, he, hek⟩
        exact hnodup.1 (List.mem_map.mpr ⟨e, (List.mem_filter.mp he).1, hek⟩)
      have hpush := hangs_push l head node _ _ hl hhead i trivial k hnode (fun j => hdiff j k) hk
      refine ⟨_, hangs_agree _ _ _ _ _ hpush _ (fun j _ => ?_)⟩
      rw [Function.update_apply, List.filter_cons]
      by_cases hji : j = i
      · rw [if_pos hji, hji, if_pos (decide_eq_true rfl), List.map_cons]
      · rw [if_neg hji, if_neg (by rw [decide_eq_true_eq]; exact Ne.symm hji)]

end Mirros
