import Mathlib.Data.List.Nodup
import Mathlib.Data.List.Perm.Basic
import Mathlib.Logic.Equiv.Basic
import Mathlib.Order.Lattice

/-!
# Selection Sort

Sorting an array in place by a key. Each turn looks for the first entry with the lowest
key among those that are not yet in their place, and exchanges it with the first of
them. The array is a function of the position and only its first `n` entries take part.

## Main definitions

* `leastFrom`: The position of the lowest key from some position on.
* `swapLeast`: One turn.
* `selectionSort`: The sort.

## Theorems

* `selectionSort_perm`: The entries stay the same.
* `selectionSort_sorted`: They are in the order of their keys.
-/

namespace Mirros

variable {α β : Type*}

/-- Exchanging two entries of an array permutes its entries. -/
theorem map_swap_perm (f : Nat → α) (n i j : Nat) (hi : i < n) (hj : j < n) :
    ((List.range n).map (Function.update (Function.update f i (f j)) j (f i))).Perm
      ((List.range n).map f) := by
  have hswap : Function.update (Function.update f i (f j)) j (f i) = f ∘ Equiv.swap i j := by
    ext k
    simp only [Function.comp_apply]
    by_cases hkj : k = j
    · rw [hkj, Function.update_self, Equiv.swap_apply_right]
    · rw [Function.update_of_ne hkj]
      by_cases hki : k = i
      · rw [hki, Function.update_self, Equiv.swap_apply_left]
      · rw [Function.update_of_ne hki, Equiv.swap_apply_of_ne_of_ne hki hkj]
  rw [hswap, ← List.map_map]
  refine List.Perm.map f ?_
  rw [List.perm_ext_iff_of_nodup (List.Nodup.map (Equiv.injective _) List.nodup_range)
    List.nodup_range]
  intro k
  rw [List.mem_map, List.mem_range]
  refine ⟨?_, fun hk => ⟨Equiv.swap i j k, List.mem_range.2 ?_, Equiv.swap_apply_self i j k⟩⟩
  · rintro ⟨m, hm, rfl⟩
    rw [List.mem_range] at hm
    rw [Equiv.swap_apply_def]
    split
    · exact hj
    · split
      · exact hi
      · exact hm
  · rw [Equiv.swap_apply_def]
    split
    · exact hj
    · split
      · exact hi
      · exact hk

variable [LinearOrder β] (key : α → β)

/-- The first position with the lowest key from position `i` on. -/
def leastFrom (f : Nat → α) (i n : Nat) : Nat :=
  (List.range' (i + 1) (n - (i + 1))).foldl
    (fun min j => if key (f j) < key (f min) then j else min) i

/-- Exchange position `i` with the lowest one from there on. -/
def swapLeast (n : Nat) (f : Nat → α) (i : Nat) : Nat → α :=
  let min := leastFrom key f i n
  if min ≠ i then Function.update (Function.update f i (f min)) min (f i) else f

/-- Sort the first `n` entries. -/
def selectionSort (f : Nat → α) (n : Nat) : Nat → α :=
  (List.range n).foldl (swapLeast key n) f

/-- The search stays in the array and finds the lowest key. -/
theorem leastFrom_spec (f : Nat → α) (i n : Nat) (hi : i < n) :
    i ≤ leastFrom key f i n ∧ leastFrom key f i n < n ∧
      ∀ j, i ≤ j → j < n → key (f (leastFrom key f i n)) ≤ key (f j) := by
  -- After `d` turns the positions up to `i + d` have been looked at.
  have hfold : ∀ d, i + d < n → ∀ m, m = (List.range' (i + 1) d).foldl
      (fun min j => if key (f j) < key (f min) then j else min) i →
      i ≤ m ∧ m ≤ i + d ∧ ∀ j, i ≤ j → j ≤ i + d → key (f m) ≤ key (f j) := by
    intro d
    induction d with
    | zero =>
        intro _ m hm
        rw [show m = i from hm]
        refine ⟨Nat.le_refl i, Nat.le_refl i, fun j hj hj' => ?_⟩
        rw [show j = i by omega]
    | succ d ih =>
        intro hd m hm
        rcases ih (by omega) _ rfl with ⟨hlow, hhigh, hmin⟩
        rw [List.range'_concat, List.foldl_append, List.foldl_cons, List.foldl_nil,
          Nat.one_mul] at hm
        generalize (List.range' (i + 1) d).foldl
          (fun min j => if key (f j) < key (f min) then j else min) i = p at *
        by_cases hlt : key (f (i + 1 + d)) < key (f p)
        · rw [if_pos hlt] at hm
          subst hm
          refine ⟨by omega, by omega, fun j hj hj' => ?_⟩
          by_cases hlast : j = i + 1 + d
          · rw [hlast]
          · exact hlt.le.trans (hmin j hj (by omega))
        · rw [if_neg hlt] at hm
          subst hm
          refine ⟨hlow, by omega, fun j hj hj' => ?_⟩
          by_cases hlast : j = i + 1 + d
          · rw [hlast]
            exact not_lt.mp hlt
          · exact hmin j hj (by omega)
  rcases hfold (n - (i + 1)) (by omega) _ rfl with ⟨hlow, hhigh, hmin⟩
  exact ⟨hlow, Nat.lt_of_le_of_lt hhigh (by omega), fun j hj hj' => hmin j hj (by omega)⟩

/-- A turn keeps the entries. -/
theorem swapLeast_perm (f : Nat → α) (i n : Nat) (hi : i < n) :
    ((List.range n).map (swapLeast key n f i)).Perm ((List.range n).map f) := by
  unfold swapLeast
  by_cases hmin : leastFrom key f i n ≠ i
  · simp only [if_pos hmin]
    exact map_swap_perm f n i _ hi (leastFrom_spec key f i n hi).2.1
  · simp only [if_neg hmin]
    exact List.Perm.refl _

/-- The sort keeps the entries. -/
theorem selectionSort_perm (f : Nat → α) (n : Nat) :
    ((List.range n).map (selectionSort key f n)).Perm ((List.range n).map f) := by
  have hfold : ∀ (is : List Nat) (f : Nat → α), (∀ i ∈ is, i < n) →
      ((List.range n).map (is.foldl (swapLeast key n) f)).Perm ((List.range n).map f) := by
    intro is
    induction is with
    | nil => exact fun f _ => List.Perm.refl _
    | cons i is ih =>
        intro f his
        rw [List.foldl_cons]
        exact (ih _ (fun j hj => his j (List.mem_cons_of_mem i hj))).trans
          (swapLeast_perm key f i n (his i List.mem_cons_self))
  exact hfold _ f (fun i hi => List.mem_range.1 hi)

/-- The first `i` entries are in their place: none after them has a lower key. -/
def Placed (f : Nat → α) (n i : Nat) : Prop :=
  ∀ a < i, ∀ b, a ≤ b → b < n → key (f a) ≤ key (f b)

/-- A turn puts one more entry in its place. -/
theorem swapLeast_placed (f : Nat → α) (n i : Nat) (hi : i < n) (h : Placed key f n i) :
    Placed key (swapLeast key n f i) n (i + 1) := by
  rcases leastFrom_spec key f i n hi with ⟨hlow, hhigh, hmin⟩
  -- Before `i` nothing changes, at `i` is the lowest, and after it are entries from `i` on.
  have hbefore : ∀ a < i, swapLeast key n f i a = f a := by
    intro a ha
    unfold swapLeast
    split_ifs with hne
    · rw [Function.update_of_ne (by omega), Function.update_of_ne (by omega)]
    · rfl
  have hat : swapLeast key n f i i = f (leastFrom key f i n) := by
    unfold swapLeast
    split_ifs with hne
    · rw [Function.update_of_ne (Ne.symm hne), Function.update_self]
    · rw [not_not.mp hne]
  have hafter : ∀ b, i ≤ b → b < n →
      ∃ b', i ≤ b' ∧ b' < n ∧ swapLeast key n f i b = f b' := by
    intro b hb hbn
    by_cases hbi : b = i
    · exact ⟨leastFrom key f i n, hlow, hhigh, by rw [hbi, hat]⟩
    · unfold swapLeast
      split_ifs with hne
      · by_cases hbm : b = leastFrom key f i n
        · exact ⟨i, Nat.le_refl i, hi, by rw [hbm, Function.update_self]⟩
        · exact ⟨b, hb, hbn, by rw [Function.update_of_ne hbm, Function.update_of_ne hbi]⟩
      · exact ⟨b, hb, hbn, rfl⟩
  intro a ha b hab hb
  by_cases hai : a = i
  · rcases hafter b (by omega) hb with ⟨b', hb', hbn, heq⟩
    rw [hai, hat, heq]
    exact hmin b' hb' hbn
  · rw [hbefore a (by omega)]
    by_cases hbi : b < i
    · rw [hbefore b hbi]
      exact h a (by omega) b hab hb
    · rcases hafter b (by omega) hb with ⟨b', hb', hbn, heq⟩
      rw [heq]
      exact h a (by omega) b' (by omega) hbn

/-- The sort puts all of them in their places. -/
theorem selectionSort_placed (f : Nat → α) (n : Nat) : Placed key (selectionSort key f n) n n := by
  have hfold : ∀ i ≤ n, Placed key ((List.range i).foldl (swapLeast key n) f) n i := by
    intro i
    induction i with
    | zero => exact fun _ a ha => absurd ha (Nat.not_lt_zero a)
    | succ i ih =>
        intro hi
        rw [List.range_succ, List.foldl_append, List.foldl_cons, List.foldl_nil]
        exact swapLeast_placed key _ n i hi (ih (by omega))
  exact hfold n (Nat.le_refl n)

/-- The sorted entries are in the order of their keys. -/
theorem selectionSort_sorted (f : Nat → α) (n : Nat) :
    ((List.range n).map (selectionSort key f n)).Pairwise (fun x y => key x ≤ key y) := by
  rw [List.pairwise_map]
  refine List.Pairwise.imp_of_mem ?_ List.pairwise_lt_range
  intro a b ha hb hab
  exact selectionSort_placed key f n a (List.mem_range.1 ha) b (Nat.le_of_lt hab)
    (List.mem_range.1 hb)

end Mirros
