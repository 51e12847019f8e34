import Mathlib.Data.List.Basic
import Mathlib.Algebra.BigOperators.Group.List.Basic
import Mathlib.Order.Basic
import Mathlib.Algebra.GroupWithZero.Nat

/-!
# Layouts

Elements with a size each, placed one after the other from a base address on.
Addresses are reduced modulo the size of the address space, as a machine
counter that is advanced by the size of each element would be.

As long as the whole layout fits, the reduction changes nothing that matters:
every address between the base and the end lies in the range of exactly one
element (`laid_cover`, `laid_ordered`).

## Main definitions

* `span`: The sum of the sizes of a list of elements.
* `Laid`: Elements placed end to end.

## Theorems

* `span_append`, `span_perm`, `span_filter`: Sums of sizes.
* `laid_append`: A layout of two lists is a layout of each.
* `laid_congr`: A layout depends on the elements of the list only.
* `laid_start`: Where an element of a layout starts.
* `laid_cover`: The ranges of the elements cover the layout.
* `laid_ordered`: The ranges of the elements do not overlap.
-/

namespace Mirros

variable {α : Type*}

/-- The sum of the sizes of a list of elements. -/
def span (size : α → Nat) (ps : List α) : Nat :=
  (ps.map size).sum

@[simp] theorem span_nil (size : α → Nat) : span size [] = 0 := rfl

@[simp] theorem span_cons (size : α → Nat) (p : α) (ps : List α) :
    span size (p :: ps) = size p + span size ps := by
  simp only [span, List.map_cons, List.sum_cons]

@[simp] theorem span_append (size : α → Nat) (ps qs : List α) :
    span size (ps ++ qs) = span size ps + span size qs := by
  simp only [span, List.map_append, List.sum_append]

theorem span_map {β : Type*} (size : β → Nat) (f : α → β) (ps : List α) :
    span size (ps.map f) = span (fun p => size (f p)) ps := by
  unfold span
  rw [List.map_map]
  rfl

theorem span_perm (size : α → Nat) (ps qs : List α) (h : ps.Perm qs) :
    span size ps = span size qs :=
  (h.map size).sum_eq

/-- Leaving out elements of size zero. -/
theorem span_filter (size : α → Nat) (q : α → Bool) (ps : List α)
    (h : ∀ p ∈ ps, q p = false → size p = 0) : span size (ps.filter q) = span size ps := by
  induction ps with
  | nil => rfl
  | cons p ps ih =>
      have ih := ih (fun x hx => h x (List.mem_cons_of_mem p hx))
      by_cases hq : q p = true
      · rw [List.filter_cons_of_pos hq, span_cons, span_cons, ih]
      · have hz : size p = 0 := h p List.mem_cons_self (by simpa only [Bool.not_eq_true] using hq)
        rw [List.filter_cons_of_neg hq, span_cons, ih, hz, Nat.zero_add]

theorem span_mod (size : α → Nat) (m : Nat) (ps : List α) (h : ∀ p ∈ ps, size p % m = 0) :
    span size ps % m = 0 := by
  induction ps with
  | nil => exact Nat.zero_mod m
  | cons p ps ih =>
      rw [span_cons, Nat.add_mod, h p List.mem_cons_self,
        ih (fun q hq => h q (List.mem_cons_of_mem p hq)), Nat.zero_mod]

/-- The elements of the list start one after the other from `base` on, their
    addresses taken modulo `m`. -/
def Laid (m : Nat) (size start : α → Nat) : Nat → List α → Prop
  | _, [] => True
  | base, p :: ps => start p = base % m ∧ Laid m size start (base + size p) ps

theorem laid_append (m : Nat) (size start : α → Nat) (base : Nat) (ps qs : List α) :
    Laid m size start base (ps ++ qs)
      ↔ Laid m size start base ps ∧ Laid m size start (base + span size ps) qs := by
  induction ps generalizing base with
  | nil => simp only [List.nil_append, span_nil, Nat.add_zero, Laid, true_and]
  | cons p ps ih =>
      simp only [List.cons_append, Laid, span_cons]
      rw [ih, Nat.add_assoc, and_assoc]

theorem laid_map {β : Type*} (m : Nat) (size start : β → Nat) (f : α → β) (base : Nat)
    (ps : List α) :
    Laid m size start base (ps.map f)
      ↔ Laid m (fun p => size (f p)) (fun p => start (f p)) base ps := by
  induction ps generalizing base with
  | nil => exact Iff.rfl
  | cons p ps ih =>
      simp only [List.map_cons, Laid]
      rw [ih]

theorem laid_congr (m : Nat) (size start start' : α → Nat) (base : Nat) (ps : List α)
    (h : ∀ p ∈ ps, start' p = start p) (hl : Laid m size start base ps) :
    Laid m size start' base ps := by
  induction ps generalizing base with
  | nil => trivial
  | cons p ps ih =>
      rcases hl with ⟨hp, hps⟩
      refine ⟨?_, ih _ (fun q hq => h q (List.mem_cons_of_mem p hq)) hps⟩
      rw [h p List.mem_cons_self, hp]

/-- Leaving out elements of size zero. -/
theorem laid_filter (m : Nat) (size start : α → Nat) (base : Nat) (q : α → Bool) (ps : List α)
    (h : ∀ p ∈ ps, q p = false → size p = 0) (hl : Laid m size start base ps) :
    Laid m size start base (ps.filter q) := by
  induction ps generalizing base with
  | nil => exact hl
  | cons p ps ih =>
      rcases hl with ⟨hp, hps⟩
      -- An element of size zero does not move the base of those after it.
      have ih := ih (base + size p) (fun x hx => h x (List.mem_cons_of_mem p hx)) hps
      by_cases hq : q p = true
      · rw [List.filter_cons_of_pos hq]
        exact ⟨hp, ih⟩
      · have hz : size p = 0 := h p List.mem_cons_self (by simpa only [Bool.not_eq_true] using hq)
        rw [List.filter_cons_of_neg hq]
        rw [hz, Nat.add_zero] at ih
        exact ih

theorem laid_at (m : Nat) (size start : α → Nat) (base : Nat) (ps qs : List α) (p : α)
    (h : Laid m size start base (ps ++ p :: qs)) : start p = (base + span size ps) % m :=
  ((laid_append m size start base ps (p :: qs)).1 h).2.1

/-- Where an element starts when the layout fits. Only an element of size zero
    can stand at the very end of the address space. -/
theorem laid_start (m : Nat) (size start : α → Nat) (base : Nat) (ps qs : List α) (p : α)
    (h : Laid m size start base (ps ++ p :: qs)) (hp : 0 < size p)
    (hfit : base + span size (ps ++ p :: qs) ≤ m) : start p = base + span size ps := by
  have hat := laid_at m size start base ps qs p h
  rw [span_append, span_cons] at hfit
  rw [hat, Nat.mod_eq_of_lt (by omega)]

/-- The ranges of the elements cover the layout. -/
theorem laid_cover (m : Nat) (size start : α → Nat) (base : Nat) (ps : List α) (x : Nat)
    (h : Laid m size start base ps) (hfit : base + span size ps ≤ m) :
    (base ≤ x ∧ x < base + span size ps)
      ↔ ∃ p ∈ ps, start p ≤ x ∧ x < start p + size p := by
  induction ps generalizing base with
  | nil =>
      simp only [span_nil, Nat.add_zero, List.not_mem_nil, false_and, exists_false, iff_false]
      omega
  | cons p ps ih =>
      rcases h with ⟨hp, hps⟩
      rw [span_cons] at hfit
      have ih := ih (base + size p) hps (by omega)
      -- An element of size zero has an empty range wherever it starts.
      have hhead : (start p ≤ x ∧ x < start p + size p) ↔ (base ≤ x ∧ x < base + size p) := by
        by_cases hz : size p = 0
        · omega
        · rw [hp, Nat.mod_eq_of_lt (by omega)]
      rw [List.exists_mem_cons_iff, ← ih, hhead, span_cons]
      omega

/-- The ranges of later elements lie above those of earlier ones. -/
theorem laid_ordered (m : Nat) (size start : α → Nat) (base : Nat) (ps : List α)
    (h : Laid m size start base ps) (hfit : base + span size ps ≤ m) :
    ps.Pairwise (fun p q => 0 < size p → 0 < size q → start p + size p ≤ start q) := by
  induction ps generalizing base with
  | nil => exact List.Pairwise.nil
  | cons p ps ih =>
      rcases h with ⟨hp, hps⟩
      rw [span_cons] at hfit
      refine List.Pairwise.cons (fun q hq hsp hsq => ?_) (ih _ hps (by omega))
      -- A later element starts inside the span behind the first one.
      have hcover := laid_cover m size start (base + size p) ps (start q) hps (by omega)
      have hin := hcover.2 ⟨q, hq, Nat.le_refl _, by omega⟩
      rw [hp, Nat.mod_eq_of_lt (by omega)]
      exact hin.1

end Mirros
