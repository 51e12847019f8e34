import Mathlib.Data.List.Basic
import Mathlib.Data.List.Nodup

/-!
# Range Lookup With an Inclusive End

A list of elements that own disjoint half-open ranges of addresses, searched
for the first element whose range holds an address. The search tests the range
with its end included and computes the end modulo the size of the address
space, as a comparison of machine words does.

The element that owns the address is then not always the one found. An earlier
element that ends exactly at the address is found in its place, and an element
that reaches the end of the address space is never found because its end is
computed as zero. `find_owner` says that these are the only two ways in which
the search goes wrong.

## Main definitions

* `Within`: An address in the half-open range of an element.
* `Ranges`: Elements with disjoint, non-empty ranges inside the address space.
* `findClosed`: The search.

## Theorems

* `Ranges.match_iff`: Which elements pass the test for an address.
* `Ranges.end_unique`: At most one element ends at an address.
* `find_owner`: When the search finds the data of the owner.
-/

namespace Mirros

variable {α β : Type*}

/-- The address lies in the range of the element. -/
def Within (start size : α → Nat) (p : α) (x : Nat) : Prop :=
  start p ≤ x ∧ x < start p + size p

/-- The elements own disjoint, non-empty ranges below `top`. -/
structure Ranges (top : Nat) (start size : α → Nat) (ps : List α) : Prop where
  nodup : ps.Nodup
  pos : ∀ p ∈ ps, 0 < size p
  size_lt : ∀ p ∈ ps, size p < top
  le_top : ∀ p ∈ ps, start p + size p ≤ top
  disjoint : ∀ p ∈ ps, ∀ q ∈ ps, p ≠ q → ∀ x, Within start size p x → ¬ Within start size q x

/-- The first element whose closed range holds the address. -/
def findClosed (top : Nat) (start size : α → Nat) (ps : List α) (x : Nat) : Option α :=
  ps.find? (fun p => start p ≤ x && x ≤ (start p + size p) % top)

theorem Ranges.end_unique (top : Nat) (start size : α → Nat) (ps : List α)
    (h : Ranges top start size ps) (p q : α) (hp : p ∈ ps) (hq : q ∈ ps) (x : Nat)
    (hpx : start p + size p = x) (hqx : start q + size q = x) : p = q := by
  by_contra hne
  have hpp := h.pos p hp
  have hqp := h.pos q hq
  -- Both would own the address before the common end.
  refine h.disjoint p hp q hq hne (x - 1) ⟨?_, ?_⟩ ⟨?_, ?_⟩ <;> omega

/-- The elements that pass the test for an address are its owner, unless that
    reaches the end of the address space, and the element that ends there. -/
theorem Ranges.match_iff (top : Nat) (start size : α → Nat) (ps : List α)
    (h : Ranges top start size ps) (p q : α) (hp : p ∈ ps) (hq : q ∈ ps) (x : Nat)
    (hx : Within start size p x) :
    (start q ≤ x && x ≤ (start q + size q) % top) = true
      ↔ (q = p ∧ start p + size p < top) ∨ start q + size q = x := by
  have hpt := h.le_top p hp
  have hqt := h.le_top q hq
  have hqp := h.pos q hq
  have hqs := h.size_lt q hq
  have hx' : start p ≤ x ∧ x < start p + size p := hx
  rw [Bool.and_eq_true, decide_eq_true_eq, decide_eq_true_eq]
  -- The owner passes unless its end wraps to zero, any other one only where it ends.
  by_cases heq : q = p
  · subst heq
    simp only [true_and]
    by_cases htop : start q + size q = top
    · rw [htop, Nat.mod_self]
      omega
    · rw [Nat.mod_eq_of_lt (by omega)]
      omega
  · have hout : ¬ Within start size q x := fun hc => h.disjoint q hq p hp heq x hc hx
    unfold Within at hout
    simp only [heq, false_and, false_or]
    by_cases htop : start q + size q = top
    · rw [htop, Nat.mod_self]
      omega
    · rw [Nat.mod_eq_of_lt (by omega)]
      omega

/-- The search finds the data of the owner of an address exactly when an
    element that ends there, found first or found instead of an owner at the
    end of the address space, carries the same data. -/
theorem find_owner (top : Nat) (start size : α → Nat) (l r : List α) (p : α)
    (h : Ranges top start size (l ++ p :: r)) (x : Nat) (hx : Within start size p x)
    (off : α → β) (d : β) :
    (findClosed top start size (l ++ p :: r) x).elim d off = off p
      ↔ (∀ q ∈ l, start q + size q = x → off q = off p) ∧
        (start p + size p = top →
          (∃ q ∈ l ++ p :: r, start q + size q = x ∧ off q = off p) ∨
          (off p = d ∧ ∀ q ∈ l ++ p :: r, start q + size q ≠ x)) := by
  have hp : p ∈ l ++ p :: r := List.mem_append_right l List.mem_cons_self
  have hpt := h.le_top p hp
  have hmatch := fun q hq => h.match_iff top start size _ p q hp hq x hx
  have hunique := fun q q' hq hq' => h.end_unique top start size _ q q' hq hq' x
  have hl : ∀ q ∈ l, q ∈ l ++ p :: r := fun q hq => List.mem_append_left _ hq
  have hr : ∀ q ∈ r, q ∈ l ++ p :: r :=
    fun q hq => List.mem_append_right l (List.mem_cons_of_mem p hq)
  have hnl : ∀ q ∈ l, q ≠ p := by
    intro q hq hqp
    exact (List.nodup_append.1 h.nodup).2.2 q hq p List.mem_cons_self hqp
  have hnr : ∀ q ∈ r, q ≠ p := by
    intro q hq hqp
    exact (List.nodup_cons.1 (List.nodup_append.1 h.nodup).2.1).1 (hqp ▸ hq)
  have hpx : start p + size p ≠ x := by
    unfold Within at hx
    omega
  unfold findClosed
  rw [List.find?_append]
  cases hfl : l.find? (fun p => start p ≤ x && x ≤ (start p + size p) % top) with
  | some q =>
      -- An earlier element ends at the address.
      have hq := List.mem_of_find?_eq_some hfl
      have hqx : start q + size q = x := by
        have hpass := List.find?_some hfl
        rcases (hmatch q (hl q hq)).1 hpass with hc | hc
        · exact absurd hc.1 (hnl q hq)
        · exact hc
      simp only [Option.some_or, Option.elim_some]
      refine ⟨fun hoff => ⟨?_, fun _ => Or.inl ⟨q, hl q hq, hqx, hoff⟩⟩, fun hc => ?_⟩
      · intro q' hq' hqx'
        rw [hunique q' q (hl q' hq') (hl q hq) hqx' hqx, hoff]
      · exact hc.1 q hq hqx
  | none =>
      have hnone : ∀ q ∈ l, start q + size q ≠ x := by
        intro q hq hqx
        exact List.find?_eq_none.1 hfl q hq ((hmatch q (hl q hq)).2 (Or.inr hqx))
      rw [Option.none_or, List.find?_cons]
      by_cases htop : start p + size p < top
      · rw [(hmatch p hp).2 (Or.inl ⟨rfl, htop⟩)]
        refine ⟨fun _ => ⟨fun q hq hqx => absurd hqx (hnone q hq), fun hc => ?_⟩, fun _ => rfl⟩
        omega
      · -- The owner reaches the end of the address space and is passed over.
        have hskip : (start p ≤ x && x ≤ (start p + size p) % top) = false := by
          rw [Bool.eq_false_iff]
          intro hc
          rcases (hmatch p hp).1 hc with hc | hc
          · exact htop hc.2
          · exact hpx hc
        have heq : start p + size p = top := by omega
        rw [hskip]
        cases hfr : r.find? (fun p => start p ≤ x && x ≤ (start p + size p) % top) with
        | some q =>
            have hq := List.mem_of_find?_eq_some hfr
            have hqx : start q + size q = x := by
              have hpass := List.find?_some hfr
              rcases (hmatch q (hr q hq)).1 hpass with hc | hc
              · exact absurd hc.1 (hnr q hq)
              · exact hc
            simp only [Option.elim_some]
            refine ⟨fun hoff => ⟨fun q' hq' hqx' => absurd hqx' (hnone q' hq'),
              fun _ => Or.inl ⟨q, hr q hq, hqx, hoff⟩⟩, fun hc => ?_⟩
            rcases hc.2 heq with ⟨q', hq', hqx', hoff⟩ | ⟨-, hc⟩
            · rw [hunique q q' (hr q hq) hq' hqx hqx', hoff]
            · exact absurd hqx (hc q (hr q hq))
        | none =>
            have hno : ∀ q ∈ l ++ p :: r, start q + size q ≠ x := by
              intro q hq
              rcases List.mem_append.1 hq with hq | hq
              · exact hnone q hq
              · rcases List.mem_cons.1 hq with rfl | hq
                · exact hpx
                · intro hqx
                  exact List.find?_eq_none.1 hfr q hq ((hmatch q (hr q hq)).2 (Or.inr hqx))
            simp only [Option.elim_none]
            refine ⟨fun hd => ⟨fun q hq hqx => absurd hqx (hnone q hq),
              fun _ => Or.inr ⟨hd.symm, hno⟩⟩, fun hc => ?_⟩
            rcases hc.2 heq with ⟨q, hq, hqx, -⟩ | ⟨hd, -⟩
            · exact absurd hqx (hno q hq)
            · exact hd.symm

end Mirros
