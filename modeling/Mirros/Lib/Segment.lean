import Mathlib.Data.List.GetD
import Mathlib.Tactic.ByContra

/-!
# Segments of a Memory

A memory is a function of addresses. Lists are put into it at an address and read
back from there. A segment that was put reads back as it was put, whatever is
put elsewhere afterwards.

A string is a segment that ends with its first terminator. Two strings that agree
cell by cell up to the terminator of one of them are equal (`stringAt_eq`).

## Main definitions

* `putList`, `getList`: Putting a list at an address and reading one.
* `StringAt`: The cells from a place on are a string.

## Theorems

* `putList_inside`, `putList_outside`: The cells of a segment and the others.
* `putList_append`: Putting a list in two parts.
* `getList_eq_iff`: A segment cell by cell.
* `stringAt_eq`, `stringAt_agree`: Equal strings and the cells in which they agree.
-/

namespace Mirros

variable {β : Type*}

/-- Put a list into the cells from an address on. -/
def putList (t : Nat → β) (a : Nat) (xs : List β) : Nat → β :=
  fun x => if a ≤ x then xs.getD (x - a) (t x) else t x

/-- The list in the `n` cells from an address on. -/
def getList (t : Nat → β) (a n : Nat) : List β :=
  (List.range n).map (fun i => t (a + i))

theorem putList_inside (t : Nat → β) (a : Nat) (xs : List β) (i : Nat) (y : β)
    (h : xs[i]? = some y) : putList t a xs (a + i) = y := by
  unfold putList
  rw [if_pos (Nat.le_add_right a i), Nat.add_sub_cancel_left, List.getD_eq_getElem?_getD, h,
    Option.getD_some]

theorem putList_outside (t : Nat → β) (a : Nat) (xs : List β) (x : Nat)
    (h : x < a ∨ a + xs.length ≤ x) : putList t a xs x = t x := by
  unfold putList
  by_cases hax : a ≤ x
  · rw [if_pos hax, List.getD_eq_default _ _ (by omega)]
  · rw [if_neg hax]

theorem putList_nil (t : Nat → β) (a : Nat) : putList t a [] = t := by
  funext x
  exact putList_outside t a [] x (by rw [List.length_nil]; omega)

/-- The second part of a list goes right after the first. -/
theorem putList_append (t : Nat → β) (a : Nat) (xs ys : List β) :
    putList (putList t a xs) (a + xs.length) ys = putList t a (xs ++ ys) := by
  funext x
  by_cases hx : x < a
  · rw [putList_outside _ _ _ _ (Or.inl (by omega)), putList_outside _ _ _ _ (Or.inl hx),
      putList_outside _ _ _ _ (Or.inl hx)]
  · -- Inside, a cell belongs to the first list or to the second.
    unfold putList
    rw [if_pos (Nat.le_of_not_lt hx), if_pos (Nat.le_of_not_lt hx)]
    by_cases hin : x - a < xs.length
    · rw [if_neg (by omega), List.getD_append _ _ _ _ hin]
    · rw [if_pos (by omega), List.getD_append_right _ _ _ _ (Nat.le_of_not_lt hin),
        List.getD_eq_default xs _ (Nat.le_of_not_lt hin), Nat.sub_sub]

@[simp] theorem length_getList (t : Nat → β) (a n : Nat) : (getList t a n).length = n := by
  rw [getList, List.length_map, List.length_range]

/-- A segment is a list if and only if its cells are the members. -/
theorem getList_eq_iff (t : Nat → β) (a : Nat) (xs : List β) :
    getList t a xs.length = xs ↔ ∀ i y, xs[i]? = some y → t (a + i) = y := by
  constructor
  · intro h i y hi
    have hlt := (List.getElem?_eq_some_iff.mp hi).1
    rw [← h, getList, List.getElem?_map, List.getElem?_range hlt, Option.map_some,
      Option.some.injEq] at hi
    exact hi
  · intro h
    refine List.ext_getElem? (fun i => ?_)
    rcases hi : xs[i]? with _ | y
    · rw [List.getElem?_eq_none_iff] at hi ⊢
      rw [length_getList]
      exact hi
    · have hlt := (List.getElem?_eq_some_iff.mp hi).1
      rw [getList, List.getElem?_map, List.getElem?_range hlt, Option.map_some, h i y hi]

theorem getList_congr (t t' : Nat → β) (a n : Nat) (h : ∀ i < n, t' (a + i) = t (a + i)) :
    getList t' a n = getList t a n :=
  List.map_congr_left (fun i hi => h i (List.mem_range.mp hi))

/-- A part of a segment. -/
theorem getList_part (t : Nat → β) (a : Nat) (xs : List β) (h : getList t a xs.length = xs)
    (c n : Nat) (hn : c + n ≤ xs.length) : getList t (a + c) n = (xs.drop c).take n := by
  have hlen : ((xs.drop c).take n).length = n := by
    rw [List.length_take, List.length_drop]
    omega
  -- The part of the list has the cells it has in the whole.
  have hcells := (getList_eq_iff t (a + c) ((xs.drop c).take n)).mpr (fun i y hi => ?_)
  · rw [hlen] at hcells
    exact hcells
  · have hlt := (List.getElem?_eq_some_iff.mp hi).1
    rw [List.getElem?_take_of_lt (by omega), List.getElem?_drop] at hi
    rw [Nat.add_assoc]
    exact (getList_eq_iff t a xs).mp h (c + i) y hi

/-- The cells from a place on are the members of a list without a terminator, and
    then the terminator. -/
structure StringAt (stop : β) (t : Nat → β) (xs : List β) : Prop where
  cells : ∀ i x, xs[i]? = some x → t i = x
  closed : t xs.length = stop
  proper : stop ∉ xs

/-- A list that was put with a terminator is a string. -/
theorem stringAt_closed (stop : β) (t : Nat → β) (xs : List β) (h : stop ∉ xs)
    (hcells : ∀ i y, (xs ++ [stop])[i]? = some y → t i = y) : StringAt stop t xs where
  cells := fun i x hi => hcells i x (by
    rw [List.getElem?_append_left (List.getElem?_eq_some_iff.mp hi).1]
    exact hi)
  closed := hcells xs.length stop List.getElem?_concat_length
  proper := h

/-- A string is still there where the cells agree up to its terminator. -/
theorem stringAt_congr (stop : β) (s t : Nat → β) (xs : List β) (hs : StringAt stop s xs)
    (h : ∀ i ≤ xs.length, t i = s i) : StringAt stop t xs where
  cells := fun i x hi =>
    (h i (Nat.le_of_lt (List.getElem?_eq_some_iff.mp hi).1)).trans (hs.cells i x hi)
  closed := (h xs.length (Nat.le_refl _)).trans hs.closed
  proper := hs.proper

/-- A string that starts with its terminator is empty. -/
theorem stringAt_nil (stop : β) (t : Nat → β) (xs : List β) (h : t 0 = stop) :
    StringAt stop t xs ↔ xs = [] := by
  constructor
  · intro hs
    cases xs with
    | nil => rfl
    | cons x xs =>
        have hx := hs.cells 0 x rfl
        rw [h] at hx
        exact absurd (hx ▸ List.mem_cons_self) hs.proper
  · rintro rfl
    exact ⟨fun i x hi => absurd hi (by simp only [List.getElem?_nil, reduceCtorEq,
      not_false_eq_true]), h, List.not_mem_nil⟩

/-- Another one has a first character and goes on behind it. -/
theorem stringAt_cons (stop : β) (t : Nat → β) (xs : List β) (h : t 0 ≠ stop) :
    StringAt stop t xs ↔ ∃ ys, xs = t 0 :: ys ∧ StringAt stop (fun i => t (i + 1)) ys := by
  constructor
  · intro hs
    cases xs with
    | nil => exact absurd hs.closed h
    | cons x xs =>
        refine ⟨xs, by rw [hs.cells 0 x rfl], fun i y hi => hs.cells (i + 1) y ?_, hs.closed,
          fun hin => hs.proper (List.mem_cons_of_mem x hin)⟩
        rw [List.getElem?_cons_succ]
        exact hi
  · rintro ⟨ys, rfl, hs⟩
    refine ⟨fun i y hi => ?_, hs.closed, fun hin => ?_⟩
    · cases i with
      | zero =>
          rw [List.getElem?_cons_zero] at hi
          exact Option.some.inj hi
      | succ i =>
          rw [List.getElem?_cons_succ] at hi
          exact hs.cells i y hi
    · rcases List.mem_cons.mp hin with heq | hin
      · exact h heq.symm
      · exact hs.proper hin

/-- A cell of a string is the terminator only at its end. -/
theorem stringAt_stop (stop : β) (t : Nat → β) (xs : List β) (h : StringAt stop t xs) (i : Nat)
    (hi : i ≤ xs.length) : t i = stop ↔ i = xs.length := by
  constructor
  · intro heq
    by_contra hne
    have hlt : i < xs.length := by omega
    have hcell := h.cells i xs[i] (List.getElem?_eq_getElem hlt)
    rw [heq] at hcell
    -- A terminator before the end would be a member.
    exact h.proper (hcell ▸ List.getElem_mem hlt)
  · rintro rfl
    exact h.closed

/-- Strings that agree up to the terminator of one of them are equal. -/
theorem stringAt_eq (stop : β) (s t : Nat → β) (xs ys : List β) (hs : StringAt stop s xs)
    (ht : StringAt stop t ys) (h : ∀ i ≤ ys.length, s i = t i) : xs = ys := by
  -- A longer one would have its terminator too early.
  have hle : xs.length ≤ ys.length := by
    by_contra hc
    have hstop := (h ys.length (Nat.le_refl _)).trans ht.closed
    have hlen := (stringAt_stop stop s xs hs ys.length (by omega)).mp hstop
    omega
  have hlen : xs.length = ys.length :=
    (stringAt_stop stop t ys ht xs.length hle).mp ((h xs.length hle).symm.trans hs.closed)
  refine List.ext_getElem hlen (fun i hi hi' => ?_)
  rw [← hs.cells i _ (List.getElem?_eq_getElem hi), ← ht.cells i _ (List.getElem?_eq_getElem hi')]
  exact h i (Nat.le_of_lt hi')

/-- Equal strings agree up to the terminator. -/
theorem stringAt_agree (stop : β) (s t : Nat → β) (xs : List β) (hs : StringAt stop s xs)
    (ht : StringAt stop t xs) (i : Nat) (hi : i ≤ xs.length) : s i = t i := by
  rcases Nat.lt_or_eq_of_le hi with hlt | rfl
  · rw [hs.cells i _ (List.getElem?_eq_getElem hlt), ht.cells i _ (List.getElem?_eq_getElem hlt)]
  · rw [hs.closed, ht.closed]

end Mirros
