import Mathlib.Data.List.Nodup
import Mathlib.Logic.Function.Basic

/-!
# Singly Linked Lists

Nodes that point to the next one or nowhere. A pointer leads to a list of nodes if they
can be reached from it one after the other and the last one points nowhere.

A loop that goes to the last node finds it (`lastNode_leadsTo`), and hanging a new node
there puts it at the end of the list (`leadsTo_concat`). A loop that goes on until there
is no node meets all of them in their order (`traverse_leadsTo`).

## Main definitions

* `LeadsTo`: A pointer leads to a list of nodes.
* `lastNode`, `traverse`: The two loops.

## Theorems

* `leadsTo_congr`: Only the links of the nodes matter.
* `leadsTo_concat`: A node at the end.
* `lastNode_leadsTo`, `traverse_leadsTo`: What the loops find.
-/

namespace Mirros

variable {α : Type*}

/-- The pointer leads to these nodes, and behind them nowhere. -/
def LeadsTo (next : α → Option α) : Option α → List α → Prop
  | p, [] => p = none
  | p, x :: xs => p = some x ∧ LeadsTo next (next x) xs

/-- Go on while there is a next node. The number bounds the turns. -/
def lastNode (next : α → Option α) : Nat → α → Option α
  | 0, _ => none
  | fuel + 1, x =>
      match next x with
      | none => some x
      | some y => lastNode next fuel y

/-- Go on until there is no node, with the nodes that were met. The number bounds the turns. -/
def traverse (next : α → Option α) : Nat → Option α → Option (List α)
  | 0, _ => none
  | _ + 1, none => some []
  | fuel + 1, some x => (traverse next fuel (next x)).map (x :: ·)

variable (next : α → Option α)

/-- Only the links of the nodes of the list matter. -/
theorem leadsTo_congr (next' : α → Option α) (p : Option α) (xs : List α) (h : LeadsTo next p xs)
    (hsame : ∀ x ∈ xs, next' x = next x) : LeadsTo next' p xs := by
  induction xs generalizing p with
  | nil => exact h
  | cons x xs ih =>
      refine ⟨h.1, ?_⟩
      rw [hsame x List.mem_cons_self]
      exact ih (next x) h.2 (fun y hy => hsame y (List.mem_cons_of_mem x hy))

/-- A node that is hung behind the last one is at the end of the list. -/
theorem leadsTo_concat [DecidableEq α] (p : Option α) (ys : List α) (y z : α)
    (h : LeadsTo next p (ys ++ [y])) (hnodup : (ys ++ [y]).Nodup) (hz : z ∉ ys ++ [y])
    (hend : next z = none) : LeadsTo (Function.update next y (some z)) p (ys ++ [y] ++ [z]) := by
  induction ys generalizing p with
  | nil =>
      have hne : z ≠ y := fun heq => hz (heq ▸ List.mem_cons_self)
      exact ⟨h.1, Function.update_self _ _ _, by rw [Function.update_of_ne hne, hend]; rfl⟩
  | cons x ys ih =>
      rw [List.cons_append] at hnodup hz
      have hne : x ≠ y := fun heq =>
        (List.nodup_cons.mp hnodup).1 (heq ▸ List.mem_append_right ys List.mem_cons_self)
      refine ⟨h.1, ?_⟩
      rw [Function.update_of_ne hne]
      exact ih (next x) h.2 (List.nodup_cons.mp hnodup).2 (fun hin => hz (List.mem_cons_of_mem x hin))

/-- The loop to the last node. -/
theorem lastNode_leadsTo (fuel : Nat) (x y : α) (ys : List α) (hfuel : ys.length < fuel)
    (h : LeadsTo next (some x) (ys ++ [y])) : lastNode next fuel x = some y := by
  induction fuel generalizing x ys with
  | zero => exact absurd hfuel (Nat.not_lt_zero _)
  | succ fuel ih =>
      cases ys with
      | nil =>
          rcases h with ⟨hx, hnext⟩
          rw [Option.some.inj hx, lastNode, show next y = none from hnext]
      | cons w ys =>
          rcases h with ⟨hx, hrest⟩
          rw [Option.some.inj hx, lastNode]
          -- There is another node, namely the first of the rest.
          rcases hnext : next w with _ | v
          · rw [hnext] at hrest
            cases ys <;> exact absurd hrest.1 (by simp only [reduceCtorEq, not_false_eq_true])
          · rw [hnext] at hrest
            rw [List.length_cons] at hfuel
            exact ih v ys (by omega) hrest

/-- The loop over all nodes. -/
theorem traverse_leadsTo (fuel : Nat) (p : Option α) (xs : List α) (hfuel : xs.length < fuel)
    (h : LeadsTo next p xs) : traverse next fuel p = some xs := by
  induction fuel generalizing p xs with
  | zero => exact absurd hfuel (Nat.not_lt_zero _)
  | succ fuel ih =>
      cases xs with
      | nil =>
          cases h
          rfl
      | cons x xs =>
          rcases h with ⟨hp, hrest⟩
          cases hp
          rw [List.length_cons] at hfuel
          rw [traverse, ih (next x) xs (by omega) hrest, Option.map_some]

end Mirros
