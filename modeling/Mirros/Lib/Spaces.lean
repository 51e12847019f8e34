import Mathlib.Logic.Function.Basic
import Mathlib.Tactic.SplitIfs

/-!
# Private Memories

Parties that each have a memory of their own, of which one runs at a time. This is what
address spaces are for: a party reads what it wrote, and nobody else's stores are seen.

A real machine has one store, and a `Placing` says where in it each address of each party
is. As long as no place serves two addresses (`Placing.Apart`), a change of the store in the
places of one party is a change of the memory of that party and of nothing else
(`view_write`).

## Main definitions

* `Spaces`: The memory of each party, and the party that runs.
* `SpaceAct`, `Spaces.act`, `Spaces.acts`: What can happen to them.
* `SpaceAct.Spares`: Something that is not about a party.
* `Placing`, `Placing.view`, `Placing.Apart`: Memories in one store.

## Theorems

* `act_spares`, `acts_spares`: The memory of a party nothing is about.
* `store_read`: A party reads what it wrote.
* `view_write`: The store of one party.
-/

namespace Mirros

variable {T V P B : Type}

/-- The memory of each party, with nothing where it has no memory, and the party that
    runs. -/
structure Spaces (T V B : Type) where
  memory : T → V → Option B
  running : Option T

/-- What can happen to the memories of the parties. -/
inductive SpaceAct (T V B : Type) where
  | appear (t : T) (content : V → Option B)
  | vanish (t : T)
  | enter (next : Option T)
  | store (v : V) (b : B)
  | copy (source target : T) (which : V → Bool)
  | load (t : T) (content : V → Option B)
  | idle

namespace Spaces

variable [DecidableEq T] [DecidableEq V]

/-- The addresses a party has and that are named get new contents. -/
def write (s : Spaces T V B) (t : T) (content : V → Option B) : Spaces T V B :=
  { s with
    memory := Function.update s.memory t
      (fun v => (s.memory t v).map (fun b => (content v).getD b)) }

/-- What an act does. A store where the party that runs has no memory does nothing. -/
def act (s : Spaces T V B) : SpaceAct T V B → Spaces T V B
  | .appear t content => { s with memory := Function.update s.memory t content }
  | .vanish t =>
      { memory := Function.update s.memory t (fun _ => none)
        running := if s.running = some t then none else s.running }
  | .enter next => { s with running := next }
  | .store v b =>
      match s.running with
      | none => s
      | some t => s.write t (fun w => if w = v then some b else none)
  | .copy source target which =>
      s.write target (fun v => if which v then s.memory source v else none)
  | .load t content => s.write t content
  | .idle => s

/-- A number of acts, one after the other. -/
def acts (s : Spaces T V B) (as : List (SpaceAct T V B)) : Spaces T V B :=
  as.foldl act s

end Spaces

/-- An act that is not about the memory of party `t`, which does not run. -/
def SpaceAct.Spares (t : T) : SpaceAct T V B → Prop
  | .appear u _ => u ≠ t
  | .vanish u => u ≠ t
  | .enter next => next ≠ some t
  | .copy _ target _ => target ≠ t
  | .load u _ => u ≠ t
  | .store _ _ => True
  | .idle => True

section Spares

variable [DecidableEq T] (t : T)

theorem write_other (s : Spaces T V B) (u : T) (content : V → Option B) (h : u ≠ t) :
    (s.write u content).memory t = s.memory t :=
  Function.update_of_ne h.symm _ _

variable [DecidableEq V]

/-- What is not about a party leaves its memory alone, and it does not run afterwards. -/
theorem act_spares (s : Spaces T V B) (a : SpaceAct T V B) (ha : a.Spares t)
    (hs : s.running ≠ some t) :
    (s.act a).memory t = s.memory t ∧ (s.act a).running ≠ some t := by
  cases a with
  | appear u content => exact ⟨Function.update_of_ne (Ne.symm ha) _ _, hs⟩
  | vanish u =>
      refine ⟨Function.update_of_ne (Ne.symm ha) _ _, ?_⟩
      show (if s.running = some u then none else s.running) ≠ some t
      split_ifs
      · exact (Option.some_ne_none t).symm
      · exact hs
  | enter next => exact ⟨rfl, ha⟩
  | store v b =>
      unfold Spaces.act
      cases hrun : s.running with
      | none => exact ⟨rfl, hs⟩
      | some u =>
          have hne : u ≠ t := fun hc => hs (by rw [hrun, hc])
          exact ⟨write_other t s u _ hne, hs⟩
  | copy source target which => exact ⟨write_other t s target _ ha, hs⟩
  | load u content => exact ⟨write_other t s u _ ha, hs⟩
  | idle => exact ⟨rfl, hs⟩

/-- The memory of a party that does not run and that nothing is about stays. -/
theorem acts_spares (as : List (SpaceAct T V B)) : ∀ s : Spaces T V B,
    (∀ a ∈ as, a.Spares t) → s.running ≠ some t → (s.acts as).memory t = s.memory t := by
  induction as with
  | nil => exact fun s _ _ => rfl
  | cons a as ih =>
      intro s has hs
      rcases act_spares t s a (has a List.mem_cons_self) hs with ⟨hmem, hrun⟩
      have hrest := ih (s.act a) (fun b hb => has b (List.mem_cons_of_mem _ hb)) hrun
      exact hrest.trans hmem

/-- The party that runs reads what it wrote, where it has memory. -/
theorem store_read (s : Spaces T V B) (v : V) (b c : B) (hrun : s.running = some t)
    (hv : s.memory t v = some c) : (s.act (.store v b)).memory t v = some b := by
  have hact : s.act (.store v b) = s.write t (fun w => if w = v then some b else none) := by
    unfold Spaces.act
    rw [hrun]
  have hself : (s.write t (fun w => if w = v then some b else none)).memory t v
      = (s.memory t v).map (fun d => (if v = v then some b else none).getD d) := by
    show Function.update s.memory t _ t v = _
    rw [Function.update_self]
  rw [hact, hself, hv, Option.map_some, if_pos rfl]
  rfl

end Spares

/-- Where each address of each party is in one store. -/
abbrev Placing (T V P : Type) : Type := T → V → Option P

namespace Placing

/-- The memories of the parties in a store. -/
def view (p : Placing T V P) (store : P → B) (t : T) (v : V) : Option B :=
  (p t v).map store

/-- No place serves two addresses. -/
def Apart (p : Placing T V P) : Prop :=
  ∀ t v t' v' x, p t v = some x → p t' v' = some x → t = t' ∧ v = v'

/-- A store that changes in the places of one party only. -/
theorem view_write [DecidableEq T] (p : Placing T V P) (hp : p.Apart) (store store' : P → B) (t : T)
    (content : V → Option B) (hin : ∀ v x, p t v = some x → store' x = (content v).getD (store x))
    (hout : ∀ x, (∀ v, p t v ≠ some x) → store' x = store x) :
    p.view store' = Function.update (p.view store) t
      (fun v => (p.view store t v).map (fun b => (content v).getD b)) := by
  funext u v
  by_cases hu : u = t
  · subst hu
    rw [Function.update_self]
    unfold view
    cases hplace : p u v with
    | none => rfl
    | some x =>
        rw [Option.map_some, Option.map_some, Option.map_some, hin v x hplace]
  · rw [Function.update_of_ne hu]
    unfold view
    cases hplace : p u v with
    | none => rfl
    | some x =>
        rw [Option.map_some, Option.map_some, hout x]
        intro w hw
        exact hu (hp u v t w x hplace hw).1

end Placing

end Mirros
