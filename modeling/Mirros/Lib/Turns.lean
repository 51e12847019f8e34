import Mathlib.Logic.Function.Basic

/-!
# Taking Turns

Several parties share one thing, and one of them has it. What a party was doing when it lost
the thing is kept for it until it has it again.

The parties and what they do are of any type. What is kept is what a party gets back, whoever
had the thing meanwhile.

## Main definitions

* `Share`: Who has the thing, what is done with it, and what is kept.
* `Act`, `Share.next`: What may happen.
* `Share.run`: One after another.
* `Quiet`: What happens leaves a party alone.

## Theorems

* `run_kept`: What is kept for a party stays.
* `run_resumes`: A party goes on as it had stopped.
-/

namespace Mirros

namespace Turns

variable {T C : Type} [DecidableEq T]

/-- Who has the thing, what is done with it, and what is kept for those that wait. -/
structure Share (T C : Type) where
  current : T
  live : C
  saved : T → Option C

/-- What may happen: something is done, the thing is handed on while one thing is kept, and
    those that wait come and go. -/
inductive Act (T C : Type) where
  | work (c : C)
  | turn (own : C) (n : T)
  | start (t : T) (c : C)
  | stop (t : T)

namespace Share

/-- Keep something for the one that has the thing. -/
def keep (m : Share T C) (own : C) : T → Option C :=
  Function.update m.saved m.current (some own)

/-- The thing is handed to one of those that wait, or stays where it is. -/
def turn (m : Share T C) (own : C) (n : T) : Option (Share T C) :=
  (m.keep own n).map fun c => ⟨n, c, Function.update (m.keep own) n none⟩

/-- One of them waits. -/
def waits (m : Share T C) (t : T) : Bool := (m.saved t).isSome

/-- What happens. -/
def next (m : Share T C) : Act T C → Option (Share T C)
  | .work c => some { m with live := c }
  | .turn own n => m.turn own n
  | .start t c =>
      if t = m.current ∨ m.waits t = true then none
      else some { m with saved := Function.update m.saved t (some c) }
  | .stop t =>
      if t = m.current then none
      else some { m with saved := Function.update m.saved t none }

/-- One after another. -/
def run (m : Share T C) : List (Act T C) → Option (Share T C)
  | [] => some m
  | a :: as => (m.next a).bind fun m' => m'.run as

end Share

/-- What happens leaves a party alone. -/
def Act.Quiet (t : T) : Act T C → Prop
  | .work _ => True
  | .turn _ n => n ≠ t
  | .start t' _ => t' ≠ t
  | .stop t' => t' ≠ t

/-- It is handed on, or not. -/
theorem turn_some (m m' : Share T C) (own : C) (n : T) (h : m.turn own n = some m') :
    ∃ c, m.keep own n = some c ∧ m' = ⟨n, c, Function.update (m.keep own) n none⟩ := by
  rcases Option.map_eq_some_iff.mp h with ⟨c, hc, hm⟩
  exact ⟨c, hc, hm.symm⟩

/-- What is kept for the one that hands the thing on. -/
theorem turn_saved (m m' : Share T C) (own : C) (n : T) (h : m.turn own n = some m')
    (hn : n ≠ m.current) : m'.saved m.current = some own := by
  rcases turn_some m m' own n h with ⟨c, -, rfl⟩
  change Function.update (m.keep own) n none m.current = some own
  rw [Function.update_of_ne (Ne.symm hn)]
  exact Function.update_self ..

/-- What is kept for the others. -/
theorem turn_other (m m' : Share T C) (own : C) (n t : T) (h : m.turn own n = some m')
    (hn : n ≠ t) (ht : t ≠ m.current) : m'.saved t = m.saved t := by
  rcases turn_some m m' own n h with ⟨c, -, rfl⟩
  change Function.update (m.keep own) n none t = m.saved t
  rw [Function.update_of_ne (Ne.symm hn)]
  exact Function.update_of_ne ht _ _

/-- The one that gets it has what was kept. -/
theorem turn_live (m m' : Share T C) (own c : C) (n : T) (h : m.turn own n = some m')
    (hn : n ≠ m.current) (hc : m.saved n = some c) : m'.live = c := by
  rcases turn_some m m' own n h with ⟨d, hd, rfl⟩
  unfold Share.keep at hd
  rw [Function.update_of_ne hn, hc, Option.some.injEq] at hd
  exact hd.symm

/-- Only a turn hands it on. -/
theorem next_turn (m m' : Share T C) (a : Act T C) (h : m.next a = some m')
    (hne : m'.current ≠ m.current) : ∃ own, a = .turn own m'.current := by
  cases a with
  | work c =>
      rw [Share.next, Option.some.injEq] at h
      exact absurd (h ▸ rfl) hne
  | turn own n =>
      rcases turn_some m m' own n h with ⟨c, -, rfl⟩
      exact ⟨own, rfl⟩
  | start t c =>
      rw [Share.next] at h
      split at h
      · exact absurd h.symm (Option.some_ne_none m')
      · rw [Option.some.injEq] at h
        exact absurd (h ▸ rfl) hne
  | stop t =>
      rw [Share.next] at h
      split at h
      · exact absurd h.symm (Option.some_ne_none m')
      · rw [Option.some.injEq] at h
        exact absurd (h ▸ rfl) hne

/-- What is kept for a party stays when it is left alone. -/
theorem next_kept (m m' : Share T C) (a : Act T C) (t : T) (h : m.next a = some m')
    (hquiet : a.Quiet t) (ht : t ≠ m.current) : t ≠ m'.current ∧ m'.saved t = m.saved t := by
  cases a with
  | work c =>
      rw [Share.next, Option.some.injEq] at h
      exact h ▸ ⟨ht, rfl⟩
  | turn own n =>
      have hkept := turn_other m m' own n t h hquiet ht
      rcases turn_some m m' own n h with ⟨c, -, rfl⟩
      exact ⟨Ne.symm hquiet, hkept⟩
  | start t' c =>
      rw [Share.next] at h
      split at h
      · exact absurd h.symm (Option.some_ne_none m')
      · rw [Option.some.injEq] at h
        subst h
        exact ⟨ht, Function.update_of_ne (Ne.symm hquiet) _ _⟩
  | stop t' =>
      rw [Share.next] at h
      split at h
      · exact absurd h.symm (Option.some_ne_none m')
      · rw [Option.some.injEq] at h
        subst h
        exact ⟨ht, Function.update_of_ne (Ne.symm hquiet) _ _⟩

theorem run_kept (m m' : Share T C) (as : List (Act T C)) (t : T) (h : m.run as = some m')
    (hquiet : ∀ a ∈ as, a.Quiet t) (ht : t ≠ m.current) :
    t ≠ m'.current ∧ m'.saved t = m.saved t := by
  induction as generalizing m with
  | nil =>
      rw [Share.run, Option.some.injEq] at h
      exact h ▸ ⟨ht, rfl⟩
  | cons a as ih =>
      rcases Option.bind_eq_some_iff.mp h with ⟨m₁, hnext, hrun⟩
      have hstep := next_kept m m₁ a t hnext (hquiet a List.mem_cons_self) ht
      have hrest := ih m₁ hrun (fun b hb => hquiet b (List.mem_cons_of_mem a hb)) hstep.1
      exact ⟨hrest.1, hrest.2.trans hstep.2⟩

theorem run_append (m : Share T C) (as bs : List (Act T C)) :
    m.run (as ++ bs) = (m.run as).bind fun m' => m'.run bs := by
  induction as generalizing m with
  | nil => rfl
  | cons a as ih =>
      rw [List.cons_append, Share.run, Share.run, Option.bind_assoc]
      exact congrArg _ (funext fun m' => ih m')

/-- A party that waits gets back what is kept for it. -/
theorem run_waits (m m' : Share T C) (as : List (Act T C)) (own c : C) (t : T)
    (h : m.run (as ++ [.turn own t]) = some m') (hquiet : ∀ a ∈ as, a.Quiet t)
    (ht : t ≠ m.current) (hc : m.saved t = some c) : m'.current = t ∧ m'.live = c := by
  rw [run_append] at h
  rcases Option.bind_eq_some_iff.mp h with ⟨m₁, hrun, hlast⟩
  rcases run_kept m m₁ as t hrun hquiet ht with ⟨hne, hsaved⟩
  rcases Option.bind_eq_some_iff.mp hlast with ⟨m₂, hturn, hend⟩
  rw [Share.run, Option.some.injEq] at hend
  subst hend
  have hlive := turn_live m₁ m₂ own c t hturn hne (hsaved.trans hc)
  rcases turn_some m₁ m₂ own t hturn with ⟨d, -, rfl⟩
  exact ⟨rfl, hlive⟩

/-- A party that hands the thing on goes on as it had stopped when it has it again. -/
theorem run_resumes (m m' : Share T C) (as : List (Act T C)) (own own' : C) (n : T)
    (h : m.run (.turn own n :: as ++ [.turn own' m.current]) = some m')
    (hquiet : ∀ a ∈ as, a.Quiet m.current) (hn : n ≠ m.current) :
    m'.current = m.current ∧ m'.live = own := by
  rcases Option.bind_eq_some_iff.mp h with ⟨m₁, hturn, hrun⟩
  have hsaved := turn_saved m m₁ own n hturn hn
  have hne : m.current ≠ m₁.current := by
    rcases turn_some m m₁ own n hturn with ⟨c, -, rfl⟩
    exact Ne.symm hn
  exact run_waits m₁ m' as own' own m.current hrun hquiet hne hsaved

end Turns

end Mirros
