import Mathlib.Data.List.Basic
import Mathlib.Data.List.Nodup

/-!
# Tickets

An allocator of numbers that counts upwards. A ticket is the number of tickets
drawn before it, so no number is handed out twice, not even after it was given
back, and the supply ends with the last number.

That makes uniqueness easy and reuse impossible: the numbers in use are always
different (`sound_draw`, `sound_giveBack`), and a draw succeeds as long as the
supply lasts, whatever is in use (`draw_of_lt`, `draw_of_le`).

## Main definitions

* `Tickets`: The tickets in use with their holders, and how many were drawn.
* `Tickets.draw`, `Tickets.giveBack`: The two operations.
* `Tickets.Sound`: The tickets in use are different and were drawn.

## Theorems

* `sound_draw`, `sound_giveBack`: The operations keep `Sound`.
* `holder_unique`, `ticket_unique`: A number has one holder and a holder one
  number.
-/

namespace Mirros

variable {α : Type*}

/-- The tickets in use, each with its holder, and the number of tickets drawn. -/
structure Tickets (α : Type*) where
  held : List (α × Nat)
  drawn : Nat

namespace Tickets

/-- Draw a ticket, if fewer than `supply` were drawn. -/
def draw (supply : Nat) (s : Tickets α) (a : α) : Option Nat × Tickets α :=
  if s.drawn < supply then (some s.drawn, ⟨(a, s.drawn) :: s.held, s.drawn + 1⟩)
  else (none, s)

/-- Give back what a holder has. -/
def giveBack [DecidableEq α] (s : Tickets α) (a : α) : Tickets α :=
  ⟨s.held.filter (fun h => h.1 ≠ a), s.drawn⟩

/-- The holder has no ticket. -/
def Free (s : Tickets α) (a : α) : Prop :=
  a ∉ s.held.map Prod.fst

instance [DecidableEq α] (s : Tickets α) (a : α) : Decidable (s.Free a) :=
  inferInstanceAs (Decidable (_ ∉ _))

/-- Every ticket in use was drawn, and neither a holder nor a number occurs
    twice. -/
structure Sound (s : Tickets α) : Prop where
  drawn : ∀ h ∈ s.held, h.2 < s.drawn
  holders : (s.held.map Prod.fst).Nodup
  numbers : (s.held.map Prod.snd).Nodup

theorem sound_empty : Sound (⟨[], 0⟩ : Tickets α) :=
  ⟨fun _ hh => absurd hh List.not_mem_nil, List.nodup_nil, List.nodup_nil⟩

theorem draw_of_lt (supply : Nat) (s : Tickets α) (a : α) (h : s.drawn < supply) :
    s.draw supply a = (some s.drawn, ⟨(a, s.drawn) :: s.held, s.drawn + 1⟩) :=
  if_pos h

theorem draw_of_le (supply : Nat) (s : Tickets α) (a : α) (h : supply ≤ s.drawn) :
    s.draw supply a = (none, s) :=
  if_neg (Nat.not_lt_of_le h)

/-- A holder without a ticket may draw one. -/
theorem sound_draw (supply : Nat) (s : Tickets α) (a : α) (hs : Sound s) (ha : s.Free a) :
    Sound (s.draw supply a).2 := by
  rcases Nat.lt_or_ge s.drawn supply with hlt | hge
  · rw [draw_of_lt supply s a hlt]
    refine ⟨fun h hh => ?_, ?_, ?_⟩
    · rcases List.mem_cons.mp hh with rfl | hh
      · exact Nat.lt_succ_self _
      · exact Nat.lt_succ_of_lt (hs.drawn h hh)
    · exact List.nodup_cons.mpr ⟨ha, hs.holders⟩
    · -- The next number is above all that were drawn.
      refine List.nodup_cons.mpr ⟨fun hmem => ?_, hs.numbers⟩
      rcases List.mem_map.mp hmem with ⟨h, hh, heq⟩
      exact absurd (hs.drawn h hh) (heq ▸ Nat.lt_irrefl _)
  · rw [draw_of_le supply s a hge]
    exact hs

theorem mem_giveBack [DecidableEq α] (s : Tickets α) (a b : α) (n : Nat) :
    (b, n) ∈ (s.giveBack a).held ↔ b ≠ a ∧ (b, n) ∈ s.held := by
  simp only [giveBack, List.mem_filter, decide_eq_true_eq, and_comm]

theorem sound_giveBack [DecidableEq α] (s : Tickets α) (a : α) (hs : Sound s) :
    Sound (s.giveBack a) := by
  refine ⟨fun h hh => hs.drawn h (List.mem_of_mem_filter hh), ?_, ?_⟩
  · exact hs.holders.sublist (List.filter_sublist.map Prod.fst)
  · exact hs.numbers.sublist (List.filter_sublist.map Prod.snd)

/-- The number of a ticket says who holds it. -/
theorem holder_unique (s : Tickets α) (hs : Sound s) (a b : α) (n : Nat) (ha : (a, n) ∈ s.held)
    (hb : (b, n) ∈ s.held) : a = b := by
  have heq := List.inj_on_of_nodup_map hs.numbers ha hb rfl
  exact (Prod.mk.inj heq).1

/-- A holder has one ticket only. -/
theorem ticket_unique (s : Tickets α) (hs : Sound s) (a : α) (m n : Nat) (hm : (a, m) ∈ s.held)
    (hn : (a, n) ∈ s.held) : m = n := by
  have heq := List.inj_on_of_nodup_map hs.holders hm hn rfl
  exact (Prod.mk.inj heq).2

end Tickets

end Mirros
