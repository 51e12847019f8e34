import Mirros.Theory.Pages.Boot
import Mirros.Theory.Pages.Search

/-!
# What the Search for a Run Finds

`find_continous_pages` as a function of the page map, for a zone whose bits are
in the map. The search makes a pass from the cursor to the bit behind the zone
and, when that counted too few clear bits, a pass from the start of the zone to
the cursor. It returns the position where the count was reached, less the count
(`searched`), or zero when neither pass got there.

Three things follow. The pages returned are free exactly when the first clear
bits of the pass stand side by side, because a used bit in between does not
reset the count. A free run is found exactly when one of the passes has enough
clear bits, which a run on both sides of the cursor does not give by itself. And
the loop ends: its only way not to is the cursor at the end of the zone, where
the exit test is skipped, and then the second pass runs over the whole zone and
succeeds if the zone has as many free pages as were asked for.

## Main definitions

* `FreeRun`: All bits of a run of pages are clear.
* `HasRun`: The zone has a free run of some length.
* `Enough`: One of the two passes has enough clear bits.
* `SideBySide`: The first clear bits from a position on make a run.
* `Unbroken`: They do in the pass that has enough.
* `Searched`: What the search returns.

## Theorems

* `findLoop_run`: The loop over a stretch in which it neither wraps nor stops.
* `searched`: What the search returns.
* `freeRun_iff_sideBySide`: When the result of a pass is free.
* `enough_of_run`: A run on one side of the cursor is seen by a pass.
* `search_returns_free_run`: When the pages returned are free.
* `search_finds_run`: When a free run is found.
* `search_ends`: The loop ends.
-/

namespace Mirros

namespace Mm

/-- The bits of `count` pages from `index` on are clear. -/
def FreeRun (mm : Mm) (index count : Nat) : Prop :=
  ∀ j, index ≤ j → j < index + count → used mm.pageMap j = false

/-- The zone has a run of `count` free pages. -/
def HasRun (mm : Mm) (zone : Zone) (count : Nat) : Prop :=
  ∃ a, zone.bmStart ≤ a ∧ a + count ≤ zone.bmEnd ∧ mm.FreeRun a count

/-- One of the two passes comes across `count` clear bits. -/
def Enough (mm : Mm) (zone : Zone) (count : Nat) : Prop :=
  count ≤ mm.clearIn zone.bmCurrent (zone.bmEnd + 1) ∨
    count ≤ mm.clearIn zone.bmStart (zone.bmCurrent + 1)

/-- The first clear bit from `base` on begins a run of `count` clear bits. -/
def SideBySide (mm : Mm) (base count : Nat) : Prop :=
  ∃ a, base ≤ a ∧ (∀ j, base ≤ j → j < a → used mm.pageMap j = true) ∧ mm.FreeRun a count

/-- In the pass that comes across `count` clear bits, the first ones stand side
    by side. -/
def Unbroken (mm : Mm) (zone : Zone) (count : Nat) : Prop :=
  (count ≤ mm.clearIn zone.bmCurrent (zone.bmEnd + 1) → mm.SideBySide zone.bmCurrent count) ∧
    (mm.clearIn zone.bmCurrent (zone.bmEnd + 1) < count →
      count ≤ mm.clearIn zone.bmStart (zone.bmCurrent + 1) → mm.SideBySide zone.bmStart count)

/-- The bit at `k` is the clear one with which a scan from `base` has `count`. -/
def Reaches (mm : Mm) (base count k : Nat) : Prop :=
  base ≤ k ∧ used mm.pageMap k = false ∧ mm.clearIn base k + 1 = count

/-- What the search returns: the count was reached in the first pass, or in the
    second after the first came short, or in neither. -/
def Searched (mm : Mm) (zone : Zone) (count index : Nat) : Prop :=
  (∃ k, k ≤ zone.bmEnd ∧ mm.Reaches zone.bmCurrent count k ∧ index = k + 1 - count) ∨
    (mm.clearIn zone.bmCurrent (zone.bmEnd + 1) < count ∧
      ∃ k, k ≤ zone.bmCurrent ∧ mm.Reaches zone.bmStart count k ∧ index = k + 1 - count) ∨
    (mm.clearIn zone.bmCurrent (zone.bmEnd + 1) < count ∧
      mm.clearIn zone.bmStart (zone.bmCurrent + 1) < count ∧ index = 0)

section

variable (mm : Mm) (zone : Zone) (count : Nat)

/-- A turn of the loop counts the bit it looks at. -/
theorem turn_sum (base i : Nat) (hi : base ≤ i) :
    (if used mm.pageMap i = false then mm.clearIn base i + 1 else mm.clearIn base i)
      = mm.clearIn base (i + 1) := by
  rw [clearIn_succ mm base i hi]
  split <;> omega

/-- A turn that does not reach the count leaves it short. -/
theorem turn_short (base i : Nat) (hi : base ≤ i) (hlt : mm.clearIn base i < count)
    (hmiss : ¬(used mm.pageMap i = false ∧ mm.clearIn base i + 1 = count)) :
    mm.clearIn base (i + 1) < count := by
  rw [clearIn_succ mm base i hi]
  by_cases hused : used mm.pageMap i = false
  · have hne : mm.clearIn base i + 1 ≠ count := fun hc => hmiss ⟨hused, hc⟩
    rw [if_pos hused]
    omega
  · rw [if_neg hused]
    omega

/-- The loop over a stretch `[i, stop)` in which it neither wraps nor stops: it
    comes across the last clear bit it needs, or goes on behind the stretch. -/
theorem findLoop_run (base : Nat) (again : Bool) (stop : Nat) (hstop : stop < u32Size)
    (hin : ∀ j, j < stop → mm.inMap j = true) :
    ∀ n i, base ≤ i → i + n = stop → mm.clearIn base i < count →
      (∀ j, i ≤ j → j < stop → j ≠ zone.bmEnd ∧ ¬(again = true ∧ j = zone.bmCurrent)) →
      (∃ k, k < stop ∧ mm.Reaches base count k ∧ ∀ fuel,
        mm.findLoop zone count (fuel + n) i again (mm.clearIn base i) = some (k + 1 - count)) ∨
      (mm.clearIn base stop < count ∧ ∀ fuel,
        mm.findLoop zone count (fuel + n) i again (mm.clearIn base i)
          = mm.findLoop zone count fuel stop again (mm.clearIn base stop)) := by
  intro n
  induction n with
  | zero =>
      intro i hbase hlen hlt hinner
      rw [Nat.add_zero] at hlen
      rw [hlen] at hlt ⊢
      -- Nothing is left of the stretch.
      exact Or.inr ⟨hlt, fun fuel => rfl⟩
  | succ n ih =>
      intro i hbase hlen hlt hinner
      have hi : i < stop := by omega
      have hturn := fun fuel => findLoop_succ mm zone count fuel i again (mm.clearIn base i)
        (hin i hi)
      have hle : mm.clearIn base i ≤ i - base := countIn_le _ base i
      have hnext : add32 i 1 = i + 1 := Nat.mod_eq_of_lt (by omega)
      by_cases hhit : used mm.pageMap i = false ∧ mm.clearIn base i + 1 = count
      · -- The bit at `i` is the last one that was missing.
        left
        have hsub : sub32 (i + 1) count = i + 1 - count := by
          unfold sub32
          unfold u32Size at hstop ⊢
          omega
        refine ⟨i, hi, ⟨hbase, hhit.1, hhit.2⟩, fun fuel => ?_⟩
        rw [← Nat.add_assoc, hturn, if_pos hhit, hsub]
      · -- One turn adds the bit at `i` to the count and moves on.
        have hsum := turn_sum mm base i hbase
        have hlt' := turn_short mm count base i hbase hlt hhit
        rcases hinner i (Nat.le_refl i) hi with ⟨hend, hcur⟩
        have hstep : ∀ fuel, mm.findLoop zone count (fuel + (n + 1)) i again (mm.clearIn base i)
            = mm.findLoop zone count (fuel + n) (i + 1) again (mm.clearIn base (i + 1)) := by
          intro fuel
          rw [← Nat.add_assoc, hturn, if_neg hhit, hsum]
          simp only [if_neg hend, if_neg hcur, hnext]
        -- The rest of the stretch decides, with the same two outcomes.
        rcases ih (i + 1) (by omega) (by omega) hlt'
          (fun j hj hjs => hinner j (by omega) hjs) with ⟨k, hk, hreach, hrun⟩ | ⟨hless, hrun⟩
        · exact Or.inl ⟨k, hk, hreach, fun fuel => (hstep fuel).trans (hrun fuel)⟩
        · exact Or.inr ⟨hless, fun fuel => (hstep fuel).trans (hrun fuel)⟩

/-- A pass from `base` up to and including `stop`, the first position at which
    the loop may wrap or stop. -/
theorem findLoop_upto (hcount : 0 < count) (base : Nat) (again : Bool) (stop : Nat)
    (hbase : base ≤ stop) (hstop : stop < u32Size) (hin : ∀ j, j ≤ stop → mm.inMap j = true)
    (hinner : ∀ j, base ≤ j → j < stop →
      j ≠ zone.bmEnd ∧ ¬(again = true ∧ j = zone.bmCurrent)) :
    (∃ k, k ≤ stop ∧ mm.Reaches base count k ∧ ∀ fuel,
      mm.findLoop zone count (fuel + (stop + 1 - base)) base again 0 = some (k + 1 - count)) ∨
    (mm.clearIn base (stop + 1) < count ∧ ∀ fuel,
      mm.findLoop zone count (fuel + (stop + 1 - base)) base again 0 =
        if stop = zone.bmEnd then
          if sub32 zone.bmStart 1 = zone.bmCurrent then some 0
          else mm.findLoop zone count fuel (add32 (sub32 zone.bmStart 1) 1) true 0
        else if again = true ∧ stop = zone.bmCurrent then some 0
        else mm.findLoop zone count fuel (add32 stop 1) again (mm.clearIn base (stop + 1))) := by
  have hzero : mm.clearIn base base = 0 := countIn_self _ base
  have hfuel : ∀ fuel, fuel + (stop + 1 - base) = fuel + 1 + (stop - base) := by
    intro fuel
    omega
  rcases findLoop_run mm zone count base again stop hstop (fun j hj => hin j (by omega))
    (stop - base) base (Nat.le_refl base) (by omega) (by omega) hinner with
    ⟨k, hk, hreach, hrun⟩ | ⟨hless, hrun⟩
  · -- Found before `stop`.
    left
    refine ⟨k, by omega, hreach, fun fuel => ?_⟩
    rw [hfuel, ← hzero]
    exact hrun (fuel + 1)
  · have hturn := fun fuel => findLoop_succ mm zone count fuel stop again (mm.clearIn base stop)
      (hin stop (Nat.le_refl stop))
    by_cases hhit : used mm.pageMap stop = false ∧ mm.clearIn base stop + 1 = count
    · -- Found at `stop` itself.
      left
      have hle : mm.clearIn base stop ≤ stop - base := countIn_le _ base stop
      have hsub : sub32 (stop + 1) count = stop + 1 - count := by
        unfold sub32
        unfold u32Size at hstop ⊢
        omega
      refine ⟨stop, Nat.le_refl stop, ⟨hbase, hhit.1, hhit.2⟩, fun fuel => ?_⟩
      have hgo := hrun (fuel + 1)
      rw [hzero] at hgo
      rw [hfuel, hgo, hturn, if_pos hhit, hsub]
    · -- The pass came short. What the loop does at `stop` then is left as it is.
      refine Or.inr ⟨turn_short mm count base stop hbase hless hhit, fun fuel => ?_⟩
      have hgo := hrun (fuel + 1)
      rw [hzero] at hgo
      rw [hfuel, hgo, hturn, if_neg hhit, turn_sum mm base stop hbase]

/-- The turns both passes take at most. -/
def searchTurns (zone : Zone) : Nat :=
  (zone.bmEnd + 1 - zone.bmCurrent) + (zone.bmEnd + 1 - zone.bmStart)

theorem searchTurns_le (hmap : mm.inMap zone.bmEnd = true) : searchTurns zone ≤ mm.findFuel := by
  simp only [inMap, decide_eq_true_eq] at hmap
  unfold searchTurns findFuel
  omega

section

variable (hcur : CursorIn zone) (hbound : zone.bmEnd < u32Size)
  (hmap : mm.inMap zone.bmEnd = true) (hcount : 0 < count)

include hcur hbound hmap hcount

/-- The first pass, from the cursor to the bit behind the zone. -/
theorem first_pass :
    (∃ k, k ≤ zone.bmEnd ∧ mm.Reaches zone.bmCurrent count k ∧ ∀ fuel,
      mm.findLoop zone count (fuel + (zone.bmEnd + 1 - zone.bmCurrent)) zone.bmCurrent false 0
        = some (k + 1 - count)) ∨
    (mm.clearIn zone.bmCurrent (zone.bmEnd + 1) < count ∧ ∀ fuel,
      mm.findLoop zone count (fuel + (zone.bmEnd + 1 - zone.bmCurrent)) zone.bmCurrent false 0
        = if sub32 zone.bmStart 1 = zone.bmCurrent then some 0
          else mm.findLoop zone count fuel zone.bmStart true 0) := by
  have hin : ∀ j, j ≤ zone.bmEnd → mm.inMap j = true := by
    intro j hj
    simp only [inMap, decide_eq_true_eq] at hmap ⊢
    omega
  -- The index is set to one less than the start, and the turn adds one.
  have hwrap : add32 (sub32 zone.bmStart 1) 1 = zone.bmStart := by
    rcases hcur with ⟨hstart, hend⟩
    unfold add32 sub32
    unfold u32Size at hbound ⊢
    omega
  rcases findLoop_upto mm zone count hcount zone.bmCurrent false zone.bmEnd hcur.2 hbound hin
    (fun j _ hj => ⟨Nat.ne_of_lt hj, fun hc => Bool.false_ne_true hc.1⟩) with
    hfound | ⟨hless, hrun⟩
  · exact Or.inl hfound
  · refine Or.inr ⟨hless, fun fuel => ?_⟩
    rw [hrun fuel, if_pos rfl, hwrap]

/-- With the cursor inside the zone the second pass runs up to the cursor, and
    the search returns what the passes come across. -/
theorem searched (hlt : zone.bmCurrent < zone.bmEnd) :
    ∃ index, Searched mm zone count index ∧ ∀ fuel, searchTurns zone ≤ fuel →
      mm.findLoop zone count fuel zone.bmCurrent false 0 = some index := by
  have hin : ∀ j, j ≤ zone.bmCurrent → mm.inMap j = true := by
    intro j hj
    simp only [inMap, decide_eq_true_eq] at hmap ⊢
    omega
  have hturns : ∀ fuel, searchTurns zone ≤ fuel →
      ∃ rest, zone.bmCurrent + 1 - zone.bmStart ≤ rest ∧
        fuel = rest + (zone.bmEnd + 1 - zone.bmCurrent) := by
    intro fuel hfuel
    unfold searchTurns at hfuel
    exact ⟨fuel - (zone.bmEnd + 1 - zone.bmCurrent), by omega, by omega⟩
  rcases first_pass mm zone count hcur hbound hmap hcount with
    ⟨k, hk, hreach, hrun⟩ | ⟨hless, hrun⟩
  · refine ⟨k + 1 - count, Or.inl ⟨k, hk, hreach, rfl⟩, fun fuel hfuel => ?_⟩
    rcases hturns fuel hfuel with ⟨rest, _, rfl⟩
    exact hrun rest
  · -- The cursor is not before the start, so the first pass does not stop the loop.
    have hne : sub32 zone.bmStart 1 ≠ zone.bmCurrent := by
      have hstart := hcur.1
      unfold sub32
      unfold u32Size at hbound ⊢
      omega
    -- The second pass is on positions before the end of the zone.
    rcases findLoop_upto mm zone count hcount zone.bmStart true zone.bmCurrent hcur.1 (by omega)
      hin (fun j _ hj => ⟨by omega, fun hc => by omega⟩) with
      ⟨k, hk, hreach, hrun'⟩ | ⟨hless', hrun'⟩
    · refine ⟨k + 1 - count, Or.inr (Or.inl ⟨hless, k, hk, hreach, rfl⟩), fun fuel hfuel => ?_⟩
      rcases hturns fuel hfuel with ⟨rest, hrest, rfl⟩
      rcases Nat.exists_eq_add_of_le' hrest with ⟨more, rfl⟩
      rw [hrun, if_neg hne, hrun']
    · refine ⟨0, Or.inr (Or.inr ⟨hless, hless', rfl⟩), fun fuel hfuel => ?_⟩
      rcases hturns fuel hfuel with ⟨rest, hrest, rfl⟩
      rcases Nat.exists_eq_add_of_le' hrest with ⟨more, rfl⟩
      rw [hrun, if_neg hne, hrun', if_neg (Nat.ne_of_lt hlt), if_pos ⟨rfl, rfl⟩]

/-- The search returns, and what it returns is zero or where a pass reached the
    count. -/
theorem findContinousPages_searched (hlt : zone.bmCurrent < zone.bmEnd) :
    ∃ index, mm.findContinousPages zone count = some index ∧ Searched mm zone count index := by
  rcases searched mm zone count hcur hbound hmap hcount hlt with ⟨index, hs, hrun⟩
  exact ⟨index, hrun _ (searchTurns_le mm zone hmap), hs⟩

/-- With as many free pages in the zone as were asked for, the search ends also
    when the cursor is at the end of the zone. -/
theorem search_total (hfree : count ≤ mm.clearIn zone.bmStart zone.bmEnd) :
    ∃ index, ∀ fuel, searchTurns zone ≤ fuel →
      mm.findLoop zone count fuel zone.bmCurrent false 0 = some index := by
  by_cases hlt : zone.bmCurrent < zone.bmEnd
  · rcases searched mm zone count hcur hbound hmap hcount hlt with ⟨index, _, hrun⟩
    exact ⟨index, hrun⟩
  have heq : zone.bmCurrent = zone.bmEnd := Nat.le_antisymm hcur.2 (Nat.le_of_not_lt hlt)
  have hin : ∀ j, j ≤ zone.bmEnd → mm.inMap j = true := by
    intro j hj
    simp only [inMap, decide_eq_true_eq] at hmap ⊢
    omega
  have hturns : ∀ fuel, searchTurns zone ≤ fuel →
      ∃ more, fuel = more + (zone.bmEnd + 1 - zone.bmStart)
        + (zone.bmEnd + 1 - zone.bmCurrent) := by
    intro fuel hfuel
    unfold searchTurns at hfuel
    exact ⟨fuel - searchTurns zone, by unfold searchTurns; omega⟩
  rcases first_pass mm zone count hcur hbound hmap hcount with ⟨k, hk, hreach, hrun⟩ | ⟨_, hrun⟩
  · refine ⟨k + 1 - count, fun fuel hfuel => ?_⟩
    rcases hturns fuel hfuel with ⟨more, rfl⟩
    exact hrun _
  by_cases hstop : sub32 zone.bmStart 1 = zone.bmCurrent
  · refine ⟨0, fun fuel hfuel => ?_⟩
    rcases hturns fuel hfuel with ⟨more, rfl⟩
    rw [hrun, if_pos hstop]
  · -- The second pass has the exit test only at the end of the zone, where it is
    -- skipped; the free pages of the zone end it before.
    have hsplit := clearIn_succ mm zone.bmStart zone.bmEnd (Nat.le_trans hcur.1 hcur.2)
    rcases findLoop_upto mm zone count hcount zone.bmStart true zone.bmEnd
      (Nat.le_trans hcur.1 hcur.2) hbound hin
      (fun j _ hj => ⟨Nat.ne_of_lt hj, fun hc => by omega⟩) with
      ⟨k, hk, hreach, hrun'⟩ | ⟨hless, _⟩
    · refine ⟨k + 1 - count, fun fuel hfuel => ?_⟩
      rcases hturns fuel hfuel with ⟨more, rfl⟩
      rw [hrun, if_neg hstop, hrun']
    · omega

end

/-- A pass that reaches the count has as many clear bits. -/
theorem clearIn_of_reaches (base k stop : Nat) (h : mm.Reaches base count k) (hk : k ≤ stop) :
    count ≤ mm.clearIn base (stop + 1) := by
  have hmore := countIn_lt_of_hit (fun i => !used mm.pageMap i) base k (stop + 1) h.1 (by omega)
    (by simp [h.2.1])
  have hcount := h.2.2
  unfold clearIn at hcount ⊢
  omega

/-- A run that begins at page zero: the pass began there and came across no used
    page. -/
theorem reaches_from_zero (base k : Nat) (h : mm.Reaches base count k)
    (hzero : k + 1 - count = 0) (j : Nat) (hj : j < k + 1) : used mm.pageMap j = false := by
  rcases h with ⟨hbase, hclear, hcount⟩
  have hle : mm.clearIn base k ≤ k - base := countIn_le _ base k
  -- With as many clear bits as positions, all of them are clear.
  have hall : mm.clearIn base (k + 1) = k + 1 - base := by
    rw [clearIn_succ mm base k hbase, if_pos hclear]
    omega
  have hclean := countIn_full (fun i => !used mm.pageMap i) base (k + 1) j hall (by omega) hj
  simpa using hclean

/-- The pages of a result are free when the first clear bits of the pass stand
    side by side, and only then. -/
theorem freeRun_iff_sideBySide (base k : Nat) (h : mm.Reaches base count k) :
    (k + 1 - count ≠ 0 → mm.FreeRun (k + 1 - count) count) ↔ mm.SideBySide base count := by
  have hle : mm.clearIn base k ≤ k - base := countIn_le _ base k
  have hend : k + 1 - count + count = k + 1 := by
    have hcount := h.2.2
    have hbase := h.1
    omega
  have hrun := countIn_run_iff (fun i => !used mm.pageMap i) base k count h.1 (by simp [h.2.1])
    h.2.2
  simp only [Bool.not_eq_eq_eq_not, Bool.not_true, Bool.not_false] at hrun
  unfold FreeRun
  rw [hend]
  -- A result of zero says nothing, but then the run is free anyway.
  refine Iff.trans ⟨fun hfree => ?_, fun hfree _ => hfree⟩ hrun
  by_cases hzero : k + 1 - count = 0
  · exact fun j _ hj => reaches_from_zero mm count base k h hzero j hj
  · exact hfree hzero

/-- A free run on one side of the cursor is seen whole by one of the passes. -/
theorem enough_of_run (a : Nat) (hstart : zone.bmStart ≤ a)
    (hend : a + count ≤ zone.bmEnd) (hrun : mm.FreeRun a count)
    (hside : zone.bmCurrent ≤ a ∨ a + count ≤ zone.bmCurrent + 1) : mm.Enough zone count := by
  -- A run has as many clear bits as it is long.
  have hwhole : mm.clearIn a (a + count) = count := by
    have hall := countIn_all (fun i => !used mm.pageMap i) a (a + count)
      (fun j hj hjc => by simp [hrun j hj hjc])
    unfold clearIn
    omega
  -- Every pass over the whole of it has at least those.
  have hsees : ∀ low high, low ≤ a → a + count ≤ high → count ≤ mm.clearIn low high := by
    intro low high hlow hhigh
    have hleft := countIn_split (fun i => !used mm.pageMap i) low a high hlow (by omega)
    have hright := countIn_split (fun i => !used mm.pageMap i) a (a + count) high (by omega) hhigh
    unfold clearIn at hwhole ⊢
    omega
  rcases hside with hside | hside
  · exact Or.inl (hsees _ _ hside (by omega))
  · exact Or.inr (hsees _ _ hstart hside)

end

/-- What the search returns is free exactly when, in the pass that comes across
    enough clear bits, the first ones are not broken up by a used page. -/
theorem search_returns_free_run (mm : Mm) (zone : Zone) (count : Nat)
    (hstart : zone.bmStart ≤ zone.bmCurrent) (hlt : zone.bmCurrent < zone.bmEnd)
    (hbound : zone.bmEnd < u32Size) (hmap : mm.inMap zone.bmEnd = true) (hcount : 0 < count) :
    (∀ index, mm.findContinousPages zone count = some index → index ≠ 0 →
      mm.FreeRun index count) ↔ mm.Unbroken zone count := by
  rcases findContinousPages_searched mm zone count ⟨hstart, Nat.le_of_lt hlt⟩ hbound hmap hcount
    hlt with ⟨index, hfind, hs⟩
  simp only [hfind, Option.some.injEq, forall_eq']
  unfold Unbroken
  rcases hs with ⟨k, hk, hreach, rfl⟩ | ⟨hless, k, hk, hreach, rfl⟩ | ⟨hless, hless', rfl⟩
  -- Found in the first pass, in the second, or in neither.
  · have hfirst := clearIn_of_reaches mm count _ k _ hreach hk
    rw [freeRun_iff_sideBySide mm count _ k hreach]
    exact ⟨fun h => ⟨fun _ => h, fun hc => by omega⟩, fun h => h.1 hfirst⟩
  · have hsecond := clearIn_of_reaches mm count _ k _ hreach hk
    rw [freeRun_iff_sideBySide mm count _ k hreach]
    exact ⟨fun h => ⟨fun hc => by omega, fun _ _ => h⟩, fun h => h.2 hless hsecond⟩
  · exact ⟨fun _ => ⟨fun hc => by omega, fun _ hc => by omega⟩, fun _ hc => absurd rfl hc⟩

/-- A page map of two equal words. -/
def wordBank (word : BitVec 32) : Mm :=
  { boardBank with pageMap := fun _ => word, mapWords := 2 }

/-- A zone of the pages from 1 to 30. -/
def wordZone (current : Nat) : Zone :=
  { boardZone 30 0 0 with bmStart := 1, bmEnd := 31, bmCurrent := current }

/-- With only page zero in use, the search for two pages returns the first two,
    and they are free. -/
theorem search_returns_free_run_word :
    (wordBank 0x1#32).findContinousPages (wordZone 1) 2 = some 1 ∧
      (wordBank 0x1#32).FreeRun 1 2 := by
  have heval : (wordBank 0x1#32).findContinousPages (wordZone 1) 2 = some 1 := by decide +kernel
  have hrun := (search_returns_free_run (wordBank 0x1#32) (wordZone 1) 2 (by decide) (by decide)
    (by decide) (by decide) (by decide)).mpr ⟨fun _ => ⟨1, by decide, fun j h1 h2 => ?_,
      fun j h1 h2 => ?_⟩, fun hless => absurd hless (by decide)⟩
  · exact ⟨heval, hrun 1 heval (by decide)⟩
  · exact absurd h1 (Nat.not_le_of_lt h2)
  · have hj : j = 1 ∨ j = 2 := by omega
    rcases hj with rfl | rfl <;> decide

/-- Pages 0 and 2 are in use: the search for two pages counts pages 1 and 3 and
    returns pages 2 and 3. -/
theorem search_returns_free_run_fails :
    ¬∀ (mm : Mm) (zone : Zone) (count : Nat), zone.bmStart ≤ zone.bmCurrent →
      zone.bmCurrent < zone.bmEnd → zone.bmEnd < u32Size → mm.inMap zone.bmEnd = true →
      0 < count → ∀ index, mm.findContinousPages zone count = some index → index ≠ 0 →
        mm.FreeRun index count := by
  intro hall
  have hused := hall (wordBank 0x5#32) (wordZone 1) 2 (by decide) (by decide) (by decide)
    (by decide) (by decide) 2 (by decide +kernel) (by decide) 2 (by decide) (by decide)
  exact absurd hused (by decide)

/-- Page zero is in use. A free run in the zone is found exactly when one of the
    passes has enough clear bits, and a run on one side of the cursor gives
    that. -/
theorem search_finds_run (mm : Mm) (zone : Zone) (count : Nat)
    (hzero : used mm.pageMap 0 = true) (hstart : zone.bmStart ≤ zone.bmCurrent)
    (hlt : zone.bmCurrent < zone.bmEnd) (hbound : zone.bmEnd < u32Size)
    (hmap : mm.inMap zone.bmEnd = true) (hcount : 0 < count) :
    ((mm.HasRun zone count → ∃ index, mm.findContinousPages zone count = some index ∧ index ≠ 0) ↔
        (mm.HasRun zone count → mm.Enough zone count)) ∧
      ∀ a, zone.bmStart ≤ a → a + count ≤ zone.bmEnd → mm.FreeRun a count →
        zone.bmCurrent ≤ a ∨ a + count ≤ zone.bmCurrent + 1 → mm.Enough zone count := by
  have hcur : CursorIn zone := ⟨hstart, Nat.le_of_lt hlt⟩
  -- A result of zero would have been found on page zero, which is in use.
  have hne : ∀ base k, mm.Reaches base count k → k + 1 - count ≠ 0 := by
    intro base k hreach hc
    rw [reaches_from_zero mm count base k hreach hc 0 (Nat.succ_pos k)] at hzero
    exact Bool.false_ne_true hzero
  refine ⟨?_, fun a ha hac hrun hside => enough_of_run mm zone count a ha hac hrun hside⟩
  rcases findContinousPages_searched mm zone count hcur hbound hmap hcount hlt with
    ⟨index, hfind, hs⟩
  simp only [hfind, Option.some.injEq, exists_eq_left']
  refine imp_congr_right (fun _ => ?_)
  rcases hs with ⟨k, hk, hreach, rfl⟩ | ⟨hless, k, hk, hreach, rfl⟩ | ⟨hless, hless', rfl⟩
  · exact ⟨fun _ => Or.inl (clearIn_of_reaches mm count _ k _ hreach hk), fun _ => hne _ k hreach⟩
  · exact ⟨fun _ => Or.inr (clearIn_of_reaches mm count _ k _ hreach hk), fun _ => hne _ k hreach⟩
  · unfold Enough
    exact ⟨fun hc => absurd rfl hc, fun hc => by omega⟩

/-- With only page zero in use, two pages are found. -/
theorem search_finds_run_word :
    ∃ index, (wordBank 0x1#32).findContinousPages (wordZone 1) 2 = some index ∧ index ≠ 0 := by
  refine (search_finds_run (wordBank 0x1#32) (wordZone 1) 2 (by decide) (by decide) (by decide)
    (by decide) (by decide) (by decide)).1.mpr (fun _ => Or.inl (by decide)) ⟨1, by decide,
      by decide, fun j h1 h2 => ?_⟩
  have hj : j = 1 ∨ j = 2 := by omega
  rcases hj with rfl | rfl <;> decide

/-- Pages 8 to 11 are free and the cursor is at page 10: the first pass counts
    two clear bits, the second three, and four pages are not found. -/
theorem search_finds_run_fails :
    ¬∀ (mm : Mm) (zone : Zone) (count : Nat), used mm.pageMap 0 = true →
      zone.bmStart ≤ zone.bmCurrent → zone.bmCurrent < zone.bmEnd → zone.bmEnd < u32Size →
      mm.inMap zone.bmEnd = true → 0 < count → mm.HasRun zone count →
        mm.findContinousPages zone count ≠ some 0 := by
  intro hall
  refine hall (wordBank 0xfffff0ff#32) (wordZone 10) 4 (by decide) (by decide) (by decide)
    (by decide) (by decide) (by decide) ⟨8, by decide, by decide, fun j h1 h2 => ?_⟩
    (by decide +kernel)
  have hj : j = 8 ∨ j = 9 ∨ j = 10 ∨ j = 11 := by omega
  rcases hj with rfl | rfl | rfl | rfl <;> decide

/-- The loop ends for every number of pages the zone has free, wherever the
    cursor is, after at most one turn for each position of the two passes. -/
theorem search_ends (mm : Mm) (zone : Zone) (count : Nat)
    (hstart : zone.bmStart ≤ zone.bmCurrent) (hend : zone.bmCurrent ≤ zone.bmEnd)
    (hbound : zone.bmEnd < u32Size) (hmap : mm.inMap zone.bmEnd = true) (hcount : 0 < count)
    (hpages : zone.freePages = mm.clearIn zone.bmStart zone.bmEnd)
    (htest : count ≤ zone.freePages) :
    ∃ index, (∀ fuel, searchTurns zone ≤ fuel →
        mm.findLoop zone count fuel zone.bmCurrent false 0 = some index) ∧
      mm.findContinousPages zone count = some index := by
  rcases search_total mm zone count ⟨hstart, hend⟩ hbound hmap hcount (hpages ▸ htest) with
    ⟨index, hrun⟩
  exact ⟨index, hrun, hrun _ (searchTurns_le mm zone hmap)⟩

/-- The cursor is at the end of the zone and all of its thirty pages are free. -/
theorem search_ends_word :
    ∃ index, (wordBank 0x1#32).findContinousPages (wordZone 31) 30 = some index := by
  rcases search_ends (wordBank 0x1#32) (wordZone 31) 30 (by decide) (by decide) (by decide)
    (by decide) (by decide) (by decide) (by decide) with ⟨index, _, hfind⟩
  exact ⟨index, hfind⟩

end Mm

end Mirros
