import Mirros.Lib.Count
import Mirros.Theory.Pages.Ops

/-!
# The Search for a Run of Pages

What `find_continous_pages` returns. Its loop counts clear bits from the cursor
to the end of the zone and then from the start of the zone to the cursor, and
stops as soon as the count is the number of pages asked for. The count is not
reset at a used page, so all that is known about the bits of the result is that
the last page of the run is clear (`findLoop_clear`) and that the run does not
start before the pass that found it (`findLoop_pass`).

The loop looks at the bit of page `bm_end`, which belongs to the next zone,
before it tests for the end. `findContinousPages_end` says exactly when that
page becomes the last page of the result.

## Main definitions

* `clearIn`: The number of clear bits in an interval of the page map.
* `Pass`: The position of the loop in one of its two passes.
* `CursorIn`: The cursor of a zone lies in the range of the zone.
* `Overshoots`: The search comes to an end on the bit of page `bm_end`.

## Theorems

* `findLoop_clear`: A search that succeeds ends on a clear bit of the map.
* `findLoop_above`: A run that is found starts above the pages reserved at boot.
* `findLoop_pass`: A search that succeeds has counted exactly as many clear
  bits as pages were asked for, in one of the two passes.
* `findContinousPages_end`: The run stays inside the zone unless the search
  overshoots, and only then.
-/

namespace Mirros

namespace Mm

/-- The number of clear bits of the page map in `[a, b)`. -/
def clearIn (mm : Mm) (a b : Nat) : Nat :=
  countIn (fun i => !used mm.pageMap i) a b

/-- One turn of the loop on a position inside the map, with the bit read. -/
theorem findLoop_succ (mm : Mm) (zone : Zone) (count fuel i : Nat) (again : Bool) (sum : Nat)
    (hin : mm.inMap i = true) :
    mm.findLoop zone count (fuel + 1) i again sum
      = if used mm.pageMap i = false ∧ sum + 1 = count then some (sub32 (i + 1) count)
        else
          let sum := if used mm.pageMap i = false then sum + 1 else sum
          if i = zone.bmEnd then
            if sub32 zone.bmStart 1 = zone.bmCurrent then some 0
            else mm.findLoop zone count fuel (add32 (sub32 zone.bmStart 1) 1) true 0
          else if again = true ∧ i = zone.bmCurrent then some 0
          else mm.findLoop zone count fuel (add32 i 1) again sum := by
  have hbit := readBit_eq_zero_iff mm.pageMap i
  rw [findLoop, if_pos hin]
  by_cases hused : used mm.pageMap i = false
  · rw [if_pos (hbit.mpr hused)]
    simp only [hbit.mpr hused, hused, true_and, if_true]
    by_cases hsum : sum + 1 = count
    · rw [if_pos hsum, if_pos hsum]
    · rw [if_neg hsum, if_neg hsum]
      by_cases hend : i = zone.bmEnd
      · simp [hend]
      · simp [hend]
  · -- The bit is set: no hit on this turn, and the sum stays as it is.
    have hread : readBit mm.pageMap i ≠ 0 := fun hc => hused (hbit.mp hc)
    simp only [hread, hused, false_and, if_false]
    by_cases hend : i = zone.bmEnd
    · simp [hend]
    · simp [hend]

theorem findLoop_outside (mm : Mm) (zone : Zone) (count fuel i : Nat) (again : Bool) (sum : Nat)
    (hin : ¬mm.inMap i = true) : mm.findLoop zone count fuel i again sum = none := by
  cases fuel with
  | zero => rfl
  | succ fuel => rw [findLoop, if_neg hin]

/-- Whatever the cursor, a search that succeeds ends on a clear bit. -/
theorem findLoop_clear (mm : Mm) (zone : Zone) (count : Nat) :
    ∀ (fuel i : Nat) (again : Bool) (sum index : Nat),
      mm.findLoop zone count fuel i again sum = some index → index ≠ 0 →
      ∃ k, mm.inMap k = true ∧ used mm.pageMap k = false ∧ index = sub32 (k + 1) count := by
  intro fuel
  induction fuel with
  | zero =>
      intro i again sum index h hne
      exact absurd h (by simp only [findLoop, reduceCtorEq, not_false_eq_true])
  | succ fuel ih =>
      intro i again sum index h hne
      by_cases hin : mm.inMap i = true
      swap
      · rw [findLoop_outside mm zone count _ i again sum hin] at h
        exact absurd h (by simp only [reduceCtorEq, not_false_eq_true])
      rw [findLoop_succ mm zone count fuel i again sum hin] at h
      -- The only way out with a result is a hit on this turn.
      by_cases hhit : used mm.pageMap i = false ∧ sum + 1 = count
      · rw [if_pos hhit, Option.some.injEq] at h
        exact ⟨i, hin, hhit.1, h.symm⟩
      rw [if_neg hhit] at h
      -- Past the end the search wraps to the start, with the sum cleared.
      by_cases hend : i = zone.bmEnd
      · simp only [hend, if_true] at h
        by_cases hcur : sub32 zone.bmStart 1 = zone.bmCurrent
        · rw [if_pos hcur, Option.some.injEq] at h
          exact absurd h.symm hne
        · rw [if_neg hcur] at h
          exact ih _ _ _ index h hne
      · simp only [hend, if_false] at h
        by_cases hstop : again = true ∧ i = zone.bmCurrent
        · rw [if_pos hstop, Option.some.injEq] at h
          exact absurd h.symm hne
        · rw [if_neg hstop] at h
          exact ih _ _ _ index h hne

/-- The sum counts clear bits since the start of the pass, so a run that is found
    starts no earlier than the first of them. -/
theorem findLoop_above (mm : Mm) (zone : Zone) (count reserved : Nat)
    (hwords : 32 * mm.mapWords < u32Size)
    (hused : ∀ q < reserved, used mm.pageMap q = true) :
    ∀ (fuel i : Nat) (again : Bool) (sum index : Nat), sum ≤ i - reserved →
      mm.findLoop zone count fuel i again sum = some index → index ≠ 0 → reserved ≤ index := by
  intro fuel
  induction fuel with
  | zero =>
      intro i again sum index _ h _
      exact absurd h (by simp only [findLoop, reduceCtorEq, not_false_eq_true])
  | succ fuel ih =>
      intro i again sum index hsum h hne
      by_cases hin : mm.inMap i = true
      swap
      · rw [findLoop_outside mm zone count _ i again sum hin] at h
        exact absurd h (by simp only [reduceCtorEq, not_false_eq_true])
      rw [findLoop_succ mm zone count fuel i again sum hin] at h
      have hi : i + 1 < u32Size := by
        have hlt := of_decide_eq_true hin
        omega
      have hnext : add32 i 1 = i + 1 := Nat.mod_eq_of_lt hi
      -- A clear bit is above the reserved pages.
      have hclear : used mm.pageMap i = false → reserved ≤ i := by
        intro hfree
        by_contra hc
        exact Bool.noConfusion ((hused i (by omega)).symm.trans hfree)
      by_cases hhit : used mm.pageMap i = false ∧ sum + 1 = count
      · rw [if_pos hhit, Option.some.injEq] at h
        have hge := hclear hhit.1
        rw [← h, ← hhit.2]
        unfold sub32 u32Size at *
        omega
      rw [if_neg hhit] at h
      by_cases hend : i = zone.bmEnd
      · simp only [hend, if_true] at h
        by_cases hcur : sub32 zone.bmStart 1 = zone.bmCurrent
        · rw [if_pos hcur, Option.some.injEq] at h
          exact absurd h.symm hne
        · rw [if_neg hcur] at h
          exact ih _ _ 0 index (Nat.zero_le _) h hne
      · simp only [hend, if_false, hnext] at h
        by_cases hstop : again = true ∧ i = zone.bmCurrent
        · rw [if_pos hstop, Option.some.injEq] at h
          exact absurd h.symm hne
        · rw [if_neg hstop] at h
          refine ih _ _ _ index ?_ h hne
          by_cases hfree : used mm.pageMap i = false
          · have hge := hclear hfree
            rw [if_pos hfree]
            omega
          · rw [if_neg hfree]
            omega

/-- The pass of the loop: from the cursor to the end of the zone, or from its
    start to the cursor after the first pass found too few clear bits. -/
def Pass (mm : Mm) (zone : Zone) (count base i : Nat) (again : Bool) : Prop :=
  base ≤ i ∧
    ((again = false ∧ base = zone.bmCurrent ∧ i ≤ zone.bmEnd) ∨
      (again = true ∧ base = zone.bmStart ∧ i ≤ zone.bmCurrent ∧
        mm.clearIn zone.bmCurrent (zone.bmEnd + 1) < count))

/-- The cursor of the zone lies in its range, both ends included. -/
def CursorIn (zone : Zone) : Prop :=
  zone.bmStart ≤ zone.bmCurrent ∧ zone.bmCurrent ≤ zone.bmEnd

theorem clearIn_succ (mm : Mm) (a b : Nat) (hab : a ≤ b) :
    mm.clearIn a (b + 1) = mm.clearIn a b + if used mm.pageMap b = false then 1 else 0 := by
  unfold clearIn
  rw [countIn_succ _ a b hab]
  by_cases hb : used mm.pageMap b = false
  · simp [hb]
  · simp [hb]

/-- The loop counts the clear bits of the pass it is in. -/
theorem findLoop_pass (mm : Mm) (zone : Zone) (count : Nat) (hwords : 32 * mm.mapWords < u32Size)
    (hcur : CursorIn zone) :
    ∀ (fuel base i : Nat) (again : Bool) (index : Nat),
      Pass mm zone count base i again → mm.clearIn base i < count →
      mm.findLoop zone count fuel i again (mm.clearIn base i) = some index → index ≠ 0 →
      ∃ base' k again', Pass mm zone count base' k again' ∧ used mm.pageMap k = false ∧
        mm.clearIn base' k + 1 = count ∧ index + count = k + 1 ∧ base' ≤ index := by
  rcases hcur with ⟨hstart, hend⟩
  intro fuel
  induction fuel with
  | zero =>
      intro base i again index _ _ h _
      exact absurd h (by simp only [findLoop, reduceCtorEq, not_false_eq_true])
  | succ fuel ih =>
      intro base i again index hpass hlt h hne
      by_cases hin : mm.inMap i = true
      swap
      · rw [findLoop_outside mm zone count _ i again _ hin] at h
        exact absurd h (by simp only [reduceCtorEq, not_false_eq_true])
      have hi : i + 1 < u32Size := by
        simp only [inMap, decide_eq_true_eq] at hin
        omega
      have hnext : add32 i 1 = i + 1 := Nat.mod_eq_of_lt hi
      have hbase : base ≤ i := hpass.1
      have hle : mm.clearIn base i ≤ i - base := countIn_le _ base i
      have hsucc := clearIn_succ mm base i hbase
      rw [findLoop_succ mm zone count fuel i again _ hin] at h
      by_cases hhit : used mm.pageMap i = false ∧ mm.clearIn base i + 1 = count
      · rw [if_pos hhit, Option.some.injEq] at h
        have hsub : sub32 (i + 1) count = i + 1 - count := by
          unfold sub32
          unfold u32Size at hi ⊢
          omega
        exact ⟨base, i, again, hpass, hhit.1, hhit.2, by omega, by omega⟩
      rw [if_neg hhit] at h
      -- The number counted so far, this position included, is still too small.
      have hsum : (if used mm.pageMap i = false then mm.clearIn base i + 1
          else mm.clearIn base i) = mm.clearIn base (i + 1) := by
        rw [hsucc]
        by_cases hused : used mm.pageMap i = false
        · rw [if_pos hused, if_pos hused]
        · rw [if_neg hused, if_neg hused, Nat.add_zero]
      have hlt' : mm.clearIn base (i + 1) < count := by
        rw [hsucc]
        by_cases hused : used mm.pageMap i = false
        · rw [if_pos hused]
          have hmiss : mm.clearIn base i + 1 ≠ count := fun hc => hhit ⟨hused, hc⟩
          omega
        · rw [if_neg hused]
          omega
      simp only [hsum] at h
      by_cases hlast : i = zone.bmEnd
      · -- The end of the zone: both kinds of pass go on from its start.
        rw [if_pos hlast] at h
        have hwrap : add32 (sub32 zone.bmStart 1) 1 = zone.bmStart := by
          unfold add32 sub32
          unfold u32Size at hi ⊢
          omega
        by_cases hstop : sub32 zone.bmStart 1 = zone.bmCurrent
        · rw [if_pos hstop, Option.some.injEq] at h
          exact absurd h.symm hne
        rw [if_neg hstop, hwrap] at h
        have hfirst : mm.clearIn zone.bmCurrent (zone.bmEnd + 1) < count := by
          rcases hpass.2 with ⟨_, hb, _⟩ | ⟨_, _, _, hfirst⟩
          · rw [← hb, ← hlast]
            exact hlt'
          · exact hfirst
        have hzero : mm.clearIn zone.bmStart zone.bmStart = 0 := countIn_self _ _
        apply ih zone.bmStart zone.bmStart true index
        · exact ⟨Nat.le_refl _, Or.inr ⟨rfl, rfl, hstart, hfirst⟩⟩
        · omega
        · rw [hzero]
          exact h
        · exact hne
      · rw [if_neg hlast] at h
        by_cases hstop : again = true ∧ i = zone.bmCurrent
        · rw [if_pos hstop, Option.some.injEq] at h
          exact absurd h.symm hne
        rw [if_neg hstop, hnext] at h
        apply ih base (i + 1) again index
        · refine ⟨by omega, ?_⟩
          rcases hpass.2 with ⟨ha, hb, hi'⟩ | ⟨ha, hb, hi', hfirst⟩
          · exact Or.inl ⟨ha, hb, by omega⟩
          · have hi'' : i ≠ zone.bmCurrent := fun hc => hstop ⟨ha, hc⟩
            exact Or.inr ⟨ha, hb, by omega, hfirst⟩
        · exact hlt'
        · exact h
        · exact hne

/-- The search for `count` pages ends on the bit of page `bm_end`, which is
    not a page of the zone. -/
def Overshoots (mm : Mm) (zone : Zone) (count : Nat) : Prop :=
  used mm.pageMap zone.bmEnd = false ∧
    (mm.clearIn zone.bmCurrent zone.bmEnd + 1 = count ∨
      (zone.bmCurrent = zone.bmEnd ∧ mm.clearIn zone.bmStart zone.bmEnd + 1 = count))

instance (mm : Mm) (zone : Zone) (count : Nat) : Decidable (mm.Overshoots zone count) :=
  inferInstanceAs (Decidable (_ ∧ (_ ∨ (_ ∧ _))))

/-- A run that was found lies in the zone from its start on, and it leaves the
    zone exactly when the search overshoots. -/
theorem findContinousPages_end (mm : Mm) (zone : Zone) (count index : Nat)
    (hwords : 32 * mm.mapWords < u32Size) (hcur : CursorIn zone) (hcount : 0 < count)
    (h : mm.findContinousPages zone count = some index) (hne : index ≠ 0) :
    zone.bmStart ≤ index ∧ index + count ≤ zone.bmEnd + 1 ∧
      (index + count ≤ zone.bmEnd ↔ ¬mm.Overshoots zone count) := by
  have hzero : mm.clearIn zone.bmCurrent zone.bmCurrent = 0 := countIn_self _ _
  have hrange := hcur
  rcases hrange with ⟨hstart, hend⟩
  rcases findLoop_pass mm zone count hwords hcur mm.findFuel zone.bmCurrent zone.bmCurrent false
    index ⟨Nat.le_refl _, Or.inl ⟨rfl, rfl, hend⟩⟩ (by omega) (by rw [hzero]; exact h) hne
    with ⟨base, k, again, ⟨hbk, hpass⟩, hclear, hsum, hindex, hbase⟩
  have hhit : ∀ a b, a ≤ k → k < b → mm.clearIn a k < mm.clearIn a b := by
    intro a b ha hb
    exact countIn_lt_of_hit _ a k b ha hb (by simp [hclear])
  rcases hpass with ⟨_, hb, hk⟩ | ⟨_, hb, hk, hfirst⟩
  · -- First pass: the run leaves the zone when its last page is `bm_end`.
    rw [hb] at hsum hbk hbase
    refine ⟨by omega, by omega, ?_⟩
    constructor
    · intro hle hover
      have hmore := hhit zone.bmCurrent zone.bmEnd hbk (by omega)
      rcases hover.2 with hover | ⟨heq, _⟩
      · omega
      · omega
    · intro hnot
      by_contra hgt
      have hke : k = zone.bmEnd := by omega
      rw [hke] at hclear hsum
      exact hnot ⟨hclear, Or.inl hsum⟩
  · rw [hb] at hsum hbk hbase
    refine ⟨by omega, by omega, ?_⟩
    -- The first pass counted fewer than `count` clear bits.
    have hsplit := clearIn_succ mm zone.bmCurrent zone.bmEnd hend
    constructor
    · intro hle hover
      rw [if_pos hover.1] at hsplit
      rcases hover.2 with hover' | ⟨heq, hover'⟩
      · omega
      · have hmore := hhit zone.bmStart zone.bmEnd hbk (by omega)
        omega
    · intro hnot
      by_contra hgt
      have hke : k = zone.bmEnd := by omega
      have heq : zone.bmCurrent = zone.bmEnd := by omega
      rw [hke] at hclear hsum
      rw [if_pos hclear] at hsplit
      exact hnot ⟨hclear, Or.inr ⟨heq, hsum⟩⟩

end Mm

end Mirros
