import Mathlib.Data.List.Basic
import Mathlib.Tactic

/-!
# Counting Positions in an Interval

How many positions of a half-open interval of natural numbers satisfy a Boolean
predicate. A scan that moves one position at a time follows `countIn_succ`; an
update of a block of positions follows `countIn_block`, which says that turning
a block of hits into misses lowers the count by the length of the block.

## Main definitions

* `countIn`: The number of hits in an interval.

## Theorems

* `countIn_succ`: The count when the interval grows by one position.
* `countIn_split`: The count is additive over adjacent intervals.
* `countIn_le`: There are no more hits than positions.
* `countIn_lt_of_hit`: A hit further right makes the count larger.
* `countIn_block`: The count when a whole block of hits is removed.
* `countIn_hit_unique`: A hit is determined by the number of hits before it.
* `countIn_run_iff`: When the first hits of a scan stand side by side.
-/

namespace Mirros

/-- The number of positions in `[a, b)` where the predicate holds. -/
def countIn (p : Nat → Bool) (a b : Nat) : Nat :=
  (List.range' a (b - a)).countP p

theorem countIn_self (p : Nat → Bool) (a : Nat) : countIn p a a = 0 := by
  unfold countIn
  rw [Nat.sub_self]
  rfl

theorem countIn_succ (p : Nat → Bool) (a b : Nat) (hab : a ≤ b) :
    countIn p a (b + 1) = countIn p a b + if p b then 1 else 0 := by
  unfold countIn
  have hlen : b + 1 - a = (b - a) + 1 := by omega
  have hlast : a + 1 * (b - a) = b := by omega
  rw [hlen, List.range'_concat, List.countP_append, hlast, List.countP_singleton]

theorem countIn_split (p : Nat → Bool) (a m b : Nat) (ham : a ≤ m) (hmb : m ≤ b) :
    countIn p a b = countIn p a m + countIn p m b := by
  induction b, hmb using Nat.le_induction with
  | base => rw [countIn_self, Nat.add_zero]
  | succ b hmb ih =>
      rw [countIn_succ p a b (by omega), countIn_succ p m b hmb, ih]
      omega

theorem countIn_congr (p q : Nat → Bool) (a b : Nat)
    (h : ∀ i, a ≤ i → i < b → p i = q i) : countIn p a b = countIn q a b := by
  unfold countIn
  apply List.countP_congr
  intro i hi
  rw [List.mem_range'_1] at hi
  rw [h i hi.1 (by omega)]

theorem countIn_le (p : Nat → Bool) (a b : Nat) : countIn p a b ≤ b - a := by
  unfold countIn
  have hle := List.countP_le_length (p := p) (l := List.range' a (b - a))
  rwa [List.length_range'] at hle

theorem countIn_all (p : Nat → Bool) (a b : Nat) (h : ∀ i, a ≤ i → i < b → p i = true) :
    countIn p a b = b - a := by
  unfold countIn
  rw [List.countP_eq_length.mpr, List.length_range']
  intro i hi
  rw [List.mem_range'_1] at hi
  exact h i hi.1 (by omega)

theorem countIn_none (p : Nat → Bool) (a b : Nat) (h : ∀ i, a ≤ i → i < b → p i = false) :
    countIn p a b = 0 := by
  unfold countIn
  rw [List.countP_eq_zero]
  intro i hi
  rw [List.mem_range'_1] at hi
  rw [h i hi.1 (by omega)]
  exact Bool.false_ne_true

/-- Where everything was counted there are only hits. -/
theorem countIn_full (p : Nat → Bool) (a b i : Nat) (h : countIn p a b = b - a) (hai : a ≤ i)
    (hib : i < b) : p i = true := by
  by_contra hp
  have hlow := countIn_le p a i
  have hhigh := countIn_le p (i + 1) b
  have hsplit := countIn_split p a (i + 1) b (by omega) (by omega)
  rw [countIn_succ p a i hai, if_neg hp] at hsplit
  omega

/-- A hit at `i` is counted by every interval that reaches past it. -/
theorem countIn_lt_of_hit (p : Nat → Bool) (a i b : Nat) (hai : a ≤ i) (hib : i < b)
    (hi : p i = true) : countIn p a i < countIn p a b := by
  rw [countIn_split p a (i + 1) b (by omega) (by omega), countIn_succ p a i hai, if_pos hi]
  omega

/-- Turning a block of hits into misses. -/
theorem countIn_block (p q : Nat → Bool) (a b i n : Nat) (hai : a ≤ i) (hib : i + n ≤ b)
    (hp : ∀ j, i ≤ j → j < i + n → p j = true) (hq : ∀ j, i ≤ j → j < i + n → q j = false)
    (hsame : ∀ j, a ≤ j → j < b → ¬(i ≤ j ∧ j < i + n) → q j = p j) :
    countIn q a b + n = countIn p a b := by
  -- Both counts are split at the ends of the block.
  have hq3 : countIn q a b = countIn q a i + (countIn q i (i + n) + countIn q (i + n) b) := by
    rw [countIn_split q a i b hai (by omega), countIn_split q i (i + n) b (by omega) hib]
  have hp3 : countIn p a b = countIn p a i + (countIn p i (i + n) + countIn p (i + n) b) := by
    rw [countIn_split p a i b hai (by omega), countIn_split p i (i + n) b (by omega) hib]
  have hleft : countIn q a i = countIn p a i :=
    countIn_congr q p a i (fun j h1 h2 => hsame j h1 (by omega) (by omega))
  have hright : countIn q (i + n) b = countIn p (i + n) b :=
    countIn_congr q p (i + n) b (fun j h1 h2 => hsame j (by omega) h2 (by omega))
  rw [hq3, hp3, hleft, hright, countIn_all p i (i + n) hp, countIn_none q i (i + n) hq]
  omega

/-- Two hits with the same number of hits before them are the same one. -/
theorem countIn_hit_unique (p : Nat → Bool) (a i j : Nat) (hai : a ≤ i) (haj : a ≤ j)
    (hi : p i = true) (hj : p j = true) (heq : countIn p a i = countIn p a j) : i = j := by
  rcases Nat.lt_trichotomy i j with hlt | rfl | hlt
  · have hmore := countIn_lt_of_hit p a i j hai hlt hi
    omega
  · rfl
  · have hmore := countIn_lt_of_hit p a j i haj hlt hj
    omega

/-- Where nothing was counted there is no hit. -/
theorem countIn_zero (p : Nat → Bool) (a b i : Nat) (h : countIn p a b = 0) (hai : a ≤ i)
    (hib : i < b) : p i = false := by
  by_contra hp
  have hmore := countIn_lt_of_hit p a i b hai hib (by simpa using hp)
  omega

/-- The `n`-th hit of a scan from `a` ends a run of `n` hits exactly when the
    first hit of the scan begins one. -/
theorem countIn_run_iff (p : Nat → Bool) (a k n : Nat) (hak : a ≤ k) (hk : p k = true)
    (hn : countIn p a k + 1 = n) :
    (∀ j, k + 1 - n ≤ j → j < k + 1 → p j = true) ↔
      ∃ b, a ≤ b ∧ (∀ j, a ≤ j → j < b → p j = false) ∧ ∀ j, b ≤ j → j < b + n → p j = true := by
  have hle := countIn_le p a k
  constructor
  · intro hrun
    have hsplit := countIn_split p a (k + 1 - n) (k + 1) (by omega) (by omega)
    rw [countIn_succ p a k hak, if_pos hk, countIn_all p (k + 1 - n) (k + 1) hrun] at hsplit
    refine ⟨k + 1 - n, by omega, fun j haj hj => ?_, fun j hj hjn => hrun j hj (by omega)⟩
    exact countIn_zero p a (k + 1 - n) j (by omega) haj hj
  · rintro ⟨b, hab, hbefore, hrun⟩
    -- The run of hits ends on the hit with `n - 1` hits before it, which is `k`.
    have hlast : countIn p a (b + n - 1) = n - 1 := by
      rw [countIn_split p a b (b + n - 1) hab (by omega), countIn_none p a b hbefore,
        countIn_all p b (b + n - 1) (fun j hj hjn => hrun j hj (by omega))]
      omega
    have heq : k = b + n - 1 :=
      countIn_hit_unique p a k (b + n - 1) hak (by omega) hk (hrun _ (by omega) (by omega))
        (by omega)
    intro j hj hjk
    exact hrun j (by omega) (by omega)

end Mirros
