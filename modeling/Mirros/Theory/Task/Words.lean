import Mirros.Core.Task
import Mirros.Lib.Segment

/-!
# Words in Memory

How `store32`, `load32` and the pushes of a context work together: a word that was
stored is loaded again, a store leaves the words apart from it alone, and pushing
words onto a stack leaves them in memory from the last one up.

## Main definitions

* `ApartFrom`: No byte of a word is one of the bytes of another.
* `pushAddr`: The address of the word pushed after a number of others.

## Theorems

* `load32_store32`: What was stored is loaded.
* `load32_congr`: A word depends on its four bytes only.
* `pushWords_load`: The words on the stack after a number of pushes.
-/

namespace Mirros

theorem store32_apart (ram : Ram) (addr value x : Nat) (h : x < addr ∨ addr + 4 ≤ x) :
    store32 ram addr value x = ram x := by
  unfold store32
  rw [if_neg (by omega)]

/-- The same four bytes somewhere else in another memory are the same word. -/
theorem load32_shift (ram ram' : Ram) (addr addr' : Nat)
    (h : ∀ i < 4, ram' (addr' + i) = ram (addr + i)) : load32 ram' addr' = load32 ram addr := by
  have h0 : ram' addr' = ram addr := h 0 (by omega)
  unfold load32
  rw [h0, h 1 (by omega), h 2 (by omega), h 3 (by omega)]

theorem load32_congr (ram ram' : Ram) (addr : Nat)
    (h : ∀ i < 4, ram' (addr + i) = ram (addr + i)) : load32 ram' addr = load32 ram addr :=
  load32_shift ram ram' addr addr h

theorem load32_putList (ram : Ram) (addr a : Nat) (bytes : List (BitVec 8))
    (h : addr + 4 ≤ a ∨ a + bytes.length ≤ addr) :
    load32 (putList ram a bytes) addr = load32 ram addr :=
  load32_congr _ _ _ (fun i hi => putList_outside _ _ _ _ (by omega))

theorem load32_store32 (ram : Ram) (addr value : Nat) (h : value < u32Size) :
    load32 (store32 ram addr value) addr = value := by
  have hbyte : ∀ i < 4, (store32 ram addr value (addr + i)).toNat = value / 256 ^ i % 256 := by
    intro i hi
    unfold store32
    rw [if_pos (by omega), Nat.add_sub_cancel_left, BitVec.toNat_ofNat]
  have h0 := hbyte 0 (by omega)
  rw [Nat.add_zero] at h0
  unfold load32
  rw [h0, hbyte 1 (by omega), hbyte 2 (by omega), hbyte 3 (by omega)]
  unfold u32Size at h
  omega

/-- The words at two addresses have no byte in common. -/
def ApartFrom (a b : Nat) : Prop :=
  a + 4 ≤ b ∨ b + 4 ≤ a

theorem load32_store32_apart (ram : Ram) (a b value : Nat) (h : ApartFrom a b) :
    load32 (store32 ram a value) b = load32 ram b := by
  refine load32_congr _ _ _ (fun i hi => store32_apart ram a value (b + i) ?_)
  unfold ApartFrom at h
  omega

/-- Storing the next word of a list whose words lie apart: `loc` says where
    word `i` is and `val` how it is stored. -/
theorem load32_concat (ram : Ram) (loc val : Nat → Nat) (ws : List Nat) (w : Nat)
    (hold : ∀ i v, ws[i]? = some v → load32 ram (loc i) = val v) (hval : val w < u32Size)
    (hapart : ∀ i < ws.length, ApartFrom (loc ws.length) (loc i)) (i v : Nat)
    (hv : (ws ++ [w])[i]? = some v) :
    load32 (store32 ram (loc ws.length) (val w)) (loc i) = val v := by
  by_cases hi : i = ws.length
  · subst hi
    rw [List.getElem?_concat_length, Option.some.injEq] at hv
    rw [← hv]
    exact load32_store32 _ _ _ hval
  · have hi' : i < ws.length := by
      have hlt := (List.getElem?_eq_some_iff.1 hv).1
      rw [List.length_append, List.length_singleton] at hlt
      omega
    rw [List.getElem?_append_left hi'] at hv
    rw [load32_store32_apart _ _ _ _ (hapart i hi')]
    exact hold i v hv

/-- The address of a word with `n` words above it. -/
def pushAddr (top n : Nat) : Nat :=
  sub32 top (4 * (n + 1))

theorem sub32_add (a b c : Nat) : sub32 (sub32 a b) c = sub32 a (b + c) := by
  unfold sub32 u32Size
  omega

/-- Words at different depths are apart, also when the stack wraps around. -/
theorem pushAddr_apart (top m n : Nat) (h : m ≠ n) (hm : m < 2 ^ 20) (hn : n < 2 ^ 20) :
    ApartFrom (pushAddr top m) (pushAddr top n) := by
  unfold ApartFrom pushAddr sub32 u32Size
  omega

theorem pushWords_addr (ram : Ram) (top : Nat) (htop : top < u32Size) (ws : List Nat) :
    (pushWords ram top ws).2 = sub32 top (4 * ws.length) := by
  unfold pushWords
  induction ws using List.reverseRecOn with
  | nil =>
      unfold sub32
      simp only [List.foldl_nil, List.length_nil]
      unfold u32Size at *
      omega
  | append_singleton ws w ih =>
      rw [List.foldl_append, List.foldl_cons, List.foldl_nil, ih, sub32_add, List.length_append]
      rfl

/-- After the pushes, every word is at its depth; memory apart from them is as
    it was. -/
theorem pushWords_load (ram : Ram) (top : Nat) (htop : top < u32Size) (ws : List Nat)
    (hlen : ws.length < 2 ^ 20) (hws : ∀ w ∈ ws, w < u32Size) :
    (∀ i w, ws[i]? = some w → load32 (pushWords ram top ws).1 (pushAddr top i) = w) ∧
      ∀ x, (∀ i < ws.length, x < pushAddr top i ∨ pushAddr top i + 4 ≤ x) →
        (pushWords ram top ws).1 x = ram x := by
  induction ws using List.reverseRecOn with
  | nil => exact ⟨fun i w h => absurd h (by simp), fun x _ => rfl⟩
  | append_singleton ws w ih =>
      rw [List.length_append, List.length_singleton] at hlen
      rcases ih (by omega) (fun v hv => hws v (List.mem_append_left _ hv)) with ⟨hload, hrest⟩
      -- The last push goes below all earlier ones.
      have hlast : (pushWords ram top (ws ++ [w])).1
          = store32 (pushWords ram top ws).1 (pushAddr top ws.length) w := by
        have haddr := pushWords_addr ram top htop ws
        unfold pushWords at haddr ⊢
        rw [List.foldl_append, List.foldl_cons, List.foldl_nil, haddr, sub32_add]
        rfl
      rw [hlast]
      refine ⟨fun i v hv => ?_, fun x hx => ?_⟩
      · have hapart : ∀ j < ws.length, ApartFrom (pushAddr top ws.length) (pushAddr top j) :=
          fun j hj => pushAddr_apart top _ _ (by omega) (by omega) (by omega)
        exact load32_concat _ (pushAddr top) id ws w hload (hws w (by simp)) hapart i v hv
      · rw [List.length_append, List.length_singleton] at hx
        rw [store32_apart _ _ _ _ (hx ws.length (by omega))]
        exact hrest x (fun i hi => hx i (by omega))

end Mirros
