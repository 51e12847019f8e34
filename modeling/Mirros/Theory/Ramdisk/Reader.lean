import Mirros.Core.Ramdisk
import Mirros.Lib.Pieces
import Mirros.Theory.Task.Words

/-!
# Reading the Ramdisk

The three things the kernel does with an image, each on its own: comparing strings,
going over the headers, and reading a file.

`strcmp` ends at the terminator of its second argument at the latest, and returns
zero if and only if the strings are equal. So the loop of `ramdisk_open` passes a
header with another name (`openLoop_miss`) and stops at one with the name it looks
for (`openLoop_hit`).

`ramdisk_read` computes with addresses as words. Where none of them wraps around
it is the read of a program (`ramdiskRead_exec`), and reading on until nothing comes
gives the pieces of the file one after the other (`readAll_drain`).

## Main definitions

* `readAll`: Reading a file to its end.

## Theorems

* `strcmp_spec`: What `strcmp` returns.
* `openLoop_miss`, `openLoop_hit`: A turn of the loop over the headers.
* `ramdiskRead_exec`: Reading without wrapping around.
* `readAll_content`: Reading a file to its end gives its content.
-/

namespace Mirros

namespace Ramdisk

/-- The two strings agree before the `i`-th characters. What `strcmp` returns then
    is zero if they are equal, and only then. -/
theorem strcmp_spec (src dst : Nat → BitVec 8) (xs ys : List (BitVec 8))
    (hs : StringAt 0#8 src xs) (hd : StringAt 0#8 dst ys) (fuel i : Nat) (hi : i ≤ ys.length)
    (hfuel : ys.length < i + fuel) (hbefore : ∀ j < i, src j = dst j) :
    ∃ ret, strcmp src dst fuel i = some ret ∧ (ret = 0 ↔ xs = ys) := by
  induction fuel generalizing i with
  | zero => omega
  | succ fuel ih =>
      by_cases hsame : src i = dst i
      · -- The loop goes on, unless the second string ends here.
        have hret : ((src i).toNat : Int) - ((dst i).toNat : Int) = 0 := by
          rw [hsame, Int.sub_self]
        have hupto : ∀ j < i + 1, src j = dst j := by
          intro j hj
          rcases Nat.lt_succ_iff_lt_or_eq.mp hj with hlt | rfl
          · exact hbefore j hlt
          · exact hsame
        by_cases hend : dst i = 0#8
        · -- The end of both strings.
          have hlen := (stringAt_stop _ _ _ hd i hi).mp hend
          refine ⟨0, ?_, iff_of_true rfl ?_⟩
          · rw [strcmp, if_neg (fun h => h.2 hend), hret]
            rfl
          · exact stringAt_eq _ _ _ _ _ hs hd (fun j hj => hupto j (by omega))
        · have hlt : i ≠ ys.length := fun h => hend ((stringAt_stop _ _ _ hd i hi).mpr h)
          rw [strcmp, if_pos ⟨hret, hend⟩]
          exact ih (i + 1) (by omega) (by omega) hupto
      · -- A difference ends the loop, and equal strings have none up to the end.
        have hne : ((src i).toNat : Int) - ((dst i).toNat : Int) ≠ 0 := by
          intro h
          exact hsame (BitVec.eq_of_toNat_eq (by omega))
        have hdiff : xs ≠ ys := by
          rintro rfl
          exact hsame (stringAt_agree _ _ _ _ hs hd i hi)
        rw [strcmp, if_neg (fun h => hne h.1)]
        refine ⟨_, rfl, iff_of_false (fun h => ?_) hdiff⟩
        split at h
        · omega
        · split at h <;> omega

/-- `strcmp` on whole strings. -/
theorem strcmp_zero (src dst : Nat → BitVec 8) (xs ys : List (BitVec 8))
    (hs : StringAt 0#8 src xs) (hd : StringAt 0#8 dst ys) (hlen : ys.length < strFuel) :
    ∃ ret, strcmp src dst strFuel 0 = some ret ∧ (ret = 0 ↔ xs = ys) :=
  strcmp_spec src dst xs ys hs hd strFuel 0 (Nat.zero_le _) (by rw [Nat.zero_add]; exact hlen)
    (fun j hj => absurd hj (Nat.not_lt_zero j))

section

variable (k : Kernel) (ramdiskStart : Nat) (name : Nat → BitVec 8) (np : List (BitVec 8))

/-- A header with another name is passed. -/
theorem openLoop_miss (hname : StringAt 0#8 name np) (n temp : Nat) (xs : List (BitVec 8))
    (hheader : StringAt 0#8 (fun i => k.ram (temp + i)) xs) (hlen : xs.length < strFuel)
    (hne : np ≠ xs) :
    openLoop k ramdiskStart name (n + 1) temp
      = openLoop k ramdiskStart name n (temp + sizeofFileHeader) := by
  rcases strcmp_zero name _ np xs hname hheader hlen with ⟨ret, hcmp, hret⟩
  have hret : ret ≠ 0 := fun h => hne (hret.mp h)
  simp only [openLoop, hcmp, Option.bind_eq_bind, Option.bind_some, if_neg hret]

/-- The file of the header with the name is opened. -/
theorem openLoop_hit (hname : StringAt 0#8 name np) (n temp : Nat)
    (hheader : StringAt 0#8 (fun i => k.ram (temp + i)) np) (hlen : np.length < strFuel)
    (file : Nat) (slab : Slab) (hkmalloc : k.slab.kmalloc sizeofFile gfpKernel = some (file, slab))
    (hfile : file ≠ 0) :
    openLoop k ramdiskStart name (n + 1) temp =
      some (some ⟨add32 ramdiskStart (load32 k.ram (temp + 32)), load32 k.ram (temp + 36),
        add32 ramdiskStart (load32 k.ram (temp + 32))⟩, { k with slab := slab }) := by
  rcases strcmp_zero name _ np np hname hheader hlen with ⟨ret, hcmp, hret⟩
  simp only [openLoop, hcmp, Option.bind_eq_bind, Option.bind_some, if_pos (hret.mpr rfl),
    hkmalloc, if_neg hfile]
  rfl

end

/-- The headers of files with other names are passed. -/
theorem openLoop_pass (k : Kernel) (ramdiskStart : Nat) (name : Nat → BitVec 8)
    (np : List (BitVec 8)) (hname : StringAt 0#8 name np) (names : List (List (BitVec 8)))
    (n temp : Nat)
    (h : ∀ l xs r, names = l ++ xs :: r →
      StringAt 0#8 (fun i => k.ram (temp + sizeofFileHeader * l.length + i)) xs)
    (hlen : ∀ xs ∈ names, xs.length < strFuel) (hother : np ∉ names) :
    openLoop k ramdiskStart name (names.length + n) temp
      = openLoop k ramdiskStart name n (temp + sizeofFileHeader * names.length) := by
  induction names generalizing temp with
  | nil => rw [List.length_nil, Nat.zero_add, Nat.mul_zero, Nat.add_zero]
  | cons xs names ih =>
      -- The first header is passed, the others are one header further on.
      have hfirst := h [] xs names rfl
      rw [List.length_nil, Nat.mul_zero, Nat.add_zero] at hfirst
      have hrest : ∀ l ys r, names = l ++ ys :: r →
          StringAt 0#8 (fun i =>
            k.ram (temp + sizeofFileHeader + sizeofFileHeader * l.length + i)) ys := by
        intro l ys r hsplit
        have hshift : temp + sizeofFileHeader * (l.length + 1)
            = temp + sizeofFileHeader + sizeofFileHeader * l.length := by
          rw [Nat.mul_succ]
          omega
        rw [← hshift]
        exact h (xs :: l) ys r (by rw [hsplit, List.cons_append])
      rw [List.mem_cons, not_or] at hother
      rw [List.length_cons, Nat.add_right_comm,
        openLoop_miss k ramdiskStart name np hname _ temp xs hfirst (hlen xs List.mem_cons_self)
          hother.1,
        ih _ hrest (fun ys hys => hlen ys (List.mem_cons_of_mem xs hys)) hother.2, Nat.mul_succ]
      exact congrArg _ (by omega)

/-- A read in which no address wraps around. -/
theorem ramdiskRead_exec (ram : Ram) (file : RamFile) (buf size : Nat)
    (hcurr : file.base ≤ file.curr ∧ file.curr ≤ file.base + file.size)
    (hsize : file.size ≤ ramdiskMaxSize) (hwrap : file.base + file.size + size < u32Size) :
    ramdiskRead ram file buf size =
      (((min size (file.base + file.size - file.curr) : Nat) : Int),
        Mirros.ramdiskRead ram file buf size) := by
  have hend : add32 file.base file.size = file.base + file.size := Nat.mod_eq_of_lt (by omega)
  have hlast : add32 file.curr size = file.curr + size := Nat.mod_eq_of_lt (by omega)
  -- What is left of the file is far below the sign bit.
  have hrest : toS32 (sub32 (file.base + file.size) file.curr)
      = (file.base + file.size - file.curr : Nat) := by
    have hsub : sub32 (file.base + file.size) file.curr = file.base + file.size - file.curr := by
      unfold sub32
      unfold u32Size at *
      omega
    unfold ramdiskMaxSize at hsize
    rw [hsub, toS32, if_pos (by omega)]
  have hcopy : (if add32 file.curr size > add32 file.base file.size then
        toS32 (sub32 (add32 file.base file.size) file.curr) else (size : Int))
      = (min size (file.base + file.size - file.curr) : Nat) := by
    rw [hend, hlast, hrest]
    split <;> omega
  have hnext : add32 file.curr (min size (file.base + file.size - file.curr))
      = file.curr + min size (file.base + file.size - file.curr) := Nat.mod_eq_of_lt (by omega)
  have hpos : ¬((min size (file.base + file.size - file.curr) : Nat) : Int) < 0 := by omega
  unfold ramdiskRead Mirros.ramdiskRead
  simp only [hcopy, if_neg hpos, Int.toNat_natCast, hnext]

/-- The bytes that were copied. -/
theorem getList_memcpy (ram : Ram) (target source n : Nat) :
    getList (memcpy ram target source n) target n = getList ram source n := by
  unfold getList
  refine List.map_congr_left (fun i hi => ?_)
  rw [List.mem_range] at hi
  unfold memcpy
  rw [if_pos (by omega), Nat.add_sub_cancel_left]

/-- Reading a file into buffers of any sizes until nothing comes, with the bytes
    that came. The first number bounds the reads. -/
def readAll (buf size : Nat → Nat) : Nat → Nat → Ram → RamFile → Option (List (BitVec 8))
  | 0, _, _, _ => none
  | fuel + 1, n, ram, file =>
      let (got, ram, file) := ramdiskRead ram file (buf n) (size n)
      if got = 0 then some []
      else (readAll buf size fuel (n + 1) ram file).map (getList ram (buf n) got.toNat ++ ·)

/-- Reading on from the middle of a file gives the rest of it in pieces. The bytes
    of the file stay where they are, as the buffers are somewhere else. -/
theorem readAll_drain (buf size : Nat → Nat) (content : List (BitVec 8)) (base : Nat)
    (hlen : content.length ≤ ramdiskMaxSize)
    (hwrap : ∀ n, base + content.length + size n < u32Size)
    (hapart : ∀ n, buf n + size n ≤ base ∨ base + content.length ≤ buf n) (fuel n c : Nat)
    (ram : Ram) (hc : c ≤ content.length) (hat : getList ram base content.length = content) :
    readAll buf size fuel n ram ⟨base, content.length, base + c⟩
      = drain size fuel n (content.drop c) := by
  induction fuel generalizing n c ram with
  | zero => rfl
  | succ fuel ih =>
      have hread := ramdiskRead_exec ram ⟨base, content.length, base + c⟩ (buf n) (size n)
        ⟨Nat.le_add_right _ _, Nat.add_le_add_left hc base⟩ hlen (hwrap n)
      have hgot : ((content.drop c).take (size n)).length
          = min (size n) (base + content.length - (base + c)) := by
        rw [List.length_take, List.length_drop, Nat.add_sub_add_left]
      generalize hm : min (size n) (base + content.length - (base + c)) = m at hread hgot
      rw [readAll, hread, drain, hgot]
      simp only [Int.natCast_eq_zero, Int.toNat_natCast]
      by_cases hzero : m = 0
      · rw [if_pos hzero, if_pos hzero]
      · rw [if_neg hzero, if_neg hzero]
        unfold Mirros.ramdiskRead
        simp only [hm]
        have hpiece : getList (memcpy ram (buf n) (base + c) m) (buf n) m
            = (content.drop c).take (size n) := by
          rw [getList_memcpy, getList_part ram base content hat c m (by omega)]
          refine List.take_eq_take_iff.mpr ?_
          rw [List.length_drop]
          omega
        -- The copy goes into the buffer, which is not in the file.
        have hkept : getList (memcpy ram (buf n) (base + c) m) base content.length = content := by
          rw [← hat, length_getList]
          refine getList_congr _ _ _ _ (fun i hi => ?_)
          have hn := hapart n
          unfold memcpy
          rw [if_neg (by omega)]
        have hrest : (content.drop c).drop (size n) = content.drop (c + m) := by
          rw [List.drop_drop]
          rcases Nat.lt_or_ge m (size n) with hlt | hge
          · -- Less than was asked for is all that was there.
            rw [List.drop_eq_nil_of_le (by omega), List.drop_eq_nil_of_le (by omega)]
          · rw [show size n = m by omega]
        rw [hpiece, hrest, Nat.add_assoc, ih (n + 1) (c + m) _ (by omega) hkept]

/-- Reading a file to its end gives its content, in pieces of any sizes. -/
theorem readAll_content (buf size : Nat → Nat) (content : List (BitVec 8)) (base : Nat) (ram : Ram)
    (hlen : content.length ≤ ramdiskMaxSize) (hsize : ∀ n, 0 < size n)
    (hwrap : ∀ n, base + content.length + size n < u32Size)
    (hapart : ∀ n, buf n + size n ≤ base ∨ base + content.length ≤ buf n) (fuel : Nat)
    (hfuel : content.length < fuel) (hat : getList ram base content.length = content) :
    readAll buf size fuel 0 ram ⟨base, content.length, base⟩ = some content := by
  have hdrain := readAll_drain buf size content base hlen hwrap hapart fuel 0 0 ram
    (Nat.zero_le _) hat
  rw [Nat.add_zero, List.drop_zero] at hdrain
  rw [hdrain, drain_all size hsize fuel 0 content hfuel]

end Ramdisk

end Mirros
