import Mirros.Theory.Task.Place

/-!
# The Arguments of a Program

`setup_task_argv` puts a table of 16 words at the start of the first page of the image and
the arguments behind it. From one argument to the next it goes on by the length of the
string, without its terminator, rounded up to a multiple of four. So the terminator of a
string whose length is a multiple of four lies where the next one starts, and is
overwritten unless that one is empty, and then by the one after it.

There is no test for the end of the page either, and of more than 16 arguments the rest is
dropped, while `arch_init_pt_regs` counts them all.

## Main definitions

* `Kernel.CStringAt`, `Kernel.ArgvAt`: A string in the memory of the task that runs, and a
  table of them.
* `Kernel.packArgs`: What the loop does to memory, with plain addresses.
* `Kernel.FitsIn`: The arguments end before a bound.
* `Kernel.Exec`, `Kernel.Room`: A task whose image is to be replaced, and where the arguments
  are not.
* `Kernel.Arrived`: The new process finds its arguments.

## Theorems

* `strlen_eq`, `strcpy_eq`, `countArgv_eq`: The loops over strings.
* `setupArgs_eq`: The loop over the arguments.
* `packArgs_copies`: When all the copies are whole.
* `loadElfImage_kept`: Sections that fit are loaded into the pages of the image only.
* `doExec_argv`: When the arguments arrive.
-/

namespace Mirros

namespace Kernel

section Reading

variable (mm : Mm) (ms : MmStruct) (safe : Nat → Prop)

/-- The task that runs has this byte at an address, and it lies in a safe place. -/
def ByteAt (ram : Ram) (va : Nat) (b : BitVec 8) : Prop :=
  ∃ x, accessVa mm ms va = some x ∧ safe x ∧ ram x = b

/-- The same for a word. -/
def WordAt (ram : Ram) (va w : Nat) : Prop :=
  ∃ x, accessVa mm ms va = some x ∧ (∀ i < 4, safe (x + i)) ∧ load32 ram x = w

/-- The bytes of a string, and its terminator. -/
def CStringAt (ram : Ram) : Nat → List (BitVec 8) → Prop
  | va, [] => ByteAt mm ms safe ram va 0#8
  | va, b :: bs => b ≠ 0#8 ∧ ByteAt mm ms safe ram va b ∧ CStringAt ram (va + 1) bs

/-- A table of strings, by their addresses and their bytes, closed with a null pointer. -/
def ArgvAt (ram : Ram) : Nat → List (Nat × List (BitVec 8)) → Prop
  | argv, [] => WordAt mm ms safe ram argv 0
  | argv, arg :: rest => arg.1 ≠ 0 ∧ WordAt mm ms safe ram argv arg.1 ∧
      CStringAt mm ms safe ram arg.1 arg.2 ∧ ArgvAt ram (argv + 4) rest

/-- Every address that is mapped is a word. -/
theorem accessVa_lt (va x : Nat) (h : accessVa mm ms va = some x) : va < u32Size := by
  unfold accessVa at h
  split_ifs at h with hhigh hlt
  · exact hlt
  · unfold processUserStackBase at hhigh
    unfold u32Size
    omega

theorem cstringAt_lt (ram : Ram) (bs : List (BitVec 8)) :
    ∀ va, CStringAt mm ms safe ram va bs → va + bs.length < u32Size := by
  induction bs with
  | nil =>
      rintro va ⟨x, hx, _⟩
      exact accessVa_lt mm ms va x hx
  | cons b bs ih =>
      rintro va ⟨_, _, hrest⟩
      have hlt := ih (va + 1) hrest
      rw [List.length_cons]
      omega

theorem argvAt_lt (ram : Ram) (args : List (Nat × List (BitVec 8))) :
    ∀ argv, ArgvAt mm ms safe ram argv args → argv + 4 * args.length < u32Size := by
  induction args with
  | nil =>
      rintro argv ⟨x, hx, _⟩
      exact accessVa_lt mm ms argv x hx
  | cons arg rest ih =>
      rintro argv ⟨_, _, _, hrest⟩
      have hlt := ih (argv + 4) hrest
      rw [List.length_cons]
      omega

/-- The bytes of a string are not terminators. -/
theorem cstringAt_proper (ram : Ram) (bs : List (BitVec 8)) :
    ∀ va, CStringAt mm ms safe ram va bs → 0#8 ∉ bs := by
  induction bs with
  | nil => exact fun _ _ => List.not_mem_nil
  | cons b bs ih =>
      rintro va ⟨hb, _, hrest⟩ hc
      rcases List.mem_cons.mp hc with hc | hc
      · exact hb hc.symm
      · exact ih (va + 1) hrest hc

theorem argvAt_proper (ram : Ram) (args : List (Nat × List (BitVec 8))) :
    ∀ argv, ArgvAt mm ms safe ram argv args → ∀ arg ∈ args, 0#8 ∉ arg.2 := by
  induction args with
  | nil => exact fun _ _ _ h => absurd h List.not_mem_nil
  | cons arg rest ih =>
      rintro argv ⟨_, _, hstr, hrest⟩ a ha
      rcases List.mem_cons.mp ha with rfl | ha
      · exact cstringAt_proper mm ms safe ram a.2 a.1 hstr
      · exact ih (argv + 4) hrest a ha

/-- A string in the memory of the kernel that is mapped in one piece. -/
theorem cstringAt_cells (ram : Ram) (bs : List (BitVec 8)) : ∀ va x,
    (∀ i ≤ bs.length, accessVa mm ms (va + i) = some (x + i) ∧ safe (x + i)) →
      StringAt 0#8 (fun i => ram (x + i)) bs → CStringAt mm ms safe ram va bs := by
  induction bs with
  | nil =>
      intro va x hmap hs
      rcases hmap 0 (Nat.le_refl 0) with ⟨hx, hsafe⟩
      exact ⟨x + 0, hx, hsafe, hs.closed⟩
  | cons b bs ih =>
      intro va x hmap hs
      rcases hmap 0 (Nat.zero_le _) with ⟨hx, hsafe⟩
      refine ⟨fun hb => hs.proper (hb ▸ List.mem_cons_self), ⟨x + 0, hx, hsafe, hs.cells 0 b rfl⟩,
        ih (va + 1) (x + 1) (fun i hi => ?_) ⟨fun i y hi => ?_, ?_, fun hc => ?_⟩⟩
      · rw [Nat.add_right_comm va, Nat.add_right_comm x]
        exact hmap (i + 1) (Nat.succ_le_succ hi)
      · rw [Nat.add_right_comm x]
        exact hs.cells (i + 1) y hi
      · rw [Nat.add_right_comm x]
        exact hs.closed
      · exact hs.proper (List.mem_cons_of_mem _ hc)

section Change

variable (ms' : MmStruct) (haccess : ∀ va, accessVa mm ms' va = accessVa mm ms va)
  (safe' : Nat → Prop) (ram ram' : Ram) (hsafe : ∀ x, safe x → safe' x ∧ ram' x = ram x)

include haccess hsafe

theorem byteAt_agree (va : Nat) (b : BitVec 8) (h : ByteAt mm ms safe ram va b) :
    ByteAt mm ms' safe' ram' va b := by
  rcases h with ⟨x, hx, hs, hb⟩
  exact ⟨x, (haccess va).trans hx, (hsafe x hs).1, (hsafe x hs).2.trans hb⟩

theorem wordAt_agree (va w : Nat) (h : WordAt mm ms safe ram va w) :
    WordAt mm ms' safe' ram' va w := by
  rcases h with ⟨x, hx, hs, hw⟩
  refine ⟨x, (haccess va).trans hx, fun i hi => (hsafe _ (hs i hi)).1, ?_⟩
  rw [load32_congr ram ram' x (fun i hi => (hsafe _ (hs i hi)).2), hw]

theorem cstringAt_agree (bs : List (BitVec 8)) :
    ∀ va, CStringAt mm ms safe ram va bs → CStringAt mm ms' safe' ram' va bs := by
  induction bs with
  | nil => exact fun va h => byteAt_agree mm ms safe ms' haccess safe' ram ram' hsafe va _ h
  | cons b bs ih =>
      exact fun va h => ⟨h.1, byteAt_agree mm ms safe ms' haccess safe' ram ram' hsafe va b h.2.1,
        ih (va + 1) h.2.2⟩

/-- A table that lies in safe places is still there in a memory that agrees on these. -/
theorem argvAt_agree (args : List (Nat × List (BitVec 8))) :
    ∀ argv, ArgvAt mm ms safe ram argv args → ArgvAt mm ms' safe' ram' argv args := by
  induction args with
  | nil => exact fun argv h => wordAt_agree mm ms safe ms' haccess safe' ram ram' hsafe argv 0 h
  | cons arg rest ih =>
      exact fun argv h => ⟨h.1,
        wordAt_agree mm ms safe ms' haccess safe' ram ram' hsafe argv _ h.2.1,
        cstringAt_agree mm ms safe ms' haccess safe' ram ram' hsafe _ _ h.2.2.1,
        ih (argv + 4) h.2.2.2⟩

end Change

theorem accessByte_byteAt (ram : Ram) (va : Nat) (b : BitVec 8) (h : ByteAt mm ms safe ram va b) :
    accessByte mm ms ram va = some b := by
  rcases h with ⟨x, hx, _, rfl⟩
  exact Option.map_eq_some_iff.mpr ⟨x, hx, rfl⟩

theorem accessWord_wordAt (ram : Ram) (va w : Nat) (h : WordAt mm ms safe ram va w) :
    accessWord mm ms ram va = some w := by
  rcases h with ⟨x, hx, _, rfl⟩
  exact Option.map_eq_some_iff.mpr ⟨x, hx, rfl⟩

/-- `strlen` counts the bytes. -/
theorem strlen_eq (ram : Ram) (bs : List (BitVec 8)) :
    ∀ n va, CStringAt mm ms safe ram va bs → bs.length < n →
      strlen mm ms ram n va = some bs.length := by
  induction bs with
  | nil =>
      intro n va h hn
      rcases Nat.exists_eq_succ_of_ne_zero (Nat.ne_of_gt hn) with ⟨n, rfl⟩
      simp only [strlen, accessByte_byteAt mm ms safe ram va _ h, Option.bind_eq_bind,
        Option.bind_some, BitVec.ofNat_eq_ofNat, if_true, List.length_nil]
  | cons b bs ih =>
      intro n va h hn
      rcases Nat.exists_eq_succ_of_ne_zero (Nat.ne_of_gt (Nat.lt_of_le_of_lt (Nat.zero_le _) hn)) with
        ⟨n, rfl⟩
      have hlt := cstringAt_lt mm ms safe ram bs _ h.2.2
      have hnext : add32 va 1 = va + 1 := Nat.mod_eq_of_lt (by omega)
      have hb : ¬b = 0 := h.1
      simp only [strlen, accessByte_byteAt mm ms safe ram va _ h.2.1, Option.bind_eq_bind,
        Option.bind_some, hb, if_false, hnext, ih n (va + 1) h.2.2 (Nat.lt_of_succ_lt_succ hn),
        Option.map_some, List.length_cons]

/-- One byte is a list of one. -/
theorem update_eq_putList (ram : Ram) (a : Nat) (b : BitVec 8) :
    Function.update ram a b = putList ram a [b] := by
  funext x
  rw [Function.update_apply]
  split_ifs with hx
  · rw [hx]
    exact (putList_inside ram a [b] 0 b rfl).symm
  · rw [putList_outside]
    rw [List.length_singleton]
    omega

/-- `strcpy` copies the string with its terminator, when it does not write over it. -/
theorem strcpy_eq (bs : List (BitVec 8)) :
    ∀ n ram des va, CStringAt mm ms safe ram va bs → bs.length < n →
      (∀ x, safe x → x < des ∨ des + bs.length + 1 ≤ x) → des + bs.length + 1 ≤ u32Size →
      strcpy mm ms n ram des va = some (putList ram des (bs ++ [0#8])) := by
  induction bs with
  | nil =>
      intro n ram des va h hn _ _
      rcases Nat.exists_eq_succ_of_ne_zero (Nat.ne_of_gt hn) with ⟨n, rfl⟩
      simp only [strcpy, accessByte_byteAt mm ms safe ram va _ h, Option.bind_eq_bind,
        Option.bind_some, BitVec.ofNat_eq_ofNat, if_true, update_eq_putList, List.nil_append]
  | cons b bs ih =>
      intro n ram des va h hn hapart htop
      rcases Nat.exists_eq_succ_of_ne_zero (Nat.ne_of_gt (Nat.lt_of_le_of_lt (Nat.zero_le _) hn)) with
        ⟨n, rfl⟩
      rw [List.length_cons] at hapart htop
      have hlt := cstringAt_lt mm ms safe ram bs _ h.2.2
      have hnext : add32 va 1 = va + 1 := Nat.mod_eq_of_lt (by omega)
      have hdes : add32 des 1 = des + 1 := Nat.mod_eq_of_lt (by omega)
      have hb : ¬b = 0 := h.1
      -- The rest of the string is still there after the first byte was written.
      have hagree : ∀ x, safe x → safe x ∧ Function.update ram des b x = ram x := by
        intro x hx
        have hne : x ≠ des := by
          have := hapart x hx
          omega
        exact ⟨hx, by rw [Function.update_of_ne hne]⟩
      have hrest := cstringAt_agree mm ms safe ms (fun _ => rfl) safe ram _ hagree bs (va + 1) h.2.2
      simp only [strcpy, accessByte_byteAt mm ms safe ram va _ h.2.1, Option.bind_eq_bind,
        Option.bind_some, hb, if_false, hnext, hdes]
      rw [ih n _ (des + 1) (va + 1) hrest (Nat.lt_of_succ_lt_succ hn)
        (fun x hx => by have := hapart x hx; omega) (by omega), update_eq_putList]
      exact congrArg some (putList_append ram des [b] (bs ++ [0#8]))

/-- The count of the arguments. -/
theorem countArgv_eq (ram : Ram) (args : List (Nat × List (BitVec 8))) :
    ∀ n argv, ArgvAt mm ms safe ram argv args → args.length < n →
      countArgv mm ms ram n argv = some args.length := by
  induction args with
  | nil =>
      intro n argv h hn
      rcases Nat.exists_eq_succ_of_ne_zero (Nat.ne_of_gt hn) with ⟨n, rfl⟩
      simp only [countArgv, accessWord_wordAt mm ms safe ram argv _ h, Option.bind_eq_bind,
        Option.bind_some, if_true, List.length_nil]
  | cons arg rest ih =>
      intro n argv h hn
      rcases Nat.exists_eq_succ_of_ne_zero (Nat.ne_of_gt (Nat.lt_of_le_of_lt (Nat.zero_le _) hn)) with
        ⟨n, rfl⟩
      have hlt := argvAt_lt mm ms safe ram rest (argv + 4) h.2.2.2
      have hnext : add32 argv 4 = argv + 4 := Nat.mod_eq_of_lt (by omega)
      simp only [countArgv, accessWord_wordAt mm ms safe ram argv _ h.2.1, Option.bind_eq_bind,
        Option.bind_some, h.1, if_false, hnext,
        ih n (argv + 4) h.2.2.2 (Nat.lt_of_succ_lt_succ hn), Option.map_some, List.length_cons]

end Reading

/-- Where the next argument goes. -/
def nextOff (off : Nat) (bs : List (BitVec 8)) : Nat :=
  (off + bs.length + 3) / 4 * 4

/-- One argument and its word in the table. -/
def putArg (base off i : Nat) (bs : List (BitVec 8)) (ram : Ram) : Ram :=
  store32 (putList ram (base + off) (bs ++ [0#8])) (base + 4 * i) (processUserBase + off)

/-- What the loop of `setup_task_argv` does to memory, with plain addresses: the arguments
    are put from `off` on and their words from `i` on. -/
def packArgs (base : Nat) : Nat → Nat → List (List (BitVec 8)) → Ram → Ram
  | _, _, [], ram => ram
  | off, i, bs :: rest, ram => packArgs base (nextOff off bs) (i + 1) rest (putArg base off i bs ram)

/-- The offset of an argument. -/
def argOff (off : Nat) (strs : List (List (BitVec 8))) (m : Nat) : Nat :=
  (strs.take m).foldl nextOff off

/-- Every argument ends before the bound. -/
def FitsIn (top : Nat) : Nat → List (List (BitVec 8)) → Prop
  | _, [] => True
  | off, bs :: rest => off + bs.length + 1 ≤ top ∧ FitsIn top (nextOff off bs) rest

theorem nextOff_ge (off : Nat) (bs : List (BitVec 8)) : off + bs.length ≤ nextOff off bs := by
  unfold nextOff
  omega

theorem nextOff_mod (off : Nat) (bs : List (BitVec 8)) : nextOff off bs % 4 = 0 :=
  Nat.mul_mod_left _ _

theorem fitsIn_iff (top : Nat) (strs : List (List (BitVec 8))) : ∀ off, FitsIn top off strs ↔
    ∀ m bs, strs[m]? = some bs → argOff off strs m + bs.length + 1 ≤ top := by
  induction strs with
  | nil => exact fun off => ⟨fun _ m bs h => (by cases h), fun _ => trivial⟩
  | cons b rest ih =>
      intro off
      rw [FitsIn, ih]
      constructor
      · rintro ⟨hb, hrest⟩ m bs hm
        cases m with
        | zero =>
            rw [List.getElem?_cons_zero, Option.some.injEq] at hm
            subst hm
            exact hb
        | succ m => exact hrest m bs hm
      · intro h
        exact ⟨h 0 b rfl, fun m bs hm => h (m + 1) bs hm⟩

section Packing

variable (base : Nat)

/-- The loop leaves everything alone but the words of its table and what is from its offset
    on. -/
theorem packArgs_outside (strs : List (List (BitVec 8))) : ∀ (off i : Nat) (ram : Ram) (x : Nat),
    (x < base + 4 * i ∨ base + 4 * (i + strs.length) ≤ x) → x < base + off →
      packArgs base off i strs ram x = ram x := by
  induction strs with
  | nil => exact fun _ _ _ _ _ _ => rfl
  | cons bs rest ih =>
      intro off i ram x htable hx
      rw [List.length_cons] at htable
      have hge := nextOff_ge off bs
      rw [packArgs, ih _ _ _ x (by omega) (by omega)]
      unfold putArg
      rw [store32_apart _ _ _ _ (by omega), putList_outside _ _ _ _ (Or.inl hx)]

/-- The words of the table. -/
theorem packArgs_words (strs : List (List (BitVec 8))) : ∀ (off i : Nat) (ram : Ram),
    4 * (i + strs.length) ≤ off →
      (∀ m < strs.length, processUserBase + argOff off strs m < u32Size) →
      ∀ m < strs.length, load32 (packArgs base off i strs ram) (base + 4 * (i + m)) =
        processUserBase + argOff off strs m := by
  induction strs with
  | nil => exact fun _ _ _ _ _ m hm => absurd hm (Nat.not_lt_zero m)
  | cons bs rest ih =>
      intro off i ram htable hword m hm
      rw [List.length_cons] at htable hm
      have hge := nextOff_ge off bs
      rw [packArgs]
      cases m with
      | zero =>
          -- The later turns leave the first word alone.
          rw [load32_congr (putArg base off i bs ram) _ _ (fun j hj =>
            packArgs_outside base rest _ _ _ _ (Or.inl (by omega)) (by omega))]
          exact load32_store32 _ _ _ (hword 0 (Nat.succ_pos _))
      | succ m =>
          have hih := ih (nextOff off bs) (i + 1) (putArg base off i bs ram) (by omega)
            (fun m hm => hword (m + 1) (Nat.succ_lt_succ hm)) m (by omega)
          rw [show i + (m + 1) = i + 1 + m by omega]
          exact hih

/-- A byte that is zero where the loop goes on stays zero if the rest is empty, and does
    not otherwise. -/
theorem packArgs_start (strs : List (List (BitVec 8))) : ∀ (off i : Nat) (ram : Ram),
    off % 4 = 0 → 4 * (i + strs.length) ≤ off → (∀ bs ∈ strs, 0#8 ∉ bs) → ram (base + off) = 0#8 →
      (packArgs base off i strs ram (base + off) = 0#8 ↔ ∀ bs ∈ strs, bs = []) := by
  induction strs with
  | nil => exact fun off i ram _ _ _ h => ⟨fun _ _ hc => absurd hc List.not_mem_nil, fun _ => h⟩
  | cons bs rest ih =>
      intro off i ram hmod htable hproper hzero
      rw [List.length_cons] at htable
      rw [packArgs]
      have hput : ∀ b, (bs ++ [0#8])[0]? = some b → putArg base off i bs ram (base + off) = b := by
        intro b hb
        unfold putArg
        rw [store32_apart _ _ _ _ (by omega)]
        exact putList_inside ram (base + off) _ 0 b hb
      cases bs with
      | nil =>
          have hsame : nextOff off [] = off := by
            unfold nextOff
            rw [List.length_nil]
            omega
          rw [hsame, ih off (i + 1) _ hmod (by omega)
            (fun b hb => hproper b (List.mem_cons_of_mem _ hb)) (hput 0#8 rfl), List.forall_mem_cons]
          simp only [true_and]
      | cons b bs =>
          have hge := nextOff_ge off (b :: bs)
          rw [List.length_cons] at hge
          rw [packArgs_outside base rest _ _ _ _ (by omega) (by omega), hput b rfl]
          refine ⟨fun hb => ?_, fun h => absurd (h _ List.mem_cons_self) (List.cons_ne_nil b bs)⟩
          exact absurd (hb ▸ List.mem_cons_self) (hproper _ List.mem_cons_self)

/-- All copies are whole if and only if a string whose length is a multiple of four is
    followed by empty ones only. -/
theorem packArgs_copies (strs : List (List (BitVec 8))) : ∀ (off i : Nat) (ram : Ram),
    off % 4 = 0 → 4 * (i + strs.length) ≤ off → (∀ bs ∈ strs, 0#8 ∉ bs) →
      ((∀ m bs, strs[m]? = some bs →
          StringAt 0#8 (fun j => packArgs base off i strs ram (base + argOff off strs m + j)) bs) ↔
        strs.Pairwise (fun a b => a.length % 4 = 0 → b = [])) := by
  induction strs with
  | nil => exact fun _ _ _ _ _ _ => ⟨fun _ => List.Pairwise.nil, fun _ m bs h => by cases h⟩
  | cons bs rest ih =>
      intro off i ram hmod htable hproper
      rw [List.length_cons] at htable
      have hge := nextOff_ge off bs
      have hproper' : ∀ b ∈ rest, 0#8 ∉ b := fun b hb => hproper b (List.mem_cons_of_mem _ hb)
      -- The first string is whole if its terminator is.
      have hfirst : StringAt 0#8 (fun j => packArgs base off i (bs :: rest) ram (base + off + j)) bs ↔
          (bs.length % 4 = 0 → ∀ b ∈ rest, b = []) := by
        have hput : ∀ j b, (bs ++ [0#8])[j]? = some b →
            putArg base off i bs ram (base + off + j) = b := by
          intro j b hb
          unfold putArg
          rw [store32_apart _ _ _ _ (by omega)]
          exact putList_inside ram (base + off) _ j b hb
        have hend := hput bs.length 0#8 List.getElem?_concat_length
        have hcells : ∀ j b, bs[j]? = some b →
            packArgs base off i (bs :: rest) ram (base + off + j) = b := by
          intro j b hb
          have hj := (List.getElem?_eq_some_iff.mp hb).1
          rw [packArgs, packArgs_outside base rest _ _ _ _ (by omega) (by omega)]
          exact hput j b (by rw [List.getElem?_append_left hj]; exact hb)
        have hclosed : packArgs base off i (bs :: rest) ram (base + off + bs.length) = 0#8 ↔
            (bs.length % 4 = 0 → ∀ b ∈ rest, b = []) := by
          rw [packArgs]
          by_cases hlen : bs.length % 4 = 0
          · -- The next argument starts on the terminator.
            have hnext : nextOff off bs = off + bs.length := by
              unfold nextOff
              omega
            have hstart := packArgs_start base rest (nextOff off bs) (i + 1) (putArg base off i bs ram)
              (nextOff_mod off bs) (by omega) hproper' (by rw [hnext, ← Nat.add_assoc]; exact hend)
            rw [hnext, ← Nat.add_assoc] at hstart
            rw [hnext, hstart]
            exact ⟨fun h _ => h, fun h => h hlen⟩
          · have hnext : off + bs.length < nextOff off bs := by
              unfold nextOff
              omega
            rw [packArgs_outside base rest _ _ _ _ (by omega) (by omega), hend]
            exact ⟨fun _ h => absurd h hlen, fun _ => rfl⟩
        rw [← hclosed]
        exact ⟨fun h => h.closed, fun h => ⟨hcells, h, hproper bs List.mem_cons_self⟩⟩
      rw [List.pairwise_cons, ← ih (nextOff off bs) (i + 1) (putArg base off i bs ram)
        (nextOff_mod off bs) (by omega) hproper']
      constructor
      · intro h
        refine ⟨fun b hb hlen => hfirst.mp (h 0 bs rfl) hlen b hb, fun m b hm => h (m + 1) b hm⟩
      · rintro ⟨hb, hrest⟩ m b hm
        cases m with
        | zero =>
            rw [List.getElem?_cons_zero, Option.some.injEq] at hm
            subst hm
            exact hfirst.mpr (fun hlen b hb' => hb b hb' hlen)
        | succ m => exact hrest m b hm

/-- Where a pointer to the arguments goes on. -/
theorem baligin_nextOff (b off top : Nat) (bs : List (BitVec 8)) (hb : b % 4 = 0)
    (htop : nextOff off bs + 4 ≤ top) (hmax : b + top ≤ u32Size) :
    baligin (add32 (b + off) bs.length) 4 = b + nextOff off bs := by
  have hge := nextOff_ge off bs
  have hadd : add32 (b + off) bs.length = b + off + bs.length := Nat.mod_eq_of_lt (by omega)
  rw [hadd, show (4 : Nat) = 2 ^ 2 from rfl, Mm.baligin_eq _ 2 (by decide) (by unfold u32Size at *; omega)]
  unfold nextOff
  omega

/-- The loop of `setup_task_argv`, when the arguments end before a bound and no string lies
    between the start of the page and the bound. -/
theorem setupArgs_eq (mm : Mm) (ms : MmStruct) (safe : Nat → Prop) (top : Nat)
    (hmod : base % 4 = 0) (htop : top % 4 = 0) (hbase : base + top ≤ u32Size)
    (huser : processUserBase + top ≤ u32Size)
    (hsafe : ∀ x, safe x → x < base ∨ base + top ≤ x) (n : Nat) :
    ∀ (args : List (Nat × List (BitVec 8))) (argv off i argvBase loadBase tableBase : Nat) (ram : Ram),
      ArgvAt mm ms safe ram argv args → 4 * (i + n) ≤ off → 4 * (i + n) ≤ top →
      FitsIn top off ((args.take n).map Prod.snd) →
      (args ≠ [] → n ≠ 0 → argvBase = processUserBase + off ∧ loadBase = base + off ∧
        tableBase = base + 4 * i) →
      setupArgs mm ms n argv argvBase loadBase tableBase ram =
        some (packArgs base off i ((args.take n).map Prod.snd) ram) := by
  induction n with
  | zero => exact fun _ _ _ _ _ _ _ _ _ _ _ _ _ => rfl
  | succ n ih =>
      intro args argv off i argvBase loadBase tableBase ram hargv hoff hi hfits hptr
      cases args with
      | nil =>
          simp only [setupArgs, accessWord_wordAt mm ms safe ram argv _ hargv, Option.bind_eq_bind,
            Option.bind_some, if_true]
          rfl
      | cons arg rest =>
          rcases hptr (List.cons_ne_nil _ _) (Nat.succ_ne_zero n) with ⟨rfl, rfl, rfl⟩
          rw [List.take_succ_cons, List.map_cons, FitsIn] at hfits
          rcases hfits with ⟨hend, hfits⟩
          have hlen := cstringAt_lt mm ms safe ram arg.2 _ hargv.2.2.1
          have hlt := argvAt_lt mm ms safe ram rest (argv + 4) hargv.2.2.2
          have hnext : add32 argv 4 = argv + 4 := Nat.mod_eq_of_lt (by omega)
          have hcopy := strcpy_eq mm ms safe arg.2 u32Size ram (base + off) arg.1 hargv.2.2.1 (by omega)
            (fun x hx => by have := hsafe x hx; omega) (by omega)
          have htable : add32 (base + 4 * i) 4 = base + 4 * (i + 1) ∨ rest = [] ∨ n = 0 := by
            by_cases hn : n = 0
            · exact Or.inr (Or.inr hn)
            · exact Or.inl (Nat.mod_eq_of_lt (show base + 4 * i + 4 < u32Size by omega))
          -- The strings are still there, as nothing below the bound is one of them.
          have hagree : ∀ x, safe x → safe x ∧ putArg base off i arg.2 ram x = ram x := by
            intro x hx
            have hout := hsafe x hx
            refine ⟨hx, ?_⟩
            unfold putArg
            rw [store32_apart _ _ _ _ (by omega), putList_outside]
            rw [List.length_append, List.length_singleton]
            omega
          have hrest := argvAt_agree mm ms safe ms (fun _ => rfl) safe ram _ hagree rest (argv + 4)
            hargv.2.2.2
          have hstep := ih rest (argv + 4) (nextOff off arg.2) (i + 1)
            (baligin (add32 (processUserBase + off) arg.2.length) 4)
            (baligin (add32 (base + off) arg.2.length) 4) (add32 (base + 4 * i) 4) _ hrest
            (by have := nextOff_ge off arg.2; omega) (by omega) hfits (fun hr hn => by
              -- There is one more argument, so the next offset is below the bound.
              rcases List.exists_cons_of_ne_nil hr with ⟨r, rs, rfl⟩
              rcases Nat.exists_eq_succ_of_ne_zero hn with ⟨n', rfl⟩
              rw [List.take_succ_cons, List.map_cons, FitsIn] at hfits
              have hm := nextOff_mod off arg.2
              have hroom : nextOff off arg.2 + 4 ≤ top := by omega
              refine ⟨baligin_nextOff processUserBase off top arg.2 (by decide) hroom huser,
                baligin_nextOff base off top arg.2 hmod hroom hbase,
                Nat.mod_eq_of_lt (show base + 4 * i + 4 < u32Size by omega)⟩)
          simp only [setupArgs, accessWord_wordAt mm ms safe ram argv _ hargv.2.1, Option.bind_eq_bind,
            Option.bind_some, hargv.1, if_false, hnext,
            strlen_eq mm ms safe ram arg.2 u32Size arg.1 hargv.2.2.1 (by omega), hcopy]
          exact hstep

end Packing

/-- A place outside some pages. -/
def OffPages (mm : Mm) (qs : List Nat) (x : Nat) : Prop :=
  ∀ q ∈ qs, ¬(mm.pageIdToVa q ≤ x ∧ x < mm.pageIdToVa q + pageSize)

/-- What loads into a page of a list leaves the places outside the list alone. -/
theorem loadPart_off (isBss : Bool) (base n : Nat) (ram : Ram) (file : RamFile)
    (r : Ram × RamFile)
    (hr : r = if isBss then (memzero ram base n, file) else ramdiskRead ram file base n) (x : Nat)
    (hx : ¬(base ≤ x ∧ x < base + n)) : r.1 x = ram x := by
  subst hr
  cases isBss with
  | true =>
      rw [if_pos rfl]
      exact if_neg hx
  | false =>
      rw [if_neg Bool.false_ne_true]
      -- A read may stop early.
      exact if_neg (by omega)

/-- The loop of `load_elf_section` writes to its pages only, when a part of less than a page
    does not go over the end of its page. -/
theorem loadPages_off (mm : Mm) (isBss : Bool) (x : Nat) (qs : List Nat) :
    ∀ (j k : Nat) (ram ram' : Ram) (file file' : RamFile), j < pageSize →
      (k < pageSize → j + k ≤ pageSize) →
      (∀ q ∈ qs, (mm.pageTable q).freeBase = mm.pageIdToVa q) → OffPages mm qs x →
      loadPages mm isBss qs j k ram file = some (ram', file') → ram' x = ram x := by
  induction qs with
  | nil => exact fun _ _ _ _ _ _ _ _ _ _ h => by cases h
  | cons q qs ih =>
      intro j k ram ram' file file' hj hpart hbase hx h
      rcases loadPages_turn mm isBss q qs j k ram file with ⟨n, hn, r, hr, hturn⟩
      rw [hbase q List.mem_cons_self] at hr
      have hle : j + n ≤ pageSize := by
        rw [hn]
        split_ifs <;> omega
      have hout := hx q List.mem_cons_self
      have hkept := loadPart_off isBss _ n ram file r hr x (by omega)
      rw [hturn] at h
      by_cases hgo : 0 < k - n
      · rw [if_pos hgo] at h
        have hrest := ih 0 (k - n) r.1 ram' r.2 file' (by decide) (fun h => by omega)
          (fun p hp => hbase p (List.mem_cons_of_mem _ hp))
          (fun p hp => hx p (List.mem_cons_of_mem _ hp)) h
        exact hrest.trans hkept
      · rw [if_neg hgo, Option.some.injEq] at h
        rw [← hkept, h]

end Kernel

/-- A section that is loaded in parts that fit into their pages. -/
def ElfSection.InPages (s : ElfSection) : Prop :=
  s.loadAddr % pageSize + s.size ≤ pageSize ∨ pageSize ≤ s.size

namespace Kernel

/-- The pages of the image of a task are in the map, and each is loaded to its own address. -/
def ImageBased (k : Kernel) (t : Nat) : Prop :=
  ∀ q ∈ (k.task t).mm.elfImageList,
    q < 32 * k.mm.mapWords ∧ (k.mm.pageTable q).freeBase = k.mm.pageIdToVa q

/-- What loading leaves alone. -/
structure LoadKept (k k' : Kernel) (t : Nat) : Prop where
  slab : k'.slab = k.slab
  current : k'.current = k.current
  flag : ∀ t', (k'.task t').flag = (k.task t').flag
  origin : ∀ t', (k'.task t').stackOrigin = (k.task t').stackOrigin
  image : ∀ t', (k'.task t').mm.elfImageList = (k.task t').mm.elfImageList
  stack : ∀ t', (k'.task t').mm.elfStackList = (k.task t').mm.elfStackList
  ram : ∀ x, OffPages k.mm (k.task t).mm.elfImageList x → k'.ram x = k.ram x

/-- Loading a section that fits. -/
theorem loadElfSection_off (k k' : Kernel) (t : Nat) (file file' : RamFile) (s : ElfSection)
    (hbased : k.ImageBased t) (hs : s.InPages)
    (h : k.loadElfSection t file s = some (0, file', k')) (x : Nat)
    (hx : OffPages k.mm (k.task t).mm.elfImageList x) : k'.ram x = k.ram x := by
  rcases loadElfSection_size k k' t file file' s h with ⟨hlow, hsize, -⟩
  unfold loadElfSection at h
  rw [if_neg (by omega)] at h
  by_cases hbig : 0x80000000 ≤ s.size
  · rw [if_pos hbig] at h
    exact absurd h (by simp only [reduceCtorEq, not_false_eq_true])
  rw [if_neg hbig] at h
  simp only [Option.pure_def, Option.bind_eq_bind, Option.bind_eq_some_iff, Prod.exists] at h
  rcases h with ⟨ram, file₁, hload, h⟩
  simp only [Option.some.injEq, Prod.mk.injEq] at h
  rw [← h.2.2]
  have hmod : (s.loadAddr - processUserBase) % pageSize = s.loadAddr % pageSize := by
    unfold processUserExecBase processUserBase pageSize at *
    omega
  have hj : (s.loadAddr - processUserBase) % pageSize < pageSize := Nat.mod_lt _ (by decide)
  refine loadPages_off k.mm s.isBss x _ _ s.size k.ram ram _ file₁ hj (fun hlt => ?_)
    (fun q hq => (hbased q (List.mem_of_mem_drop hq)).2)
    (fun q hq => hx q (List.mem_of_mem_drop hq)) hload
  rcases hs with hs | hs <;> omega

theorem loadElfSections_off (t : Nat) (sections : List ElfSection) (x : Nat) :
    ∀ (k k' : Kernel) (file file' : RamFile), k.ImageBased t → (∀ s ∈ sections, s.InPages) →
      k.loadElfSections t file sections = some (0, file', k') →
      OffPages k.mm (k.task t).mm.elfImageList x → k'.ram x = k.ram x := by
  induction sections with
  | nil =>
      intro k k' file file' _ _ h _
      simp only [loadElfSections, Option.some.injEq, Prod.mk.injEq] at h
      rw [h.2.2]
  | cons s rest ih =>
      intro k k' file file' hbased hall h hx
      simp only [loadElfSections, Option.pure_def, Option.bind_eq_bind, Option.bind_eq_some_iff,
        Prod.exists] at h
      rcases h with ⟨ret, file₁, k₁, hload, h⟩
      by_cases hret : ret ≠ 0
      · rw [if_pos hret] at h
        simp only [Option.some.injEq, Prod.mk.injEq] at h
        exact absurd h.1 hret
      rw [if_neg hret] at h
      rw [ne_eq, not_not] at hret
      subst hret
      rcases loadElfSection_size k k₁ t file file₁ s hload with ⟨_, _, hslab, htask, -⟩
      have hmm : k₁.mm = k.mm := congrArg Slab.mm hslab
      -- The next section finds the same pages.
      have himage : (k₁.task t).mm.elfImageList = (k.task t).mm.elfImageList := by
        rw [htask, Function.update_self]
      have hbased₁ : k₁.ImageBased t := by
        unfold ImageBased
        rw [himage, hmm]
        exact hbased
      have hfirst := loadElfSection_off k k₁ t file file₁ s hbased (hall s List.mem_cons_self) hload
        x hx
      have hrest := ih k₁ k' file₁ file' hbased₁ (fun s' hs' => hall s' (List.mem_cons_of_mem _ hs')) h
        (by rw [hmm, himage]; exact hx)
      exact hrest.trans hfirst

/-- Loading an image whose sections fit. -/
theorem loadElfImage_kept (k k' : Kernel) (t : Nat) (file file' : RamFile)
    (sections : List ElfSection) (hbased : k.ImageBased t) (hall : ∀ s ∈ sections, s.InPages)
    (h : k.loadElfImage t file sections = some (0, file', k')) : LoadKept k k' t := by
  rcases loadElfImage_size k k' t file file' sections h with ⟨_, hslab, htask, hcur⟩
  have htasks : ∀ t', (k'.task t').flag = (k.task t').flag ∧
      (k'.task t').stackOrigin = (k.task t').stackOrigin ∧
      (k'.task t').mm.elfImageList = (k.task t').mm.elfImageList ∧
      (k'.task t').mm.elfStackList = (k.task t').mm.elfStackList := by
    intro t'
    rw [htask]
    by_cases ht : t' = t
    · rw [ht, Function.update_self]
      exact ⟨rfl, rfl, rfl, rfl⟩
    · rw [Function.update_of_ne ht]
      exact ⟨rfl, rfl, rfl, rfl⟩
  have hself : ((k.setTaskMm t { (k.task t).mm with elfSize := 0 }).task t).mm.elfImageList =
      (k.task t).mm.elfImageList := by
    simp only [setTaskMm, setTask, Function.update_self]
  refine ⟨hslab, hcur, fun t' => (htasks t').1, fun t' => (htasks t').2.1,
    fun t' => (htasks t').2.2.1, fun t' => (htasks t').2.2.2, fun x hx => ?_⟩
  unfold loadElfImage at h
  have hram := loadElfSections_off t sections x _ k' file file' (by
    unfold ImageBased
    rw [hself]
    exact hbased) hall h (by rw [hself]; exact hx)
  exact hram

/-- The addresses a task can access depend on its lists of pages only. -/
theorem accessVa_congr (mm : Mm) (ms ms' : MmStruct) (himage : ms'.elfImageList = ms.elfImageList)
    (hstack : ms'.elfStackList = ms.elfStackList) (va : Nat) :
    accessVa mm ms' va = accessVa mm ms va := by
  unfold accessVa userVa
  rw [himage, hstack]

/-- A table of arguments is not at the null pointer. -/
theorem argvAt_ne_zero (mm : Mm) (ms : MmStruct) (safe : Nat → Prop) (ram : Ram) (argv : Nat)
    (args : List (Nat × List (BitVec 8))) (h : ArgvAt mm ms safe ram argv args) : argv ≠ 0 := by
  have hnone : accessVa mm ms 0 = none := rfl
  rintro rfl
  cases args with
  | nil =>
      rcases h with ⟨x, hx, _⟩
      exact absurd (hnone.symm.trans hx) (by simp only [reduceCtorEq, not_false_eq_true])
  | cons arg rest =>
      rcases h with ⟨_, ⟨x, hx, _⟩, _⟩
      exact absurd (hnone.symm.trans hx) (by simp only [reduceCtorEq, not_false_eq_true])

/-- The context of a program that starts: the count of its arguments is in `r0`. -/
theorem archInitPtRegs_argc (k : Kernel) (safe : Nat → Prop) (argv : Nat)
    (args : List (Nat × List (BitVec 8))) (regs : PtRegs)
    (hargv : ArgvAt k.mm (k.task k.current).mm safe k.ram argv args)
    (h : k.archInitPtRegs argv = some regs) :
    regs.r0 = args.length ∧ ∀ w ∈ regs.frame, w < u32Size := by
  have hne := argvAt_ne_zero _ _ safe k.ram argv args hargv
  have hlt := argvAt_lt _ _ safe k.ram args argv hargv
  have hcount := countArgv_eq _ _ safe k.ram args u32Size argv hargv (by omega)
  unfold archInitPtRegs at h
  rw [if_neg hne, hcount] at h
  simp only [Option.bind_eq_bind, Option.bind_some, Option.pure_def, Option.some.injEq] at h
  rw [← h]
  refine ⟨Nat.mod_eq_of_lt (by omega), fun w hw => ?_⟩
  have hmod : args.length % u32Size < u32Size := Nat.mod_lt _ (by decide)
  simp only [PtRegs.frame, List.mem_cons, List.not_mem_nil, or_false] at hw
  rcases hw with rfl | rfl | rfl | rfl | rfl | rfl | rfl | rfl | rfl | rfl | rfl | rfl | rfl |
    rfl | rfl | rfl | rfl | rfl
  · exact hmod
  all_goals decide

/-- The steps of `do_exec` when it succeeds. -/
theorem doExec_ok (k k' : Kernel) (new argv : Nat) (file : RamFile) (sections : List ElfSection)
    (regs regs' : PtRegs) (h : k.doExec new file sections argv regs = some (0, regs', k')) :
    ∃ file' k₁ ret k₂, k.loadElfImage new file sections = some (0, file', k₁) ∧
      k₁.archInitPtRegs argv = some regs' ∧ k₁.setupTaskArgv new argv = some (ret, k₂) ∧
      k' = if (k₁.task k₁.current).flag &&& processTypeKernel ≠ 0 then
        (k₂.archSetUpTaskStack new regs').2 else k₂ := by
  unfold doExec at h
  rcases Option.bind_eq_some_iff.mp h with ⟨⟨err, file', k₁⟩, hload, h⟩
  by_cases herr : err ≠ 0
  · -- A failure is what the call returns.
    simp only [if_pos herr] at h
    split_ifs at h with hkernel
    · rcases Option.bind_eq_some_iff.mp h with ⟨k₂, _, h⟩
      simp only [Option.pure_def, Option.some.injEq, Prod.mk.injEq] at h
      exact absurd h.1 herr
    · rcases Option.bind_eq_some_iff.mp h with ⟨k₂, _, h⟩
      simp only [Option.pure_def, Option.some.injEq, Prod.mk.injEq] at h
      exact absurd h.1 herr
  simp only [if_neg herr] at h
  rw [ne_eq, not_not] at herr
  subst herr
  rcases Option.bind_eq_some_iff.mp h with ⟨regs₁, hregs, h⟩
  rcases Option.bind_eq_some_iff.mp h with ⟨⟨ret, k₂⟩, hset, h⟩
  simp only [Option.pure_def, Option.some.injEq, Prod.mk.injEq, true_and] at h
  rcases h with ⟨rfl, rfl⟩
  exact ⟨file', k₁, ret, k₂, hload, hregs, hset, rfl⟩

/-- A task whose image is to be replaced, by one that has a table of arguments outside the
    pages of the image. A task that is made for a kernel task has its kernel stack outside
    them too. -/
structure Exec (k : Kernel) (new argv : Nat) (args : List (Nat × List (BitVec 8))) : Prop where
  plain : Mm.PlainMap k.mm
  based : k.ImageBased new
  stack : (k.task k.current).flag &&& processTypeKernel ≠ 0 → ∃ q < 32 * k.mm.mapWords,
    (k.task new).stackOrigin = k.mm.pageIdToVa q ∧ q ∉ (k.task new).mm.elfImageList
  argv : ArgvAt k.mm (k.task k.current).mm (OffPages k.mm (k.task new).mm.elfImageList) k.ram argv
    args

/-- The table and its strings are not in the `top` bytes from the first page of the image on
    either. -/
structure Room (k : Kernel) (new argv : Nat) (args : List (Nat × List (BitVec 8))) (top : Nat) :
    Prop where
  mod : top % 4 = 0
  page : pageSize ≤ top
  user : processUserBase + top ≤ u32Size
  kernel : ∀ q, (k.task new).mm.elfImageList.head? = some q → k.mm.pageIdToVa q + top ≤ u32Size
  argv : ArgvAt k.mm (k.task k.current).mm
    (fun x => OffPages k.mm (k.task new).mm.elfImageList x ∧
      ∀ q, (k.task new).mm.elfImageList.head? = some q →
        x < k.mm.pageIdToVa q ∨ k.mm.pageIdToVa q + top ≤ x) k.ram argv args

/-- There is always room for one page. -/
theorem exec_room (k : Kernel) (new argv : Nat) (args : List (Nat × List (BitVec 8)))
    (hexec : Exec k new argv args) : Room k new argv args pageSize where
  mod := by decide
  page := Nat.le_refl _
  user := by decide
  kernel := fun q _ => Mm.pageIdToVa_top k.mm hexec.plain q
  argv := by
    refine argvAt_agree _ _ _ _ (fun _ => rfl) _ _ _ (fun x hx => ⟨⟨hx, fun q hq => ?_⟩, rfl⟩) args
      argv hexec.argv
    have hout := hx q (List.mem_of_mem_head? hq)
    omega

/-- The arguments of a program as it finds them in its first page: for each up to the count,
    a word with the address of a copy in the page. -/
def ArrivedAt (ram : Ram) (base argc : Nat) (args : List (Nat × List (BitVec 8))) : Prop :=
  ∀ i < argc, ∃ arg, args[i]? = some arg ∧ ∃ off, load32 ram (base + 4 * i) = processUserBase + off ∧
    off + arg.2.length + 1 ≤ pageSize ∧ StringAt 0#8 (fun j => ram (base + off + j)) arg.2

/-- The new process finds its arguments. -/
def Arrived (k : Kernel) (t argc : Nat) (args : List (Nat × List (BitVec 8))) : Prop :=
  ∃ q, (k.task t).mm.elfImageList.head? = some q ∧
    ArrivedAt k.ram (k.mm.pageIdToVa q) argc args

/-- The room is the same after the sections were loaded. -/
theorem room_kept (k k' : Kernel) (new argv top : Nat) (args : List (Nat × List (BitVec 8)))
    (hkept : LoadKept k k' new) (hroom : Room k new argv args top) : Room k' new argv args top := by
  have hmm : k'.mm = k.mm := congrArg Slab.mm hkept.slab
  have himage := hkept.image new
  refine ⟨hroom.mod, hroom.page, hroom.user, ?_, ?_⟩
  · rw [hmm, himage]
    exact hroom.kernel
  · rw [hmm, himage, hkept.current]
    exact argvAt_agree _ _ _ _
      (accessVa_congr k.mm _ _ (hkept.image k.current) (hkept.stack k.current)) _ k.ram k'.ram
      (fun x hx => ⟨hx, hkept.ram x hx.1⟩) args argv hroom.argv

/-- What `setup_task_argv` does when the copies do not run over the arguments they are made
    from. -/
theorem setupTaskArgv_packs (k k' : Kernel) (t argv top : Nat) (ret : Int)
    (args : List (Nat × List (BitVec 8))) (hplain : Mm.PlainMap k.mm)
    (hroom : Room k t argv args top) (hfits : FitsIn top 64 ((args.take maxArgv).map Prod.snd))
    (h : k.setupTaskArgv t argv = some (ret, k')) :
    ∃ q, (k.task t).mm.elfImageList.head? = some q ∧ k' = { k with
      ram := packArgs (k.mm.pageIdToVa q) 64 0 ((args.take maxArgv).map Prod.snd) k.ram } := by
  unfold setupTaskArgv at h
  rw [if_neg (argvAt_ne_zero _ _ _ k.ram argv args hroom.argv)] at h
  cases himage : (k.task t).mm.elfImageList with
  | nil =>
      rw [himage] at h
      exact absurd h (by simp only [reduceCtorEq, not_false_eq_true])
  | cons q qs =>
      have hhead : (k.task t).mm.elfImageList.head? = some q := by
        rw [himage]
        rfl
      have hle := hroom.page
      have htop := hroom.kernel q hhead
      have hmod := Mm.pageIdToVa_mod k.mm hplain q
      have hstart : add32 (k.mm.pageIdToVa q) (maxArgv * 4) = k.mm.pageIdToVa q + 64 := by
        refine Nat.mod_eq_of_lt ?_
        unfold maxArgv
        unfold pageSize at hle
        omega
      have hset := setupArgs_eq (k.mm.pageIdToVa q) k.mm (k.task k.current).mm _ top
        (by unfold pageSize at hmod; omega) hroom.mod htop hroom.user
        (fun x hx => hx.2 q hhead) maxArgv args argv 64 0 (processUserBase + maxArgv * 4)
        (k.mm.pageIdToVa q + 64) (k.mm.pageIdToVa q) k.ram hroom.argv (by decide)
        (by unfold maxArgv; unfold pageSize at hle; omega) hfits (fun _ _ => ⟨rfl, rfl, rfl⟩)
      rw [himage] at h
      simp only [hstart, hset, Option.bind_eq_bind, Option.bind_some, Option.pure_def,
        Option.some.injEq, Prod.mk.injEq] at h
      exact ⟨q, rfl, h.2.symm⟩

section Found

variable (base : Nat) (args : List (Nat × List (BitVec 8))) (ram ram' : Ram)
  (hproper : ∀ bs ∈ args.map Prod.snd, 0#8 ∉ bs)
  (hword : ∀ m < args.length, processUserBase + argOff 64 (args.map Prod.snd) m < u32Size)
  (hsame : ∀ o < pageSize, ram' (base + o) = packArgs base 64 0 (args.map Prod.snd) ram (base + o))

include hproper hword hsame

/-- The arguments that were packed are found if and only if they end in the page and their
    copies are whole. -/
theorem arrivedAt_iff (hcount : args.length ≤ maxArgv) :
    ArrivedAt ram' base args.length args ↔ FitsIn pageSize 64 (args.map Prod.snd) ∧
      (args.map Prod.snd).Pairwise (fun a b => a.length % 4 = 0 → b = []) := by
  have htable : 4 * (0 + (args.map Prod.snd).length) ≤ 64 := by
    rw [List.length_map]
    unfold maxArgv at hcount
    omega
  have hlen : (args.map Prod.snd).length = args.length := List.length_map _
  -- The words of the table are the addresses where the arguments were put.
  have hptr : ∀ i < args.length, load32 ram' (base + 4 * i) =
      processUserBase + argOff 64 (args.map Prod.snd) i := by
    intro i hi
    have hin : 4 * i + 4 ≤ pageSize := by
      unfold maxArgv at hcount
      unfold pageSize
      omega
    have hword' := packArgs_words base (args.map Prod.snd) 64 0 ram htable (by rw [hlen]; exact hword) i
      (by rw [hlen]; exact hi)
    rw [Nat.zero_add] at hword'
    rw [load32_congr (packArgs base 64 0 (args.map Prod.snd) ram) ram' _ (fun j hj => ?_), hword']
    rw [Nat.add_assoc]
    exact hsame (4 * i + j) (by omega)
  -- A copy in the page is the same in both memories.
  have hcopy : ∀ (off : Nat) (bs : List (BitVec 8)), off + bs.length + 1 ≤ pageSize →
      ∀ j ≤ bs.length, ram' (base + off + j) =
        packArgs base 64 0 (args.map Prod.snd) ram (base + off + j) := by
    intro off bs hoff j hj
    rw [Nat.add_assoc]
    exact hsame (off + j) (by omega)
  rw [fitsIn_iff, ← packArgs_copies base (args.map Prod.snd) 64 0 ram (by decide) htable hproper]
  constructor
  · intro h
    have hfound : ∀ m bs, (args.map Prod.snd)[m]? = some bs →
        argOff 64 (args.map Prod.snd) m + bs.length + 1 ≤ pageSize ∧
        StringAt 0#8 (fun j => ram' (base + argOff 64 (args.map Prod.snd) m + j)) bs := by
      intro m bs hm
      rw [List.getElem?_map] at hm
      rcases Option.map_eq_some_iff.mp hm with ⟨arg, harg, rfl⟩
      have hlt := (List.getElem?_eq_some_iff.mp harg).1
      rcases h m hlt with ⟨arg', harg', off, hload, hend, hstr⟩
      rw [Option.some.inj (harg'.symm.trans harg)] at hend hstr
      have hoff : off = argOff 64 (args.map Prod.snd) m :=
        Nat.add_left_cancel (hload.symm.trans (hptr m hlt))
      rw [← hoff]
      exact ⟨hend, hstr⟩
    refine ⟨fun m bs hm => (hfound m bs hm).1, fun m bs hm => ?_⟩
    rcases hfound m bs hm with ⟨hend, hstr⟩
    exact stringAt_congr 0#8 _ _ bs hstr (fun j hj => (hcopy _ bs hend j hj).symm)
  · rintro ⟨hfits, hcopies⟩ i hi
    have hstr : (args.map Prod.snd)[i]? = some args[i].2 := by
      rw [List.getElem?_map, List.getElem?_eq_getElem hi, Option.map_some]
    refine ⟨args[i], List.getElem?_eq_getElem hi, argOff 64 (args.map Prod.snd) i, hptr i hi,
      hfits i _ hstr, ?_⟩
    exact stringAt_congr 0#8 _ _ _ (hcopies i _ hstr) (hcopy _ _ (hfits i _ hstr))

end Found

/-- The word behind the table is the start of the first argument, and is no address of the
    page when the argument has four bytes. -/
theorem arrivedAt_many (base : Nat) (args : List (Nat × List (BitVec 8))) (ram ram' : Ram)
    (arg : Nat × List (BitVec 8)) (harg : args[0]? = some arg) (hfour : 4 ≤ arg.2.length)
    (hproper : 0#8 ∉ arg.2) (hcount : maxArgv < args.length)
    (hsame : ∀ o < pageSize, ram' (base + o) =
      packArgs base 64 0 ((args.take maxArgv).map Prod.snd) ram (base + o)) :
    ¬ArrivedAt ram' base args.length args := by
  intro h
  rcases h maxArgv hcount with ⟨_, _, off, hload, hend, _⟩
  cases args with
  | nil => exact absurd hcount (Nat.not_lt_zero _)
  | cons a rest =>
      rw [List.getElem?_cons_zero, Option.some.injEq] at harg
      subst harg
      have hlast := hsame (64 + 3) (by decide)
      rw [show maxArgv = 15 + 1 from rfl, List.take_succ_cons, List.map_cons, packArgs] at hlast
      have hge := nextOff_ge 64 a.2
      have hlen : ((rest.take 15).map Prod.snd).length ≤ 15 := by
        rw [List.length_map, List.length_take]
        exact Nat.min_le_left _ _
      rw [packArgs_outside base _ _ _ _ _ (by omega) (by omega)] at hlast
      unfold putArg at hlast
      have hcell : (a.2 ++ [0#8])[3]? = some a.2[3] := by
        rw [List.getElem?_append_left (by omega)]
        exact List.getElem?_eq_getElem (by omega)
      rw [store32_apart _ _ _ _ (by omega), ← Nat.add_assoc,
        putList_inside ram (base + 64) _ 3 _ hcell] at hlast
      -- The high byte of the word is a byte of the string.
      have hpos : 0 < a.2[3].toNat := by
        refine Nat.pos_of_ne_zero (fun hc => hproper ?_)
        have hzero : a.2[3] = 0#8 := BitVec.eq_of_toNat_eq hc
        rw [← hzero]
        exact List.getElem_mem _
      unfold load32 at hload
      rw [show base + 4 * maxArgv = base + 64 from rfl, hlast] at hload
      unfold processUserBase at hload
      unfold pageSize at hend
      omega

section Doing

variable {k k' : Kernel} {new argv : Nat} {args : List (Nat × List (BitVec 8))} {file : RamFile}
  {sections : List ElfSection} {regs regs' : PtRegs} (hexec : Exec k new argv args)
  (hsections : ∀ s ∈ sections, s.InPages)
  (h : k.doExec new file sections argv regs = some (0, regs', k'))

include hexec hsections h

/-- What `do_exec` leaves in the first page of the image. -/
theorem exec_packed (top : Nat) (hroom : Room k new argv args top)
    (hfits : FitsIn top 64 ((args.take maxArgv).map Prod.snd)) :
    regs'.r0 = args.length ∧ k'.mm = k.mm ∧
      ∃ q, (k'.task new).mm.elfImageList.head? = some q ∧ ∃ ram, SamePage k.mm
        (packArgs (k.mm.pageIdToVa q) 64 0 ((args.take maxArgv).map Prod.snd) ram) k'.ram q := by
  rcases doExec_ok k k' new argv file sections regs regs' h with
    ⟨file', k₁, ret, k₂, hload, hregs, hset, hk'⟩
  have hkept := loadElfImage_kept k k₁ new file file' sections hexec.based hsections hload
  have hmm : k₁.mm = k.mm := congrArg Slab.mm hkept.slab
  have hroom₁ := room_kept k k₁ new argv top args hkept hroom
  have hplain₁ : Mm.PlainMap k₁.mm := hmm ▸ hexec.plain
  rcases archInitPtRegs_argc k₁ _ argv args regs' hroom₁.argv hregs with ⟨hargc, hframe⟩
  rcases setupTaskArgv_packs k₁ k₂ new argv top ret args hplain₁ hroom₁ hfits hset with
    ⟨q, hhead, hk₂⟩
  rw [hmm] at hk₂
  have hhead₀ : (k.task new).mm.elfImageList.head? = some q := by
    rw [← hkept.image new]
    exact hhead
  by_cases hkernel : (k₁.task k₁.current).flag &&& processTypeKernel ≠ 0
  · -- The kernel stack of the new task is another page.
    rw [if_pos hkernel] at hk'
    rw [hkept.current, hkept.flag] at hkernel
    rcases hexec.stack hkernel with ⟨p, hp, horigin, hout⟩
    have hq := List.mem_of_mem_head? hhead₀
    have horigin₂ : (k₂.task new).stackOrigin = k.mm.pageIdToVa p := by
      rw [hk₂]
      exact (hkept.origin new).trans horigin
    have hpage := archSetUpTaskStack_page k.mm hexec.plain k₂ new p q regs' horigin₂ hp
      (hexec.based q hq).1 (fun hc => hout (hc ▸ hq)) hframe
    have hkeeps := archSetUpTaskStack_keeps k₂ new new regs'
    rw [← hk'] at hpage hkeeps
    rw [hk₂] at hpage hkeeps
    refine ⟨hargc, ?_, q, ?_, k₁.ram, hpage⟩
    · exact (congrArg Slab.mm hkeeps.1).trans hmm
    · rw [hkeeps.2]
      exact hhead
  · rw [if_neg hkernel] at hk'
    rw [hk', hk₂]
    exact ⟨hargc, hmm, q, hhead, k₁.ram, fun o _ => rfl⟩

/-- What the new process finds, when the copies do not run over the arguments they are made
    from. -/
theorem exec_arrived (top : Nat) (hroom : Room k new argv args top)
    (hfits : FitsIn top 64 ((args.take maxArgv).map Prod.snd)) :
    (args.length ≤ maxArgv → (Arrived k' new regs'.r0 args ↔
      FitsIn pageSize 64 (args.map Prod.snd) ∧
        (args.map Prod.snd).Pairwise (fun a b => a.length % 4 = 0 → b = []))) ∧
    (maxArgv < args.length → Arrived k' new regs'.r0 args →
      ∀ arg, args[0]? = some arg → arg.2.length < 4) := by
  rcases exec_packed hexec hsections h top hroom hfits with ⟨hargc, hmm, q, hhead, ram, hsame⟩
  have hproper := argvAt_proper _ _ _ k.ram args argv hexec.argv
  have harrived : Arrived k' new regs'.r0 args ↔
      ArrivedAt k'.ram (k.mm.pageIdToVa q) args.length args := by
    unfold Arrived
    rw [hargc, hmm, hhead]
    exact ⟨fun ⟨p, hp, ha⟩ => Option.some.inj hp ▸ ha, fun ha => ⟨q, rfl, ha⟩⟩
  rw [harrived]
  constructor
  · intro hcount
    rw [List.take_of_length_le hcount] at hfits hsame
    refine arrivedAt_iff (k.mm.pageIdToVa q) args ram k'.ram (fun bs hbs => ?_) (fun m hm => ?_) hsame
      hcount
    · rcases List.mem_map.mp hbs with ⟨arg, harg, rfl⟩
      exact hproper arg harg
    · have hstr : (args.map Prod.snd)[m]? = some args[m].2 := by
        rw [List.getElem?_map, List.getElem?_eq_getElem hm, Option.map_some]
      have hend := (fitsIn_iff top (args.map Prod.snd) 64).mp hfits m _ hstr
      have huser := hroom.user
      omega
  · intro hcount ha arg harg
    by_contra hlen
    exact arrivedAt_many (k.mm.pageIdToVa q) args ram k'.ram arg harg (Nat.le_of_not_lt hlen)
      (hproper arg (List.mem_of_getElem? harg)) hcount hsame ha

end Doing

/-- There are no more arguments than words in the table, they end in the page, and one whose
    length is a multiple of four is followed by empty ones only. -/
structure Packable (args : List (Nat × List (BitVec 8))) : Prop where
  count : args.length ≤ maxArgv
  fits : FitsIn pageSize 64 (args.map Prod.snd)
  apart : (args.map Prod.snd).Pairwise (fun a b => a.length % 4 = 0 → b = [])

/-- When the arguments arrive. If they are too many the words behind the table are bytes of
    the arguments, which a first one of less than four bytes can make look like addresses. -/
theorem doExec_argv (k k' : Kernel) (new argv : Nat) (args : List (Nat × List (BitVec 8)))
    (file : RamFile) (sections : List ElfSection) (regs regs' : PtRegs)
    (hexec : Exec k new argv args)
    (h : k.doExec new file sections argv regs = some (0, regs', k')) :
    ((∀ s ∈ sections, s.InPages) ∧ Packable args → Arrived k' new regs'.r0 args) ∧
    ∀ top, Room k new argv args top → FitsIn top 64 ((args.take maxArgv).map Prod.snd) →
      (∀ s ∈ sections, s.InPages) → Arrived k' new regs'.r0 args →
        Packable args ∨ (maxArgv < args.length ∧ ∀ arg, args[0]? = some arg → arg.2.length < 4) := by
  constructor
  · rintro ⟨hsections, hpack⟩
    have hroom := exec_room k new argv args hexec
    have hall := exec_arrived hexec hsections h pageSize hroom
      (by rw [List.take_of_length_le hpack.count]; exact hpack.fits)
    exact (hall.1 hpack.count).mpr ⟨hpack.fits, hpack.apart⟩
  · intro top hroom hfits hsections ha
    have hall := exec_arrived hexec hsections h top hroom hfits
    by_cases hcount : args.length ≤ maxArgv
    · rcases (hall.1 hcount).mp ha with ⟨hin, hapart⟩
      exact Or.inl ⟨hcount, hin, hapart⟩
    · have hmany := Nat.lt_of_not_le hcount
      exact Or.inr ⟨hmany, hall.2 hmany ha⟩

end Kernel

/-- Memory with two strings on the stack of the user task, and their table. -/
def argvMemory (a b : List (BitVec 8)) : Ram :=
  putList (putList (store32 (store32 (fun _ => 0#8) 0x80020000 0x7ffff100) 0x80020004 0x7ffff200)
    0x80020100 (a ++ [0#8])) 0x80020200 (b ++ [0#8])

/-- The strings and where they are. -/
def twoArgs (a b : List (BitVec 8)) : List (Nat × List (BitVec 8)) :=
  [(0x7ffff100, a), (0x7ffff200, b)]

/-- The top page of the stack of the user task. -/
theorem userKernel_stack (ram : Ram) (o : Nat) (ho : o < pageSize) :
    Kernel.accessVa (userKernel ram).mm ((userKernel ram).task 0x80000900).mm (0x7ffff000 + o) =
      some (0x80020000 + o) := by
  have hindex : (processUserStackBase - 1 - (0x7ffff000 + o)) / pageSize = 0 := by
    unfold processUserStackBase pageSize at *
    omega
  have hmod : (0x7ffff000 + o) % pageSize = o := by
    unfold pageSize at *
    omega
  have hlow : ¬processUserStackBase ≤ 0x7ffff000 + o := by
    unfold processUserStackBase
    unfold pageSize at ho
    omega
  have hnot : ¬(processUserBase ≤ 0x7ffff000 + o ∧
      0x7ffff000 + o < processUserBase + processImageSize) := by
    unfold processUserBase processImageSize pageSize
    omega
  have hin : processUserStackBase - processStackSize ≤ 0x7ffff000 + o ∧
      0x7ffff000 + o < processUserStackBase := by
    unfold processUserStackBase processStackSize
    unfold pageSize at *
    omega
  have hpage : ((userKernel ram).task 0x80000900).mm.elfStackList[0]? = some 32 := rfl
  have hva : (userKernel ram).mm.pageIdToVa 32 = 0x80020000 :=
    (userKernel_page ram 32 (by decide)).2
  unfold Kernel.accessVa Kernel.userVa
  rw [if_neg hlow, if_neg hnot, if_pos hin, hindex, hmod, hpage, Option.map_some, hva]

/-- A program with a name and one argument, neither longer than 15 bytes. -/
theorem userKernel_exec (a b : List (BitVec 8)) (ha : 0#8 ∉ a) (hb : 0#8 ∉ b)
    (hlen : a.length ≤ 15 ∧ b.length ≤ 15) :
    Kernel.Exec (userKernel (argvMemory a b)) 0x80000900 0x7ffff000 (twoArgs a b) := by
  have hva : ∀ q, 40 ≤ q ∧ q < 296 →
      q < 32 * (userKernel (argvMemory a b)).mm.mapWords ∧
      (userKernel (argvMemory a b)).mm.pageIdToVa q = 0x80000000 + q * pageSize :=
    fun q hq => userKernel_page _ q (by omega)
  have himage : ∀ q ∈ ((userKernel (argvMemory a b)).task 0x80000900).mm.elfImageList,
      40 ≤ q ∧ q < 296 := fun q hq => List.mem_range'_1.mp hq
  -- The stack is below the pages of the image.
  have hoff : ∀ x < 0x80028000, Kernel.OffPages (userKernel (argvMemory a b)).mm
      ((userKernel (argvMemory a b)).task 0x80000900).mm.elfImageList x := by
    intro x hx q hq
    have hq' := himage q hq
    rw [(hva q hq').2]
    unfold pageSize
    omega
  have hmap : ∀ o < pageSize, Kernel.accessVa (userKernel (argvMemory a b)).mm
      ((userKernel (argvMemory a b)).task 0x80000900).mm (0x7ffff000 + o) = some (0x80020000 + o) ∧
      Kernel.OffPages (userKernel (argvMemory a b)).mm
        ((userKernel (argvMemory a b)).task 0x80000900).mm.elfImageList (0x80020000 + o) := by
    intro o ho
    unfold pageSize at ho
    exact ⟨userKernel_stack _ o ho, hoff _ (by omega)⟩
  have hcells : ∀ x, x < 0x80020100 → argvMemory a b x =
      store32 (store32 (fun _ => 0#8) 0x80020000 0x7ffff100) 0x80020004 0x7ffff200 x := by
    intro x hx
    unfold argvMemory
    rw [putList_outside _ _ _ _ (Or.inl (by omega)), putList_outside _ _ _ _ (Or.inl hx)]
  have hword : ∀ o w, o + 4 ≤ 0x100 → load32 (store32 (store32 (fun _ => 0#8) 0x80020000 0x7ffff100)
      0x80020004 0x7ffff200) (0x80020000 + o) = w →
      Kernel.WordAt (userKernel (argvMemory a b)).mm
        ((userKernel (argvMemory a b)).task 0x80000900).mm
        (Kernel.OffPages (userKernel (argvMemory a b)).mm
          ((userKernel (argvMemory a b)).task 0x80000900).mm.elfImageList)
        (argvMemory a b) (0x7ffff000 + o) w := by
    intro o w ho hw
    refine ⟨0x80020000 + o, (hmap o (by unfold pageSize; omega)).1, fun i hi => hoff _ (by omega), ?_⟩
    rw [← hw]
    exact load32_congr _ _ _ (fun i hi => hcells _ (by omega))
  have hstring : ∀ o bs, o + bs.length < pageSize → 0#8 ∉ bs →
      (∀ i y, (bs ++ [0#8])[i]? = some y → argvMemory a b (0x80020000 + o + i) = y) →
      Kernel.CStringAt (userKernel (argvMemory a b)).mm
        ((userKernel (argvMemory a b)).task 0x80000900).mm
        (Kernel.OffPages (userKernel (argvMemory a b)).mm
          ((userKernel (argvMemory a b)).task 0x80000900).mm.elfImageList)
        (argvMemory a b) (0x7ffff000 + o) bs := by
    intro o bs ho hproper hbytes
    refine Kernel.cstringAt_cells _ _ _ _ bs (0x7ffff000 + o) (0x80020000 + o) (fun i hi => ?_)
      (stringAt_closed 0#8 _ bs hproper hbytes)
    rw [Nat.add_assoc, Nat.add_assoc]
    exact hmap (o + i) (by omega)
  refine ⟨userKernel_plain _, fun q hq => ?_, fun hc => ?_, ?_⟩
  · have hq' := himage q hq
    exact ⟨(hva q hq').1, userKernel_base (argvMemory a b) q (by omega)⟩
  · exact absurd (show processTypeUser &&& processTypeKernel = 0 by decide) hc
  · refine ⟨show 0x7ffff100 ≠ 0 by decide, hword 0 0x7ffff100 (by decide) (by decide +kernel),
      hstring 0x100 a (by unfold pageSize; omega) ha (fun i y hi => ?_),
      show 0x7ffff200 ≠ 0 by decide, hword 4 0x7ffff200 (by decide) (by decide +kernel),
      hstring 0x200 b (by unfold pageSize; omega) hb (fun i y hi => ?_),
      hword 8 0 (by decide) (by decide +kernel)⟩
    · have hi' := (List.getElem?_eq_some_iff.mp hi).1
      rw [List.length_append, List.length_singleton] at hi'
      unfold argvMemory
      rw [putList_outside _ _ _ _ (Or.inl (by omega))]
      exact putList_inside _ _ _ i y hi
    · exact putList_inside _ _ _ i y hi

/-- `sh x`, with a program of two pages. -/
theorem doExec_argv_board : ∃ regs' k', (userKernel (argvMemory [115#8, 104#8] [120#8])).doExec
      0x80000900 twoPagesFile (twoSections 0x402000) 0x7ffff000 Kernel.userRegs =
        some (0, regs', k') ∧
      Kernel.Arrived k' 0x80000900 regs'.r0 (twoArgs [115#8, 104#8] [120#8]) := by
  have heval : ((userKernel (argvMemory [115#8, 104#8] [120#8])).doExec 0x80000900 twoPagesFile
      (twoSections 0x402000) 0x7ffff000 Kernel.userRegs).map (fun r => r.1) = some 0 := by
    decide +kernel
  rcases Option.map_eq_some_iff.mp heval with ⟨⟨ret, regs', k'⟩, hexec, hret⟩
  have hzero : ret = 0 := hret
  subst hzero
  refine ⟨regs', k', hexec, (Kernel.doExec_argv _ k' 0x80000900 0x7ffff000 _ twoPagesFile
    (twoSections 0x402000) Kernel.userRegs regs'
    (userKernel_exec [115#8, 104#8] [120#8] (by decide) (by decide) (by decide)) hexec).1 ⟨?_, ?_⟩⟩
  · intro s hs
    rcases List.mem_cons.mp hs with rfl | hs
    · exact Or.inr (by decide)
    · rw [List.mem_singleton.mp hs]
      exact Or.inr (by decide)
  · exact ⟨by decide, ⟨by decide, by decide, trivial⟩, by decide⟩

/-- `test x`: the new process finds `testx` for its name. -/
theorem doExec_runs_on : ∃ regs' k',
    Kernel.Exec (userKernel (argvMemory [116#8, 101#8, 115#8, 116#8] [120#8])) 0x80000900 0x7ffff000
      (twoArgs [116#8, 101#8, 115#8, 116#8] [120#8]) ∧
    (userKernel (argvMemory [116#8, 101#8, 115#8, 116#8] [120#8])).doExec 0x80000900 twoPagesFile
      (twoSections 0x402000) 0x7ffff000 Kernel.userRegs = some (0, regs', k') ∧
    ¬Kernel.Arrived k' 0x80000900 regs'.r0 (twoArgs [116#8, 101#8, 115#8, 116#8] [120#8]) := by
  have heval : ((userKernel (argvMemory [116#8, 101#8, 115#8, 116#8] [120#8])).doExec 0x80000900
      twoPagesFile (twoSections 0x402000) 0x7ffff000 Kernel.userRegs).map (fun r =>
        (r.1, r.2.1.r0, (r.2.2.task 0x80000900).mm.elfImageList.head?.map (fun q =>
          (load32 r.2.2.ram (r.2.2.mm.pageIdToVa q), r.2.2.ram (r.2.2.mm.pageIdToVa q + 64 + 4))))) =
      some (0, 2, some (processUserBase + 64, 120#8)) := by
    decide +kernel
  rcases Option.map_eq_some_iff.mp heval with ⟨⟨ret, regs', k'⟩, hexec, hret⟩
  simp only [Prod.mk.injEq] at hret
  rcases hret with ⟨rfl, hargc, hpage⟩
  refine ⟨regs', k', userKernel_exec _ _ (by decide) (by decide) (by decide), hexec, ?_⟩
  rintro ⟨q, hq, harrived⟩
  rw [hq, Option.map_some, Option.some.injEq, Prod.mk.injEq] at hpage
  -- The terminator of the name is the first letter of the argument.
  rcases harrived 0 (by omega) with ⟨arg, harg, off, hload, _, hstr⟩
  have hname : arg = (0x7ffff100, [116#8, 101#8, 115#8, 116#8]) := (Option.some.inj harg).symm
  have hoff : off = 64 := Nat.add_left_cancel (hload.symm.trans hpage.1)
  have hclosed := hstr.closed
  rw [hname, hoff] at hclosed
  exact absurd (hpage.2.symm.trans hclosed) (by decide)

end Mirros
