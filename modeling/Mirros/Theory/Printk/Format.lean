import Mirros.Theory.Printk.Numbers

/-!
# What a Format Says

`vsprintf` goes through its format once. Every character of it adds a text to the buffer, and
the text is a function of the directive and the arguments, so that of a whole format is one as
well (`formattedWith`). How a number is written for `%o` is a parameter: the format says it is
octal (`formatted`), and `vsprintf` writes it like one for `%d`.

If the format ends within a directive, `vsprintf` takes its terminator for the directive and
goes on behind it.

## Main definitions

* `directiveText`, `formattedWith`, `formatted`: The text a format stands for.
* `EndsOpen`: The last character begins a directive.
* `octals`: The arguments `%o` takes.
* `PrintsExactly`: What `vsprintf` should do.

## Theorems

* `vsprintfLoop_run`: What it does.
* `vsprintf_exact`: When that is what it should do.
-/

namespace Mirros

namespace Printk

/-- The text of a string argument, which has a terminator. -/
def stringText : List Arg → Option (List Byte × List Arg)
  | .ptr (some cells) :: args =>
      if 0 ∈ cells then some (cells.takeWhile (fun c => decide (c ≠ 0)), args) else none
  | _ => none

/-- The text of a number argument. -/
def wordText (text : Word → List Byte) : List Arg → Option (List Byte × List Arg)
  | .word w :: args => some (text w, args)
  | _ => none

/-- The text of a directive and the arguments behind it, with a text for `%o`. -/
def directiveText (oct : Word → List Byte) (c : Byte) (args : List Arg) :
    Option (List Byte × List Arg) :=
  if c = code 'd' then wordText (fun w => signedText w.toInt) args
  else if c = code 'x' then wordText (fun w => numberText 16 w.toNat) args
  else if c = code 'u' then wordText (fun w => numberText 10 w.toNat) args
  else if c = code 's' then stringText args
  else if c = code 'c' then wordText (fun w => [w.setWidth 8]) args
  else if c = code 'o' then wordText oct args
  else if c = code '%' then some ([code '%'], args)
  else some ([code '%', c], args)

/-- The text of a format, if the arguments match. -/
def formattedWith (oct : Word → List Byte) : List Byte → List Arg → Option (List Byte)
  | [], _ => some []
  | [c], _ => some [c]
  | c :: d :: fmt, args =>
      if c = code '%' then
        (directiveText oct d args).bind (fun p => (formattedWith oct fmt p.2).map (p.1 ++ ·))
      else
        (formattedWith oct (d :: fmt) args).map (c :: ·)

/-- The text of a format. -/
def formatted : List Byte → List Arg → Option (List Byte) :=
  formattedWith (fun w => numberText 8 w.toNat)

/-- The text that is written. -/
def printed : List Byte → List Arg → Option (List Byte) :=
  formattedWith (fun w => signedText w.toInt)

/-- The last character begins a directive. -/
def EndsOpen : List Byte → Prop
  | [] => False
  | [c] => c = code '%'
  | c :: d :: fmt => if c = code '%' then EndsOpen fmt else EndsOpen (d :: fmt)

/-- How many arguments a directive takes. -/
def arity (c : Byte) : Nat :=
  if c ∈ [code 'd', code 'x', code 'u', code 's', code 'c', code 'o'] then 1 else 0

/-- The number that is the argument of a directive, if the directive is `%o`. -/
def octalArg (c : Byte) : List Arg → List Word
  | .word w :: _ => if c = code 'o' then [w] else []
  | _ => []

/-- The numbers that are arguments of `%o`. -/
def octals : List Byte → List Arg → List Word
  | c :: d :: fmt, args =>
      if c = code '%' then octalArg d args ++ octals fmt (args.drop (arity d))
      else octals (d :: fmt) args
  | _, _ => []

/-- The buffer has the text and its terminator behind it and nothing else that is new, the
    length is returned, and what there is behind the terminator of the format is not read. -/
def PrintsExactly (fmt : List Byte) (args : List Arg) (text : List Byte) : Prop :=
  ∀ cells behind, vsprintf (some cells) (fmt ++ 0 :: behind) args =
    some ⟨some (putList cells 0 (text ++ [0])), text.length, behind⟩

theorem wordText_drop (numText : Word → List Byte) (args args' : List Arg) (text : List Byte)
    (h : wordText numText args = some (text, args')) : args' = args.drop 1 := by
  unfold wordText at h
  split at h
  · rw [Option.some.injEq, Prod.mk.injEq] at h
    exact h.2.symm
  · cases h

theorem stringText_drop (args args' : List Arg) (text : List Byte)
    (h : stringText args = some (text, args')) : args' = args.drop 1 := by
  unfold stringText at h
  split at h
  · split_ifs at h with hend
    rw [Option.some.injEq, Prod.mk.injEq] at h
    exact h.2.symm
  · cases h

/-- The arguments behind a directive. -/
theorem directiveText_drop (oct : Word → List Byte) (c : Byte) (args args' : List Arg)
    (text : List Byte) (h : directiveText oct c args = some (text, args')) :
    args' = args.drop (arity c) := by
  unfold directiveText at h
  split_ifs at h with hd hx hu hs hc ho hp
  · rw [hd]
    exact wordText_drop _ args args' text h
  · rw [hx]
    exact wordText_drop _ args args' text h
  · rw [hu]
    exact wordText_drop _ args args' text h
  · rw [hs]
    exact stringText_drop args args' text h
  · rw [hc]
    exact wordText_drop _ args args' text h
  · rw [ho]
    exact wordText_drop _ args args' text h
  · rw [Option.some.injEq, Prod.mk.injEq] at h
    rw [hp]
    exact h.2.symm
  · rw [Option.some.injEq, Prod.mk.injEq] at h
    have hnone : arity c = 0 := by
      unfold arity
      refine if_neg (fun hmem => ?_)
      simp only [List.mem_cons, List.not_mem_nil, or_false] at hmem
      tauto
    rw [hnone]
    exact h.2.symm

/-- Only `%o` depends on how octal numbers are written. -/
theorem directiveText_congr (oct oct' : Word → List Byte) (c : Byte) (args : List Arg)
    (hc : c ≠ code 'o') : directiveText oct c args = directiveText oct' c args := by
  unfold directiveText
  rw [if_neg hc, if_neg hc]

/-- The text that is written for a directive. -/
theorem directiveText_printed (c : Byte) (args args' : List Arg) (text : List Byte)
    (h : directiveText (fun w => numberText 8 w.toNat) c args = some (text, args')) :
    ∃ text', directiveText (fun w => signedText w.toInt) c args = some (text', args') ∧
      text'.length ≤ text.length ∧ (text' = text ↔ ∀ w ∈ octalArg c args, w.toNat < 8) := by
  by_cases hc : c = code 'o'
  · subst hc
    cases args with
    | nil => cases h
    | cons arg args =>
        cases arg with
        | ptr cells => cases h
        | word w =>
            rw [show directiveText (fun w => numberText 8 w.toNat) (code 'o') (.word w :: args) =
              some (numberText 8 w.toNat, args) from rfl, Option.some.injEq,
              Prod.mk.injEq] at h
            rcases h with ⟨rfl, rfl⟩
            rcases signedText_octal w with ⟨hlength, hsame⟩
            refine ⟨signedText w.toInt, rfl, hlength, hsame.trans ?_⟩
            rw [show octalArg (code 'o') (.word w :: args) = [w] from rfl, List.forall_mem_singleton]
  · have hnone : octalArg c args = [] := by
      unfold octalArg
      split
      · exact if_neg hc
      · rfl
    refine ⟨text, ?_, Nat.le_refl _, iff_of_true rfl ?_⟩
    · rw [← h]
      exact directiveText_congr _ _ c args hc
    · rw [hnone]
      exact fun w hw => absurd hw List.not_mem_nil

/-- Two texts one behind the other, neither of them longer than those they are compared with. -/
theorem append_eq_append_iff_of_le {α : Type*} (xs ys xs' ys' : List α)
    (hxs : xs.length ≤ xs'.length) (hys : ys.length ≤ ys'.length) :
    xs ++ ys = xs' ++ ys' ↔ xs = xs' ∧ ys = ys' := by
  constructor
  · intro heq
    have hlength := congrArg List.length heq
    rw [List.length_append, List.length_append] at hlength
    exact List.append_inj heq (by omega)
  · rintro ⟨rfl, rfl⟩
    rfl

/-- The text that is written is not longer than the one of the format, and the same only if
    every octal number has one digit. -/
theorem formatted_printed (fmt : List Byte) (args : List Arg) : ∀ text,
    formatted fmt args = some text →
      ∃ text', printed fmt args = some text' ∧ text'.length ≤ text.length ∧
        (text' = text ↔ ∀ w ∈ octals fmt args, w.toNat < 8) := by
  unfold formatted printed
  induction fmt, args using formattedWith.induct with
  | case1 args =>
      intro text h
      exact ⟨text, h, Nat.le_refl _, iff_of_true rfl (fun w hw => absurd hw List.not_mem_nil)⟩
  | case2 c args =>
      intro text h
      exact ⟨text, h, Nat.le_refl _, iff_of_true rfl (fun w hw => absurd hw List.not_mem_nil)⟩
  | case3 d fmt args ih =>
      intro text h
      rw [formattedWith, if_pos rfl] at h
      rcases Option.bind_eq_some_iff.mp h with ⟨⟨first, args'⟩, hfirst, h⟩
      rcases Option.map_eq_some_iff.mp h with ⟨rest, hrest, rfl⟩
      rcases directiveText_printed d args args' first hfirst with ⟨first', hfirst', hle, hsame⟩
      rcases ih (first, args') rest hrest with ⟨rest', hrest', hle', hsame'⟩
      refine ⟨first' ++ rest', ?_, ?_, ?_⟩
      · rw [formattedWith, if_pos rfl, hfirst', Option.bind_some, hrest', Option.map_some]
      · rw [List.length_append, List.length_append]
        exact Nat.add_le_add hle hle'
      · rw [octals, if_pos rfl, ← directiveText_drop _ d args args' first hfirst,
          append_eq_append_iff_of_le _ _ _ _ hle hle', hsame, hsame', List.forall_mem_append]
  | case4 c d fmt args hc ih =>
      intro text h
      rw [formattedWith, if_neg hc] at h
      rcases Option.map_eq_some_iff.mp h with ⟨rest, hrest, rfl⟩
      rcases ih rest hrest with ⟨rest', hrest', hle, hsame⟩
      refine ⟨c :: rest', ?_, Nat.succ_le_succ hle, ?_⟩
      · rw [formattedWith, if_neg hc, hrest', Option.map_some]
      · rw [octals, if_neg hc, List.cons.injEq, hsame]
        exact and_iff_right rfl

/-- `vsprintf` between two directives: a text was written. -/
def outAt (cells : Nat → Byte) (pre : List Byte) (args : List Arg) : Out :=
  ⟨putList cells 0 pre, BitVec.ofNat 32 pre.length, 0, args⟩

section

variable (cells : Nat → Byte) (pre : List Byte) (args args' : List Arg) (text : List Byte)

theorem str_toNat (hlen : pre.length < 2 ^ 31) :
    (BitVec.ofNat 32 pre.length).toNat = pre.length := by
  rw [BitVec.toNat_ofNat]
  omega

/-- More text right behind. -/
theorem putList_behind (hlen : pre.length < 2 ^ 31) :
    putList (putList cells 0 pre) (BitVec.ofNat 32 pre.length).toNat text =
      putList cells 0 (pre ++ text) := by
  rw [str_toNat pre hlen, ← putList_append, Nat.zero_add]

theorem str_behind :
    BitVec.ofNat 32 pre.length + BitVec.ofNat 32 text.length =
      BitVec.ofNat 32 (pre ++ text).length := by
  rw [List.length_append, BitVec.ofNat_add]

theorem outAt_putc (c : Byte) (hlen : pre.length < 2 ^ 31) :
    (outAt cells pre args).putc c = outAt cells (pre ++ [c]) args := by
  unfold Out.putc outAt
  dsimp only
  rw [putList_behind cells pre [c] hlen, ← str_behind pre [c]]
  rfl

/-- A number, for flags with which `numbric` writes some text. -/
theorem printNumber_run (flag : Word) (numText : Word → List Byte)
    (hflag : ∀ buf str num, numbric buf str num flag =
      some (putList buf str (numText num), (numText num).length))
    (h : wordText numText args = some (text, args')) (hlen : pre.length < 2 ^ 31) :
    printNumber { outAt cells pre args with flag } = some (outAt cells (pre ++ text) args') := by
  unfold wordText at h
  split at h
  · rename_i w args
    rw [Option.some.injEq, Prod.mk.injEq] at h
    rcases h with ⟨rfl, rfl⟩
    unfold printNumber outAt
    simp only [vaWord, hflag, Option.bind_eq_bind, Option.bind_some, str_behind,
      putList_behind cells pre _ hlen]
    rfl
  · cases h

/-- `strlen` counts up to the terminator. -/
theorem strlenCells_eq (bs : List Byte) (hend : 0 ∈ bs) :
    strlenCells bs =
      some (BitVec.ofNat 32 (bs.takeWhile (fun c => decide (c ≠ 0))).length) := by
  induction bs with
  | nil => cases hend
  | cons c bs ih =>
      rw [strlenCells]
      by_cases hc : c = 0
      · rw [if_pos hc, List.takeWhile_cons_of_neg (by rw [hc]; decide)]
        rfl
      · have hrest : 0 ∈ bs := (List.mem_cons.mp hend).resolve_left (Ne.symm hc)
        have hmore : (c :: bs).takeWhile (fun c => decide (c ≠ 0)) =
            c :: bs.takeWhile (fun c => decide (c ≠ 0)) :=
          List.takeWhile_cons_of_pos (decide_eq_true hc)
        rw [if_neg hc, ih hrest, hmore, Option.map_some, List.length_cons, BitVec.ofNat_add]
        rfl

/-- A string. -/
theorem string_run (h : stringText args = some (text, args'))
    (hlen : pre.length + text.length < 2 ^ 31) :
    directive (outAt cells pre args) (code 's') = some (outAt cells (pre ++ text) args') := by
  unfold stringText at h
  split at h
  · rename_i bs args
    split_ifs at h with hend
    rw [Option.some.injEq, Prod.mk.injEq] at h
    rcases h with ⟨htext, rfl⟩
    have hprefix : bs.take text.length = text := by
      rw [← htext]
      exact (List.prefix_iff_eq_take.mp (List.takeWhile_prefix _)).symm
    have hcopy : strncpy (putList cells 0 pre) (BitVec.ofNat 32 pre.length).toNat (some bs)
        (BitVec.ofNat 32 text.length) = putList cells 0 (pre ++ text) := by
      unfold strncpy
      dsimp only
      rw [← putList_behind cells pre text (by omega), str_toNat text (by omega), hprefix]
      split_ifs with hpos
      · rfl
      · -- Nothing is copied only if there is nothing to copy.
        have hnil : text = [] := by
          by_contra hne
          have hlength := List.length_pos_iff.mpr hne
          have hzero : (0 : Word).toInt = 0 := rfl
          refine hpos (decide_eq_true ?_)
          rw [hzero, BitVec.toInt_eq_toNat_cond, str_toNat text (by omega), if_pos (by omega)]
          omega
        rw [hnil, putList_nil]
    have hcall : directive (outAt cells pre (.ptr (some bs) :: args)) (code 's') =
        (strlenCells bs).bind (fun len =>
          some ⟨strncpy (putList cells 0 pre) (BitVec.ofNat 32 pre.length).toNat (some bs) len,
            BitVec.ofNat 32 pre.length + len, 0, args⟩) := rfl
    rw [hcall, strlenCells_eq bs hend, htext, Option.bind_some, hcopy, str_behind]
    rfl
  · cases h

/-- A directive writes its text. -/
theorem directive_run (c : Byte)
    (h : directiveText (fun w => signedText w.toInt) c args = some (text, args'))
    (hlen : pre.length + text.length < 2 ^ 31) :
    directive (outAt cells pre args) c = some (outAt cells (pre ++ text) args') := by
  have hpre : pre.length < 2 ^ 31 := by omega
  have hsigned : ∀ buf str num, numbric buf str num (0 ||| (printfDec ||| printfSigned)) =
      some (putList buf str (signedText num.toInt), (signedText num.toInt).length) :=
    fun buf str num => itoa_eq buf str num
  have hhex : ∀ buf str num, numbric buf str num (0 ||| (printfHex ||| printfUnsigned)) =
      some (putList buf str (numberText 16 num.toNat), (numberText 16 num.toNat).length) :=
    fun buf str num => numToStr_eq buf str num.toNat 16 (by decide) num.isLt
  have hdec : ∀ buf str num, numbric buf str num (0 ||| (printfDec ||| printfUnsigned)) =
      some (putList buf str (numberText 10 num.toNat), (numberText 10 num.toNat).length) :=
    fun buf str num => numToStr_eq buf str num.toNat 10 (by decide) num.isLt
  by_cases hs : c = code 's'
  · subst hs
    exact string_run cells pre args args' text h hlen
  unfold directiveText at h
  unfold directive
  split_ifs at h ⊢ with hd hx hu hc ho hp
  · exact printNumber_run cells pre args args' text _ _ hsigned h hpre
  · exact printNumber_run cells pre args args' text _ _ hhex h hpre
  · exact printNumber_run cells pre args args' text _ _ hdec h hpre
  · unfold wordText at h
    split at h
    · rw [Option.some.injEq, Prod.mk.injEq] at h
      rcases h with ⟨rfl, rfl⟩
      exact congrArg some (outAt_putc cells pre _ _ hpre)
    · cases h
  · exact printNumber_run cells pre args args' text _ _ hsigned h hpre
  · rw [Option.some.injEq, Prod.mk.injEq] at h
    rcases h with ⟨rfl, rfl⟩
    exact congrArg some (outAt_putc cells pre _ _ hpre)
  · rw [Option.some.injEq, Prod.mk.injEq] at h
    rcases h with ⟨rfl, rfl⟩
    rw [List.length_cons, List.length_singleton] at hlen
    rw [outAt_putc cells pre _ _ hpre, outAt_putc cells _ _ _ (by
      rw [List.length_append, List.length_singleton]
      omega), List.append_assoc, List.singleton_append]

end

theorem vsprintfLoop_zero (fmt : List Byte) (o : Out) :
    vsprintfLoop (0 :: fmt) o =
      some ⟨some (putList o.buf o.str.toNat [0]), o.str.toInt, fmt⟩ := by
  rw [vsprintfLoop.eq_def]
  exact if_pos rfl

theorem vsprintfLoop_char (c : Byte) (fmt : List Byte) (o : Out) (hzero : c ≠ 0)
    (hc : c ≠ code '%') : vsprintfLoop (c :: fmt) o = vsprintfLoop fmt (o.putc c) := by
  rw [vsprintfLoop.eq_def]
  exact (if_neg hzero).trans (if_pos hc)

theorem vsprintfLoop_directive (d : Byte) (fmt : List Byte) (o : Out) :
    vsprintfLoop (code '%' :: d :: fmt) o = (directive o d).bind (vsprintfLoop fmt) := by
  rw [vsprintfLoop.eq_def]
  rfl

/-- At the terminator. -/
theorem vsprintfLoop_end (cells : Nat → Byte) (pre behind : List Byte) (args : List Arg)
    (hlen : pre.length < 2 ^ 31) :
    vsprintfLoop (0 :: behind) (outAt cells pre args) =
      some ⟨some (putList cells 0 (pre ++ [0])), pre.length, behind⟩ := by
  have hret : (BitVec.ofNat 32 pre.length).toInt = (pre.length : Int) := by
    rw [BitVec.toInt_eq_toNat_cond, str_toNat pre hlen, if_pos (by omega)]
  rw [vsprintfLoop_zero]
  unfold outAt
  dsimp only
  rw [putList_behind cells pre [0] hlen, hret]

/-- What `vsprintf` does with a format that does not end within a directive. -/
theorem vsprintfLoop_run (cells : Nat → Byte) (behind : List Byte) (fmt : List Byte)
    (args : List Arg) : ∀ pre text, printed fmt args = some text → 0 ∉ fmt → ¬ EndsOpen fmt →
      pre.length + text.length < 2 ^ 31 →
      vsprintfLoop (fmt ++ 0 :: behind) (outAt cells pre args) =
        some ⟨some (putList cells 0 (pre ++ text ++ [0])), (pre ++ text).length, behind⟩ := by
  unfold printed
  induction fmt, args using formattedWith.induct with
  | case1 args =>
      intro pre text h hend hopen hlen
      rw [formattedWith, Option.some.injEq] at h
      rw [← h, List.append_nil]
      exact vsprintfLoop_end cells pre behind args (by omega)
  | case2 c args =>
      intro pre text h hend hopen hlen
      rw [formattedWith, Option.some.injEq] at h
      subst h
      rw [List.length_singleton] at hlen
      have hc : c ≠ 0 := fun hc => hend (List.mem_singleton.mpr hc.symm)
      rw [List.cons_append, vsprintfLoop_char c _ _ hc hopen,
        outAt_putc cells pre args c (by omega)]
      refine vsprintfLoop_end cells (pre ++ [c]) behind args ?_
      rw [List.length_append, List.length_singleton]
      omega
  | case3 d fmt args ih =>
      intro pre text h hend hopen hlen
      rw [formattedWith, if_pos rfl] at h
      rcases Option.bind_eq_some_iff.mp h with ⟨⟨first, args'⟩, hfirst, h⟩
      rcases Option.map_eq_some_iff.mp h with ⟨rest, hrest, rfl⟩
      rw [EndsOpen, if_pos rfl] at hopen
      rw [List.length_append] at hlen
      dsimp only at hlen
      rw [List.cons_append, List.cons_append, vsprintfLoop_directive,
        directive_run cells pre args args' first d hfirst (by omega), Option.bind_some,
        ih (first, args') (pre ++ first) rest hrest
          (fun hmem => hend (List.mem_cons_of_mem _ (List.mem_cons_of_mem _ hmem))) hopen
          (by rw [List.length_append]; omega), List.append_assoc pre]
  | case4 c d fmt args hc ih =>
      intro pre text h hend hopen hlen
      rw [formattedWith, if_neg hc] at h
      rcases Option.map_eq_some_iff.mp h with ⟨rest, hrest, rfl⟩
      rw [EndsOpen, if_neg hc] at hopen
      rw [List.length_cons] at hlen
      have hzero : c ≠ 0 := fun hzero => hend (hzero ▸ List.mem_cons_self)
      rw [List.cons_append, vsprintfLoop_char c _ _ hzero hc,
        outAt_putc cells pre args c (by omega),
        ih (pre ++ [c]) rest hrest (fun hmem => hend (List.mem_cons_of_mem _ hmem)) hopen
          (by rw [List.length_append, List.length_singleton]; omega), List.append_assoc pre,
        List.singleton_append]

/-- A format that does end within one is read on. -/
theorem vsprintfLoop_open (fmt : List Byte) (hend : 0 ∉ fmt) (h : EndsOpen fmt) :
    ∀ o, vsprintfLoop (fmt ++ [0]) o = none := by
  induction fmt using EndsOpen.induct with
  | case1 => exact absurd h id
  | case2 c =>
      intro o
      rw [show c = code '%' from h, List.singleton_append, vsprintfLoop_directive]
      rfl
  | case3 d fmt ih =>
      intro o
      rw [EndsOpen, if_pos rfl] at h
      rw [List.cons_append, List.cons_append, vsprintfLoop_directive]
      refine Option.bind_eq_none_iff.mpr (fun o' _ => ih (fun hmem => hend ?_) h o')
      exact List.mem_cons_of_mem _ (List.mem_cons_of_mem _ hmem)
  | case4 c d fmt hc ih =>
      intro o
      rw [EndsOpen, if_neg hc] at h
      have hzero : c ≠ 0 := fun hzero => hend (hzero ▸ List.mem_cons_self)
      rw [List.cons_append, vsprintfLoop_char c _ _ hzero hc]
      exact ih (fun hmem => hend (List.mem_cons_of_mem _ hmem)) h _

/-- What is returned is an `int`. -/
theorem vsprintfLoop_ret (fmt : List Byte) : ∀ o p, vsprintfLoop fmt o = some p →
    p.ret < 2 ^ 31 := by
  induction fmt using EndsOpen.induct with
  | case1 =>
      intro o p h
      cases h
  | case2 c =>
      intro o p h
      rw [vsprintfLoop.eq_def] at h
      dsimp only at h
      split_ifs at h with hzero hc
      · rw [Option.some.injEq] at h
        rw [← h]
        exact BitVec.toInt_lt
      · cases h
  | case3 d fmt ih =>
      intro o p h
      rw [vsprintfLoop_directive] at h
      rcases Option.bind_eq_some_iff.mp h with ⟨o', -, hrest⟩
      exact ih o' p hrest
  | case4 c d fmt hc ih =>
      intro o p h
      by_cases hzero : c = 0
      · rw [hzero, vsprintfLoop_zero, Option.some.injEq] at h
        rw [← h]
        exact BitVec.toInt_lt
      · rw [vsprintfLoop_char c _ _ hzero hc] at h
        exact ih _ p h

theorem vsprintf_eq (cells : Nat → Byte) (fmt : List Byte) (args : List Arg) :
    vsprintf (some cells) fmt args = vsprintfLoop fmt (outAt cells [] args) := by
  unfold outAt
  rw [putList_nil]
  rfl

/-- Two texts that are put at the same place are the same if they are equally long. -/
theorem putList_inj (cells : Nat → Byte) (xs ys : List Byte) (hlen : xs.length = ys.length)
    (h : putList cells 0 xs = putList cells 0 ys) : xs = ys := by
  refine List.ext_getElem hlen (fun i hx hy => ?_)
  have hcell := congrFun h (0 + i)
  rw [putList_inside cells 0 xs i xs[i] (List.getElem?_eq_getElem hx),
    putList_inside cells 0 ys i ys[i] (List.getElem?_eq_getElem hy)] at hcell
  exact hcell

/-- For every format and arguments that match: exactly when the format does not end within a
    directive, no number for `%o` has more than one octal digit, and the length is an `int`. -/
theorem vsprintf_exact (fmt : List Byte) (args : List Arg) (text : List Byte) (hend : 0 ∉ fmt)
    (hmatch : formatted fmt args = some text) :
    PrintsExactly fmt args text ↔
      ¬ EndsOpen fmt ∧ (∀ w ∈ octals fmt args, w.toNat < 8) ∧ text.length < 2 ^ 31 := by
  rcases formatted_printed fmt args text hmatch with ⟨text', hprinted, hle, hsame⟩
  have hrun : ¬ EndsOpen fmt → text.length < 2 ^ 31 → ∀ cells behind,
      vsprintf (some cells) (fmt ++ 0 :: behind) args =
        some ⟨some (putList cells 0 (text' ++ [0])), text'.length, behind⟩ := by
    intro hopen hlen cells behind
    rw [vsprintf_eq]
    exact vsprintfLoop_run cells behind fmt args [] text' hprinted hend hopen
      (by rw [List.length_nil]; omega)
  constructor
  · intro hexact
    have hlen : text.length < 2 ^ 31 := by
      have hret := vsprintfLoop_ret _ _ _ ((vsprintf_eq _ _ _).symm.trans (hexact (fun _ => 0) []))
      dsimp only at hret
      omega
    have hopen : ¬ EndsOpen fmt := by
      intro hopen
      have hsome := hexact (fun _ => 0) []
      rw [vsprintf_eq, vsprintfLoop_open fmt hend hopen] at hsome
      cases hsome
    refine ⟨hopen, hsame.mp ?_, hlen⟩
    have hboth := (hrun hopen hlen (fun _ => 0) []).symm.trans (hexact (fun _ => 0) [])
    rw [Option.some.injEq, Printed.mk.injEq, Option.some.injEq, Int.natCast_inj] at hboth
    have hall := putList_inj _ _ _ (by
      rw [List.length_append, List.length_append, hboth.2.1]) hboth.1
    exact List.append_cancel_right hall
  · rintro ⟨hopen, hoctals, hlen⟩ cells behind
    rw [hrun hopen hlen cells behind, hsame.mpr hoctals]

/-- Some text, a number and a percent sign. -/
theorem vsprintf_exact_percent :
    PrintsExactly [code 'a', code '%', code 'u', code '%', code '%'] [.word 7]
      [code 'a', code '7', code '%'] :=
  (vsprintf_exact [code 'a', code '%', code 'u', code '%', code '%'] [.word 7]
    [code 'a', code '7', code '%'] (by decide) (by
      have htext : numberText 10 (7 : Word).toNat = [code '7'] := by
        rw [numberText, numeral_of_lt 10 _ (by decide)]
        rfl
      change some ([code 'a'] ++ (numberText 10 (7 : Word).toNat ++ ([code '%'] ++ []))) = _
      rw [htext]
      rfl)).mpr ⟨(by
        change ¬ False
        exact id), (by
        change ∀ w ∈ ([] : List Word), _
        exact fun w hw => absurd hw List.not_mem_nil), by decide⟩

/-- Eight in octal is written as in decimal. -/
theorem vsprintf_octal :
    0 ∉ [code '%', code 'o'] ∧
      formatted [code '%', code 'o'] [.word 8] = some [code '1', code '0'] ∧
      ¬ PrintsExactly [code '%', code 'o'] [.word 8] [code '1', code '0'] := by
  refine ⟨by decide, ?_, fun h => ?_⟩
  · have htext : numberText 8 (8 : Word).toNat = [code '1', code '0'] := by
      rw [numberText, numeral_of_le 8 _ (by decide) (by decide), numeral_of_lt 8 _ (by decide)]
      rfl
    change some (numberText 8 (8 : Word).toNat ++ []) = _
    rw [htext]
    rfl
  · have hret := congrArg (Option.map Printed.ret) (h (fun _ => 0) [])
    revert hret
    decide

end Printk

end Mirros
