import Mirros.Lib.Segment

/-!
# Formatted Output

`kernel/printk.c`, and the functions of `kernel/string.c` it prints numbers with.

The buffer is a memory by itself, and `str` is where in it the next character goes. The format
is what there is in memory from the pointer on, and so is a string among the arguments, which
is the null pointer if there is nothing. Reading on behind the end of memory fails, and so does
an argument that is not there or of another type.

`fmt` goes through the format from the front. What is left of the format when `vsprintf`
returns is what it has not read.

## Main definitions

* `numToStr`, `itoa`, `numbric`: Numbers.
* `Arg`, `vaWord`, `vaPtr`: The arguments.
* `Out`: What `vsprintf` works on.
* `directive`, `vsprintf`: The format.
-/

namespace Mirros

namespace Printk

/-- A character. -/
abbrev Byte : Type := BitVec 8

/-- What a register or an argument has. -/
abbrev Word : Type := BitVec 32

/-- The code of a character. -/
def code (c : Char) : Byte := BitVec.ofNat 8 c.toNat

/-- `hex` of `num_to_str` -/
def hexDigit (n : Nat) : Byte :=
  ([ '0', '1', '2', '3', '4', '5', '6', '7', '8', '9', 'a', 'b', 'c', 'd', 'e', 'f'].map
    code).getD n 0

/-- `absolute` -/
def absolute (num : Word) : Word :=
  if (0 : Word).slt num then num else ~~~num + 1

/-- The loop of `num_to_str`, with what `tmp_buf` has so far and how many places of it are left. -/
def numToStrLoop (bdho : Nat) : Nat → Nat → List Byte → Option (Nat × List Byte)
  | 0, _, _ => none
  | places + 1, num, tmp =>
      let m := num % bdho
      let num := num / bdho
      let tmp := tmp ++ [hexDigit m]
      if bdho ≤ num then numToStrLoop bdho places num tmp else some (num, tmp)

/-- `num_to_str`: the buffer, and how many characters were written. -/
def numToStr (buf : Nat → Byte) (str : Nat) (num bdho : Nat) : Option ((Nat → Byte) × Nat) := do
  let (num, tmp) ← numToStrLoop bdho 32 num []
  let tmp ←
    if num ≠ 0 then
      if tmp.length < 32 then some (tmp ++ [hexDigit num]) else none
    else some tmp
  return (putList buf str tmp.reverse, tmp.length)

/-- `itoa` -/
def itoa (buf : Nat → Byte) (str : Nat) (num : Word) : Option ((Nat → Byte) × Nat) := do
  if num.slt 0 then
    let num := absolute num
    let buf := putList buf str [code '-']
    let (buf, len) ← numToStr buf (str + 1) num.toNat 10
    return (buf, len + 1)
  else
    numToStr buf str num.toNat 10

/-- `uitoa` -/
def uitoa (buf : Nat → Byte) (str : Nat) (num : Word) : Option ((Nat → Byte) × Nat) :=
  numToStr buf str num.toNat 10

/-- `hextoa` -/
def hextoa (buf : Nat → Byte) (str : Nat) (num : Word) : Option ((Nat → Byte) × Nat) :=
  numToStr buf str num.toNat 16

/-- `octtoa` -/
def octtoa (buf : Nat → Byte) (str : Nat) (num : Word) : Option ((Nat → Byte) × Nat) :=
  numToStr buf str num.toNat 8

/-- `bintoa` -/
def bintoa (buf : Nat → Byte) (str : Nat) (num : Word) : Option ((Nat → Byte) × Nat) :=
  numToStr buf str num.toNat 2

/-- `PRINTF_DEC` -/
def printfDec : Word := 0x0001

/-- `PRINTF_HEX` -/
def printfHex : Word := 0x0002

/-- `PRINTF_OCT` -/
def printfOct : Word := 0x0004

/-- `PRINTF_BIN` -/
def printfBin : Word := 0x0008

/-- `PRINTF_MASK` -/
def printfMask : Word := 0x0f

/-- `PRINTF_UNSIGNED` -/
def printfUnsigned : Word := 0x0010

/-- `PRINTF_SIGNED` -/
def printfSigned : Word := 0x0020

/-- `numbric` -/
def numbric (buf : Nat → Byte) (str : Nat) (num flag : Word) : Option ((Nat → Byte) × Nat) :=
  if flag &&& printfMask = printfDec then
    if flag &&& printfSigned ≠ 0 then itoa buf str num else uitoa buf str num
  else if flag &&& printfMask = printfHex then hextoa buf str num
  else if flag &&& printfMask = printfOct then octtoa buf str num
  else if flag &&& printfMask = printfBin then bintoa buf str num
  else some (buf, 0)

/-- An argument: a number, or a pointer with what is in memory from there on. -/
inductive Arg where
  | word (w : Word)
  | ptr (cells : Option (List Byte))
  deriving DecidableEq, Repr

/-- `va_arg` for a number. -/
def vaWord : List Arg → Option (Word × List Arg)
  | .word w :: args => some (w, args)
  | _ => none

/-- `va_arg` for a pointer. -/
def vaPtr : List Arg → Option (Option (List Byte) × List Arg)
  | .ptr cells :: args => some (cells, args)
  | _ => none

/-- `strlen` of a pointer that is not null. -/
def strlenCells : List Byte → Option Word
  | [] => none
  | c :: cells => if c = 0 then some 0 else (strlenCells cells).map (· + 1)

/-- `strlen` -/
def strlen : Option (List Byte) → Option Word
  | none => some (-1)
  | some cells => strlenCells cells

/-- `strncpy` -/
def strncpy (buf : Nat → Byte) (des : Nat) (src : Option (List Byte)) (len : Word) : Nat → Byte :=
  match src with
  | none => buf
  | some cells => if (0 : Word).slt len then putList buf des (cells.take len.toNat) else buf

/-- The variables of `vsprintf`: the buffer, `str` as a distance from it, `flag`, and the
    arguments that are left. -/
structure Out where
  buf : Nat → Byte
  str : Word
  flag : Word
  args : List Arg

/-- `*str++ = c` -/
def Out.putc (o : Out) (c : Byte) : Out :=
  { o with buf := putList o.buf o.str.toNat [c], str := o.str + 1 }

/-- What comes behind the directives for numbers. An `s32` and a `u32` have the same bits. -/
def printNumber (o : Out) : Option Out := do
  let (number, args) ← vaWord o.args
  let (buf, len) ← numbric o.buf o.str.toNat number o.flag
  return { buf, str := o.str + BitVec.ofNat 32 len, flag := 0, args }

/-- What `vsprintf` does for the character behind a percent sign. -/
def directive (o : Out) (c : Byte) : Option Out :=
  if c = code 'd' then
    printNumber { o with flag := o.flag ||| (printfDec ||| printfSigned) }
  else if c = code 'x' then
    printNumber { o with flag := o.flag ||| (printfHex ||| printfUnsigned) }
  else if c = code 'u' then
    printNumber { o with flag := o.flag ||| (printfDec ||| printfUnsigned) }
  else if c = code 's' then do
    let (tmp, args) ← vaPtr o.args
    let len ← strlen tmp
    return { o with buf := strncpy o.buf o.str.toNat tmp len, str := o.str + len, args }
  else if c = code 'c' then do
    let (number, args) ← vaWord o.args
    return { o with args }.putc (number.setWidth 8)
  else if c = code 'o' then
    -- The same flags as for `%d`.
    printNumber { o with flag := o.flag ||| (printfDec ||| printfSigned) }
  else if c = code '%' then
    some (o.putc (code '%'))
  else
    some ((o.putc (code '%')).putc c)

/-- What `vsprintf` leaves: the buffer, what it returns, and what it has not read of the format. -/
structure Printed where
  buf : Option (Nat → Byte)
  ret : Int
  rest : List Byte

/-- The loop of `vsprintf`. -/
def vsprintfLoop : List Byte → Out → Option Printed
  | [], _ => none
  | c :: fmt, o =>
      if c = 0 then
        some ⟨some (putList o.buf o.str.toNat [0]), o.str.toInt, fmt⟩
      else if c ≠ code '%' then
        vsprintfLoop fmt (o.putc c)
      else
        match fmt with
        | [] => none
        -- The character is not compared with the end of the format here.
        | d :: fmt => (directive o d).bind (vsprintfLoop fmt)

/-- `vsprintf` -/
def vsprintf (buf : Option (Nat → Byte)) (fmt : List Byte) (arg : List Arg) : Option Printed :=
  match buf with
  | none => some ⟨none, -1, fmt⟩
  | some cells => vsprintfLoop fmt ⟨cells, 0, 0, arg⟩

end Printk

end Mirros
