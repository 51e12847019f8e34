import Mirros.Core.PageLists
import Mirros.Lib.Chain

/-!
# Reading a Program

`kernel/elf.c`: reading the headers of a program from the ramdisk and making the list of
its sections that have memory.

The header is on the stack, the table of the section headers and the names of the sections
are in two buffers of `kmalloc`, and every section has a structure of its own. None of these
overlap, so each is a memory by itself, addressed from zero, and a pointer to one is the
number of the call of `kmalloc` it came from. Which of the calls succeed is a parameter, and
so is what is on the stack and in the buffers before they are filled.

An access outside of these is a `Fault`, and nothing is said about what comes after it. A
header counts as outside if it was not read. `ramdisk_seek` and `ramdisk_read` are never
called with a null pointer and do not fail.

## Main definitions

* `ElfEnv`, `ElfHeap`, `Fault`: What the parser works on.
* `SectionHeader`, `SectionTable`: The table of the sections.
* `elfFileAddSection`, `parseElfInfo`: The list of the sections.
* `getElfInfo`: The whole of the parser.
-/

namespace Mirros

namespace Elf

/-- What can be wrong with an access. -/
inductive Fault where
  /-- `kzalloc` clears memory through the null pointer. -/
  | null
  /-- A section header is not among those that were read. -/
  | table
  /-- A character is outside of the buffer of the names. -/
  | string
  /-- A character is written behind the field for the name. -/
  | name
  /-- A list of sections has no end. -/
  | endless
  deriving DecidableEq, Repr

/-- `struct elf_section`, with the name up to its terminator. -/
structure Section where
  name : List (BitVec 8)
  offset : Nat
  size : Nat
  loadAddr : Nat
  next : Option Nat
  deriving DecidableEq, Repr

/-- `struct elf_file` -/
structure ElfFile where
  allocSize : Nat
  head : Option Nat
  deriving DecidableEq, Repr

/-- The calls of `kmalloc` so far, those that succeeded, what was given to `kfree`, and the
    structures. `self` is the pointer to the `struct elf_file`. -/
structure ElfHeap where
  calls : Nat
  taken : List Nat
  freed : List Nat
  self : Nat
  file : ElfFile
  sect : Nat → Section

/-- Which calls of `kmalloc` succeed, and what is in memory that was not written yet. -/
structure ElfEnv where
  alloc : Nat → Bool
  stack : Ram
  header : Ram
  str : Ram

/-- `kmalloc`: nothing for a size that is not positive. -/
def kmalloc (alloc : Nat → Bool) (size : Int) (h : ElfHeap) : Option Nat × ElfHeap :=
  if 0 < size ∧ alloc h.calls = true then
    (some h.calls, { h with calls := h.calls + 1, taken := h.calls :: h.taken })
  else (none, { h with calls := h.calls + 1 })

/-- `kzalloc`: the memory is cleared before anybody looks whether there is any. -/
def kzalloc (alloc : Nat → Bool) (size : Int) (h : ElfHeap) : Except Fault (Nat × ElfHeap) :=
  match kmalloc alloc size h with
  | (some p, h) => .ok (p, h)
  | (none, _) => .error .null

/-- `kfree` -/
def kfree (h : ElfHeap) (p : Nat) : ElfHeap :=
  { h with freed := p :: h.freed }

/-- `elf_section_header`, of which these are read. -/
structure SectionHeader where
  shName : Nat
  shFlags : Nat
  shAddr : Nat
  shOffset : Nat
  shSize : Nat
  deriving DecidableEq, Repr

/-- The flag `SHF_ALLOC` is set. -/
def SectionHeader.isAlloc (s : SectionHeader) : Bool :=
  s.shFlags &&& 0x2 ≠ 0

/-- An array of section headers, with how many of them there are. -/
structure SectionTable where
  entry : Nat → SectionHeader
  entries : Nat

/-- `sizeof(elf_section_header)` -/
def sizeofSectionHeader : Nat := 40

/-- The buffer of the names has one page. -/
def strSize : Nat := 4096

/-- The field `name` of `struct elf_section`. -/
def nameSize : Nat := 32

/-- `sizeof(struct elf_section)` -/
def sizeofSection : Int := 48

/-- `sizeof(struct elf_file)` -/
def sizeofElfFile : Int := 8

/-- `strcpy` from a place in the buffer of the names into a field with so much room. -/
def strcpyName (str : Ram) (a : Nat) : Nat → Except Fault (List (BitVec 8))
  | 0 => .error (if a < strSize then .name else .string)
  | room + 1 =>
      if a < strSize then
        -- The terminator is copied as well.
        if str a = 0 then .ok []
        else (strcpyName str (a + 1) room).map (str a :: ·)
      else .error .string

/-- `elf_file_add_section` -/
def elfFileAddSection (header : SectionHeader) (p : Nat) (str : Ram) (h : ElfHeap) :
    Except Fault ElfHeap := do
  let tmp := h.file.head
  let name ← strcpyName str header.shName nameSize
  let s : Section := ⟨name, header.shOffset, header.shSize, header.shAddr, none⟩
  let h := { h with
    sect := Function.update h.sect p s
    file := { h.file with allocSize := add32 h.file.allocSize s.size } }
  match tmp with
  | none => return { h with file := { h.file with head := some p } }
  | some tmp =>
      -- There are no more sections than calls of `kmalloc`.
      match lastNode (fun q => (h.sect q).next) h.calls tmp with
      | none => throw .endless
      | some tmp =>
          return { h with sect := Function.update h.sect tmp { h.sect tmp with next := some p } }

/-- The loop of `parse_elf_info` over the headers from the `i`-th on. -/
def parseLoop (alloc : Nat → Bool) (table : SectionTable) (str : Ram) :
    Nat → Nat → ElfHeap → Except Fault ElfHeap
  | 0, _, h => .ok h
  | n + 1, i, h =>
      if table.entries ≤ i then .error .table
      else if (table.entry i).isAlloc then do
        -- The test for the null pointer behind this call comes too late.
        let (p, h) ← kzalloc alloc sizeofSection h
        let h ← elfFileAddSection (table.entry i) p str h
        parseLoop alloc table str n (i + 1) h
      else parseLoop alloc table str n (i + 1) h

/-- `parse_elf_info` -/
def parseElfInfo (alloc : Nat → Bool) (table : SectionTable) (sectionNum : Nat) (str : Ram)
    (h : ElfHeap) : Except Fault ElfHeap := do
  let (p, h) ← kzalloc alloc sizeofElfFile h
  parseLoop alloc table str sectionNum 0 { h with self := p, file := ⟨0, none⟩ }

/-- `release_elf_file` -/
def releaseElfFile (h : ElfHeap) : Except Fault ElfHeap :=
  match traverse (fun q => (h.sect q).next) (h.calls + 1) h.file.head with
  | none => .error .endless
  | some sections => .ok (kfree (sections.foldl kfree h) h.self)

/-- `fs_read` into a buffer of its own: what it returns, the buffer and the file. -/
def fsRead (ram : Ram) (file : RamFile) (buf : Ram) (size : Int) : Int × Ram × RamFile :=
  let got := ramdiskReadInt ram file 0 size
  (got.1, fun i => if (i : Int) < got.1 then ram (file.curr + i) else buf i, got.2.2)

/-- A halfword, the low byte first. -/
def load16 (ram : Ram) (addr : Nat) : Nat :=
  (ram addr).toNat + 256 * (ram (addr + 1)).toNat

/-- `sizeof(elf_header)` -/
def sizeofElfHeader : Int := 52

/-- `e_shoff` -/
def eShoff (hdr : Ram) : Nat := load32 hdr 32

/-- `e_shentsize` -/
def eShentsize (hdr : Ram) : Nat := load16 hdr 46

/-- `e_shnum` -/
def eShnum (hdr : Ram) : Nat := load16 hdr 48

/-- `e_shstrndx` -/
def eShstrndx (hdr : Ram) : Nat := load16 hdr 50

/-- `strncmp(ELFMAG, hdr.e_ident, 4) == 0` -/
def isElf (hdr : Ram) : Bool :=
  (List.range 4).map hdr = [0x7f#8, 0x45#8, 0x4c#8, 0x46#8]

/-- `hdr.e_shnum * hdr.e_shentsize`, an `int`. -/
def tableSize (hdr : Ram) : Int :=
  toInt32 (eShnum hdr * eShentsize hdr % u32Size)

/-- The entry of an array of section headers in memory. -/
def sectionHeader (mem : Ram) (i : Nat) : SectionHeader where
  shName := load32 mem (sizeofSectionHeader * i)
  shFlags := load32 mem (sizeofSectionHeader * i + 8)
  shAddr := load32 mem (sizeofSectionHeader * i + 12)
  shOffset := load32 mem (sizeofSectionHeader * i + 16)
  shSize := load32 mem (sizeofSectionHeader * i + 20)

/-- What `get_elf_info` returns: a null pointer, the variable `elf_file` before anything was
    assigned to it, or the pointer to the structure. -/
inductive ElfResult where
  | null
  | uninitialised
  | file
  deriving DecidableEq, Repr

/-- What the first `fs_read` leaves. -/
def readHeader (ram : Ram) (file : RamFile) (env : ElfEnv) : Int × Ram × RamFile :=
  fsRead ram file env.stack sizeofElfHeader

/-- What the second one leaves, after the seek before it. -/
def readTable (ram : Ram) (file : RamFile) (env : ElfEnv) (hdr : Ram) : Int × Ram × RamFile :=
  fsRead ram (ramdiskSeek file (eShoff hdr)) env.header (tableSize hdr)

/-- What the third one leaves, after the seek to the header at `e_shstrndx`. -/
def readStrings (ram : Ram) (file : RamFile) (env : ElfEnv) (hdr mem : Ram) :
    Int × Ram × RamFile :=
  fsRead ram (ramdiskSeek file (sectionHeader mem (eShstrndx hdr)).shOffset) env.str strSize

/-- The section headers of which all bytes were read. -/
def loadedTable (got : Int × Ram × RamFile) : SectionTable :=
  ⟨sectionHeader got.2.1, got.1.toNat / sizeofSectionHeader⟩

/-- `get_elf_info` -/
def getElfInfo (ram : Ram) (file : RamFile) (env : ElfEnv) : Except Fault (ElfResult × ElfHeap) := do
  let h : ElfHeap := ⟨0, [], [], 0, ⟨0, none⟩, fun _ => ⟨[], 0, 0, 0, none⟩⟩
  let (ret, hdr, file) := readHeader ram file env
  if ret < 0 then
    return (.null, h)
  if !isElf hdr then
    return (.null, h)
  match kmalloc env.alloc (tableSize hdr) h with
  | (none, h) => return (.null, h)
  | (some header, h) =>
    match kmalloc env.alloc strSize h with
    -- `err_str_mem`: nothing was assigned to `elf_file`.
    | (none, h) => return (.uninitialised, kfree h header)
    | (some str, h) =>
      let got := readTable ram file env hdr
      if got.1 < 0 then
        return (.null, kfree (kfree h str) header)
      -- The index is not compared with anything.
      if ¬(eShstrndx hdr < eShnum hdr ∧ eShstrndx hdr < (loadedTable got).entries) then
        throw .table
      let names := readStrings ram got.2.2 env hdr got.2.1
      if names.1 < 0 then
        return (.null, kfree (kfree h str) header)
      let h ← parseElfInfo env.alloc (loadedTable got) (eShnum hdr) names.2.1 h
      -- An error in the loop and an empty program look the same.
      if h.file.allocSize = 0 then
        let h ← releaseElfFile h
        return (.null, kfree (kfree h str) header)
      return (.file, kfree (kfree h str) header)

end Elf

end Mirros
