import Mirros.Core.Exec
import Mirros.Lib.Segment

/-!
# The Ramdisk

The tool that makes the image of the ramdisk, `tools/genramdisk/genramdisk.c`, and
the file system of the kernel that reads it, `kernel/ramdisk.c`, with `strcmp` of
`kernel/string.c`.

The tool runs on the host. Its buffer is addressed from zero; `overrun` records
that it wrote past the end of that buffer or of `temp`, where the memory of
somebody else begins. A directory is what `readdir` lists, which is taken to be the
same both times, and for each entry what `open` and the calls of `read` on it
return: nothing when they fail. Messages are left out, and `write` writes all it is
asked to.

The kernel has the image at the address `__ramdisk_start` in its memory. The file
that `ramdisk_open` returns is a record, not the memory of the structure. As
elsewhere `none` is a loop or a read that does not end, or an access through the
null pointer.

## Main definitions

* `DirEntry`: An entry of a directory.
* `GenState`, `copyFile`, `genFile`, `genLoop`, `genRamdisk`: Making an image.
* `strcmp`: Comparing two strings.
* `mountRamdisk`, `ramdiskOpen`, `ramdiskRead`: Reading files from it.
-/

namespace Mirros

namespace Ramdisk

/-- `RAMDISK_MAX_SIZE` -/
def ramdiskMaxSize : Nat := 1024 * 1024

/-- `FILE_NAME_SIZE` -/
def fileNameSize : Nat := 32

/-- `sizeof(struct ramdisk_header)`: the name in 16 bytes, `total_size` at 16,
    `file_count` at 20 and two unused words. -/
def sizeofRamdiskHeader : Nat := 32

/-- `sizeof(struct file_header)`: the name, `base` at 32 and `size` at 36. -/
def sizeofFileHeader : Nat := 40

/-- `sizeof(temp)` -/
def tempSize : Nat := 123

/-- `-EACCES` of the host. -/
def errAcces : Int := -13

/-- The characters of `"ramdisk"`. -/
def ramdiskName : List (BitVec 8) := [0x72#8, 0x61#8, 0x6d#8, 0x64#8, 0x69#8, 0x73#8, 0x6b#8]

/-- An entry of a directory: its name and, if it can be opened, what each call of
    `read` returns, which may be an error. -/
structure DirEntry where
  name : List (BitVec 8)
  file : Option (Nat → Option (List (BitVec 8)))

/-- The entry is `.` or `..`. -/
def DirEntry.isDot (e : DirEntry) : Bool :=
  e.name = [0x2e#8] || e.name = [0x2e#8, 0x2e#8]

/-- The buffer, `file_header` and `file_data_base`, and whether memory of somebody
    else was written. -/
structure GenState where
  buf : Ram
  fileHeader : Nat
  fileDataBase : Nat
  overrun : Bool

namespace GenState

/-- Write bytes to the buffer. -/
def write (g : GenState) (addr : Nat) (bytes : List (BitVec 8)) : GenState :=
  { g with
    buf := putList g.buf addr bytes
    overrun := g.overrun || (bytes ≠ [] && ramdiskMaxSize < addr + bytes.length) }

/-- Write a word to the buffer. -/
def write32 (g : GenState) (addr value : Nat) : GenState :=
  { g with
    buf := store32 g.buf addr value
    overrun := g.overrun || ramdiskMaxSize < addr + 4 }

end GenState

/-- The `do` loop of `__gen_ramdisk` from the `n`-th `read` on, with whether the
    file fitted. The size of what was read is tested after it was read, and an
    error of `read` is added like a size. The first number bounds the turns. -/
def copyFile (read : Nat → Option (List (BitVec 8))) :
    Nat → Nat → GenState → Option (Bool × GenState)
  | 0, _, _ => none
  | fuel + 1, n, g =>
      -- `read` is asked for 512 bytes.
      let got := (read n).map (List.take 512)
      let readSize : Int := match got with
        | none => -1
        | some bytes => bytes.length
      let g := match got with
        | none => g
        | some bytes => g.write g.fileDataBase bytes
      -- An error moves the end of the data one byte back.
      let g := { g with fileDataBase := (g.fileDataBase + readSize).toNat }
      -- The bytes are in the buffer by now, or behind it.
      if ramdiskMaxSize < g.fileDataBase then some (false, g)
      else
        let size := ((load32 g.buf (g.fileHeader + 36) + readSize) % u32Size).toNat
        let g := g.write32 (g.fileHeader + 36) size
        if readSize = 512 then copyFile read fuel (n + 1) g else some (true, g)

/-- More reads than that do not fit. -/
def copyFuel : Nat := ramdiskMaxSize / 512 + 2

/-- What `__gen_ramdisk` does with a file it has opened. `strcpy` copies the whole
    name, and `base` and `size` are written after it. -/
def genFile (name : List (BitVec 8)) (read : Nat → Option (List (BitVec 8))) (g : GenState) :
    Option (Bool × GenState) := do
  let g := g.write g.fileHeader (name ++ [0#8])
  let g := g.write32 (g.fileHeader + 32) g.fileDataBase
  let g := g.write32 (g.fileHeader + 36) 0
  let (fits, g) ← copyFile read copyFuel 0 g
  if !fits then
    return (false, g)
  -- The size is read back from the header.
  let size := load32 g.buf (g.fileHeader + 36)
  let g := if size % 4 ≠ 0 then { g with fileDataBase := g.fileDataBase + (4 - size % 4) } else g
  return (true, { g with fileHeader := g.fileHeader + sizeofFileHeader })

/-- The second loop of `__gen_ramdisk`. The path of the file is put together in
    `temp` before it is opened. -/
def genLoop (path : List (BitVec 8)) : List DirEntry → GenState → Option (Int × GenState)
  | [], g => some (0, g)
  | e :: rest, g =>
      -- Neither of the two is opened, and both have been counted.
      if e.isDot then genLoop path rest g
      else
        let g := { g with
          overrun := g.overrun || tempSize < path.length + 1 + e.name.length + 1 }
        match e.file with
        -- Nothing is written, and the header that was counted for it is left over.
        | none => genLoop path rest g
        | some read => do
            let (fits, g) ← genFile e.name read g
            if fits then genLoop path rest g else some (errNoMem, g)

/-- What `__gen_ramdisk` returns, the buffer and how much of it was written to the
    image. -/
structure GenOut where
  error : Int
  buf : Ram
  size : Nat
  overrun : Bool

/-- `__gen_ramdisk`, with nothing for a directory that cannot be opened. The files
    are counted before any of them is opened. -/
def genRamdisk (buf : Ram) (path : List (BitVec 8)) (dir : Option (List DirEntry)) :
    Option GenOut :=
  match dir with
  | none => some ⟨errAcces, buf, 0, false⟩
  | some listing => do
      -- A listing without the two entries makes the count negative.
      let count : Int := listing.length - 2
      let fileHeaderBase := sizeofRamdiskHeader
      let fileDataBase := (fileHeaderBase + count * sizeofFileHeader).toNat
      let (error, g) ← genLoop path listing ⟨buf, fileHeaderBase, fileDataBase, false⟩
      -- The buffer is not written to the image.
      if error ≠ 0 then
        return ⟨error, g.buf, 0, g.overrun⟩
      let g := g.write 0 (ramdiskName ++ [0#8])
      let g := g.write32 20 (count % u32Size).toNat
      let g := g.write32 16 g.fileDataBase
      return ⟨0, g.buf, g.fileDataBase, g.overrun⟩

/-- A word as an `s32`. -/
def toS32 (n : Nat) : Int :=
  if n < 0x80000000 then n else (n : Int) - u32Size

/-- `strcmp` from the `i`-th characters of the two strings on. The first number
    bounds the turns. -/
def strcmp (src dst : Nat → BitVec 8) : Nat → Nat → Option Int
  | 0, _ => none
  | fuel + 1, i =>
      let ret : Int := (src i).toNat - (dst i).toNat
      -- A difference ends the loop, and so does the end of `dst`.
      if ret = 0 ∧ dst i ≠ 0 then strcmp src dst fuel (i + 1)
      else some (if ret < 0 then -1 else if ret > 0 then 1 else ret)

/-- A string has no more characters than there are addresses. -/
def strFuel : Nat := 2 ^ 32

/-- The variables `ramdisk_header` and `file_header`, with zero for the null
    pointer. -/
structure Mounted where
  ramdiskHeader : Nat
  fileHeader : Nat
  deriving DecidableEq, Repr

/-- `mount_ramdisk`, with the variables it sets. -/
def mountRamdisk (ram : Ram) (ramdiskStart : Nat) : Option Mounted :=
  if ramdiskStart = 0 then some ⟨0, 0⟩
  else do
    let ret ← strcmp (fun i => ram (ramdiskStart + i)) (fun i => ramdiskName.getD i 0#8) strFuel 0
    if ret ≠ 0 then
      return ⟨0, 0⟩
    return ⟨ramdiskStart, ramdiskStart + sizeofRamdiskHeader⟩

/-- `sizeof(struct file)` -/
def sizeofFile : Int := 12

/-- The loop of `ramdisk_open` over the headers that are left, with the first of
    them. -/
def openLoop (k : Kernel) (ramdiskStart : Nat) (name : Nat → BitVec 8) :
    Nat → Nat → Option (Option RamFile × Kernel)
  | 0, _ => some (none, k)
  | n + 1, temp => do
      let ret ← strcmp name (fun i => k.ram (temp + i)) strFuel 0
      if ret = 0 then
        let (file, slab) ← k.slab.kmalloc sizeofFile gfpKernel
        let k := { k with slab := slab }
        -- An image with the file and no memory for it looks like no such file.
        if file = 0 then
          return (none, k)
        let base := add32 ramdiskStart (load32 k.ram (temp + 32))
        return (some { base := base, size := load32 k.ram (temp + 36), curr := base }, k)
      else openLoop k ramdiskStart name n (temp + sizeofFileHeader)

/-- `ramdisk_open` -/
def ramdiskOpen (k : Kernel) (ramdiskStart : Nat) (m : Mounted) (name : Nat → BitVec 8) :
    Option (Option RamFile × Kernel) :=
  if m.ramdiskHeader = 0 then none
  else
    -- A negative count ends the loop before its first turn.
    openLoop k ramdiskStart name (toS32 (load32 k.ram (m.ramdiskHeader + 20))).toNat m.fileHeader

/-- `ramdisk_read`, with addresses as the words they are. -/
def ramdiskRead (ram : Ram) (file : RamFile) (buf size : Nat) : Int × Ram × RamFile :=
  let start := file.curr
  let copySize : Int :=
    -- The sum of the words is compared, and it may have wrapped around.
    if add32 start size > add32 file.base file.size then
      toS32 (sub32 (add32 file.base file.size) start)
    else size
  let copySize := if copySize < 0 then 0 else copySize
  (copySize, memcpy ram buf start copySize.toNat,
    { file with curr := add32 file.curr copySize.toNat })

end Ramdisk

end Mirros
