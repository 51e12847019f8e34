import Mirros.Core.Ramdisk
import Mirros.Lib.Layout
import Mirros.Lib.Pieces
import Mirros.Theory.Task.Words

/-!
# The Image That Is Generated

What `__gen_ramdisk` leaves in its buffer, for any directory.

Of a file that is opened only what the calls of `read` give until one of them is
not a full block matters (`Packed`). The image is the files laid out one after the
other, a header in the table and the bytes in the data each (`layOut`), and the
tool computes it file by file: a call of `copyFile` puts the bytes and the size
(`copyFile_spec`), and `genFile` the rest of a header and the padding.

The size is tested after each read. A read that fails moves `file_data_base` back
by one byte, and the padding of the size that then is one less than a multiple of
four moves it forward again. So every file starts at a multiple of four, and all of
them fit if the last one does (`genLoop_spec`).

## Main definitions

* `Packed`, `opened`: The files that go into an image.
* `layFile`, `layOut`: The layout of one file and of all.
* `overruns`: Memory of somebody else is written.
* `Directory`: What `readdir` lists, with `tableEnd`, `imageEnd` and `image`.

## Theorems

* `copyFile_spec`: The loop over one file.
* `genFile_spec`: One file.
* `genLoop_spec`: All files.
* `genRamdisk_spec`: A whole image.
-/

namespace Mirros

theorem store32_store32 (ram : Ram) (addr v w : Nat) :
    store32 (store32 ram addr v) addr w = store32 ram addr w := by
  funext x
  unfold store32
  by_cases hx : addr ≤ x ∧ x < addr + 4
  · rw [if_pos hx, if_pos hx]
  · rw [if_neg hx, if_neg hx, if_neg hx]

/-- A word and a segment after it can be stored in either order. -/
theorem store32_putList (ram : Ram) (addr v a : Nat) (bytes : List (BitVec 8)) (h : addr + 4 ≤ a) :
    store32 (putList ram a bytes) addr v = putList (store32 ram addr v) a bytes := by
  funext x
  by_cases hx : a ≤ x
  · rw [store32_apart _ _ _ _ (Or.inr (by omega))]
    unfold putList
    rw [if_pos hx, if_pos hx, store32_apart _ _ _ _ (Or.inr (by omega))]
  · rw [putList_outside _ _ _ _ (Or.inl (by omega))]
    unfold store32
    rw [putList_outside _ _ _ _ (Or.inl (by omega))]

namespace Ramdisk

/-- A file in an image: its name, the bytes that were read of it, and whether the
    last call of `read` failed. -/
structure Packed where
  name : List (BitVec 8)
  bytes : List (BitVec 8)
  failed : Bool

/-- The file that is read by these calls. -/
def packedOf (name : List (BitVec 8)) (read : Nat → Option (List (BitVec 8))) : Packed :=
  ⟨name, (untilShort 512 read copyFuel 0).1, (untilShort 512 read copyFuel 0).2⟩

/-- The files of a directory that are opened. -/
def opened : List DirEntry → List Packed
  | [] => []
  | e :: rest =>
      if e.isDot then opened rest
      else
        match e.file with
        | none => opened rest
        | some read => packedOf e.name read :: opened rest

theorem opened_dot (e : DirEntry) (rest : List DirEntry) (h : e.isDot = true) :
    opened (e :: rest) = opened rest := by
  rw [opened, if_pos h]

theorem opened_none (e : DirEntry) (rest : List DirEntry) (h : e.isDot = false)
    (hfile : e.file = none) : opened (e :: rest) = opened rest := by
  simp only [opened, h, hfile, Bool.false_eq_true, if_false]

theorem opened_file (e : DirEntry) (rest : List DirEntry)
    (read : Nat → Option (List (BitVec 8))) (h : e.isDot = false) (hfile : e.file = some read) :
    opened (e :: rest) = packedOf e.name read :: opened rest := by
  simp only [opened, h, hfile, Bool.false_eq_true, if_false]

/-- A size with its padding. -/
def up4 (n : Nat) : Nat :=
  (n + 3) / 4 * 4

/-- The word `size` of a file: an error counts as minus one. -/
def sizeWord (len : Nat) (failed : Bool) : Nat :=
  (len + if failed then u32Size - 1 else 0) % u32Size

theorem sizeWord_lt (len : Nat) (failed : Bool) : sizeWord len failed < u32Size :=
  Nat.mod_lt _ (by unfold u32Size; omega)

theorem sizeWord_ok (len : Nat) : sizeWord len false = len % u32Size := rfl

theorem sizeWord_error (w : Nat) :
    (((w % u32Size : Nat) : Int) + -1) % (u32Size : Int) = (sizeWord w true : Nat) := by
  simp only [sizeWord, if_true]
  unfold u32Size
  omega

theorem sizeWord_read (w len : Nat) :
    (((w % u32Size : Nat) : Int) + (len : Int)) % (u32Size : Int)
      = (sizeWord (w + len) false : Nat) := by
  simp only [sizeWord, Bool.false_eq_true, if_false, Nat.add_zero]
  unfold u32Size
  omega

/-- A file in the buffer, with its header and its data where they go. -/
def layFile (buf : Ram) (header data : Nat) (f : Packed) : Ram :=
  putList
    (store32
      (store32 (putList buf header (f.name ++ [0#8])) (header + 32) data)
      (header + 36) (sizeWord f.bytes.length f.failed))
    data f.bytes

/-- Files in the buffer, one after the other. -/
def layOut : Ram → Nat → Nat → List Packed → Ram
  | buf, _, _, [] => buf
  | buf, header, data, f :: rest =>
      layOut (layFile buf header data f) (header + sizeofFileHeader)
        (data + up4 f.bytes.length) rest

/-- The bytes files take with their padding. -/
def dataSize (fs : List Packed) : Nat :=
  span (fun f => up4 f.bytes.length) fs

/-- The state after a file was copied, of which this much was read. -/
def copied (g : GenState) (w : Nat) (out : List (BitVec 8) × Bool) : GenState :=
  { g with
    buf := putList (store32 g.buf (g.fileHeader + 36) (sizeWord (w + out.1.length) out.2))
      g.fileDataBase out.1
    fileDataBase := g.fileDataBase + out.1.length - if out.2 then 1 else 0 }

theorem write32_fits (g : GenState) (addr value : Nat) (h : addr + 4 ≤ ramdiskMaxSize) :
    g.write32 addr value = { g with buf := store32 g.buf addr value } := by
  unfold GenState.write32
  rw [decide_eq_false (Nat.not_lt_of_le h), Bool.or_false]

theorem write_fits (g : GenState) (addr : Nat) (bytes : List (BitVec 8))
    (h : addr + bytes.length ≤ ramdiskMaxSize) :
    g.write addr bytes = { g with buf := putList g.buf addr bytes } := by
  unfold GenState.write
  rw [decide_eq_false (Nat.not_lt_of_le h), Bool.and_false, Bool.or_false]

@[simp] theorem write_fileDataBase (g : GenState) (addr : Nat) (bytes : List (BitVec 8)) :
    (g.write addr bytes).fileDataBase = g.fileDataBase := rfl

section

variable (read : Nat → Option (List (BitVec 8)))

/-- The last turn of the loop, when `read` fails. -/
theorem copyFile_error (fuel n : Nat) (g : GenState) (w : Nat)
    (hw : load32 g.buf (g.fileHeader + 36) = w % u32Size)
    (htable : g.fileHeader + sizeofFileHeader ≤ g.fileDataBase) (haligned : g.fileDataBase % 4 = 0)
    (hread : read n = none) :
    if g.fileDataBase ≤ ramdiskMaxSize then
      copyFile read (fuel + 1) n g = some (true, copied g w ([], true))
    else ∃ g', copyFile read (fuel + 1) n g = some (false, g') := by
  unfold sizeofFileHeader at htable
  -- An error moves the data base back by one, and it is not zero.
  have hback : ((g.fileDataBase : Int) + -1).toNat = g.fileDataBase - 1 := by omega
  simp only [copyFile, hread, Option.map_none, hback, reduceCtorEq, if_false]
  by_cases hfits : g.fileDataBase ≤ ramdiskMaxSize
  · rw [if_pos hfits, if_neg (by omega), write32_fits _ _ _ (by omega)]
    unfold copied
    rw [hw, sizeWord_error, Int.toNat_natCast]
    simp only [List.length_nil, putList_nil, Nat.add_zero, if_true]
  · rw [if_neg hfits, if_pos]
    · exact ⟨_, rfl⟩
    · unfold ramdiskMaxSize at *
      omega

/-- A turn of the loop in which something is read. -/
theorem copyFile_turn (fuel n : Nat) (g : GenState) (w : Nat) (bytes : List (BitVec 8))
    (hw : load32 g.buf (g.fileHeader + 36) = w % u32Size)
    (htable : g.fileHeader + sizeofFileHeader ≤ g.fileDataBase)
    (hread : (read n).map (List.take 512) = some bytes) :
    if g.fileDataBase + bytes.length ≤ ramdiskMaxSize then
      copyFile read (fuel + 1) n g =
        if bytes.length = 512 then copyFile read fuel (n + 1) (copied g w (bytes, false))
        else some (true, copied g w (bytes, false))
    else ∃ g', copyFile read (fuel + 1) n g = some (false, g') := by
  unfold sizeofFileHeader at htable
  -- The sum is not negative, so it is that of the naturals.
  have hforth : ((g.fileDataBase : Int) + (bytes.length : Int)).toNat
      = g.fileDataBase + bytes.length := by omega
  simp only [copyFile, hread, write_fileDataBase, hforth]
  by_cases hfits : g.fileDataBase + bytes.length ≤ ramdiskMaxSize
  · -- The bytes are behind the header, so the size so far is still there.
    have hload : load32 (putList g.buf g.fileDataBase bytes) (g.fileHeader + 36) = w % u32Size := by
      rw [load32_putList _ _ _ _ (Or.inl (by omega)), hw]
    have hfull : ((bytes.length : Int) = 512) = (bytes.length = 512) := by
      rw [eq_iff_iff]
      omega
    rw [if_pos hfits, if_neg (Nat.not_lt_of_le hfits), write_fits g _ _ hfits,
      write32_fits _ _ _ (show g.fileHeader + 36 + 4 ≤ ramdiskMaxSize by omega)]
    simp only [hload, sizeWord_read, hfull, Int.toNat_natCast]
    rw [store32_putList _ _ _ _ _ (by omega)]
    simp only [copied, Bool.false_eq_true, if_false, Nat.sub_zero]
  · -- The test comes after the bytes were read, and the buffer is of no use then.
    rw [if_neg hfits, if_pos (Nat.lt_of_not_le hfits)]
    exact ⟨_, rfl⟩

/-- Copying in two parts. -/
theorem copied_copied (g : GenState) (w : Nat) (bytes : List (BitVec 8))
    (out : List (BitVec 8) × Bool) (htable : g.fileHeader + sizeofFileHeader ≤ g.fileDataBase) :
    copied (copied g w (bytes, false)) (w + bytes.length) out
      = copied g w (bytes ++ out.1, out.2) := by
  unfold sizeofFileHeader at htable
  unfold copied
  simp only [Bool.false_eq_true, if_false, Nat.sub_zero, List.length_append, Nat.add_assoc]
  rw [store32_putList _ _ _ _ _ (by omega), store32_store32, putList_append]

/-- The loop over one file, from a read on before which `w` bytes were counted. -/
theorem copyFile_spec (fuel n : Nat) (g : GenState) (w : Nat)
    (hw : load32 g.buf (g.fileHeader + 36) = w % u32Size)
    (htable : g.fileHeader + sizeofFileHeader ≤ g.fileDataBase) (haligned : g.fileDataBase % 4 = 0)
    (hfuel : ramdiskMaxSize < g.fileDataBase + 512 * fuel) :
    if g.fileDataBase + (untilShort 512 read (fuel + 1) n).1.length ≤ ramdiskMaxSize then
      copyFile read (fuel + 1) n g = some (true, copied g w (untilShort 512 read (fuel + 1) n))
    else ∃ g', copyFile read (fuel + 1) n g = some (false, g') := by
  have hmax : ramdiskMaxSize % 4 = 0 := rfl
  induction fuel generalizing n g w with
  | zero =>
      -- The buffer is full, so nothing fits, not even an error.
      rw [if_neg (by omega)]
      rcases hread : (read n).map (List.take 512) with _ | bytes
      · have hturn := copyFile_error read 0 n g w hw htable haligned
          (Option.map_eq_none_iff.mp hread)
        rw [if_neg (by omega)] at hturn
        exact hturn
      · have hturn := copyFile_turn read 0 n g w bytes hw htable hread
        rw [if_neg (by omega)] at hturn
        exact hturn
  | succ fuel ih =>
      rcases hread : (read n).map (List.take 512) with _ | bytes
      · -- The loop ends here, and what was read before it stays.
        have hnone := Option.map_eq_none_iff.mp hread
        rw [untilShort_none 512 read _ n hnone]
        exact copyFile_error read _ n g w hw htable haligned hnone
      · have hturn := copyFile_turn read (fuel + 1) n g w bytes hw htable hread
        by_cases hlen : bytes.length = 512
        · rw [untilShort_full 512 read _ n bytes hread hlen]
          rw [if_pos hlen] at hturn
          rw [List.length_append]
          by_cases hfits : g.fileDataBase + bytes.length ≤ ramdiskMaxSize
          · -- The rest is the loop from the next read on.
            rw [if_pos hfits] at hturn
            have hbase : (copied g w (bytes, false)).fileDataBase
                = g.fileDataBase + bytes.length := by
              simp only [copied, Bool.false_eq_true, if_false, Nat.sub_zero]
            have hword : load32 (copied g w (bytes, false)).buf
                ((copied g w (bytes, false)).fileHeader + 36) = (w + bytes.length) % u32Size := by
              unfold sizeofFileHeader at htable
              unfold copied
              rw [load32_putList _ _ _ _ (Or.inl (by omega)),
                load32_store32 _ _ _ (sizeWord_lt _ _), sizeWord_ok]
            have hrest := ih (n + 1) (copied g w (bytes, false)) (w + bytes.length) hword
              (by rw [hbase]; exact Nat.le_add_right_of_le htable) (by rw [hbase]; omega)
              (by rw [hbase]; omega)
            rw [hbase, ← hturn, copied_copied g w bytes _ htable, Nat.add_assoc] at hrest
            exact hrest
          · -- What does not fit already is not made to fit by more.
            rw [if_neg hfits] at hturn
            rw [if_neg (by omega)]
            exact hturn
        · rw [untilShort_short 512 read _ n bytes hread hlen]
          rw [if_neg hlen] at hturn
          exact hturn

end

/-- What comes before an error is full blocks. -/
theorem packedOf_failed (name : List (BitVec 8)) (read : Nat → Option (List (BitVec 8)))
    (h : (packedOf name read).failed = true) : (packedOf name read).bytes.length % 512 = 0 :=
  untilShort_failed 512 read copyFuel 0 h

/-- The padding ends at a multiple of four, also after an error. -/
theorem padded (data len : Nat) (failed : Bool) (hdata : 0 < data)
    (hfailed : failed = true → len % 512 = 0) :
    (if sizeWord len failed % 4 ≠ 0 then
      data + len - (if failed then 1 else 0) + (4 - sizeWord len failed % 4)
    else data + len - (if failed then 1 else 0)) = data + up4 len := by
  unfold sizeWord up4 u32Size
  rcases failed with _ | _
  · simp only [Bool.false_eq_true, if_false]
    split <;> omega
  · -- The word is three modulo four, so the padding is the byte the error took away.
    have hblocks := hfailed rfl
    simp only [if_true]
    split <;> omega

/-- The state in which a file is copied: its name and `base` are in the header, and
    `size` is zero. -/
def begun (name : List (BitVec 8)) (g : GenState) : GenState :=
  ((g.write g.fileHeader (name ++ [0#8])).write32 (g.fileHeader + 32) g.fileDataBase).write32
    (g.fileHeader + 36) 0

/-- What is done after a file was copied: the padding and the next header. -/
def ended (g : GenState) : GenState where
  buf := g.buf
  fileHeader := g.fileHeader + sizeofFileHeader
  fileDataBase :=
    if load32 g.buf (g.fileHeader + 36) % 4 ≠ 0 then
      g.fileDataBase + (4 - load32 g.buf (g.fileHeader + 36) % 4)
    else g.fileDataBase
  overrun := g.overrun

theorem genFile_eq (name : List (BitVec 8)) (read : Nat → Option (List (BitVec 8)))
    (g : GenState) :
    genFile name read g = (copyFile read copyFuel 0 (begun name g)).bind
      (fun r => some (r.1, if r.1 then ended r.2 else r.2)) := by
  unfold genFile begun
  refine congrArg (Option.bind _) (funext fun r => ?_)
  rcases r with ⟨fits, g'⟩
  rcases fits with _ | _
  · rfl
  · unfold ended
    simp only [Bool.not_true, Bool.false_eq_true, if_false, if_true]
    split <;> rfl

/-- The state after a file was put into the image. -/
def placed (g : GenState) (f : Packed) : GenState where
  buf := layFile g.buf g.fileHeader g.fileDataBase f
  fileHeader := g.fileHeader + sizeofFileHeader
  fileDataBase := g.fileDataBase + up4 f.bytes.length
  overrun := g.overrun || ramdiskMaxSize < g.fileHeader + (f.name.length + 1)

/-- A file that was begun, copied and ended was put into the image. -/
theorem ended_copied (g : GenState) (f : Packed)
    (htable : g.fileHeader + sizeofFileHeader ≤ g.fileDataBase)
    (hfits : g.fileDataBase ≤ ramdiskMaxSize)
    (hfailed : f.failed = true → f.bytes.length % 512 = 0) :
    ended (copied (begun f.name g) 0 (f.bytes, f.failed)) = placed g f := by
  unfold sizeofFileHeader at htable
  have hbuf : (copied (begun f.name g) 0 (f.bytes, f.failed)).buf
      = layFile g.buf g.fileHeader g.fileDataBase f := by
    unfold copied begun layFile
    simp only [GenState.write32, GenState.write, store32_store32, Nat.zero_add]
  have hsize : load32 (layFile g.buf g.fileHeader g.fileDataBase f) (g.fileHeader + 36)
      = sizeWord f.bytes.length f.failed := by
    unfold layFile
    rw [load32_putList _ _ _ _ (Or.inl (by omega)), load32_store32 _ _ _ (sizeWord_lt _ _)]
  have hheader : (copied (begun f.name g) 0 (f.bytes, f.failed)).fileHeader = g.fileHeader := rfl
  have hdata : (copied (begun f.name g) 0 (f.bytes, f.failed)).fileDataBase
      = g.fileDataBase + f.bytes.length - if f.failed then 1 else 0 := rfl
  -- Only the name can run over the end: the words after it are in the table.
  have hover : (copied (begun f.name g) 0 (f.bytes, f.failed)).overrun
      = (g.overrun || decide (ramdiskMaxSize < g.fileHeader + (f.name.length + 1))) := by
    unfold copied begun
    rw [write32_fits _ _ _ (show g.fileHeader + 36 + 4 ≤ ramdiskMaxSize by omega),
      write32_fits _ _ _ (show g.fileHeader + 32 + 4 ≤ ramdiskMaxSize by omega)]
    unfold GenState.write
    rw [List.length_append, List.length_singleton]
    simp only [ne_eq, List.append_eq_nil_iff, List.cons_ne_self, and_false, not_false_eq_true,
      decide_true, Bool.true_and]
  unfold ended placed
  rw [hbuf, hheader, hdata, hover, hsize,
    padded g.fileDataBase f.bytes.length f.failed (by omega) hfailed]

/-- One file is put into the image, if it fits. -/
theorem genFile_spec (name : List (BitVec 8)) (read : Nat → Option (List (BitVec 8)))
    (g : GenState) (htable : g.fileHeader + sizeofFileHeader ≤ g.fileDataBase)
    (haligned : g.fileDataBase % 4 = 0) :
    if g.fileDataBase + (packedOf name read).bytes.length ≤ ramdiskMaxSize then
      genFile name read g = some (true, placed g (packedOf name read))
    else ∃ g', genFile name read g = some (false, g') := by
  -- The size is zero at the start, and the header is ready.
  have hsize : load32 (begun name g).buf ((begun name g).fileHeader + 36) = 0 % u32Size :=
    load32_store32 _ _ _ (by unfold u32Size; omega)
  have hcopy : if g.fileDataBase + (packedOf name read).bytes.length ≤ ramdiskMaxSize then
      copyFile read copyFuel 0 (begun name g) = some (true, copied (begun name g) 0
        ((packedOf name read).bytes, (packedOf name read).failed))
      else ∃ g', copyFile read copyFuel 0 (begun name g) = some (false, g') :=
    copyFile_spec read (copyFuel - 1) 0 (begun name g) 0 hsize htable haligned
      (by unfold copyFuel ramdiskMaxSize; omega)
  rw [genFile_eq]
  by_cases hfits : g.fileDataBase + (packedOf name read).bytes.length ≤ ramdiskMaxSize
  · -- A file that was copied is ended, with its padding.
    rw [if_pos hfits] at hcopy ⊢
    rw [hcopy, Option.bind_some, if_pos rfl]
    have hended := ended_copied g (packedOf name read) htable (by omega)
      (packedOf_failed name read)
    rw [← hended]
    rfl
  · rw [if_neg hfits] at hcopy ⊢
    rcases hcopy with ⟨g', hcopy⟩
    rw [hcopy]
    exact ⟨g', rfl⟩

theorem up4_mod (n : Nat) : up4 n % 4 = 0 :=
  Nat.mul_mod_left _ _

/-- A file fits if and only if it fits with its padding. -/
theorem up4_fits (data len : Nat) (h : data % 4 = 0) :
    data + len ≤ ramdiskMaxSize ↔ data + up4 len ≤ ramdiskMaxSize := by
  unfold up4 ramdiskMaxSize
  omega

/-- The entries other than `.` and `..`. -/
def entries (listing : List DirEntry) : List DirEntry :=
  listing.filter (fun e => !e.isDot)

theorem entries_dot (e : DirEntry) (rest : List DirEntry) (h : e.isDot = true) :
    entries (e :: rest) = entries rest :=
  List.filter_cons_of_neg (by rw [h]; exact Bool.false_ne_true)

theorem entries_file (e : DirEntry) (rest : List DirEntry) (h : e.isDot = false) :
    entries (e :: rest) = e :: entries rest :=
  List.filter_cons_of_pos (by rw [h]; rfl)

/-- Memory of somebody else is written for these entries, with the header of the
    first one. -/
def overruns (path : List (BitVec 8)) : List DirEntry → Nat → Bool
  | [], _ => false
  | e :: rest, header =>
      if e.isDot then overruns path rest header
      else
        decide (tempSize < path.length + 1 + e.name.length + 1) ||
          match e.file with
          | none => overruns path rest header
          | some _ =>
              decide (ramdiskMaxSize < header + (e.name.length + 1)) ||
                overruns path rest (header + sizeofFileHeader)

/-- The state with the path of an entry put together. -/
def named (path : List (BitVec 8)) (e : DirEntry) (g : GenState) : GenState :=
  { g with overrun := g.overrun || tempSize < path.length + 1 + e.name.length + 1 }

/-- The state after the files of a directory were put into the image. -/
def placedAll (path : List (BitVec 8)) (listing : List DirEntry) (g : GenState) : GenState where
  buf := layOut g.buf g.fileHeader g.fileDataBase (opened listing)
  fileHeader := g.fileHeader + sizeofFileHeader * (opened listing).length
  fileDataBase := g.fileDataBase + dataSize (opened listing)
  overrun := g.overrun || overruns path listing g.fileHeader

section

variable (path : List (BitVec 8)) (e : DirEntry) (rest : List DirEntry) (g : GenState)

theorem placedAll_dot (h : e.isDot = true) :
    placedAll path (e :: rest) g = placedAll path rest g := by
  unfold placedAll
  rw [opened_dot e rest h, overruns, if_pos h]

theorem placedAll_none (h : e.isDot = false) (hfile : e.file = none) :
    placedAll path (e :: rest) g = placedAll path rest (named path e g) := by
  unfold placedAll named
  rw [opened_none e rest h hfile]
  simp only [overruns, h, hfile, Bool.false_eq_true, if_false, Bool.or_assoc]

theorem placedAll_file (read : Nat → Option (List (BitVec 8))) (h : e.isDot = false)
    (hfile : e.file = some read) :
    placedAll path (e :: rest) g
      = placedAll path rest (placed (named path e g) (packedOf e.name read)) := by
  unfold placedAll named placed
  have hname : (packedOf e.name read).name = e.name := rfl
  rw [opened_file e rest read h hfile]
  simp only [overruns, h, hfile, Bool.false_eq_true, if_false, Bool.or_assoc, layOut, dataSize,
    span_cons, List.length_cons, hname, Nat.add_assoc, Nat.mul_succ, Nat.add_comm sizeofFileHeader]

theorem genLoop_dot (h : e.isDot = true) : genLoop path (e :: rest) g = genLoop path rest g := by
  rw [genLoop, if_pos h]

theorem genLoop_none (h : e.isDot = false) (hfile : e.file = none) :
    genLoop path (e :: rest) g = genLoop path rest (named path e g) := by
  simp only [genLoop, h, hfile, Bool.false_eq_true, if_false, named]

theorem genLoop_file (read : Nat → Option (List (BitVec 8))) (h : e.isDot = false)
    (hfile : e.file = some read) :
    genLoop path (e :: rest) g = (genFile e.name read (named path e g)).bind
      (fun r => if r.1 then genLoop path rest r.2 else some (errNoMem, r.2)) := by
  simp only [genLoop, h, hfile, Bool.false_eq_true, if_false, named]
  rfl

end

/-- All files are put into the image, if they fit. A directory without a file that
    can be opened always fits: the size is tested after a read only. -/
theorem genLoop_spec (path : List (BitVec 8)) (listing : List DirEntry) (g : GenState)
    (htable : g.fileHeader + sizeofFileHeader * (entries listing).length ≤ g.fileDataBase)
    (haligned : g.fileDataBase % 4 = 0) :
    if opened listing = [] ∨ g.fileDataBase + dataSize (opened listing) ≤ ramdiskMaxSize then
      genLoop path listing g = some (0, placedAll path listing g)
    else ∃ g', genLoop path listing g = some (errNoMem, g') := by
  induction listing generalizing g with
  | nil =>
      rw [if_pos (Or.inl (show opened [] = [] from rfl))]
      unfold placedAll
      simp only [genLoop, opened, layOut, dataSize, span_nil, overruns, List.length_nil,
        Nat.mul_zero, Nat.add_zero, Bool.or_false]
  | cons e rest ih =>
      rcases hdot : e.isDot with _ | _
      · rw [entries_file e rest hdot, List.length_cons, Nat.mul_succ] at htable
        rcases hfile : e.file with _ | read
        · -- The header that was counted for it stays in the table.
          have hrest := ih (named path e g)
            (show g.fileHeader + _ ≤ g.fileDataBase by omega) haligned
          rw [opened_none e rest hdot hfile, genLoop_none path e rest g hdot hfile,
            placedAll_none path e rest g hdot hfile]
          exact hrest
        · have hone := genFile_spec e.name read (named path e g)
            (show g.fileHeader + sizeofFileHeader ≤ g.fileDataBase by omega) haligned
          have hfits := up4_fits g.fileDataBase (packedOf e.name read).bytes.length haligned
          have hdata : dataSize (opened (e :: rest))
              = up4 (packedOf e.name read).bytes.length + dataSize (opened rest) := by
            rw [opened_file e rest read hdot hfile]
            exact span_cons _ _ _
          have hne : opened (e :: rest) ≠ [] := by
            rw [opened_file e rest read hdot hfile]
            exact List.cons_ne_nil _ _
          by_cases hfit : g.fileDataBase + (packedOf e.name read).bytes.length ≤ ramdiskMaxSize
          · rw [if_pos (show (named path e g).fileDataBase + _ ≤ ramdiskMaxSize from hfit)] at hone
            have haligned' :
                (g.fileDataBase + up4 (packedOf e.name read).bytes.length) % 4 = 0 := by
              rw [Nat.add_mod, haligned, up4_mod]
            have hrest := ih (placed (named path e g) (packedOf e.name read))
              (show g.fileHeader + sizeofFileHeader + _ ≤
                g.fileDataBase + up4 (packedOf e.name read).bytes.length by omega) haligned'
            -- If it is the last file, that it fits is all there is to say.
            have hsame : (opened (e :: rest) = []
                  ∨ g.fileDataBase + dataSize (opened (e :: rest)) ≤ ramdiskMaxSize)
                ↔ (opened rest = [] ∨ (placed (named path e g) (packedOf e.name read)).fileDataBase
                  + dataSize (opened rest) ≤ ramdiskMaxSize) := by
              rw [hdata, ← Nat.add_assoc]
              constructor
              · exact fun h => Or.inr (h.resolve_left hne)
              · refine fun h => Or.inr (h.elim (fun hnil => ?_) id)
                rw [hnil]
                exact hfits.mp hfit
            rw [genLoop_file path e rest g read hdot hfile, hone, Option.bind_some, if_pos rfl,
              placedAll_file path e rest g read hdot hfile, if_congr hsame rfl rfl]
            exact hrest
          · -- One file that does not fit is the end of it.
            rw [if_neg (show ¬(named path e g).fileDataBase + _ ≤ ramdiskMaxSize from hfit)] at hone
            rcases hone with ⟨g', hone⟩
            have hlarge : ¬(opened (e :: rest) = []
                ∨ g.fileDataBase + dataSize (opened (e :: rest)) ≤ ramdiskMaxSize) := by
              intro h
              have hall := h.resolve_left hne
              rw [hdata] at hall
              exact hfit (hfits.mpr (by omega))
            rw [if_neg hlarge, genLoop_file path e rest g read hdot hfile, hone]
            exact ⟨g', rfl⟩
      · rw [entries_dot e rest hdot] at htable
        rw [opened_dot e rest hdot, genLoop_dot path e rest g hdot,
          placedAll_dot path e rest g hdot]
        exact ih g htable haligned

/-- A directory as `readdir` lists it: `.` and `..` once each among entries with
    names that the host allows. -/
structure Directory where
  listing : List DirEntry
  dots : (listing.filter DirEntry.isDot).length = 2
  proper : ∀ e ∈ listing, e.name ≠ [] ∧ 0#8 ∉ e.name

namespace Directory

variable (d : Directory)

/-- The entries other than `.` and `..`. -/
def entries : List DirEntry :=
  Ramdisk.entries d.listing

/-- The files of the directory that are opened. -/
def opened : List Packed :=
  Ramdisk.opened d.listing

/-- Where the headers end, of which there is one for every entry. -/
def tableEnd : Nat :=
  sizeofRamdiskHeader + sizeofFileHeader * d.entries.length

/-- Where the image ends. -/
def imageEnd : Nat :=
  d.tableEnd + dataSize d.opened

/-- The image in the buffer. -/
def image (buf : Ram) : Ram :=
  store32
    (store32
      (putList (layOut buf sizeofRamdiskHeader d.tableEnd d.opened) 0 (ramdiskName ++ [0#8]))
      20 (d.entries.length % u32Size))
    16 d.imageEnd

/-- The entries other than `.` and `..` are those that were counted. -/
theorem length_listing : d.listing.length = d.entries.length + 2 := by
  have hparts := List.length_eq_length_filter_add (l := d.listing) DirEntry.isDot
  rw [d.dots] at hparts
  rw [hparts, Nat.add_comm]
  rfl

end Directory

/-- What `__gen_ramdisk` does for a directory. -/
theorem genRamdisk_spec (buf : Ram) (path : List (BitVec 8)) (d : Directory) :
    if d.opened = [] ∨ d.imageEnd ≤ ramdiskMaxSize then
      genRamdisk buf path (some d.listing) =
        some ⟨0, d.image buf, d.imageEnd, overruns path d.listing sizeofRamdiskHeader⟩
    else ∃ r, genRamdisk buf path (some d.listing) = some r ∧ r.error = errNoMem := by
  -- The table begins behind the header of the image and has one header for every entry.
  have hcount : (d.listing.length : Int) - 2 = d.entries.length := by
    rw [d.length_listing]
    omega
  have hbase : ((sizeofRamdiskHeader : Int)
      + (d.entries.length : Int) * (sizeofFileHeader : Int)).toNat = d.tableEnd := by
    unfold Directory.tableEnd sizeofRamdiskHeader sizeofFileHeader
    omega
  have haligned : d.tableEnd % 4 = 0 := by
    unfold Directory.tableEnd sizeofRamdiskHeader sizeofFileHeader
    omega
  have hloop := genLoop_spec path d.listing ⟨buf, sizeofRamdiskHeader, d.tableEnd, false⟩
    (Nat.le_refl _) haligned
  have hword : ((d.entries.length : Int) % (u32Size : Int)).toNat = d.entries.length % u32Size := by
    omega
  unfold genRamdisk
  simp only [hcount, hbase, hword]
  by_cases hfits : d.opened = [] ∨ d.imageEnd ≤ ramdiskMaxSize
  · rw [if_pos hfits]
    rw [if_pos (show Ramdisk.opened d.listing = []
      ∨ d.tableEnd + dataSize (Ramdisk.opened d.listing) ≤ ramdiskMaxSize from hfits)] at hloop
    rw [hloop]
    simp only [Option.bind_eq_bind, Option.bind_some, ne_eq, not_true_eq_false, if_false]
    -- The header of the image is written last, over what the buffer was.
    rw [write_fits _ _ _ (show 0 + (ramdiskName ++ [0#8]).length ≤ ramdiskMaxSize by decide),
      write32_fits _ _ _ (show 20 + 4 ≤ ramdiskMaxSize by decide),
      write32_fits _ _ _ (show 16 + 4 ≤ ramdiskMaxSize by decide)]
    unfold placedAll
    simp only [Bool.false_or]
    rfl
  · rw [if_neg hfits]
    rw [if_neg (show ¬(Ramdisk.opened d.listing = []
      ∨ d.tableEnd + dataSize (Ramdisk.opened d.listing) ≤ ramdiskMaxSize) from hfits)] at hloop
    rcases hloop with ⟨g', hloop⟩
    rw [hloop]
    exact ⟨_, rfl, rfl⟩

end Ramdisk

end Mirros
