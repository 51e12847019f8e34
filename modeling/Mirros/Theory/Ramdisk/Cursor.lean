import Mirros.Core.PageLists
import Mirros.Theory.Ramdisk.RoundTrip

/-!
# The Cursor of a File

A file of the ramdisk has a cursor, `curr`, which is an address. `ramdisk_seek` sets it
and `ramdisk_read` moves it on by what it has copied. Neither tests where it is; that it
stays inside of the file is what `OpenFile` carries and both of them keep.

The image is in the upper gigabyte of the kernel, so neither the end of a file nor the
end of a read wraps around when the size that is asked for is below `2^30`. A negative
size reads nothing.

## Main definitions

* `OpenFile`: A file with its cursor inside of it.
* `FileCall`: What can be done with an open file.
* `Served`: What a read returns, copies and leaves behind.

## Theorems

* `ramdiskReadInt_served`: A read from inside of the file.
* `ramdiskOpen_cursor`: Any calls on a file that was opened.
-/

namespace Mirros

namespace Ramdisk

/-- A file in the area of the image, with its cursor inside of it. -/
structure OpenFile (file : RamFile) : Prop where
  low : 0x80000000 ≤ file.base
  high : file.base + file.size ≤ 0xc0000000
  base_le : file.base ≤ file.curr
  le_end : file.curr ≤ file.base + file.size

/-- A size below `2^30`, as an `int`. -/
def ReadSize (size : Int) : Prop :=
  -0x80000000 ≤ size ∧ size < 0x40000000

/-- The calls on an open file. -/
inductive FileCall where
  | seek (offset : Nat)
  | read (buf : Nat) (size : Int)

/-- The offset is a word and the size is not too large. -/
def FileCall.Fits : FileCall → Prop
  | .seek offset => offset < u32Size
  | .read _ size => ReadSize size

/-- What a call does to the memory and to the file. -/
def FileCall.exec (s : Ram × RamFile) : FileCall → Ram × RamFile
  | .seek offset => (s.1, ramdiskSeek s.2 offset)
  | .read buf size => (ramdiskReadInt s.1 s.2 buf size).2

/-- A read returns how much of the size is left in the file, the bytes of the file from the
    cursor on are in the buffer, nothing else is written, and the cursor is behind them. -/
structure Served (ram : Ram) (file : RamFile) (buf : Nat) (size : Int) : Prop where
  count : (ramdiskReadInt ram file buf size).1 =
    max 0 (min size ((file.base + file.size : Nat) - (file.curr : Int)))
  delivered : getList (ramdiskReadInt ram file buf size).2.1 buf
      (ramdiskReadInt ram file buf size).1.toNat =
    ((getList ram file.base file.size).drop (file.curr - file.base)).take size.toNat
  frame : ∀ x, x < buf ∨ buf + (ramdiskReadInt ram file buf size).1.toNat ≤ x →
    (ramdiskReadInt ram file buf size).2.1 x = ram x
  advance : (ramdiskReadInt ram file buf size).2.2 =
    { file with curr := file.curr + (ramdiskReadInt ram file buf size).1.toNat }

section

variable {file : RamFile} (hfile : OpenFile file)

include hfile

/-- How much is copied. -/
theorem ramdiskReadInt_count (ram : Ram) (buf : Nat) (size : Int) (hsize : ReadSize size) :
    (ramdiskReadInt ram file buf size).1 =
      max 0 (min size ((file.base + file.size : Nat) - (file.curr : Int))) := by
  rcases hfile with ⟨hlow, hhigh, hbase, hend⟩
  rcases hsize with ⟨hneg, hpos⟩
  -- The end of the read does not wrap around in either direction.
  have hword : ((file.curr : Int) + size) % (u32Size : Int) = file.curr + size := by
    unfold u32Size
    omega
  unfold ramdiskReadInt
  rw [hword]
  dsimp only
  split_ifs with hover
  · omega
  · omega

/-- A read from inside of the file. -/
theorem ramdiskReadInt_served (ram : Ram) (buf : Nat) (size : Int) (hsize : ReadSize size) :
    Served ram file buf size := by
  have hcount := ramdiskReadInt_count hfile ram buf size hsize
  have hbase := hfile.base_le
  have hend := hfile.le_end
  -- What was copied is the memory from the cursor on.
  have hram : (ramdiskReadInt ram file buf size).2.1 =
      memcpy ram buf file.curr (ramdiskReadInt ram file buf size).1.toNat := rfl
  refine ⟨hcount, ?_, fun x hx => ?_, rfl⟩
  · have hpart := getList_part ram file.base (getList ram file.base file.size)
      (by rw [length_getList]) (file.curr - file.base) (ramdiskReadInt ram file buf size).1.toNat
      (by rw [length_getList]; omega)
    rw [show file.base + (file.curr - file.base) = file.curr by omega] at hpart
    rw [hram, getList_memcpy, hpart]
    refine List.take_eq_take_iff.mpr ?_
    rw [List.length_drop, length_getList]
    omega
  · rw [hram]
    unfold memcpy
    rw [if_neg (by omega)]

/-- `ramdisk_seek` moves the cursor to the offset, or to the end of the file. -/
theorem ramdiskSeek_open (offset : Nat) : OpenFile (ramdiskSeek file offset) :=
  ⟨hfile.low, hfile.high, Nat.le_add_right _ _, Nat.add_le_add_left (Nat.min_le_left _ _) _⟩

/-- `ramdisk_read` moves it to the end of the file at most. -/
theorem ramdiskReadInt_open (ram : Ram) (buf : Nat) (size : Int) (hsize : ReadSize size) :
    OpenFile (ramdiskReadInt ram file buf size).2.2 := by
  have hserved := ramdiskReadInt_served hfile ram buf size hsize
  have hcount := hserved.count
  rw [hserved.advance]
  refine ⟨hfile.low, hfile.high, ?_, ?_⟩
  · exact Nat.le_trans hfile.base_le (Nat.le_add_right _ _)
  · have hend := hfile.le_end
    dsimp only
    omega

end

/-- A call leaves the file where it is and the cursor in it. -/
theorem FileCall.exec_open (s : Ram × RamFile) (call : FileCall) (hcall : call.Fits)
    (hfile : OpenFile s.2) :
    OpenFile (call.exec s).2 ∧ (call.exec s).2.base = s.2.base ∧
      (call.exec s).2.size = s.2.size := by
  cases call with
  | seek offset => exact ⟨ramdiskSeek_open hfile offset, rfl, rfl⟩
  | read buf size => exact ⟨ramdiskReadInt_open hfile s.1 buf size hcall, rfl, rfl⟩

/-- So does any number of calls. -/
theorem foldl_exec_open (calls : List FileCall) (s : Ram × RamFile)
    (hcalls : ∀ call ∈ calls, call.Fits) (hfile : OpenFile s.2) :
    OpenFile (calls.foldl FileCall.exec s).2 ∧ (calls.foldl FileCall.exec s).2.base = s.2.base ∧
      (calls.foldl FileCall.exec s).2.size = s.2.size := by
  induction calls generalizing s with
  | nil => exact ⟨hfile, rfl, rfl⟩
  | cons call calls ih =>
      rcases FileCall.exec_open s call (hcalls call List.mem_cons_self) hfile with
        ⟨hopen, hbase, hsize⟩
      rcases ih (call.exec s) (fun c hc => hcalls c (List.mem_cons_of_mem _ hc)) hopen with
        ⟨hopen', hbase', hsize'⟩
      exact ⟨hopen', hbase'.trans hbase, hsize'.trans hsize⟩

/-- A file that is opened has its cursor at the start. -/
theorem openLoop_start (k k' : Kernel) (ramdiskStart : Nat) (name : Nat → BitVec 8) (n temp : Nat)
    (file : RamFile) (h : openLoop k ramdiskStart name n temp = some (some file, k')) :
    file.curr = file.base := by
  induction n generalizing temp with
  | zero =>
      cases h
  | succ n ih =>
      rw [openLoop] at h
      rcases Option.bind_eq_some_iff.mp h with ⟨ret, -, h⟩
      split_ifs at h with hret
      · rcases Option.bind_eq_some_iff.mp h with ⟨⟨addr, slab⟩, -, h⟩
        dsimp only at h
        split_ifs at h with haddr
        · cases h
        · cases h
          rfl
      · exact ih (temp + sizeofFileHeader) h

/-- Whatever is done with a file of the image, its cursor stays inside of it and every read is
    served from there. After a seek the bytes are those from the offset on. -/
theorem ramdiskOpen_cursor (k k' : Kernel) (ramdiskStart : Nat) (m : Mounted)
    (name : Nat → BitVec 8) (file : RamFile)
    (hopen : ramdiskOpen k ramdiskStart m name = some (some file, k'))
    (hlow : 0x80000000 ≤ file.base) (hhigh : file.base + file.size ≤ 0xc0000000)
    (calls : List FileCall) (hcalls : ∀ call ∈ calls, call.Fits) :
    let s := calls.foldl FileCall.exec (k'.ram, file)
    (s.2.base = file.base ∧ s.2.size = file.size) ∧
      (file.base ≤ s.2.curr ∧ s.2.curr ≤ file.base + file.size) ∧
      (∀ buf size, ReadSize size → Served s.1 s.2 buf size) ∧
      ∀ offset buf size, offset < u32Size → ReadSize size →
        Served s.1 (ramdiskSeek s.2 offset) buf size ∧
          getList (ramdiskReadInt s.1 (ramdiskSeek s.2 offset) buf size).2.1 buf
              (ramdiskReadInt s.1 (ramdiskSeek s.2 offset) buf size).1.toNat =
            ((getList s.1 file.base file.size).drop (min offset file.size)).take size.toNat := by
  have hstart : file.curr = file.base := by
    unfold ramdiskOpen at hopen
    split_ifs at hopen with hnull
    exact openLoop_start k k' ramdiskStart name _ _ file hopen
  have hfile : OpenFile file := ⟨hlow, hhigh, hstart.ge, by rw [hstart]; exact Nat.le_add_right _ _⟩
  intro s
  rcases foldl_exec_open calls (k'.ram, file) hcalls hfile with ⟨hs, hbase, hsize⟩
  change s.2.base = file.base at hbase
  change s.2.size = file.size at hsize
  refine ⟨⟨hbase, hsize⟩, ?_, fun buf size hfits => ramdiskReadInt_served hs s.1 buf size hfits,
    fun offset buf size _ hfits => ?_⟩
  · have hle := hs.base_le
    have hend := hs.le_end
    rw [hbase] at hle hend
    rw [hsize] at hend
    exact ⟨hle, hend⟩
  · have hserved := ramdiskReadInt_served (ramdiskSeek_open hs offset) s.1 buf size hfits
    refine ⟨hserved, ?_⟩
    have hdelivered := hserved.delivered
    unfold ramdiskSeek at hdelivered ⊢
    rw [hdelivered]
    dsimp only
    rw [hbase, hsize, Nat.add_sub_cancel_left, Nat.min_comm]

/-- A read from a file of three bytes, after a seek behind its end and a negative read. -/
theorem ramdiskOpen_cursor_one :
    ∃ file k', ramdiskOpen (oneFileKernel 0x80400000) 0x80400000 ⟨0x80400000, 0x80400020⟩
        (fun i => [0x61#8].getD i 0#8) = some (some file, k') ∧
      let s := [FileCall.seek 7, FileCall.read 0x90000000 (-1)].foldl FileCall.exec (k'.ram, file)
      Served s.1 s.2 0x90000000 5 := by
  -- There is a block for the file, and the image has its header.
  have heval : ((oneFileKernel 0x80400000).slab.kmalloc sizeofFile gfpKernel).map
      (fun x => decide (x.1 ≠ 0)) = some true := by
    decide +kernel
  rcases Option.map_eq_some_iff.mp heval with ⟨⟨addr, slab⟩, hkmalloc, haddr⟩
  rw [decide_eq_true_eq] at haddr
  have hname : StringAt 0#8 (fun i => [0x61#8].getD i 0#8) [0x61#8] := by
    refine ⟨fun i x hi => ?_, rfl, by decide⟩
    rw [List.getD_eq_getElem?_getD, hi, Option.getD_some]
  have hend : oneFile.imageEnd = 76 := by decide
  have hloaded := oneFileKernel_loaded 0x80400000 (by decide) (by rw [hend]; decide) false
  have hopened : oneFile.opened = [⟨[0x61#8], [1#8, 2#8, 3#8], false⟩] := rfl
  have hopen := loaded_open (fun _ => 0xff#8) oneFile (oneFileKernel 0x80400000) 0x80400000
    hloaded.image (by rw [hend]; decide) (by decide) (by decide)
    (by rw [hopened]; exact List.forall_mem_singleton.mpr (by decide)) _ [] [] _ hname hopened
    (List.not_mem_nil) addr slab hkmalloc haddr
  refine ⟨_, _, hopen, ?_⟩
  have hcalls : ∀ call ∈ [FileCall.seek 7, FileCall.read 0x90000000 (-1)], call.Fits := by
    intro call hcall
    rcases List.mem_pair.mp hcall with rfl | rfl
    · exact (by decide : (7 : Nat) < u32Size)
    · exact ⟨by decide, by decide⟩
  exact (ramdiskOpen_cursor _ _ _ _ _ _ hopen (by decide) (by decide) _ hcalls).2.2.1 0x90000000 5
    ⟨by decide, by decide⟩

end Ramdisk

end Mirros
