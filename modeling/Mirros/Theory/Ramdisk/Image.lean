import Mirros.Theory.Ramdisk.Generate

/-!
# Well Formed Images

What is where in an image, and which directories give an image that a reader can
trust.

The header of every file that is opened has its name, as far as the field goes, the
place of its bytes and how many there are (`image_header`), whatever comes after
it: a name that is too long runs into later headers, which are written later. The
bytes themselves are in place if no name is too long (`image_bytes`), and so are
the headers that were counted for entries that could not be opened: they are what
the buffer was before (`image_rest`).

## Main definitions

* `HeaderAt`: The header of a file is at an address.
* `HeaderOk`, `WellFormed`: What a reader relies on.
* `Clean`: The condition under which an image is well formed.

## Theorems

* `image_header`, `image_bytes`, `image_rest`: What is where.
* `gen_wellFormed`: Which images are well formed.
-/

namespace Mirros

namespace Ramdisk

section

variable (buf : Ram) (header data : Nat)

/-- Nothing below the header of a file is written for it. -/
theorem layFile_below (f : Packed) (x : Nat) (htable : header + sizeofFileHeader ≤ data)
    (h : x < header) : layFile buf header data f x = buf x := by
  unfold sizeofFileHeader at htable
  unfold layFile
  rw [putList_outside _ _ _ _ (Or.inl (by omega)), store32_apart _ _ _ _ (Or.inl (by omega)),
    store32_apart _ _ _ _ (Or.inl (by omega)), putList_outside _ _ _ _ (Or.inl h)]

/-- Nothing between the header of a file and its bytes is written if its name is
    short. -/
theorem layFile_between (f : Packed) (x : Nat) (hname : f.name.length < fileNameSize)
    (h : header + sizeofFileHeader ≤ x) (hx : x < data) : layFile buf header data f x = buf x := by
  unfold sizeofFileHeader at h
  unfold fileNameSize at hname
  unfold layFile
  rw [putList_outside _ _ _ _ (Or.inl hx), store32_apart _ _ _ _ (Or.inr (by omega)),
    store32_apart _ _ _ _ (Or.inr (by omega)), putList_outside _ _ _ _ (Or.inr _)]
  rw [List.length_append, List.length_singleton]
  omega

theorem layOut_below (fs : List Packed) (x : Nat)
    (htable : header + sizeofFileHeader * fs.length ≤ data) (h : x < header) :
    layOut buf header data fs x = buf x := by
  induction fs generalizing buf header data with
  | nil => rfl
  | cons f fs ih =>
      rw [List.length_cons, Nat.mul_succ] at htable
      rw [layOut, ih _ _ _ (by omega) (by omega), layFile_below _ _ _ _ _ (by omega) h]

theorem layOut_between (fs : List Packed) (x : Nat)
    (hnames : ∀ f ∈ fs, f.name.length < fileNameSize)
    (h : header + sizeofFileHeader * fs.length ≤ x) (hx : x < data) :
    layOut buf header data fs x = buf x := by
  induction fs generalizing buf header data with
  | nil => rfl
  | cons f fs ih =>
      rw [List.length_cons, Nat.mul_succ] at h
      rw [layOut, ih _ _ _ (fun g hg => hnames g (List.mem_cons_of_mem f hg)) (by omega) (by omega),
        layFile_between _ _ _ _ _ (hnames f List.mem_cons_self) (by omega) hx]

end

/-- The header at an address is that of a file with its bytes at `data`. -/
structure HeaderAt (ram : Ram) (addr : Nat) (f : Packed) (data : Nat) : Prop where
  name : ∀ i c, i < fileNameSize → (f.name ++ [0#8])[i]? = some c → ram (addr + i) = c
  base : load32 ram (addr + 32) = data
  size : load32 ram (addr + 36) = sizeWord f.bytes.length f.failed

/-- A word of a header that is somewhere else in another memory. -/
theorem headerWord_shift (ram ram' : Ram) (addr addr' j : Nat) (hj : j + 4 ≤ sizeofFileHeader)
    (h : ∀ i < sizeofFileHeader, ram' (addr' + i) = ram (addr + i)) :
    load32 ram' (addr' + j) = load32 ram (addr + j) := by
  refine load32_shift _ _ _ _ (fun i hi => ?_)
  rw [Nat.add_assoc, Nat.add_assoc]
  exact h (j + i) (by omega)

/-- A header depends on its forty bytes only. -/
theorem headerAt_congr (ram ram' : Ram) (addr addr' : Nat) (f : Packed) (data : Nat)
    (h : HeaderAt ram addr f data)
    (hsame : ∀ i < sizeofFileHeader, ram' (addr' + i) = ram (addr + i)) :
    HeaderAt ram' addr' f data := by
  refine ⟨fun i c hi hc => ?_, ?_, ?_⟩
  · rw [hsame i (Nat.lt_trans hi (by decide))]
    exact h.name i c hi hc
  · rw [headerWord_shift ram ram' addr addr' 32 (by decide) hsame, h.base]
  · rw [headerWord_shift ram ram' addr addr' 36 (by decide) hsame, h.size]

/-- The header of a file right after it was put there. -/
theorem layFile_header (buf : Ram) (header data : Nat) (f : Packed)
    (htable : header + sizeofFileHeader ≤ data) (hword : data < u32Size) :
    HeaderAt (layFile buf header data f) header f data := by
  unfold sizeofFileHeader at htable
  unfold layFile
  refine ⟨fun i c hi hc => ?_, ?_, ?_⟩
  · unfold fileNameSize at hi
    rw [putList_outside _ _ _ _ (Or.inl (by omega)), store32_apart _ _ _ _ (Or.inl (by omega)),
      store32_apart _ _ _ _ (Or.inl (by omega))]
    exact putList_inside _ _ _ _ _ hc
  · rw [load32_putList _ _ _ _ (Or.inl (by omega)),
      load32_store32_apart _ _ _ _ (Or.inr (by omega)), load32_store32 _ _ _ hword]
  · rw [load32_putList _ _ _ _ (Or.inl (by omega)), load32_store32 _ _ _ (sizeWord_lt _ _)]

/-- The headers of files that were laid out. Those that come later leave the
    earlier ones alone. -/
theorem layOut_header (buf : Ram) (header data : Nat) (pre post : List Packed) (f : Packed)
    (htable : header + sizeofFileHeader * (pre ++ f :: post).length ≤ data)
    (hword : data + dataSize pre < u32Size) :
    HeaderAt (layOut buf header data (pre ++ f :: post)) (header + sizeofFileHeader * pre.length) f
      (data + dataSize pre) := by
  induction pre generalizing buf header data with
  | nil =>
      rw [List.nil_append, List.length_cons, Nat.mul_succ] at htable
      -- The first file, with all others behind its header.
      refine headerAt_congr (layFile buf header data f) _ header _ f _
        (layFile_header buf header data f (by omega) hword) (fun i hi => ?_)
      rw [List.nil_append, layOut, List.length_nil, Nat.mul_zero, Nat.add_zero]
      exact layOut_below _ _ _ post _ (by omega) (by omega)
  | cons g pre ih =>
      rw [List.cons_append, List.length_cons, Nat.mul_succ] at htable
      have hdata : dataSize (g :: pre) = up4 g.bytes.length + dataSize pre := span_cons _ _ _
      rw [hdata, ← Nat.add_assoc] at hword ⊢
      rw [List.cons_append, layOut, List.length_cons, Nat.mul_succ,
        Nat.add_comm (sizeofFileHeader * pre.length), ← Nat.add_assoc]
      exact ih _ _ _ (by omega) hword

/-- The bytes of files that were laid out, if no name runs out of its header. -/
theorem layOut_bytes (buf : Ram) (header data : Nat) (pre post : List Packed) (f : Packed)
    (htable : header + sizeofFileHeader * (pre ++ f :: post).length ≤ data)
    (hnames : ∀ g ∈ post, g.name.length < fileNameSize) (i : Nat) (c : BitVec 8)
    (hi : f.bytes[i]? = some c) :
    layOut buf header data (pre ++ f :: post) (data + dataSize pre + i) = c := by
  induction pre generalizing buf header data with
  | nil =>
      rw [List.nil_append, List.length_cons, Nat.mul_succ] at htable
      have hlt := (List.getElem?_eq_some_iff.mp hi).1
      have hpad : f.bytes.length ≤ up4 f.bytes.length := by
        unfold up4
        omega
      have hnil : dataSize [] = 0 := rfl
      -- Its bytes are between the table and the data of the next one.
      rw [List.nil_append, layOut, hnil, Nat.add_zero,
        layOut_between _ _ _ post _ hnames (by omega) (by omega)]
      unfold layFile
      exact putList_inside _ _ _ _ _ hi
  | cons g pre ih =>
      rw [List.cons_append, List.length_cons, Nat.mul_succ] at htable
      have hdata : dataSize (g :: pre) = up4 g.bytes.length + dataSize pre := span_cons _ _ _
      rw [List.cons_append, layOut, hdata, ← Nat.add_assoc data]
      exact ih _ _ _ (by omega)

/-- The files that are opened are entries of the directory. -/
theorem mem_opened (listing : List DirEntry) (f : Packed) :
    f ∈ opened listing ↔
      ∃ e ∈ entries listing, ∃ read, e.file = some read ∧ f = packedOf e.name read := by
  induction listing with
  | nil =>
      simp only [opened, entries, List.filter_nil, List.not_mem_nil, false_and, exists_false]
  | cons e rest ih =>
      rcases hdot : e.isDot with _ | _
      · -- Only what can be opened is in the list.
        rw [entries_file e rest hdot, List.exists_mem_cons_iff, ← ih]
        rcases hfile : e.file with _ | read
        · simp only [opened_none e rest hdot hfile, reduceCtorEq, false_and, exists_false, false_or]
        · simp only [opened_file e rest read hdot hfile, List.mem_cons, Option.some.injEq,
            exists_eq_left']
      · rw [entries_dot e rest hdot, opened_dot e rest hdot, ih]

theorem length_opened (listing : List DirEntry) :
    (opened listing).length ≤ (entries listing).length := by
  induction listing with
  | nil => exact Nat.le_refl _
  | cons e rest ih =>
      rcases hdot : e.isDot with _ | _
      · rw [entries_file e rest hdot, List.length_cons]
        -- An entry without a file is counted all the same.
        rcases hfile : e.file with _ | read
        · rw [opened_none e rest hdot hfile]
          omega
        · rw [opened_file e rest read hdot hfile, List.length_cons]
          omega
      · rw [entries_dot e rest hdot, opened_dot e rest hdot]
        exact ih

namespace Directory

variable (d : Directory)

/-- The table has room for the headers of all files. -/
theorem table_room : sizeofRamdiskHeader + sizeofFileHeader * d.opened.length ≤ d.tableEnd :=
  Nat.add_le_add_left (Nat.mul_le_mul_left _ (length_opened d.listing)) _

/-- The header of the image ends where the headers of the files begin. -/
theorem image_above (buf : Ram) (x : Nat) (h : sizeofRamdiskHeader ≤ x) :
    d.image buf x = layOut buf sizeofRamdiskHeader d.tableEnd d.opened x := by
  unfold sizeofRamdiskHeader at h
  unfold image
  rw [store32_apart _ _ _ _ (Or.inr (by omega)), store32_apart _ _ _ _ (Or.inr (by omega)),
    putList_outside _ _ _ _ (Or.inr (show 0 + (7 + 1) ≤ x by omega))]

theorem image_count (buf : Ram) : load32 (d.image buf) 20 = d.entries.length % u32Size := by
  unfold image
  rw [load32_store32_apart _ _ _ _ (Or.inl (Nat.le_refl _)),
    load32_store32 _ _ _ (Nat.mod_lt _ (by unfold u32Size; omega))]

/-- The headers of the files in an image, however long their names are. -/
theorem image_header (buf : Ram) (pre post : List Packed) (f : Packed)
    (hopened : d.opened = pre ++ f :: post) (hfits : d.imageEnd ≤ ramdiskMaxSize) :
    HeaderAt (d.image buf) (sizeofRamdiskHeader + sizeofFileHeader * pre.length) f
      (d.tableEnd + dataSize pre) := by
  -- The headers before it and the bytes before it are all in the image.
  have hroom := d.table_room
  have hend : d.tableEnd + dataSize pre ≤ d.imageEnd := by
    unfold imageEnd
    rw [hopened]
    unfold dataSize
    rw [span_append]
    omega
  rw [hopened] at hroom
  refine headerAt_congr _ _ _ _ f _ (layOut_header buf sizeofRamdiskHeader d.tableEnd pre post f
    hroom ?_) (fun i _ => ?_)
  · unfold ramdiskMaxSize at hfits
    unfold u32Size
    omega
  · -- The first header of the image is written last, but ends before the table.
    rw [d.image_above buf _ (by omega), hopened]

/-- The bytes of the files in an image. -/
theorem image_bytes (buf : Ram) (pre post : List Packed) (f : Packed)
    (hopened : d.opened = pre ++ f :: post)
    (hnames : ∀ g ∈ d.opened, g.name.length < fileNameSize) (i : Nat) (c : BitVec 8)
    (hi : f.bytes[i]? = some c) : d.image buf (d.tableEnd + dataSize pre + i) = c := by
  have hroom := d.table_room
  rw [d.image_above buf _ (by omega)]
  rw [hopened] at hroom hnames ⊢
  exact layOut_bytes buf sizeofRamdiskHeader d.tableEnd pre post f hroom
    (fun g hg => hnames g (List.mem_append_right pre (List.mem_cons_of_mem f hg))) i c hi

/-- The headers that no file has are as the buffer was. -/
theorem image_rest (buf : Ram) (hnames : ∀ g ∈ d.opened, g.name.length < fileNameSize) (x : Nat)
    (h : sizeofRamdiskHeader + sizeofFileHeader * d.opened.length ≤ x) (hx : x < d.tableEnd) :
    d.image buf x = buf x := by
  rw [d.image_above buf x (by omega)]
  exact layOut_between buf sizeofRamdiskHeader d.tableEnd d.opened x hnames h hx

end Directory

/-- A header a reader can trust: its name ends within the field, and its range lies
    in the image behind the table. -/
structure HeaderOk (ram : Ram) (addr tableEnd size : Nat) : Prop where
  name : ∃ j < fileNameSize, ram (addr + j) = 0#8
  after : tableEnd ≤ load32 ram (addr + 32)
  inside : load32 ram (addr + 32) + load32 ram (addr + 36) ≤ size

/-- The header of a file can be trusted if its name is short and its first read
    did not fail. -/
theorem headerOk_iff (ram : Ram) (addr tableEnd size : Nat) (f : Packed) (data : Nat)
    (h : HeaderAt ram addr f data) (hproper : 0#8 ∉ f.name) (hafter : tableEnd ≤ data)
    (hinside : data + f.bytes.length ≤ size) (hsize : size ≤ ramdiskMaxSize) :
    HeaderOk ram addr tableEnd size ↔
      f.name.length < fileNameSize ∧ ¬(f.failed = true ∧ f.bytes = []) := by
  constructor
  · rintro ⟨⟨j, hj, hzero⟩, -, hrange⟩
    refine ⟨?_, ?_⟩
    · -- A name that is too long has no zero in the field.
      by_contra hlong
      have hcell := h.name j f.name[j] hj (by
        rw [List.getElem?_append_left (by omega), List.getElem?_eq_getElem])
      rw [hzero] at hcell
      exact hproper (hcell ▸ List.getElem_mem _)
    · rintro ⟨hfailed, hnil⟩
      -- The size of such a file is minus one.
      rw [h.size, hfailed, hnil] at hrange
      have hword : sizeWord ([] : List (BitVec 8)).length true = u32Size - 1 := by decide
      rw [hword] at hrange
      unfold u32Size at hrange
      unfold ramdiskMaxSize at hsize
      omega
  · rintro ⟨hname, hread⟩
    -- Its name ends at its length, and the size is at most what was read.
    refine ⟨⟨f.name.length, hname, h.name _ _ hname (by simp)⟩, ?_, ?_⟩
    · rw [h.base]
      exact hafter
    · have hword : sizeWord f.bytes.length f.failed ≤ f.bytes.length := by
        unfold ramdiskMaxSize at hsize
        unfold sizeWord u32Size
        rcases hfailed : f.failed with _ | _
        · simp only [Bool.false_eq_true, if_false]
          omega
        · have hlen : f.bytes.length ≠ 0 := fun hz =>
            hread ⟨hfailed, List.length_eq_zero_iff.mp hz⟩
          simp only [if_true]
          omega
      rw [h.base, h.size]
      omega

/-- A file of which nothing was read because of an error. -/
theorem packedOf_first (name : List (BitVec 8)) (read : Nat → Option (List (BitVec 8))) :
    ((packedOf name read).failed = true ∧ (packedOf name read).bytes = []) ↔ read 0 = none := by
  have hfuel : copyFuel = (copyFuel - 1) + 1 := rfl
  unfold packedOf
  rw [hfuel]
  rcases hread : (read 0).map (List.take 512) with _ | bytes
  · -- The first read fails.
    have hnone := Option.map_eq_none_iff.mp hread
    rw [untilShort_none 512 read _ 0 hnone, hnone]
    exact iff_of_true ⟨rfl, rfl⟩ rfl
  · have hsome : read 0 ≠ none := fun h => by
      rw [h, Option.map_none] at hread
      exact absurd hread.symm (Option.some_ne_none bytes)
    refine iff_of_false ?_ hsome
    -- The first read does not fail, so it leaves bytes or is the last one.
    by_cases hlen : bytes.length = 512
    · rw [untilShort_full 512 read _ 0 bytes hread hlen]
      rintro ⟨-, hnil⟩
      rw [(List.append_eq_nil_iff.mp hnil).1] at hlen
      exact absurd hlen (by decide)
    · rw [untilShort_short 512 read _ 0 bytes hread hlen]
      exact fun h => Bool.false_ne_true h.1

/-- If no memory of somebody else was written, the paths were short. -/
theorem paths_of_overruns (path : List (BitVec 8)) (listing : List DirEntry) (header : Nat)
    (h : overruns path listing header = false) :
    ∀ e ∈ entries listing, path.length + 1 + e.name.length + 1 ≤ tempSize := by
  induction listing generalizing header with
  | nil => exact fun e he => absurd he List.not_mem_nil
  | cons e rest ih =>
      rcases hdot : e.isDot with _ | _
      · rw [entries_file e rest hdot]
        simp only [overruns, hdot, Bool.false_eq_true, if_false, Bool.or_eq_false_iff,
          decide_eq_false_iff_not, Nat.not_lt] at h
        -- The path of the first entry, and those of the others behind its header.
        refine List.forall_mem_cons.mpr ⟨h.1, ?_⟩
        rcases hfile : e.file with _ | read
        · -- No header is used for an entry that cannot be opened.
          rw [hfile] at h
          exact ih header h.2
        · rw [hfile] at h
          simp only [Bool.or_eq_false_iff] at h
          exact ih _ h.2.2
      · rw [entries_dot e rest hdot]
        rw [overruns, if_pos hdot] at h
        exact ih header h

/-- With short paths and names, no memory of somebody else is written. -/
theorem overruns_of_paths (path : List (BitVec 8)) (listing : List DirEntry) (header : Nat)
    (hpaths : ∀ e ∈ entries listing, path.length + 1 + e.name.length + 1 ≤ tempSize)
    (hnames : ∀ e ∈ entries listing, e.file ≠ none → e.name.length < fileNameSize)
    (hroom : header + sizeofFileHeader * (entries listing).length ≤ ramdiskMaxSize) :
    overruns path listing header = false := by
  induction listing generalizing header with
  | nil => rfl
  | cons e rest ih =>
      rcases hdot : e.isDot with _ | _
      · rw [entries_file e rest hdot] at hpaths hnames hroom
        rw [List.length_cons, Nat.mul_succ] at hroom
        -- The first path is short, and so are the others.
        have hpath : decide (tempSize < path.length + 1 + e.name.length + 1) = false :=
          decide_eq_false (Nat.not_lt.mpr (hpaths e List.mem_cons_self))
        have ih := fun header => ih header (fun x hx => hpaths x (List.mem_cons_of_mem e hx))
          (fun x hx => hnames x (List.mem_cons_of_mem e hx))
        simp only [overruns, hdot, Bool.false_eq_true, if_false, hpath, Bool.false_or]
        rcases hfile : e.file with _ | read
        · exact ih header (by omega)
        · -- A short name with its terminator ends before the header does.
          have hname := hnames e List.mem_cons_self (by rw [hfile]; exact Option.some_ne_none read)
          unfold fileNameSize at hname
          have hover : decide (ramdiskMaxSize < header + (e.name.length + 1)) = false := by
            unfold sizeofFileHeader at hroom
            exact decide_eq_false (by omega)
          simp only [hover, Bool.false_or]
          exact ih _ (by omega)
      · rw [entries_dot e rest hdot] at hpaths hnames hroom
        rw [overruns, if_pos hdot]
        exact ih header hpaths hnames hroom

/-- What a reader relies on in an image that was written. -/
structure WellFormed (r : GenOut) : Prop where
  size : r.size ≤ ramdiskMaxSize
  overrun : r.overrun = false
  headers : ∀ i < load32 r.buf 20,
    HeaderOk r.buf (sizeofRamdiskHeader + sizeofFileHeader * i)
      (sizeofRamdiskHeader + sizeofFileHeader * load32 r.buf 20) r.size

/-- The image fits, all paths and names are short, no first read fails, and for the
    entries that cannot be opened the buffer happens to have headers already. -/
structure Clean (buf : Ram) (path : List (BitVec 8)) (d : Directory) : Prop where
  fits : d.imageEnd ≤ ramdiskMaxSize
  paths : ∀ e ∈ d.entries, path.length + 1 + e.name.length + 1 ≤ tempSize
  names : ∀ e ∈ d.entries, e.file ≠ none → e.name.length < fileNameSize
  reads : ∀ e ∈ d.entries, ∀ read, e.file = some read → read 0 ≠ none
  rest : ∀ i, d.opened.length ≤ i → i < d.entries.length →
    HeaderOk buf (sizeofRamdiskHeader + sizeofFileHeader * i) d.tableEnd d.imageEnd

namespace Directory

variable (d : Directory)

/-- The number of files fits in its word. -/
theorem count_small (hfits : d.imageEnd ≤ ramdiskMaxSize) : d.entries.length < u32Size := by
  unfold imageEnd tableEnd sizeofRamdiskHeader sizeofFileHeader ramdiskMaxSize at hfits
  unfold u32Size
  omega

theorem names_opened
    (hnames : ∀ e ∈ d.entries, e.file ≠ none → e.name.length < fileNameSize) :
    ∀ f ∈ d.opened, f.name.length < fileNameSize := by
  intro f hf
  rcases (mem_opened d.listing f).mp hf with ⟨e, he, read, hfile, rfl⟩
  exact hnames e he (by rw [hfile]; exact Option.some_ne_none read)

theorem proper_opened (f : Packed) (hf : f ∈ d.opened) : 0#8 ∉ f.name := by
  rcases (mem_opened d.listing f).mp hf with ⟨e, he, read, -, rfl⟩
  exact (d.proper e (List.mem_of_mem_filter he)).2

/-- The bytes of a file are inside the image. -/
theorem range_inside (pre post : List Packed) (f : Packed) (hopened : d.opened = pre ++ f :: post) :
    d.tableEnd + dataSize pre + f.bytes.length ≤ d.imageEnd := by
  have hpad : f.bytes.length ≤ up4 f.bytes.length := by
    unfold up4
    omega
  unfold imageEnd
  rw [hopened]
  unfold dataSize
  rw [span_append, span_cons]
  omega

/-- A file with its header can be trusted if its name is short and its first read
    did not fail. -/
theorem headerOk_opened (buf : Ram) (pre post : List Packed) (f : Packed)
    (hopened : d.opened = pre ++ f :: post) (hfits : d.imageEnd ≤ ramdiskMaxSize) :
    HeaderOk (d.image buf) (sizeofRamdiskHeader + sizeofFileHeader * pre.length) d.tableEnd
        d.imageEnd ↔
      f.name.length < fileNameSize ∧ ¬(f.failed = true ∧ f.bytes = []) := by
  refine headerOk_iff _ _ _ _ f _ (d.image_header buf pre post f hopened hfits)
    (d.proper_opened f ?_) (Nat.le_add_right _ _) (d.range_inside pre post f hopened) hfits
  rw [hopened]
  exact List.mem_append_right pre List.mem_cons_self

end Directory

theorem headerOk_congr (ram ram' : Ram) (addr tableEnd size : Nat)
    (h : HeaderOk ram addr tableEnd size)
    (hsame : ∀ i < sizeofFileHeader, ram' (addr + i) = ram (addr + i)) :
    HeaderOk ram' addr tableEnd size := by
  have hbase := headerWord_shift ram ram' addr addr 32 (by decide) hsame
  have hsize := headerWord_shift ram ram' addr addr 36 (by decide) hsame
  rcases h with ⟨⟨j, hj, hzero⟩, hafter, hinside⟩
  refine ⟨⟨j, hj, ?_⟩, ?_, ?_⟩
  · rw [hsame j (Nat.lt_trans hj (by decide))]
    exact hzero
  · rw [hbase]
    exact hafter
  · rw [hbase, hsize]
    exact hinside

/-- The header of an entry that cannot be opened is as the buffer was. -/
theorem headerOk_rest (buf : Ram) (d : Directory)
    (hnames : ∀ g ∈ d.opened, g.name.length < fileNameSize) (i : Nat) (hi : d.opened.length ≤ i)
    (hlt : i < d.entries.length) (size : Nat) :
    HeaderOk (d.image buf) (sizeofRamdiskHeader + sizeofFileHeader * i) d.tableEnd size ↔
      HeaderOk buf (sizeofRamdiskHeader + sizeofFileHeader * i) d.tableEnd size := by
  have hsame : ∀ j < sizeofFileHeader,
      d.image buf (sizeofRamdiskHeader + sizeofFileHeader * i + j)
        = buf (sizeofRamdiskHeader + sizeofFileHeader * i + j) := by
    intro j hj
    -- The header is behind those of the files and before the end of the table.
    have hlow : sizeofFileHeader * d.opened.length ≤ sizeofFileHeader * i :=
      Nat.mul_le_mul_left _ hi
    have hhigh : sizeofFileHeader * (i + 1) ≤ sizeofFileHeader * d.entries.length :=
      Nat.mul_le_mul_left _ hlt
    rw [Nat.mul_succ] at hhigh
    exact d.image_rest buf hnames _ (by omega) (by unfold Directory.tableEnd; omega)
  exact ⟨fun h => headerOk_congr _ _ _ _ _ h (fun j hj => (hsame j hj).symm),
    fun h => headerOk_congr _ _ _ _ _ h hsame⟩

/-- An image that fits is well formed if and only if the directory is clean. -/
theorem wellFormed_image (buf : Ram) (path : List (BitVec 8)) (d : Directory)
    (hfits : d.imageEnd ≤ ramdiskMaxSize) :
    WellFormed ⟨0, d.image buf, d.imageEnd, overruns path d.listing sizeofRamdiskHeader⟩
      ↔ Clean buf path d := by
  have hcount : load32 (d.image buf) 20 = d.entries.length := by
    rw [d.image_count, Nat.mod_eq_of_lt (d.count_small hfits)]
  have hopen := length_opened d.listing
  constructor
  · rintro ⟨-, hover, hheaders⟩
    simp only [hcount] at hheaders
    -- Every file that is opened has a header among those that were counted.
    have hfile : ∀ f ∈ d.opened,
        f.name.length < fileNameSize ∧ ¬(f.failed = true ∧ f.bytes = []) := by
      intro f hf
      rcases List.append_of_mem hf with ⟨pre, post, hsplit⟩
      have hlt : pre.length < d.opened.length := by
        rw [hsplit, List.length_append, List.length_cons]
        omega
      exact (d.headerOk_opened buf pre post f hsplit hfits).mp
        (hheaders pre.length (Nat.lt_of_lt_of_le hlt hopen))
    have hmem : ∀ e ∈ d.entries, ∀ read, e.file = some read → packedOf e.name read ∈ d.opened :=
      fun e he read hread => (mem_opened d.listing _).mpr ⟨e, he, read, hread, rfl⟩
    refine ⟨hfits, paths_of_overruns path d.listing _ hover, fun e he hne => ?_,
      fun e he read hread => ?_, fun i hi hlt => ?_⟩
    -- What a good header says about a file is what there is to say about its entry.
    · rcases Option.ne_none_iff_exists'.mp hne with ⟨read, hread⟩
      exact (hfile _ (hmem e he read hread)).1
    · exact fun hnone => (hfile _ (hmem e he read hread)).2 ((packedOf_first _ read).mpr hnone)
    · exact (headerOk_rest buf d (fun f hf => (hfile f hf).1) i hi hlt _).mp (hheaders i hlt)
  · intro hclean
    have hnames := d.names_opened hclean.names
    refine ⟨hfits, overruns_of_paths path d.listing _ hclean.paths hclean.names
      (Nat.le_trans (Nat.le_add_right d.tableEnd _) hfits), ?_⟩
    simp only [hcount]
    intro i hi
    by_cases hlt : i < d.opened.length
    · -- The header of the `i`-th file.
      have hsplit : d.opened = d.opened.take i ++ d.opened[i] :: d.opened.drop (i + 1) := by
        rw [← List.drop_eq_getElem_cons hlt, List.take_append_drop]
      have hlen : (d.opened.take i).length = i := by
        rw [List.length_take]
        omega
      have hheader := d.headerOk_opened buf _ _ _ hsplit hfits
      rw [hlen] at hheader
      refine hheader.mpr ⟨hnames _ (List.getElem_mem hlt), ?_⟩
      rcases (mem_opened d.listing _).mp (List.getElem_mem hlt) with ⟨e, he, read, hread, heq⟩
      rw [heq]
      exact fun h => hclean.reads e he read hread ((packedOf_first _ read).mp h)
    · -- A header without a file.
      exact (headerOk_rest buf d hnames i (by omega) hi _).mpr (hclean.rest i (by omega) hi)

/-- The tool writes a well formed image if and only if the files are too large for
    one, so that it fails, or the directory is clean. -/
theorem gen_wellFormed (buf : Ram) (path : List (BitVec 8)) (d : Directory) :
    (∃ r, genRamdisk buf path (some d.listing) = some r ∧ (r.error = 0 → WellFormed r))
      ↔ (d.opened ≠ [] ∧ ramdiskMaxSize < d.imageEnd) ∨ Clean buf path d := by
  have hgen := genRamdisk_spec buf path d
  by_cases hfits : d.opened = [] ∨ d.imageEnd ≤ ramdiskMaxSize
  · rw [if_pos hfits] at hgen
    rw [hgen]
    -- The tool has returned zero, so the files were not too large.
    have hsmall : ¬(d.opened ≠ [] ∧ ramdiskMaxSize < d.imageEnd) := by
      rintro ⟨hne, hlarge⟩
      have hle := hfits.resolve_left hne
      omega
    rw [or_iff_right hsmall]
    constructor
    · rintro ⟨r, hr, hwf⟩
      rw [Option.some.injEq] at hr
      subst hr
      have hwf := hwf rfl
      exact (wellFormed_image buf path d hwf.size).mp hwf
    · exact fun hclean => ⟨_, rfl, fun _ => (wellFormed_image buf path d hclean.fits).mpr hclean⟩
  · rw [if_neg hfits] at hgen
    rcases hgen with ⟨r, hgen, herror⟩
    refine iff_of_true ⟨r, hgen, fun h => ?_⟩ (Or.inl ?_)
    · rw [herror] at h
      exact absurd h (by decide)
    · rw [not_or, Nat.not_le] at hfits
      exact hfits

/-- A directory with one sub-directory in it: it can be opened, but not read. -/
def subdirectory : Directory where
  listing := [⟨[0x2e#8], none⟩, ⟨[0x2e#8, 0x2e#8], none⟩, ⟨[0x73#8], some (fun _ => none)⟩]
  dots := rfl
  proper := by decide

/-- The size of a sub-directory in an image is minus one. -/
theorem gen_wellFormed_fails :
    ¬ ∀ (buf : Ram) (path : List (BitVec 8)) (d : Directory) (r : GenOut),
      genRamdisk buf path (some d.listing) = some r → r.error = 0 → WellFormed r := by
  intro h
  have hgen := genRamdisk_spec (fun _ => 0#8) [0x64#8] subdirectory
  rw [if_pos (Or.inr (by decide))] at hgen
  have hwf := h _ _ _ _ hgen rfl
  have hcount : 0 < load32 (subdirectory.image (fun _ => 0#8)) 20 := by
    rw [subdirectory.image_count]
    decide
  have hinside : load32 (subdirectory.image (fun _ => 0#8)) 64
      + load32 (subdirectory.image (fun _ => 0#8)) 68 ≤ subdirectory.imageEnd :=
    (hwf.headers 0 hcount).inside
  have hheader : HeaderAt (subdirectory.image (fun _ => 0#8)) 32 ⟨[0x73#8], [], true⟩ 72 :=
    subdirectory.image_header (fun _ => 0#8) [] [] _ rfl (by decide)
  -- The header of the sub-directory claims minus one bytes, so its range ends outside.
  rw [hheader.base, hheader.size] at hinside
  exact absurd hinside (by decide)

end Ramdisk

end Mirros
