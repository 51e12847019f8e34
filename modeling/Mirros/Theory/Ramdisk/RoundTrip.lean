import Mirros.Theory.Ramdisk.Image
import Mirros.Theory.Ramdisk.Reader
import Mirros.Theory.Task.Fork

/-!
# From the Directory to the Kernel

What the tool puts into an image the kernel reads out of it again.

The two programs share nothing but the layout of the headers. The kernel finds the
names where the tool put them, so it opens the file with the name that is asked for
and no other; the range it then reads is the one in which the tool left the bytes
of that file.

## Main definitions

* `regular`, `Regular`: Directories of regular files.
* `Loaded`: The kernel has an image in its memory.

## Theorems

* `ramdisk_roundTrip`: Every file is read as it was.
-/

namespace Mirros

namespace Ramdisk

/-- What the calls of `read` on a regular file return. -/
def regular (content : List (BitVec 8)) : Nat → Option (List (BitVec 8)) :=
  fun n => some ((content.drop (512 * n)).take 512)

/-- A directory of regular files with names that are short and distinct. -/
structure Regular (d : Directory) : Prop where
  files : ∀ e ∈ d.entries, ∃ content, e.file = some (regular content)
  names : ∀ e ∈ d.entries, e.name.length < fileNameSize
  distinct : (d.entries.map DirEntry.name).Nodup

/-- The kernel has an image at an address that is not null, and neither the image
    nor a read that starts in it wraps around. -/
structure Loaded (k : Kernel) (ramdiskStart : Nat) (r : GenOut) : Prop where
  start : ramdiskStart ≠ 0
  wrap : ramdiskStart + r.size + ramdiskMaxSize < u32Size
  image : ∀ x < r.size, k.ram (ramdiskStart + x) = r.buf x

/-- A regular file is read to its end if it fits. -/
theorem packedOf_regular (name content : List (BitVec 8))
    (hfits : (packedOf name (regular content)).bytes.length ≤ ramdiskMaxSize) :
    packedOf name (regular content) = ⟨name, content, false⟩ := by
  have hread := untilShort_blocks 512 content copyFuel 0
  rw [Nat.mul_zero, List.drop_zero] at hread
  have hpacked : packedOf name (regular content)
      = ⟨name, content.take (512 * copyFuel), false⟩ := by
    unfold packedOf regular
    rw [hread]
  rw [hpacked, List.length_take] at hfits
  -- A file with more bytes than there are turns for does not fit.
  have hall : content.length ≤ 512 * copyFuel := by
    unfold copyFuel ramdiskMaxSize at *
    omega
  rw [hpacked, List.take_of_length_le hall]

/-- If all entries can be opened, the files of an image are the entries. -/
theorem opened_names (listing : List DirEntry) (h : ∀ e ∈ entries listing, e.file ≠ none) :
    (opened listing).map Packed.name = (entries listing).map DirEntry.name := by
  induction listing with
  | nil => rfl
  | cons e rest ih =>
      rcases hdot : e.isDot with _ | _
      · rw [entries_file e rest hdot] at h ⊢
        -- The entry can be opened, so a file of its name is next.
        rcases Option.ne_none_iff_exists'.mp (h e List.mem_cons_self) with ⟨read, hread⟩
        rw [opened_file e rest read hdot hread, List.map_cons, List.map_cons,
          ih (fun x hx => h x (List.mem_cons_of_mem e hx))]
        rfl
      · rw [entries_dot e rest hdot] at h ⊢
        rw [opened_dot e rest hdot]
        exact ih h

/-- The name in a header is a string if it is short. -/
theorem headerAt_string (ram : Ram) (addr : Nat) (f : Packed) (data : Nat)
    (h : HeaderAt ram addr f data) (hproper : 0#8 ∉ f.name)
    (hname : f.name.length < fileNameSize) : StringAt 0#8 (fun i => ram (addr + i)) f.name := by
  refine stringAt_closed _ _ _ hproper (fun i c hi => h.name i c ?_ hi)
  have hlt := (List.getElem?_eq_some_iff.mp hi).1
  rw [List.length_append, List.length_singleton] at hlt
  omega

namespace Directory

variable (d : Directory)

/-- The image begins with its own name. -/
theorem image_magic (buf : Ram) (i : Nat) (c : BitVec 8)
    (h : (ramdiskName ++ [0#8])[i]? = some c) : d.image buf i = c := by
  have hlt : i < 8 := (List.getElem?_eq_some_iff.mp h).1
  unfold image
  rw [store32_apart _ _ _ _ (Or.inl (by omega)), store32_apart _ _ _ _ (Or.inl (by omega))]
  have hcell := putList_inside (layOut buf sizeofRamdiskHeader d.tableEnd d.opened) 0 _ i c h
  rw [Nat.zero_add] at hcell
  exact hcell

end Directory

section

variable (buf : Ram) (d : Directory) (k : Kernel) (ramdiskStart : Nat)
  (himage : ∀ x < d.imageEnd, k.ram (ramdiskStart + x) = d.image buf x)

include himage

/-- The kernel accepts the image. -/
theorem loaded_mount (hstart : ramdiskStart ≠ 0) : mountRamdisk k.ram ramdiskStart
    = some ⟨ramdiskStart, ramdiskStart + sizeofRamdiskHeader⟩ := by
  have hroom : 32 ≤ d.imageEnd :=
    Nat.le_trans (Nat.le_add_right 32 _) (Nat.le_add_right d.tableEnd _)
  have hproper : 0#8 ∉ ramdiskName := by decide
  have hmagic : StringAt 0#8 (fun i => k.ram (ramdiskStart + i)) ramdiskName := by
    refine stringAt_closed _ _ _ hproper (fun i c hi => ?_)
    have hlt : i < 8 := (List.getElem?_eq_some_iff.mp hi).1
    rw [himage i (by omega)]
    exact d.image_magic buf i c hi
  -- The string constant in the kernel.
  have hstring : StringAt 0#8 (fun i => ramdiskName.getD i 0#8) ramdiskName := by
    refine ⟨fun i c hi => ?_, rfl, hproper⟩
    rw [List.getD_eq_getElem?_getD, hi, Option.getD_some]
  rcases strcmp_zero _ _ _ _ hmagic hstring (by decide) with ⟨ret, hcmp, hret⟩
  have hret := hret.mpr rfl
  rw [mountRamdisk, if_neg hstart, hcmp, hret]
  rfl

/-- The bytes of a file in the memory of the kernel. -/
theorem loaded_bytes (hnames : ∀ f ∈ d.opened, f.name.length < fileNameSize)
    (pre post : List Packed) (f : Packed) (hopened : d.opened = pre ++ f :: post) :
    getList k.ram (ramdiskStart + (d.tableEnd + dataSize pre)) f.bytes.length = f.bytes := by
  have hinside := d.range_inside pre post f hopened
  refine (getList_eq_iff _ _ _).mpr (fun i c hi => ?_)
  have hlt := (List.getElem?_eq_some_iff.mp hi).1
  rw [Nat.add_assoc, himage _ (by omega)]
  exact d.image_bytes buf pre post f hopened hnames i c hi

variable (hfits : d.imageEnd ≤ ramdiskMaxSize)

include hfits

/-- The kernel finds how many files there are. -/
theorem loaded_count :
    (toS32 (load32 k.ram (ramdiskStart + 20))).toNat = d.entries.length := by
  have hroom : sizeofRamdiskHeader + sizeofFileHeader * d.entries.length ≤ d.imageEnd :=
    Nat.le_add_right d.tableEnd _
  unfold sizeofRamdiskHeader sizeofFileHeader at hroom
  have hword : load32 k.ram (ramdiskStart + 20) = load32 (d.image buf) 20 := by
    refine load32_shift _ _ _ _ (fun i hi => ?_)
    rw [Nat.add_assoc]
    exact himage (20 + i) (by omega)
  rw [hword, d.image_count, Nat.mod_eq_of_lt (d.count_small hfits), toS32, if_pos]
  · exact Int.toNat_natCast _
  · unfold ramdiskMaxSize at hfits
    omega

/-- The headers in the memory of the kernel. -/
theorem loaded_header (pre post : List Packed) (f : Packed)
    (hopened : d.opened = pre ++ f :: post) :
    HeaderAt k.ram (ramdiskStart + sizeofRamdiskHeader + sizeofFileHeader * pre.length) f
      (d.tableEnd + dataSize pre) := by
  have hroom := d.table_room
  have hend : d.tableEnd ≤ d.imageEnd := Nat.le_add_right _ _
  rw [hopened, List.length_append, List.length_cons, Nat.mul_add, Nat.mul_succ] at hroom
  refine headerAt_congr _ _ _ _ f _ (d.image_header buf pre post f hopened hfits) (fun i hi => ?_)
  rw [← himage _ (by omega)]
  exact congrArg k.ram (by omega)

/-- The names in the memory of the kernel, if they are short. -/
theorem loaded_name (hnames : ∀ f ∈ d.opened, f.name.length < fileNameSize)
    (l r : List (List (BitVec 8))) (xs : List (BitVec 8))
    (hsplit : d.opened.map Packed.name = l ++ xs :: r) :
    StringAt 0#8 (fun i =>
      k.ram (ramdiskStart + sizeofRamdiskHeader + sizeofFileHeader * l.length + i)) xs := by
  -- The name is that of a file, with its header after those of the files before it.
  rcases List.map_eq_append_iff.mp hsplit with ⟨pre, rest, hopened, rfl, hrest⟩
  rcases List.map_eq_cons_iff.mp hrest with ⟨f, post, rfl, rfl, -⟩
  have hmem : f ∈ d.opened := by
    rw [hopened]
    exact List.mem_append_right pre List.mem_cons_self
  rw [List.length_map]
  exact headerAt_string k.ram _ f _
    (loaded_header buf d k ramdiskStart himage hfits pre post f hopened)
    (d.proper_opened f hmem) (hnames f hmem)

variable (hstart : ramdiskStart ≠ 0) (hcount : d.opened.length = d.entries.length)
  (hnames : ∀ f ∈ d.opened, f.name.length < fileNameSize) (name : Nat → BitVec 8)

include hstart hcount

/-- The kernel looks at the headers of all files. -/
theorem loaded_look :
    ramdiskOpen k ramdiskStart ⟨ramdiskStart, ramdiskStart + sizeofRamdiskHeader⟩ name
      = openLoop k ramdiskStart name d.opened.length (ramdiskStart + sizeofRamdiskHeader) := by
  rw [ramdiskOpen, if_neg hstart, loaded_count buf d k ramdiskStart himage hfits, hcount]

include hnames

/-- The headers of the first files are passed if the name is not among theirs. -/
theorem loaded_pass (np : List (BitVec 8)) (hname : StringAt 0#8 name np) (pre post : List Packed)
    (hopened : d.opened = pre ++ post) (hother : np ∉ pre.map Packed.name) :
    ramdiskOpen k ramdiskStart ⟨ramdiskStart, ramdiskStart + sizeofRamdiskHeader⟩ name
      = openLoop k ramdiskStart name post.length
          (ramdiskStart + sizeofRamdiskHeader + sizeofFileHeader * pre.length) := by
  -- The names before are all short, and each header has its own.
  have hheaders : ∀ l xs r, pre.map Packed.name = l ++ xs :: r →
      StringAt 0#8 (fun i =>
        k.ram (ramdiskStart + sizeofRamdiskHeader + sizeofFileHeader * l.length + i)) xs := by
    intro l xs r hsplit
    refine loaded_name buf d k ramdiskStart himage hfits hnames l (r ++ post.map Packed.name) xs ?_
    rw [hopened, List.map_append, hsplit, List.append_assoc, List.cons_append]
  have hshort : ∀ xs ∈ pre.map Packed.name, xs.length < strFuel := by
    intro xs hxs
    rcases List.mem_map.mp hxs with ⟨f, hf, rfl⟩
    have hlt := hnames f (by rw [hopened]; exact List.mem_append_left post hf)
    exact Nat.lt_trans hlt (by decide)
  have hpass := openLoop_pass k ramdiskStart name np hname (pre.map Packed.name) post.length _
    hheaders hshort hother
  rw [List.length_map] at hpass
  rw [loaded_look buf d k ramdiskStart himage hfits hstart hcount name, hopened,
    List.length_append, hpass]

/-- The first file with the name is opened. -/
theorem loaded_open (pre post : List Packed) (f : Packed) (hname : StringAt 0#8 name f.name)
    (hopened : d.opened = pre ++ f :: post) (hother : f.name ∉ pre.map Packed.name) (addr : Nat)
    (slab : Slab) (hkmalloc : k.slab.kmalloc sizeofFile gfpKernel = some (addr, slab))
    (haddr : addr ≠ 0) :
    ramdiskOpen k ramdiskStart ⟨ramdiskStart, ramdiskStart + sizeofRamdiskHeader⟩ name =
      some (some ⟨add32 ramdiskStart (d.tableEnd + dataSize pre),
        sizeWord f.bytes.length f.failed,
        add32 ramdiskStart (d.tableEnd + dataSize pre)⟩, { k with slab := slab }) := by
  -- The header gives the base and the size of the file.
  have hheader := loaded_header buf d k ramdiskStart himage hfits pre post f hopened
  have hmem : f ∈ d.opened := by
    rw [hopened]
    exact List.mem_append_right pre List.mem_cons_self
  rw [loaded_pass buf d k ramdiskStart himage hfits hstart hcount hnames name f.name hname pre
      (f :: post) hopened hother, List.length_cons,
    openLoop_hit k ramdiskStart name f.name hname post.length _
      (headerAt_string k.ram _ f _ hheader (d.proper_opened f hmem) (hnames f hmem))
      (Nat.lt_trans (hnames f hmem) (by decide)) addr slab hkmalloc haddr,
    hheader.base, hheader.size]

end

/-- In a directory of regular files all entries can be opened. -/
theorem regular_opens (d : Directory) (hreg : Regular d) : ∀ e ∈ d.entries, e.file ≠ none := by
  intro e he
  rcases hreg.files e he with ⟨content, hfile⟩
  rw [hfile]
  exact Option.some_ne_none _

theorem regular_names (d : Directory) (hreg : Regular d) :
    d.opened.map Packed.name = d.entries.map DirEntry.name :=
  opened_names d.listing (regular_opens d hreg)

theorem regular_count (d : Directory) (hreg : Regular d) :
    d.opened.length = d.entries.length := by
  have hlen := congrArg List.length (regular_names d hreg)
  rw [List.length_map, List.length_map] at hlen
  exact hlen

/-- A directory of regular files gives an image that fits. -/
theorem regular_fits (buf : Ram) (path : List (BitVec 8)) (d : Directory) (hreg : Regular d)
    (r : GenOut) (hgen : genRamdisk buf path (some d.listing) = some r) (herror : r.error = 0) :
    d.imageEnd ≤ ramdiskMaxSize ∧ r.buf = d.image buf ∧ r.size = d.imageEnd := by
  have hspec := genRamdisk_spec buf path d
  by_cases hfits : d.opened = [] ∨ d.imageEnd ≤ ramdiskMaxSize
  · rw [if_pos hfits, hgen, Option.some.injEq] at hspec
    subst hspec
    refine ⟨hfits.elim (fun hnil => ?_) id, rfl, rfl⟩
    -- Without a file that is opened there is none at all.
    unfold Directory.imageEnd Directory.tableEnd
    rw [← regular_count d hreg, hnil]
    decide
  · rw [if_neg hfits, hgen] at hspec
    rcases hspec with ⟨r', hr, herr⟩
    rw [Option.some.injEq] at hr
    rw [← hr, herror] at herr
    exact absurd herr (by decide)

/-- Where a regular file is in an image: after files with other names. -/
theorem regular_split (d : Directory) (hreg : Regular d) (hfits : d.imageEnd ≤ ramdiskMaxSize)
    (e : DirEntry) (he : e ∈ d.entries) (content : List (BitVec 8))
    (hfile : e.file = some (regular content)) :
    ∃ pre post, d.opened = pre ++ ⟨e.name, content, false⟩ :: post
      ∧ e.name ∉ pre.map Packed.name := by
  have hmem : packedOf e.name (regular content) ∈ d.opened :=
    (mem_opened d.listing _).mpr ⟨e, he, _, hfile, rfl⟩
  rcases List.append_of_mem hmem with ⟨pre, post, hopened⟩
  have hinside := d.range_inside pre post _ hopened
  rw [packedOf_regular e.name content (by omega)] at hopened
  refine ⟨pre, post, hopened, fun hin => ?_⟩
  have hdistinct := hreg.distinct
  -- A file before it with its name would be a second entry with that name.
  rw [← regular_names d hreg, hopened, List.map_append, List.map_cons] at hdistinct
  exact (List.nodup_append.mp hdistinct).2.2 e.name hin e.name List.mem_cons_self rfl

/-- Whatever regular files a directory has, the kernel opens each of them in the
    image by its name, no other name, and reading it in any pieces gives what was
    in the directory. -/
theorem ramdisk_roundTrip (buf : Ram) (path : List (BitVec 8)) (d : Directory) (hreg : Regular d)
    (r : GenOut) (hgen : genRamdisk buf path (some d.listing) = some r) (herror : r.error = 0)
    (k : Kernel) (ramdiskStart : Nat) (hloaded : Loaded k ramdiskStart r) (addr : Nat)
    (slab : Slab) (hkmalloc : k.slab.kmalloc sizeofFile gfpKernel = some (addr, slab))
    (haddr : addr ≠ 0) :
    ∃ m, mountRamdisk k.ram ramdiskStart = some m ∧ m.ramdiskHeader = ramdiskStart ∧
      (∀ e ∈ d.entries, ∀ content, e.file = some (regular content) →
        ∀ name, StringAt 0#8 name e.name →
          ∃ file k', ramdiskOpen k ramdiskStart m name = some (some file, k') ∧
            ∀ dst size, (∀ n, 1 ≤ size n ∧ size n ≤ ramdiskMaxSize) →
              (∀ n, dst n + size n ≤ ramdiskStart ∨ ramdiskStart + r.size ≤ dst n) →
              ∀ fuel, content.length < fuel →
                readAll dst size fuel 0 k'.ram file = some content) ∧
      ∀ np name, StringAt 0#8 name np → np ∉ d.entries.map DirEntry.name →
        ramdiskOpen k ramdiskStart m name = some (none, k) := by
  rcases regular_fits buf path d hreg r hgen herror with ⟨hfits, hbuf, hsize⟩
  have himage : ∀ x < d.imageEnd, k.ram (ramdiskStart + x) = d.image buf x := by
    intro x hx
    rw [hloaded.image x (by rw [hsize]; exact hx), hbuf]
  have hwrap := hloaded.wrap
  rw [hsize] at hwrap
  have hnames := d.names_opened (fun e he _ => hreg.names e he)
  have hcount := regular_count d hreg
  refine ⟨_, loaded_mount buf d k ramdiskStart himage hloaded.start, rfl, ?_, ?_⟩
  · intro e he content hfile name hname
    rcases regular_split d hreg hfits e he content hfile with ⟨pre, post, hopened, hother⟩
    have hinside : d.tableEnd + dataSize pre + content.length ≤ d.imageEnd :=
      d.range_inside pre post _ hopened
    have hopen := loaded_open buf d k ramdiskStart himage hfits hloaded.start hcount hnames name
      pre post ⟨e.name, content, false⟩ hname hopened hother addr slab hkmalloc haddr
    -- No word of the file wraps around.
    have hbase : add32 ramdiskStart (d.tableEnd + dataSize pre)
        = ramdiskStart + (d.tableEnd + dataSize pre) := Nat.mod_eq_of_lt (by omega)
    have hword : sizeWord content.length false = content.length := by
      rw [sizeWord_ok, Nat.mod_eq_of_lt (by omega)]
    rw [hbase, hword] at hopen
    refine ⟨_, _, hopen, fun dst size hpieces hapart fuel hfuel => ?_⟩
    rw [hsize] at hapart
    refine readAll_content dst size content _ k.ram (by omega) (fun n => (hpieces n).1)
      (fun n => ?_) (fun n => ?_) fuel hfuel
      (loaded_bytes buf d k ramdiskStart himage hnames pre post _ hopened)
    · have hn := (hpieces n).2
      omega
    · have hn := hapart n
      omega
  · -- All headers are passed, and none is left.
    intro np name hname hother
    have hpass := loaded_pass buf d k ramdiskStart himage hfits hloaded.start hcount hnames name np
      hname d.opened [] (by rw [List.append_nil]) (by rw [regular_names d hreg]; exact hother)
    rw [hpass]
    rfl

/-- A directory with one file of three bytes. -/
def oneFile : Directory where
  listing :=
    [⟨[0x2e#8], none⟩, ⟨[0x61#8], some (regular [1#8, 2#8, 3#8])⟩, ⟨[0x2e#8, 0x2e#8], none⟩]
  dots := rfl
  proper := by decide

/-- The board with its image at an address. -/
def oneFileKernel (ramdiskStart : Nat) : Kernel :=
  userKernel (fun x => oneFile.image (fun _ => 0xff#8) (x - ramdiskStart))

theorem oneFileKernel_loaded (ramdiskStart : Nat) (hstart : ramdiskStart ≠ 0)
    (hwrap : ramdiskStart + oneFile.imageEnd + ramdiskMaxSize < u32Size) (overrun : Bool) :
    Loaded (oneFileKernel ramdiskStart) ramdiskStart
      ⟨0, oneFile.image (fun _ => 0xff#8), oneFile.imageEnd, overrun⟩ where
  start := hstart
  wrap := hwrap
  image := fun x _ =>
    congrArg (oneFile.image (fun _ => 0xff#8)) (Nat.add_sub_cancel_left ramdiskStart x)

/-- The file of the directory is read in two pieces. -/
theorem ramdisk_roundTrip_one :
    ∃ m file k', mountRamdisk (oneFileKernel 0x80400000).ram 0x80400000 = some m ∧
      ramdiskOpen (oneFileKernel 0x80400000) 0x80400000 m (fun i => [0x61#8].getD i 0#8)
        = some (some file, k') ∧
      readAll (fun _ => 0x90000000) (fun _ => 2) 4 0 k'.ram file = some [1#8, 2#8, 3#8] := by
  have hentries : oneFile.entries = [⟨[0x61#8], some (regular [1#8, 2#8, 3#8])⟩] := rfl
  have hreg : Regular oneFile := by
    refine ⟨?_, ?_, ?_⟩
    · rw [hentries]
      exact List.forall_mem_singleton.mpr ⟨_, rfl⟩
    · rw [hentries]
      exact List.forall_mem_singleton.mpr (by decide)
    · rw [hentries]
      exact List.nodup_singleton _
  -- The table of one file, three bytes and one of padding.
  have hend : oneFile.imageEnd = 76 := by decide
  have hgen := genRamdisk_spec (fun _ => 0xff#8) [0x64#8] oneFile
  rw [if_pos (Or.inr (by rw [hend]; decide))] at hgen
  have hloaded := oneFileKernel_loaded 0x80400000 (by decide) (by rw [hend]; decide)
    (overruns [0x64#8] oneFile.listing sizeofRamdiskHeader)
  -- There is a block for the file.
  have heval : ((oneFileKernel 0x80400000).slab.kmalloc sizeofFile gfpKernel).map
      (fun x => decide (x.1 ≠ 0)) = some true := by
    decide +kernel
  rcases Option.map_eq_some_iff.mp heval with ⟨⟨addr, slab⟩, hkmalloc, haddr⟩
  rw [decide_eq_true_eq] at haddr
  rcases ramdisk_roundTrip _ _ oneFile hreg _ hgen rfl (oneFileKernel 0x80400000)
    0x80400000 hloaded addr slab hkmalloc haddr with ⟨m, hmount, -, hfiles, -⟩
  have hname : StringAt 0#8 (fun i => [0x61#8].getD i 0#8) [0x61#8] := by
    refine ⟨fun i x hi => ?_, rfl, by decide⟩
    rw [List.getD_eq_getElem?_getD, hi, Option.getD_some]
  rcases hfiles _ (by rw [hentries]; exact List.mem_singleton.mpr rfl) _ rfl _ hname with
    ⟨file, k', hopen, hread⟩
  refine ⟨m, file, k', hmount, hopen, hread _ _ (fun n => by decide) (fun n => ?_) 4 (by decide)⟩
  rw [hend]
  decide

end Ramdisk

end Mirros
