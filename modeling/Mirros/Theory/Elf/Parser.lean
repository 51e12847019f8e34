import Mirros.Theory.Elf.Sections

/-!
# The Parser of Programs

`get_elf_info` takes what it finds in the file as it is. It compares the first four bytes
and then trusts the number and the size of the section headers, the index of the header of
the names, where each name is and how long it is. It does not look at how much
`ramdisk_read` has read. And when there is no memory for the names, it returns a variable
to which nothing was assigned.

Here it is shown what has to be right for all of this to come out well (`Readable`), and
that this is exactly when it does.

## Main definitions

* `loadedHeader`, `loadedSections`, `loadedNames`: What was read from the file.
* `Readable`: The file is in order and there is memory.
* `Sane`: What the parser should do.

## Theorems

* `getElfInfo_readable`: Parsing a file that is in order.
* `parseElfInfo_exact`: The list of the sections, and no list when they are empty.
* `getElfInfo_sane`: When the parser does what it should.
-/

namespace Mirros

namespace Elf

section

variable (ram : Ram) (file : RamFile) (env : ElfEnv)

/-- The header of the file, with what was on the stack where the file is too short. -/
def loadedHeader : Ram := (readHeader ram file env).2.1

/-- What the second read leaves. -/
def loadedBytes : Int × Ram × RamFile :=
  readTable ram (readHeader ram file env).2.2 env (loadedHeader ram file env)

/-- The section headers of the file. -/
def loadedSections : SectionTable := loadedTable (loadedBytes ram file env)

/-- The buffer of the names after the third read. -/
def loadedNames : Ram :=
  (readStrings ram (loadedBytes ram file env).2.2 env (loadedHeader ram file env)
    (loadedBytes ram file env).2.1).2.1

/-- The headers of the sections that have memory. -/
def loadedAllocated : List SectionHeader :=
  (loadedSections ram file env).allocated 0 (eShnum (loadedHeader ram file env))

/-- There is memory for the names and for the structures, the index is one of the table, and
    nothing is wrong with the headers. -/
structure Readable : Prop where
  buffer : env.alloc 1 = true
  index : eShstrndx (loadedHeader ram file env) < eShnum (loadedHeader ram file env) ∧
    eShstrndx (loadedHeader ram file env) < (loadedSections ram file env).entries
  object : env.alloc 2 = true
  headers : Parsable env.alloc (loadedSections ram file env) (loadedNames ram file env)
    (eShnum (loadedHeader ram file env)) 0 3

/-- Nothing was allocated yet. -/
def startHeap : ElfHeap := ⟨0, [], [], 0, ⟨0, none⟩, fun _ => ⟨[], 0, 0, 0, none⟩⟩

/-- Both buffers are there. -/
def bufferHeap : ElfHeap := { startHeap with calls := 2, taken := [1, 0] }

theorem fsRead_nonneg (buf : Ram) (size : Int) : ¬(fsRead ram file buf size).1 < 0 :=
  Int.not_lt.mpr (Int.natCast_nonneg _)

/-- A file that is no program. -/
theorem getElfInfo_notElf (h : isElf (loadedHeader ram file env) = false) :
    getElfInfo ram file env = .ok (.null, startHeap) := by
  unfold loadedHeader at h
  unfold getElfInfo
  simp only [readHeader] at h ⊢
  simp only [h]
  rfl

variable (helf : isElf (loadedHeader ram file env) = true)

include helf

/-- No memory for the section headers. -/
theorem getElfInfo_noTable
    (h : ¬(0 < tableSize (loadedHeader ram file env) ∧ env.alloc 0 = true)) :
    getElfInfo ram file env = .ok (.null, { startHeap with calls := 1 }) := by
  unfold loadedHeader at h helf
  unfold getElfInfo
  simp only [readHeader] at h helf ⊢
  simp only [helf, kmalloc, if_neg h]
  rfl

variable (htable : 0 < tableSize (loadedHeader ram file env) ∧ env.alloc 0 = true)

include htable

/-- No memory for the names. -/
theorem getElfInfo_noNames (h : ¬env.alloc 1 = true) :
    getElfInfo ram file env =
      .ok (.uninitialised, { startHeap with calls := 2, taken := [0], freed := [0] }) := by
  have hno : ¬((0 : Int) < strSize ∧ env.alloc 1 = true) := fun hc => h hc.2
  unfold loadedHeader at htable helf
  unfold getElfInfo
  simp only [readHeader] at htable helf ⊢
  simp only [helf, kmalloc, if_pos htable, if_neg hno]
  rfl

/-- With both buffers the index decides, and then the headers. -/
theorem getElfInfo_buffers (h : env.alloc 1 = true) :
    getElfInfo ram file env =
      if ¬(eShstrndx (loadedHeader ram file env) < eShnum (loadedHeader ram file env) ∧
          eShstrndx (loadedHeader ram file env) < (loadedSections ram file env).entries) then
        .error .table
      else do
        let h ← parseElfInfo env.alloc (loadedSections ram file env)
          (eShnum (loadedHeader ram file env)) (loadedNames ram file env) bufferHeap
        if h.file.allocSize = 0 then
          let h ← releaseElfFile h
          return (.null, kfree (kfree h 1) 0)
        return (.file, kfree (kfree h 1) 0) := by
  have hyes : (0 : Int) < strSize ∧ env.alloc 1 = true := ⟨by decide, h⟩
  unfold loadedNames loadedSections loadedBytes
  unfold loadedHeader at htable helf ⊢
  unfold getElfInfo
  simp only [readHeader, readTable, readStrings] at htable helf ⊢
  simp only [helf, kmalloc, if_pos htable, if_pos hyes, fsRead_nonneg, if_false, Bool.not_true,
    Bool.false_eq_true]
  rfl

end

/-- Freeing some pointers. -/
theorem foldl_kfree (ps : List Nat) (h : ElfHeap) :
    ps.foldl kfree h = { h with freed := ps.reverse ++ h.freed } := by
  induction ps generalizing h with
  | nil => rfl
  | cons p ps ih =>
      rw [List.foldl_cons, ih, List.reverse_cons, List.append_assoc]
      rfl

/-- `release_elf_file` frees every section and the structure of the file. -/
theorem releaseElfFile_parsed (str : Ram) (low : Nat) (headers : List SectionHeader) (h : ElfHeap)
    (sections : List Nat) (hp : Parsed str low headers h sections) :
    releaseElfFile h = .ok { h with freed := h.self :: (sections.reverse ++ h.freed) } := by
  unfold releaseElfFile
  rw [traverse_leadsTo _ (h.calls + 1) h.file.head sections
    (Nat.lt_succ_of_le hp.length_le) hp.list]
  dsimp only
  rw [foldl_kfree]
  rfl

section

variable (ram : Ram) (file : RamFile) (env : ElfEnv)

/-- The parser comes back without a wrong access, returns a null pointer or the list of all
    sections with memory, and frees each of the two buffers it got. -/
def Sane : Prop :=
  ∃ r h, getElfInfo ram file env = .ok (r, h) ∧
    (r = .null ∨ r = .file ∧ ∃ sections,
      Parsed (loadedNames ram file env) 3 (loadedAllocated ram file env) h sections) ∧
    ∀ b < 2, b ∈ h.taken → h.freed.count b = 1

variable (helf : isElf (loadedHeader ram file env) = true)
  (htable : 0 < tableSize (loadedHeader ram file env) ∧ env.alloc 0 = true)

include helf htable

/-- A file that is in order gives the list of its sections, or nothing if they have no size. -/
theorem getElfInfo_readable (h : Readable ram file env) :
    ∃ r h', getElfInfo ram file env = .ok (r, h') ∧
      (((loadedAllocated ram file env).map SectionHeader.shSize).sum % u32Size = 0 ∧ r = .null ∨
        ((loadedAllocated ram file env).map SectionHeader.shSize).sum % u32Size ≠ 0 ∧
          r = .file ∧ ∃ sections,
            Parsed (loadedNames ram file env) 3 (loadedAllocated ram file env) h' sections) ∧
      ∀ b < 2, b ∈ h'.taken → h'.freed.count b = 1 := by
  rcases parseElfInfo_parsed env.alloc (loadedSections ram file env)
    (eShnum (loadedHeader ram file env)) (loadedNames ram file env) bufferHeap h.object h.headers
    with ⟨h', sections, hrun, hp, hself, hfreed, -⟩
  -- Neither the structure nor a section is one of the two buffers.
  have hcount : ∀ b < 2, (sections.reverse).count b = 0 := by
    intro b hb
    rw [List.count_eq_zero, List.mem_reverse]
    intro hin
    have hlow := (hp.bounds b hin).1
    change 3 ≤ b at hlow
    omega
  rw [getElfInfo_buffers ram file env helf htable h.buffer, if_neg (not_not.mpr h.index), hrun]
  simp only [bind, Except.bind]
  change h'.self = 2 at hself
  change h'.freed = [] at hfreed
  by_cases hsize : h'.file.allocSize = 0
  · rw [if_pos hsize, releaseElfFile_parsed _ _ _ _ _ hp]
    refine ⟨_, _, rfl, Or.inl ⟨hp.size.symm.trans hsize, rfl⟩, fun b hb _ => ?_⟩
    dsimp only [kfree]
    rw [hfreed, hself, List.append_nil]
    have hb' := hcount b hb
    rcases (by omega : b = 0 ∨ b = 1) with rfl | rfl
    · simp only [List.count_cons, hb', beq_iff_eq, if_false, if_true, Nat.zero_add,
        OfNat.ofNat_ne_zero, one_ne_zero]
    · simp only [List.count_cons, hb', beq_iff_eq, if_false, if_true, Nat.zero_add,
        OfNat.ofNat_ne_one, zero_ne_one]
  · rw [if_neg hsize]
    have hsum : ((loadedAllocated ram file env).map SectionHeader.shSize).sum % u32Size ≠ 0 :=
      fun hc => hsize (hp.size.trans hc)
    refine ⟨_, _, rfl, Or.inr ⟨hsum, rfl, sections, hp.list, hp.nodup, hp.bounds, hp.described,
      hp.size⟩, fun b hb _ => ?_⟩
    dsimp only [kfree]
    rw [hfreed]
    rcases (by omega : b = 0 ∨ b = 1) with rfl | rfl <;> decide

end

/-- The parser finds these section headers and these names in the file. -/
structure LoadedAs (ram : Ram) (file : RamFile) (env : ElfEnv) (header : Nat → SectionHeader)
    (num : Nat) (str : Ram) : Prop where
  count : eShnum (loadedHeader ram file env) = num
  index : num = 0 ∨ eShstrndx (loadedHeader ram file env) < num
  read : num ≤ (loadedSections ram file env).entries
  entry : ∀ i < num, (loadedSections ram file env).entry i = header i
  names : ∀ a < strSize, loadedNames ram file env a = str a

/-- The headers with `SHF_ALLOC` of a whole table. -/
theorem allocated_eq (table : SectionTable) (header : Nat → SectionHeader) (num : Nat)
    (h : ∀ i < num, table.entry i = header i) :
    table.allocated 0 num = ((List.range num).map header).filter SectionHeader.isAlloc := by
  unfold SectionTable.allocated
  rw [← List.range_eq_range']
  exact congrArg _ (List.map_congr_left (fun i hi => h i (List.mem_range.mp hi)))

/-- A table whose sections with memory have names that fit can be parsed. -/
theorem parsable_of_names (alloc : Nat → Bool) (halloc : ∀ n, alloc n = true)
    (table : SectionTable) (num : Nat) (str : Ram) (calls : Nat) (hread : num ≤ table.entries)
    (hnames : ∀ i < num, (table.entry i).isAlloc = true → NameFits str (table.entry i).shName) :
    Parsable alloc table str num 0 calls := by
  refine ⟨Or.inr (by rwa [Nat.zero_add]), fun q hq => ?_, fun k _ => halloc _⟩
  rcases List.mem_filter.mp hq with ⟨hmem, hflag⟩
  rcases List.mem_map.mp hmem with ⟨i, hi, rfl⟩
  rw [← List.range_eq_range', List.mem_range] at hi
  exact hnames i hi hflag

/-- A table whose sections have names that fit gives the list of its sections with memory, in
    its order. When they have no size together, a program with this table is not read. -/
theorem parseElfInfo_exact (alloc : Nat → Bool) (halloc : ∀ n, alloc n = true)
    (header : Nat → SectionHeader) (num : Nat) (str : Ram)
    (hnames : ∀ i < num, (header i).isAlloc = true → NameFits str (header i).shName)
    (h : ElfHeap) :
    (∃ h' sections, parseElfInfo alloc ⟨header, num⟩ num str h = .ok h' ∧
      LeadsTo (fun q => (h'.sect q).next) h'.file.head sections ∧
      List.Forall₂ (Describes str) (((List.range num).map header).filter SectionHeader.isAlloc)
        (sections.map h'.sect) ∧
      h'.file.allocSize = ((((List.range num).map header).filter SectionHeader.isAlloc).map
        SectionHeader.shSize).sum % u32Size) ∧
    (((((List.range num).map header).filter SectionHeader.isAlloc).map
        SectionHeader.shSize).sum % u32Size = 0 →
      ∀ ram file env, env.alloc = alloc → LoadedAs ram file env header num str →
        ∃ h', getElfInfo ram file env = .ok (.null, h')) := by
  constructor
  · rcases parseElfInfo_parsed alloc ⟨header, num⟩ num str h (halloc _)
      (parsable_of_names alloc halloc _ num str _ (Nat.le_refl _) hnames) with
      ⟨h', sections, hrun, hp, -⟩
    rw [allocated_eq ⟨header, num⟩ header num (fun _ _ => rfl)] at hp
    exact ⟨h', sections, hrun, hp.list, hp.described, hp.size⟩
  · intro hsum ram file env hsame hloaded
    by_cases helf : isElf (loadedHeader ram file env) = true
    swap
    · exact ⟨_, getElfInfo_notElf ram file env ((Bool.not_eq_true _).mp helf)⟩
    by_cases htable : 0 < tableSize (loadedHeader ram file env) ∧ env.alloc 0 = true
    swap
    · exact ⟨_, getElfInfo_noTable ram file env helf htable⟩
    -- Without section headers there would be nothing to allocate.
    have hindex : eShstrndx (loadedHeader ram file env) < num := by
      rcases hloaded.index with hzero | hlt
      · have hempty : tableSize (loadedHeader ram file env) = 0 := by
          unfold tableSize
          rw [hloaded.count, hzero, Nat.zero_mul]
          rfl
        exact absurd htable.1 (by rw [hempty]; decide)
      · exact hlt
    have hfits : ∀ i < num, ((loadedSections ram file env).entry i).isAlloc = true →
        NameFits (loadedNames ram file env) ((loadedSections ram file env).entry i).shName := by
      intro i hi hflag
      rw [hloaded.entry i hi] at hflag ⊢
      rcases hnames i hi hflag with ⟨xs, hxs⟩
      refine ⟨xs, stringAt_congr _ _ _ xs hxs.string (fun j hj => ?_), hxs.short, hxs.inside⟩
      exact hloaded.names _ (Nat.lt_of_le_of_lt (Nat.add_le_add_left hj _) hxs.inside)
    have hall : ∀ n, env.alloc n = true := by
      rw [hsame]
      exact halloc
    have hreadable : Readable ram file env := by
      refine ⟨hall 1, ⟨hloaded.count ▸ hindex, Nat.lt_of_lt_of_le hindex hloaded.read⟩, hall 2, ?_⟩
      rw [hloaded.count]
      exact parsable_of_names env.alloc hall _ num _ 3 hloaded.read hfits
    rcases getElfInfo_readable ram file env helf htable hreadable with ⟨r, h', hrun, hresult, -⟩
    have hheaders : loadedAllocated ram file env =
        ((List.range num).map header).filter SectionHeader.isAlloc := by
      unfold loadedAllocated
      rw [hloaded.count]
      exact allocated_eq _ header num hloaded.entry
    rw [hheaders] at hresult
    rcases hresult with ⟨-, rfl⟩ | ⟨hne, -⟩
    · exact ⟨h', hrun⟩
    · exact absurd hsum hne

/-- A table with the empty header and `.text`. -/
theorem parseElfInfo_exact_text :
    ∃ h' sections, parseElfInfo (fun _ => true)
        ⟨fun i => [⟨0, 0, 0, 0, 0⟩, ⟨1, 6, 0x400000, 0x1000, 0x80⟩].getD i ⟨0, 0, 0, 0, 0⟩, 2⟩ 2
        (fun i => [0#8, 0x2e#8, 0x74#8, 0x65#8, 0x78#8, 0x74#8].getD i 0#8) startHeap = .ok h' ∧
      LeadsTo (fun q => (h'.sect q).next) h'.file.head sections ∧ h'.file.allocSize = 0x80 := by
  have hnames : ∀ i < 2, ([⟨0, 0, 0, 0, 0⟩, ⟨1, 6, 0x400000, 0x1000, 0x80⟩].getD i
      (⟨0, 0, 0, 0, 0⟩ : SectionHeader)).isAlloc = true →
      NameFits (fun i => [0#8, 0x2e#8, 0x74#8, 0x65#8, 0x78#8, 0x74#8].getD i 0#8)
        ([⟨0, 0, 0, 0, 0⟩, ⟨1, 6, 0x400000, 0x1000, 0x80⟩].getD i
          (⟨0, 0, 0, 0, 0⟩ : SectionHeader)).shName := by
    intro i hi hflag
    rcases (by omega : i = 0 ∨ i = 1) with rfl | rfl
    · exact absurd hflag (by decide)
    · refine ⟨[0x2e#8, 0x74#8, 0x65#8, 0x78#8, 0x74#8], ⟨fun j x hj => ?_, rfl, by decide⟩,
        by decide, by decide⟩
      change [0#8, 0x2e#8, 0x74#8, 0x65#8, 0x78#8, 0x74#8].getD (1 + j) 0#8 = x
      rw [Nat.add_comm, List.getD_cons_succ, List.getD_eq_getElem?_getD, hj, Option.getD_some]
  rcases (parseElfInfo_exact (fun _ => true) (fun _ => rfl) _ 2 _ hnames startHeap).1 with
    ⟨h', sections, hrun, hlist, -, hsize⟩
  exact ⟨h', sections, hrun, hlist, hsize⟩

/-- The parser does what it should if the file is no program, if there is no memory for its
    section headers, or if everything is in order. Otherwise it goes wrong. -/
theorem getElfInfo_sane (ram : Ram) (file : RamFile) (env : ElfEnv) :
    Sane ram file env ↔ isElf (loadedHeader ram file env) = false ∨
      ¬(0 < tableSize (loadedHeader ram file env) ∧ env.alloc 0 = true) ∨
      Readable ram file env := by
  by_cases helf : isElf (loadedHeader ram file env) = true
  swap
  · rw [Bool.not_eq_true] at helf
    refine iff_of_true ⟨_, _, getElfInfo_notElf ram file env helf, Or.inl rfl, fun b _ hin => ?_⟩
      (Or.inl helf)
    exact absurd hin List.not_mem_nil
  by_cases htable : 0 < tableSize (loadedHeader ram file env) ∧ env.alloc 0 = true
  swap
  · refine iff_of_true ⟨_, _, getElfInfo_noTable ram file env helf htable, Or.inl rfl,
      fun b _ hin => ?_⟩ (Or.inr (Or.inl htable))
    exact absurd hin List.not_mem_nil
  constructor
  · rintro ⟨r, h, hrun, hresult, -⟩
    refine Or.inr (Or.inr ?_)
    -- Each thing that is not in order is an exit that comes out wrong.
    by_cases hbuffer : env.alloc 1 = true
    swap
    · rw [getElfInfo_noNames ram file env helf htable hbuffer] at hrun
      cases hrun
      rcases hresult with hnull | ⟨hfile, -⟩
      · cases hnull
      · cases hfile
    rw [getElfInfo_buffers ram file env helf htable hbuffer] at hrun
    split_ifs at hrun with hindex
    rcases hparse : parseElfInfo env.alloc (loadedSections ram file env)
        (eShnum (loadedHeader ram file env)) (loadedNames ram file env) bufferHeap with e | h'
    · rw [hparse] at hrun
      cases hrun
    · rcases parseElfInfo_parsable _ _ _ _ _ _ hparse with ⟨hobject, hheaders⟩
      exact ⟨hbuffer, hindex, hobject, hheaders⟩
  · rintro (hno | hno | hreadable)
    · rw [helf] at hno
      cases hno
    · exact absurd htable hno
    · rcases getElfInfo_readable ram file env helf htable hreadable with
        ⟨r, h', hrun, hresult, hfreed⟩
      refine ⟨r, h', hrun, ?_, hfreed⟩
      rcases hresult with ⟨-, hnull⟩ | ⟨-, hfile⟩
      · exact Or.inl hnull
      · exact Or.inr hfile

/-- A word of a file. -/
def word (n : Nat) : List (BitVec 8) :=
  [BitVec.ofNat 8 n, BitVec.ofNat 8 (n / 256), BitVec.ofNat 8 (n / 256 ^ 2),
    BitVec.ofNat 8 (n / 256 ^ 3)]

/-- A program of one empty section header, which says that its names are at this index. -/
def oneSection (index : Nat) : List (BitVec 8) :=
  [0x7f#8, 0x45#8, 0x4c#8, 0x46#8] ++ (List.replicate 28 0#8) ++ word 52 ++ List.replicate 10 0#8 ++
    [40#8, 0#8, 1#8, 0#8, BitVec.ofNat 8 index, 0#8] ++ List.replicate 40 0#8

/-- The index selects an entry far behind the table. -/
theorem getElfInfo_insane :
    ¬ Sane (fun x => (oneSection 5).getD (x - 0x80400000) 0#8) ⟨0x80400000, 92, 0x80400000⟩
      ⟨fun _ => true, fun _ => 0#8, fun _ => 0#8, fun _ => 0#8⟩ := by
  rintro ⟨r, h, hrun, -⟩
  have hfault : (getElfInfo (fun x => (oneSection 5).getD (x - 0x80400000) 0#8)
      ⟨0x80400000, 92, 0x80400000⟩
      ⟨fun _ => true, fun _ => 0#8, fun _ => 0#8, fun _ => 0#8⟩).isOk = false := by
    decide +kernel
  rw [hrun] at hfault
  cases hfault

end Elf

end Mirros
