import Mirros.Core.Elf
import Mirros.Lib.Segment
import Mathlib.Data.List.Forall2

/-!
# The Sections of a Program

`parse_elf_info` goes over the table of the section headers once and makes a section for
every header with the flag `SHF_ALLOC`. A new section is hung behind the last one of the
list, to which the loop in `elf_file_add_section` has to go every time. So the list is in
the order of the table, and the sizes are added up on the way.

The total size is a word and is also how an error is reported. When it is zero,
`get_elf_info` releases what was made and returns a null pointer.

## Main definitions

* `NameFits`: A name that ends inside of the buffer and is short enough.
* `Describes`: A section has what its header says.
* `Parsed`: The list of the sections of some headers.
* `Parsable`: Nothing goes wrong with some headers.

## Theorems

* `strcpyName_iff`: Copying a name.
* `elfFileAddSection_parsed`: One more section.
* `parseElfInfo_parsed`: The list of all sections.
* `parseElfInfo_parsable`: What is needed for it.
-/

namespace Mirros

namespace Elf

/-- The string at the place in the buffer ends in the buffer and has at most 31 bytes. -/
structure NameAt (str : Ram) (a : Nat) (xs : List (BitVec 8)) : Prop where
  string : StringAt 0#8 (fun i => str (a + i)) xs
  short : xs.length < nameSize
  inside : a + xs.length < strSize

/-- There is such a name. -/
def NameFits (str : Ram) (a : Nat) : Prop :=
  ∃ xs, NameAt str a xs

/-- Copying gives the string if its end is reached before the end of the buffer and of the
    room. -/
theorem strcpyName_iff (str : Ram) (a room : Nat) (xs : List (BitVec 8)) :
    strcpyName str a room = .ok xs ↔
      StringAt 0#8 (fun i => str (a + i)) xs ∧ xs.length < room ∧ a + xs.length < strSize := by
  induction room generalizing a xs with
  | zero =>
      rw [strcpyName]
      exact ⟨fun h => (by cases h), fun h => absurd h.2.1 (Nat.not_lt_zero _)⟩
  | succ room ih =>
      rw [strcpyName]
      split_ifs with hin hend
      · rw [stringAt_nil 0#8 (fun i => str (a + i)) xs hend, Except.ok.injEq]
        constructor
        · rintro rfl
          exact ⟨rfl, Nat.succ_pos _, hin⟩
        · exact fun h => h.1.symm
      · rw [stringAt_cons 0#8 (fun i => str (a + i)) xs hend]
        constructor
        · intro h
          rcases hrest : strcpyName str (a + 1) room with e | ys
          · rw [hrest] at h
            cases h
          · rw [hrest] at h
            cases h
            rcases (ih (a + 1) ys).mp hrest with ⟨hs, hroom, hinside⟩
            refine ⟨⟨ys, rfl, ?_⟩, ?_, ?_⟩
            · simpa only [Nat.add_assoc, Nat.add_comm 1] using hs
            · rw [List.length_cons]
              omega
            · rw [List.length_cons]
              omega
        · rintro ⟨⟨ys, rfl, hs⟩, hroom, hinside⟩
          rw [List.length_cons] at hroom hinside
          have hrest := (ih (a + 1) ys).mpr
            ⟨by simpa only [Nat.add_assoc, Nat.add_comm 1] using hs, by omega, by omega⟩
          rw [hrest]
          rfl
      · constructor
        · intro h
          cases h
        · rintro ⟨-, -, hinside⟩
          omega

theorem strcpyName_ok (str : Ram) (a : Nat) (xs : List (BitVec 8)) :
    strcpyName str a nameSize = .ok xs ↔ NameAt str a xs :=
  (strcpyName_iff str a nameSize xs).trans
    ⟨fun h => ⟨h.1, h.2.1, h.2.2⟩, fun h => ⟨h.string, h.short, h.inside⟩⟩

/-- The section has the name of the header and what else it says. -/
structure Describes (str : Ram) (header : SectionHeader) (s : Section) : Prop where
  name : NameAt str header.shName s.name
  offset : s.offset = header.shOffset
  size : s.size = header.shSize
  loadAddr : s.loadAddr = header.shAddr

/-- The list of the file has a section for each of these headers, which are not older than
    `low`, and the size is theirs. -/
structure Parsed (str : Ram) (low : Nat) (headers : List SectionHeader) (h : ElfHeap)
    (sections : List Nat) : Prop where
  list : LeadsTo (fun q => (h.sect q).next) h.file.head sections
  nodup : sections.Nodup
  bounds : ∀ p ∈ sections, low ≤ p ∧ p < h.calls
  described : List.Forall₂ (Describes str) headers (sections.map h.sect)
  size : h.file.allocSize = (headers.map SectionHeader.shSize).sum % u32Size

/-- There are at most as many sections as calls of `kmalloc`. -/
theorem Parsed.length_le (str : Ram) (low : Nat) (headers : List SectionHeader) (h : ElfHeap)
    (sections : List Nat) (hp : Parsed str low headers h sections) :
    sections.length ≤ h.calls := by
  have hsub : sections ⊆ List.range h.calls :=
    fun p hin => List.mem_range.mpr (hp.bounds p hin).2
  have hle := (List.subperm_of_subset hp.nodup hsub).length_le
  rwa [List.length_range] at hle

/-- What `elf_file_add_section` leaves of the state. -/
structure SameCalls (h h' : ElfHeap) : Prop where
  calls : h'.calls = h.calls
  taken : h'.taken = h.taken
  freed : h'.freed = h.freed
  self : h'.self = h.self

/-- The links after the link of one section was set. -/
theorem next_update (sect : Nat → Section) (q p : Nat) :
    (fun x => (Function.update sect q { sect q with next := some p } x).next) =
      Function.update (fun x => (sect x).next) q (some p) := by
  funext x
  by_cases hx : x = q
  · rw [hx, Function.update_self, Function.update_self]
  · rw [Function.update_of_ne hx, Function.update_of_ne hx]

/-- Sections are described by the same headers if only their links have changed. -/
theorem describes_congr (str : Ram) (headers : List SectionHeader) (sect sect' : Nat → Section)
    (sections : List Nat) (h : List.Forall₂ (Describes str) headers (sections.map sect))
    (hsame : ∀ p ∈ sections, ∃ next, sect' p = { sect p with next := next }) :
    List.Forall₂ (Describes str) headers (sections.map sect') := by
  rw [List.forall₂_map_right_iff] at h ⊢
  induction h with
  | nil => exact List.Forall₂.nil
  | cons hd _ ih =>
      refine List.Forall₂.cons ?_ (ih (fun p hp => hsame p (List.mem_cons_of_mem _ hp)))
      rcases hsame _ List.mem_cons_self with ⟨next, heq⟩
      rw [heq]
      exact ⟨hd.name, hd.offset, hd.size, hd.loadAddr⟩

/-- The section of a header before it is in the list. -/
def newSection (header : SectionHeader) (name : List (BitVec 8)) : Section :=
  ⟨name, header.shOffset, header.shSize, header.shAddr, none⟩

section

variable (header : SectionHeader) (p : Nat) (str : Ram) (h : ElfHeap) (name : List (BitVec 8))
  (hname : strcpyName str header.shName nameSize = .ok name)

include hname

/-- The first section becomes the head of the list. -/
theorem elfFileAddSection_first (hhead : h.file.head = none) :
    elfFileAddSection header p str h = .ok { h with
      sect := Function.update h.sect p (newSection header name)
      file := ⟨add32 h.file.allocSize header.shSize, some p⟩ } := by
  unfold elfFileAddSection
  rw [hname, hhead]
  rfl

/-- Another one is linked to the last. -/
theorem elfFileAddSection_behind (x y : Nat) (hhead : h.file.head = some x)
    (hlast : lastNode (fun q => (Function.update h.sect p (newSection header name) q).next) h.calls
      x = some y) :
    elfFileAddSection header p str h = .ok { h with
      sect := Function.update (Function.update h.sect p (newSection header name)) y
        { Function.update h.sect p (newSection header name) y with next := some p }
      file := ⟨add32 h.file.allocSize header.shSize, some x⟩ } := by
  unfold elfFileAddSection
  rw [hname, hhead]
  unfold newSection at hlast ⊢
  simp only [bind, Except.bind, hlast]
  rw [hhead]
  rfl

end

/-- A section with a name that fits is added at the end of the list. -/
theorem elfFileAddSection_parsed (str : Ram) (low : Nat) (headers : List SectionHeader)
    (h : ElfHeap) (sections : List Nat) (hp : Parsed str low headers h sections)
    (header : SectionHeader) (hname : NameFits str header.shName) (p : Nat) (hfresh : p ∉ sections)
    (hlow : low ≤ p) (hcalls : p < h.calls) :
    ∃ h', elfFileAddSection header p str h = .ok h' ∧
      Parsed str low (headers ++ [header]) h' (sections ++ [p]) ∧ SameCalls h h' := by
  rcases hname with ⟨name, hxs⟩
  have hcopy := (strcpyName_ok str header.shName name).mpr hxs
  have hdescribes : ∀ next, Describes str header { newSection header name with next := next } :=
    fun next => ⟨hxs, rfl, rfl, rfl⟩
  -- The new section points nowhere, and the others are as they were.
  generalize hsect : Function.update h.sect p (newSection header name) = sect
  have hnew : sect p = newSection header name := by
    rw [← hsect, Function.update_self]
  have hold : ∀ q ∈ sections, sect q = h.sect q := by
    intro q hq
    have hne : q ≠ p := fun heq => hfresh (heq ▸ hq)
    rw [← hsect, Function.update_of_ne hne]
  have hlist := leadsTo_congr _ (fun q => (sect q).next) _ _ hp.list
    (fun q hq => by rw [hold q hq])
  have hnodup : (sections ++ [p]).Nodup := by
    rw [List.nodup_append_comm]
    exact List.nodup_cons.mpr ⟨hfresh, hp.nodup⟩
  have hbounds : ∀ q ∈ sections ++ [p], low ≤ q ∧ q < h.calls := by
    intro q hq
    rcases List.mem_append.mp hq with hq | hq
    · exact hp.bounds q hq
    · rw [List.mem_singleton.mp hq]
      exact ⟨hlow, hcalls⟩
  have hsize : add32 h.file.allocSize header.shSize =
      ((headers ++ [header]).map SectionHeader.shSize).sum % u32Size := by
    rw [hp.size, List.map_append, List.sum_append, List.map_singleton, List.sum_singleton]
    unfold add32
    rw [Nat.mod_add_mod]
  -- Whatever becomes of the links, the sections are described.
  have hdescribed : ∀ sect' : Nat → Section,
      (∀ q ∈ sections ++ [p], ∃ next, sect' q = { sect q with next := next }) →
      List.Forall₂ (Describes str) (headers ++ [header]) ((sections ++ [p]).map sect') := by
    intro sect' hsame
    rw [List.map_append]
    refine List.rel_append ?_ ?_
    · refine describes_congr str headers h.sect sect' sections hp.described (fun q hq => ?_)
      rcases hsame q (List.mem_append_left _ hq) with ⟨next, heq⟩
      exact ⟨next, by rw [heq, hold q hq]⟩
    · rcases hsame p (List.mem_append_right _ List.mem_cons_self) with ⟨next, heq⟩
      refine List.Forall₂.cons ?_ List.Forall₂.nil
      rw [heq, hnew]
      exact hdescribes next
  rcases List.eq_nil_or_concat sections with rfl | ⟨ys, y, rfl⟩
  · have hadd := elfFileAddSection_first header p str h name hcopy hlist
    rw [hsect] at hadd
    refine ⟨_, hadd, ⟨⟨rfl, ?_⟩, hnodup, hbounds, hdescribed sect (fun q _ => ⟨_, rfl⟩), hsize⟩,
      ⟨rfl, rfl, rfl, rfl⟩⟩
    dsimp only
    rw [hnew]
    rfl
  · rw [List.concat_eq_append] at *
    -- The loop finds the last section, and that is where the new one is linked.
    have hlen := hp.length_le
    rw [List.length_append, List.length_singleton] at hlen
    rcases hhead : h.file.head with _ | x
    · rw [hhead] at hlist
      cases ys <;> cases hlist.1
    · rw [hhead] at hlist
      have hlast := lastNode_leadsTo _ h.calls x y ys (by omega) hlist
      have hadd := elfFileAddSection_behind header p str h name hcopy x y hhead
      rw [hsect] at hadd
      have hend : (sect p).next = none := by
        rw [hnew]
        rfl
      refine ⟨_, hadd hlast, ⟨?_, hnodup, hbounds, ?_, hsize⟩, ⟨rfl, rfl, rfl, rfl⟩⟩
      · dsimp only
        rw [next_update]
        exact leadsTo_concat _ (some x) ys y p hlist hp.nodup hfresh hend
      · refine hdescribed _ (fun q _ => ?_)
        by_cases hq : q = y
        · rw [hq]
          exact ⟨_, Function.update_self _ _ _⟩
        · exact ⟨(sect q).next, Function.update_of_ne hq _ _⟩

/-- A header is only added when its name fits. -/
theorem elfFileAddSection_fits (str : Ram) (h h' : ElfHeap) (header : SectionHeader) (p : Nat)
    (hadd : elfFileAddSection header p str h = .ok h') :
    NameFits str header.shName ∧ h'.calls = h.calls := by
  unfold elfFileAddSection at hadd
  rcases hcopy : strcpyName str header.shName nameSize with e | name
  · rw [hcopy] at hadd
    cases hadd
  · refine ⟨⟨name, (strcpyName_ok _ _ _).mp hcopy⟩, ?_⟩
    rw [hcopy] at hadd
    simp only [bind, Except.bind] at hadd
    split at hadd
    · cases hadd
      rfl
    · split at hadd
      · cases hadd
      · cases hadd
        rfl

/-- A call of `kzalloc` that gets memory. -/
theorem kzalloc_ok (alloc : Nat → Bool) (size : Int) (h : ElfHeap) (hsize : 0 < size)
    (halloc : alloc h.calls = true) :
    kzalloc alloc size h =
      .ok (h.calls, { h with calls := h.calls + 1, taken := h.calls :: h.taken }) := by
  unfold kzalloc kmalloc
  rw [if_pos ⟨hsize, halloc⟩]

/-- It only comes back when there is memory. -/
theorem kzalloc_succeeds (alloc : Nat → Bool) (size : Int) (h : ElfHeap) (got : Nat × ElfHeap)
    (hok : kzalloc alloc size h = .ok got) : alloc h.calls = true ∧ got.2.calls = h.calls + 1 := by
  unfold kzalloc kmalloc at hok
  split_ifs at hok with hcond
  cases hok
  exact ⟨hcond.2, rfl⟩

/-- The headers with `SHF_ALLOC` among `n` of them from the `i`-th on. -/
def SectionTable.allocated (table : SectionTable) (i n : Nat) : List SectionHeader :=
  ((List.range' i n).map table.entry).filter SectionHeader.isAlloc

theorem allocated_succ (table : SectionTable) (i n : Nat) :
    table.allocated i (n + 1) =
      if (table.entry i).isAlloc then table.entry i :: table.allocated (i + 1) n
      else table.allocated (i + 1) n := by
  unfold SectionTable.allocated
  rw [List.range'_succ, List.map_cons, List.filter_cons]

/-- Nothing goes wrong with the headers from the `i`-th on: they were read, their names fit,
    and there is memory for their sections. -/
structure Parsable (alloc : Nat → Bool) (table : SectionTable) (str : Ram) (n i calls : Nat) :
    Prop where
  read : n = 0 ∨ i + n ≤ table.entries
  names : ∀ header ∈ table.allocated i n, NameFits str header.shName
  memory : ∀ k < (table.allocated i n).length, alloc (calls + k) = true

/-- What the loop leaves of the state. -/
structure KeepsOld (h h' : ElfHeap) : Prop where
  calls : h.calls ≤ h'.calls
  taken : ∀ q < h.calls, q ∈ h'.taken ↔ q ∈ h.taken
  freed : h'.freed = h.freed
  self : h'.self = h.self

/-- The loop makes a section for each header with `SHF_ALLOC`, in the order of the table. -/
theorem parseLoop_parsed (alloc : Nat → Bool) (table : SectionTable) (str : Ram) (low n i : Nat)
    (h : ElfHeap) (headers : List SectionHeader) (sections : List Nat)
    (hp : Parsed str low headers h sections) (hlow : low ≤ h.calls)
    (hok : Parsable alloc table str n i h.calls) :
    ∃ h' sections', parseLoop alloc table str n i h = .ok h' ∧
      Parsed str low (headers ++ table.allocated i n) h' sections' ∧ KeepsOld h h' := by
  induction n generalizing i h headers sections with
  | zero =>
      refine ⟨h, sections, rfl, ?_, ⟨Nat.le_refl _, fun q _ => Iff.rfl, rfl, rfl⟩⟩
      rw [show table.allocated i 0 = [] from rfl, List.append_nil]
      exact hp
  | succ n ih =>
      have hread : i + (n + 1) ≤ table.entries := by
        rcases hok.read with hzero | hread
        · exact absurd hzero (Nat.succ_ne_zero n)
        · exact hread
      have hsucc := allocated_succ table i n
      rw [parseLoop, if_neg (by omega)]
      split_ifs with halloc
      · rw [if_pos halloc] at hsucc
        have hmemory := hok.memory
        rw [hsucc, List.length_cons] at hmemory
        have hfirst := hok.names (table.entry i) (hsucc ▸ List.mem_cons_self)
        rw [kzalloc_ok alloc sizeofSection h (by decide) (hmemory 0 (Nat.succ_pos _))]
        -- The section is younger than all others.
        have hfresh : h.calls ∉ sections := fun hin => absurd (hp.bounds _ hin).2 (by omega)
        have htake : Parsed str low headers
            { h with calls := h.calls + 1, taken := h.calls :: h.taken } sections :=
          ⟨hp.list, hp.nodup, fun q hq => ⟨(hp.bounds q hq).1, Nat.lt_succ_of_lt (hp.bounds q hq).2⟩,
            hp.described, hp.size⟩
        rcases elfFileAddSection_parsed str low headers _ sections htake (table.entry i) hfirst
          h.calls hfresh hlow (Nat.lt_succ_self _) with ⟨h₁, hadd, hp₁, hsame⟩
        have hcalls : h₁.calls = h.calls + 1 := hsame.calls
        rcases ih (i + 1) h₁ (headers ++ [table.entry i]) (sections ++ [h.calls]) hp₁ (by omega)
          ⟨Or.inr (by omega), fun q hq => hok.names q (hsucc ▸ List.mem_cons_of_mem _ hq),
            fun k hk => by
              rw [hcalls, Nat.add_assoc, Nat.add_comm 1]
              exact hmemory (k + 1) (Nat.succ_lt_succ hk)⟩ with ⟨h', sections', hrun, hp', hkeeps⟩
        refine ⟨h', sections', ?_, ?_, ⟨?_, fun q hq => ?_, ?_, ?_⟩⟩
        · simp only [bind, Except.bind, hadd]
          exact hrun
        · rw [hsucc]
          rwa [List.append_assoc, List.singleton_append] at hp'
        · have hle := hkeeps.calls
          omega
        · rw [hkeeps.taken q (by omega), hsame.taken]
          exact ⟨fun hin => (List.mem_cons.mp hin).resolve_left (Nat.ne_of_lt hq),
            List.mem_cons_of_mem _⟩
        · exact hkeeps.freed.trans hsame.freed
        · exact hkeeps.self.trans hsame.self
      · rw [if_neg halloc] at hsucc
        rw [hsucc]
        exact ih (i + 1) h headers sections hp hlow
          ⟨Or.inr (by omega), hsucc ▸ hok.names, hsucc ▸ hok.memory⟩

/-- The loop only comes to its end when nothing was wrong. -/
theorem parseLoop_parsable (alloc : Nat → Bool) (table : SectionTable) (str : Ram) (n i : Nat)
    (h h' : ElfHeap) (hrun : parseLoop alloc table str n i h = .ok h') :
    Parsable alloc table str n i h.calls := by
  induction n generalizing i h with
  | zero =>
      exact ⟨Or.inl rfl, fun q hq => absurd hq List.not_mem_nil,
        fun k hk => absurd hk (Nat.not_lt_zero k)⟩
  | succ n ih =>
      have hsucc := allocated_succ table i n
      rw [parseLoop] at hrun
      split_ifs at hrun with hread halloc
      · rw [if_pos halloc] at hsucc
        rcases hk : kzalloc alloc sizeofSection h with e | ⟨p, h₁⟩
        · rw [hk] at hrun
          cases hrun
        rcases kzalloc_succeeds alloc _ h _ hk with ⟨hmem, hcalls₁⟩
        rw [hk] at hrun
        simp only [bind, Except.bind] at hrun
        rcases hadd : elfFileAddSection (table.entry i) p str h₁ with e | h₂
        · rw [hadd] at hrun
          cases hrun
        rcases elfFileAddSection_fits str h₁ h₂ _ p hadd with ⟨hfits, hcalls₂⟩
        rw [hadd] at hrun
        have hrest := ih (i + 1) h₂ hrun
        rw [hcalls₂, hcalls₁] at hrest
        refine ⟨Or.inr ?_, fun q hq => ?_, fun k hk => ?_⟩
        · rcases hrest.read with hzero | hle
          · omega
          · omega
        · rw [hsucc] at hq
          rcases List.mem_cons.mp hq with rfl | hq
          · exact hfits
          · exact hrest.names q hq
        · rw [hsucc, List.length_cons] at hk
          cases k with
          | zero => exact hmem
          | succ k =>
              have hk' := hrest.memory k (by omega)
              rwa [Nat.add_assoc, Nat.add_comm 1] at hk'
      · rw [if_neg halloc] at hsucc
        have hrest := ih (i + 1) h hrun
        refine ⟨Or.inr ?_, fun q hq => hrest.names q (hsucc ▸ hq),
          fun k hk => hrest.memory k (hsucc ▸ hk)⟩
        rcases hrest.read with hzero | hle
        · omega
        · omega

/-- A file without sections. -/
theorem parsed_nil (str : Ram) (low : Nat) (h : ElfHeap) (hfile : h.file = ⟨0, none⟩) :
    Parsed str low [] h [] := by
  refine ⟨?_, List.nodup_nil, fun p hp => absurd hp List.not_mem_nil, List.Forall₂.nil, ?_⟩
  · rw [hfile]
    rfl
  · rw [hfile]
    rfl

/-- `parse_elf_info` makes the list of all headers with `SHF_ALLOC`. -/
theorem parseElfInfo_parsed (alloc : Nat → Bool) (table : SectionTable) (num : Nat) (str : Ram)
    (h : ElfHeap) (halloc : alloc h.calls = true)
    (hok : Parsable alloc table str num 0 (h.calls + 1)) :
    ∃ h' sections, parseElfInfo alloc table num str h = .ok h' ∧
      Parsed str (h.calls + 1) (table.allocated 0 num) h' sections ∧ h'.self = h.calls ∧
      h'.freed = h.freed ∧ ∀ q < h.calls, q ∈ h'.taken ↔ q ∈ h.taken := by
  unfold parseElfInfo
  rw [kzalloc_ok alloc sizeofElfFile h (by decide) halloc]
  rcases parseLoop_parsed alloc table str (h.calls + 1) num 0
    { h with calls := h.calls + 1, taken := h.calls :: h.taken, self := h.calls,
             file := ⟨0, none⟩ } [] []
    (parsed_nil str _ _ rfl) (Nat.le_refl _) hok with ⟨h', sections, hrun, hp, hkeeps⟩
  rw [List.nil_append] at hp
  refine ⟨h', sections, hrun, hp, hkeeps.self, hkeeps.freed, fun q hq => ?_⟩
  rw [hkeeps.taken q (Nat.lt_succ_of_lt hq)]
  exact ⟨fun hin => (List.mem_cons.mp hin).resolve_left (Nat.ne_of_lt hq), List.mem_cons_of_mem _⟩

/-- It only comes back when there is memory and the headers are in order. -/
theorem parseElfInfo_parsable (alloc : Nat → Bool) (table : SectionTable) (num : Nat) (str : Ram)
    (h h' : ElfHeap) (hrun : parseElfInfo alloc table num str h = .ok h') :
    alloc h.calls = true ∧ Parsable alloc table str num 0 (h.calls + 1) := by
  unfold parseElfInfo at hrun
  rcases hk : kzalloc alloc sizeofElfFile h with e | ⟨p, h₁⟩
  · rw [hk] at hrun
    cases hrun
  rcases kzalloc_succeeds alloc _ h _ hk with ⟨hmem, hcalls⟩
  rw [hk] at hrun
  refine ⟨hmem, ?_⟩
  rw [← hcalls]
  exact parseLoop_parsable alloc table str num 0 { h₁ with self := p, file := ⟨0, none⟩ } h' hrun

end Elf

end Mirros
