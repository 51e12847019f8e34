import Mirros.Theory.Task.Visit

/-!
# Sections Outside the Image

`load_elf_section` finds the first page of a section by walking the list of the image as
many steps as the load address says, and tests each node it comes to for a null pointer.
There is none in a ring. A walk that is too long goes through the head and around again,
and the bytes of the section are loaded wherever it ends.

So a section that is not inside the image is refused only if it starts below the image or
is empty, which are the two tests the function begins with.

## Main definitions

* `ElfSection.Contained`: The section is inside the image, above the page of the arguments.
* `Kernel.Refuses`: The section is refused, and nothing was written out of the image.

## Theorems

* `listNexts_ring`, `listNexts_drop`: Where a walk on a ring ends.
* `loadNodes_returns`: The loop of `load_elf_section` comes to its end, and without an error.
* `loadElfSectionAt_eq`: The function on the pointers is the function on the sequence.
* `loadElfSectionAt_refuses`: Which sections are refused.
-/

namespace Mirros

/-- The section is inside the image, above the page of the arguments. -/
def ElfSection.Contained (s : ElfSection) : Prop :=
  processUserExecBase ≤ s.loadAddr ∧ s.loadAddr + s.size ≤ processUserBase + processImageSize

/-- A walk on a ring does not come to a null pointer. -/
theorem listNexts_ring (links : Links PageNode) (h : PageNode) (xs : List PageNode)
    (hring : Ring links h xs) (hnull : PageNode.null ∉ h :: xs) (n : Nat) :
    ∀ a ∈ h :: xs, ∃ b ∈ h :: xs, listNexts links n a = some b := by
  induction n with
  | zero => exact fun a ha => ⟨a, ha, rfl⟩
  | succ n ih =>
      intro a ha
      have hmem := ring_next_mem links h a xs hring ha
      rcases ih _ hmem with ⟨b, hb, hwalk⟩
      refine ⟨b, hb, ?_⟩
      rw [listNexts, if_neg (fun hc : links.next a = .null => hnull (hc ▸ hmem))]
      exact hwalk

/-- A walk that is not too long ends on a page, with the rest of the list behind it. -/
theorem listNexts_drop (links : Links PageNode) (h : PageNode) (qs : List Nat) (i : Nat) :
    ∀ a, Forward links (a :: qs.map PageNode.page ++ [h]) → i < qs.length →
      ∃ q rest, qs.drop i = q :: rest ∧ listNexts links (i + 1) a = some (.page q) ∧
        Forward links (PageNode.page q :: rest.map PageNode.page ++ [h]) := by
  induction qs generalizing i with
  | nil => exact fun _ _ hi => absurd hi (Nat.not_lt_zero i)
  | cons q qs ih =>
      intro a hf hi
      rcases List.isChain_cons_cons.mp hf with ⟨haq, hrest⟩
      rw [listNexts, haq, if_neg (by simp only [reduceCtorEq, not_false_eq_true])]
      cases i with
      | zero => exact ⟨q, qs, rfl, rfl, hrest⟩
      | succ i => exact ih i _ hrest (Nat.lt_of_succ_lt_succ hi)

/-- A read of a number of bytes that does not wrap. -/
theorem ramdiskReadInt_eq (ram : Ram) (file : RamFile) (buf n : Nat)
    (hcurr : file.curr ≤ file.base + file.size)
    (hend : file.base + file.size + n < u32Size) :
    (ramdiskReadInt ram file buf n).2 = ramdiskRead ram file buf n := by
  have hmod : ((file.curr : Int) + n) % (u32Size : Int) = file.curr + n :=
    Int.emod_eq_of_lt (by omega) (by omega)
  have hcopy : (if (file.base + file.size : Int) < (file.curr + n) % (u32Size : Int) then
      (file.base + file.size : Int) - file.curr else n).toNat =
      min n (file.base + file.size - file.curr) := by
    rw [hmod]
    split_ifs <;> omega
  unfold ramdiskReadInt ramdiskRead
  simp only [hcopy]

/-- A read never fails. -/
theorem ramdiskReadInt_nonneg (ram : Ram) (file : RamFile) (buf : Nat) (size : Int) :
    0 ≤ (ramdiskReadInt ram file buf size).1 :=
  Int.natCast_nonneg _

theorem toInt32_lt (n : Nat) : toInt32 n < (pageSize : Int) * ((n / pageSize + 1 : Nat) : Int) := by
  unfold toInt32 pageSize u32Size
  split_ifs <;> omega

namespace Kernel

section Loop

variable (mm : Mm) (links : Links PageNode) (stray : PageNode → Nat) (isBss : Bool)

/-- One turn of the loop: the result is zero, or that of the rest. -/
theorem loadNodes_turn (turns : Nat) (list : PageNode) (j : Nat) (k : Int) (ram : Ram)
    (file : RamFile) : ∃ ram' file',
    loadNodes mm links stray isBss (turns + 1) list j k ram file =
      if 0 < k - (if (pageSize : Int) ≤ k then (pageSize : Int) - j else k) then
        loadNodes mm links stray isBss turns (links.next list) 0
          (k - (if (pageSize : Int) ≤ k then (pageSize : Int) - j else k)) ram' file'
      else some (0, ram', file') := by
  cases isBss with
  | true =>
      refine ⟨memzero ram (add32 (freeBaseAt mm stray list) j)
        (if (pageSize : Int) ≤ k then (pageSize : Int) - j else k).toNat, file, ?_⟩
      rw [loadNodes]
      simp only [if_true, lt_self_iff_false, if_false]
  | false =>
      rw [loadNodes]
      generalize hread : ramdiskReadInt ram file (add32 (freeBaseAt mm stray list) j)
        (if (pageSize : Int) ≤ k then (pageSize : Int) - j else k) = r
      rcases r with ⟨i, ram', file'⟩
      have hi : ¬i < 0 := by
        have hnn := ramdiskReadInt_nonneg ram file (add32 (freeBaseAt mm stray list) j)
          (if (pageSize : Int) ≤ k then (pageSize : Int) - j else k)
        rw [hread] at hnn
        exact Int.not_lt.mpr hnn
      refine ⟨ram', file', ?_⟩
      simp only [Bool.false_eq_true, if_false, hi]

/-- With enough turns the loop from the start of a page returns zero. -/
theorem loadNodes_pages (turns : Nat) : ∀ (list : PageNode) (k : Int) (ram : Ram) (file : RamFile),
    0 < turns → k < pageSize * (turns : Int) →
      ∃ ram' file', loadNodes mm links stray isBss turns list 0 k ram file =
        some (0, ram', file') := by
  induction turns with
  | zero => exact fun _ _ _ _ h => absurd h (Nat.lt_irrefl 0)
  | succ turns ih =>
      intro list k ram file _ hk
      rcases loadNodes_turn mm links stray isBss turns list 0 k ram file with ⟨ram', file', heq⟩
      rw [heq]
      split_ifs with hpage hgo hgo
      · -- A whole page was loaded, and there is more to go.
        refine ih _ _ _ _ ?_ ?_
        · rcases Nat.eq_zero_or_pos turns with rfl | hpos
          · unfold pageSize at *
            omega
          · exact hpos
        · push_cast at hk ⊢
          unfold pageSize at *
          omega
      · exact ⟨_, _, rfl⟩
      · exact absurd hgo (by omega)
      · exact ⟨_, _, rfl⟩

/-- The loop of `load_elf_section` comes to its end, and without an error. -/
theorem loadNodes_returns (list : PageNode) (j : Nat) (hj : j < pageSize) (n : Nat) (ram : Ram)
    (file : RamFile) : ∃ ram' file',
    loadNodes mm links stray isBss (n / pageSize + 2) list j (toInt32 n) ram file =
      some (0, ram', file') := by
  have hlt := toInt32_lt n
  rcases loadNodes_turn mm links stray isBss (n / pageSize + 1) list j (toInt32 n) ram file with
    ⟨ram', file', heq⟩
  rw [heq]
  split_ifs with hpage hgo hgo
  · refine loadNodes_pages mm links stray isBss _ _ _ _ _ (Nat.succ_pos _) ?_
    omega
  · exact ⟨_, _, rfl⟩
  · exact absurd hgo (by omega)
  · exact ⟨_, _, rfl⟩

/-- The first turn of the loop on the sequence, with what it does to memory. -/
theorem loadPages_turn (q : Nat) (qs : List Nat) (j k : Nat) (ram : Ram) (file : RamFile) :
    ∃ n, (n : Nat) = (if pageSize ≤ k then pageSize - j else k) ∧ ∃ r,
      r = (if isBss then (memzero ram ((mm.pageTable q).freeBase + j) n, file)
        else ramdiskRead ram file ((mm.pageTable q).freeBase + j) n) ∧
      loadPages mm isBss (q :: qs) j k ram file =
        if 0 < k - n then loadPages mm isBss qs 0 (k - n) r.1 r.2 else some r :=
  ⟨_, rfl, _, rfl, rfl⟩

/-- A turn of the loop on the pointers that stands on a page. -/
theorem loadNodes_page (turns q j k : Nat) (ram : Ram) (file : RamFile) (n : Nat)
    (r : Ram × RamFile) (hn : n = (if pageSize ≤ k then pageSize - j else k))
    (hr : r = (if isBss then (memzero ram ((mm.pageTable q).freeBase + j) n, file)
      else ramdiskRead ram file ((mm.pageTable q).freeBase + j) n))
    (hj : j < pageSize) (hbase : (mm.pageTable q).freeBase + pageSize ≤ u32Size)
    (hcurr : file.curr ≤ file.base + file.size)
    (hend : file.base + file.size + pageSize < u32Size) :
    loadNodes mm links stray isBss (turns + 1) (.page q) j k ram file =
      if 0 < k - n then
        loadNodes mm links stray isBss turns (links.next (.page q)) 0 ((k - n : Nat) : Int) r.1 r.2
      else some (0, r.1, r.2) := by
  have haddr : add32 (freeBaseAt mm stray (.page q)) j = (mm.pageTable q).freeBase + j :=
    Nat.mod_eq_of_lt (show (mm.pageTable q).freeBase + j < u32Size by omega)
  -- The `int` is the number of the sequence.
  have hint : (if (pageSize : Int) ≤ (k : Int) then (pageSize : Int) - j else (k : Int)) = n := by
    rw [hn]
    split_ifs <;> omega
  have hle : n ≤ pageSize ∧ n ≤ k := by
    rw [hn]
    split_ifs <;> omega
  have hsub : (k : Int) - n = ((k - n : Nat) : Int) := by omega
  have hpos : (0 : Int) < ((k - n : Nat) : Int) ↔ 0 < k - n := Int.natCast_pos
  rw [loadNodes]
  cases isBss with
  | true =>
      rw [if_pos rfl] at hr
      simp only [haddr, hint, hsub, hpos, if_true, lt_self_iff_false, if_false, Int.toNat_natCast, hr]
  | false =>
      rw [if_neg Bool.false_ne_true] at hr
      have hread := ramdiskReadInt_eq ram file ((mm.pageTable q).freeBase + j) n hcurr (by omega)
      have hi : ¬(ramdiskReadInt ram file ((mm.pageTable q).freeBase + j) n).1 < 0 :=
        Int.not_lt.mpr (ramdiskReadInt_nonneg _ _ _ _)
      simp only [haddr, hint, hsub, hpos, Bool.false_eq_true, if_false, hi, hread, hr]

/-- As long as there are pages, the loop on the pointers is the loop on the sequence. -/
theorem loadNodes_eq (h : PageNode) (turns : Nat) :
    ∀ (q : Nat) (qs : List Nat) (j k : Nat) (ram ram' : Ram) (file file' : RamFile)
      (r : Int × Ram × RamFile), Forward links (PageNode.page q :: qs.map PageNode.page ++ [h]) →
      (∀ p ∈ q :: qs, (mm.pageTable p).freeBase + pageSize ≤ u32Size) → j < pageSize →
      file.curr ≤ file.base + file.size → file.base + file.size + pageSize < u32Size →
      loadPages mm isBss (q :: qs) j k ram file = some (ram', file') →
      loadNodes mm links stray isBss turns (.page q) j k ram file = some r →
        r = (0, ram', file') := by
  induction turns with
  | zero =>
      intro q qs j k ram ram' file file' r _ _ _ _ _ _ hrun
      cases hrun
  | succ turns ih =>
      intro q qs j k ram ram' file file' r hf hbase hj hcurr hend hload hrun
      rcases loadPages_turn mm isBss q qs j k ram file with ⟨n, hn, r₁, hr₁, hturn⟩
      rw [loadNodes_page mm links stray isBss turns q j k ram file n r₁ hn hr₁ hj
        (hbase q List.mem_cons_self) hcurr hend] at hrun
      rw [hturn] at hload
      by_cases hgo : 0 < k - n
      · rw [if_pos hgo] at hload hrun
        cases qs with
        | nil => cases hload
        | cons q' qs =>
            rcases List.isChain_cons_cons.mp hf with ⟨hnext, hrest⟩
            rw [hnext] at hrun
            -- A read leaves the file where its bytes are.
            have hfile : r₁.2.base = file.base ∧ r₁.2.size = file.size ∧
                r₁.2.curr ≤ file.base + file.size := by
              rw [hr₁]
              split_ifs
              · exact ⟨rfl, rfl, hcurr⟩
              · refine ⟨rfl, rfl, ?_⟩
                unfold ramdiskRead
                simp only
                omega
            refine ih q' qs 0 (k - n) r₁.1 ram' r₁.2 file' r hrest
              (fun p hp => hbase p (List.mem_cons_of_mem _ hp)) (by decide) ?_ ?_ hload hrun
            · rw [hfile.1, hfile.2.1]
              exact hfile.2.2
            · rw [hfile.1, hfile.2.1]
              exact hend
      · rw [if_neg hgo] at hload hrun
        rw [Option.some.injEq] at hload hrun
        rw [← hrun, hload]

end Loop

/-- The section is refused, and what was written before is in pages of the image. -/
def Refuses (k : Kernel) (links : Links PageNode) (stray : PageNode → Nat) (t : Nat)
    (file : RamFile) (s : ElfSection) : Prop :=
  ∃ ret file' k', k.loadElfSectionAt links stray t file s = some (ret, file', k') ∧ ret ≠ 0 ∧
    ∀ x, k'.ram x ≠ k.ram x → ∃ q ∈ (k.task t).mm.elfImageList,
      k.mm.pageIdToVa q ≤ x ∧ x < k.mm.pageIdToVa q + pageSize

/-- A section that passes the two tests is loaded somewhere. -/
theorem loadElfSectionAt_returns (k : Kernel) (links : Links PageNode) (stray : PageNode → Nat)
    (t : Nat) (file : RamFile) (s : ElfSection)
    (hring : Ring links (.elfImageList t) ((k.task t).mm.elfImageList.map .page))
    (haddr : processUserExecBase ≤ s.loadAddr) (hsize : s.size ≠ 0) :
    ∃ file' k', k.loadElfSectionAt links stray t file s = some (0, file', k') := by
  have hnull : PageNode.null ∉
      PageNode.elfImageList t :: (k.task t).mm.elfImageList.map PageNode.page := by
    simp
  rcases listNexts_ring links _ _ hring hnull ((s.loadAddr - processUserBase) / pageSize + 1) _
    List.mem_cons_self with ⟨list, _, hwalk⟩
  rcases loadNodes_returns k.mm links stray s.isBss list ((s.loadAddr - processUserBase) % pageSize)
    (Nat.mod_lt _ (by decide)) s.size k.ram (ramdiskSeek file s.offset) with ⟨ram', file', hload⟩
  unfold loadElfSectionAt
  rw [if_neg (not_or.mpr ⟨Nat.not_lt.mpr haddr, hsize⟩)]
  simp only [hwalk]
  exact ⟨_, _, Option.map_eq_some_iff.mpr ⟨_, hload, rfl⟩⟩

/-- What `load_elf_section` does with a section in the pages of the image is what it does
    on the pointers. -/
theorem loadElfSectionAt_eq (k k' : Kernel) (links : Links PageNode) (stray : PageNode → Nat)
    (t : Nat) (file file' : RamFile) (s : ElfSection) (ret : Int)
    (hring : Ring links (.elfImageList t) ((k.task t).mm.elfImageList.map .page))
    (hbase : ∀ q ∈ (k.task t).mm.elfImageList, (k.mm.pageTable q).freeBase + pageSize ≤ u32Size)
    (hend : file.base + file.size + pageSize < u32Size)
    (h : k.loadElfSection t file s = some (ret, file', k')) :
    k.loadElfSectionAt links stray t file s = some (ret, file', k') := by
  unfold loadElfSection at h
  by_cases hbad : s.loadAddr < processUserExecBase ∨ s.size = 0
  · rw [if_pos hbad] at h
    unfold loadElfSectionAt
    rw [if_pos hbad]
    exact h
  · rw [if_neg hbad] at h
    by_cases hbig : 0x80000000 ≤ s.size
    · rw [if_pos hbig] at h
      cases h
    · rw [if_neg hbig] at h
      rcases Option.bind_eq_some_iff.1 h with ⟨⟨ram, file₁⟩, hload, heq⟩
      simp only [Option.pure_def, Option.some.injEq, Prod.mk.injEq] at heq
      rcases heq with ⟨rfl, rfl, rfl⟩
      -- The walk ends on the page the sequence starts with.
      have hi : (s.loadAddr - processUserBase) / pageSize < (k.task t).mm.elfImageList.length := by
        by_contra hc
        rw [List.drop_of_length_le (Nat.not_lt.mp hc)] at hload
        cases hload
      rcases listNexts_drop links (.elfImageList t) _ _ _ (forward_of_linked links _ hring.2) hi with
        ⟨q, rest, hdrop, hwalk, hf⟩
      rw [hdrop] at hload
      have hmem : ∀ p ∈ q :: rest, p ∈ (k.task t).mm.elfImageList :=
        fun p hp => List.mem_of_mem_drop (hdrop ▸ hp)
      have hj : (s.loadAddr - processUserBase) % pageSize < pageSize := Nat.mod_lt _ (by decide)
      rcases loadNodes_returns k.mm links stray s.isBss (.page q) _ hj s.size k.ram
        (ramdiskSeek file s.offset) with ⟨ram', file', hret⟩
      have hint : toInt32 s.size = s.size := if_pos (Nat.not_le.mp hbig)
      rw [hint] at hret
      have hsame := loadNodes_eq k.mm links stray s.isBss (.elfImageList t) (s.size / pageSize + 2) q
        rest _ s.size k.ram ram (ramdiskSeek file s.offset) file₁ (0, ram', file') hf
        (fun p hp => hbase p (hmem p hp)) hj
        (Nat.add_le_add_left (Nat.min_le_left file.size s.offset) file.base) hend hload hret
      unfold loadElfSectionAt
      rw [if_neg hbad]
      simp only [hwalk, hint]
      refine Option.map_eq_some_iff.mpr ⟨_, hret, ?_⟩
      rw [hsame]

/-- A section that is not inside the image is refused if and only if it starts below the
    image or is empty. -/
theorem loadElfSectionAt_refuses (k : Kernel) (links : Links PageNode) (stray : PageNode → Nat)
    (t : Nat) (file : RamFile) (s : ElfSection)
    (hring : Ring links (.elfImageList t) ((k.task t).mm.elfImageList.map .page)) :
    (¬s.Contained → k.Refuses links stray t file s) ↔
      s.Contained ∨ s.loadAddr < processUserExecBase ∨ s.size = 0 := by
  constructor
  · intro hall
    by_contra hc
    rw [not_or, not_or, Nat.not_lt] at hc
    rcases hall hc.1 with ⟨ret, file', k', hret, hne, _⟩
    rcases loadElfSectionAt_returns k links stray t file s hring hc.2.1 hc.2.2 with
      ⟨file'', k'', hzero⟩
    -- It was loaded, so no error came back.
    rw [hret, Option.some.injEq, Prod.mk.injEq] at hzero
    exact hne hzero.1
  · rintro (hin | hbad) hout
    · exact absurd hin hout
    · refine ⟨errInval, file, k, ?_, by decide, fun x hx => absurd rfl hx⟩
      unfold loadElfSectionAt
      rw [if_pos hbad]

end Kernel

/-- There are pointers for the list of the image of a task. -/
theorem exists_imageLinks (t : Nat) (qs : List Nat) (hnodup : qs.Nodup) :
    ∃ links, Ring links (.elfImageList t) (qs.map PageNode.page) := by
  rcases exists_hangs (fun _ : Unit => PageNode.elfImageList t) PageNode.page (fun _ _ _ => rfl)
    (fun _ _ h => PageNode.page.inj h) (fun _ _ h => by cases h) (qs.map (fun q => ((), q)))
    (by simpa only [List.map_map, Function.comp_def, List.map_id'] using hnodup) with ⟨links, hl⟩
  have hring := hangs_ring _ _ _ _ _ hl () trivial
  rw [Kernel.filter_tagged, if_pos rfl] at hring
  exact ⟨links, hring⟩

theorem userKernel_image : ∃ links, Ring links (.elfImageList 0x80000900)
    (((userKernel (fun _ => 0#8)).task 0x80000900).mm.elfImageList.map PageNode.page) :=
  exists_imageLinks 0x80000900 (List.range' 40 256) List.nodup_range'

/-- A section in the page of the arguments is refused. -/
theorem loadElfSectionAt_refuses_low : ∃ links, (userKernel (fun _ => 0#8)).Refuses links
    (fun _ => 0) 0x80000900 twoPagesFile ⟨['.', 't', 'e', 'x', 't'], 0, 0x1000, 0x400000⟩ := by
  rcases userKernel_image with ⟨links, hring⟩
  exact ⟨links, (Kernel.loadElfSectionAt_refuses (userKernel (fun _ => 0#8)) links (fun _ => 0)
    0x80000900 twoPagesFile ⟨['.', 't', 'e', 'x', 't'], 0, 0x1000, 0x400000⟩ hring).mpr
      (Or.inr (Or.inl (by decide))) (fun hc => absurd hc.1 (by decide))⟩

/-- A section a page behind the end of the image is loaded over the page of the arguments,
    as the walk goes around. -/
theorem loadElfSectionAt_around : ∃ links file' k',
    Ring links (.elfImageList 0x80000900)
      (((userKernel (fun _ => 0#8)).task 0x80000900).mm.elfImageList.map PageNode.page) ∧
    ¬ElfSection.Contained ⟨['.', 't', 'e', 'x', 't'], 0, 0x1000, 0x501000⟩ ∧
    (userKernel (fun _ => 0#8)).loadElfSectionAt links (fun _ => 0) 0x80000900 twoPagesFile
      ⟨['.', 't', 'e', 'x', 't'], 0, 0x1000, 0x501000⟩ = some (0, file', k') := by
  rcases userKernel_image with ⟨links, hring⟩
  rcases Kernel.loadElfSectionAt_returns (userKernel (fun _ => 0#8)) links (fun _ => 0) 0x80000900
    twoPagesFile ⟨['.', 't', 'e', 'x', 't'], 0, 0x1000, 0x501000⟩ hring (by decide) (by decide) with
    ⟨file', k', hload⟩
  exact ⟨links, file', k', hring, fun hc => absurd hc.2 (by decide), hload⟩

end Mirros
