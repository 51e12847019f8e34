import Mirros.Theory.Task.Outside

/-!
# Where a Section Lands

`load_elf_section` cuts a section at the ends of the pages of the image, which need not
follow each other in the memory of the kernel. Its variable `j` is the offset in the first
page and then the length of the part, and the offset goes into the length only when there
is a page or more to go. A section shorter than a page that starts in the middle of one and
ends in the next is loaded in one piece, past the end of the first page.

Then its end is where it belongs only if the next page of the image happens to follow in
the memory of the kernel.

## Main definitions

* `byteAddr`: The address of a byte of the image, counted from the first page of a list.
* `Filled`: Some bytes have arrived, and the rest of memory is as it was.
* `Kernel.Placed`: A section, and the pages it is to be loaded into.
* `Kernel.Landed`: The section is where it belongs, and nothing else has changed.
* `Kernel.markedRam`: Memory that does not hold the section by chance.

## Theorems

* `loadPages_spec`: What the loop does when each part fits into its page.
* `userVa_image`: The user addresses of the image, by their pages.
* `loadElfSection_lands`: When a section lands where it belongs.
-/

namespace Mirros

namespace Kernel

/-- The address of a byte of the image, counted from the first page of a list. -/
def byteAddr (mm : Mm) (qs : List Nat) (m : Nat) : Option Nat :=
  (qs[m / pageSize]?).map (fun q => mm.pageIdToVa q + m % pageSize)

/-- From the byte `j` of the list on there are `k` bytes of `src`, and the rest of memory
    is as it was. -/
def Filled (mm : Mm) (qs : List Nat) (j k : Nat) (src : Nat → BitVec 8) (ram ram' : Ram) : Prop :=
  (∀ n < k, ∃ a, byteAddr mm qs (j + n) = some a ∧ ram' a = src n) ∧
    ∀ x, (∀ n < k, byteAddr mm qs (j + n) ≠ some x) → ram' x = ram x

/-- What is loaded: zeros, or the bytes of the file from where it stands. -/
def loadSource (isBss : Bool) (ram : Ram) (file : RamFile) (n : Nat) : BitVec 8 :=
  if isBss then 0#8 else ram (file.curr + n)

/-- The bytes to load are in the file, unless they are zeros. -/
def InFile (isBss : Bool) (file : RamFile) (k : Nat) : Prop :=
  isBss = false → file.curr + k ≤ file.base + file.size

/-- One part: what is written at an address, and where the file stands then. -/
theorem loadPart (isBss : Bool) (base n : Nat) (ram : Ram) (file : RamFile)
    (hfile : InFile isBss file n) (r : Ram × RamFile)
    (hr : r = if isBss then (memzero ram base n, file) else ramdiskRead ram file base n) :
    (∀ m < n, r.1 (base + m) = loadSource isBss ram file m) ∧
      (∀ x, ¬(base ≤ x ∧ x < base + n) → r.1 x = ram x) ∧
      (isBss = false → r.2 = { file with curr := file.curr + n }) := by
  cases isBss with
  | true =>
      rw [if_pos rfl] at hr
      subst hr
      refine ⟨fun m hm => ?_, fun x hx => if_neg hx, fun h => by cases h⟩
      unfold loadSource
      rw [if_pos rfl]
      exact if_pos (by omega)
  | false =>
      rw [if_neg Bool.false_ne_true] at hr
      have hin := hfile rfl
      have hmin : min n (file.base + file.size - file.curr) = n := by omega
      unfold ramdiskRead at hr
      simp only [hmin] at hr
      subst hr
      refine ⟨fun m hm => ?_, fun x hx => if_neg hx, fun _ => rfl⟩
      unfold loadSource memcpy
      simp only
      rw [if_neg Bool.false_ne_true, if_pos (by omega), Nat.add_sub_cancel_left]

section Load

variable (mm : Mm) (hplain : Mm.PlainMap mm) (isBss : Bool)

theorem byteAddr_first (q : Nat) (qs : List Nat) (m : Nat) (hm : m < pageSize) :
    byteAddr mm (q :: qs) m = some (mm.pageIdToVa q + m) := by
  unfold byteAddr
  rw [Nat.div_eq_of_lt hm, Nat.mod_eq_of_lt hm]
  rfl

theorem byteAddr_rest (q : Nat) (qs : List Nat) (m : Nat) :
    byteAddr mm (q :: qs) (pageSize + m) = byteAddr mm qs m := by
  unfold byteAddr
  rw [Nat.add_div_left _ (by decide), Nat.add_mod_left, List.getElem?_cons_succ]

/-- A byte of the pages of a list is in one of these pages. -/
theorem byteAddr_mem (qs : List Nat) (m a : Nat) (h : byteAddr mm qs m = some a) :
    ∃ q ∈ qs, mm.pageIdToVa q ≤ a ∧ a < mm.pageIdToVa q + pageSize := by
  rcases Option.map_eq_some_iff.mp h with ⟨q, hq, rfl⟩
  have hlt : m % pageSize < pageSize := Nat.mod_lt _ (by decide)
  exact ⟨q, List.mem_of_getElem? hq, by omega⟩

include hplain

/-- The loop of `load_elf_section` when a part of less than a page does not go over the
    end of its page. -/
theorem loadPages_spec (qs : List Nat) :
    ∀ (j k : Nat) (ram : Ram) (file : RamFile), 0 < k → j < pageSize →
      (k < pageSize → j + k ≤ pageSize) → j + k ≤ pageSize * qs.length → qs.Nodup →
      (∀ q ∈ qs, q < 32 * mm.mapWords ∧ (mm.pageTable q).freeBase = mm.pageIdToVa q) →
      InFile isBss file k →
      (isBss = false → ∀ n < k, ∀ q ∈ qs, ¬(mm.pageIdToVa q ≤ file.curr + n ∧
        file.curr + n < mm.pageIdToVa q + pageSize)) →
      ∃ ram' file', loadPages mm isBss qs j k ram file = some (ram', file') ∧
        Filled mm qs j k (loadSource isBss ram file) ram ram' := by
  induction qs with
  | nil =>
      intro j k ram file hk _ _ hlen
      rw [List.length_nil, Nat.mul_zero] at hlen
      omega
  | cons q qs ih =>
      intro j k ram file hk hj hpart hlen hnodup hpages hfile hapart
      rcases loadPages_turn mm isBss q qs j k ram file with ⟨n, hn, r, hr, hturn⟩
      have hle : n ≤ k ∧ j + n ≤ pageSize ∧ (n < k → j + n = pageSize) := by
        rw [hn]
        split_ifs <;> omega
      rw [(hpages q List.mem_cons_self).2] at hr
      rcases loadPart isBss _ n ram file (fun hb => by have := hfile hb; omega) r hr with
        ⟨hwrite, hframe, hcurr⟩
      rw [hturn]
      -- The first part is in the first page.
      have hfirst : ∀ m < n, byteAddr mm (q :: qs) (j + m) = some (mm.pageIdToVa q + j + m) := by
        intro m hm
        rw [byteAddr_first mm q qs (j + m) (by omega), Nat.add_assoc]
      by_cases hgo : 0 < k - n
      · rw [if_pos hgo]
        have hjn := hle.2.2 (by omega)
        have hnk : n + (k - n) = k := by omega
        rcases List.nodup_cons.mp hnodup with ⟨hq, hnodup'⟩
        have hrest : ∀ m, byteAddr mm (q :: qs) (j + (n + m)) = byteAddr mm qs (0 + m) := by
          intro m
          rw [← Nat.add_assoc, hjn, byteAddr_rest, Nat.zero_add]
        rcases ih 0 (k - n) r.1 r.2 hgo (by decide) (fun h => by omega) (by
            rw [List.length_cons, Nat.mul_succ] at hlen
            omega) hnodup' (fun p hp => hpages p (List.mem_cons_of_mem _ hp)) (fun hb => by
              rw [hcurr hb]
              have := hfile hb
              simp only
              omega) (fun hb m hm p hp => by
              rw [hcurr hb]
              simp only
              rw [Nat.add_assoc]
              exact hapart hb (n + m) (by omega) p (List.mem_cons_of_mem _ hp)) with
          ⟨ram', file', hload, hbytes, hkept⟩
        refine ⟨ram', file', hload, fun m hm => ?_, fun x hx => ?_⟩
        · by_cases hmn : m < n
          · -- The later pages are other ones.
            refine ⟨_, hfirst m hmn, ?_⟩
            rw [hkept _ (fun m' hm' hc => ?_), hwrite m hmn]
            rcases byteAddr_mem mm qs _ _ hc with ⟨p, hp, hlow, hhigh⟩
            have hap := Mm.pageIdToVa_apart mm hplain q p (hpages q List.mem_cons_self).1
              (hpages p (List.mem_cons_of_mem _ hp)).1 (fun hc' => hq (hc' ▸ hp))
            omega
          · rcases hbytes (m - n) (by omega) with ⟨a, ha, hval⟩
            refine ⟨a, ?_, ?_⟩
            · rw [← hrest, show n + (m - n) = m by omega] at ha
              exact ha
            · rw [hval]
              unfold loadSource
              split_ifs with hb
              · rfl
              · rw [hcurr (by simpa using hb)]
                have hsrc : file.curr + n + (m - n) = file.curr + m := by omega
                simp only [hsrc]
                have hap := hapart (by simpa using hb) m hm q List.mem_cons_self
                exact hframe _ (by omega)
        · rw [hkept x (fun m hm hc => hx (n + m) (by omega) (by rw [hrest]; exact hc))]
          refine hframe x (fun hin => ?_)
          refine hx (x - (mm.pageIdToVa q + j)) (by omega) ?_
          rw [hfirst _ (by omega), show mm.pageIdToVa q + j + (x - (mm.pageIdToVa q + j)) = x by omega]
      · rw [if_neg hgo]
        have hnk : n = k := by omega
        subst hnk
        refine ⟨r.1, r.2, rfl, fun m hm => ⟨_, hfirst m hm, hwrite m hm⟩, fun x hx => ?_⟩
        refine hframe x (fun hin => ?_)
        refine hx (x - (mm.pageIdToVa q + j)) (by omega) ?_
        rw [hfirst _ (by omega), show mm.pageIdToVa q + j + (x - (mm.pageIdToVa q + j)) = x by omega]

end Load

/-- The user addresses of the image, by their pages. -/
theorem userVa_image (mm : Mm) (ms : MmStruct) (va : Nat) (hlow : processUserBase ≤ va)
    (hhigh : va < processUserBase + processImageSize) :
    userVa mm ms va = byteAddr mm ms.elfImageList (va - processUserBase) := by
  unfold userVa byteAddr
  rw [if_pos ⟨hlow, hhigh⟩]
  have hmod : va % pageSize = (va - processUserBase) % pageSize := by
    unfold processUserBase pageSize at *
    omega
  rw [hmod]

theorem byteAddr_drop (mm : Mm) (qs : List Nat) (i m : Nat) :
    byteAddr mm (qs.drop i) m = byteAddr mm qs (i * pageSize + m) := by
  unfold byteAddr
  rw [List.getElem?_drop, Nat.mul_add_mod_self_right, Nat.add_comm (i * pageSize),
    Nat.add_mul_div_right _ _ (by decide), Nat.add_comm i]

/-- A section to be loaded into the image of a task: it is inside the image, its bytes are
    in the file and not in the pages they are to be loaded into. -/
structure Placed (k : Kernel) (t : Nat) (file : RamFile) (s : ElfSection) : Prop where
  plain : Mm.PlainMap k.mm
  image : (k.task t).mm.elfImageList.length = 256
  nodup : (k.task t).mm.elfImageList.Nodup
  pages : ∀ q ∈ (k.task t).mm.elfImageList,
    q < 32 * k.mm.mapWords ∧ (k.mm.pageTable q).freeBase = k.mm.pageIdToVa q
  low : processUserExecBase ≤ s.loadAddr
  high : s.loadAddr + s.size ≤ processUserBase + processImageSize
  size : 0 < s.size
  present : s.isBss = false → s.offset + s.size ≤ file.size
  apart : s.isBss = false → ∀ n < s.size, ∀ q ∈ (k.task t).mm.elfImageList,
    ¬(k.mm.pageIdToVa q ≤ file.base + s.offset + n ∧
      file.base + s.offset + n < k.mm.pageIdToVa q + pageSize)

/-- The section is loaded where it belongs, and the rest of memory is as it was. -/
def Landed (k : Kernel) (t : Nat) (file : RamFile) (s : ElfSection) : Prop :=
  ∃ file' k', k.loadElfSection t file s = some (0, file', k') ∧
    (∀ n < s.size, userByte k'.mm (k'.task t).mm k'.ram (s.loadAddr + n) =
      some (if s.isBss then 0#8 else k.ram (file.base + s.offset + n))) ∧
    ∀ x, (∀ n < s.size, userVa k.mm (k.task t).mm (s.loadAddr + n) ≠ some x) → k'.ram x = k.ram x

section Placed

variable (k : Kernel) (t : Nat) (file : RamFile) (s : ElfSection) (h : Placed k t file s)

include h

/-- The user addresses of the section, from its first page on. -/
theorem placed_userVa (n : Nat) (hn : n < s.size) :
    userVa k.mm (k.task t).mm (s.loadAddr + n) =
      byteAddr k.mm ((k.task t).mm.elfImageList.drop ((s.loadAddr - processUserBase) / pageSize))
        ((s.loadAddr - processUserBase) % pageSize + n) := by
  have hlow := h.low
  have hhigh := h.high
  have hbase : processUserBase ≤ s.loadAddr := by
    unfold processUserBase processUserExecBase at *
    omega
  rw [userVa_image _ _ _ (by omega) (by omega), byteAddr_drop]
  have hdiv := Nat.div_add_mod (s.loadAddr - processUserBase) pageSize
  rw [Nat.mul_comm] at hdiv
  rw [← Nat.add_assoc, hdiv, show s.loadAddr + n - processUserBase =
    s.loadAddr - processUserBase + n by omega]

/-- The loop of `load_elf_section` for such a section. -/
theorem placed_load : k.loadElfSection t file s =
    (loadPages k.mm s.isBss
      ((k.task t).mm.elfImageList.drop ((s.loadAddr - processUserBase) / pageSize))
      ((s.loadAddr - processUserBase) % pageSize) s.size k.ram (ramdiskSeek file s.offset)).map
        (fun r => (0, r.2, { k.setTaskMm t { (k.task t).mm with
          elfSize := add32 (k.task t).mm.elfSize s.size } with ram := r.1 })) := by
  have hlow := h.low
  have hhigh := h.high
  have hsize := h.size
  have hbig : ¬0x80000000 ≤ s.size := by
    unfold processUserExecBase processUserBase processImageSize pageSize at *
    omega
  unfold loadElfSection
  rw [if_neg (by omega), if_neg hbig, Option.map_eq_bind]
  rfl

/-- The section is where it belongs if and only if the loop has filled its bytes. -/
theorem landed_iff : k.Landed t file s ↔ ∃ ram' file',
    loadPages k.mm s.isBss
      ((k.task t).mm.elfImageList.drop ((s.loadAddr - processUserBase) / pageSize))
      ((s.loadAddr - processUserBase) % pageSize) s.size k.ram (ramdiskSeek file s.offset) =
        some (ram', file') ∧
    Filled k.mm ((k.task t).mm.elfImageList.drop ((s.loadAddr - processUserBase) / pageSize))
      ((s.loadAddr - processUserBase) % pageSize) s.size
      (loadSource s.isBss k.ram (ramdiskSeek file s.offset)) k.ram ram' := by
  have hva := placed_userVa k t file s h
  have hsrc : ∀ n, loadSource s.isBss k.ram (ramdiskSeek file s.offset) n =
      if s.isBss then 0#8 else k.ram (file.base + s.offset + n) := by
    intro n
    unfold loadSource ramdiskSeek
    split_ifs with hb
    · rfl
    · have hin := h.present (by simpa using hb)
      simp only [Nat.min_eq_right (show s.offset ≤ file.size by omega)]
  unfold Landed Filled
  rw [placed_load k t file s h]
  -- The lists of the task stay as they are, and so do the addresses.
  have hsame : ∀ (r : Ram × RamFile) (va : Nat),
      userVa ({ k.setTaskMm t { (k.task t).mm with
          elfSize := add32 (k.task t).mm.elfSize s.size } with ram := r.1 } : Kernel).mm
        (({ k.setTaskMm t { (k.task t).mm with
          elfSize := add32 (k.task t).mm.elfSize s.size } with ram := r.1 } : Kernel).task t).mm
        va = userVa k.mm (k.task t).mm va := by
    intro r va
    simp only [setTaskMm, setTask, Function.update_self]
    rfl
  constructor
  · rintro ⟨file', k', hload, hbytes, hframe⟩
    rcases Option.map_eq_some_iff.mp hload with ⟨r, hr, heq⟩
    simp only [Prod.mk.injEq, true_and] at heq
    rcases heq with ⟨-, rfl⟩
    refine ⟨r.1, r.2, hr, fun n hn => ?_, fun x hx => hframe x (fun n hn => ?_)⟩
    · have hbyte := hbytes n hn
      unfold userByte at hbyte
      rw [hsame, hva n hn] at hbyte
      rcases Option.map_eq_some_iff.mp hbyte with ⟨a, ha, hval⟩
      exact ⟨a, ha, by rw [hsrc]; exact hval⟩
    · rw [hva n hn]
      exact hx n hn
  · rintro ⟨ram', file', hload, hbytes, hframe⟩
    refine ⟨file', _, Option.map_eq_some_iff.mpr ⟨_, hload, rfl⟩, fun n hn => ?_, fun x hx =>
      hframe x (fun n hn => ?_)⟩
    · rcases hbytes n hn with ⟨a, ha, hval⟩
      unfold userByte
      rw [hsame (ram', file'), hva n hn, ha, ← hsrc, ← hval]
      rfl
    · rw [← hva n hn]
      exact hx n hn

/-- The first page of the section. The section is shorter than a page and ends in the next
    one, or it is loaded in parts that fit. -/
theorem placed_first (hover : ¬(s.loadAddr % pageSize + s.size ≤ pageSize ∨ pageSize ≤ s.size)) :
    ∃ q q' rest, (k.task t).mm.elfImageList.drop ((s.loadAddr - processUserBase) / pageSize) =
        q :: q' :: rest ∧ (s.loadAddr - processUserBase) % pageSize = s.loadAddr % pageSize := by
  have hlow := h.low
  have hhigh := h.high
  have hlen : 2 ≤ ((k.task t).mm.elfImageList.drop
      ((s.loadAddr - processUserBase) / pageSize)).length := by
    rw [List.length_drop, h.image]
    unfold processUserExecBase processUserBase processImageSize pageSize at *
    omega
  rcases hdrop : (k.task t).mm.elfImageList.drop ((s.loadAddr - processUserBase) / pageSize) with
    _ | ⟨q, _ | ⟨q', rest⟩⟩
  · rw [hdrop] at hlen
    exact absurd hlen (by decide)
  · rw [hdrop] at hlen
    exact absurd hlen (by simp)
  · refine ⟨q, q', rest, rfl, ?_⟩
    unfold processUserExecBase processUserBase pageSize at *
    omega

/-- A section in parts that fit into their pages. -/
theorem placed_fits (hfit : s.loadAddr % pageSize + s.size ≤ pageSize ∨ pageSize ≤ s.size) :
    k.Landed t file s := by
  have hlow := h.low
  have hhigh := h.high
  have hj : (s.loadAddr - processUserBase) % pageSize = s.loadAddr % pageSize := by
    unfold processUserExecBase processUserBase pageSize at *
    omega
  refine (landed_iff k t file s h).mpr (loadPages_spec k.mm h.plain s.isBss _ _ _ _ _ h.size
    (Nat.mod_lt _ (by decide)) (fun hlt => ?_) ?_ (h.nodup.sublist (List.drop_sublist _ _))
    (fun q hq => h.pages q (List.mem_of_mem_drop hq)) (fun hb => ?_) (fun hb n hn q hq => ?_))
  · rw [hj]
    omega
  · rw [List.length_drop, h.image]
    unfold processUserExecBase processUserBase processImageSize pageSize at *
    omega
  · have hin := h.present hb
    unfold ramdiskSeek
    simp only
    omega
  · have hin := h.present hb
    unfold ramdiskSeek
    simp only [Nat.min_eq_right (show s.offset ≤ file.size by omega)]
    exact h.apart hb n hn q (List.mem_of_mem_drop hq)

/-- A section loaded in one piece over the end of its first page. -/
theorem placed_over (hover : ¬(s.loadAddr % pageSize + s.size ≤ pageSize ∨ pageSize ≤ s.size))
    (q q' : Nat) (rest : List Nat)
    (hdrop : (k.task t).mm.elfImageList.drop ((s.loadAddr - processUserBase) / pageSize) =
      q :: q' :: rest) :
    ∃ r, loadPages k.mm s.isBss (q :: q' :: rest) (s.loadAddr % pageSize) s.size k.ram
        (ramdiskSeek file s.offset) = some r ∧
      (∀ m < s.size, r.1 (k.mm.pageIdToVa q + s.loadAddr % pageSize + m) =
        loadSource s.isBss k.ram (ramdiskSeek file s.offset) m) ∧
      ∀ x, ¬(k.mm.pageIdToVa q + s.loadAddr % pageSize ≤ x ∧
        x < k.mm.pageIdToVa q + s.loadAddr % pageSize + s.size) → r.1 x = k.ram x := by
  rcases loadPages_turn k.mm s.isBss q (q' :: rest) (s.loadAddr % pageSize) s.size k.ram
    (ramdiskSeek file s.offset) with ⟨n, hn, r, hr, hturn⟩
  have hns : n = s.size := by
    rw [hn, if_neg (by omega)]
  subst hns
  have hq : q ∈ (k.task t).mm.elfImageList :=
    List.mem_of_mem_drop (hdrop ▸ List.mem_cons_self)
  rw [(h.pages q hq).2] at hr
  rcases loadPart s.isBss _ s.size k.ram _ (fun hb => by
    have hin := h.present hb
    unfold ramdiskSeek
    simp only
    omega) r hr with ⟨hwrite, hframe, -⟩
  refine ⟨r, ?_, hwrite, hframe⟩
  rw [hturn, if_neg (by omega)]

/-- A section over the end of its first page lands, when the next page follows that page in
    the memory of the kernel. -/
theorem placed_next (hover : ¬(s.loadAddr % pageSize + s.size ≤ pageSize ∨ pageSize ≤ s.size))
    (q q' : Nat) (rest : List Nat)
    (hdrop : (k.task t).mm.elfImageList.drop ((s.loadAddr - processUserBase) / pageSize) =
      q :: q' :: rest)
    (hj : (s.loadAddr - processUserBase) % pageSize = s.loadAddr % pageSize)
    (hnext : k.mm.pageIdToVa q' = k.mm.pageIdToVa q + pageSize) : k.Landed t file s := by
  have hmod : s.loadAddr % pageSize < pageSize := Nat.mod_lt _ (by decide)
  rcases placed_over k t file s h hover q q' rest hdrop with ⟨r, hr, hwrite, hframe⟩
  have hbyte : ∀ n < s.size, byteAddr k.mm
      ((k.task t).mm.elfImageList.drop ((s.loadAddr - processUserBase) / pageSize))
      ((s.loadAddr - processUserBase) % pageSize + n) =
        some (k.mm.pageIdToVa q + s.loadAddr % pageSize + n) := by
    intro n hn
    rw [hdrop, hj]
    by_cases hin : s.loadAddr % pageSize + n < pageSize
    · rw [byteAddr_first k.mm q _ _ hin, Nat.add_assoc]
    · rw [show s.loadAddr % pageSize + n = pageSize + (s.loadAddr % pageSize + n - pageSize) by
        omega, byteAddr_rest, byteAddr_first k.mm q' rest _ (by omega), Option.some.injEq, hnext]
      omega
  refine (landed_iff k t file s h).mpr ⟨r.1, r.2, ?_, fun n hn => ?_, fun x hx => ?_⟩
  · rw [hdrop, hj]
    exact hr
  · exact ⟨_, hbyte n hn, hwrite n hn⟩
  · refine hframe x (fun hin => ?_)
    refine hx (x - (k.mm.pageIdToVa q + s.loadAddr % pageSize)) ?_ ((hbyte _ ?_).trans ?_)
    · exact Nat.sub_lt_left_of_lt_add hin.1 hin.2
    · exact Nat.sub_lt_left_of_lt_add hin.1 hin.2
    · exact congrArg some (Nat.add_sub_cancel' hin.1)

/-- A section over the end of its first page leaves the next page alone, when that page is
    elsewhere. So its first byte there was in memory before. -/
theorem placed_elsewhere
    (hover : ¬(s.loadAddr % pageSize + s.size ≤ pageSize ∨ pageSize ≤ s.size))
    (q q' : Nat) (rest : List Nat)
    (hdrop : (k.task t).mm.elfImageList.drop ((s.loadAddr - processUserBase) / pageSize) =
      q :: q' :: rest)
    (hj : (s.loadAddr - processUserBase) % pageSize = s.loadAddr % pageSize)
    (hnext : k.mm.pageIdToVa q' ≠ k.mm.pageIdToVa q + pageSize) (hland : k.Landed t file s) :
    k.ram (k.mm.pageIdToVa q') = loadSource s.isBss k.ram (ramdiskSeek file s.offset)
      (pageSize - s.loadAddr % pageSize) := by
  have hmod : s.loadAddr % pageSize < pageSize := Nat.mod_lt _ (by decide)
  rcases (landed_iff k t file s h).mp hland with ⟨ram', file', hload, hbytes, -⟩
  rcases placed_over k t file s h hover q q' rest hdrop with ⟨r, hr, -, hframe⟩
  rw [hdrop, hj, hr, Option.some.injEq] at hload
  subst hload
  rcases hbytes (pageSize - s.loadAddr % pageSize) (by omega) with ⟨a, ha, hval⟩
  rw [hdrop, hj, show s.loadAddr % pageSize + (pageSize - s.loadAddr % pageSize) = pageSize + 0 by
    omega, byteAddr_rest, byteAddr_first k.mm q' rest 0 (by decide), Option.some.injEq,
    Nat.add_zero] at ha
  have hsub := h.nodup.sublist (List.drop_sublist ((s.loadAddr - processUserBase) / pageSize) _)
  rw [hdrop] at hsub
  have hne : q ≠ q' := fun hc => (List.nodup_cons.mp hsub).1 (hc ▸ List.mem_cons_self)
  have hq : q ∈ (k.task t).mm.elfImageList :=
    List.mem_of_mem_drop (hdrop ▸ List.mem_cons_self)
  have hq' : q' ∈ (k.task t).mm.elfImageList :=
    List.mem_of_mem_drop (hdrop ▸ List.mem_cons_of_mem _ List.mem_cons_self)
  have hap := Mm.pageIdToVa_apart k.mm h.plain q q' (h.pages q hq).1 (h.pages q' hq').1 hne
  have hm := Mm.pageIdToVa_mod k.mm h.plain q
  have hm' := Mm.pageIdToVa_mod k.mm h.plain q'
  rw [ha, ← hval]
  refine (hframe a (fun hin => ?_)).symm
  rw [← ha] at hin
  unfold pageSize at *
  omega

/-- Memory in which the bytes of the section are ones and all others are zeros. For a
    section of zeros it has ones only. -/
def markedRam (file : RamFile) (s : ElfSection) : Ram := fun x =>
  if s.isBss = true ∨ ∃ n < s.size, x = file.base + s.offset + n then 1#8 else 0#8

/-- No page of the image starts with what the section is to put there. -/
theorem markedRam_ne (q : Nat) (hq : q ∈ (k.task t).mm.elfImageList) (n : Nat) (hn : n < s.size) :
    markedRam file s (k.mm.pageIdToVa q) ≠
      loadSource s.isBss (markedRam file s) (ramdiskSeek file s.offset) n := by
  cases hb : s.isBss with
  | true =>
      have hone : markedRam file s (k.mm.pageIdToVa q) = 1#8 := if_pos (Or.inl hb)
      rw [hone]
      exact (show (1#8 : BitVec 8) ≠ 0#8 by decide)
  | false =>
      have hin := h.present hb
      -- The file is in none of the pages.
      have hzero : markedRam file s (k.mm.pageIdToVa q) = 0#8 := by
        refine if_neg (fun hc => ?_)
        rcases hc with hc | ⟨m, hms, hm⟩
        · rw [hb] at hc
          cases hc
        · refine h.apart hb m hms q hq ?_
          rw [← hm]
          unfold pageSize
          omega
      have hone : loadSource false (markedRam file s) (ramdiskSeek file s.offset) n = 1#8 := by
        unfold loadSource ramdiskSeek
        rw [if_neg (by decide)]
        simp only [Nat.min_eq_right (show s.offset ≤ file.size by omega)]
        exact if_pos (Or.inr ⟨_, hn, rfl⟩)
      rw [hzero, hone]
      decide

end Placed

/-- Whatever memory holds, a section lands where it belongs, and nothing else changes, if
    and only if it ends in the page it starts in, or is as long as a page, or the next page
    of the image follows its first page in the memory of the kernel. -/
theorem loadElfSection_lands (k : Kernel) (t : Nat) (file : RamFile) (s : ElfSection)
    (h : Placed k t file s) :
    (∀ ram, (k.setRam ram).Landed t file s) ↔
      (s.loadAddr % pageSize + s.size ≤ pageSize ∨ pageSize ≤ s.size) ∨
      ∃ q q', (k.task t).mm.elfImageList[(s.loadAddr - processUserBase) / pageSize]? = some q ∧
        (k.task t).mm.elfImageList[(s.loadAddr - processUserBase) / pageSize + 1]? = some q' ∧
        k.mm.pageIdToVa q' = k.mm.pageIdToVa q + pageSize := by
  have hram : ∀ ram, Placed (k.setRam ram) t file s := fun ram =>
    ⟨h.plain, h.image, h.nodup, h.pages, h.low, h.high, h.size, h.present, h.apart⟩
  by_cases hfit : s.loadAddr % pageSize + s.size ≤ pageSize ∨ pageSize ≤ s.size
  · exact ⟨fun _ => Or.inl hfit, fun _ ram => placed_fits _ t file s (hram ram) hfit⟩
  · rcases placed_first k t file s h hfit with ⟨q, q', rest, hdrop, hj⟩
    have hdrop' : ∀ m, (k.task t).mm.elfImageList[(s.loadAddr - processUserBase) / pageSize + m]? =
        (q :: q' :: rest)[m]? := by
      intro m
      rw [← hdrop, List.getElem?_drop]
    have hget : (k.task t).mm.elfImageList[(s.loadAddr - processUserBase) / pageSize]? = some q := by
      have h0 := hdrop' 0
      rwa [Nat.add_zero, List.getElem?_cons_zero] at h0
    have hget' : (k.task t).mm.elfImageList[(s.loadAddr - processUserBase) / pageSize + 1]? =
        some q' := by
      rw [hdrop' 1, List.getElem?_cons_succ, List.getElem?_cons_zero]
    rw [or_iff_right hfit]
    constructor
    · intro hall
      refine ⟨q, q', hget, hget', ?_⟩
      by_contra hva
      -- The first byte of the next page.
      have hn : pageSize - s.loadAddr % pageSize < s.size := by
        have hmod : s.loadAddr % pageSize < pageSize := Nat.mod_lt _ (by decide)
        omega
      exact markedRam_ne k t file s h q' (List.mem_of_getElem? hget') _ hn
        (placed_elsewhere _ t file s (hram (markedRam file s)) hfit q q' rest hdrop hj hva
          (hall (markedRam file s)))
    · rintro ⟨p, p', hp, hp', hva⟩ ram
      rw [hget, Option.some.injEq] at hp
      rw [hget', Option.some.injEq] at hp'
      rw [← hp, ← hp'] at hva
      exact placed_next _ t file s (hram ram) hfit q q' rest hdrop hj hva

end Kernel

/-- A user task whose pages of the image are in falling order, next to a file. -/
def fallingKernel (ram : Ram) : Kernel :=
  (userKernel ram).setTaskMm 0x80000900
    { userTask.mm with elfImageList := (List.range' 40 256).reverse }

/-- Its file in the ramdisk. -/
def lowFile : RamFile :=
  ⟨0x80008000, 0x2000, 0x80008000⟩

theorem fallingKernel_placed (ram : Ram) (s : ElfSection) (hlow : processUserExecBase ≤ s.loadAddr)
    (hhigh : s.loadAddr + s.size ≤ processUserBase + processImageSize) (hsize : 0 < s.size)
    (hin : s.offset + s.size ≤ 0x2000) :
    Kernel.Placed (fallingKernel ram) 0x80000900 lowFile s := by
  have himage : ((fallingKernel ram).task 0x80000900).mm.elfImageList =
      (List.range' 40 256).reverse := by
    simp only [fallingKernel, Kernel.setTaskMm, Kernel.setTask, Function.update_self]
  -- The pages of the image are behind the file.
  have hpages : ∀ q ∈ (List.range' 40 256).reverse, 40 ≤ q ∧ q < 296 := by
    intro q hq
    rw [List.mem_reverse, List.mem_range'_1] at hq
    exact hq
  have hva : ∀ q, 40 ≤ q ∧ q < 296 → q < 32 * (fallingKernel ram).mm.mapWords ∧
      (fallingKernel ram).mm.pageIdToVa q = 0x80000000 + q * pageSize :=
    fun q hq => userKernel_page ram q (by omega)
  refine ⟨userKernel_plain ram, ?_, ?_, fun q hq => ?_, hlow, hhigh, hsize, fun _ => hin,
    fun _ n hn q hq => ?_⟩
  · rw [himage, List.length_reverse, List.length_range']
  · rw [himage, List.nodup_reverse]
    exact List.nodup_range'
  · rw [himage] at hq
    have hq' := hpages q hq
    exact ⟨(hva q hq').1, userKernel_base ram q (by omega)⟩
  · rw [himage] at hq
    have hq' := hpages q hq
    rw [(hva q hq').2]
    unfold lowFile pageSize
    simp only
    omega

/-- A section of two pages that starts in the middle of one lands where it belongs. -/
theorem loadElfSection_lands_pages :
    (fallingKernel (fun _ => 1#8)).Landed 0x80000900 lowFile
      ⟨['.', 'd', 'a', 't', 'a'], 0, 0x2000, 0x401f00⟩ :=
  (Kernel.loadElfSection_lands (fallingKernel (fun _ => 0#8)) 0x80000900 lowFile
    ⟨['.', 'd', 'a', 't', 'a'], 0, 0x2000, 0x401f00⟩
    (fallingKernel_placed _ _ (by decide) (by decide) (by decide) (by decide))).mpr
      (Or.inl (Or.inr (by decide))) (fun _ => 1#8)

/-- Memory with ones in the file, and zeros elsewhere. -/
def fileOfOnes : Ram :=
  fun x => if 0x80008000 ≤ x ∧ x < 0x8000a000 then 1#8 else 0#8

/-- A section of less than a page over the end of a page does not. -/
theorem loadElfSection_torn :
    Kernel.Placed (fallingKernel fileOfOnes) 0x80000900 lowFile
      ⟨['.', 'd', 'a', 't', 'a'], 0, 0x200, 0x401f00⟩ ∧
    ¬(fallingKernel fileOfOnes).Landed 0x80000900 lowFile
      ⟨['.', 'd', 'a', 't', 'a'], 0, 0x200, 0x401f00⟩ := by
  refine ⟨fallingKernel_placed _ _ (by decide) (by decide) (by decide) (by decide), ?_⟩
  rintro ⟨file', k', hload, hbytes, -⟩
  have heval : ((fallingKernel fileOfOnes).loadElfSection 0x80000900 lowFile
      ⟨['.', 'd', 'a', 't', 'a'], 0, 0x200, 0x401f00⟩).map (fun r =>
        Kernel.userByte r.2.2.mm (r.2.2.task 0x80000900).mm r.2.2.ram 0x402000) = some (some 0#8) := by
    decide +kernel
  rw [hload, Option.map_some, Option.some.injEq] at heval
  have hbyte := hbytes 0x100 (by decide)
  rw [show 0x401f00 + 0x100 = 0x402000 from rfl, heval] at hbyte
  exact absurd hbyte (by decide)

end Mirros
