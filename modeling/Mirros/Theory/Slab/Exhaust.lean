import Mirros.Theory.Slab.Grows
import Mirros.Theory.Slab.OneList

/-!
# Running Out of Headers

What `kmalloc` does when no page is left for headers. Headers and blocks come from the same
zone, so when `get_slab_from_page_free` gets no header, there is no page for a new block
either and the call returns the null pointer.

`get_kernel_slab` is different. It takes the pages of the block first. When there is no
header for the slice, it returns the block although the free part of the last page still
starts where that page does, and makes that page the current one: a later slice is cut from
the middle of the block. When there is no header for a remainder, the null pointer is put on
a cache list, and the call does not come back.

## Main definitions

* `headerMissing`: The calls in which there is no header.
* `noPagesLeft`: There are no pages for the block either.
* `LaterCall`, `later`: What can happen to a block that is not freed.
* `Recovered`: There is a page for headers again.
* `HandsOut`: A part of a block is handed out.

## Theorems

* `getKernelSlab_noHeader`: The state after a block was returned without a header.
* `kmalloc_recovered`: The later call that returns a part of the block.
* `kmalloc_exhausted`: What a call without a header does.
-/

namespace Mirros

namespace Slab

/-- `get_new_slab_header` returned the null pointer. -/
def noHeader : Option (Option Nat × Slab) → Bool
  | some (none, _) => true
  | _ => false

/-- `get_slab_from_page_free` asks for a header and gets none. -/
def pageFreeMissing (s : Slab) (size : Nat) : Bool :=
  match s.slabPageCurrent with
  | none => false
  | some pg =>
      (s.mm.pageState pg).any (fun state => state ≠ 0) &&
        (size ≤ (s.mm.pageTable pg).freeSize && noHeader s.getNewSlabHeader)

/-- `get_new_slab_header` returns the null pointer in the call. Only requests for kernel
    memory ask for headers. -/
def headerMissing (s : Slab) (size : Int) (flag : Nat) : Bool :=
  decide (0 < size ∧ flag = gfpKernel) &&
    ((s.atPageFree size.toNat).any
        (fun s => s.pageFreeMissing (getNewAllocSize size.toNat gfpKernel)) ||
      (s.atNewSlab size.toNat).any
        (fun s => s.outOfHeaders (getNewAllocSize size.toNat gfpKernel)))

end Slab

/-- What can happen after a block was returned: requests for memory, and pages that are
    given back. -/
inductive LaterCall where
  | kmalloc (size : Int) (flag : Nat)
  | freePages (addr : Nat)
  deriving DecidableEq, Repr

namespace Slab

/-- Make a call, with the returned address as the result. -/
def later (s : Slab) : LaterCall → Option (Nat × Slab)
  | .kmalloc size flag => s.kmalloc size flag
  | .freePages addr => do
      let mm ← s.mm.freePages addr
      return (0, { s with mm := mm })

/-- The pages of a block. -/
def pagesOf (s : Slab) (p size : Nat) : List Nat :=
  List.range' (s.mm.vaToPageId p) (pageNr size)

/-- The pages stay in use. -/
def keepsPages (pages : List Nat) (s : Slab) (c : LaterCall) (_ : Nat) : Prop :=
  ∀ r ∈ s.later c, ∀ q ∈ pages, used r.2.mm.pageMap q = true

instance (pages : List Nat) (s : Slab) (c : LaterCall) (addr : Nat) :
    Decidable (keepsPages pages s c addr) :=
  inferInstanceAs (Decidable (∀ r ∈ s.later c, ∀ q ∈ pages, used r.2.mm.pageMap q = true))

/-- A request is answered with a byte of the block. -/
def HandsOut (s : Slab) (p size : Nat) : Prop :=
  ∃ (n off : Nat) (s' : Slab), off < size ∧ add32 p off ≠ 0 ∧
    s.kmalloc n gfpKernel = some (add32 p off, s')

/-- `get_new_slab` is not reached, or the page allocator has no pages for the block. -/
def noPagesLeft (s : Slab) (size : Nat) : Prop :=
  ∀ s' ∈ s.atNewSlab size, ∃ mm,
    s'.mm.getFreePages (pageNr (getNewAllocSize size gfpKernel)) gfpKernel = some (0, mm)

/-- Pages were given back, so that there is one for headers again. Nothing was cut from the
    current page, and the slices of some size that were cached are used up. -/
structure Recovered (s s' : Slab) : Prop where
  unlocked : s'.slabMutex = 0
  table : s'.table = s.table
  current : s'.slabPageCurrent = s.slabPageCurrent
  entry : ∀ pg, s.slabPageCurrent = some pg → s'.mm.pageTable pg = s.mm.pageTable pg
  noFree : isListEmpty s'.mm.links .freeHeader = true
  usedUp : ∃ i < slabNode, isListEmpty s'.mm.links (.cache i) = true
  page : ∃ base mm, s'.mm.getFreePage gfpSlabHeader = some (base, mm) ∧ base ≠ 0

end Slab

/-- The addresses of the pages of the map are 32-bit words. -/
structure AddressesFit (mm : Mm) : Prop where
  start : mm.kernelStart < u32Size
  fit : mm.kernelStart + 32 * mm.mapWords * pageSize ≤ u32Size

instance (mm : Mm) : Decidable (AddressesFit mm) :=
  decidable_of_iff (mm.kernelStart < u32Size ∧
    mm.kernelStart + 32 * mm.mapWords * pageSize ≤ u32Size)
    ⟨fun h => ⟨h.1, h.2⟩, fun h => ⟨h.start, h.fit⟩⟩

theorem words_of_fit (mm : Mm) (h : AddressesFit mm) : 32 * mm.mapWords ≤ 2 ^ 20 := by
  have hfit := h.fit
  unfold pageSize u32Size at hfit
  omega

/-- No page behind the first has the address zero. -/
theorem pageIdToVa_of_fit (mm : Mm) (h : AddressesFit mm) (p : Nat) (hp : p < 32 * mm.mapWords) :
    mm.pageIdToVa p = mm.kernelStart + p * pageSize := by
  have hfit := h.fit
  unfold Mm.pageIdToVa add32
  unfold pageSize u32Size at *
  omega

/-- The null pointer is returned for no other reason than that there are no pages, and then
    nothing changes. -/
theorem getFreePages_null (mm mm' : Mm) (h : AddressesFit mm) (count : Int) (hcount : 1 ≤ count)
    (flag : Nat) (hrun : mm.getFreePages count flag = some (0, mm')) : mm' = mm := by
  rcases Mm.getFreePages_cases mm mm' count flag 0 hrun with
    ⟨_, hmm⟩ | ⟨_, index, _, _, _, hne, haddr, htook⟩
  · exact hmm
  · have hbound := htook.bound
    have hva := pageIdToVa_of_fit mm h index (by omega)
    rw [← haddr] at hva
    unfold pageSize at hva
    omega

/-- What the flag is used for besides the zone has no part in the result. -/
theorem getFreePages_flag (mm : Mm) (count : Int) (flag flag' : Nat)
    (hzone : zoneIdOfFlag flag = zoneIdOfFlag flag') :
    (mm.getFreePages count flag).map Prod.fst = (mm.getFreePages count flag').map Prod.fst := by
  unfold Mm.getFreePages Mm.doGetFreePages
  rw [hzone]
  by_cases hcount : count ≤ 0
  · rw [if_pos hcount, if_pos hcount]
  rw [if_neg hcount, if_neg hcount]
  rcases zoneOfId (zoneIdOfFlag flag') with _ | z
  · rfl
  simp only [Mm.initPages_eq, Option.pure_def, Option.bind_eq_bind, Option.map_bind]
  congr 1
  funext mm₁
  simp only [Function.comp_apply]
  split
  · rfl
  rw [Option.map_bind, Option.map_bind]
  congr 1
  funext index
  simp only [Function.comp_apply]
  split
  · rfl
  rw [Option.map_bind, Option.map_bind]
  rfl

/-- When there is no page for headers there is none for a block. -/
theorem getFreePages_kernel (mm mm' : Mm) (hrun : mm.getFreePage gfpSlabHeader = some (0, mm')) :
    ∃ mm'', mm.getFreePages (1 : Nat) gfpKernel = some (0, mm'') := by
  have hflag := getFreePages_flag mm 1 gfpSlabHeader gfpKernel (by decide)
  unfold Mm.getFreePage at hrun
  rw [hrun] at hflag
  rcases Option.map_eq_some_iff.mp hflag.symm with ⟨⟨addr, mm''⟩, hget, haddr⟩
  simp only at haddr
  rw [haddr] at hget
  exact ⟨mm'', hget⟩

/-- There is no header when no header was given back, the header page is used up and there
    is no page for another one. -/
theorem getNewSlabHeader_none (s s' : Slab) (h : s.getNewSlabHeader = some (none, s')) :
    isListEmpty s.mm.links .freeHeader = true ∧
      (if s.table.headerInPage < pageSize / slabHeaderSize then s.table.tablePageCurrent
        else none) = none ∧
      ∃ mm, s.mm.getFreePage gfpSlabHeader = some (0, mm) ∧ s' = { s with mm := mm } := by
  unfold Slab.getNewSlabHeader at h
  by_cases hempty : isListEmpty s.mm.links .freeHeader = true
  swap
  · simp only [hempty, Bool.not_false, if_true] at h
    rcases hnext : s.mm.links.next .freeHeader with _ | a | _ | _ | _ | _ | _ | _ | _
    case header =>
      simp only [hnext, Option.some.injEq, Prod.mk.injEq, reduceCtorEq, false_and] at h
    all_goals
      simp only [hnext] at h
      exact absurd h.symm (Option.some_ne_none _)
  simp only [hempty, Bool.not_true, Bool.false_eq_true, if_false] at h
  rcases hslot : (if s.table.headerInPage < pageSize / slabHeaderSize then
      s.table.tablePageCurrent else none) with _ | q
  swap
  · simp only [hslot, Option.some.injEq, Prod.mk.injEq, reduceCtorEq, false_and] at h
  simp only [hslot, Option.pure_def, Option.bind_eq_bind, Option.bind_eq_some_iff,
    Prod.exists] at h
  rcases h with ⟨base, mm, hget, h⟩
  by_cases hzero : base = 0
  · rw [if_pos hzero, Option.some.injEq, Prod.mk.injEq] at h
    exact ⟨hempty, rfl, mm, hzero ▸ hget, h.2.symm⟩
  · simp only [if_neg hzero, Option.some.injEq, Prod.mk.injEq, reduceCtorEq, false_and] at h

/-- When there is no header, asking again gives none either. -/
theorem getNewSlabHeader_again (s s' : Slab) (hmm : AddressesFit s.mm)
    (h : s.getNewSlabHeader = some (none, s')) (current : Option Nat) :
    s' = s ∧ { s with slabPageCurrent := current }.getNewSlabHeader
      = some (none, { s with slabPageCurrent := current }) := by
  rcases getNewSlabHeader_none s s' h with ⟨hempty, hslot, mm, hget, hs'⟩
  have hsame : mm = s.mm := getFreePages_null s.mm mm hmm 1 (le_refl 1) gfpSlabHeader hget
  rw [hsame] at hs' hget
  refine ⟨hs', ?_⟩
  unfold Slab.getNewSlabHeader
  simp only [hempty, Bool.not_true, Bool.false_eq_true, if_false, hslot, hget, Option.pure_def,
    Option.bind_eq_bind, Option.bind_some, if_true]

/-- A remainder without a header is a call that does not come back. -/
theorem updateSlabFreePage_missing (s : Slab) (pg : Nat) (h : s.remainderMissing pg = true) :
    s.updateSlabFreePage pg = none := by
  unfold Slab.remainderMissing at h
  rcases hd : s.displaced pg with _ | ⟨old, s₀⟩
  · simp only [hd, Bool.false_eq_true] at h
  simp only [hd] at h
  rcases displaced_cases s s₀ pg old hd with ⟨_, new, _, hchoose, hbig, hs₀, _⟩
  rw [hs₀] at h
  unfold Slab.updateSlabFreePage
  simp only [hchoose, if_pos hbig, Option.pure_def, Option.bind_eq_bind]
  rcases hslab : { s with slabPageCurrent := some new }.getSlabFromPage old
      (s.mm.pageTable old).freeSize with _ | ⟨_ | a, s₁⟩
  · rw [hslab, Option.bind_none]
  · rw [hslab, Option.bind_some]
  · rw [hslab] at h
    exact absurd h Bool.false_ne_true

/-- When there is no header and the call comes back, the new page is the current one: it has
    all its room, and no remainder was cut off. -/
theorem updateSlabFreePage_noHeader (s s' : Slab) (pg : Nat) (hmm : AddressesFit s.mm)
    (hheader : s.getNewSlabHeader = some (none, s))
    (hfull : (s.mm.pageTable pg).freeSize = pageSize) (hrun : s.updateSlabFreePage pg = some s') :
    s' = { s with slabPageCurrent := some pg } := by
  have hdisplaced : s.displaced pg = none := by
    rcases hd : s.displaced pg with _ | ⟨old, s₀⟩
    · rfl
    rcases displaced_cases s s₀ pg old hd with ⟨_, new, _, _, _, hs₀, _⟩
    have hmissing : s.remainderMissing pg = true := by
      unfold Slab.remainderMissing Slab.getSlabFromPage
      simp only [hd, hs₀, (getNewSlabHeader_again s s hmm hheader (some new)).2, Option.pure_def,
        Option.bind_eq_bind, Option.bind_some]
    rw [updateSlabFreePage_missing s pg hmissing] at hrun
    exact absurd hrun.symm (Option.some_ne_none s')
  rcases updateSlabFreePage_cases s s' pg hrun with hs' | ⟨_, _, _, _, _, hd, _⟩
  swap
  · exact absurd (hdisplaced.symm.trans hd).symm (Option.some_ne_none _)
  have hnew : (s.choosePage pg).1 = pg := by
    unfold Slab.displaced at hdisplaced
    unfold Slab.choosePage at hdisplaced ⊢
    rcases hcur : s.slabPageCurrent with _ | cur
    · rfl
    simp only [hcur] at hdisplaced ⊢
    by_cases hlt : (s.mm.pageTable cur).freeSize < (s.mm.pageTable pg).freeSize
    · rw [if_pos hlt]
    · -- The new page would be displaced itself.
      rw [if_neg hlt] at hdisplaced
      simp only [hfull] at hdisplaced
      rw [if_pos (by decide)] at hdisplaced
      exact absurd hdisplaced (Option.some_ne_none _)
  rw [hs', hnew]

/-- Opening the last page of a block leaves its free part alone. -/
theorem markRun_last (s : Slab) (base size pg : Nat) (hpg : Slab.lastPage s.mm base size = pg)
    (hother : 1 < pageNr size → pg ≠ s.mm.vaToPageId base) :
    ((s.markRun base size).mm.pageTable pg).freeBase = (s.mm.pageTable pg).freeBase ∧
      ((s.markRun base size).mm.pageTable pg).freeSize = (s.mm.pageTable pg).freeSize := by
  unfold Slab.markRun
  rw [hpg]
  by_cases hmany : 1 < pageNr size
  · -- The entry of the first page is written too, and that is another one.
    rw [if_pos hmany]
    simp only [Slab.openSlabPage, Slab.shortenRun, Mm.setPage, Function.update_self,
      Function.update_of_ne (hother hmany), and_self]
  · rw [if_neg hmany]
    simp only [Slab.openSlabPage, Mm.setPage, Function.update_self, and_self]

section

variable (s : Slab) (hmm : AddressesFit s.mm) (size : Nat) (hlow : 0 < size)
  (hhigh : size < 2 ^ 31 + 16)

include hmm hlow hhigh

/-- The last page of a block, when it is opened: nothing was cut from it. -/
theorem markRun_fresh (mm : Mm) (base : Nat) (hne : base ≠ 0)
    (hget : s.mm.getFreePages (pageNr size) gfpKernel = some (base, mm)) :
    ∃ index, base = s.mm.pageIdToVa index ∧ 0 < index ∧ index + pageNr size ≤ 32 * s.mm.mapWords ∧
      Slab.lastPage mm base size = index + (pageNr size - 1) ∧
      mm.kernelStart = s.mm.kernelStart ∧ mm.mapWords = s.mm.mapWords ∧
      (∀ q, index ≤ q → q < index + pageNr size → used mm.pageMap q = true) ∧
      (((Slab.markRun { s with mm := mm } base size).mm.pageTable
        (Slab.lastPage mm base size)).freeBase = s.mm.pageIdToVa (Slab.lastPage mm base size) ∧
      ((Slab.markRun { s with mm := mm } base size).mm.pageTable
        (Slab.lastPage mm base size)).freeSize = pageSize) := by
  have hone : 1 ≤ pageNr size := by
    rw [pageNr_eq size hhigh]
    omega
  have hwords := words_of_fit s.mm hmm
  have hstart := hmm.start
  rcases Mm.getFreePages_cases s.mm mm _ gfpKernel base hget with
    ⟨hzero, _⟩ | ⟨z, index, _, _, _, hindex, haddr, htook⟩
  · exact absurd hzero hne
  rw [Int.toNat_natCast] at htook
  have hbound := htook.bound
  have hid : ∀ k, index + k < 32 * s.mm.mapWords →
      mm.vaToPageId (add32 base (k * pageSize)) = index + k := by
    intro k hk
    have hva : add32 base (k * pageSize) = s.mm.pageIdToVa (index + k) := by
      rw [haddr]
      unfold Mm.pageIdToVa add32 u32Size pageSize
      omega
    rw [hva, vaToPageId_of_start s.mm mm htook.start]
    exact Mm.vaToPageId_pageIdToVa s.mm _ hstart (by omega)
  have hfirst : mm.vaToPageId base = index := by
    rw [haddr, vaToPageId_of_start s.mm mm htook.start]
    exact Mm.vaToPageId_pageIdToVa s.mm _ hstart (by omega)
  have hlast : Slab.lastPage mm base size = index + (pageNr size - 1) := by
    unfold Slab.lastPage
    exact hid (pageNr size - 1) (by omega)
  have hentry := htook.table (index + (pageNr size - 1))
  rw [if_pos (by omega)] at hentry
  refine ⟨index, haddr, Nat.pos_of_ne_zero hindex, by omega, hlast, htook.start, htook.words,
    fun q hq hq' => ?_, ?_⟩
  · rw [htook.bits, if_pos ⟨hq, hq'⟩]
  rcases markRun_last { s with mm := mm } base size _ hlast
    (fun hmany hc => by rw [hfirst] at hc; omega) with ⟨hbase, hsize⟩
  rw [hlast, hbase, hsize, hentry]
  exact ⟨rfl, rfl⟩

/-- A block that was returned without a header: its last page is the current one and still
    free as a whole. -/
theorem getKernelSlab_noHeader (s' : Slab) (ret : Nat) (hout : s.outOfHeaders size = true)
    (hrun : s.getKernelSlab size gfpKernel = some (ret, s')) :
    ∃ mm, s.mm.getFreePages (pageNr size) gfpKernel = some (ret, mm) ∧ ret ≠ 0 ∧
      (Slab.markRun { s with mm := mm } ret size).getNewSlabHeader
        = some (none, Slab.markRun { s with mm := mm } ret size) ∧
      s' = { Slab.markRun { s with mm := mm } ret size with
        slabPageCurrent := some (Slab.lastPage mm ret size) } := by
  unfold Slab.outOfHeaders at hout
  rcases hopen : s.openedPage size with _ | ⟨pg, s₁⟩
  · rw [hopen, Option.any_none] at hout
    exact absurd hout Bool.false_ne_true
  rw [hopen, Option.any_some] at hout
  have hpart := openedPage_part s s₁ size pg hopen
  rcases Slab.getKernelSlab_cases s s' size gfpKernel ret hrun with
    ⟨mm, hget, ⟨hwhole, _⟩ | ⟨_, hne, header, s₂, hslice, hupdate⟩⟩
  · unfold Slab.openedPage at hopen
    simp only [hget, Option.pure_def, Option.bind_eq_bind, Option.bind_some] at hopen
    rw [if_pos hwhole] at hopen
    exact absurd hopen.symm (Option.some_ne_none _)
  rcases markRun_fresh s hmm size hlow hhigh mm ret hne hget with
    ⟨_, _, _, _, _, hstart, hwords, _, _, hfull⟩
  have hfit : AddressesFit (Slab.markRun { s with mm := mm } ret size).mm := by
    rcases Slab.markRun_frame { s with mm := mm } ret size with ⟨table, htable⟩
    rw [htable]
    exact ⟨hstart ▸ hmm.start, by simpa only [hstart, hwords] using hmm.fit⟩
  rw [openedPage_of_get s size ret mm hpart hne hget, Option.some.injEq, Prod.mk.injEq] at hopen
  rw [← leaveSize_def, hopen.1, hopen.2] at hslice
  rw [hslice] at hout
  rw [hopen.1] at hupdate hfull
  rw [hopen.2] at hfit hfull
  rcases header with _ | a
  swap
  · rw [updateSlabFreePage_missing s₂ pg hout] at hupdate
    exact absurd hupdate.symm (Option.some_ne_none _)
  have hheader := getSlabFromPage_none s₁ s₂ pg _ hslice
  have hs₂ := (getNewSlabHeader_again s₁ s₂ hfit hheader none).1
  rw [hs₂] at hheader hupdate
  have hs' := updateSlabFreePage_noHeader s₁ s' pg hfit hheader hfull hupdate
  rw [← hopen.1, ← hopen.2] at hs'
  rw [← hopen.2] at hheader
  exact ⟨mm, hget, hne, hheader, hs'⟩

end

/-- A header from a new page. The entries of the pages in use are as they were. -/
theorem getNewSlabHeader_newPage (s : Slab) (hmm : AddressesFit s.mm)
    (hempty : isListEmpty s.mm.links .freeHeader = true)
    (hslot : (if s.table.headerInPage < pageSize / slabHeaderSize then s.table.tablePageCurrent
      else none) = none) (base : Nat) (mm : Mm)
    (hget : s.mm.getFreePage gfpSlabHeader = some (base, mm)) (hne : base ≠ 0) :
    ∃ a s₁, s.getNewSlabHeader = some (some a, s₁) ∧
      ∀ p, used s.mm.pageMap p = true → s₁.mm.pageTable p = s.mm.pageTable p := by
  unfold Slab.getNewSlabHeader
  simp only [hempty, Bool.not_true, Bool.false_eq_true, if_false, hslot, hget, Option.pure_def,
    Option.bind_eq_bind, Option.bind_some, if_neg hne]
  refine ⟨_, _, rfl, fun p hp => ?_⟩
  have hwords := words_of_fit s.mm hmm
  rcases Mm.getFreePages_cases s.mm mm 1 gfpSlabHeader base hget with
    ⟨hzero, _⟩ | ⟨z, q, _, _, hfind, hq, haddr, htook⟩
  · exact absurd hzero hne
  have hclear := findContinousPages_one s.mm _ q hwords hfind hq
  have hother := ne_of_used _ p q hp hclear
  have hid : mm.vaToPageId base = q := by
    have hbound := htook.bound
    rw [haddr, vaToPageId_of_start s.mm mm htook.start]
    exact first_of_bound s.mm q 1 hmm.start hwords (by omega) hbound
  have hentry := htook.table p
  rw [if_neg (by rw [Int.toNat_one]; omega)] at hentry
  have hid' : (Slab.startHeaderPage { s with mm := mm } base).mm.vaToPageId base = q := hid
  rw [hid']
  simp only [Slab.startHeaderPage, Slab.getSlabHeaderFromPage, Slab.bumpPage, Slab.pageGet,
    Mm.pageGet, Mm.setPage, hid, Function.update_of_ne hother, hentry]

/-- A slice of the current page. -/
theorem getSlabFromPageFree_cut (s s₁ : Slab) (pg size a : Nat)
    (hcur : s.slabPageCurrent = some pg) (hpg : pg < 32 * s.mm.mapWords)
    (hset : used s.mm.pageMap pg = true) (hroom : size ≤ (s.mm.pageTable pg).freeSize)
    (hheader : s.getNewSlabHeader = some (some a, s₁))
    (hentry : s₁.mm.pageTable pg = s.mm.pageTable pg) :
    s.getSlabFromPageFree size
      = some ((s.mm.pageTable pg).freeBase, s₁.takeSlice pg size a) := by
  have hstate : s.mm.pageState pg = some (readBit s.mm.pageMap pg) := by
    unfold Mm.pageState Mm.inMap
    rw [if_pos (decide_eq_true (by omega))]
  have hbit : readBit s.mm.pageMap pg ≠ 0 := by
    rw [ne_eq, readBit_eq_zero_iff, hset]
    exact Bool.true_eq_false.mp
  unfold Slab.getSlabFromPageFree
  simp only [hcur, hstate, Option.pure_def, Option.bind_eq_bind, Option.bind_some, if_neg hbit,
    if_neg (Nat.not_lt.mpr hroom), hheader]
  rw [takeSlice_eq]
  simp only [Function.update_self, hentry]

/-- A small request the cache list has nothing for and the current page does. -/
theorem doKmalloc_fromPage (s s₁ s₂ s₃ : Slab) (size ret : Nat) (hsmall : size < pageSize)
    (hlock : s.lock = some s₁)
    (hinList : s₁.getSlabInList (getNewAllocSize size gfpKernel) gfpKernel = some (0, s₂))
    (hinPage : s₂.getSlabFromPageFree (getNewAllocSize size gfpKernel) = some (ret, s₃))
    (hret : ret ≠ 0) : s.doKmalloc size gfpKernel = some (ret, s₃.unlock) := by
  have hnot : ¬(gfpKernel = gfpDma ∨ gfpKernel = gfpRes ∨ pageSize ≤ size) := by
    rintro (hc | hc | hc)
    · exact absurd hc (by decide)
    · exact absurd hc (by decide)
    · omega
  unfold Slab.doKmalloc
  simp only [hlock, Option.pure_def, Option.bind_eq_bind, Option.bind_some]
  refine (if_neg hnot).trans ?_
  rw [hinList, Option.bind_some]
  refine (if_neg (not_not.mpr rfl)).trans ?_
  simp only [hinPage, Option.bind_some]
  exact if_pos hret

/-- The next small request is cut from the start of a current page that is free as a whole. -/
theorem kmalloc_recovered (s : Slab) (hmm : AddressesFit s.mm) (pg i : Nat)
    (hcur : s.slabPageCurrent = some pg) (hpg : pg < 32 * s.mm.mapWords)
    (hset : used s.mm.pageMap pg = true) (hfull : (s.mm.pageTable pg).freeSize = pageSize)
    (hbase : (s.mm.pageTable pg).freeBase ≠ 0) (hunlocked : s.slabMutex = 0)
    (hempty : isListEmpty s.mm.links .freeHeader = true)
    (hslot : (if s.table.headerInPage < pageSize / slabHeaderSize then s.table.tablePageCurrent
      else none) = none)
    (hpage : ∃ base mm, s.mm.getFreePage gfpSlabHeader = some (base, mm) ∧ base ≠ 0)
    (hi : i < slabNode) (hcache : isListEmpty s.mm.links (.cache i) = true) :
    ∃ s', s.kmalloc (16 * (i + 1) : Nat) gfpKernel = some ((s.mm.pageTable pg).freeBase, s') := by
  have hmax : 16 * (i + 1) ≤ slabMax := by
    unfold slabMax slabStep
    omega
  have hround : getNewAllocSize (16 * (i + 1)) gfpKernel = 16 * (i + 1) := by
    rw [getNewAllocSize_eq _ hmax]
    omega
  have hid : listId (16 * (i + 1)) = i := by
    unfold listId
    omega
  have hsmall : 16 * (i + 1) < pageSize := by
    unfold slabMax slabNode slabStep slabHeaderSize pageSize at hmax
    unfold pageSize
    omega
  rcases hpage with ⟨base, mm, hget, hne⟩
  -- The mutex is no part of what follows.
  rcases getNewSlabHeader_newPage { s with slabMutex := 1 } hmm hempty hslot base mm hget hne with
    ⟨a, s₁, hheader, hentry⟩
  have hlock : s.lock = some { s with slabMutex := 1 } := if_pos hunlocked
  have hinList : Slab.getSlabInList { s with slabMutex := 1 } (16 * (i + 1)) gfpKernel
      = some (0, { s with slabMutex := 1 }) := by
    unfold Slab.getSlabInList
    rw [if_neg (by decide)]
    simp only [hid, hcache, if_true]
  have hinPage := getSlabFromPageFree_cut { s with slabMutex := 1 } s₁ pg (16 * (i + 1)) a hcur hpg
    hset (by rw [hfull]; omega) hheader (hentry pg hset)
  have hpos : ¬((16 * (i + 1) : Nat) : Int) ≤ 0 := by omega
  refine ⟨(s₁.takeSlice pg (16 * (i + 1)) a).unlock, ?_⟩
  unfold Slab.kmalloc
  rw [if_neg hpos, if_neg (by decide), Int.toNat_natCast]
  exact doKmalloc_fromPage s _ _ _ _ _ hsmall hlock (hround.symm ▸ hinList) (hround.symm ▸ hinPage)
    hbase

theorem addressesFit_grows (mm mm' : Mm) (h : AddressesFit mm) (hgrows : Mm.Grows mm mm') :
    AddressesFit mm' :=
  ⟨hgrows.bank.start ▸ h.start, by rw [hgrows.bank.start, hgrows.bank.words]; exact h.fit⟩

/-- What happens up to `get_new_slab` only takes pages. -/
theorem atNewSlab_grows (s s₁ : Slab) (size : Nat) (h : s.atNewSlab size = some s₁) :
    Mm.Grows s.mm s₁.mm := by
  unfold Slab.atNewSlab at h
  simp only [Option.pure_def, Option.bind_eq_bind, Option.bind_eq_some_iff] at h
  rcases h with ⟨s₂, hlock, h⟩
  have hs₂ : s₂.mm = s.mm := by rw [(Slab.lock_cases s s₂ hlock).2]
  rw [← hs₂]
  by_cases hbig : pageSize ≤ size
  · rw [if_pos hbig, Option.some.injEq] at h
    rw [h]
    exact Mm.Grows.refl s₁.mm
  rw [if_neg hbig] at h
  simp only [Option.bind_eq_some_iff, Prod.exists] at h
  rcases h with ⟨ret, s₃, hinList, h⟩
  have hgrows := Slab.carries_getSlabInList _ Slab.carries_grows s₂ s₃ _ _ _ hinList
  by_cases hret : ret ≠ 0
  · rw [if_pos hret] at h
    exact absurd h.symm (Option.some_ne_none _)
  rw [if_neg hret] at h
  simp only [Option.bind_eq_some_iff, Prod.exists] at h
  rcases h with ⟨ret', s₄, hinPage, h⟩
  by_cases hret' : ret' ≠ 0
  · rw [if_pos hret'] at h
    exact absurd h.symm (Option.some_ne_none _)
  rw [if_neg hret', Option.some.injEq] at h
  rw [← h]
  exact hgrows.trans (Slab.carries_getSlabFromPageFree _ Slab.carries_grows s₃ s₄ _ _ hinPage)

/-- A request for which no slice was found goes on with `get_new_slab`. -/
theorem doKmalloc_atNewSlab (s s₁ s₂ : Slab) (size ret : Nat) (hnew : s.atNewSlab size = some s₁)
    (hget : s₁.getKernelSlab (getNewAllocSize size gfpKernel) gfpKernel = some (ret, s₂)) :
    s.doKmalloc size gfpKernel = some (ret, s₂.unlock) := by
  have hkernel : ∀ t : Slab, t.getNewSlab (getNewAllocSize size gfpKernel) gfpKernel
      = t.getKernelSlab (getNewAllocSize size gfpKernel) gfpKernel :=
    fun t => if_neg (by decide)
  unfold Slab.atNewSlab at hnew
  unfold Slab.doKmalloc
  simp only [Option.pure_def, Option.bind_eq_bind, Option.bind_eq_some_iff] at hnew
  simp only [Option.pure_def, Option.bind_eq_bind]
  rcases hnew with ⟨s₃, hlock, hnew⟩
  rw [hlock, Option.bind_some]
  by_cases hbig : pageSize ≤ size
  · rw [if_pos hbig, Option.some.injEq] at hnew
    refine (if_pos (Or.inr (Or.inr hbig))).trans ?_
    rw [hkernel, hnew, hget, Option.bind_some]
  rw [if_neg hbig] at hnew
  have hnot : ¬(gfpKernel = gfpDma ∨ gfpKernel = gfpRes ∨ pageSize ≤ size) := by
    rintro (hc | hc | hc)
    · exact absurd hc (by decide)
    · exact absurd hc (by decide)
    · exact hbig hc
  refine (if_neg hnot).trans ?_
  simp only [Option.bind_eq_some_iff, Prod.exists] at hnew
  rcases hnew with ⟨ret₂, s₄, hinList, hnew⟩
  by_cases hret₂ : ret₂ ≠ 0
  · rw [if_pos hret₂] at hnew
    exact absurd hnew.symm (Option.some_ne_none _)
  rw [if_neg hret₂] at hnew
  simp only [Option.bind_eq_some_iff, Prod.exists] at hnew
  rcases hnew with ⟨ret₃, s₅, hinPage, hnew⟩
  by_cases hret₃ : ret₃ ≠ 0
  · rw [if_pos hret₃] at hnew
    exact absurd hnew.symm (Option.some_ne_none _)
  rw [if_neg hret₃, Option.some.injEq] at hnew
  rw [hinList, Option.bind_some]
  refine (if_neg hret₂).trans ?_
  simp only [hinPage, Option.bind_some]
  refine (if_neg hret₃).trans ?_
  rw [hkernel, hnew, hget, Option.bind_some]

/-- Without a header for a slice of the current page there is no page for the block. -/
theorem pageFreeMissing_noPages (s s₀ : Slab) (hmm : AddressesFit s.mm) (size : Nat)
    (hlow : 1 ≤ size) (hat : s.atPageFree size = some s₀)
    (hmissing : s₀.pageFreeMissing (getNewAllocSize size gfpKernel) = true) :
    s.atNewSlab size = some s₀ ∧ ∃ mm, s₀.mm.getFreePages
      (pageNr (getNewAllocSize size gfpKernel)) gfpKernel = some (0, mm) := by
  unfold Slab.atPageFree at hat
  simp only [Option.pure_def, Option.bind_eq_bind, Option.bind_eq_some_iff] at hat
  rcases hat with ⟨s₁, hlock, hat⟩
  by_cases hbig : pageSize ≤ size
  · rw [if_pos hbig] at hat
    exact absurd hat.symm (Option.some_ne_none _)
  rw [if_neg hbig] at hat
  simp only [Option.bind_eq_some_iff, Prod.exists] at hat
  rcases hat with ⟨ret, s₂, hinList, hat⟩
  by_cases hret : ret ≠ 0
  · rw [if_pos hret] at hat
    exact absurd hat.symm (Option.some_ne_none _)
  rw [if_neg hret, Option.some.injEq] at hat
  subst hat
  have hs₁ : s₁.mm = s.mm := by rw [(Slab.lock_cases s s₁ hlock).2]
  have hfit : AddressesFit s₂.mm := addressesFit_grows s.mm s₂.mm hmm
    (hs₁ ▸ Slab.carries_getSlabInList _ Slab.carries_grows s₁ s₂ _ _ _ hinList)
  -- The current page is in use and has room, and there is no header.
  unfold Slab.pageFreeMissing at hmissing
  rcases hcur : s₂.slabPageCurrent with _ | pg
  · simp only [hcur, Bool.false_eq_true] at hmissing
  simp only [hcur, Bool.and_eq_true, decide_eq_true_eq, Option.any_eq_true] at hmissing
  rcases hmissing with ⟨⟨state, hstate, hzero⟩, hroom, hnone⟩
  have hheader : s₂.getNewSlabHeader = some (none, s₂) := by
    rcases hh : s₂.getNewSlabHeader with _ | ⟨_ | a, s₃⟩
    · rw [hh] at hnone
      exact absurd hnone Bool.false_ne_true
    · rw [(getNewSlabHeader_again s₂ s₃ hfit hh none).1]
    · rw [hh] at hnone
      exact absurd hnone Bool.false_ne_true
  have hinPage : s₂.getSlabFromPageFree (getNewAllocSize size gfpKernel) = some (0, s₂) := by
    unfold Slab.getSlabFromPageFree
    simp only [hcur, hstate, Option.pure_def, Option.bind_eq_bind, Option.bind_some, if_neg hzero,
      if_neg (Nat.not_lt.mpr hroom), hheader]
  constructor
  · unfold Slab.atNewSlab
    simp only [hlock, Option.pure_def, Option.bind_eq_bind, Option.bind_some, if_neg hbig, hinList,
      if_neg hret, hinPage, ne_eq, not_true_eq_false, if_false]
  · have hone : pageNr (getNewAllocSize size gfpKernel) = 1 := by
      have hsmall : size < pageSize := Nat.not_le.mp hbig
      unfold pageSize at hsmall
      rcases Slab.pageNr_whole size (by omega) with ⟨hpages, hround⟩
      rw [hpages, hround]
      omega
    rcases getNewSlabHeader_none s₂ s₂ hheader with ⟨_, _, mm, hget, _⟩
    rw [hone]
    exact getFreePages_kernel s₂.mm mm hget

/-- The banks of memory do not change later. -/
theorem later_bank (s s' : Slab) (pages : List Nat)
    (hrun : Run.Reaches Slab.later (Slab.keepsPages pages) s s') :
    s'.mm.kernelStart = s.mm.kernelStart ∧ s'.mm.mapWords = s.mm.mapWords := by
  apply Run.invariant_of_reaches Slab.later (Slab.keepsPages pages)
    (fun t => t.mm.kernelStart = s.mm.kernelStart ∧ t.mm.mapWords = s.mm.mapWords) _ s s' hrun
    ⟨rfl, rfl⟩
  rintro t c addr t' ⟨hstart, hwords⟩ _ hcall
  cases c with
  | kmalloc size flag =>
      have hbank := (Slab.kmalloc_grows t t' size flag addr hcall).bank
      exact ⟨hbank.start.trans hstart, hbank.words.trans hwords⟩
  | freePages addr' =>
      simp only [Slab.later, Option.pure_def, Option.bind_eq_bind, Option.bind_eq_some_iff,
        Option.some.injEq, Prod.mk.injEq] at hcall
      rcases hcall with ⟨mm, hfree, _, ht'⟩
      rw [← ht']
      rcases Mm.freePages_cases t.mm mm addr' hfree with hmm | ⟨_, _, _, _, hgave⟩
      · rw [hmm]
        exact ⟨hstart, hwords⟩
      · exact ⟨hgave.start.trans hstart, hgave.words.trans hwords⟩

/-- The pages of a block are in use later. -/
theorem later_used (s s' : Slab) (pages : List Nat)
    (hrun : Run.Reaches Slab.later (Slab.keepsPages pages) s s')
    (hset : ∀ q ∈ pages, used s.mm.pageMap q = true) :
    ∀ q ∈ pages, used s'.mm.pageMap q = true := by
  cases hrun with
  | refl => exact hset
  | tail _ hlast =>
      rcases hlast with ⟨c, addr, hcall, hkeeps⟩
      exact hkeeps (addr, s') hcall

/-- What is left behind by a block that was returned without a header. -/
structure LeftOver (s s' : Slab) (p count index pg : Nat) : Prop where
  first : p = s.mm.pageIdToVa index
  pos : 0 < index
  bound : index + count ≤ 32 * s.mm.mapWords
  last : pg = index + (count - 1)
  current : s'.slabPageCurrent = some pg
  start : s'.mm.kernelStart = s.mm.kernelStart
  words : s'.mm.mapWords = s.mm.mapWords
  bits : ∀ q, index ≤ q → q < index + count → used s'.mm.pageMap q = true
  base : (s'.mm.pageTable pg).freeBase = s.mm.pageIdToVa pg
  full : (s'.mm.pageTable pg).freeSize = pageSize
  slot : (if s'.table.headerInPage < pageSize / slabHeaderSize then s'.table.tablePageCurrent
    else none) = none

theorem leftOver_noHeader (s s' : Slab) (hmm : AddressesFit s.mm) (size p : Nat) (hlow : 0 < size)
    (hhigh : size < 2 ^ 31 + 16) (hout : s.outOfHeaders size = true)
    (hrun : s.getKernelSlab size gfpKernel = some (p, s')) :
    ∃ index pg, LeftOver s s' p (pageNr size) index pg := by
  rcases getKernelSlab_noHeader s hmm size hlow hhigh s' p hout hrun with
    ⟨mm, hget, hne, hheader, hs'⟩
  rcases markRun_fresh s hmm size hlow hhigh mm p hne hget with
    ⟨index, hp, hpos, hbound, hlast, hstart, hwords, hbits, hbase, hfull⟩
  rcases getNewSlabHeader_none _ _ hheader with ⟨_, hslot, _⟩
  rcases Slab.markRun_frame { s with mm := mm } p size with ⟨table, htable⟩
  generalize Slab.markRun { s with mm := mm } p size = s₁ at *
  subst hs'
  rw [htable] at hslot hbase hfull
  subst htable
  exact ⟨index, _, hp, hpos, hbound, hlast, rfl, hstart, hwords, hbits, hbase, hfull, hslot⟩

/-- A block that was returned without a header is overlapped later. -/
theorem noHeader_overlapped (s s' s'' : Slab) (hmm : AddressesFit s.mm) (size p : Nat)
    (hlow : 1 ≤ size) (hhigh : size < 2 ^ 31)
    (hout : s.outOfHeaders (getNewAllocSize size gfpKernel) = true)
    (hrun : s.getKernelSlab (getNewAllocSize size gfpKernel) gfpKernel = some (p, s'))
    (hlater : Run.Reaches Slab.later (Slab.keepsPages (s'.unlock.pagesOf p size)) s'.unlock s'')
    (hrec : s'.unlock.Recovered s'') : s''.HandsOut p size := by
  rcases request_round size hlow hhigh with ⟨hlow', hhigh', _⟩
  rcases Slab.pageNr_whole size hhigh with ⟨hpages, hround⟩
  rcases leftOver_noHeader s s' hmm _ p (by omega) hhigh' hout hrun with ⟨index, pg, hleft⟩
  have hcount : pageNr size = pageNr (getNewAllocSize size gfpKernel) := by
    rw [hpages, hround, pageNr_eq size (by omega)]
    omega
  have hcount' : pageNr size = (size + 4095) / 4096 := pageNr_eq size (by omega)
  rw [← hcount] at hleft
  have hpos := hleft.pos
  have hbound := hleft.bound
  have hlast := hleft.last
  have hwide := words_of_fit s.mm hmm
  have hid : s'.unlock.mm.vaToPageId p = index := by
    rw [vaToPageId_of_start s.mm s'.unlock.mm hleft.start, hleft.first]
    exact Mm.vaToPageId_pageIdToVa s.mm index hmm.start (by omega)
  have hpages' : ∀ q, q ∈ s'.unlock.pagesOf p size ↔ index ≤ q ∧ q < index + pageNr size := by
    intro q
    unfold Slab.pagesOf
    rw [hid, List.mem_range'_1]
  rcases later_bank s'.unlock s'' _ hlater with ⟨hstart, hwords⟩
  replace hstart := hstart.trans hleft.start
  replace hwords := hwords.trans hleft.words
  have hset := later_used s'.unlock s'' _ hlater
    (fun q hq => hleft.bits q ((hpages' q).mp hq).1 ((hpages' q).mp hq).2) pg
    ((hpages' pg).mpr (by omega))
  have hfit : AddressesFit s''.mm := ⟨hstart ▸ hmm.start, by rw [hstart, hwords]; exact hmm.fit⟩
  have hentry := hrec.entry pg hleft.current
  have hbase : (s''.mm.pageTable pg).freeBase = s.mm.pageIdToVa pg :=
    (congrArg Page.freeBase hentry).trans hleft.base
  have hva := pageIdToVa_of_fit s.mm hmm pg (by omega)
  have hne : s.mm.pageIdToVa pg ≠ 0 := by
    rw [hva]
    unfold pageSize
    omega
  rcases hrec.usedUp with ⟨i, hi, hcache⟩
  rcases kmalloc_recovered s'' hfit pg i (hrec.current.trans hleft.current) (by omega) hset
    ((congrArg Page.freeSize hentry).trans hleft.full) (hbase.symm ▸ hne) hrec.unlocked hrec.noFree
    (hrec.table.symm ▸ hleft.slot) hrec.page hi hcache with ⟨s₃, hkmalloc⟩
  -- The first byte of the slice is the first byte of the last page of the block.
  have hfit₀ := hmm.fit
  have hsame : add32 p ((pageNr size - 1) * 4096) = s.mm.pageIdToVa pg := by
    rw [hleft.first, hva, pageIdToVa_of_fit s.mm hmm index (by omega)]
    unfold add32
    unfold pageSize u32Size at *
    omega
  refine ⟨16 * (i + 1), (pageNr size - 1) * 4096, s₃, by omega, hsame.symm ▸ hne, ?_⟩
  rw [hsame, ← hbase]
  exact hkmalloc

/-- Without pages for the block, nothing else is done. -/
theorem getKernelSlab_noPages (s : Slab) (mm : Mm) (size : Nat)
    (hget : s.mm.getFreePages (pageNr size) gfpKernel = some (0, mm)) :
    s.getKernelSlab size gfpKernel = some (0, { s with mm := mm }) := by
  unfold Slab.getKernelSlab
  simp only [hget, Option.pure_def, Option.bind_eq_bind, Option.bind_some, if_true]
  exact ite_self _

/-- With a header missing for a slice or a remainder, there were pages for the block. -/
theorem outOfHeaders_pages (s : Slab) (size : Nat) (h : s.outOfHeaders size = true) :
    ∃ base mm, s.mm.getFreePages (pageNr size) gfpKernel = some (base, mm) ∧ base ≠ 0 := by
  unfold Slab.outOfHeaders at h
  rcases hopen : s.openedPage size with _ | r
  · rw [hopen, Option.any_none] at h
    exact absurd h Bool.false_ne_true
  unfold Slab.openedPage at hopen
  simp only [Option.pure_def, Option.bind_eq_bind, Option.bind_eq_some_iff, Prod.exists] at hopen
  rcases hopen with ⟨base, mm, hget, hopen⟩
  refine ⟨base, mm, hget, fun hzero => ?_⟩
  rw [if_pos (Or.inr hzero)] at hopen
  exact absurd hopen.symm (Option.some_ne_none _)

/-- When `get_new_slab` is reached, it is what the call does. -/
theorem doKmalloc_of_atNewSlab (s s₀ s' : Slab) (size ret : Nat) (hnew : s.atNewSlab size = some s₀)
    (hrun : s.doKmalloc size gfpKernel = some (ret, s')) :
    ∃ s₂, s₀.getKernelSlab (getNewAllocSize size gfpKernel) gfpKernel = some (ret, s₂) ∧
      s' = s₂.unlock := by
  rcases doKmalloc_cases s s' size ret hrun with
    ⟨s₁, s₂, hlock, hsmall, hret, _, hslice⟩ | ⟨s₁, s₂, hnew', hget, hs'⟩
  · -- A slice was found in one of the two places.
    unfold Slab.atNewSlab at hnew
    simp only [hlock, Option.pure_def, Option.bind_eq_bind, Option.bind_some,
      if_neg (Nat.not_le.mpr hsmall)] at hnew
    rcases hslice with hinList | ⟨s₃, hinList, hinPage⟩
    · simp only [hinList, Option.bind_some, if_pos hret] at hnew
      exact absurd hnew.symm (Option.some_ne_none _)
    · simp only [hinList, hinPage, Option.bind_some, if_pos hret, ne_eq, not_true_eq_false,
        if_false] at hnew
      exact absurd hnew.symm (Option.some_ne_none _)
  · rw [hnew, Option.some.injEq] at hnew'
    exact ⟨s₂, hnew' ▸ hget, hs'⟩

/-- A call without a header returns null if there are no pages for the block, and the state of
    the pages is as it was. Otherwise, if it comes back, it returns a block. Once there is a page
    for headers again, while the current page and the headers are what they were and the slices
    of some size are used up (`Recovered`), a part of the block is handed out once more, although
    all its pages are in use. -/
theorem kmalloc_exhausted (s : Slab) (hmm : AddressesFit s.mm) (size : Int) (hsize : size < 2 ^ 31)
    (flag : Nat) (hmissing : s.headerMissing size flag = true) :
    (s.noPagesLeft size.toNat → ∃ s', s.kmalloc size flag = some (0, s')) ∧
      (¬s.noPagesLeft size.toNat → ∀ p s', s.kmalloc size flag = some (p, s') → p ≠ 0 ∧
        ∀ s'', Run.Reaches Slab.later (Slab.keepsPages (s'.pagesOf p size.toNat)) s' s'' →
          s'.Recovered s'' → s''.HandsOut p size.toNat) := by
  unfold Slab.headerMissing at hmissing
  rw [Bool.and_eq_true, decide_eq_true_eq, Bool.or_eq_true] at hmissing
  rcases hmissing with ⟨⟨hpos, hflag⟩, hmissing⟩
  subst hflag
  have hlow : 1 ≤ size.toNat := by omega
  have hhigh : size.toNat < 2 ^ 31 := by omega
  have hkmalloc : s.kmalloc size gfpKernel = s.doKmalloc size.toNat gfpKernel := by
    unfold Slab.kmalloc
    rw [if_neg (by omega), if_neg (by decide)]
  rw [hkmalloc]
  constructor
  · intro hnone
    rcases hmissing with hmissing | hmissing
    · rcases (Option.any_eq_true _ _).mp hmissing with ⟨s₀, hat, hfree⟩
      rcases pageFreeMissing_noPages s s₀ hmm size.toNat hlow hat hfree with ⟨hnew, mm, hget⟩
      exact ⟨_, doKmalloc_atNewSlab s s₀ _ size.toNat 0 hnew (getKernelSlab_noPages s₀ mm _ hget)⟩
    · -- A block was found, so there were pages.
      rcases (Option.any_eq_true _ _).mp hmissing with ⟨s₀, hnew, hout⟩
      rcases outOfHeaders_pages s₀ _ hout with ⟨base, mm, hget, hne⟩
      rcases hnone s₀ hnew with ⟨mm', hget'⟩
      rw [hget, Option.some.injEq, Prod.mk.injEq] at hget'
      exact absurd hget'.1 hne
  · intro hpages p s' hrun
    rcases hmissing with hmissing | hmissing
    · rcases (Option.any_eq_true _ _).mp hmissing with ⟨s₀, hat, hfree⟩
      rcases pageFreeMissing_noPages s s₀ hmm size.toNat hlow hat hfree with ⟨hnew, mm, hget⟩
      refine absurd (fun s₁ hs₁ => ?_) hpages
      rw [Option.mem_def, hnew, Option.some.injEq] at hs₁
      exact ⟨mm, hs₁ ▸ hget⟩
    · rcases (Option.any_eq_true _ _).mp hmissing with ⟨s₀, hnew, hout⟩
      rcases doKmalloc_of_atNewSlab s s₀ s' size.toNat p hnew hrun with ⟨s₂, hget, hs'⟩
      have hfit := addressesFit_grows s.mm s₀.mm hmm (atNewSlab_grows s s₀ size.toNat hnew)
      subst hs'
      refine ⟨?_, fun s'' hlater hrec =>
        noHeader_overlapped s₀ s₂ s'' hfit size.toNat p hlow hhigh hout hget hlater hrec⟩
      rcases request_round size.toNat hlow hhigh with ⟨hlow', hhigh', _⟩
      rcases getKernelSlab_noHeader s₀ hfit _ (by omega) hhigh' s₂ p hout hget with ⟨_, _, hne, _⟩
      exact hne

/-- The board when one page is left, behind the first page that was handed out. -/
def lastPageSlab : Slab :=
  (boardSlab.slab.mm.getFreePage gfpKernel).elim boardSlab.slab fun r =>
    { boardSlab.slab with
      mm := { r.2.setZone .normal { r.2.zone .normal with freePages := 1 } with
        pageMap := fun w => if w = 0 then 0xffdfffff else 0xffffffff } }

/-- On the board, a request of 100 bytes gets the last page, without a header, and one more gets
    nothing. When the page in front of it is given back, the last page is handed out again. -/
theorem kmalloc_exhausted_board :
    ∃ s' s'', lastPageSlab.kmalloc 100 gfpKernel = some (0x80015000, s') ∧
      s'.later (.freePages 0x80014000) = some (0, s'') ∧ s''.HandsOut 0x80015000 100 ∧
      ∃ s₃, s'.kmalloc 100 gfpKernel = some (0, s₃) := by
  have heval : (lastPageSlab.kmalloc 100 gfpKernel).bind (fun r =>
      (r.2.later (.freePages 0x80014000)).map (fun t => (r.1, t.1, decide (
        (r.2.slabPageCurrent = some 21 ∧ r.2.headerMissing 100 gfpKernel = true ∧
          (r.2.atNewSlab 100).map (fun s => (s.mm.getFreePages 1 gfpKernel).map Prod.fst)
            = some (some 0) ∧
          Slab.keepsPages (r.2.pagesOf r.1 100) r.2 (.freePages 0x80014000) t.1) ∧
        (t.2.slabMutex = 0 ∧ t.2.table = r.2.table ∧ t.2.slabPageCurrent = some 21 ∧
          t.2.mm.pageTable 21 = r.2.mm.pageTable 21 ∧
          isListEmpty t.2.mm.links .freeHeader = true ∧
          isListEmpty t.2.mm.links (.cache 0) = true) ∧
        (t.2.mm.getFreePage gfpSlabHeader).map Prod.fst = some 0x80014000))))
      = some (0x80015000, 0, true) := by
    decide +kernel
  rcases Option.bind_eq_some_iff.mp heval with ⟨⟨p, s'⟩, hkmalloc, heval⟩
  rcases Option.map_eq_some_iff.mp heval with ⟨⟨a, s''⟩, hlater, heval⟩
  simp only [Prod.mk.injEq, decide_eq_true_eq] at heval
  rcases heval with ⟨hp, ha, ⟨hcur, hmissing, hnone, hkeeps⟩,
    ⟨hunlocked, htable, hcur', hentry, hempty, hcache⟩, hpage⟩
  subst hp ha
  rcases Option.map_eq_some_iff.mp hpage with ⟨⟨base, mm⟩, hget, hbase⟩
  have hrec : s'.Recovered s'' := by
    refine ⟨hunlocked, htable, hcur'.trans hcur.symm, fun pg hpg => ?_, hempty,
      ⟨0, by decide, hcache⟩, ⟨base, mm, hget, ?_⟩⟩
    · rw [hcur, Option.some.injEq] at hpg
      exact hpg ▸ hentry
    · exact fun hzero => absurd (hbase.symm.trans hzero) (by decide)
  have hfit : AddressesFit lastPageSlab.mm := by decide +kernel
  have hone : pageNr (getNewAllocSize 100 gfpKernel) = 1 := by decide
  have hpages : ¬lastPageSlab.noPagesLeft 100 := by
    intro hleft
    have hlast : (lastPageSlab.atNewSlab 100).bind (fun s =>
        (s.mm.getFreePages 1 gfpKernel).map Prod.fst) = some 0x80015000 := by decide +kernel
    rcases Option.bind_eq_some_iff.mp hlast with ⟨s₀, hnew, hlast⟩
    rcases hleft s₀ hnew with ⟨mm, hget⟩
    have hget' : s₀.mm.getFreePages ((1 : Nat) : Int) gfpKernel = some (0, mm) := by
      rw [← hone]
      exact hget
    have hget'' : s₀.mm.getFreePages 1 gfpKernel = some (0, mm) := hget'
    rw [hget'', Option.map_some, Option.some.injEq] at hlast
    exact absurd (show 0 = 0x80015000 from hlast) (by decide)
  have hfirst := kmalloc_exhausted lastPageSlab hfit 100 (by decide) gfpKernel
    (by decide +kernel)
  refine ⟨s', s'', hkmalloc, hlater, (hfirst.2 hpages _ s' hkmalloc).2 s'' ?_ hrec, ?_⟩
  · exact Relation.ReflTransGen.single ⟨_, _, hlater, hkeeps⟩
  · refine (kmalloc_exhausted s' ?_ 100 (by decide) gfpKernel hmissing).1 ?_
    · exact addressesFit_grows _ _ hfit (Slab.kmalloc_grows _ _ _ _ _ hkmalloc)
    · intro s₁ hs₁
      rw [Option.mem_def] at hs₁
      have hs₁' : s'.atNewSlab 100 = some s₁ := hs₁
      rw [hs₁', Option.map_some, Option.some.injEq] at hnone
      rcases Option.map_eq_some_iff.mp hnone with ⟨⟨base', mm'⟩, hget', hzero⟩
      simp only at hzero
      subst hzero
      exact ⟨mm', hone.symm ▸ hget'⟩

end Mirros
