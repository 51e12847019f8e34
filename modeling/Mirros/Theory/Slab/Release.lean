import Mirros.Theory.Pages.Accounting
import Mirros.Theory.Slab.Outlive

/-!
# Releasing a Block of Whole Pages

`kfree_kernel_mem` is meant to undo a `kmalloc` of a page or more: the bits of the full
pages are cleared and the slice at the end goes to its cache list. It hands
`free_pages` the address of the first page's `struct page`, though, and not that of
the page. That address lies in the page table, whose pages boot has reserved with a
count of zero, so `free_pages` gives nothing back and the first page of the block stays
in use.

What else the call does starts at the page that `pg + count` names. The count was
stored in eight bits and lowered for the last page, so this can be the last page of
the block, the page behind it, or the first page; none of these gives the first page
back.

## Main definitions

* `Mm.TableReserved`: The page table lies in pages that boot has reserved.
* `KeepsUsed`: The pages in use keep their flag and count.
* `ReleasesExactly`: What the call is meant to do.

## Theorems

* `tableReserved_booted`: Boot reserves the pages of the page table.
* `kmalloc_whole`: What `kmalloc` leaves in the entry of the first page.
* `kfreeKernelMem_keeps`: The first page stays in use.
* `kfreeKernelMem_releases`: The call never does what it is meant to.
-/

namespace Mirros

namespace Mm

/-- The pages below `reserved` are in use and hold no run, and the entries of the first
    `total` pages lie in them. -/
structure TableReserved (mm : Mm) (total reserved : Nat) : Prop where
  pos : 0 < reserved
  used : ∀ q < reserved, used mm.pageMap q = true
  count : ∀ q < reserved, (mm.pageTable q).count = 0
  entry : ∀ q < total, mm.vaToPageId (add32 mm.pageTableAddr (q * sizeofPage)) < reserved

/-- What the pages depend on: the layout, the reserved bits and the reserved counts. -/
theorem tableReserved_congr (mm mm' : Mm) (total reserved : Nat)
    (hstart : mm'.kernelStart = mm.kernelStart) (haddr : mm'.pageTableAddr = mm.pageTableAddr)
    (hpages : ∀ q < reserved, Mirros.used mm'.pageMap q = Mirros.used mm.pageMap q ∧
      (mm'.pageTable q).count = (mm.pageTable q).count)
    (h : TableReserved mm total reserved) : TableReserved mm' total reserved := by
  refine ⟨h.pos, fun q hq => (hpages q hq).1.trans (h.used q hq),
    fun q hq => (hpages q hq).2.trans (h.count q hq), fun q hq => ?_⟩
  unfold vaToPageId
  rw [haddr, hstart]
  exact h.entry q hq

/-- Boot reserves the pages of the page table and leaves their counts zero. -/
theorem tableReserved_booted (mm : Mm) (kernelEnd uninit : Nat) (h : BankReady mm kernelEnd) :
    TableReserved (mm.initPageTableMap kernelEnd uninit) mm.totalPage
      (mm.reservedPages kernelEnd) := by
  rcases reservedPages_eq mm kernelEnd h with ⟨_, hres, _, hstart⟩
  rcases initPageTableMap_frame mm kernelEnd uninit with ⟨hk, _, htable, _⟩
  have haddr := h.addr
  have hkernel := h.kernel
  -- The map comes after the table, so it ends behind every entry.
  have hends : roundUp4 kernelEnd + mm.totalPage * sizeofPage
      < mapEnd mm.totalPage kernelEnd := by
    unfold mapEnd mapStart bitsToLong roundUp4
    omega
  have hup : kernelEnd ≤ roundUp4 kernelEnd := by
    unfold roundUp4
    omega
  refine ⟨?_, fun q hq => ?_, fun q hq => ?_, fun q hq => ?_⟩
  · rw [hres]
    omega
  · rw [used_initPageTableMap, if_pos hq]
  · rcases pageTable_initPageTableMap mm kernelEnd uninit q with ⟨pa, hentry⟩
    rw [hentry, if_pos hq]
    rfl
  · rw [htable, tableLayout_eq _ _ haddr]
    unfold vaToPageId
    rw [hk, hres]
    unfold sizeofPage at hends ⊢
    unfold add32 sub32 pageSize
    unfold u32Size at haddr ⊢
    simp only
    omega

/-- Taking pages leaves the place of the page table alone. -/
theorem getFreePages_tableAddr (mm mm' : Mm) (count : Int) (flag addr : Nat)
    (h : mm.getFreePages count flag = some (addr, mm')) :
    mm'.pageTableAddr = mm.pageTableAddr := by
  unfold getFreePages at h
  by_cases hc : count ≤ 0
  · rw [if_pos hc, Option.some.injEq, Prod.mk.injEq] at h
    rw [← h.2]
  rw [if_neg hc] at h
  unfold doGetFreePages at h
  rcases hz : zoneOfId (zoneIdOfFlag flag) with _ | z
  · rw [hz] at h
    simp only [Option.some.injEq, Prod.mk.injEq] at h
    rw [← h.2]
  rw [hz] at h
  simp only [Option.pure_def, Option.bind_eq_bind, Option.bind_eq_some_iff] at h
  rcases h with ⟨mm₁, hlock, h⟩
  rcases lockZone_cases mm mm₁ z hlock with ⟨_, hmm₁⟩
  have haddr : mm₁.pageTableAddr = mm.pageTableAddr := by
    rw [hmm₁]
    rfl
  by_cases hlow : (mm₁.zone z).freePages < count.toNat
  · rw [if_pos hlow, Option.some.injEq, Prod.mk.injEq] at h
    rw [← h.2, ← haddr]
    rfl
  rw [if_neg hlow, Option.bind_eq_some_iff] at h
  rcases h with ⟨index, _, h⟩
  by_cases hzero : index = 0
  · rw [if_pos hzero, Option.some.injEq, Prod.mk.injEq] at h
    rw [← h.2, ← haddr]
    rfl
  rw [if_neg hzero, Option.bind_eq_some_iff] at h
  rcases h with ⟨mm₂, hupd, h⟩
  rcases used_updateMemoryBitmap mm₁ mm₂ index _ true hupd with ⟨_, m, hmm₂, _⟩
  rw [Option.some.injEq, Prod.mk.injEq, initPages_eq, hmm₂] at h
  rw [← h.2, ← haddr]
  rfl

/-- Only pages of the run that the entry of page `i` names may have been given back. -/
structure Frees (mm mm' : Mm) (i : Nat) : Prop where
  start : mm'.kernelStart = mm.kernelStart
  words : mm'.mapWords = mm.mapWords
  tableAddr : mm'.pageTableAddr = mm.pageTableAddr
  shape : ∀ q, (mm'.pageTable q).flag = (mm.pageTable q).flag ∧
    (mm'.pageTable q).count = (mm.pageTable q).count
  bits : ∀ q, ¬(i ≤ q ∧ q < i + (mm.pageTable i).count) →
    Mirros.used mm'.pageMap q = Mirros.used mm.pageMap q

theorem frees_refl (mm : Mm) (i : Nat) : Frees mm mm i :=
  ⟨rfl, rfl, rfl, fun _ => ⟨rfl, rfl⟩, fun _ _ => rfl⟩

theorem frees_freePages (mm mm' : Mm) (addr : Nat) (h : mm.freePages addr = some mm') :
    Frees mm mm' (mm.vaToPageId addr) := by
  unfold freePages at h
  by_cases hal : isAligin addr pageSize = true
  swap
  · rw [if_neg hal, Option.some.injEq] at h
    rw [← h]
    exact frees_refl mm _
  rw [if_pos hal] at h
  by_cases hhead : (mm.pageTable (mm.vaToPageId addr)).flag &&& gfpPageHeader ≠ 0
  swap
  · rw [if_neg hhead, Option.some.injEq] at h
    rw [← h]
    exact frees_refl mm _
  rw [if_pos hhead] at h
  rcases hz : zoneOfId (zoneIdOfFlag (mm.pageTable (mm.vaToPageId addr)).flag) with _ | z
  · rw [hz] at h
    exact absurd h (by simp only [reduceCtorEq, not_false_eq_true])
  rw [hz] at h
  simp only [doFreePages, Option.pure_def, Option.bind_eq_bind, Option.bind_eq_some_iff,
    Option.some.injEq] at h
  rcases h with ⟨mm₁, hlock, mm₂, hupd, h⟩
  rcases lockZone_cases mm mm₁ z hlock with ⟨_, rfl⟩
  rcases used_updateMemoryBitmap _ mm₂ _ _ false hupd with ⟨_, m, rfl, hm⟩
  rw [← h]
  exact ⟨rfl, rfl, rfl, fun _ => ⟨rfl, rfl⟩, fun q hq => (hm q).trans (if_neg hq)⟩

/-- The reference count is no part of the shape. -/
theorem frees_pagePut (mm mm' : Mm) (i : Nat) (h : mm.pagePut i = some mm') :
    Frees mm mm' (mm.vaToPageId (mm.pageIdToVa i)) := by
  unfold pagePut at h
  simp only at h
  have hshape : ∀ q, ((mm.setPage i { mm.pageTable i with
      usage := ((mm.pageTable i).usage + 255) % 256 }).pageTable q).flag
        = (mm.pageTable q).flag ∧ ((mm.setPage i { mm.pageTable i with
      usage := ((mm.pageTable i).usage + 255) % 256 }).pageTable q).count
        = (mm.pageTable q).count := by
    intro q
    unfold setPage
    by_cases hq : q = i
    · simp only [hq, Function.update_self, and_self]
    · simp only [Function.update_of_ne hq, and_self]
  by_cases hzero : ((mm.pageTable i).usage + 255) % 256 = 0
  · rw [if_pos hzero] at h
    have hfrees := frees_freePages _ mm' _ h
    refine ⟨hfrees.start, hfrees.words, hfrees.tableAddr, fun q => ?_, fun q hq => ?_⟩
    · exact ⟨(hfrees.shape q).1.trans (hshape q).1, (hfrees.shape q).2.trans (hshape q).2⟩
    · refine hfrees.bits q fun hin => hq ?_
      rw [(hshape _).2] at hin
      exact hin
  · rw [if_neg hzero, Option.some.injEq] at h
    rw [← h]
    exact ⟨rfl, rfl, rfl, hshape, fun _ _ => rfl⟩

/-- A reserved page holds no run, so whatever is given back is above them. -/
theorem tableReserved_frees (mm mm' : Mm) (i total reserved : Nat) (hfrees : Frees mm mm' i)
    (h : TableReserved mm total reserved) : TableReserved mm' total reserved := by
  refine tableReserved_congr mm mm' total reserved hfrees.start hfrees.tableAddr
    (fun q hq => ⟨hfrees.bits q fun hin => ?_, (hfrees.shape q).2⟩) h
  have hcount := h.count i (by omega)
  omega

/-- A page in use stays in use when the run begins behind it or holds no page. -/
theorem used_frees (mm mm' : Mm) (i q : Nat) (hfrees : Frees mm mm' i)
    (hi : q < i ∨ (mm.pageTable i).count = 0) (hq : Mirros.used mm.pageMap q = true) :
    Mirros.used mm'.pageMap q = true := by
  rw [hfrees.bits q (by omega)]
  exact hq

/-- A run that is found begins above the reserved pages. -/
theorem run_above (mm : Mm) (zone : Zone) (total reserved count index : Nat)
    (hplain : mm.PlainMap) (h : TableReserved mm total reserved)
    (hfind : mm.findContinousPages zone count = some index) (hne : index ≠ 0) :
    reserved ≤ index := by
  have hwords : 32 * mm.mapWords < u32Size := by
    have hle := hplain.words
    unfold u32Size
    omega
  exact findLoop_above mm zone count reserved hwords h.used _ _ false 0 index (Nat.zero_le _)
    hfind hne

/-- Where the run of a call that returned an address lies. -/
theorem run_of_getFreePages (mm mm' : Mm) (count : Int) (flag addr total reserved : Nat)
    (hplain : mm.PlainMap) (htable : TableReserved mm total reserved)
    (h : mm.getFreePages count flag = some (addr, mm')) (haddr : addr ≠ 0) :
    ∃ z index zone', reserved ≤ index ∧ index + count.toNat ≤ 2 ^ 20 ∧ 0 < count ∧
      addr = mm.pageIdToVa index ∧ Took mm mm' z index count.toNat flag zone' := by
  have hcount : 0 < count := by
    by_contra hc
    unfold getFreePages at h
    rw [if_pos (by omega), Option.some.injEq, Prod.mk.injEq] at h
    exact haddr h.1.symm
  rcases getFreePages_cases mm mm' count flag addr h with
    ⟨hzero, _⟩ | ⟨z, index, _, _, hfind, hne, hva, htook⟩
  · exact absurd hzero haddr
  · have hwords := hplain.words
    have hbound := htook.bound
    exact ⟨z, index, _, run_above mm _ total reserved _ index hplain htable hfind hne, by omega,
      hcount, hva, htook⟩

theorem tableReserved_getFreePages (mm mm' : Mm) (count : Int) (flag addr total reserved : Nat)
    (hplain : mm.PlainMap) (htable : TableReserved mm total reserved)
    (h : mm.getFreePages count flag = some (addr, mm')) :
    mm'.PlainMap ∧ TableReserved mm' total reserved := by
  have haddr := getFreePages_tableAddr mm mm' count flag addr h
  rcases getFreePages_cases mm mm' count flag addr h with
    ⟨_, hmm⟩ | ⟨z, index, _, _, hfind, hne, _, htook⟩
  · rw [hmm]
    exact ⟨hplain, htable⟩
  have habove := run_above mm _ total reserved _ index hplain htable hfind hne
  refine ⟨⟨htook.start ▸ hplain.start, htook.start ▸ hplain.aligned, htook.words ▸ hplain.words⟩,
    tableReserved_congr mm mm' total reserved htook.start haddr (fun q hq => ?_) htable⟩
  have hout : ¬(index ≤ q ∧ q < index + count.toNat) := by omega
  rw [htook.bits q, htook.table q, if_neg hout, if_neg hout]
  exact ⟨rfl, rfl⟩

/-- The page some pages behind another. -/
theorem vaToPageId_later (mm : Mm) (index k : Nat) (hk : mm.kernelStart < u32Size)
    (hi : index + k < 2 ^ 20) :
    mm.vaToPageId (add32 (mm.pageIdToVa index) (k * pageSize)) = index + k := by
  unfold vaToPageId pageIdToVa sub32 add32 pageSize
  unfold u32Size at hk ⊢
  omega

end Mm

namespace Slab

/-- The pages in use stay in use, with the same flag and count, and the page table
    stays where it is. -/
structure KeepsUsed (s s' : Slab) : Prop where
  start : s'.mm.kernelStart = s.mm.kernelStart
  words : s'.mm.mapWords = s.mm.mapWords
  tableAddr : s'.mm.pageTableAddr = s.mm.pageTableAddr
  pages : ∀ q, used s.mm.pageMap q = true → used s'.mm.pageMap q = true ∧
    (s'.mm.pageTable q).flag = (s.mm.pageTable q).flag ∧
    (s'.mm.pageTable q).count = (s.mm.pageTable q).count

theorem KeepsUsed.refl (s : Slab) : KeepsUsed s s :=
  ⟨rfl, rfl, rfl, fun _ h => ⟨h, rfl, rfl⟩⟩

theorem KeepsUsed.trans {s₁ s₂ s₃ : Slab} (h : KeepsUsed s₁ s₂) (h' : KeepsUsed s₂ s₃) :
    KeepsUsed s₁ s₃ := by
  refine ⟨h'.start.trans h.start, h'.words.trans h.words, h'.tableAddr.trans h.tableAddr,
    fun q hq => ?_⟩
  rcases h.pages q hq with ⟨hq', hflag, hcount⟩
  rcases h'.pages q hq' with ⟨hq'', hflag', hcount'⟩
  exact ⟨hq'', hflag'.trans hflag, hcount'.trans hcount⟩

/-- A page taken for headers was clear before, so it is none of the pages in use. -/
theorem keepsUsed_headerPage (s : Slab) (mm : Mm) (addr : Nat)
    (hwords : 32 * s.mm.mapWords ≤ 2 ^ 20)
    (h : s.mm.getFreePage gfpSlabHeader = some (addr, mm)) : KeepsUsed s { s with mm := mm } := by
  have haddr := Mm.getFreePages_tableAddr s.mm mm 1 gfpSlabHeader addr h
  rcases Mm.getFreePages_cases s.mm mm 1 gfpSlabHeader addr h with
    ⟨_, hmm⟩ | ⟨z, q, _, _, hfind, hne, _, htook⟩
  · rw [hmm]
    exact KeepsUsed.refl s
  have hclear := findContinousPages_one s.mm _ q hwords hfind hne
  refine ⟨htook.start, htook.words, haddr, fun p hp => ?_⟩
  have hpq := ne_of_used s.mm.pageMap p q hp hclear
  have hout : ¬(q ≤ p ∧ p < q + (1 : Int).toNat) := by
    intro hc
    exact hpq (by omega)
  simp only [htook.bits p, htook.table p, if_neg hout]
  exact ⟨hp, trivial, trivial⟩

/-- The same for every step of an allocation after the pages of the block were taken. -/
theorem carries_keepsUsed :
    Carries (fun s s' => 32 * s.mm.mapWords ≤ 2 ^ 20 → KeepsUsed s s') :=
  { refl := fun s _ => KeepsUsed.refl s
    trans := fun s₁ s₂ s₃ h h' hwords => (h hwords).trans (h' ((h hwords).words.symm ▸ hwords))
    fields := fun s s' h _ =>
      ⟨h.start, h.words, h.tableAddr, fun q hq => ⟨by rw [h.map]; exact hq, h.shape q⟩⟩
    headerPage := fun s mm addr h hwords => keepsUsed_headerPage s mm addr hwords h }

/-- Of the other pages `get_kernel_slab` writes the count of the first page only. -/
theorem markRun_shape (s : Slab) (base size q : Nat) (hq : q ≠ lastPage s.mm base size) :
    ((s.markRun base size).mm.pageTable q).flag = (s.mm.pageTable q).flag ∧
      ((s.markRun base size).mm.pageTable q).count =
        if 1 < pageNr size ∧ q = s.mm.vaToPageId base
        then ((s.mm.pageTable q).count + 255) % 256 else (s.mm.pageTable q).count := by
  unfold markRun
  simp only [openSlabPage, Mm.setPage, Function.update_of_ne hq]
  by_cases hcount : 1 < pageNr size
  · rw [if_pos hcount]
    simp only [shortenRun, Mm.setPage]
    by_cases hfirst : q = s.mm.vaToPageId base
    · rw [if_pos ⟨hcount, hfirst⟩, hfirst]
      simp only [Function.update_self, and_self]
    · rw [if_neg fun hc => hfirst hc.2]
      simp only [Function.update_of_ne hfirst, and_self]
  · rw [if_neg hcount, if_neg fun hc => hcount hc.1]
    exact ⟨rfl, rfl⟩

/-- The pages of the table stay reserved. -/
def KeepsTable (total reserved : Nat) (s s' : Slab) : Prop :=
  s.mm.PlainMap → s.mm.TableReserved total reserved →
    s'.mm.PlainMap ∧ s'.mm.TableReserved total reserved

section

variable (total reserved : Nat)

theorem carries_keepsTable : Carries (KeepsTable total reserved) :=
  { refl := fun _ hplain htable => ⟨hplain, htable⟩
    trans := fun _ _ _ h h' hplain htable =>
      h' (h hplain htable).1 (h hplain htable).2
    fields := fun s s' h hplain htable =>
      ⟨⟨h.start ▸ hplain.start, h.start ▸ hplain.aligned, h.words ▸ hplain.words⟩,
        Mm.tableReserved_congr s.mm s'.mm total reserved h.start h.tableAddr
          (fun q _ => ⟨by rw [h.map], (h.shape q).2⟩) htable⟩
    headerPage := fun s mm addr h hplain htable =>
      Mm.tableReserved_getFreePages s.mm mm 1 gfpSlabHeader addr total reserved hplain htable h }

/-- The run of a new slab is above the reserved pages, so their counts are not
    written. -/
theorem keepsTable_getNewSlab (s s' : Slab) (size flag ret : Nat)
    (h : s.getNewSlab size flag = some (ret, s')) : KeepsTable total reserved s s' := by
  intro hplain htable
  unfold getNewSlab at h
  by_cases hflag : flag = gfpDma ∨ flag = gfpRes
  · rw [if_pos hflag] at h
    simp only [Option.pure_def, Option.bind_eq_bind, Option.bind_eq_some_iff, Prod.exists] at h
    rcases h with ⟨base, mm, hget, h⟩
    rw [Option.some.injEq, Prod.mk.injEq] at h
    rw [← h.2]
    exact Mm.tableReserved_getFreePages s.mm mm _ flag base total reserved hplain htable hget
  rw [if_neg hflag] at h
  rcases getKernelSlab_cases s s' size flag ret h with
    ⟨mm, hget, ⟨_, hs'⟩ | ⟨_, hret, header, s₁, hslice, hupdate⟩⟩
  · rw [hs']
    exact Mm.tableReserved_getFreePages s.mm mm _ flag ret total reserved hplain htable hget
  have hgot := Mm.tableReserved_getFreePages s.mm mm _ flag ret total reserved hplain htable hget
  rcases Mm.run_of_getFreePages s.mm mm _ flag ret total reserved hplain htable hget hret with
    ⟨z, index, zone', habove, hend, hcount, hva, htook⟩
  have hlast : lastPage mm ret size = index + (pageNr size - 1) := by
    unfold lastPage
    rw [hva, show s.mm.pageIdToVa index = mm.pageIdToVa index by
      unfold Mm.pageIdToVa
      rw [htook.start]]
    exact Mm.vaToPageId_later mm index _ hgot.1.start (by omega)
  have hfirst : mm.vaToPageId ret = index := by
    rw [hva, vaToPageId_of_start s.mm mm htook.start]
    exact Mm.vaToPageId_pageIdToVa s.mm index hplain.start (by omega)
  have hmark : KeepsTable total reserved { s with mm := mm }
      (markRun { s with mm := mm } ret size) := by
    intro hplain' htable'
    have hshape := markRun_shape { s with mm := mm } ret size
    rcases markRun_frame { s with mm := mm } ret size with ⟨table, hframe⟩
    rw [hframe] at hshape ⊢
    refine ⟨⟨hplain'.start, hplain'.aligned, hplain'.words⟩,
      Mm.tableReserved_congr mm _ total reserved rfl rfl (fun q hq => ⟨rfl, ?_⟩) htable'⟩
    -- Both pages of the run that are written are above the reserved ones.
    have hne : q ≠ lastPage mm ret size := by omega
    have hcount' := (hshape q hne).2
    rw [if_neg (by simp only [hfirst]; omega)] at hcount'
    exact hcount'
  have hcarries := carries_keepsTable total reserved
  exact hcarries.trans _ _ _ (hcarries.trans _ _ _ hmark
    (carries_getSlabFromPage _ hcarries _ s₁ _ _ header hslice))
    (carries_updateSlabFreePage _ hcarries s₁ s' _ hupdate) hgot.1 hgot.2

theorem keepsTable_kmalloc (s s' : Slab) (size : Int) (flag ret : Nat)
    (h : s.kmalloc size flag = some (ret, s')) : KeepsTable total reserved s s' :=
  carries_kmalloc _ (carries_keepsTable total reserved)
    (fun _ _ hplain htable => ⟨hplain, Mm.tableReserved_congr _ _ total reserved rfl rfl
      (fun _ _ => ⟨rfl, rfl⟩) htable⟩)
    (keepsTable_getNewSlab total reserved) s s' size flag ret h

end

/-- The entry of the first page of a block of whole pages: the page is in use, it is
    no slab page, and the run it names ends in the address space. -/
structure RunHead (mm : Mm) (index : Nat) : Prop where
  inUse : used mm.pageMap index = true
  flag : (mm.pageTable index).flag &&& gfpSlabBit = 0
  fits : index + (mm.pageTable index).count ≤ 2 ^ 20
  page : index < 2 ^ 20

theorem runHead_keepsUsed (s s' : Slab) (index : Nat) (hkeeps : KeepsUsed s s')
    (h : RunHead s.mm index) : RunHead s'.mm index := by
  rcases hkeeps.pages index h.inUse with ⟨hused, hflag, hcount⟩
  exact ⟨hused, hflag ▸ h.flag, hcount ▸ h.fits, h.page⟩

/-- The number of pages of a request of a page or more. -/
theorem pageNr_whole (size : Nat) (hhigh : size < 2 ^ 31) :
    pageNr (getNewAllocSize size gfpKernel) = (getNewAllocSize size gfpKernel + 4095) / 4096 ∧
      getNewAllocSize size gfpKernel = (size + 15) / 16 * 16 := by
  have hround : getNewAllocSize size gfpKernel = (size + 15) / 16 * 16 := by
    unfold getNewAllocSize
    rw [if_neg (by decide)]
    exact Mm.baligin_eq size 4 (by omega) (by omega)
  refine ⟨?_, hround⟩
  unfold pageNr
  rw [show baligin (getNewAllocSize size gfpKernel) pageSize = _ from
    Mm.baligin_eq _ 12 (by omega) (by omega)]
  unfold pageSize
  omega

/-- What a new slab leaves in the entry of its first page. -/
theorem runHead_getKernelSlab (s s' : Slab) (size ret total reserved : Nat)
    (hplain : s.mm.PlainMap) (htable : s.mm.TableReserved total reserved)
    (hpages : pageNr size = (size + 4095) / 4096) (hlow : pageSize ≤ size)
    (h : s.getKernelSlab size gfpKernel = some (ret, s')) (hret : ret ≠ 0) :
    ∃ index, ret = s'.mm.pageIdToVa index ∧ RunHead s'.mm index := by
  unfold pageSize at hlow
  rcases getKernelSlab_cases s s' size gfpKernel ret h with ⟨mm, hget, hpath⟩
  rcases Mm.run_of_getFreePages s.mm mm _ gfpKernel ret total reserved hplain htable hget hret
    with ⟨z, index, zone', _, hend, hcount, hva, htook⟩
  have hin : index ≤ index ∧ index < index + ((pageNr size : Int)).toNat := by omega
  have hentry := htook.table index
  rw [if_pos hin] at hentry
  have hbits := htook.bits index
  rw [if_pos hin] at hbits
  have hret' : ret = mm.pageIdToVa index := by
    rw [hva]
    unfold Mm.pageIdToVa
    rw [htook.start]
  have hmod := Nat.mod_le (pageNr size) 256
  -- The entry as `init_pages` wrote it.
  have hflag : (mm.pageTable index).flag = gfpKernel ||| gfpPageHeader := by
    rw [hentry, Mm.freshPage]
  have hrun : (mm.pageTable index).count = pageNr size % 256 := by
    rw [hentry, Mm.freshPage, if_pos rfl, Int.toNat_natCast]
  have hslab : (mm.pageTable index).flag &&& gfpSlabBit = 0 := by
    rw [hflag]
    decide
  have hhead : RunHead mm index := ⟨hbits, hslab, by omega, by omega⟩
  rcases hpath with ⟨_, hs'⟩ | ⟨hal, _, header, s₁, hslice, hupdate⟩
  · rw [hs']
    exact ⟨index, hret', hhead⟩
  have hstart : mm.kernelStart < u32Size := htook.start ▸ hplain.start
  have hlast : lastPage mm ret size = index + (pageNr size - 1) := by
    unfold lastPage
    rw [hret']
    exact Mm.vaToPageId_later mm index _ hstart (by omega)
  have hfirst : mm.vaToPageId ret = index := by
    rw [hret']
    exact Mm.vaToPageId_pageIdToVa mm index hstart (by omega)
  -- A block that is not whole pages has two or more, so the last one is another page.
  have hmany : 1 < pageNr size := by
    have hodd : ¬size % 2 ^ 12 = 0 := fun hc =>
      Bool.noConfusion (((Mm.isAligin_pow size 12).mpr hc).symm.trans hal)
    omega
  have hne : index ≠ lastPage mm ret size := by omega
  have hmark : RunHead (markRun { s with mm := mm } ret size).mm index := by
    have hshape := markRun_shape { s with mm := mm } ret size index hne
    rw [if_pos ⟨hmany, hfirst.symm⟩] at hshape
    rcases markRun_frame { s with mm := mm } ret size with ⟨table, hframe⟩
    rw [hframe] at hshape ⊢
    refine ⟨hbits, by rw [hshape.1]; exact hslab, ?_, by omega⟩
    rw [hshape.2]
    simp only [hrun]
    omega
  have hwords : 32 * (markRun { s with mm := mm } ret size).mm.mapWords ≤ 2 ^ 20 := by
    rcases markRun_frame { s with mm := mm } ret size with ⟨table, hframe⟩
    rw [hframe]
    exact htook.words ▸ hplain.words
  have hkeeps := carries_keepsUsed.trans _ _ _
    (carries_getSlabFromPage _ carries_keepsUsed _ s₁ _ _ header hslice)
    (carries_updateSlabFreePage _ carries_keepsUsed s₁ s' _ hupdate) hwords
  refine ⟨index, ?_, runHead_keepsUsed _ s' index hkeeps hmark⟩
  rw [hret']
  unfold Mm.pageIdToVa
  rw [hkeeps.start]
  rcases markRun_frame { s with mm := mm } ret size with ⟨table, hframe⟩
  rw [hframe]

/-- What `kmalloc` leaves in the entry of the first page of a block of whole pages. -/
theorem kmalloc_whole (s s' : Slab) (size ret total reserved : Nat) (hplain : s.mm.PlainMap)
    (htable : s.mm.TableReserved total reserved) (hlow : pageSize ≤ size) (hhigh : size < 2 ^ 31)
    (h : s.kmalloc size gfpKernel = some (ret, s')) (hret : ret ≠ 0) :
    ∃ index, ret = s'.mm.pageIdToVa index ∧ RunHead s'.mm index := by
  have hpos : 0 < pageSize := by decide
  unfold kmalloc at h
  rw [if_neg (by omega), if_neg (by decide)] at h
  unfold doKmalloc at h
  simp only [Option.pure_def, Option.bind_eq_bind, Option.bind_eq_some_iff, Int.toNat_natCast] at h
  rcases h with ⟨s₁, hlock, h⟩
  rw [if_pos (Or.inr (Or.inr hlow)), Option.bind_eq_some_iff] at h
  rcases h with ⟨⟨a, s₂⟩, hget, h⟩
  rw [Option.some.injEq, Prod.mk.injEq] at h
  rcases pageNr_whole size hhigh with ⟨hpages, hround⟩
  have hmm : s₁.mm = s.mm := by
    rw [(lock_cases s s₁ hlock).2]
  unfold getNewSlab at hget
  rw [if_neg (by decide)] at hget
  rcases h with ⟨hreturn, rfl⟩
  simp only at hreturn
  rw [hreturn] at hget
  exact runHead_getKernelSlab s₁ s₂ _ ret total reserved (hmm ▸ hplain) (hmm ▸ htable) hpages
    (by omega) hget hret

theorem frees_kfreeSliceSlab (s s' : Slab) (pg addr : Nat)
    (h : s.kfreeSliceSlab pg addr = some s') :
    Mm.Frees s.mm s'.mm (s.mm.vaToPageId (s.mm.pageIdToVa pg)) := by
  simp only [kfreeSliceSlab, Option.pure_def, Option.bind_eq_bind, Option.bind_eq_some_iff] at h
  rcases h with ⟨found, _, h⟩
  cases found with
  | none =>
      simp only [Option.some.injEq] at h
      rw [← h]
      exact Mm.frees_refl s.mm _
  | some header =>
      simp only [Option.bind_eq_some_iff, Option.some.injEq] at h
      rcases h with ⟨mm, hput, h⟩
      have hfrees := Mm.frees_pagePut _ mm pg hput
      rw [← h]
      exact ⟨hfrees.start, hfrees.words, hfrees.tableAddr, hfrees.shape, hfrees.bits⟩

/-- Freeing gives back runs of entries, and those of the reserved pages are empty. -/
theorem keepsTable_kfreeKernelMem (total reserved : Nat) (s s' : Slab) (addr : Nat)
    (h : s.kfreeKernelMem addr = some s') : KeepsTable total reserved s s' := by
  intro hplain htable
  have hfrees : ∀ (s₁ s₂ : Slab) (i : Nat), Mm.Frees s₁.mm s₂.mm i →
      KeepsTable total reserved s₁ s₂ := by
    intro s₁ s₂ i hf hp ht
    exact ⟨⟨hf.start ▸ hp.start, hf.start ▸ hp.aligned, hf.words ▸ hp.words⟩,
      Mm.tableReserved_frees s₁.mm s₂.mm i total reserved hf ht⟩
  simp only [kfreeKernelMem, Option.pure_def, Option.bind_eq_bind, Option.bind_eq_some_iff] at h
  rcases h with ⟨s₁, hlock, h⟩
  have hmm : s₁.mm = s.mm := by
    rw [(lock_cases s s₁ hlock).2]
  rw [← hmm] at hplain htable
  by_cases hslab : (s₁.mm.pageTable (s₁.mm.vaToPageId addr)).flag &&& gfpSlabBit ≠ 0
  · rw [if_pos hslab] at h
    simp only [Option.bind_eq_some_iff, Option.some.injEq] at h
    rcases h with ⟨s₂, hslice, rfl⟩
    exact hfrees s₁ s₂ _ (frees_kfreeSliceSlab s₁ s₂ _ _ hslice) hplain htable
  rw [if_neg hslab] at h
  by_cases hal : (!isAligin addr pageSize) = true
  · rw [if_pos hal, Option.some.injEq] at h
    rw [← h]
    exact ⟨hplain, htable⟩
  rw [if_neg hal] at h
  simp only [Option.bind_eq_some_iff, Option.some.injEq, kfreePageSlab, Option.bind_eq_bind] at h
  rcases h with ⟨s₂, ⟨mm, hfree, hslice⟩, rfl⟩
  have hpages := hfrees s₁ { s₁ with mm := mm } _ (Mm.frees_freePages s₁.mm mm _ hfree)
    hplain htable
  exact hfrees _ s₂ _ (frees_kfreeSliceSlab _ s₂ _ _ hslice) hpages.1 hpages.2

/-- The first page of a block of whole pages stays in use: `free_pages` gets a page of
    the table, and the slice is looked up behind the run or in an empty one. -/
theorem kfreeKernelMem_keeps (s s' : Slab) (index total reserved : Nat)
    (hplain : s.mm.PlainMap) (htable : s.mm.TableReserved total reserved)
    (hhead : RunHead s.mm index) (htotal : index < total)
    (h : s.kfreeKernelMem (s.mm.pageIdToVa index) = some s') :
    used s'.mm.pageMap index = true := by
  simp only [kfreeKernelMem, Option.pure_def, Option.bind_eq_bind, Option.bind_eq_some_iff] at h
  rcases h with ⟨s₁, hlock, h⟩
  have hmm : s₁.mm = s.mm := by
    rw [(lock_cases s s₁ hlock).2]
  have hindex := Mm.vaToPageId_pageIdToVa s.mm index hplain.start hhead.page
  rw [hmm, hindex, if_neg (by rw [hhead.flag]; decide), Mm.isAligin_pageIdToVa s.mm index
    hplain.aligned] at h
  simp only [Bool.not_true, Bool.false_eq_true, if_false, Option.bind_eq_some_iff,
    Option.some.injEq, kfreePageSlab, Option.bind_eq_bind, hmm] at h
  rcases h with ⟨s₂, ⟨mm, hfree, hslice⟩, hs'⟩
  -- First `free_pages`, with an address in the page table.
  have hfrees := Mm.frees_freePages s.mm mm _ hfree
  have hused := Mm.used_frees s.mm mm _ index hfrees
    (Or.inr (htable.count _ (htable.entry index htotal))) hhead.inUse
  -- Then the slice behind the run.
  have hfrees' := frees_kfreeSliceSlab _ s₂ _ _ hslice
  simp only at hfrees'
  have hcount := htable.count 0 htable.pos
  have hfits := hhead.fits
  have hpage := hhead.page
  rw [← hs']
  refine Mm.used_frees mm s₂.mm _ index hfrees' ?_ hused
  rw [(hfrees.shape _).2]
  by_cases hend : index + (s.mm.pageTable index).count < 2 ^ 20
  · rw [Mm.vaToPageId_pageIdToVa mm _ (hfrees.start ▸ hplain.start) hend]
    by_cases hzero : (s.mm.pageTable index).count = 0
    · rw [hzero, Nat.add_zero]
      exact Or.inr hzero
    · exact Or.inl (by omega)
  · -- The number of the page wraps to zero, and page zero is reserved.
    have hwrap : mm.vaToPageId (mm.pageIdToVa (index + (s.mm.pageTable index).count)) = 0 := by
      have hstart : mm.kernelStart < u32Size := hfrees.start ▸ hplain.start
      have heq : index + (s.mm.pageTable index).count = 2 ^ 20 := by omega
      rw [heq]
      unfold Mm.vaToPageId Mm.pageIdToVa sub32 add32 pageSize
      unfold u32Size at hstart ⊢
      omega
    rw [hwrap]
    exact Or.inr hcount

/-- Freeing the block of `size` bytes at the address comes back, the bits of its full
    pages are clear, the slice behind them is on a cache list, and every other page
    has the same bit, reference count and slices. -/
def ReleasesExactly (s : Slab) (addr size : Nat) : Prop :=
  ∃ s', s.kfreeKernelMem addr = some s' ∧
    (∀ q, s.mm.vaToPageId addr ≤ q →
      q < s.mm.vaToPageId addr + getNewAllocSize size gfpKernel / pageSize →
      used s'.mm.pageMap q = false) ∧
    (getNewAllocSize size gfpKernel % pageSize ≠ 0 → ∃ hs : List Nat,
      Forward s'.mm.links (.cache (listId (getNewAllocSize size gfpKernel % pageSize)) ::
        hs.map .header ++
          [.cache (listId (getNewAllocSize size gfpKernel % pageSize))]) ∧
      ∃ h ∈ hs, (s'.header h).base
        = add32 addr (getNewAllocSize size gfpKernel / pageSize * pageSize)) ∧
    ∀ q, ¬(s.mm.vaToPageId addr ≤ q ∧
        q < s.mm.vaToPageId addr + pageNr (getNewAllocSize size gfpKernel)) →
      used s'.mm.pageMap q = used s.mm.pageMap q ∧
      (s'.mm.pageTable q).usage = (s.mm.pageTable q).usage ∧
      ∀ hs : List Nat, Forward s.mm.links (.page q :: hs.map .header ++ [.page q]) →
        Forward s'.mm.links (.page q :: hs.map .header ++ [.page q])

/-- No block of whole pages in the pages of the bank is released: its first page stays
    in use, or the call does not come back. -/
theorem kfreeKernelMem_releases (s s' : Slab) (size ret total reserved : Nat)
    (hplain : s.mm.PlainMap) (htable : s.mm.TableReserved total reserved)
    (hlow : pageSize ≤ size) (hhigh : size < 2 ^ 31)
    (h : s.kmalloc size gfpKernel = some (ret, s')) (hret : ret ≠ 0)
    (htotal : s'.mm.vaToPageId ret < total) : ¬ReleasesExactly s' ret size := by
  rintro ⟨s₂, hfree, hclear, _⟩
  rcases keepsTable_kmalloc total reserved s s' size gfpKernel ret h hplain htable with
    ⟨hplain', htable'⟩
  rcases kmalloc_whole s s' size ret total reserved hplain htable hlow hhigh h hret with
    ⟨index, hva, hhead⟩
  have hindex : s'.mm.vaToPageId ret = index := by
    rw [hva]
    exact Mm.vaToPageId_pageIdToVa s'.mm index hplain'.start hhead.page
  rw [hindex] at htotal hclear
  rw [hva] at hfree
  have hstays := kfreeKernelMem_keeps s' s₂ index total reserved hplain' htable' hhead htotal hfree
  have hround := (pageNr_whole size hhigh).2
  have hgone := hclear index (Nat.le_refl index) (by
    unfold pageSize at hlow ⊢
    omega)
  exact Bool.noConfusion (hgone.symm.trans hstays)

end Slab

/-- `slab_init` writes list nodes only. -/
theorem tableReserved_slabInit (mm : Mm) (header : Nat → SlabHeader) (total reserved : Nat)
    (hplain : mm.PlainMap) (htable : mm.TableReserved total reserved) :
    (Slab.slabInit mm header).mm.PlainMap ∧
      (Slab.slabInit mm header).mm.TableReserved total reserved :=
  ⟨⟨hplain.start, hplain.aligned, hplain.words⟩,
    ⟨htable.pos, htable.used, htable.count, htable.entry⟩⟩

theorem plainMap_booted (mm : Mm) (kernelEnd uninit : Nat) (hk : mm.kernelStart < u32Size)
    (hal : mm.kernelStart % pageSize = 0) (htotal : mm.totalPage < 2 ^ 20) :
    (mm.initPageTableMap kernelEnd uninit).PlainMap := by
  rcases Mm.initPageTableMap_frame mm kernelEnd uninit with ⟨hstart, hwords, _, _⟩
  refine ⟨?_, ?_, ?_⟩
  · rw [hstart]
    exact hk
  · rw [hstart]
    exact hal
  · rw [hwords]
    exact Mm.bitsToLong_le mm.totalPage htotal

/-- Every allocator that calls of `kmalloc` and `kfree_kernel_mem` lead to after boot has
    the pages of the table reserved. -/
theorem tableReserved_reached (mm : Mm) (kernelEnd uninit : Nat) (header : Nat → SlabHeader)
    (hready : BankReady mm kernelEnd) (hk : mm.kernelStart < u32Size)
    (hal : mm.kernelStart % pageSize = 0) (s : KSession)
    (hrun : Run.Reaches KSession.call (fun _ _ _ => True)
      ⟨Slab.slabInit (mm.initPageTableMap kernelEnd uninit) header, []⟩ s) :
    s.slab.mm.PlainMap ∧ s.slab.mm.TableReserved mm.totalPage (mm.reservedPages kernelEnd) := by
  refine Run.invariant_of_reaches KSession.call _ (fun s => s.slab.mm.PlainMap ∧
    s.slab.mm.TableReserved mm.totalPage (mm.reservedPages kernelEnd)) ?_ _ s hrun ?_
  · rintro t c addr t' ⟨hplain, htable⟩ _ hcall
    cases c with
    | alloc size =>
        simp only [KSession.call, Option.pure_def, Option.bind_eq_bind, Option.bind_eq_some_iff,
          Option.some.injEq, Prod.mk.injEq, Prod.exists] at hcall
        rcases hcall with ⟨ret, slab, hkmalloc, _, rfl⟩
        exact Slab.keepsTable_kmalloc _ _ t.slab slab size gfpKernel ret hkmalloc hplain htable
    | free b =>
        simp only [KSession.call, Option.pure_def, Option.bind_eq_bind, Option.bind_eq_some_iff,
          Option.some.injEq, Prod.mk.injEq] at hcall
        rcases hcall with ⟨slab, hfree, _, rfl⟩
        exact Slab.keepsTable_kfreeKernelMem _ _ t.slab slab b.addr hfree hplain htable
  · exact tableReserved_slabInit _ header _ _
      (plainMap_booted mm kernelEnd uninit hk hal hready.word)
      (Mm.tableReserved_booted mm kernelEnd uninit hready)

/-- On the board, a block of 5000 bytes begins in page 20. -/
theorem kfreeKernelMem_releases_board :
    ∃ s', boardSlab.slab.kmalloc 5000 gfpKernel = some (0x80014000, s') ∧
      ¬Slab.ReleasesExactly s' 0x80014000 5000 := by
  have hboard := tableReserved_slabInit _ (fun _ => ⟨0, 0⟩) _ _
    (plainMap_booted Mm.boardBank 0x80010000 0 (by decide) (by decide) (by decide))
    (Mm.tableReserved_booted Mm.boardBank 0x80010000 0 boardBank_ready)
  have heval : (boardSlab.slab.kmalloc 5000 gfpKernel).map
      (fun r => (r.1, r.2.mm.kernelStart)) = some (0x80014000, 0x80000000) := by decide +kernel
  rcases Option.map_eq_some_iff.mp heval with ⟨⟨ret, s'⟩, hkmalloc, hret⟩
  simp only [Prod.mk.injEq] at hret
  rw [hret.1] at hkmalloc
  refine ⟨s', hkmalloc, Slab.kfreeKernelMem_releases boardSlab.slab s' 5000 _ _ _
    hboard.1 hboard.2 (by decide) (by decide) hkmalloc (by decide) ?_⟩
  unfold Mm.vaToPageId
  rw [hret.2]
  decide

/-- The bit of page 20 is still set after the block was freed. -/
theorem kfreeKernelMem_releases_fails :
    ¬∀ (s s' : Slab) (size ret : Nat), pageSize ≤ size → size < 2 ^ 31 →
      s.kmalloc size gfpKernel = some (ret, s') → ret ≠ 0 → Slab.ReleasesExactly s' ret size := by
  intro hall
  have heval : (boardSlab.slab.kmalloc 5000 gfpKernel).bind (fun r =>
      (r.2.kfreeKernelMem r.1).map (fun s => (r.1, r.2.mm.vaToPageId r.1,
        used s.mm.pageMap 20))) = some (0x80014000, 20, true) := by decide +kernel
  rcases Option.bind_eq_some_iff.mp heval with ⟨⟨ret, s'⟩, hkmalloc, hrest⟩
  rcases Option.map_eq_some_iff.mp hrest with ⟨s₂, hfree, hstate⟩
  simp only [Prod.mk.injEq] at hstate hfree
  rcases hall _ s' 5000 ret (by decide) (by decide) hkmalloc (by rw [hstate.1]; decide) with
    ⟨s₃, hfree', hclear, _⟩
  rw [hfree, Option.some.injEq] at hfree'
  rw [hstate.2.1] at hclear
  have hgone := hclear 20 (Nat.le_refl 20) (by decide)
  rw [← hfree', hstate.2.2] at hgone
  exact Bool.noConfusion hgone

end Mirros
