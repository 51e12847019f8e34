import Mirros.Theory.Task.Alloc

/-!
# Memory Is There

When `alloc_memory_for_task` succeeds: with enough free pages in a row from the
cursor of the NORMAL zone on, every `get_free_page` returns the page at the cursor
and moves it on by one (`getFreePages_ready`), so all loops run to their end
(`allocMemoryForTask_ready`).

## Main definitions

* `Mm.Ready`: The next pages from the cursor on are free.

## Theorems

* `getFreePages_ready`: The page at the cursor is handed out.
* `allocMemoryForTask_ready`: A user task gets its memory.
-/

namespace Mirros

namespace Mm

/-- The next `n` pages from the cursor of the NORMAL zone on are free, and none of
    them has the address zero. -/
structure Ready (mm : Mm) (n : Nat) : Prop where
  mutex : (mm.zone .normal).zoneMutex = 0
  free : n ≤ (mm.zone .normal).freePages
  word : (mm.zone .normal).freePages < u32Size
  cursor : 0 < (mm.zone .normal).bmCurrent
  room : (mm.zone .normal).bmCurrent + n ≤ 32 * mm.mapWords
  clear : ∀ i < n, used mm.pageMap ((mm.zone .normal).bmCurrent + i) = false
  space : mm.kernelStart + 32 * mm.mapWords * pageSize < u32Size
  start : 0 < mm.kernelStart

/-- A search for one page that starts on a free one finds it. -/
theorem findContinousPages_cursor (mm : Mm) (zone : Zone)
    (hcur : zone.bmCurrent < 32 * mm.mapWords) (hclear : used mm.pageMap zone.bmCurrent = false)
    (hword : 32 * mm.mapWords < u32Size) :
    mm.findContinousPages zone 1 = some zone.bmCurrent := by
  have hin : mm.inMap zone.bmCurrent = true := by
    unfold inMap
    exact decide_eq_true (by omega)
  have hfuel : mm.findFuel = (mm.findFuel - 1) + 1 := by
    unfold findFuel
    omega
  unfold findContinousPages
  rw [hfuel, findLoop_succ mm zone 1 _ _ _ _ hin, if_pos ⟨hclear, rfl⟩]
  refine congrArg some ?_
  unfold u32Size at hword
  unfold sub32 u32Size
  omega

/-- All tests on the way to the page at the cursor pass. -/
theorem getFreePages_some (mm : Mm) (n flag : Nat) (hflag : zoneIdOfFlag flag = 0)
    (h : Ready mm (n + 1)) :
    ∃ mm', mm.getFreePages 1 flag
      = some (mm.pageIdToVa (mm.zone .normal).bmCurrent, mm') := by
  have hroom := h.room
  have hfree := h.free
  have hspace := h.space
  have hcursor := h.cursor
  unfold pageSize u32Size at hspace
  -- The zone is unlocked, its cursor is on a clear page, and that page is in the map.
  have hlock : mm.lockZone .normal
      = some (mm.setZone .normal { mm.zone .normal with zoneMutex := 1 }) := by
    unfold lockZone
    rw [if_pos h.mutex]
  have hself : (mm.setZone .normal { mm.zone .normal with zoneMutex := 1 }).zone .normal
      = { mm.zone .normal with zoneMutex := 1 } := by
    simp only [setZone, Function.update_self]
  have hfind : (mm.setZone .normal { mm.zone .normal with zoneMutex := 1 }).findContinousPages
      { mm.zone .normal with zoneMutex := 1 } 1 = some (mm.zone .normal).bmCurrent := by
    refine findContinousPages_cursor _ { mm.zone .normal with zoneMutex := 1 } ?_ ?_ ?_
    · exact Nat.lt_of_lt_of_le (by omega : (mm.zone .normal).bmCurrent < 32 * mm.mapWords)
        (Nat.le_refl _)
    · exact h.clear 0 (by omega)
    · have hlt : 32 * mm.mapWords < u32Size := by
        unfold u32Size
        omega
      exact hlt
  have hmap : ∃ mm', (mm.setZone .normal { mm.zone .normal with
      zoneMutex := 1 }).updateMemoryBitmap (mm.zone .normal).bmCurrent 1 true = some mm' ∧
      mm'.kernelStart = mm.kernelStart := by
    unfold updateMemoryBitmap
    rw [if_pos (Or.inr (by simp only [setZone]; omega))]
    exact ⟨_, rfl, rfl⟩
  rcases hmap with ⟨mm', hmap, hstart⟩
  unfold getFreePages doGetFreePages
  rw [if_neg (by decide), hflag]
  simp only [zoneOfId, Int.toNat_one, hlock, Option.bind_eq_bind, Option.bind_some, hself, hfind,
    Option.pure_def, hmap]
  rw [if_neg (by omega), if_neg (by omega)]
  refine ⟨_, congrArg some (Prod.ext ?_ rfl)⟩
  rw [initPages_eq]
  unfold pageIdToVa
  simp only [unlockZone, setZone, hstart]

/-- The page at the cursor is handed out, and the cursor moves to the next. -/
theorem getFreePages_ready (mm : Mm) (n flag : Nat) (hflag : zoneIdOfFlag flag = 0)
    (h : Ready mm (n + 1)) :
    ∃ addr mm', mm.getFreePages 1 flag = some (addr, mm') ∧ addr ≠ 0 ∧ Ready mm' n := by
  have hroom := h.room
  have hfree := h.free
  have hspace := h.space
  have hword := h.word
  have hstart := h.start
  have hcursor := h.cursor
  -- The cursor is past page zero and the bank ends below the top of the address space.
  have hne : mm.pageIdToVa (mm.zone .normal).bmCurrent ≠ 0 := by
    unfold pageIdToVa add32
    unfold pageSize u32Size at *
    omega
  rcases getFreePages_some mm n flag hflag h with ⟨mm', hget⟩
  refine ⟨_, mm', hget, hne, ?_⟩
  rcases getFreePages_cases mm mm' 1 flag _ hget with
    hzero | ⟨z, index, hz, _, hfind, _, _, htook⟩
  · exact absurd hzero.1 hne
  rw [hflag] at hz
  have hz' : z = .normal := by
    unfold zoneOfId at hz
    exact (Option.some.inj hz).symm
  subst hz'
  -- The search stops where it starts, so the page is the one at the cursor.
  have hindex : index = (mm.zone .normal).bmCurrent := by
    rw [Int.toNat_one, findContinousPages_cursor mm _ (by omega) (h.clear 0 (by omega))
      (by unfold pageSize u32Size at *; omega), Option.some.injEq] at hfind
    exact hfind.symm
  subst hindex
  have hzone : mm'.zone .normal = { mm.zone .normal with
      bmCurrent := add32 (mm.zone .normal).bmCurrent 1
      freeSize := sub32 (mm.zone .normal).freeSize (1 * pageSize)
      freePages := sub32 (mm.zone .normal).freePages 1 } := by
    rw [htook.zones]
    exact Function.update_self _ _ _
  have hcur : add32 (mm.zone .normal).bmCurrent 1 = (mm.zone .normal).bmCurrent + 1 := by
    unfold add32
    unfold pageSize u32Size at *
    omega
  have hless : sub32 (mm.zone .normal).freePages 1 = (mm.zone .normal).freePages - 1 := by
    unfold sub32
    unfold u32Size at *
    omega
  rw [hcur, hless] at hzone
  refine ⟨?_, ?_, ?_, ?_, ?_, fun i hi => ?_, ?_, ?_⟩
  · rw [hzone]
    exact h.mutex
  · rw [hzone]
    exact Nat.le_sub_one_of_lt (by omega)
  · rw [hzone]
    exact Nat.lt_of_le_of_lt (Nat.sub_le _ _) hword
  · rw [hzone]
    exact Nat.succ_pos _
  · rw [hzone, htook.words]
    exact (by omega : (mm.zone .normal).bmCurrent + 1 + n ≤ 32 * mm.mapWords)
  · -- The pages after the cursor are clear as before.
    rw [hzone, htook.bits]
    have hnext := h.clear (i + 1) (by omega)
    rw [if_neg (by simp only [Int.toNat_one]; omega), ← hnext]
    exact congrArg _ (by simp only; omega)
  · rw [htook.start, htook.words]
    exact hspace
  · rw [htook.start]
    exact hstart

theorem ready_setPage (mm : Mm) (n q : Nat) (page : Page) (h : Ready mm n) :
    Ready (mm.setPage q page) n :=
  ⟨h.mutex, h.free, h.word, h.cursor, h.room, h.clear, h.space, h.start⟩

end Mm

namespace Kernel

/-- A loop whose body never fails runs to its end. -/
theorem whileOk_total (body : Kernel → Option (Bool × Kernel)) (I : Nat → Kernel → Prop) (n : Nat)
    (hstep : ∀ i < n, ∀ k, I i k → ∃ k', body k = some (true, k') ∧ I (i + 1) k') :
    ∀ (m i : Nat) (k : Kernel), i + m = n → I i k →
      ∃ k', whileOk body m k = some (true, k') ∧ I n k' := by
  intro m
  induction m with
  | zero =>
      intro i k hi hI
      rw [Nat.add_zero] at hi
      exact ⟨k, rfl, hi ▸ hI⟩
  | succ m ih =>
      intro i k hi hI
      rcases hstep i (by omega) k hI with ⟨k₁, hbody, hI₁⟩
      rcases ih (i + 1) k₁ (by omega) hI₁ with ⟨k', hrest, hI'⟩
      refine ⟨k', ?_, hI'⟩
      rw [whileOk, hbody]
      exact hrest

theorem allocKernelStack_ready (k : Kernel) (t n : Nat) (hbase : (k.task t).stackBase = 0)
    (h : Mm.Ready k.mm (n + 1)) :
    ∃ k', k.allocKernelStack t = some (0, k') ∧ Mm.Ready k'.mm n := by
  rcases Mm.getFreePages_ready k.mm n gfpKernel (by decide) h with ⟨addr, mm', hget, hne, hready⟩
  have hone : ((kernelStackSize / pageSize : Nat) : Int) = 1 := by decide
  unfold allocKernelStack
  rw [if_neg (by rw [hbase]; decide), hone, hget]
  simp only [Option.bind_eq_bind, Option.bind_some, Option.pure_def, if_neg hne]
  exact ⟨_, rfl, hready⟩

theorem addStackTable_ready (k : Kernel) (t n : Nat) (h : Mm.Ready k.mm (n + 1)) :
    ∃ k', k.addStackTable t = some (true, k') ∧ Mm.Ready k'.mm n := by
  rcases Mm.getFreePages_ready k.mm n gfpPgt (by decide) h with ⟨addr, mm', hget, hne, hready⟩
  have hget' : k.mm.getFreePage gfpPgt = some (addr, mm') := hget
  unfold addStackTable
  rw [hget']
  simp only [Option.bind_eq_bind, Option.bind_some, Option.pure_def, if_neg hne]
  exact ⟨_, rfl, Mm.ready_setPage mm' n _ _ hready⟩

theorem addElfTable_ready (k : Kernel) (t n : Nat) (h : Mm.Ready k.mm (n + 1)) :
    ∃ k', k.addElfTable t = some (true, k') ∧ Mm.Ready k'.mm n := by
  rcases Mm.getFreePages_ready k.mm n gfpPgt (by decide) h with ⟨addr, mm', hget, hne, hready⟩
  have hget' : k.mm.getFreePage gfpPgt = some (addr, mm') := hget
  unfold addElfTable
  rw [hget']
  simp only [Option.bind_eq_bind, Option.bind_some, Option.pure_def, if_neg hne]
  exact ⟨_, rfl, hready⟩

theorem allocPageTable_ready (k : Kernel) (t n : Nat) (h : Mm.Ready k.mm (n + 2)) :
    ∃ k', k.allocPageTable t = some (0, k') ∧ Mm.Ready k'.mm n := by
  have hone : (processStackSize + size1M - 1) / size1M = 1 := by decide
  have hone' : (processImageSize + size1M - 1) / size1M = 1 := by decide
  have hloop : ∀ (body : Kernel → Option (Bool × Kernel)) (k k' : Kernel),
      body k = some (true, k') → whileOk body 1 k = some (true, k') := by
    intro body k k' hbody
    rw [whileOk, hbody]
    rfl
  rcases addStackTable_ready k t (n + 1) h with ⟨k₁, hstack, hready₁⟩
  rcases addElfTable_ready (k₁.setTaskMm t { (k₁.task t).mm with
    stackCurr := (k₁.task t).mm.stackList.head? }) t n hready₁ with ⟨k₂, helf, hready₂⟩
  unfold allocPageTable
  rw [hone, hone', hloop _ k k₁ hstack]
  simp only [Option.bind_eq_bind, Option.bind_some, Option.pure_def, Bool.not_true,
    Bool.false_eq_true, if_false]
  rw [hloop _ _ k₂ helf]
  exact ⟨_, rfl, hready₂⟩

section Filling

variable (k₀ k : Kernel) (t qs qe : Nat) (ps rs : List Nat) (hplain : Mm.PlainMap k₀.mm)
  (h : Filling k₀ k t qs qe ps rs)
include hplain h

theorem addPage_ready (elf : Bool) (n : Nat) (hps : ps.length < 1023) (hrs : rs.length < 1023)
    (hready : Mm.Ready k.mm (n + 1)) :
    ∃ k', addPage t elf k = some (true, k') ∧ Mm.Ready k'.mm n := by
  rcases Mm.getFreePages_ready k.mm n gfpKernel (by decide) hready with
    ⟨addr, mm', hget, hne, hready'⟩
  have hget' : k.mm.getFreePage gfpKernel = some (addr, mm') := hget
  have hsize : pageSize = 4096 := rfl
  have hmm := filling_mm k₀ k t qs qe ps rs h
  have hgot : ∀ q, used k.mm.pageMap q = true → mm'.pageTable q = k.mm.pageTable q := by
    intro q hq
    rcases Mm.getFreePages_got k.mm mm' _ addr (h.bank.words ▸ hplain.words) hget with
      hzero | ⟨p, _, hgot⟩
    · exact absurd hzero.1 hne
    · refine hgot.others q (fun hc => ?_)
      have hclear := hgot.clear
      rw [← hc, hq] at hclear
      exact absurd hclear (by decide)
  -- The one table on the list has room.
  have hopen : ∀ q, used k.mm.pageMap q = true → (k.mm.pageTable q).freeSize ≠ 0 →
      (k.setMm mm').openTable [q] (some q) = some q := by
    intro q hq hroom
    have hfind : (mm'.pageTable q).freeSize ≠ 0 := by
      rw [hgot q hq]
      exact hroom
    unfold openTable
    simp only [List.dropWhile_cons, ne_eq, not_true_eq_false, decide_false, Bool.false_eq_true,
      if_false]
    rw [List.find?_cons_of_pos]
    exact decide_eq_true hfind
  have hmap : ∃ q, (k.setMm mm').openTable
      (if elf then ((k.setMm mm').task t).mm.elfList else ((k.setMm mm').task t).mm.stackList)
      (if elf then ((k.setMm mm').task t).mm.elfCurr else ((k.setMm mm').task t).mm.stackCurr)
      = some q := by
    have htask : ((k.setMm mm').task t).mm = filledMm (k₀.task t).mm qs qe ps rs := hmm
    rw [htask]
    cases elf with
    | false =>
        exact ⟨qs, hopen qs (h.pages qs (by simp)).2.1 (by rw [h.stackTable.2, hsize]; omega)⟩
    | true =>
        exact ⟨qe, hopen qe (h.pages qe (by simp)).2.1 (by rw [h.elfTable.2, hsize]; omega)⟩
  rcases hmap with ⟨q, hq⟩
  unfold addPage
  rw [hget']
  simp only [Option.bind_eq_bind, Option.bind_some, Option.pure_def, if_neg hne]
  rw [taskMapMemory_open (k.setMm mm') addr t q elf hq]
  simp only [Option.bind_some]
  exact ⟨_, rfl, Mm.ready_setPage mm' n _ _ hready'⟩

end Filling

theorem allocMemoryAndMap_ready (k₀ k : Kernel) (t qs qe n : Nat) (hplain : Mm.PlainMap k₀.mm)
    (h : Filling k₀ k t qs qe [] []) (hready : Mm.Ready k.mm (n + 260)) :
    ∃ k', k.allocMemoryAndMap t = some (0, k') ∧ Mm.Ready k'.mm n := by
  have hs : pageNr processStackSize = 4 := by decide
  have he : pageNr processImageSize = 256 := by decide
  have hfirst := whileOk_total (addPage t false)
    (fun i k => ∃ ps, Filling k₀ k t qs qe ps [] ∧ ps.length = i ∧
      Mm.Ready k.mm (n + 260 - i)) 4
    (fun i hi k₁ hI => ?_) 4 0 k (by omega) ⟨[], h, rfl, hready⟩
  swap
  · -- One turn takes one page, so `n + 260 - i` pages are left after `i` turns.
    rcases hI with ⟨ps, hps, hlen, hr⟩
    rcases addPage_ready k₀ k₁ t qs qe ps [] hplain hps false (n + 260 - (i + 1)) (by omega)
      (by simp) (by convert hr using 1; omega) with ⟨k₂, hrun, hr'⟩
    rcases addPage_stack k₀ k₁ t qs qe ps [] hps k₂ hplain (by omega) (by simp) hrun with ⟨p, hp⟩
    exact ⟨k₂, hrun, ps ++ [p], hp, by simp [hlen], hr'⟩
  rcases hfirst with ⟨k₁, hrun₁, ps, hps, hlen, hready₁⟩
  have hcount : n + 260 - 4 = n + 256 - 0 := by omega
  have hsecond := whileOk_total (addPage t true)
    (fun i k => ∃ rs, Filling k₀ k t qs qe ps rs ∧ rs.length = i ∧
      Mm.Ready k.mm (n + 256 - i)) 256
    (fun i hi k₁ hI => ?_) 256 0 k₁ (by omega) ⟨[], hps, rfl, hcount ▸ hready₁⟩
  swap
  · rcases hI with ⟨rs, hrs, hlen', hr⟩
    rcases addPage_ready k₀ k₁ t qs qe ps rs hplain hrs true (n + 256 - (i + 1)) (by omega)
      (by omega) (by convert hr using 1; omega) with ⟨k₂, hrun, hr'⟩
    rcases addPage_elf k₀ k₁ t qs qe ps rs hrs k₂ hplain (by omega) (by omega) hrun with ⟨p, hp⟩
    exact ⟨k₂, hrun, rs ++ [p], hp, by simp [hlen'], hr'⟩
  rcases hsecond with ⟨k₂, hrun₂, rs, _, _, hready₂⟩
  rw [Nat.add_sub_cancel] at hready₂
  have hlow : ¬k.mmFreePageNormal < 4 + 256 := by
    have hfree := hready.free
    unfold mmFreePageNormal
    omega
  unfold allocMemoryAndMap
  rw [hs, he, if_neg hlow, hrun₁]
  simp only [Option.bind_eq_bind, Option.bind_some, Option.pure_def, Bool.not_true,
    Bool.false_eq_true, if_false]
  rw [hrun₂]
  exact ⟨k₂, rfl, hready₂⟩

/-- With enough free pages a user task gets its memory. -/
theorem allocMemoryForTask_ready (k : Kernel) (t n : Nat) (hplain : Mm.PlainMap k.mm)
    (huser : (k.task t).flag &&& processTypeUser ≠ 0) (hempty : EmptyMm (k.task t).mm)
    (hbase : (k.task t).stackBase = 0) (hready : Mm.Ready k.mm (n + 263)) :
    ∃ k', k.allocMemoryForTask t = some (0, k') ∧ Mm.Ready k'.mm n := by
  rcases allocKernelStack_ready k t (n + 262) hbase hready with ⟨k₁, hstack, hready₁⟩
  rcases allocKernelStack_cases k k₁ t hplain hstack with ⟨q, mm₁, _, hgot, _, hmm₁, htask, _⟩
  have hself : k₁.task t = { k.task t with
      stackBase := k.mm.pageIdToVa q
      stackOrigin := k.mm.pageIdToVa q } := by
    rw [htask, Function.update_self]
  have hplain₁ : Mm.PlainMap k₁.mm := by
    rw [hmm₁]
    exact Mm.plainMap_same k.mm mm₁ hgot.bank hplain
  rcases allocPageTable_ready k₁ t (n + 260) hready₁ with ⟨k₂, htable, hready₂⟩
  rcases allocPageTable_filling k₁ k₂ t hplain₁ (by rw [hself]; exact hempty) htable with
    ⟨qs, qe, _, _, _, hfill, _, _⟩
  rcases allocMemoryAndMap_ready k₁ k₂ t qs qe n hplain₁ hfill hready₂ with
    ⟨k₃, hmap, hready₃⟩
  refine ⟨k₃, ?_, hready₃⟩
  unfold allocMemoryForTask
  rw [hstack]
  simp only [Option.bind_eq_bind, Option.bind_some, Option.pure_def, ne_eq, not_true_eq_false,
    if_false]
  rw [if_pos (by rw [hself]; exact huser), htable]
  simp only [Option.bind_some, not_true_eq_false, if_false]
  rw [hmap]
  rfl

end Kernel

end Mirros
