import Mirros.Core.Mm

/-!
# What the Page Operations Do

One equation or one inversion for each operation of the page allocator, so that
the invariants above never look inside the definitions again.

A page operation does three things: it changes bits of the page map, it rewrites
the entries of the pages it hands out, and it updates the counters of one zone.
`initPages_eq` and `used_updateMemoryBitmap` give the first two in closed form.
`Took` and `Gave` put all three together as relations between the state before
and after, and `getFreePages_cases`, `getFreePageAligin_cases` and
`freePages_cases` say that a call that returns either changed nothing or is one
of these.

The zone mutex is taken and released inside each call, so it never shows in the
results: `unlockZone_of_lockZone` is the only place where it is looked at.

## Main definitions

* `PlainMap`: The page map numbers the pages of a 32-bit address space.
* `freshPage`: What `init_pages` writes to one entry of the table.
* `freshLinks`: The list nodes of a range of pages after `init_list`.
* `Took`: A run of pages was taken from a zone.
* `Gave`: The run of pages of a header was given back to a zone.

## Theorems

* `vaToPageId_pageIdToVa`: Page numbers survive the trip through addresses.
* `initPages_eq`: The state after `init_pages`.
* `used_updateMemoryBitmap`: The bits after `update_memory_bitmap`.
* `getFreePages_cases`: A call either changes nothing or takes a run.
* `getFreePageAligin_cases`: The same for the aligned page.
* `freePages_cases`: A call either changes nothing or gives a run back.
-/

namespace Mirros

theorem add32_add32 (a b c : Nat) : add32 (add32 a b) c = add32 a (b + c) := by
  unfold add32 u32Size
  omega

namespace Mm

/-- The page map has a number for every page, the pages are aligned, and there are
    no more of them than fit into the address space. -/
structure PlainMap (mm : Mm) : Prop where
  start : mm.kernelStart < u32Size
  aligned : mm.kernelStart % pageSize = 0
  words : 32 * mm.mapWords ≤ 2 ^ 20

theorem isAligin_pow (x k : Nat) : isAligin x (2 ^ k) = true ↔ x % 2 ^ k = 0 := by
  unfold isAligin
  rw [decide_eq_true_eq, Nat.and_two_pow_sub_one_eq_mod]

/-- The address of a page is a page address. -/
theorem isAligin_pageIdToVa (mm : Mm) (i : Nat) (hal : mm.kernelStart % pageSize = 0) :
    isAligin (mm.pageIdToVa i) pageSize = true := by
  refine (isAligin_pow _ 12).mpr ?_
  unfold pageSize at hal
  unfold pageIdToVa add32 u32Size pageSize
  omega

theorem vaToPageId_pageIdToVa (mm : Mm) (index : Nat) (hk : mm.kernelStart < u32Size)
    (hi : index < 2 ^ 20) : mm.vaToPageId (mm.pageIdToVa index) = index := by
  unfold vaToPageId pageIdToVa sub32 add32 pageSize
  unfold u32Size at hk ⊢
  omega

/-- The entry `init_pages` writes for page `i` of a run. -/
def freshPage (mm : Mm) (index count i flag : Nat) : Page :=
  { phyAddress := sub32 (mm.pageIdToVa i) (mm.vaGetPvOffset (mm.pageIdToVa i))
    usage := 1
    count := (if i = index then count else i) % 256
    freeSize := pageSize
    freeBase := mm.pageIdToVa i
    flag := flag }

/-- The node belongs to a page of the range. -/
def pageNodeIn (index count : Nat) : MemNode → Bool
  | .page i => index ≤ i && i < index + count
  | _ => false

/-- The list nodes of a range of pages point at themselves. -/
def freshLinks (l : Links MemNode) (index count : Nat) : Links MemNode :=
  { next := fun n => if pageNodeIn index count n then n else l.next n
    pre := fun n => if pageNodeIn index count n then n else l.pre n }

theorem pageNodeIn_succ (index k : Nat) (n : MemNode) :
    pageNodeIn index (k + 1) n = (pageNodeIn index k n || decide (n = .page (index + k))) := by
  cases n with
  | page i =>
      simp only [pageNodeIn, MemNode.page.injEq]
      by_cases hi : i = index + k
      · rw [hi]
        simp
      · have hiff : (i < index + (k + 1)) ↔ i < index + k := by omega
        simp [hi, hiff]
  | _ => simp [pageNodeIn]

theorem freshLinks_succ (l : Links MemNode) (index k : Nat) :
    initList (freshLinks l index k) (.page (index + k)) = freshLinks l index (k + 1) := by
  have hset : ∀ (f : MemNode → MemNode) (n : MemNode),
      (if n = .page (index + k) then MemNode.page (index + k)
        else if pageNodeIn index k n then n else f n)
        = if pageNodeIn index (k + 1) n then n else f n := by
    intro f n
    rw [pageNodeIn_succ]
    by_cases hn : n = .page (index + k)
    · rw [if_pos hn, hn]
      simp
    · simp [hn]
  unfold initList
  simp only [freshLinks, Links.setNext, Links.setPre, Links.mk.injEq]
  constructor
  · funext n
    rw [Function.update_apply]
    exact hset l.next n
  · funext n
    rw [Function.update_apply]
    exact hset l.pre n

theorem freshLinks_zero (l : Links MemNode) (index : Nat) : freshLinks l index 0 = l := by
  have hnone : ∀ n, pageNodeIn index 0 n = false := by
    intro n
    cases n with
    | page i =>
        simp only [pageNodeIn, Nat.add_zero, Bool.and_eq_false_iff, decide_eq_false_iff_not]
        omega
    | _ => rfl
  unfold freshLinks
  simp only [hnone, Bool.false_eq_true, if_false]

/-- One page is one `init_list`. -/
theorem freshLinks_one (l : Links MemNode) (index : Nat) :
    freshLinks l index 1 = initList l (.page index) := by
  rw [← freshLinks_succ, freshLinks_zero, Nat.add_zero]

theorem initPage_eq (mm : Mm) (index count i flag : Nat) :
    initPage mm index count i flag = { mm with
      pageTable := Function.update mm.pageTable i (mm.freshPage index count i flag)
      links := initList mm.links (.page i) } := by
  simp only [initPage, pageGet, setPage, Function.update_self, Function.update_idem]
  rfl

/-- The state after the first `k` turns of the loop of `init_pages`. -/
theorem initPages_upto (mm : Mm) (index count flag k : Nat) :
    (List.range' index k).foldl
      (fun (acc : Mm × Nat) i =>
        let flag := if i = index then acc.2 ||| gfpPageHeader else acc.2
        (initPage acc.1 index count i flag, flag)) (mm, flag)
      = ({ mm with
            pageTable := fun j => if index ≤ j ∧ j < index + k then
              mm.freshPage index count j (flag ||| gfpPageHeader) else mm.pageTable j
            links := freshLinks mm.links index k },
          if k = 0 then flag else flag ||| gfpPageHeader) := by
  induction k with
  | zero =>
      have htab : (fun j => if index ≤ j ∧ j < index + 0 then
          mm.freshPage index count j (flag ||| gfpPageHeader) else mm.pageTable j)
          = mm.pageTable := by
        funext j
        rw [if_neg (by omega)]
      rw [htab, freshLinks_zero]
      rfl
  | succ k ih =>
      rw [List.range'_concat, List.foldl_append, ih]
      simp only [List.foldl_cons, List.foldl_nil, Nat.one_mul]
      -- The header bit is in the flag from the first turn on.
      have hflag : (if index + k = index then (if k = 0 then flag else flag ||| gfpPageHeader)
          ||| gfpPageHeader else if k = 0 then flag else flag ||| gfpPageHeader)
          = flag ||| gfpPageHeader := by
        by_cases hk : k = 0
        · rw [if_pos (by omega), if_pos hk]
        · rw [if_neg (by omega), if_neg hk]
      rw [hflag, if_neg (Nat.succ_ne_zero k)]
      rw [initPage_eq, freshLinks_succ]
      refine Prod.ext ?_ rfl
      simp only [Mm.mk.injEq, and_true, true_and]
      funext j
      rw [Function.update_apply]
      by_cases hj : j = index + k
      · rw [if_pos hj, hj, if_pos (by omega)]
        rfl
      · rw [if_neg hj]
        by_cases hin : index ≤ j ∧ j < index + k
        · rw [if_pos hin, if_pos (by omega)]
        · rw [if_neg hin, if_neg (by omega)]

theorem initPages_eq (mm : Mm) (index count flag : Nat) :
    mm.initPages index count flag = { mm with
      pageTable := fun j => if index ≤ j ∧ j < index + count then
        mm.freshPage index count j (flag ||| gfpPageHeader) else mm.pageTable j
      links := freshLinks mm.links index count } := by
  unfold initPages
  rw [initPages_upto]

/-- Writing one bit, whichever way. -/
theorem used_writeBit (bitMap : Bitmap) (n i : Nat) (update : Bool) :
    used (if update then setBit bitMap n else clearBit bitMap n) i
      = if i = n then update else used bitMap i := by
  cases update with
  | true =>
      simp only [if_true, used_setBit]
      by_cases hi : i = n
      · simp [hi]
      · simp [hi]
  | false =>
      simp only [Bool.false_eq_true, if_false, used_clearBit]
      by_cases hi : i = n
      · simp [hi]
      · simp [hi]

/-- Setting or clearing a range of bits, position by position. -/
theorem used_foldl_bits (bitMap : Bitmap) (index count : Nat) (update : Bool) (i : Nat) :
    used ((List.range' index count).foldl
      (fun m i => if update then setBit m i else clearBit m i) bitMap) i
      = if index ≤ i ∧ i < index + count then update else used bitMap i := by
  induction count with
  | zero =>
      rw [if_neg (by omega)]
      rfl
  | succ k ih =>
      rw [List.range'_concat, List.foldl_append]
      simp only [List.foldl_cons, List.foldl_nil, Nat.one_mul]
      rw [used_writeBit, ih]
      by_cases hi : i = index + k
      · rw [if_pos hi, if_pos (by omega)]
      · rw [if_neg hi]
        by_cases hin : index ≤ i ∧ i < index + k
        · rw [if_pos hin, if_pos (by omega)]
        · rw [if_neg hin, if_neg (by omega)]

theorem used_updateMemoryBitmap (mm mm' : Mm) (index count : Nat) (update : Bool)
    (h : mm.updateMemoryBitmap index count update = some mm') :
    (count = 0 ∨ index + count ≤ 32 * mm.mapWords) ∧
      ∃ m, mm' = { mm with pageMap := m } ∧
        ∀ i, used m i = if index ≤ i ∧ i < index + count then update else used mm.pageMap i := by
  unfold updateMemoryBitmap at h
  by_cases hb : count = 0 ∨ index + count ≤ 32 * mm.mapWords
  · rw [if_pos hb, Option.some.injEq] at h
    exact ⟨hb, _, h.symm, used_foldl_bits mm.pageMap index count update⟩
  · rw [if_neg hb] at h
    exact absurd h (by simp only [reduceCtorEq, not_false_eq_true])

/-- Taking the zone mutex only works when it is free, and then releasing it
    puts the zone back as it was. -/
theorem lockZone_cases (mm mm' : Mm) (z : ZoneId) (h : mm.lockZone z = some mm') :
    (mm.zone z).zoneMutex = 0 ∧ mm' = mm.setZone z { mm.zone z with zoneMutex := 1 } := by
  unfold lockZone at h
  by_cases hz : (mm.zone z).zoneMutex = 0
  · rw [if_pos hz, Option.some.injEq] at h
    exact ⟨hz, h.symm⟩
  · rw [if_neg hz] at h
    exact absurd h (by simp only [reduceCtorEq, not_false_eq_true])

theorem unlockZone_of_lockZone (mm mm' : Mm) (z : ZoneId) (h : mm.lockZone z = some mm') :
    mm'.unlockZone z = mm := by
  rcases lockZone_cases mm mm' z h with ⟨hz, rfl⟩
  have hzone : ({ mm.zone z with zoneMutex := 0 } : Zone) = mm.zone z := by
    rw [← hz]
  unfold unlockZone setZone
  simp only [Function.update_self, Function.update_idem, hzone, Function.update_eq_self]

/-- The search reads the bits of the page map and the range of the zone. -/
theorem findLoop_congr (mm mm' : Mm) (zone zone' : Zone) (count : Nat)
    (hmap : mm'.pageMap = mm.pageMap) (hwords : mm'.mapWords = mm.mapWords)
    (hs : zone'.bmStart = zone.bmStart) (he : zone'.bmEnd = zone.bmEnd)
    (hc : zone'.bmCurrent = zone.bmCurrent) :
    ∀ (fuel i : Nat) (again : Bool) (sum : Nat),
      mm'.findLoop zone' count fuel i again sum = mm.findLoop zone count fuel i again sum := by
  intro fuel
  induction fuel with
  | zero => intro i again sum; rfl
  | succ fuel ih =>
      intro i again sum
      simp only [findLoop, inMap, hmap, hwords, hs, he, hc, ih]

/-- A new entry depends on the layout of memory only. -/
theorem freshPage_congr (mm mm' : Mm) (hstart : mm'.kernelStart = mm.kernelStart)
    (hsec : ∀ z, (mm'.zone z).memorySection = (mm.zone z).memorySection ∧
      (mm'.zone z).nrSection = (mm.zone z).nrSection) (index count i flag : Nat) :
    mm'.freshPage index count i flag = mm.freshPage index count i flag := by
  have hsections : mm'.sections = mm.sections := by
    unfold sections
    simp only [hsec]
  have hva : mm'.pageIdToVa i = mm.pageIdToVa i := by
    unfold pageIdToVa
    rw [hstart]
  have hoff : mm'.vaGetPvOffset (mm.pageIdToVa i) = mm.vaGetPvOffset (mm.pageIdToVa i) := by
    unfold vaGetPvOffset
    rw [hsections]
  unfold freshPage
  rw [hva, hoff]

/-- A run of pages was taken: its bits are set, its entries are fresh, and one
    zone has new counters. -/
structure Took (mm mm' : Mm) (z : ZoneId) (index count flag : Nat) (zone' : Zone) : Prop where
  bound : count = 0 ∨ index + count ≤ 32 * mm.mapWords
  bits : ∀ i, used mm'.pageMap i = if index ≤ i ∧ i < index + count then true
    else used mm.pageMap i
  table : ∀ i, mm'.pageTable i = if index ≤ i ∧ i < index + count then
    mm.freshPage index count i (flag ||| gfpPageHeader) else mm.pageTable i
  links : mm'.links = freshLinks mm.links index count
  zones : mm'.zone = Function.update mm.zone z zone'
  words : mm'.mapWords = mm.mapWords
  start : mm'.kernelStart = mm.kernelStart

/-- A run of pages was given back: its bits are clear and one zone has new
    counters. -/
structure Gave (mm mm' : Mm) (z : ZoneId) (index count : Nat) (zone' : Zone) : Prop where
  bound : count = 0 ∨ index + count ≤ 32 * mm.mapWords
  bits : ∀ i, used mm'.pageMap i = if index ≤ i ∧ i < index + count then false
    else used mm.pageMap i
  table : mm'.pageTable = mm.pageTable
  links : mm'.links = mm.links
  zones : mm'.zone = Function.update mm.zone z zone'
  words : mm'.mapWords = mm.mapWords
  start : mm'.kernelStart = mm.kernelStart

/-- Marking the run, changing the counters of the locked zone, unlocking it
    and writing the entries, as both allocation paths end. -/
theorem took_of_locked (mm mm₁ mm₂ : Mm) (z : ZoneId) (index count flag : Nat) (zone' : Zone)
    (hlock : mm.lockZone z = some mm₁) (hupd : mm₁.updateMemoryBitmap index count true = some mm₂)
    (hsec : zone'.memorySection = (mm.zone z).memorySection)
    (hnr : zone'.nrSection = (mm.zone z).nrSection) :
    Took mm (((mm₂.setZone z zone').unlockZone z).initPages index count flag) z index count flag
      { zone' with zoneMutex := 0 } := by
  rcases lockZone_cases mm mm₁ z hlock with ⟨_, rfl⟩
  rcases used_updateMemoryBitmap _ mm₂ index count true hupd with ⟨hb, m, rfl, hm⟩
  rw [initPages_eq]
  refine ⟨hb, hm, fun i => ?_, rfl, ?_, rfl, rfl⟩
  · -- A fresh entry is written after the zone changed, but only its sections count.
    by_cases hi : index ≤ i ∧ i < index + count
    · simp only [if_pos hi]
      apply freshPage_congr
      · rfl
      intro w
      by_cases hw : w = z
      · rw [hw]
        simp only [unlockZone, setZone, Function.update_self]
        exact ⟨hsec, hnr⟩
      · simp only [unlockZone, setZone, Function.update_of_ne hw, and_self]
    · simp only [if_neg hi]
      rfl
  · simp only [unlockZone, setZone, Function.update_self, Function.update_idem]

theorem doGetFreePages_cases (mm mm' : Mm) (count flag addr : Nat)
    (h : mm.doGetFreePages count flag = some (addr, mm')) :
    (addr = 0 ∧ mm' = mm) ∨ ∃ z index, zoneOfId (zoneIdOfFlag flag) = some z ∧
      count ≤ (mm.zone z).freePages ∧ mm.findContinousPages (mm.zone z) count = some index ∧
      index ≠ 0 ∧ addr = mm.pageIdToVa index ∧
      Took mm mm' z index count flag { mm.zone z with
        bmCurrent := add32 index count
        freeSize := sub32 (mm.zone z).freeSize (count * pageSize)
        freePages := sub32 (mm.zone z).freePages count } := by
  unfold doGetFreePages at h
  rcases hz : zoneOfId (zoneIdOfFlag flag) with _ | z
  · rw [hz] at h
    simp only [Option.some.injEq, Prod.mk.injEq] at h
    exact Or.inl ⟨h.1.symm, h.2.symm⟩
  rw [hz] at h
  simp only [Option.pure_def, Option.bind_eq_bind, Option.bind_eq_some_iff] at h
  rcases h with ⟨mm₁, hlock, h⟩
  have hunlock := unlockZone_of_lockZone mm mm₁ z hlock
  -- Locking changes the lock word only, so the search does not notice.
  rcases lockZone_cases mm mm₁ z hlock with ⟨hfree, hmm₁⟩
  have hzone : mm₁.zone z = { mm.zone z with zoneMutex := 1 } := by
    rw [hmm₁]
    simp only [setZone, Function.update_self]
  have hsearch : mm₁.findContinousPages (mm₁.zone z) count
      = mm.findContinousPages (mm.zone z) count := by
    unfold findContinousPages findFuel
    rw [findLoop_congr mm mm₁ (mm.zone z) (mm₁.zone z) count (by rw [hmm₁]; rfl)
      (by rw [hmm₁]; rfl) (by rw [hzone]) (by rw [hzone]) (by rw [hzone]), hzone, hmm₁]
    rfl
  by_cases hlow : (mm₁.zone z).freePages < count
  · rw [if_pos hlow, Option.some.injEq, Prod.mk.injEq] at h
    exact Or.inl ⟨h.1.symm, by rw [← h.2, hunlock]⟩
  rw [if_neg hlow, hsearch, Option.bind_eq_some_iff] at h
  rcases h with ⟨index, hindex, h⟩
  by_cases hzero : index = 0
  · rw [if_pos hzero, Option.some.injEq, Prod.mk.injEq] at h
    exact Or.inl ⟨h.1.symm, by rw [← h.2, hunlock]⟩
  rw [if_neg hzero, Option.bind_eq_some_iff] at h
  rcases h with ⟨mm₂, hupd, h⟩
  rw [Option.some.injEq, Prod.mk.injEq] at h
  rcases used_updateMemoryBitmap mm₁ mm₂ index count true hupd with ⟨_, m, hmm₂, _⟩
  -- Marking bits leaves the zone alone, so the new record is the locked one.
  have hzone₂ : mm₂.zone z = { mm.zone z with zoneMutex := 1 } := by
    rw [hmm₂, ← hzone]
  have htook := took_of_locked mm mm₁ mm₂ z index count flag
    { mm.zone z with
      zoneMutex := 1
      bmCurrent := add32 index count
      freeSize := sub32 (mm.zone z).freeSize (count * pageSize)
      freePages := sub32 (mm.zone z).freePages count } hlock hupd rfl rfl
  rw [hzone₂] at h
  rw [h.2, ← hfree] at htook
  refine Or.inr ⟨z, index, rfl, ?_, hindex, hzero, ?_, htook⟩
  · rw [hzone] at hlow
    exact Nat.le_of_not_lt hlow
  · rw [← h.1]
    unfold pageIdToVa
    rw [h.2, htook.start]

theorem getFreePages_cases (mm mm' : Mm) (count : Int) (flag addr : Nat)
    (h : mm.getFreePages count flag = some (addr, mm')) :
    (addr = 0 ∧ mm' = mm) ∨ ∃ z index, zoneOfId (zoneIdOfFlag flag) = some z ∧
      count.toNat ≤ (mm.zone z).freePages ∧
      mm.findContinousPages (mm.zone z) count.toNat = some index ∧
      index ≠ 0 ∧ addr = mm.pageIdToVa index ∧
      Took mm mm' z index count.toNat flag { mm.zone z with
        bmCurrent := add32 index count.toNat
        freeSize := sub32 (mm.zone z).freeSize (count.toNat * pageSize)
        freePages := sub32 (mm.zone z).freePages count.toNat } := by
  unfold getFreePages at h
  by_cases hc : count ≤ 0
  · rw [if_pos hc, Option.some.injEq, Prod.mk.injEq] at h
    exact Or.inl ⟨h.1.symm, h.2.symm⟩
  · rw [if_neg hc] at h
    exact doGetFreePages_cases mm mm' count.toNat flag addr h

/-- What the aligned search reports is a free page of the map. -/
theorem aliginScan_free (mm : Mm) (bound offset : Nat) :
    ∀ (fuel j id : Nat), mm.aliginScan bound offset fuel j = some (some id) →
      mm.inMap id = true ∧ used mm.pageMap id = false := by
  intro fuel
  induction fuel with
  | zero =>
      intro j id h
      exact absurd h (by simp only [aliginScan, reduceCtorEq, not_false_eq_true])
  | succ fuel ih =>
      intro j id h
      unfold aliginScan at h
      by_cases hj : j < bound
      · rw [if_pos hj] at h
        simp only [Option.pure_def, Option.bind_eq_bind, Option.bind_eq_some_iff] at h
        rcases h with ⟨state, hstate, h⟩
        unfold pageState at hstate
        by_cases hin : mm.inMap (mm.vaToPageId j + offset) = true
        · rw [if_pos hin, Option.some.injEq] at hstate
          by_cases hs : state = 0
          · rw [if_pos hs, Option.some.injEq, Option.some.injEq] at h
            -- A free page ends the scan, a used one sends it on.
            rw [← h]
            exact ⟨hin, (readBit_eq_zero_iff _ _).mp (hstate.trans hs)⟩
          · rw [if_neg hs] at h
            exact ih _ id h
        · rw [if_neg hin] at hstate
          exact absurd hstate (by simp only [reduceCtorEq, not_false_eq_true])
      · rw [if_neg hj] at h
        exact absurd h (by simp only [Option.some.injEq, reduceCtorEq, not_false_eq_true])

theorem aliginSections_free (mm : Mm) (offset id : Nat) (ss : List MmSection)
    (h : mm.aliginSections offset ss = some (some id)) :
    mm.inMap id = true ∧ used mm.pageMap id = false := by
  induction ss with
  | nil => exact absurd h (by simp only [aliginSections, Option.some.injEq, reduceCtorEq,
      not_false_eq_true])
  | cons s rest ih =>
      unfold aliginSections at h
      simp only [Option.pure_def, Option.bind_eq_bind, Option.bind_eq_some_iff] at h
      rcases h with ⟨found, hfound, h⟩
      rcases found with _ | found
      · exact ih h
      · simp only [Option.some.injEq] at h
        rw [← h]
        exact aliginScan_free mm _ offset _ _ found hfound

/-- The aligned search reads the bits of the page map and the address of the
    kernel. -/
theorem aliginSections_congr (mm mm' : Mm) (hmap : mm'.pageMap = mm.pageMap)
    (hwords : mm'.mapWords = mm.mapWords) (hstart : mm'.kernelStart = mm.kernelStart)
    (offset : Nat) (ss : List MmSection) :
    mm'.aliginSections offset ss = mm.aliginSections offset ss := by
  have hstate : ∀ n, mm'.pageState n = mm.pageState n := by
    intro n
    unfold pageState inMap
    rw [hmap, hwords]
  have hid : ∀ va, mm'.vaToPageId va = mm.vaToPageId va := by
    intro va
    unfold vaToPageId
    rw [hstart]
  have hscan : ∀ bound fuel j,
      mm'.aliginScan bound offset fuel j = mm.aliginScan bound offset fuel j := by
    intro bound fuel
    induction fuel with
    | zero => intro j; rfl
    | succ fuel ih =>
        intro j
        simp only [aliginScan, hstate, hid, ih]
  induction ss with
  | nil => rfl
  | cons s rest ih => simp only [aliginSections, hscan, ih]

theorem getFreePageAligin_cases (mm mm' : Mm) (aligin flag addr : Nat)
    (h : mm.getFreePageAligin aligin flag = some (addr, mm')) :
    (addr = 0 ∧ mm' = mm) ∨ ∃ z id, zoneOfId (zoneIdOfFlag flag) = some z ∧
      mm.aliginSections ((aligin &&& 0x000fffff) / pageSize)
        ((List.range (mm.zone z).nrSection).map (mm.zone z).memorySection) = some (some id) ∧
      mm.inMap id = true ∧ used mm.pageMap id = false ∧ id ≠ 0 ∧ addr = mm.pageIdToVa id ∧
      Took mm mm' z id 1 flag { mm.zone z with
        freeSize := sub32 (mm.zone z).freeSize pageSize
        freePages := sub32 (mm.zone z).freePages 1 } := by
  unfold getFreePageAligin at h
  rcases hz : zoneOfId (zoneIdOfFlag flag) with _ | z
  · rw [hz] at h
    simp only [Option.some.injEq, Prod.mk.injEq] at h
    exact Or.inl ⟨h.1.symm, h.2.symm⟩
  rw [hz] at h
  simp only [Option.pure_def, Option.bind_eq_bind, Option.bind_eq_some_iff] at h
  rcases h with ⟨mm₁, hlock, found, hfound, h⟩
  -- Only the lock differs between the two states, so the search sees the same bits.
  have hunlock := unlockZone_of_lockZone mm mm₁ z hlock
  rcases lockZone_cases mm mm₁ z hlock with ⟨hfree, hmm₁⟩
  have hzone : mm₁.zone z = { mm.zone z with zoneMutex := 1 } := by
    rw [hmm₁]
    simp only [setZone, Function.update_self]
  by_cases hzero : found.getD 0 = 0
  · rw [if_pos hzero, Option.some.injEq, Prod.mk.injEq] at h
    exact Or.inl ⟨h.1.symm, by rw [← h.2, hunlock]⟩
  rcases found with _ | id
  · exact absurd rfl hzero
  rw [if_neg hzero, Option.bind_eq_some_iff] at h
  rcases h with ⟨mm₂, hupd, h⟩
  rw [Option.some.injEq, Prod.mk.injEq] at h
  rcases aliginSections_free mm₁ _ id _ hfound with ⟨hin, hclear⟩
  rcases used_updateMemoryBitmap mm₁ mm₂ _ 1 true hupd with ⟨_, m, hmm₂, _⟩
  have hzone₂ : mm₂.zone z = { mm.zone z with zoneMutex := 1 } := by
    rw [hmm₂, ← hzone]
  have htook := took_of_locked mm mm₁ mm₂ z id 1 flag
    { mm.zone z with
      zoneMutex := 1
      freeSize := sub32 (mm.zone z).freeSize pageSize
      freePages := sub32 (mm.zone z).freePages 1 } hlock hupd rfl rfl
  rw [hzone₂] at h
  simp only [Option.getD_some] at h hzero
  rw [h.2, ← hfree] at htook
  -- What was found in the locked state, read back in the state before.
  refine Or.inr ⟨z, id, rfl, ?_, ?_, ?_, hzero, ?_, htook⟩
  · rw [hzone, aliginSections_congr mm mm₁ (by rw [hmm₁]; rfl) (by rw [hmm₁]; rfl)
      (by rw [hmm₁]; rfl)] at hfound
    exact hfound
  · rw [hmm₁] at hin
    exact hin
  · rw [hmm₁] at hclear
    exact hclear
  · rw [← h.1]
    unfold pageIdToVa
    rw [h.2, htook.start]

/-- What `__free_pages` does when it returns. -/
theorem doFreePages_cases (mm mm' : Mm) (index : Nat) (z : ZoneId)
    (h : mm.doFreePages index z = some mm') :
    Gave mm mm' z index (mm.pageTable index).count
      { mm.zone z with
        freeSize := add32 (mm.zone z).freeSize ((mm.pageTable index).count * pageSize)
        freePages := add32 (mm.zone z).freePages (mm.pageTable index).count
        bmCurrent := if (mm.zone z).bmCurrent = index + (mm.pageTable index).count
          then index else (mm.zone z).bmCurrent } := by
  simp only [doFreePages, Option.pure_def, Option.bind_eq_bind, Option.bind_eq_some_iff,
    Option.some.injEq] at h
  -- The lock is free before and after, which is what makes the zone record match.
  rcases h with ⟨mm₁, hlock, mm₂, hupd, h⟩
  rcases lockZone_cases mm mm₁ z hlock with ⟨hfree, rfl⟩
  rcases used_updateMemoryBitmap _ mm₂ _ _ false hupd with ⟨hb, m, rfl, hm⟩
  rw [← h]
  refine ⟨hb, hm, rfl, rfl, ?_, rfl, rfl⟩
  simp only [unlockZone, setZone, Function.update_self, Function.update_idem, hfree]

/-- `__free_pages` returns when nobody holds the mutex and the run is in the page
    map. -/
theorem doFreePages_returns (mm : Mm) (index : Nat) (z : ZoneId)
    (hmutex : (mm.zone z).zoneMutex = 0)
    (hb : (mm.pageTable index).count = 0 ∨
      index + (mm.pageTable index).count ≤ 32 * mm.mapWords) :
    ∃ mm', mm.doFreePages index z = some mm' := by
  refine Option.isSome_iff_exists.mp ?_
  simp [doFreePages, lockZone, hmutex, setZone, updateMemoryBitmap, hb]

theorem freePages_cases (mm mm' : Mm) (addr : Nat) (h : mm.freePages addr = some mm') :
    mm' = mm ∨ ∃ z, zoneOfId (zoneIdOfFlag (mm.pageTable (mm.vaToPageId addr)).flag) = some z ∧
      isAligin addr pageSize = true ∧
      (mm.pageTable (mm.vaToPageId addr)).flag &&& gfpPageHeader ≠ 0 ∧
      Gave mm mm' z (mm.vaToPageId addr) (mm.pageTable (mm.vaToPageId addr)).count
        { mm.zone z with
          freeSize := add32 (mm.zone z).freeSize
            ((mm.pageTable (mm.vaToPageId addr)).count * pageSize)
          freePages := add32 (mm.zone z).freePages (mm.pageTable (mm.vaToPageId addr)).count
          bmCurrent := if (mm.zone z).bmCurrent
              = mm.vaToPageId addr + (mm.pageTable (mm.vaToPageId addr)).count
            then mm.vaToPageId addr else (mm.zone z).bmCurrent } := by
  unfold freePages at h
  -- The two tests of the call change nothing when they fail.
  by_cases hal : isAligin addr pageSize = true
  swap
  · rw [if_neg hal, Option.some.injEq] at h
    exact Or.inl h.symm
  rw [if_pos hal] at h
  by_cases hhead : (mm.pageTable (mm.vaToPageId addr)).flag &&& gfpPageHeader ≠ 0
  swap
  · rw [if_neg hhead, Option.some.injEq] at h
    exact Or.inl h.symm
  rw [if_pos hhead] at h
  rcases hz : zoneOfId (zoneIdOfFlag (mm.pageTable (mm.vaToPageId addr)).flag) with _ | z
  · rw [hz] at h
    exact absurd h (by simp only [reduceCtorEq, not_false_eq_true])
  rw [hz] at h
  exact Or.inr ⟨z, rfl, hal, hhead, doFreePages_cases mm mm' _ z h⟩

end Mm

end Mirros
