import Mirros.Theory.Pages.Zones

/-!
# The Counters of the Zones

The page allocator keeps the number of free pages and of free bytes of a zone
apart from the page map and updates them by hand. This file shows that they stay
true: `free_pages` is the number of clear bits in the range of the zone and
`free_size` is that many pages, from boot on and as long as each block was inside
its zone and clear when it was chosen.

At boot the kernel places the page table and the page map behind its own image
and takes the pages of all three from the NORMAL zone. `used_iff_covered` says
that the marked pages are exactly the ones that hold a byte of these, so the
tables do not lie in memory that can be handed out.

A block changes the number of clear bits by its length because its pages were
all clear, or were all set by the call that returned it, and belong to one zone
only. `clearIn_take` and `clearIn_give` are these two facts.

## Main definitions

* `BankReady`: A memory bank as `handle_platform_memory_region` leaves it, large
  enough for the kernel.
* `chosen`: The block a call is about to take.
* `cleanCall`: The block is inside its zone and clear.
* `Counted`: The counters of the managed zones agree with the page map.
* `Accounted`: The invariant of the runs.

## Theorems

* `used_iff_covered`: The pages marked at boot.
* `call_accounted`: One call keeps the counters true.
* `page_accounting`: Over every run from boot, the counters are true.
-/

namespace Mirros

/-- The bank before `init_page_table_map`: all pages of the managed zones are
    free, zones are whole megabytes, and the kernel image with its tables ends
    inside the NORMAL zone. -/
structure BankReady (mm : Mm) (kernelEnd : Nat) : Prop where
  freePages : ∀ z, z ≠ .io → (mm.zone z).freePages = (mm.zone z).pageNum
  pageNum : ∀ z, z ≠ .io → (mm.zone z).pageNum = (mm.zone z).totalSize / pageSize
  freeSize : ∀ z, z ≠ .io → (mm.zone z).freeSize = (mm.zone z).totalSize
  whole : ∀ z, z ≠ .io → size1M ∣ (mm.zone z).totalSize
  total : mm.totalPage
    = (mm.zone .normal).pageNum + (mm.zone .dma).pageNum + (mm.zone .res).pageNum
  word : mm.totalPage < 2 ^ 20
  kernel : mm.kernelStart ≤ kernelEnd
  fits : Mm.mapEnd mm.totalPage kernelEnd ≤ mm.kernelStart + (mm.zone .normal).totalSize
  addr : Mm.mapEnd mm.totalPage kernelEnd < u32Size

/-- A block a call takes from a zone. -/
structure Choice where
  zone : ZoneId
  index : Nat
  count : Nat
  deriving DecidableEq, Repr

/-- The block the search of a call comes up with. -/
def chosen (s : Session) : PageCall → Option Choice
  | .get count flag =>
      match zoneOfId (zoneIdOfFlag flag) with
      | none => none
      | some z =>
          if (s.mm.zone z).freePages < count.toNat then none
          else match s.mm.findContinousPages (s.mm.zone z) count.toNat with
            | none => none
            | some index => if index = 0 then none else some ⟨z, index, count.toNat⟩
  | .aligin aligin flag =>
      match zoneOfId (zoneIdOfFlag flag) with
      | none => none
      | some z =>
          match s.mm.aliginSections ((aligin &&& 0x000fffff) / pageSize)
              ((List.range (s.mm.zone z).nrSection).map (s.mm.zone z).memorySection) with
          | some (some id) => if id = 0 then none else some ⟨z, id, 1⟩
          | _ => none
  | .free _ => none

instance (mm : Mm) (z : ZoneId) (i : Nat) : Decidable (pageIn mm z i) :=
  inferInstanceAs (Decidable (_ ∧ _))

/-- Every page of the block belongs to the zone and is clear. -/
def Clean (mm : Mm) (ch : Choice) : Prop :=
  ∀ i ∈ List.range' ch.index ch.count, pageIn mm ch.zone i ∧ used mm.pageMap i = false

instance (mm : Mm) (ch : Choice) : Decidable (Clean mm ch) :=
  inferInstanceAs (Decidable (∀ i ∈ List.range' ch.index ch.count, _))

/-- Calls of fewer than 256 pages of a managed zone whose block is inside the
    zone and clear when it is chosen, and `free_pages` of a live block. -/
def cleanCall (s : Session) (c : PageCall) (_ : Nat) : Prop :=
  (match c with
    | .get count flag => 1 ≤ count ∧ count < 256 ∧ managedFlag flag
    | .aligin _ flag => managedFlag flag
    | .free b => b ∈ s.live) ∧ ∀ ch ∈ chosen s c, Clean s.mm ch

/-- The counters of the managed zones agree with the page map. -/
def Counted (mm : Mm) : Prop :=
  ∀ z, z ≠ .io → (mm.zone z).freePages = mm.clearIn (mm.zone z).bmStart (mm.zone z).bmEnd ∧
    (mm.zone z).freeSize = pageSize * (mm.zone z).freePages

/-- Where the kernel ends and the free pages begin. -/
theorem reservedPages_eq (mm : Mm) (kernelEnd : Nat) (h : BankReady mm kernelEnd) :
    baligin (sub32 (Mm.tableLayout mm.totalPage kernelEnd).2.2 mm.kernelStart) pageSize
        = pageSize * mm.reservedPages kernelEnd ∧
      mm.reservedPages kernelEnd
        = (Mm.mapEnd mm.totalPage kernelEnd - mm.kernelStart + 4095) / 4096 ∧
      mm.reservedPages kernelEnd ≤ (mm.zone .normal).pageNum ∧
      mm.kernelStart ≤ Mm.mapEnd mm.totalPage kernelEnd := by
  have hnum := h.pageNum .normal (by decide)
  have htotal := h.total
  have hword := h.word
  have hfits := h.fits
  have haddr := h.addr
  have hstart : mm.kernelStart ≤ Mm.mapEnd mm.totalPage kernelEnd := by
    have hk := h.kernel
    unfold Mm.mapEnd Mm.mapStart Mm.roundUp4
    omega
  -- The zone is a whole number of megabytes, so the rounded size still fits.
  rcases h.whole .normal (by decide) with ⟨m, hm⟩
  unfold size1M at hm
  unfold pageSize at hnum
  have hsub : sub32 (Mm.tableLayout mm.totalPage kernelEnd).2.2 mm.kernelStart
      = Mm.mapEnd mm.totalPage kernelEnd - mm.kernelStart := by
    rw [Mm.tableLayout_eq mm.totalPage kernelEnd h.addr]
    unfold sub32
    unfold u32Size at haddr ⊢
    simp only
    omega
  have hround : baligin (Mm.mapEnd mm.totalPage kernelEnd - mm.kernelStart) pageSize
      = (Mm.mapEnd mm.totalPage kernelEnd - mm.kernelStart + 4095) / 4096 * 4096 :=
    Mm.baligin_eq _ 12 (by omega) (by omega)
  have hres : mm.reservedPages kernelEnd
      = (Mm.mapEnd mm.totalPage kernelEnd - mm.kernelStart + 4095) / 4096 := by
    unfold Mm.reservedPages
    rw [hsub, hround]
    unfold pageSize
    omega
  refine ⟨?_, hres, ?_, hstart⟩
  · rw [hsub, hround, hres]
    unfold pageSize
    omega
  · rw [hres]
    omega

/-- The page map covers the pages of all managed zones. -/
theorem totalPage_le_map (mm : Mm) (kernelEnd : Nat) (h : BankReady mm kernelEnd) :
    mm.totalPage ≤ 32 * bitsToLong mm.totalPage := by
  have hword := h.word
  have hmask : mm.totalPage &&& 0xffffffc0 = mm.totalPage / 64 * 64 :=
    Mm.and_mask mm.totalPage 6 (by omega) (by omega)
  -- Whole megabytes are multiples of 64 pages, so the mask drops nothing.
  have hmega : ∀ z, z ≠ .io → (mm.zone z).pageNum % 64 = 0 := by
    intro z hz
    rcases h.whole z hz with ⟨m, hm⟩
    rw [h.pageNum z hz, hm]
    unfold size1M pageSize
    omega
  have h1 := hmega .normal (by decide)
  have h2 := hmega .dma (by decide)
  have h3 := hmega .res (by decide)
  have htotal := h.total
  unfold bitsToLong
  rw [hmask]
  omega

theorem used_iff_covered (mm : Mm) (kernelEnd uninit : Nat) (h : BankReady mm kernelEnd)
    (i : Nat) (hi : i < 32 * bitsToLong mm.totalPage) :
    used (mm.initPageTableMap kernelEnd uninit).pageMap i = true ↔
      mm.kernelStart + i * pageSize < Mm.mapEnd mm.totalPage kernelEnd := by
  rcases reservedPages_eq mm kernelEnd h with ⟨_, hres, _, hstart⟩
  rw [Mm.used_initPageTableMap]
  unfold pageSize
  by_cases hlt : i < mm.reservedPages kernelEnd
  · rw [if_pos hlt]
    simp only [true_iff]
    omega
  · rw [if_neg hlt, if_pos (by omega)]
    simp only [Bool.false_eq_true, false_iff]
    omega

/-- Marking clear pages of an interval. -/
theorem clearIn_take (mm mm' : Mm) (a b index count : Nat)
    (hbits : ∀ i, used mm'.pageMap i = if index ≤ i ∧ i < index + count then true
      else used mm.pageMap i) (ha : a ≤ index) (hb : index + count ≤ b)
    (hclear : ∀ i, index ≤ i → i < index + count → used mm.pageMap i = false) :
    mm'.clearIn a b + count = mm.clearIn a b := by
  apply countIn_block _ _ a b index count ha hb
  · intro i h1 h2
    simp only [hclear i h1 h2, Bool.not_false]
  · intro i h1 h2
    simp only [hbits, if_pos (And.intro h1 h2), Bool.not_true]
  · intro i _ _ hout
    simp only [hbits, if_neg hout]

/-- Clearing marked pages of an interval. -/
theorem clearIn_give (mm mm' : Mm) (a b index count : Nat)
    (hbits : ∀ i, used mm'.pageMap i = if index ≤ i ∧ i < index + count then false
      else used mm.pageMap i) (ha : a ≤ index) (hb : index + count ≤ b)
    (hset : ∀ i, index ≤ i → i < index + count → used mm.pageMap i = true) :
    mm.clearIn a b + count = mm'.clearIn a b := by
  apply countIn_block _ _ a b index count ha hb
  · intro i h1 h2
    simp only [hbits, if_pos (And.intro h1 h2), Bool.not_false]
  · intro i h1 h2
    simp only [hset i h1 h2, Bool.not_true]
  · intro i _ _ hout
    simp only [hbits, if_neg hout]

/-- Writing pages outside an interval. -/
theorem clearIn_off (mm mm' : Mm) (a b index count : Nat) (update : Bool)
    (hbits : ∀ i, used mm'.pageMap i = if index ≤ i ∧ i < index + count then update
      else used mm.pageMap i)
    (hout : ∀ i, a ≤ i → i < b → ¬(index ≤ i ∧ i < index + count)) :
    mm'.clearIn a b = mm.clearIn a b := by
  apply countIn_congr
  intro i h1 h2
  simp only [hbits, if_neg (hout i h1 h2)]

/-- Live blocks are held, each inside the zone its entry names, and the
    counters are true. -/
structure Accounted (reserved : Nat) (s : Session) : Prop where
  held : Held reserved s
  ends : ∀ z, z ≠ .io → (s.mm.zone z).bmEnd < 2 ^ 20
  disjoint : ∀ z w i, z ≠ .io → w ≠ .io → pageIn s.mm z i → pageIn s.mm w i → z = w
  live : ∀ b ∈ s.live, ∃ z, z ≠ .io ∧ (∀ i, b.Covers s.mm i → pageIn s.mm z i) ∧
    zoneOfId (zoneIdOfFlag (s.mm.pageTable (s.mm.vaToPageId b.addr)).flag) = some z
  counted : Counted s.mm

theorem accounted_booted (mm : Mm) (kernelEnd uninit : Nat) (h : BankReady mm kernelEnd) :
    Accounted (mm.reservedPages kernelEnd) (Session.booted mm kernelEnd uninit) := by
  rcases reservedPages_eq mm kernelEnd h with ⟨hround, hres, hfit, hstart⟩
  have hzone := Mm.initPageTableMap_zone mm kernelEnd uninit
  have hword := h.word
  have htotal := h.total
  have hmap := totalPage_le_map mm kernelEnd h
  have hk : mm.kernelStart < u32Size := Nat.lt_of_le_of_lt hstart h.addr
  have hzones := inZone_booted mm kernelEnd uninit hk hword hfit
  -- Behind the reserved pages every bit of the managed zones is clear.
  have hclear : ∀ a b, mm.reservedPages kernelEnd ≤ a → b ≤ mm.totalPage →
      (mm.initPageTableMap kernelEnd uninit).clearIn a b = b - a := by
    intro a b ha hb
    apply countIn_all
    intro i h1 h2
    simp only [Mm.used_initPageTableMap]
    rw [if_neg (by omega), if_pos (by omega)]
    rfl
  have hsize : ∀ z, z ≠ .io → (mm.zone z).totalSize = pageSize * (mm.zone z).pageNum := by
    intro z hz
    rcases h.whole z hz with ⟨m, hm⟩
    rw [h.pageNum z hz, hm]
    unfold size1M pageSize
    omega
  refine ⟨held_booted mm kernelEnd uninit hk hword, fun z hz => ?_, hzones.disjoint, ?_,
    fun z hz => ?_⟩
  · unfold Session.booted
    simp only [hzone]
    cases z with
    | io => exact absurd rfl hz
    | _ =>
        simp only [Mm.bootZone, Mm.setRange]
        omega
  · intro b hb
    exact absurd hb List.not_mem_nil
  · unfold Session.booted
    simp only [hzone]
    have hpages := h.freePages z hz
    have hbytes := h.freeSize z hz
    have hbytes' := hsize z hz
    cases z with
    | normal =>
        simp only [Mm.bootZone, Mm.setRange, Nat.zero_add]
        have hlow : (mm.initPageTableMap kernelEnd uninit).clearIn 0 (mm.reservedPages kernelEnd)
            = 0 := by
          apply countIn_none
          intro i _ hi
          simp only [Mm.used_initPageTableMap]
          rw [if_pos hi]
          rfl
        have hsplit : (mm.initPageTableMap kernelEnd uninit).clearIn 0 (mm.zone .normal).pageNum
            = (mm.zone .normal).pageNum - mm.reservedPages kernelEnd := by
          unfold Mm.clearIn at hlow ⊢
          rw [countIn_split _ 0 _ _ (Nat.zero_le _) hfit, hlow, Nat.zero_add]
          exact hclear _ _ (Nat.le_refl _) (by omega)
        rw [hround, hbytes, hbytes', hpages, hsplit]
        unfold sub32 u32Size pageSize
        omega
    | dma =>
        simp only [Mm.bootZone, Mm.setRange]
        rw [hclear _ _ (by omega) (by omega), hbytes, hbytes', hpages]
        exact ⟨by omega, rfl⟩
    | res =>
        simp only [Mm.bootZone, Mm.setRange]
        rw [hclear _ _ (by omega) (by omega), hbytes, hbytes', hpages]
        exact ⟨by omega, rfl⟩
    | io => exact absurd rfl hz

/-- A zone whose range holds the block is the only one whose count changes. -/
theorem counted_update (mm mm' : Mm) (z : ZoneId) (zone' : Zone) (index count : Nat)
    (update : Bool) (h : Counted mm) (hz : z ≠ .io)
    (hdis : ∀ z w i, z ≠ .io → w ≠ .io → pageIn mm z i → pageIn mm w i → z = w)
    (hbits : ∀ i, used mm'.pageMap i = if index ≤ i ∧ i < index + count then update
      else used mm.pageMap i)
    (hzones : mm'.zone = Function.update mm.zone z zone')
    (hin : ∀ i, index ≤ i ∧ i < index + count → pageIn mm z i)
    (hnew : zone'.freePages = mm'.clearIn zone'.bmStart zone'.bmEnd ∧
      zone'.freeSize = pageSize * zone'.freePages) : Counted mm' := by
  intro w hw
  rw [hzones]
  by_cases hwz : w = z
  · rw [hwz, Function.update_self]
    exact hnew
  · rw [Function.update_of_ne hwz, clearIn_off mm mm' _ _ index count update hbits]
    · exact h w hw
    · -- A page of another zone is not in the block, since the ranges are disjoint.
      intro i h1 h2 hblock
      exact hwz (hdis w z i hw hz ⟨h1, h2⟩ (hin i hblock))

/-- The free pages of a managed zone, in bytes, are a machine word. -/
theorem freePages_bound (reserved : Nat) (s : Session) (h : Accounted reserved s) (z : ZoneId)
    (hz : z ≠ .io) : (s.mm.zone z).freePages < 2 ^ 20 := by
  have hle : s.mm.clearIn (s.mm.zone z).bmStart (s.mm.zone z).bmEnd
      ≤ (s.mm.zone z).bmEnd - (s.mm.zone z).bmStart := countIn_le _ _ _
  have hend := h.ends z hz
  rw [(h.counted z hz).1]
  omega

/-- What does not move: the ranges of the zones. -/
theorem ends_update (mm mm' : Mm) (z : ZoneId) (zone' : Zone)
    (hzones : mm'.zone = Function.update mm.zone z zone')
    (he : zone'.bmEnd = (mm.zone z).bmEnd) (w : ZoneId) :
    (mm'.zone w).bmEnd = (mm.zone w).bmEnd := by
  rw [hzones]
  by_cases hw : w = z
  · rw [hw, Function.update_self, he]
  · rw [Function.update_of_ne hw]

/-- Taking a clean block of fewer than 256 pages. `cur` is the new cursor. -/
theorem accounted_take (reserved : Nat) (s : Session) (mm' : Mm) (z : ZoneId)
    (index count flag cur : Nat) (h : Accounted reserved s) (hz : z ≠ .io)
    (hflag : zoneOfId (zoneIdOfFlag flag) = some z) (hpos : 0 < count) (hbyte : count < 256)
    (hclean : Clean s.mm ⟨z, index, count⟩)
    (ht : Mm.Took s.mm mm' z index count flag { s.mm.zone z with
      bmCurrent := cur
      freeSize := sub32 (s.mm.zone z).freeSize (count * pageSize)
      freePages := sub32 (s.mm.zone z).freePages count }) :
    Accounted reserved ⟨mm', s.hold (s.mm.pageIdToVa index) count⟩ := by
  have hclean' : ∀ i, index ≤ i ∧ i < index + count →
      pageIn s.mm z i ∧ used s.mm.pageMap i = false := by
    intro i hi
    exact hclean i (List.mem_range'_1.mpr hi)
  rcases held_take reserved s mm' z index count flag _ h.held ht hpos hbyte
    (fun i h1 h2 => (hclean' i ⟨h1, h2⟩).2) with ⟨hheld, hres, hapart⟩
  have hfirst := first_of_bound s.mm index count h.held.start h.held.words hpos ht.bound
  -- The first and the last page of the block bound it inside the zone.
  have hlow := (hclean' index ⟨Nat.le_refl _, by omega⟩).1
  have hhigh := (hclean' (index + count - 1) (by omega)).1
  have hpage := pageIn_update s.mm mm' z _ ht.zones rfl rfl
  have hcount := clearIn_take s.mm mm' (s.mm.zone z).bmStart (s.mm.zone z).bmEnd index count
    ht.bits (by unfold pageIn at hlow; omega) (by unfold pageIn at hhigh; omega)
    (fun i h1 h2 => (hclean' i ⟨h1, h2⟩).2)
  have hbound := freePages_bound reserved s h z hz
  have hold := h.counted z hz
  refine ⟨held_hold reserved s mm' _ _ hheld, fun w hw => ?_, fun w v i hw hv hwi hvi => ?_,
    fun b hb => ?_, ?_⟩
  · simp only [ends_update s.mm mm' z _ ht.zones rfl w]
    exact h.ends w hw
  · rw [hpage] at hwi hvi
    exact h.disjoint w v i hw hv hwi hvi
  · simp only [vaToPageId_of_start s.mm mm' ht.start, covers_of_start s.mm mm' ht.start, hpage]
    -- Ownership: the new block by its fresh entry, an old one by its old entry.
    rcases mem_hold s _ count b hb with hb | hb
    · rw [hb]
      simp only [Block.Covers, hfirst]
      refine ⟨z, hz, fun i hi => (hclean' i hi).1, ?_⟩
      rw [ht.table, if_pos (by omega)]
      simp only [Mm.freshPage, zoneIdOfFlag_header]
      exact hflag
    · rcases h.live b hb with ⟨w, hw, hcov, hwflag⟩
      refine ⟨w, hw, hcov, ?_⟩
      have hpos' := (h.held.head b hb).1
      -- The block is apart from the old ones, so their first entries are not touched.
      rw [ht.table, if_neg]
      · exact hwflag
      · intro hin
        refine hapart b hb (s.mm.vaToPageId b.addr) ?_ ⟨Nat.le_refl _, by omega⟩
        unfold Block.Covers
        rw [hfirst]
        exact hin
  · apply counted_update s.mm mm' z _ index count true h.counted hz h.disjoint ht.bits ht.zones
      -- The count fell by `count`; `freePages_bound` keeps the byte counter in a word.
      (fun i hi => (hclean' i hi).1)
    simp only
    unfold sub32 u32Size pageSize at *
    omega

/-- Giving a live block back. -/
theorem accounted_give (reserved : Nat) (s : Session) (mm' : Mm) (z : ZoneId) (b : Block)
    (cur : Nat) (h : Accounted reserved s) (hb : b ∈ s.live) (hz : z ≠ .io)
    (hin : ∀ i, b.Covers s.mm i → pageIn s.mm z i)
    (hg : Mm.Gave s.mm mm' z (s.mm.vaToPageId b.addr) b.count { s.mm.zone z with
      freeSize := add32 (s.mm.zone z).freeSize (b.count * pageSize)
      freePages := add32 (s.mm.zone z).freePages b.count
      bmCurrent := cur }) : Accounted reserved ⟨mm', s.live.erase b⟩ := by
  have hpos := (h.held.head b hb).1
  have hlow := hin (s.mm.vaToPageId b.addr) ⟨Nat.le_refl _, by omega⟩
  have hhigh := hin (s.mm.vaToPageId b.addr + b.count - 1) (by unfold Block.Covers; omega)
  -- The pages given back were used and in the zone, so the count grows by `b.count`.
  have hpage := pageIn_update s.mm mm' z _ hg.zones rfl rfl
  have hcount := clearIn_give s.mm mm' (s.mm.zone z).bmStart (s.mm.zone z).bmEnd _ b.count
    hg.bits (by unfold pageIn at hlow; omega) (by unfold pageIn at hhigh; omega)
    (fun i h1 h2 => (h.held.bits b hb i ⟨h1, h2⟩).2)
  have hle : mm'.clearIn (s.mm.zone z).bmStart (s.mm.zone z).bmEnd
      ≤ (s.mm.zone z).bmEnd - (s.mm.zone z).bmStart := countIn_le _ _ _
  have hend := h.ends z hz
  have hold := h.counted z hz
  refine ⟨held_give reserved s mm' z _ b h.held hb hg, fun w hw => ?_,
    fun w v i hw hv hwi hvi => ?_, fun c hc => ?_, ?_⟩
  · simp only [ends_update s.mm mm' z _ hg.zones rfl w]
    exact h.ends w hw
  · rw [hpage] at hwi hvi
    exact h.disjoint w v i hw hv hwi hvi
  · simp only [vaToPageId_of_start s.mm mm' hg.start, covers_of_start s.mm mm' hg.start, hpage,
      hg.table]
    exact h.live c (List.mem_of_mem_erase hc)
  · apply counted_update s.mm mm' z _ _ b.count false h.counted hz h.disjoint hg.bits hg.zones hin
    simp only
    unfold add32 u32Size pageSize at *
    omega

theorem call_accounted (reserved : Nat) (s s' : Session) (c : PageCall) (addr : Nat)
    (h : Accounted reserved s) (hc : cleanCall s c addr) (hcall : s.call c = some (addr, s')) :
    Accounted reserved s' := by
  rcases hc with ⟨hlegal, hclean⟩
  cases c with
  | get count flag =>
      rcases hlegal with ⟨hone, hbyte, hman⟩
      rcases call_get s s' count flag addr hcall with ⟨mm', hget, rfl⟩
      rcases Mm.getFreePages_cases s.mm mm' count flag addr hget with
        ⟨hzero, hmm⟩ | ⟨z, index, hflag, hfree, hfind, hne, haddr, htook⟩
      · rw [hzero, hmm]
        exact h
      have hch : chosen s (.get count flag) = some ⟨z, index, count.toNat⟩ := by
        simp only [chosen, hflag]
        rw [if_neg (by omega), hfind]
        simp only [if_neg hne]
      rw [haddr]
      exact accounted_take reserved s mm' z index count.toNat flag _ h
        (zone_of_managed flag z hman hflag) hflag (by omega) (by omega) (hclean _ hch) htook
  | aligin aligin flag =>
      rcases call_aligin s s' aligin flag addr hcall with ⟨mm', hget, rfl⟩
      rcases Mm.getFreePageAligin_cases s.mm mm' aligin flag addr hget with
        ⟨hzero, hmm⟩ | ⟨z, id, hflag, hfind, _, _, hne, haddr, htook⟩
      · rw [hzero, hmm]
        exact h
      have hch : chosen s (.aligin aligin flag) = some ⟨z, id, 1⟩ := by
        simp only [chosen, hflag, hfind, if_neg hne]
      rw [haddr]
      -- The aligned search leaves the cursor where it is.
      exact accounted_take reserved s mm' z id 1 flag (s.mm.zone z).bmCurrent h
        (zone_of_managed flag z hlegal hflag) hflag (by omega) (by omega) (hclean _ hch)
        (by simpa only [Nat.one_mul] using htook)
  | free b =>
      rcases call_free s s' b addr hcall with ⟨mm', hfree, _, rfl⟩
      rcases Mm.freePages_cases s.mm mm' b.addr hfree with hmm | ⟨z, hflag, _, _, hgave⟩
      · rw [hmm]
        exact ⟨held_drop reserved s b h.held hlegal, h.ends, h.disjoint,
          fun c hc => h.live c (List.mem_of_mem_erase hc), h.counted⟩
      · rcases h.live b hlegal with ⟨w, hw, hin, hwflag⟩
        rw [hwflag, Option.some.injEq] at hflag
        rw [← hflag, (h.held.head b hlegal).2] at hgave
        exact accounted_give reserved s mm' w b _ h hlegal hw hin hgave

/-- Boot marks exactly the pages that hold a byte of the kernel image, the page
    table or the page map, and over every run from there in which each block was
    inside its zone and clear when it was chosen, `free_pages` is the number of
    clear bits of the zone and `free_size` is that many pages. -/
theorem page_accounting (mm : Mm) (kernelEnd uninit : Nat) (h : BankReady mm kernelEnd)
    (mm₀ : Mm) (hboot : mm₀ = mm.initPageTableMap kernelEnd uninit) :
    (∀ i < 32 * mm₀.mapWords, used mm₀.pageMap i = true ↔
      mm₀.kernelStart + i * pageSize < mm₀.pageMapAddr + 4 * mm₀.mapWords) ∧
    (mm₀.pageTableAddr + mm.totalPage * Mm.sizeofPage ≤ mm₀.pageMapAddr ∧
      ∀ a, mm₀.pageTableAddr ≤ a → a < mm₀.pageMapAddr + 4 * mm₀.mapWords →
        used mm₀.pageMap (mm₀.vaToPageId a) = true) ∧
    ∀ s, Run.Reaches Session.call cleanCall ⟨mm₀, []⟩ s → Counted s.mm := by
  rcases Mm.initPageTableMap_frame mm kernelEnd uninit with ⟨hstart, hwords, htable, hmap⟩
  rw [Mm.tableLayout_eq mm.totalPage kernelEnd h.addr] at htable hmap
  simp only at htable hmap
  have hend : Mm.mapStart mm.totalPage kernelEnd + 4 * bitsToLong mm.totalPage
      = Mm.mapEnd mm.totalPage kernelEnd := by
    unfold Mm.mapEnd
    omega
  have hused := used_iff_covered mm kernelEnd uninit h
  rcases reservedPages_eq mm kernelEnd h with ⟨_, hres, hfit, hbelow⟩
  have htotal := h.total
  have hcover := totalPage_le_map mm kernelEnd h
  rw [hboot, hstart, hwords, htable, hmap, hend]
  refine ⟨hused, ⟨?_, fun a h1 h2 => ?_⟩, fun s hrun => ?_⟩
  · unfold Mm.mapStart Mm.roundUp4
    omega
  · -- An address of the tables belongs to a page with a number below the map's end.
    have haddr := h.addr
    have hkernel := h.kernel
    have hlow : mm.kernelStart ≤ a := by
      unfold Mm.roundUp4 at h1
      omega
    have hid : (mm.initPageTableMap kernelEnd uninit).vaToPageId a
        = (a - mm.kernelStart) / 4096 := by
      unfold Mm.vaToPageId sub32 pageSize
      rw [hstart]
      unfold u32Size at haddr ⊢
      omega
    rw [hid]
    apply (hused _ (by omega)).mpr
    unfold pageSize
    omega
  · have hinv : Accounted (mm.reservedPages kernelEnd) s := by
      apply Run.invariant_of_reaches Session.call cleanCall
        (Accounted (mm.reservedPages kernelEnd)) _ _ s hrun
      · exact accounted_booted mm kernelEnd uninit h
      · intro t c a t' ih hc hcall
        exact call_accounted _ t t' c a ih hc hcall
    exact hinv.counted

instance (s : Session) (c : PageCall) (addr : Nat) : Decidable (cleanCall s c addr) :=
  match c with
  | .get count flag => inferInstanceAs (Decidable ((1 ≤ count ∧ count < 256 ∧ managedFlag flag) ∧
      ∀ ch ∈ chosen s (.get count flag), Clean s.mm ch))
  | .aligin aligin flag => inferInstanceAs (Decidable (managedFlag flag ∧
      ∀ ch ∈ chosen s (.aligin aligin flag), Clean s.mm ch))
  | .free b => inferInstanceAs (Decidable (b ∈ s.live ∧ ∀ ch ∈ chosen s (.free b), Clean s.mm ch))

/-- What holds of the three managed zones, one by one. -/
theorem forall_managed {P : ZoneId → Prop} (hnormal : P .normal) (hdma : P .dma) (hres : P .res)
    (z : ZoneId) (hz : z ≠ .io) : P z := by
  cases z with
  | normal => exact hnormal
  | dma => exact hdma
  | res => exact hres
  | io => exact absurd rfl hz

theorem boardBank_ready : BankReady Mm.boardBank 0x80010000 := by
  refine ⟨?_, ?_, ?_, ?_, by decide, by decide, by decide, by decide, by decide⟩
  · exact forall_managed (by decide) (by decide) (by decide)
  · exact forall_managed (by decide) (by decide) (by decide)
  · exact forall_managed (by decide) (by decide) (by decide)
  · exact forall_managed (by decide) (by decide) (by decide)

/-- On the board, after a block of three pages, an aligned page and the return
    of the block, 235 of the 256 pages of the NORMAL zone are free. -/
theorem page_accounting_board :
    ∃ s, Run.Reaches Session.call cleanCall (Session.booted Mm.boardBank 0x80010000 0) s ∧
      s.live = [⟨0x800ff000, 1⟩] ∧ (s.mm.zone .normal).freePages = 235 ∧ Counted s.mm := by
  have heval : (Run.follow Session.call cleanCall (Session.booted Mm.boardBank 0x80010000 0)
      [.get 3 gfpKernel, .aligin 0xff000 gfpKernel, .free ⟨0x80014000, 3⟩]).map
        (fun s => (s.live, (s.mm.zone .normal).freePages))
      = some ([⟨0x800ff000, 1⟩], 235) := by decide +kernel
  rcases Option.map_eq_some_iff.mp heval with ⟨s, hs, hstate⟩
  rw [Prod.mk.injEq] at hstate
  have hrun := Run.reaches_of_follow Session.call cleanCall _ _ s hs
  exact ⟨s, hrun, hstate.1, hstate.2, (page_accounting Mm.boardBank 0x80010000 0 boardBank_ready
    _ rfl).2.2 s hrun⟩

end Mirros
