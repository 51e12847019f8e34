import Mirros.Theory.Pages.Session

/-!
# Blocks Stay in Their Zone

Which pages a zone hands out. The search starts at the cursor of the zone and
reads the bit of page `bm_end` before it tests for the end, so the first page of
the next zone can become the last page of a block; the cursor then stands one
past the end, and from there the search runs through the memory of the other
zones. `Overshoots` is the condition under which this happens, stated on the
bits and the cursor before the call, and it is exact for a single call
(`findContinousPages_end`).

Over a run in which no search overshoots, the cursors stay in their ranges and
every block lies in its zone. Blocks may overlap in such a run, since the search
counts clear bits that are not consecutive. All that is needed about a live
block is that its first page is in the zone that its entry names
(`InZone.live`), and this survives being overwritten by another block, because
ranges of different zones are disjoint.

## Main definitions

* `blockCall`: The calls of the runs: any number of pages, and `free_pages` of
  live blocks.
* `containedCall`: The same, unless the search overshoots.
* `Contained`: Cursors are in range and the next block is in its zone.
* `InZone`: The invariant of the runs.

## Theorems

* `call_contained`: One call that does not overshoot keeps the invariant.
* `zone_containment`: Over every run without overshooting, zones contain their
  blocks.
* `zone_containment_fails`: A run on the board whose last block is a page of
  the next zone.
-/

namespace Mirros

/-- Any number of pages of a managed zone, and `free_pages` of a live block. -/
def blockCall (s : Session) (c : PageCall) (_ : Nat) : Prop :=
  match c with
  | .get count flag => 1 ≤ count ∧ managedFlag flag
  | .aligin _ _ => False
  | .free b => b ∈ s.live

/-- The search of the call gets past the test of the free pages and ends on the
    bit of page `bm_end`. -/
def overshootingCall (s : Session) : PageCall → Bool
  | .get count flag =>
      match zoneOfId (zoneIdOfFlag flag) with
      | none => false
      | some z => count.toNat ≤ (s.mm.zone z).freePages ∧
          s.mm.Overshoots (s.mm.zone z) count.toNat
  | _ => false

/-- A call of `blockCall` that does not overshoot. -/
def containedCall (s : Session) (c : PageCall) (addr : Nat) : Prop :=
  blockCall s c addr ∧ overshootingCall s c = false

/-- The cursor of every managed zone is in its range, and a block returned by
    the next call has only pages of its zone. -/
def Contained (allowed : Session → PageCall → Nat → Prop) (s : Session) : Prop :=
  (∀ z, z ≠ .io → Mm.CursorIn (s.mm.zone z)) ∧
    ∀ count flag addr s' z, allowed s (.get count flag) addr →
      s.call (.get count flag) = some (addr, s') → addr ≠ 0 →
      zoneOfId (zoneIdOfFlag flag) = some z →
      ∀ i, Block.Covers ⟨addr, count.toNat⟩ s.mm i →
        (s.mm.zone z).bmStart ≤ i ∧ i < (s.mm.zone z).bmEnd

/-- The page belongs to the zone. -/
def pageIn (mm : Mm) (z : ZoneId) (i : Nat) : Prop :=
  (mm.zone z).bmStart ≤ i ∧ i < (mm.zone z).bmEnd

/-- Cursors are in range, ranges are disjoint, and the entry of the first page
    of a live block names the zone the page is in. -/
structure InZone (s : Session) : Prop where
  words : 32 * s.mm.mapWords ≤ 2 ^ 20
  start : s.mm.kernelStart < u32Size
  cursor : ∀ z, z ≠ .io → Mm.CursorIn (s.mm.zone z)
  disjoint : ∀ z w i, z ≠ .io → w ≠ .io → pageIn s.mm z i → pageIn s.mm w i → z = w
  live : ∀ b ∈ s.live, ∃ z, z ≠ .io ∧ pageIn s.mm z (s.mm.vaToPageId b.addr) ∧
    zoneOfId (zoneIdOfFlag (s.mm.pageTable (s.mm.vaToPageId b.addr)).flag) = some z

theorem zone_of_managed (flag : Nat) (z : ZoneId) (h : managedFlag flag)
    (hz : zoneOfId (zoneIdOfFlag flag) = some z) : z ≠ .io := by
  unfold managedFlag at h
  generalize zoneIdOfFlag flag = id at h hz
  intro hio
  rw [hio] at hz
  match id, h with
  | 0, _ => exact absurd hz (by decide)
  | 1, _ => exact absurd hz (by decide)
  | 2, _ => exact absurd hz (by decide)

theorem inZone_booted (mm : Mm) (kernelEnd uninit : Nat) (hk : mm.kernelStart < u32Size)
    (ht : mm.totalPage < 2 ^ 20) (hfit : mm.reservedPages kernelEnd ≤ (mm.zone .normal).pageNum) :
    InZone (Session.booted mm kernelEnd uninit) := by
  rcases Mm.initPageTableMap_frame mm kernelEnd uninit with ⟨hstart, hwords, _⟩
  have hzone := Mm.initPageTableMap_zone mm kernelEnd uninit
  refine ⟨?_, ?_, fun z hz => ?_, fun z w i hz hw hzi hwi => ?_, ?_⟩
  · unfold Session.booted
    rw [hwords]
    exact Mm.bitsToLong_le mm.totalPage ht
  · unfold Session.booted
    rw [hstart]
    exact hk
  · unfold Session.booted Mm.CursorIn
    rw [hzone]
    cases z with
    | normal =>
        simp only [Mm.bootZone, Mm.setRange]
        omega
    | dma =>
        simp only [Mm.bootZone, Mm.setRange]
        omega
    | res =>
        simp only [Mm.bootZone, Mm.setRange]
        omega
    | io => exact absurd rfl hz
  · -- The ranges follow each other from page zero, whatever their lengths.
    unfold Session.booted pageIn at hzi hwi
    simp only [hzone] at hzi hwi
    cases z <;> cases w <;>
      first
        | rfl
        | exact absurd rfl hz
        | exact absurd rfl hw
        | (simp only [Mm.bootZone, Mm.setRange] at hzi hwi; omega)
  · intro b hb
    exact absurd hb List.not_mem_nil

/-- New counters and a new cursor leave the ranges alone. -/
theorem pageIn_update (mm mm' : Mm) (z : ZoneId) (zone' : Zone)
    (hzones : mm'.zone = Function.update mm.zone z zone')
    (hs : zone'.bmStart = (mm.zone z).bmStart) (he : zone'.bmEnd = (mm.zone z).bmEnd)
    (w : ZoneId) (i : Nat) : pageIn mm' w i ↔ pageIn mm w i := by
  unfold pageIn
  rw [hzones]
  by_cases hw : w = z
  · rw [hw, Function.update_self, hs, he]
  · rw [Function.update_of_ne hw]

theorem cursorIn_update (mm mm' : Mm) (z : ZoneId) (zone' : Zone)
    (hzones : mm'.zone = Function.update mm.zone z zone')
    (hcur : ∀ w, w ≠ .io → Mm.CursorIn (mm.zone w)) (hnew : Mm.CursorIn zone')
    (w : ZoneId) (hw : w ≠ .io) : Mm.CursorIn (mm'.zone w) := by
  rw [hzones]
  by_cases hwz : w = z
  · rw [hwz, Function.update_self]
    exact hnew
  · rw [Function.update_of_ne hwz]
    exact hcur w hw

theorem inZone_take (s : Session) (mm' : Mm) (z : ZoneId) (index count flag : Nat)
    (zone' : Zone) (h : InZone s) (ht : Mm.Took s.mm mm' z index count flag zone')
    (hz : z ≠ .io) (hflag : zoneOfId (zoneIdOfFlag flag) = some z) (hpos : 0 < count)
    (hs : zone'.bmStart = (s.mm.zone z).bmStart) (he : zone'.bmEnd = (s.mm.zone z).bmEnd)
    (hcur : Mm.CursorIn zone')
    (hin : (s.mm.zone z).bmStart ≤ index ∧ index + count ≤ (s.mm.zone z).bmEnd) :
    InZone ⟨mm', s.hold (s.mm.pageIdToVa index) count⟩ := by
  have hfirst := first_of_bound s.mm index count h.start h.words hpos ht.bound
  have hpage := pageIn_update s.mm mm' z zone' ht.zones hs he
  refine ⟨?_, ?_, ?_, fun w v i hw hv hwi hvi => ?_, fun b hb => ?_⟩
  · rw [ht.words]
    exact h.words
  · rw [ht.start]
    exact h.start
  · exact cursorIn_update s.mm mm' z zone' ht.zones h.cursor hcur
  · rw [hpage] at hwi hvi
    exact h.disjoint w v i hw hv hwi hvi
  · simp only [vaToPageId_of_start s.mm mm' ht.start, hpage]
    -- A first page inside the new block gets an entry of the zone it is in.
    have hfresh : ∀ i, index ≤ i ∧ i < index + count →
        zoneOfId (zoneIdOfFlag (mm'.pageTable i).flag) = some z := by
      intro i hi
      rw [ht.table, if_pos hi]
      simp only [Mm.freshPage, zoneIdOfFlag_header]
      exact hflag
    have hold : ∀ c ∈ s.live, ∃ w, w ≠ .io ∧ pageIn s.mm w (s.mm.vaToPageId c.addr) ∧
        zoneOfId (zoneIdOfFlag (mm'.pageTable (s.mm.vaToPageId c.addr)).flag) = some w := by
      intro c hc
      rcases h.live c hc with ⟨w, hw, hwi, hwflag⟩
      by_cases hi : index ≤ s.mm.vaToPageId c.addr ∧ s.mm.vaToPageId c.addr < index + count
      · have hzi : pageIn s.mm z (s.mm.vaToPageId c.addr) := by
          unfold pageIn
          omega
        exact ⟨z, hz, hzi, hfresh _ hi⟩
      · refine ⟨w, hw, hwi, ?_⟩
        rw [ht.table, if_neg hi]
        exact hwflag
    rcases mem_hold s _ count b hb with hb | hb
    · rw [hb]
      simp only [hfirst]
      exact ⟨z, hz, by unfold pageIn; omega, hfresh index (by omega)⟩
    · exact hold b hb

theorem inZone_give (s : Session) (mm' : Mm) (z : ZoneId) (count : Nat) (zone' : Zone)
    (b : Block) (h : InZone s)
    (hg : Mm.Gave s.mm mm' z (s.mm.vaToPageId b.addr) count zone')
    (hs : zone'.bmStart = (s.mm.zone z).bmStart) (he : zone'.bmEnd = (s.mm.zone z).bmEnd)
    (hcur : Mm.CursorIn zone') : InZone ⟨mm', s.live.erase b⟩ := by
  have hpage := pageIn_update s.mm mm' z zone' hg.zones hs he
  refine ⟨?_, ?_, ?_, fun w v i hw hv hwi hvi => ?_, fun c hc => ?_⟩
  · rw [hg.words]
    exact h.words
  · rw [hg.start]
    exact h.start
  · exact cursorIn_update s.mm mm' z zone' hg.zones h.cursor hcur
  · rw [hpage] at hwi hvi
    exact h.disjoint w v i hw hv hwi hvi
  · simp only [vaToPageId_of_start s.mm mm' hg.start, hpage, hg.table]
    exact h.live c (List.mem_of_mem_erase hc)

/-- The range a search found that does not overshoot. -/
theorem run_in_zone (s : Session) (h : InZone s) (count : Int) (flag index : Nat) (z : ZoneId)
    (hc : 1 ≤ count) (hz : z ≠ .io) (hflag : zoneOfId (zoneIdOfFlag flag) = some z)
    (hfree : count.toNat ≤ (s.mm.zone z).freePages)
    (hfind : s.mm.findContinousPages (s.mm.zone z) count.toNat = some index) (hne : index ≠ 0)
    (hover : overshootingCall s (.get count flag) = false) :
    (s.mm.zone z).bmStart ≤ index ∧ index + count.toNat ≤ (s.mm.zone z).bmEnd := by
  have hwords : 32 * s.mm.mapWords < u32Size := by
    have := h.words
    unfold u32Size
    omega
  -- The search ends past `bm_end` only by overshooting.
  rcases Mm.findContinousPages_end s.mm _ _ index hwords (h.cursor z hz) (by omega) hfind hne
    with ⟨hlow, _, hhigh⟩
  refine ⟨hlow, hhigh.mpr fun hbad => ?_⟩
  simp only [overshootingCall, hflag, decide_eq_false_iff_not] at hover
  exact hover ⟨hfree, hbad⟩

/-- One call that does not overshoot keeps the invariant, and a block it
    returns lies in its zone. -/
theorem call_contained (s s' : Session) (c : PageCall) (addr : Nat) (h : InZone s)
    (hc : containedCall s c addr) (hcall : s.call c = some (addr, s')) :
    InZone s' ∧ ∀ count flag z, c = .get count flag → addr ≠ 0 →
      zoneOfId (zoneIdOfFlag flag) = some z →
      ∀ i, Block.Covers ⟨addr, count.toNat⟩ s.mm i → pageIn s.mm z i := by
  rcases hc with ⟨hblock, hover⟩
  cases c with
  | get count flag =>
      rcases hblock with ⟨hcount, hman⟩
      rcases call_get s s' count flag addr hcall with ⟨mm', hget, rfl⟩
      rcases Mm.getFreePages_cases s.mm mm' count flag addr hget with
        ⟨hzero, hmm⟩ | ⟨z, index, hflag, hfree, hfind, hne, haddr, htook⟩
      · rw [hzero, hmm]
        exact ⟨h, fun _ _ _ _ hne => absurd rfl hne⟩
      have hz := zone_of_managed flag z hman hflag
      have hin := run_in_zone s h count flag index z hcount hz hflag hfree hfind hne hover
      have hfirst := first_of_bound s.mm index count.toNat h.start h.words (by omega) htook.bound
      have hbound := htook.bound
      have hwords := h.words
      -- The cursor moves to the end of the block, which is not past the zone.
      have hcur : add32 index count.toNat = index + count.toNat := by
        apply Nat.mod_eq_of_lt
        unfold u32Size
        omega
      rw [haddr]
      constructor
      · apply inZone_take s mm' z index count.toNat flag _ h htook hz hflag (by omega) rfl rfl _ hin
        unfold Mm.CursorIn
        simp only [hcur]
        omega
      · intro count' flag' z' heq _ hz' i hi
        simp only [PageCall.get.injEq] at heq
        rw [← heq.2, hflag, Option.some.injEq] at hz'
        simp only [Block.Covers, ← heq.1, hfirst] at hi
        rw [← hz']
        unfold pageIn
        omega
  | aligin aligin flag => exact hblock.elim
  | free b =>
      rcases call_free s s' b addr hcall with ⟨mm', hfree, _, rfl⟩
      refine ⟨?_, fun _ _ _ heq => absurd heq (by simp only [reduceCtorEq, not_false_eq_true])⟩
      rcases Mm.freePages_cases s.mm mm' b.addr hfree with hmm | ⟨z, hflag, _, _, hgave⟩
      · rw [hmm]
        exact ⟨h.words, h.start, h.cursor, h.disjoint,
          fun c hc => h.live c (List.mem_of_mem_erase hc)⟩
      · rcases h.live b hblock with ⟨w, hw, hpage, hwflag⟩
        rw [hwflag, Option.some.injEq] at hflag
        rw [← hflag] at hgave
        have hcursor := h.cursor w hw
        apply inZone_give s mm' w _ _ b h hgave rfl rfl
        -- The cursor goes back to the first page of the block or stays.
        unfold Mm.CursorIn at hcursor ⊢
        unfold pageIn at hpage
        simp only
        by_cases hback : (s.mm.zone w).bmCurrent = s.mm.vaToPageId b.addr
            + (s.mm.pageTable (s.mm.vaToPageId b.addr)).count
        · rw [if_pos hback]
          omega
        · rw [if_neg hback]
          exact hcursor

/-- Over every run from boot in which no search overshoots, cursors are in
    range and blocks lie in their zone, provided the kernel and its tables fit
    into the NORMAL zone. -/
theorem zone_containment (mm : Mm) (kernelEnd uninit : Nat) (hk : mm.kernelStart < u32Size)
    (ht : mm.totalPage < 2 ^ 20) (hfit : mm.reservedPages kernelEnd ≤ (mm.zone .normal).pageNum)
    (s : Session)
    (hrun : Run.Reaches Session.call containedCall (Session.booted mm kernelEnd uninit) s) :
    Contained containedCall s := by
  have hinv : InZone s := by
    apply Run.invariant_of_reaches Session.call containedCall InZone _ _ s hrun
    · exact inZone_booted mm kernelEnd uninit hk ht hfit
    · intro t c a t' ih hc hcall
      exact (call_contained t t' c a ih hc hcall).1
  refine ⟨hinv.cursor, fun count flag addr s' z hc hcall hne hz => ?_⟩
  exact (call_contained s s' _ addr hinv hc hcall).2 count flag z rfl hne hz

instance (s : Session) (c : PageCall) (addr : Nat) : Decidable (blockCall s c addr) :=
  match c with
  | .get count flag => inferInstanceAs (Decidable (1 ≤ count ∧ managedFlag flag))
  | .aligin _ _ => inferInstanceAs (Decidable False)
  | .free b => inferInstanceAs (Decidable (b ∈ s.live))

instance (s : Session) (c : PageCall) (addr : Nat) : Decidable (containedCall s c addr) :=
  inferInstanceAs (Decidable (_ ∧ _))

/-- On the board, the second block of a run without overshooting is the last
    page of the NORMAL zone. -/
theorem zone_containment_board :
    ∃ s, Run.Reaches Session.call containedCall (Session.booted Mm.boardBank 0x80010000 0) s ∧
      s.live = [⟨0x800ff000, 1⟩, ⟨0x80014000, 235⟩] ∧ Contained containedCall s := by
  have heval : (Run.follow Session.call containedCall (Session.booted Mm.boardBank 0x80010000 0)
      [.get 235 gfpKernel, .get 1 gfpKernel]).map Session.live
      = some [⟨0x800ff000, 1⟩, ⟨0x80014000, 235⟩] := by decide +kernel
  rcases Option.map_eq_some_iff.mp heval with ⟨s, hs, hlive⟩
  have hrun := Run.reaches_of_follow Session.call containedCall _ _ s hs
  exact ⟨s, hrun, hlive, zone_containment Mm.boardBank 0x80010000 0 (by decide) (by decide)
    (by decide) s hrun⟩

/-- On the board, when all pages of the NORMAL zone behind the cursor are
    taken, the next page is the first page of the DMA zone, and the cursor of
    the NORMAL zone ends up past its end. -/
theorem zone_containment_fails :
    ¬∀ s, Run.Reaches Session.call blockCall (Session.booted Mm.boardBank 0x80010000 0) s →
      Contained blockCall s := by
  intro hall
  have heval : (Run.follow Session.call blockCall (Session.booted Mm.boardBank 0x80010000 0)
      [.get 235 gfpKernel, .get 1 gfpKernel, .free ⟨0x80014000, 235⟩, .get 1 gfpKernel]).map
        (fun s => (s.live, (s.mm.zone .normal).bmCurrent, (s.mm.zone .normal).bmEnd))
      = some ([⟨0x80100000, 1⟩, ⟨0x800ff000, 1⟩], 257, 256) := by decide +kernel
  rcases Option.map_eq_some_iff.mp heval with ⟨s, hs, hstate⟩
  simp only [Prod.mk.injEq] at hstate
  have hcur := (hall s (Run.reaches_of_follow Session.call blockCall _ _ s hs)).1 .normal
    (by decide)
  unfold Mm.CursorIn at hcur
  omega

end Mirros
