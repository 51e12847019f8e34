import Mirros.Theory.Pages.Undo

/-!
# Freeing What Is Not a Block

What `free_pages` does with an address that is not the first page of a block in
use. All it looks at is the entry of the page: without the header flag nothing
happens, and with it as many pages as the entry says are freed.

Neither part of the entry says whether the page starts a block. `init_pages` sets
the header flag in a variable outside its loop, so all pages of a block carry it,
and nothing takes it away when the block is freed. The number is the length of
the block in its first entry and the number of the page itself in the others, each
modulo 256. So a page that was handed out once is freed again and again, together
with the pages behind it, and what saves it is only that its byte is zero.

A `Ledger` keeps every block that was ever handed out next to the allocator. It
says what the entry of a page looks like (`Ledger.Trusts`), for the last block
that covers a page is the one that wrote its entry. That is the invariant of the
runs (`remembers_call`), and what `free_pages` does with the page follows from it
alone (`rejects_iff`).

## Main definitions

* `Mm.Rejects`: The address is turned down and nothing changes.
* `Page.Harmless`: What the entry of such a page looks like.
* `Ledger`, `Ledger.call`: The allocator with the blocks it has handed out.
* `Ledger.Trusts`: The history of a page that makes its entry harmless.

## Theorems

* `rejects_iff`: An address is turned down when the entry is harmless.
* `remembers_call`: The ledger knows the entries.
* `freePages_rejects`: Over every run, the addresses that are turned down.
-/

namespace Mirros

theorem sub32_lt (a b : Nat) : sub32 a b < u32Size :=
  Nat.mod_lt _ (by decide)

theorem add32_lt (a b : Nat) : add32 a b < u32Size :=
  Nat.mod_lt _ (by decide)

namespace Mm

/-- No mutex is held, and the counters of the zones are words. -/
def Settled (mm : Mm) : Prop :=
  ∀ z, (mm.zone z).zoneMutex = 0 ∧ (mm.zone z).freePages < u32Size ∧
    (mm.zone z).freeSize < u32Size

/-- The page map, the counters and the cursors are the same. -/
def Untouched (mm mm' : Mm) : Prop :=
  mm'.pageMap = mm.pageMap ∧ ∀ z, (mm'.zone z).freePages = (mm.zone z).freePages ∧
    (mm'.zone z).freeSize = (mm.zone z).freeSize ∧
    (mm'.zone z).bmCurrent = (mm.zone z).bmCurrent

/-- `free_pages` returns and has changed nothing. -/
def Rejects (mm : Mm) (addr : Nat) : Prop :=
  ∃ mm', mm.freePages addr = some mm' ∧ mm.Untouched mm'

end Mm

/-- The entry has no header flag, or names a zone there is and no page. -/
def Page.Harmless (page : Page) : Prop :=
  page.flag &&& gfpPageHeader = 0 ∨
    (zoneOfId (zoneIdOfFlag page.flag)).isSome = true ∧ page.count = 0

instance (page : Page) : Decidable page.Harmless :=
  inferInstanceAs (Decidable (_ ∨ _))

/-- A page address is turned down exactly when the entry of the page is
    harmless. -/
theorem rejects_iff (mm : Mm) (addr : Nat) (hal : isAligin addr pageSize = true)
    (hset : mm.Settled) (hbyte : (mm.pageTable (mm.vaToPageId addr)).count < 256) :
    mm.Rejects addr ↔ (mm.pageTable (mm.vaToPageId addr)).Harmless := by
  unfold Mm.Rejects Mm.freePages Page.Harmless
  rw [if_pos hal]
  simp only
  by_cases hhead : (mm.pageTable (mm.vaToPageId addr)).flag &&& gfpPageHeader = 0
  · rw [if_neg (not_not.mpr hhead)]
    exact ⟨fun _ => Or.inl hhead, fun _ => ⟨mm, rfl, rfl, fun _ => ⟨rfl, rfl, rfl⟩⟩⟩
  rw [if_pos hhead]
  rcases hz : zoneOfId (zoneIdOfFlag (mm.pageTable (mm.vaToPageId addr)).flag) with _ | z
  · -- There is no zone to give the pages to.
    simp only [reduceCtorEq, false_and, exists_false, hhead, Option.isSome_none,
      Bool.false_eq_true, or_self]
  simp only [hhead, false_or, Option.isSome_some, true_and]
  constructor
  · rintro ⟨mm', hrun, _, hzones⟩
    have hgave := Mm.doFreePages_cases mm mm' _ z hrun
    have hup := (hzones z).1
    rw [hgave.zones, Function.update_self] at hup
    -- A counter that goes up by less than 256 does not come back to where it was.
    have hword := (hset z).2.1
    simp only [add32] at hup
    unfold u32Size at hup hword
    omega
  · intro hzero
    rcases Mm.doFreePages_returns mm (mm.vaToPageId addr) z (hset z).1 (Or.inl hzero) with
      ⟨mm', hrun⟩
    have hgave := Mm.doFreePages_cases mm mm' _ z hrun
    rw [hzero] at hgave
    refine ⟨mm', hrun, bitmap_ext _ _ (fun i => ?_), fun w => ?_⟩
    · rw [hgave.bits, if_neg (by omega)]
    · rw [hgave.zones]
      by_cases hw : w = z
      · rw [hw, Function.update_self]
        refine ⟨Nat.mod_eq_of_lt (hset z).2.1, ?_, ?_⟩
        · simp only [Nat.zero_mul]
          exact Nat.mod_eq_of_lt (hset z).2.2
        · simp only [Nat.add_zero]
          by_cases hcur : (mm.zone z).bmCurrent = mm.vaToPageId addr
          · rw [if_pos hcur, hcur]
          · rw [if_neg hcur]
      · rw [Function.update_of_ne hw]
        exact ⟨rfl, rfl, rfl⟩

/-- The allocator with the blocks it has handed out, the last one first. -/
structure Ledger where
  mm : Mm
  out : List Block

/-- A call of `get_free_pages` or `free_pages`, with any arguments. -/
inductive LedgerCall where
  | get (count : Int) (flag : Nat)
  | free (addr : Nat)
  deriving DecidableEq, Repr

instance (b : Block) (mm : Mm) (i : Nat) : Decidable (b.Covers mm i) :=
  inferInstanceAs (Decidable (_ ∧ _))

/-- The byte `init_pages` leaves in the entry of a page of the block. -/
def Block.byteOf (b : Block) (mm : Mm) (i : Nat) : Nat :=
  (if i = mm.vaToPageId b.addr then b.count else i) % 256

namespace Ledger

/-- Make a call and write down what it handed out. -/
def call (l : Ledger) : LedgerCall → Option (Nat × Ledger)
  | .get count flag => do
      let (addr, mm) ← l.mm.getFreePages count flag
      return (addr, ⟨mm, if addr = 0 then l.out else ⟨addr, count.toNat⟩ :: l.out⟩)
  | .free addr => do
      let mm ← l.mm.freePages addr
      return (0, ⟨mm, l.out⟩)

/-- The allocator as boot leaves it. -/
def booted (mm : Mm) (kernelEnd uninit : Nat) : Ledger :=
  ⟨mm.initPageTableMap kernelEnd uninit, []⟩

/-- The last block the page was handed out in, if it ever was. -/
def lastBlock (l : Ledger) (i : Nat) : Option Block :=
  l.out.find? (fun b => b.Covers l.mm i)

/-- The page was never handed out and boot left a harmless entry, or its byte was
    zero when it was handed out last. -/
def Trusts (boot : Mm) (l : Ledger) (i : Nat) : Prop :=
  match l.lastBlock i with
  | none => (boot.pageTable i).Harmless
  | some b => b.byteOf l.mm i = 0

end Ledger

/-- Nothing is asked of a call. -/
def anyCall (_ : Ledger) (_ : LedgerCall) (_ : Nat) : Prop :=
  True

instance (l : Ledger) (c : LedgerCall) (addr : Nat) : Decidable (anyCall l c addr) :=
  inferInstanceAs (Decidable True)

/-- The ledger knows the entries of the first `total` pages. -/
structure Remembers (boot : Mm) (total : Nat) (l : Ledger) : Prop where
  start : l.mm.kernelStart = boot.kernelStart
  words : l.mm.mapWords = boot.mapWords
  settled : l.mm.Settled
  byte : ∀ i < total, (l.mm.pageTable i).count < 256
  entry : ∀ i < total, (l.mm.pageTable i).Harmless ↔ Ledger.Trusts boot l i

/-- A zone that is changed within its words and left unlocked. -/
theorem settled_update (mm mm' : Mm) (z : ZoneId) (zone' : Zone) (h : mm.Settled)
    (hz : mm'.zone = Function.update mm.zone z zone')
    (hmutex : zone'.zoneMutex = (mm.zone z).zoneMutex) (hpages : zone'.freePages < u32Size)
    (hsize : zone'.freeSize < u32Size) : mm'.Settled := by
  intro w
  rw [hz]
  by_cases hw : w = z
  · rw [hw, Function.update_self]
    exact ⟨hmutex.trans (h z).1, hpages, hsize⟩
  · rw [Function.update_of_ne hw]
    exact h w

theorem lastBlock_of_start (l : Ledger) (mm' : Mm) (h : mm'.kernelStart = l.mm.kernelStart)
    (i : Nat) : (Ledger.mk mm' l.out).lastBlock i = l.lastBlock i := by
  unfold Ledger.lastBlock
  congr 1
  funext b
  exact decide_eq_decide.mpr (covers_of_start l.mm mm' h b i)

theorem lastBlock_cons (mm : Mm) (b : Block) (out : List Block) (i : Nat) :
    (Ledger.mk mm (b :: out)).lastBlock i =
      if b.Covers mm i then some b else (Ledger.mk mm out).lastBlock i := by
  unfold Ledger.lastBlock
  by_cases hc : b.Covers mm i
  · rw [if_pos hc]
    exact List.find?_cons_of_pos (decide_eq_true hc)
  · rw [if_neg hc]
    exact List.find?_cons_of_neg (fun h => hc (of_decide_eq_true h))

theorem byteOf_of_start (mm mm' : Mm) (h : mm'.kernelStart = mm.kernelStart) (b : Block)
    (i : Nat) : b.byteOf mm' i = b.byteOf mm i := by
  unfold Block.byteOf
  rw [vaToPageId_of_start mm mm' h]

/-- Where nothing was written down, the history is the old one. -/
theorem trusts_of_start (boot : Mm) (l : Ledger) (mm' : Mm)
    (h : mm'.kernelStart = l.mm.kernelStart) (i : Nat) :
    Ledger.Trusts boot ⟨mm', l.out⟩ i ↔ Ledger.Trusts boot l i := by
  unfold Ledger.Trusts
  rw [lastBlock_of_start l mm' h]
  rcases l.lastBlock i with _ | b
  · exact Iff.rfl
  · simp only [byteOf_of_start l.mm mm' h]

/-- A fresh entry is harmless when its byte is zero. -/
theorem freshPage_harmless (mm : Mm) (index count i flag : Nat) (z : ZoneId)
    (hz : zoneOfId (zoneIdOfFlag flag) = some z) :
    (mm.freshPage index count i (flag ||| gfpPageHeader)).Harmless ↔
      (if i = index then count else i) % 256 = 0 := by
  have hzone : zoneOfId (zoneIdOfFlag (flag ||| gfpPageHeader)) = some z :=
    (congrArg zoneOfId (zoneIdOfFlag_header flag)).trans hz
  unfold Page.Harmless Mm.freshPage
  simp only [Mm.header_bit flag, false_or, hzone, Option.isSome_some, true_and]

/-- After a run of pages was taken the ledger knows the entries again: those of
    the run by the new block, and the others as before. -/
theorem remembers_took (boot : Mm) (total : Nat) (l : Ledger) (mm' : Mm) (z : ZoneId)
    (index count flag : Nat) (zone' : Zone) (h : Remembers boot total l)
    (hk : boot.kernelStart < u32Size) (hwords : 32 * boot.mapWords ≤ 2 ^ 20)
    (hfit : boot.kernelStart + total * pageSize ≤ u32Size)
    (hz : zoneOfId (zoneIdOfFlag flag) = some z) (hpos : 0 < count) (hne : index ≠ 0)
    (ht : Mm.Took l.mm mm' z index count flag zone') (hset : mm'.Settled) :
    Remembers boot total ⟨mm', if l.mm.pageIdToVa index = 0 then l.out
      else ⟨l.mm.pageIdToVa index, count⟩ :: l.out⟩ := by
  have hbound : index + count ≤ 32 * l.mm.mapWords := ht.bound.resolve_left (by omega)
  have hplace : l.mm.vaToPageId (l.mm.pageIdToVa index) = index :=
    first_of_bound l.mm index count (h.start ▸ hk) (h.words ▸ hwords) hpos ht.bound
  refine ⟨ht.start.trans h.start, ht.words.trans h.words, hset, fun i hi => ?_, fun i hi => ?_⟩
  · rw [ht.table]
    by_cases hin : index ≤ i ∧ i < index + count
    · rw [if_pos hin]
      exact Nat.mod_lt _ (by decide)
    · rw [if_neg hin]
      exact h.byte i hi
  · simp only [ht.table]
    by_cases hzero : l.mm.pageIdToVa index = 0
    · -- A page at address zero is behind the end of memory.
      have hbehind : total ≤ index := by
        have hstart := h.start
        rw [h.words] at hbound
        unfold Mm.pageIdToVa add32 at hzero
        unfold u32Size pageSize at *
        omega
      rw [if_pos hzero, if_neg (by omega), trusts_of_start boot l mm' ht.start]
      exact h.entry i hi
    · rw [if_neg hzero]
      have hcov : Block.Covers ⟨l.mm.pageIdToVa index, count⟩ mm' i ↔
          index ≤ i ∧ i < index + count := by
        rw [covers_of_start l.mm mm' ht.start]
        unfold Block.Covers
        rw [hplace]
      by_cases hin : index ≤ i ∧ i < index + count
      · -- The new block wrote the entry.
        rw [if_pos hin, freshPage_harmless l.mm index count i flag z hz]
        unfold Ledger.Trusts
        rw [lastBlock_cons, if_pos (hcov.mpr hin)]
        simp only [Block.byteOf, vaToPageId_of_start l.mm mm' ht.start, hplace]
      · rw [if_neg hin, h.entry i hi, ← trusts_of_start boot l mm' ht.start]
        unfold Ledger.Trusts
        rw [lastBlock_cons, if_neg (fun hc => hin (hcov.mp hc))]

/-- Every call leaves the ledger knowing the entries. -/
theorem remembers_call (boot : Mm) (total : Nat) (l l' : Ledger) (c : LedgerCall) (addr : Nat)
    (h : Remembers boot total l) (hk : boot.kernelStart < u32Size)
    (hwords : 32 * boot.mapWords ≤ 2 ^ 20)
    (hfit : boot.kernelStart + total * pageSize ≤ u32Size)
    (hcall : l.call c = some (addr, l')) : Remembers boot total l' := by
  cases c with
  | get count flag =>
      simp only [Ledger.call, Option.pure_def, Option.bind_eq_bind, Option.bind_eq_some_iff,
        Option.some.injEq, Prod.mk.injEq, Prod.exists] at hcall
      rcases hcall with ⟨a, mm', hget, rfl, rfl⟩
      by_cases hpos : count ≤ 0
      · unfold Mm.getFreePages at hget
        rw [if_pos hpos, Option.some.injEq, Prod.mk.injEq] at hget
        rcases hget with ⟨rfl, rfl⟩
        exact h
      rcases Mm.getFreePages_cases l.mm mm' count flag a hget with
        ⟨rfl, rfl⟩ | ⟨z, index, hz, _, _, hne, rfl, htook⟩
      · exact h
      · have hpos : 0 < count.toNat := by omega
        exact remembers_took boot total l mm' z index count.toNat flag _ h hk hwords hfit hz hpos
          hne htook (settled_update l.mm mm' z _ h.settled htook.zones rfl (sub32_lt _ _)
            (sub32_lt _ _))
  | free addr =>
      simp only [Ledger.call, Option.pure_def, Option.bind_eq_bind, Option.bind_eq_some_iff,
        Option.some.injEq, Prod.mk.injEq] at hcall
      rcases hcall with ⟨mm', hfree, _, rfl⟩
      rcases Mm.freePages_cases l.mm mm' addr hfree with rfl | ⟨z, _, _, _, hgave⟩
      · exact h
      · -- Freeing writes no entry.
        refine ⟨hgave.start.trans h.start, hgave.words.trans h.words,
          settled_update l.mm mm' z _ h.settled hgave.zones rfl (add32_lt _ _) (add32_lt _ _),
          fun i hi => ?_, fun i hi => ?_⟩
        · rw [hgave.table]
          exact h.byte i hi
        · rw [trusts_of_start boot l mm' hgave.start]
          simp only [hgave.table]
          exact h.entry i hi

/-- Before the first call the entries are the ones boot left. -/
theorem remembers_empty (boot : Mm) (total : Nat) (hset : boot.Settled)
    (hbyte : ∀ i, (boot.pageTable i).count < 256) : Remembers boot total ⟨boot, []⟩ :=
  ⟨rfl, rfl, hset, fun i _ => hbyte i, fun _ _ => Iff.rfl⟩

theorem settled_booted (mm : Mm) (kernelEnd uninit : Nat) (hset : mm.Settled) :
    (mm.initPageTableMap kernelEnd uninit).Settled := by
  unfold Mm.Settled at hset ⊢
  intro z
  have hold := hset z
  rw [Mm.initPageTableMap_zone]
  refine ⟨?_, ?_, ?_⟩
  · cases z <;> simp only [Mm.bootZone, Mm.setRange, hold.1]
  · -- Only the counters of the NORMAL zone are written, with words.
    cases z with
    | normal =>
        simp only [Mm.bootZone, Mm.setRange]
        exact sub32_lt _ _
    | dma | res | io => simp only [Mm.bootZone, Mm.setRange, hold.2.1]
  · cases z with
    | normal =>
        simp only [Mm.bootZone, Mm.setRange]
        exact sub32_lt _ _
    | dma | res | io => simp only [Mm.bootZone, Mm.setRange, hold.2.2]

theorem byte_booted (mm : Mm) (kernelEnd uninit : Nat) (hbyte : ∀ i, (mm.pageTable i).count < 256)
    (i : Nat) : ((mm.initPageTableMap kernelEnd uninit).pageTable i).count < 256 := by
  rcases Mm.pageTable_initPageTableMap mm kernelEnd uninit i with ⟨pa, hentry⟩
  rw [hentry]
  by_cases hi : i < mm.reservedPages kernelEnd
  · rw [if_pos hi]
    exact Nat.zero_lt_succ 255
  · rw [if_neg hi]
    exact hbyte i

/-- In every state that calls with any arguments lead to from boot, an address
    of a managed page is turned down if and only if the byte the page got when it
    was handed out last is zero, or it never was handed out and boot left a
    harmless entry. -/
theorem freePages_rejects (mm : Mm) (kernelEnd uninit : Nat) (hk : mm.kernelStart < u32Size)
    (ht : mm.totalPage < 2 ^ 20) (hfit : mm.kernelStart + mm.totalPage * pageSize ≤ u32Size)
    (hset : mm.Settled) (hbyte : ∀ i, (mm.pageTable i).count < 256) (l : Ledger)
    (hrun : Run.Reaches Ledger.call anyCall (Ledger.booted mm kernelEnd uninit) l) (addr : Nat)
    (hal : isAligin addr pageSize = true) (hpage : l.mm.vaToPageId addr < mm.totalPage) :
    l.mm.Rejects addr ↔
      Ledger.Trusts (mm.initPageTableMap kernelEnd uninit) l (l.mm.vaToPageId addr) := by
  rcases Mm.initPageTableMap_frame mm kernelEnd uninit with ⟨hstart, hwords, _⟩
  have hmap : 32 * (mm.initPageTableMap kernelEnd uninit).mapWords ≤ 2 ^ 20 := by
    rw [hwords]
    exact Mm.bitsToLong_le mm.totalPage ht
  have hinv : Remembers (mm.initPageTableMap kernelEnd uninit) mm.totalPage l := by
    refine Run.invariant_of_reaches Ledger.call anyCall
      (Remembers (mm.initPageTableMap kernelEnd uninit) mm.totalPage)
      (fun s c a s' hs _ hcall => remembers_call _ _ s s' c a hs (hstart ▸ hk) hmap
        (hstart ▸ hfit) hcall) _ l hrun ?_
    exact remembers_empty _ mm.totalPage (settled_booted mm kernelEnd uninit hset)
      (byte_booted mm kernelEnd uninit hbyte)
  rw [rejects_iff l.mm addr hal hinv.settled (hinv.byte _ hpage)]
  exact hinv.entry _ hpage

instance (boot : Mm) (l : Ledger) (i : Nat) : Decidable (Ledger.Trusts boot l i) :=
  match h : l.lastBlock i with
  | none => decidable_of_iff (boot.pageTable i).Harmless (by unfold Ledger.Trusts; rw [h])
  | some b => decidable_of_iff (b.byteOf l.mm i = 0) (by unfold Ledger.Trusts; rw [h])

theorem settled_boardBank : Mm.boardBank.Settled := by
  intro z
  cases z <;> decide

/-- On the board, while two pages are in use, the address of a page that never
    was is turned down. -/
theorem freePages_rejects_board :
    ∃ l, Run.Reaches Ledger.call anyCall (Ledger.booted Mm.boardBank 0x80010000 0) l ∧
      l.out = [⟨0x80014000, 2⟩] ∧ l.mm.Rejects 0x80064000 := by
  have heval : (Run.follow Ledger.call anyCall (Ledger.booted Mm.boardBank 0x80010000 0)
      [.get 2 gfpKernel]).map (fun l => (l.out, l.mm.vaToPageId 0x80064000,
        decide (Ledger.Trusts (Mm.boardBank.initPageTableMap 0x80010000 0) l 100))) =
      some ([⟨0x80014000, 2⟩], 100, true) := by decide +kernel
  rcases Option.map_eq_some_iff.mp heval with ⟨l, hl, htriple⟩
  simp only [Prod.mk.injEq] at htriple
  rcases htriple with ⟨hout, hplace, htrust⟩
  have hrun := Run.reaches_of_follow Ledger.call anyCall _ _ l hl
  refine ⟨l, hrun, hout, ?_⟩
  refine (freePages_rejects Mm.boardBank 0x80010000 0 (by decide) (by decide) (by decide)
    settled_boardBank (fun _ => Nat.zero_lt_succ 255) l hrun 0x80064000 (by decide)
    (by rw [hplace]; decide)).mpr ?_
  rw [hplace]
  exact of_decide_eq_true htrust

/-- The second page of a block of two is freed with the twenty pages behind it,
    and the block can be freed twice. -/
theorem freePages_rejects_fails :
    ∃ l l', Run.Reaches Ledger.call anyCall (Ledger.booted Mm.boardBank 0x80010000 0) l ∧
      l.out = [⟨0x80014000, 2⟩] ∧ ¬l.mm.Rejects 0x80015000 ∧
      l.call (.free 0x80014000) = some (0, l') ∧ ¬l'.mm.Rejects 0x80014000 := by
  have heval : (Run.follow Ledger.call anyCall (Ledger.booted Mm.boardBank 0x80010000 0)
      [.get 2 gfpKernel]).map (fun l => (l.out, (l.mm.zone .normal).freePages,
        (l.mm.freePages 0x80015000).map (fun mm => (mm.zone .normal).freePages))) =
      some ([⟨0x80014000, 2⟩], 234, some 255) := by decide +kernel
  rcases Option.map_eq_some_iff.mp heval with ⟨l, hl, hall⟩
  simp only [Prod.mk.injEq] at hall
  rcases hall with ⟨hout, hbefore, hinner⟩
  have heval' : ((Run.follow Ledger.call anyCall (Ledger.booted Mm.boardBank 0x80010000 0)
      [.get 2 gfpKernel]).bind (fun l => l.call (.free 0x80014000))).map
        (fun x => (x.1, (x.2.mm.zone .normal).freePages,
          (x.2.mm.freePages 0x80014000).map (fun mm => (mm.zone .normal).freePages))) =
      some (0, 236, some 238) := by decide +kernel
  rw [hl, Option.bind_some] at heval'
  rcases Option.map_eq_some_iff.mp heval' with ⟨⟨a, l'⟩, hfree, hagain⟩
  simp only [Prod.mk.injEq] at hagain
  rcases hagain with ⟨rfl, hfreed, htwice⟩
  refine ⟨l, l', Run.reaches_of_follow Ledger.call anyCall _ _ l hl, hout, ?_, hfree, ?_⟩
  · rintro ⟨mm', hrun, _, hzones⟩
    rw [hrun, Option.map_some, Option.some.injEq, (hzones .normal).1, hbefore] at hinner
    exact absurd hinner (by decide)
  · rintro ⟨mm', hrun, _, hzones⟩
    rw [hrun, Option.map_some, Option.some.injEq, (hzones .normal).1, hfreed] at htwice
    exact absurd htwice (by decide)

end Mirros
