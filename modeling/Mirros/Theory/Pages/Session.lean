import Mirros.Lib.Run
import Mirros.Theory.Pages.Boot
import Mirros.Theory.Pages.Search

/-!
# Runs of the Page Allocator

A session is the allocator together with the blocks its callers hold: what was
returned and has not been freed since. A call of a session runs the allocator
and keeps that list up to date. Runs are sequences of calls each of which is
allowed in the state it is made in; what is allowed is a parameter, since the
results about the allocator differ in what they let the callers do.

`Held` is the invariant behind exclusive use. As long as every block was clear
when it was handed out, the blocks do not overlap each other or the pages
reserved at boot, their bits are set, and the entry of their first page still
says how many pages they have. `held_take` and `held_give` carry it over the two
things a call can do.

## Main definitions

* `Block`, `Session`: The allocator and the blocks in use.
* `PageCall`, `Session.call`: The calls and what they do.
* `Held`: Live blocks are disjoint, marked and remembered.

## Theorems

* `call_start`: The kernel stays where it is, so addresses keep their meaning.
* `held_booted`: The invariant holds after boot.
* `held_take`: Taking clear pages keeps it, and the new block is a fresh one.
* `held_give`: Giving a live block back keeps it.
-/

namespace Mirros

/-- What a caller got: the address of the first page and the number of pages. -/
structure Block where
  addr : Nat
  count : Nat
  deriving DecidableEq, Repr

/-- The allocator and the blocks that were returned and not freed since. -/
structure Session where
  mm : Mm
  live : List Block

/-- A call of the page allocator. -/
inductive PageCall where
  | get (count : Int) (flag : Nat)
  | aligin (aligin flag : Nat)
  | free (b : Block)
  deriving DecidableEq, Repr

/-- The flag selects NORMAL, DMA or RES. -/
def managedFlag (flag : Nat) : Prop :=
  zoneIdOfFlag flag < 3

instance (flag : Nat) : Decidable (managedFlag flag) :=
  inferInstanceAs (Decidable (_ < _))

/-- The page is one of the pages of the block. -/
def Block.Covers (b : Block) (mm : Mm) (i : Nat) : Prop :=
  mm.vaToPageId b.addr ≤ i ∧ i < mm.vaToPageId b.addr + b.count

namespace Session

/-- The callers hold the block, unless the call failed. -/
def hold (s : Session) (addr count : Nat) : List Block :=
  if addr = 0 then s.live else ⟨addr, count⟩ :: s.live

/-- Make a call. The result is the returned address, zero for the null pointer
    and for `free_pages`, which returns nothing. -/
def call (s : Session) : PageCall → Option (Nat × Session)
  | .get count flag => do
      let (addr, mm) ← s.mm.getFreePages count flag
      return (addr, ⟨mm, s.hold addr count.toNat⟩)
  | .aligin aligin flag => do
      let (addr, mm) ← s.mm.getFreePageAligin aligin flag
      return (addr, ⟨mm, s.hold addr 1⟩)
  | .free b => do
      let mm ← s.mm.freePages b.addr
      return (0, ⟨mm, s.live.erase b⟩)

/-- The allocator as `init_page_table_map` leaves it, with no block in use. -/
def booted (mm : Mm) (kernelEnd uninit : Nat) : Session :=
  ⟨mm.initPageTableMap kernelEnd uninit, []⟩

end Session

theorem call_get (s s' : Session) (count : Int) (flag addr : Nat)
    (h : s.call (.get count flag) = some (addr, s')) :
    ∃ mm', s.mm.getFreePages count flag = some (addr, mm') ∧
      s' = ⟨mm', s.hold addr count.toNat⟩ := by
  simp only [Session.call, Option.pure_def, Option.bind_eq_bind, Option.bind_eq_some_iff,
    Option.some.injEq, Prod.mk.injEq, Prod.exists] at h
  rcases h with ⟨a, mm', hget, ha, hs⟩
  subst ha
  exact ⟨mm', hget, hs.symm⟩

theorem call_aligin (s s' : Session) (aligin flag addr : Nat)
    (h : s.call (.aligin aligin flag) = some (addr, s')) :
    ∃ mm', s.mm.getFreePageAligin aligin flag = some (addr, mm') ∧
      s' = ⟨mm', s.hold addr 1⟩ := by
  simp only [Session.call, Option.pure_def, Option.bind_eq_bind, Option.bind_eq_some_iff,
    Option.some.injEq, Prod.mk.injEq, Prod.exists] at h
  rcases h with ⟨a, mm', hget, ha, hs⟩
  subst ha
  exact ⟨mm', hget, hs.symm⟩

theorem call_free (s s' : Session) (b : Block) (addr : Nat)
    (h : s.call (.free b) = some (addr, s')) :
    ∃ mm', s.mm.freePages b.addr = some mm' ∧ addr = 0 ∧ s' = ⟨mm', s.live.erase b⟩ := by
  simp only [Session.call, Option.pure_def, Option.bind_eq_bind, Option.bind_eq_some_iff,
    Option.some.injEq, Prod.mk.injEq] at h
  rcases h with ⟨mm', hfree, ha, hs⟩
  exact ⟨mm', hfree, ha.symm, hs.symm⟩

/-- No call moves the kernel. -/
theorem call_start (s s' : Session) (c : PageCall) (addr : Nat)
    (h : s.call c = some (addr, s')) : s'.mm.kernelStart = s.mm.kernelStart := by
  cases c with
  | get count flag =>
      rcases call_get s s' count flag addr h with ⟨mm', hget, rfl⟩
      rcases Mm.getFreePages_cases s.mm mm' count flag addr hget with
        ⟨_, hmm⟩ | ⟨_, _, _, _, _, _, _, htook⟩
      · rw [hmm]
      · exact htook.start
  | aligin aligin flag =>
      rcases call_aligin s s' aligin flag addr h with ⟨mm', hget, rfl⟩
      rcases Mm.getFreePageAligin_cases s.mm mm' aligin flag addr hget with
        ⟨_, hmm⟩ | ⟨_, _, _, _, _, _, _, _, htook⟩
      · rw [hmm]
      · exact htook.start
  | free b =>
      rcases call_free s s' b addr h with ⟨mm', hfree, _, rfl⟩
      rcases Mm.freePages_cases s.mm mm' b.addr hfree with hmm | ⟨_, _, _, _, hgave⟩
      · rw [hmm]
      · exact hgave.start

theorem zoneIdOfFlag_header (flag : Nat) :
    zoneIdOfFlag (flag ||| gfpPageHeader) = zoneIdOfFlag flag := by
  unfold zoneIdOfFlag
  congr 1
  apply Nat.eq_of_testBit_eq
  intro j
  have hmask : (gfpPageHeader.testBit j && gfpZoneIdMask.testBit j) = false := by
    rw [← Nat.testBit_and]
    have hzero : gfpPageHeader &&& gfpZoneIdMask = 0 := by decide
    rw [hzero, Nat.zero_testBit]
  simp only [Nat.testBit_and, Nat.testBit_or, Bool.and_or_distrib_right, hmask, Bool.or_false]

/-- Erasing one element of a list with a symmetric pairwise relation. -/
theorem pairwise_erase {α : Type} [DecidableEq α] (R : α → α → Prop)
    (hsymm : ∀ x y, R x y → R y x) (l : List α) (b : α) (hb : b ∈ l) (h : l.Pairwise R) :
    (∀ c ∈ l.erase b, R b c) ∧ (l.erase b).Pairwise R := by
  rcases List.exists_erase_eq hb with ⟨l₁, l₂, _, heq, herase⟩
  rw [heq, List.pairwise_append] at h
  rcases h with ⟨h₁, h₂, h₁₂⟩
  rw [List.pairwise_cons] at h₂
  rw [herase]
  refine ⟨fun c hc => ?_, ?_⟩
  · rcases List.mem_append.mp hc with hc | hc
    · exact hsymm c b (h₁₂ c hc b (List.mem_cons_self ..))
    · exact h₂.1 c hc
  · rw [List.pairwise_append]
    exact ⟨h₁, h₂.2, fun x hx y hy => h₁₂ x hx y (List.mem_cons_of_mem b hy)⟩

theorem vaToPageId_of_start (mm mm' : Mm) (h : mm'.kernelStart = mm.kernelStart) (va : Nat) :
    mm'.vaToPageId va = mm.vaToPageId va := by
  unfold Mm.vaToPageId
  rw [h]

theorem covers_of_start (mm mm' : Mm) (h : mm'.kernelStart = mm.kernelStart) (b : Block)
    (i : Nat) : b.Covers mm' i ↔ b.Covers mm i := by
  unfold Block.Covers
  rw [vaToPageId_of_start mm mm' h]

/-- Two blocks have no page in common. -/
def Apart (mm : Mm) (b c : Block) : Prop :=
  ∀ i, b.Covers mm i → ¬c.Covers mm i

/-- Live blocks do not overlap each other or the first `reserved` pages, their
    pages are marked, and the entry of the first page has their length. -/
structure Held (reserved : Nat) (s : Session) : Prop where
  words : 32 * s.mm.mapWords ≤ 2 ^ 20
  start : s.mm.kernelStart < u32Size
  kept : ∀ i < reserved, used s.mm.pageMap i = true
  bits : ∀ b ∈ s.live, ∀ i, b.Covers s.mm i → reserved ≤ i ∧ used s.mm.pageMap i = true
  head : ∀ b ∈ s.live, 0 < b.count ∧ (s.mm.pageTable (s.mm.vaToPageId b.addr)).count = b.count
  apart : s.live.Pairwise (Apart s.mm)

theorem apart_symm (mm : Mm) (b c : Block) (h : Apart mm b c) : Apart mm c b := by
  intro i hc hb
  exact h i hb hc

theorem held_booted (mm : Mm) (kernelEnd uninit : Nat) (hk : mm.kernelStart < u32Size)
    (ht : mm.totalPage < 2 ^ 20) :
    Held (mm.reservedPages kernelEnd) (Session.booted mm kernelEnd uninit) := by
  rcases Mm.initPageTableMap_frame mm kernelEnd uninit with ⟨hstart, hwords, _⟩
  refine ⟨?_, ?_, fun i hi => ?_, ?_, ?_, List.Pairwise.nil⟩
  · unfold Session.booted
    rw [hwords]
    exact Mm.bitsToLong_le mm.totalPage ht
  · unfold Session.booted
    rw [hstart]
    exact hk
  · unfold Session.booted
    rw [Mm.used_initPageTableMap, if_pos hi]
  · intro b hb
    exact absurd hb List.not_mem_nil
  · intro b hb
    exact absurd hb List.not_mem_nil

/-- The first page of a block in the map survives the trip through its
    address. -/
theorem first_of_bound (mm : Mm) (index count : Nat) (hk : mm.kernelStart < u32Size)
    (hwords : 32 * mm.mapWords ≤ 2 ^ 20) (hcount : 0 < count)
    (hb : count = 0 ∨ index + count ≤ 32 * mm.mapWords) :
    mm.vaToPageId (mm.pageIdToVa index) = index :=
  Mm.vaToPageId_pageIdToVa mm index hk (by omega)

/-- A marked page is not a clear one. -/
theorem ne_of_used (bitMap : Bitmap) (p q : Nat) (hp : used bitMap p = true)
    (hq : used bitMap q = false) : p ≠ q := by
  intro hpq
  rw [hpq, hq] at hp
  exact Bool.false_ne_true hp

/-- A page that is still clear was clear as long as no bit was cleared. -/
theorem clear_before (bitMap bitMap' : Bitmap) (q : Nat)
    (hkeeps : used bitMap q = true → used bitMap' q = true) (hclear : used bitMap' q = false) :
    used bitMap q = false := by
  by_contra hset
  rw [Bool.not_eq_false] at hset
  exact ne_of_used bitMap' q q (hkeeps hset) hclear rfl

theorem held_take (reserved : Nat) (s : Session) (mm' : Mm) (z : ZoneId)
    (index count flag : Nat) (zone' : Zone) (h : Held reserved s)
    (ht : Mm.Took s.mm mm' z index count flag zone') (hpos : 0 < count) (hbyte : count < 256)
    (hclear : ∀ i, index ≤ i → i < index + count → used s.mm.pageMap i = false) :
    Held reserved ⟨mm', ⟨s.mm.pageIdToVa index, count⟩ :: s.live⟩ ∧ reserved ≤ index ∧
      ∀ b ∈ s.live, Apart s.mm ⟨s.mm.pageIdToVa index, count⟩ b := by
  have hfirst := first_of_bound s.mm index count h.start h.words hpos ht.bound
  have hcov : ∀ i, Block.Covers ⟨s.mm.pageIdToVa index, count⟩ s.mm i ↔
      index ≤ i ∧ i < index + count := by
    intro i
    unfold Block.Covers
    rw [hfirst]
  -- A clear page is not reserved and belongs to no live block.
  have hres : reserved ≤ index := by
    by_contra hlt
    exact ne_of_used _ index index (h.kept index (by omega))
      (hclear index (by omega) (by omega)) rfl
  have hnew : ∀ b ∈ s.live, Apart s.mm ⟨s.mm.pageIdToVa index, count⟩ b := by
    intro b hb i hi hbi
    rw [hcov] at hi
    exact ne_of_used _ i i (h.bits b hb i hbi).2 (hclear i hi.1 hi.2) rfl
  refine ⟨⟨?_, ?_, fun i hi => ?_, fun b hb i hi => ?_, fun b hb => ?_, ?_⟩, hres, hnew⟩
  · rw [ht.words]
    exact h.words
  · rw [ht.start]
    exact h.start
  · rw [ht.bits, h.kept i hi]
    simp
  · rw [covers_of_start s.mm mm' ht.start] at hi
    rw [ht.bits]
    rcases List.mem_cons.mp hb with hb | hb
    · rw [hb, hcov] at hi
      rw [if_pos hi]
      exact ⟨by omega, rfl⟩
    · have hold := h.bits b hb i hi
      rw [hold.2]
      exact ⟨hold.1, by simp⟩
  · rw [vaToPageId_of_start s.mm mm' ht.start, ht.table]
    rcases List.mem_cons.mp hb with hb | hb
    · rw [hb]
      simp only [hfirst]
      rw [if_pos ⟨Nat.le_refl _, by omega⟩]
      simp only [Mm.freshPage, if_true]
      exact ⟨hpos, Nat.mod_eq_of_lt hbyte⟩
    · have hold := h.head b hb
      have hout : ¬(index ≤ s.mm.vaToPageId b.addr ∧
          s.mm.vaToPageId b.addr < index + count) := by
        intro hin
        refine hnew b hb (s.mm.vaToPageId b.addr) ((hcov _).mpr hin) ?_
        exact ⟨Nat.le_refl _, by omega⟩
      rw [if_neg hout]
      exact hold
  · have hpair : ∀ l : List Block, l.Pairwise (Apart s.mm) → l.Pairwise (Apart mm') := by
      intro l hl
      apply hl.imp
      intro b c hbc i hb hc
      rw [covers_of_start s.mm mm' ht.start] at hb hc
      exact hbc i hb hc
    apply hpair
    exact List.pairwise_cons.mpr ⟨hnew, h.apart⟩

/-- A block held after a call is the one it returned or was held before. -/
theorem mem_hold (s : Session) (addr count : Nat) (b : Block) (hb : b ∈ s.hold addr count) :
    b = ⟨addr, count⟩ ∨ b ∈ s.live := by
  unfold Session.hold at hb
  by_cases hzero : addr = 0
  · rw [if_pos hzero] at hb
    exact Or.inr hb
  · rw [if_neg hzero] at hb
    exact List.mem_cons.mp hb

/-- A page at address zero is lost: it is marked, and nobody holds it. -/
theorem held_hold (reserved : Nat) (s : Session) (mm' : Mm) (addr count : Nat)
    (h : Held reserved ⟨mm', ⟨addr, count⟩ :: s.live⟩) :
    Held reserved ⟨mm', s.hold addr count⟩ := by
  unfold Session.hold
  by_cases hzero : addr = 0
  · rw [if_pos hzero]
    exact ⟨h.words, h.start, h.kept, fun b hb => h.bits b (List.mem_cons_of_mem _ hb),
      fun b hb => h.head b (List.mem_cons_of_mem _ hb), (List.pairwise_cons.mp h.apart).2⟩
  · rw [if_neg hzero]
    exact h

/-- Forgetting a live block without touching the allocator. -/
theorem held_drop (reserved : Nat) (s : Session) (b : Block) (h : Held reserved s)
    (hb : b ∈ s.live) : Held reserved ⟨s.mm, s.live.erase b⟩ := by
  have hpair := pairwise_erase (Apart s.mm) (apart_symm s.mm) s.live b hb h.apart
  exact ⟨h.words, h.start, h.kept, fun c hc => h.bits c (List.mem_of_mem_erase hc),
    fun c hc => h.head c (List.mem_of_mem_erase hc), hpair.2⟩

theorem held_give (reserved : Nat) (s : Session) (mm' : Mm) (z : ZoneId) (zone' : Zone)
    (b : Block) (h : Held reserved s) (hb : b ∈ s.live)
    (hg : Mm.Gave s.mm mm' z (s.mm.vaToPageId b.addr) b.count zone') :
    Held reserved ⟨mm', s.live.erase b⟩ := by
  have hpair := pairwise_erase (Apart s.mm) (apart_symm s.mm) s.live b hb h.apart
  have hdrop := held_drop reserved s b h hb
  refine ⟨?_, ?_, fun i hi => ?_, fun c hc i hi => ?_, fun c hc => ?_, ?_⟩
  · rw [hg.words]
    exact h.words
  · rw [hg.start]
    exact h.start
  · -- A reserved page belongs to no live block, so it is not among the cleared ones.
    rw [hg.bits, if_neg]
    · exact h.kept i hi
    · intro hin
      have hle := (h.bits b hb i hin).1
      omega
  · -- The pages of the other blocks are apart from those of the freed one.
    rw [covers_of_start s.mm mm' hg.start] at hi
    have hold := hdrop.bits c hc i hi
    rw [hg.bits, if_neg]
    · exact hold
    · intro hin
      exact hpair.1 c hc i hin hi
  · rw [vaToPageId_of_start s.mm mm' hg.start, hg.table]
    exact hdrop.head c hc
  · apply hpair.2.imp
    intro c d hcd i hc hd
    rw [covers_of_start s.mm mm' hg.start] at hc hd
    exact hcd i hc hd

end Mirros
