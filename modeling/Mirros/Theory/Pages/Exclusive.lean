import Mirros.Theory.Pages.Session

/-!
# Single Pages Are Exclusive

Callers that ask for one page at a time, from the search or from the aligned
search, never get a page that was reserved at boot or that another caller still
holds. The cursor of a zone may be anywhere: a search for one page ends on a
clear bit wherever it starts, and `Held` says that the pages of live blocks and
the reserved pages are not clear.

## Main definitions

* `singlePage`: The calls callers of single pages make.

## Theorems

* `call_single`: One such call keeps `Held` and returns a fresh page.
* `single_page_exclusive`: Over every run from boot, what is returned is
  neither reserved nor live.
-/

namespace Mirros

/-- Calls for a single page of a managed zone, and `free_pages` of a page that
    was returned and not freed since. -/
def singlePage (s : Session) (c : PageCall) (_ : Nat) : Prop :=
  match c with
  | .get count flag => count = 1 ∧ managedFlag flag
  | .aligin _ flag => managedFlag flag
  | .free b => b ∈ s.live

/-- The address is of a page of the map that is neither one of the first
    `reserved` ones nor part of a live block. -/
def FreshPage (reserved : Nat) (s : Session) (addr : Nat) : Prop :=
  addr = s.mm.pageIdToVa (s.mm.vaToPageId addr) ∧ reserved ≤ s.mm.vaToPageId addr ∧
    ∀ b ∈ s.live, ¬b.Covers s.mm (s.mm.vaToPageId addr)

/-- Taking one clear page. -/
theorem held_take_one (reserved : Nat) (s : Session) (mm' : Mm) (z : ZoneId)
    (index flag : Nat) (zone' : Zone) (h : Held reserved s)
    (ht : Mm.Took s.mm mm' z index 1 flag zone') (hclear : used s.mm.pageMap index = false) :
    Held reserved ⟨mm', s.hold (s.mm.pageIdToVa index) 1⟩ ∧
      FreshPage reserved s (s.mm.pageIdToVa index) := by
  have hone : ∀ i, index ≤ i → i < index + 1 → used s.mm.pageMap i = false := by
    intro i h1 h2
    have hi : i = index := by omega
    rw [hi]
    exact hclear
  rcases held_take reserved s mm' z index 1 flag zone' h ht (by omega) (by omega) hone
    with ⟨hheld, hres, hapart⟩
  have hfirst := first_of_bound s.mm index 1 h.start h.words (by omega) ht.bound
  constructor
  · exact held_hold reserved s mm' _ 1 hheld
  · unfold FreshPage
    rw [hfirst]
    refine ⟨rfl, hres, fun b hb hcov => hapart b hb index ?_ hcov⟩
    unfold Block.Covers
    rw [hfirst]
    exact ⟨Nat.le_refl _, Nat.lt_succ_self _⟩

/-- A search for one page, wherever the cursor is, finds a clear one. -/
theorem findContinousPages_one (mm : Mm) (zone : Zone) (index : Nat)
    (hwords : 32 * mm.mapWords ≤ 2 ^ 20)
    (h : mm.findContinousPages zone 1 = some index) (hne : index ≠ 0) :
    used mm.pageMap index = false := by
  rcases Mm.findLoop_clear mm zone 1 _ _ _ _ index h hne with ⟨k, hin, hclear, hindex⟩
  simp only [Mm.inMap, decide_eq_true_eq] at hin
  have hk : index = k := by
    rw [hindex]
    unfold sub32 u32Size
    omega
  rw [hk]
  exact hclear

/-- One call for a single page: the invariant is kept, and a page that is
    returned is a fresh one. -/
theorem call_single (reserved : Nat) (s s' : Session) (c : PageCall) (addr : Nat)
    (h : Held reserved s) (hc : singlePage s c addr) (hcall : s.call c = some (addr, s')) :
    Held reserved s' ∧ (addr ≠ 0 → FreshPage reserved s addr) := by
  cases c with
  | get count flag =>
      have hcount : count = 1 := hc.1
      subst hcount
      rcases call_get s s' 1 flag addr hcall with ⟨mm', hget, rfl⟩
      rcases Mm.getFreePages_cases s.mm mm' 1 flag addr hget with
        ⟨hzero, hmm⟩ | ⟨z, index, _, _, hfind, hne, haddr, htook⟩
      · rw [hzero, hmm]
        exact ⟨h, fun hne => absurd rfl hne⟩
      · -- A search for one page ends at the first clear bit, so the page is clear.
        have hclear := findContinousPages_one s.mm _ index h.words hfind hne
        rcases held_take_one reserved s mm' z index flag _ h htook hclear with ⟨hheld, hfresh⟩
        rw [haddr]
        exact ⟨hheld, fun _ => hfresh⟩
  | aligin aligin flag =>
      rcases call_aligin s s' aligin flag addr hcall with ⟨mm', hget, rfl⟩
      rcases Mm.getFreePageAligin_cases s.mm mm' aligin flag addr hget with
        ⟨hzero, hmm⟩ | ⟨z, id, _, _, _, hclear, _, haddr, htook⟩
      · rw [hzero, hmm]
        exact ⟨h, fun hne => absurd rfl hne⟩
      · rcases held_take_one reserved s mm' z id flag _ h htook hclear with ⟨hheld, hfresh⟩
        rw [haddr]
        exact ⟨hheld, fun _ => hfresh⟩
  | free b =>
      have hb : b ∈ s.live := hc
      rcases call_free s s' b addr hcall with ⟨mm', hfree, ha, rfl⟩
      refine ⟨?_, fun hne => absurd ha hne⟩
      rcases Mm.freePages_cases s.mm mm' b.addr hfree with hmm | ⟨z, _, _, _, hgave⟩
      · rw [hmm]
        exact held_drop reserved s b h hb
      · -- The length comes from the entry, which still has the length of the block.
        rw [(h.head b hb).2] at hgave
        exact held_give reserved s mm' z _ b h hb hgave

instance (s : Session) (c : PageCall) (addr : Nat) : Decidable (singlePage s c addr) :=
  match c with
  | .get _ _ => inferInstanceAs (Decidable (_ ∧ _))
  | .aligin _ flag => inferInstanceAs (Decidable (managedFlag flag))
  | .free b => inferInstanceAs (Decidable (b ∈ s.live))

/-- Every page that is returned, over any run of calls for single pages from
    the state after boot, is neither one of the pages reserved at boot nor a
    page that was returned earlier and is still live. -/
theorem single_page_exclusive (mm : Mm) (kernelEnd uninit : Nat) (hk : mm.kernelStart < u32Size)
    (ht : mm.totalPage < 2 ^ 20) (s s' : Session) (c : PageCall) (addr : Nat)
    (hrun : Run.Reaches Session.call singlePage (Session.booted mm kernelEnd uninit) s)
    (hc : singlePage s c addr) (hcall : s.call c = some (addr, s')) (hne : addr ≠ 0) :
    (∀ i < mm.reservedPages kernelEnd, addr ≠ mm.pageIdToVa i) ∧
      ∀ b ∈ s.live, b.addr ≠ addr := by
  have hinv : Held (mm.reservedPages kernelEnd) s ∧ s.mm.kernelStart = mm.kernelStart := by
    apply Run.invariant_of_reaches Session.call singlePage
      (fun t => Held (mm.reservedPages kernelEnd) t ∧ t.mm.kernelStart = mm.kernelStart) _ _ s hrun
    · exact ⟨held_booted mm kernelEnd uninit hk ht,
        (Mm.initPageTableMap_frame mm kernelEnd uninit).1⟩
    · intro t c₁ a₁ t' ih hc₁ hcall₁
      exact ⟨(call_single _ t t' c₁ a₁ ih.1 hc₁ hcall₁).1,
        (call_start t t' c₁ a₁ hcall₁).trans ih.2⟩
  rcases hinv with ⟨hheld, hstart⟩
  rcases (call_single _ s s' c addr hheld hc hcall).2 hne with ⟨haddr, hres, hlive⟩
  constructor
  · intro i hi heq
    -- Reserved pages have numbers below `2^20`, so the address gives the page back.
    have hpages : mm.reservedPages kernelEnd ≤ 2 ^ 20 := by
      unfold Mm.reservedPages pageSize
      have hand : baligin (sub32 (Mm.tableLayout mm.totalPage kernelEnd).2.2 mm.kernelStart) 4096
          ≤ u32Size - 4096 := by
        unfold baligin
        exact Nat.and_le_right
      unfold u32Size at hand
      omega
    have hid := Mm.vaToPageId_pageIdToVa mm i hk (by omega)
    rw [← heq, ← vaToPageId_of_start mm s.mm hstart] at hid
    omega
  · intro b hb heq
    apply hlive b hb
    unfold Block.Covers
    rw [heq]
    have hpos := (hheld.head b hb).1
    omega

/-- On the board, after the aligned search took the last page of the first
    megabyte and gave it back, the next page is the first one after the
    reserved pages. -/
theorem single_page_exclusive_board :
    ∃ s s', Run.Reaches Session.call singlePage (Session.booted Mm.boardBank 0x80010000 0) s ∧
      s.live = [⟨0x80014000, 1⟩] ∧ s.call (.get 1 gfpKernel) = some (0x80015000, s') ∧
      (∀ i < Mm.boardBank.reservedPages 0x80010000, 0x80015000 ≠ Mm.boardBank.pageIdToVa i) ∧
      ∀ b ∈ s.live, b.addr ≠ 0x80015000 := by
  have heval : (Run.follow Session.call singlePage (Session.booted Mm.boardBank 0x80010000 0)
      [.aligin 0xff000 gfpKernel, .get 1 gfpKernel, .free ⟨0x800ff000, 1⟩]).map
        (fun s => (s.live, (s.call (.get 1 gfpKernel)).map Prod.fst))
      = some ([⟨0x80014000, 1⟩], some 0x80015000) := by decide +kernel
  rcases Option.map_eq_some_iff.mp heval with ⟨s, hs, hpair⟩
  rw [Prod.mk.injEq] at hpair
  rcases Option.map_eq_some_iff.mp hpair.2 with ⟨⟨a, s'⟩, hs', ha⟩
  subst ha
  have hrun := Run.reaches_of_follow Session.call singlePage _ _ s hs
  refine ⟨s, s', hrun, hpair.1, hs', ?_⟩
  exact single_page_exclusive Mm.boardBank 0x80010000 0 (by decide) (by decide) s s'
    (.get 1 gfpKernel) _ hrun ⟨rfl, by decide⟩ hs' (by decide)

end Mirros
