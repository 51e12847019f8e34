import Mirros.Lib.Run
import Mirros.Theory.Slab.Keeps

/-!
# Slab Pages Outlive Their Slices

Runs of `kmalloc` and `kfree_kernel_mem`. A page with a live block must stay
marked in the page map, and live blocks must not overlap.

This fails when a block that was freed is handed out again, because its page no
longer counts a reference for it: freeing it a second time drops the reference
of another block. `kmallocOk` allows a call when this cannot happen and when the
page it may take will have a header; `Alive` is then an invariant.

## Main definitions

* `KBlock`, `KSession`, `KCall`: The allocator and the blocks in use.
* `kmallocOk`: The calls that reach neither defect.
* `Outlives`: Pages of live blocks are marked and live blocks do not overlap.
* `Alive`: The invariant of the runs.

## Theorems

* `alive_call`: One call keeps the invariant.
* `slab_pages_outlive`: Over every run, pages of live blocks stay marked and
  live blocks do not overlap.
* `slab_pages_outlive_fails`: A run that releases the page of a live block.
-/

namespace Mirros

/-- A block a caller holds. -/
structure KBlock where
  addr : Nat
  size : Nat
  deriving DecidableEq, Repr

/-- The slab allocator and the blocks that were returned and not freed since. -/
structure KSession where
  slab : Slab
  live : List KBlock

/-- A call of the slab allocator for kernel memory. -/
inductive KCall where
  | alloc (size : Int)
  | free (b : KBlock)
  deriving DecidableEq, Repr

/-- The slice of a block. -/
def KBlock.slot (b : KBlock) : SlabHeader :=
  ⟨b.addr, getNewAllocSize b.size gfpKernel⟩

namespace KSession

/-- Make a call, with the returned address as the result. -/
def call (s : KSession) : KCall → Option (Nat × KSession)
  | .alloc size => do
      let (addr, slab) ← s.slab.kmalloc size gfpKernel
      return (addr, ⟨slab, if addr = 0 then s.live else ⟨addr, size.toNat⟩ :: s.live⟩)
  | .free b => do
      let slab ← s.slab.kfreeKernelMem b.addr
      return (0, ⟨slab, s.live.erase b⟩)

/-- All slices that hold a reference. -/
def owned (s : KSession) : List SlabHeader :=
  s.live.map KBlock.slot ++ s.slab.aside

end KSession

/-- Blocks from 1 to `SLAB_MAX` bytes, and `kfree_kernel_mem` of live blocks. -/
def kmallocCall (s : KSession) (c : KCall) (_ : Nat) : Prop :=
  match c with
  | .alloc size => 1 ≤ size ∧ size ≤ slabMax
  | .free b => b ∈ s.live

/-- The same, unless the block comes from a slice that was freed or the page
    for it has no header. -/
def kmallocOk (s : KSession) (c : KCall) (addr : Nat) : Prop :=
  kmallocCall s c addr ∧
    match c with
    | .alloc size => cacheOk s.slab (getNewAllocSize size.toNat gfpKernel) ∧
        starved s.slab (getNewAllocSize size.toNat gfpKernel) = false
    | .free _ => True

/-- Every page with a byte of a live block is marked, and no byte belongs to
    two live blocks. -/
def Outlives (s : KSession) : Prop :=
  (∀ b ∈ s.live, ∀ i < b.size,
    used s.slab.mm.pageMap (s.slab.mm.vaToPageId (add32 b.addr i)) = true) ∧
  s.live.Pairwise (fun b c => ∀ i < b.size, ∀ j < c.size, add32 b.addr i ≠ add32 c.addr j)

/-- The invariant of the runs. -/
def Alive (s : KSession) : Prop :=
  (∀ b ∈ s.live, 1 ≤ b.size ∧ b.size ≤ slabMax) ∧
    ∃ S, Sound s.slab s.owned S ∧ CurrentOk s.slab s.owned S

theorem alive_call (s s' : KSession) (c : KCall) (addr : Nat) (h : Alive s)
    (hc : kmallocOk s c addr) (hcall : s.call c = some (addr, s')) : Alive s' := by
  rcases h with ⟨hsizes, S, hsound, hcur⟩
  cases c with
  | alloc size =>
      rcases hc with ⟨⟨hlow, hmax⟩, hcache, hheader⟩
      simp only [KSession.call, Option.pure_def, Option.bind_eq_bind, Option.bind_eq_some_iff,
        Option.some.injEq, Prod.mk.injEq, Prod.exists] at hcall
      rcases hcall with ⟨ret, slab, hrun, hret, hs'⟩
      unfold Slab.kmalloc at hrun
      rw [if_neg (by omega), if_neg (by decide)] at hrun
      rcases alive_alloc s.slab slab (s.live.map KBlock.slot) S size.toNat ret hsound hcur
        (by omega) (by omega) hcache hheader hrun with ⟨S', hsound', hcur'⟩
      rw [← hs']
      unfold gain at hsound' hcur'
      by_cases hzero : ret = 0
      · simp only [if_pos hzero] at hsound' hcur' ⊢
        exact ⟨hsizes, S', hsound', hcur'⟩
      · simp only [if_neg hzero] at hsound' hcur' ⊢
        refine ⟨fun b hb => ?_, S', hsound', hcur'⟩
        rcases List.mem_cons.mp hb with hb | hb
        · rw [hb]
          simp only
          omega
        · exact hsizes b hb
  | free b =>
      have hb : b ∈ s.live := hc.1
      simp only [KSession.call, Option.pure_def, Option.bind_eq_bind, Option.bind_eq_some_iff,
        Option.some.injEq, Prod.mk.injEq] at hcall
      rcases hcall with ⟨slab, hrun, _, hs'⟩
      -- The slice of the block is brought to the front.
      have hperm : s.owned.Perm
          (b.slot :: ((s.live.erase b).map KBlock.slot ++ s.slab.aside)) :=
        ((List.perm_cons_erase hb).map KBlock.slot).append_right s.slab.aside
      have hk := keeps_perm s.slab _ _ S hperm hsound
      rcases alive_free s.slab slab b.slot _ S hk.sound
        (fun p hp hset => ⟨hk.pages p (hcur p hp hset).1, (hcur p hp hset).2⟩) hrun
        with ⟨hsound', hcur', haside⟩
      rw [← hs']
      rw [← haside] at hsound' hcur'
      exact ⟨fun c hc => hsizes c (List.mem_of_mem_erase hc), S, hsound', hcur'⟩

/-- A byte of a slice, by its page and its offset. -/
theorem byte_of_slot (mm : Mm) (addr i : Nat)
    (h : sub32 addr mm.kernelStart % pageSize + i < pageSize) :
    mm.vaToPageId (add32 addr i) = mm.vaToPageId addr ∧
      sub32 (add32 addr i) mm.kernelStart % pageSize
        = sub32 addr mm.kernelStart % pageSize + i := by
  unfold Mm.vaToPageId
  unfold sub32 add32 pageSize u32Size at *
  omega

theorem outlives_of_alive (s : KSession) (h : Alive s) : Outlives s := by
  rcases h with ⟨hsizes, S, hsound, _⟩
  have hslot : ∀ b ∈ s.live, PageOk s.slab s.owned S (s.slab.mm.vaToPageId b.addr) ∧
      ∀ i < b.size, sub32 b.addr s.slab.mm.kernelStart % pageSize + i < pageSize ∧
        i < (KBlock.slot b).size := by
    intro b hb
    have hmem : b.slot ∈ s.owned := List.mem_append_left _ (List.mem_map_of_mem hb)
    rcases hsound.slots b.slot hmem with ⟨_, hok, hend⟩
    -- The slot has the rounded size, so it holds every byte of the block.
    have hround := getNewAllocSize_eq b.size (hsizes b hb).2
    refine ⟨hok, fun i hi => ?_⟩
    unfold slotOff KBlock.slot at hend
    unfold KBlock.slot
    simp only at hend ⊢
    omega
  constructor
  · intro b hb i hi
    rcases hslot b hb with ⟨hok, hbytes⟩
    rw [(byte_of_slot s.slab.mm b.addr i (hbytes i hi).1).1]
    exact hok.set
  · have hapart := (List.pairwise_append.mp hsound.apart).1
    rw [List.pairwise_map] at hapart
    apply hapart.imp_of_mem
    intro b c hb hc hbc i hi j hj heq
    have hbi := byte_of_slot s.slab.mm b.addr i ((hslot b hb).2 i hi).1
    have hcj := byte_of_slot s.slab.mm c.addr j ((hslot c hc).2 j hj).1
    have hispan := ((hslot b hb).2 i hi).2
    have hjspan := ((hslot c hc).2 j hj).2
    -- Two equal addresses have the same page and offset, so the slots would overlap.
    rw [heq] at hbi
    unfold SlotApart slotOff at hbc
    unfold KBlock.slot at hbc hispan hjspan
    simp only at hbc hispan hjspan
    omega

/-- The heads of the cache lists after the loop of `slab_init`. -/
theorem foldl_initList_cache (l : Links MemNode) (n i : Nat) (hi : i < n) :
    ((List.range n).foldl (fun l i => initList l (.cache i)) l).next (.cache i) = .cache i ∧
      ((List.range n).foldl (fun l i => initList l (.cache i)) l).pre (.cache i) = .cache i := by
  have hmem : MemNode.cache i ∈ (List.range n).map MemNode.cache :=
    List.mem_map_of_mem (List.mem_range.mpr hi)
  have hfold := foldl_initList ((List.range n).map MemNode.cache) (.cache i) l
  rw [List.foldl_map, if_pos hmem, if_pos hmem] at hfold
  exact hfold

/-- After `slab_init` the nodes in use are the heads of the lists. -/
theorem alive_slabInit (mm : Mm) (header : Nat → SlabHeader)
    (hwords : 32 * mm.mapWords ≤ 2 ^ 20) (hstart : mm.kernelStart < u32Size) :
    Alive ⟨Slab.slabInit mm header, []⟩ := by
  have hcache := foldl_initList_cache mm.links slabNode
  refine ⟨fun b hb => absurd hb List.not_mem_nil,
    { n | n = .tableList ∨ ∃ i < slabNode, n = .cache i }, ?_, ?_⟩
  · refine ⟨hwords, hstart, ?_, ?_, ?_, Or.inl rfl, fun i hi => Or.inr ⟨i, hi, rfl⟩, ?_, ?_, ?_,
      List.Pairwise.nil⟩
    · intro n hn
      -- Every head is linked to itself.
      simp only [Slab.slabInit]
      rcases hn with hn | ⟨i, hi, hn⟩
      · rw [hn]
        simp [initList]
      · rw [hn]
        unfold initList at hcache ⊢
        simp only [Links.setPre_next, Links.setNext_next, Links.setPre_pre, Links.setNext_pre,
          reduceCtorEq, if_false]
        rw [(hcache i hi).1, (hcache i hi).2]
        exact ⟨Or.inr ⟨i, hi, rfl⟩, Or.inr ⟨i, hi, rfl⟩⟩
    · simp
    · simp only [Slab.slabInit, initList_next, if_true]
    · intro h hh
      simp at hh
    · intro p hp
      exact absurd hp (by simp only [Slab.slabInit, reduceCtorEq, not_false_eq_true])
    · intro b hb
      exact absurd hb List.not_mem_nil
  · intro p hp
    exact absurd hp (by simp only [Slab.slabInit, reduceCtorEq, not_false_eq_true])

/-- Over every run of `kmalloc` and `kfree_kernel_mem` after `slab_init` in which
    no freed block is handed out again from its cache list and no page is taken
    without a header for it, the pages of live blocks stay marked and live blocks
    do not overlap. -/
theorem slab_pages_outlive (mm : Mm) (header : Nat → SlabHeader)
    (hwords : 32 * mm.mapWords ≤ 2 ^ 20) (hstart : mm.kernelStart < u32Size) (s : KSession)
    (hrun : Run.Reaches KSession.call kmallocOk ⟨Slab.slabInit mm header, []⟩ s) :
    Outlives s := by
  apply outlives_of_alive
  apply Run.invariant_of_reaches KSession.call kmallocOk Alive _ _ s hrun
  · exact alive_slabInit mm header hwords hstart
  · intro t c a t' h hc hcall
    exact alive_call t t' c a h hc hcall

instance (s : Slab) (size : Nat) : Decidable (cacheOk s size) :=
  inferInstanceAs (Decidable (_ ∨ _))

instance (s : KSession) (c : KCall) (addr : Nat) : Decidable (kmallocCall s c addr) :=
  match c with
  | .alloc size => inferInstanceAs (Decidable (1 ≤ size ∧ size ≤ slabMax))
  | .free b => inferInstanceAs (Decidable (b ∈ s.live))

instance (s : KSession) (c : KCall) (addr : Nat) : Decidable (kmallocOk s c addr) :=
  match c with
  | .alloc size => inferInstanceAs (Decidable (kmallocCall s (.alloc size) addr ∧
      cacheOk s.slab (getNewAllocSize size.toNat gfpKernel) ∧
        starved s.slab (getNewAllocSize size.toNat gfpKernel) = false))
  | .free b => inferInstanceAs (Decidable (kmallocCall s (.free b) addr ∧ True))

/-- The board after `init_page_table_map` and `slab_init`. -/
def boardSlab : KSession :=
  ⟨Slab.slabInit (Mm.boardBank.initPageTableMap 0x80010000 0) (fun _ => ⟨0, 0⟩), []⟩

/-- On the board, the third block is the rest of the first page, which was put
    aside when the second page was taken. -/
theorem slab_pages_outlive_board :
    ∃ s, Run.Reaches KSession.call kmallocOk boardSlab s ∧
      s.live = [⟨0x80014bc0, 1088⟩, ⟨0x80016000, 2000⟩, ⟨0x80014000, 3000⟩] ∧ Outlives s := by
  have heval : (Run.follow KSession.call kmallocOk boardSlab
      [.alloc 3000, .alloc 2000, .alloc 1088]).map KSession.live
      = some [⟨0x80014bc0, 1088⟩, ⟨0x80016000, 2000⟩, ⟨0x80014000, 3000⟩] := by decide +kernel
  rcases Option.map_eq_some_iff.mp heval with ⟨s, hs, hlive⟩
  have hrun := Run.reaches_of_follow KSession.call kmallocOk _ _ s hs
  exact ⟨s, hrun, hlive, slab_pages_outlive _ _ (by decide +kernel) (by decide +kernel) s hrun⟩

/-- On the board, two blocks share a page; the first is freed, handed out again
    and freed again, and the page of the second is released. -/
theorem slab_pages_outlive_fails :
    ¬∀ s, Run.Reaches KSession.call kmallocCall boardSlab s → Outlives s := by
  intro hall
  have heval : (Run.follow KSession.call kmallocCall boardSlab
      [.alloc 16, .alloc 16, .free ⟨0x80014000, 16⟩, .alloc 16, .free ⟨0x80014000, 16⟩]).map
        (fun s => (s.live,
          used s.slab.mm.pageMap (s.slab.mm.vaToPageId (add32 0x80014010 0))))
      = some ([⟨0x80014010, 16⟩], false) := by decide +kernel
  rcases Option.map_eq_some_iff.mp heval with ⟨s, hs, hstate⟩
  rw [Prod.mk.injEq] at hstate
  have hout := (hall s (Run.reaches_of_follow KSession.call kmallocCall _ _ s hs)).1
    ⟨0x80014010, 16⟩ (by rw [hstate.1]; exact List.mem_singleton.mpr rfl) 0 (by decide)
  rw [hstate.2] at hout
  exact Bool.false_ne_true hout

end Mirros
