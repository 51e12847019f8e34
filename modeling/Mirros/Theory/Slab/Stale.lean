import Mirros.Core.Cache
import Mirros.Theory.Slab.Outlive

/-!
# Discarding Slices of Released Pages

A cache list may hold headers of slices whose pages were released.
`get_slab_in_list` means to drop these from the front of the list, onto the list of
free headers, and to hand out the first slice that is left. What it passes to
`__kfree_header_slab` is the slice, not the header, so the list nodes that are
written are in the released page and the header stays where it is.

`Discards` is what the function means to do. It is about the lists as the walk along
the forward pointers meets them, since the list of the page that the slice goes to
may itself be linked into a cache list.

## Main definitions

* `staleHeader`: The slice of the header is in a page that was released.
* `CacheList`: A cache list and the list of free headers, with their headers.
* `Discards`: The call drops the stale headers and returns the first slice left.

## Theorems

* `repet_fresh`: The call when the first slice is not stale.
* `repet_stale`: The call when it is: the log has the address of the slice.
* `getSlabInList_discards`: The stale headers are dropped exactly when there are
  none.
-/

namespace Mirros

namespace Slab

/-- The slice of the header is in a page whose bit in the page map is clear. -/
def staleHeader (s : Slab) (h : Nat) : Bool :=
  !used s.mm.pageMap (s.mm.vaToPageId (s.header h).base)

/-- The headers `hs` are on the cache list of the size and `fs` on the list of free
    headers, and the page map has a bit for each slice. -/
structure CacheList (s : Slab) (size : Nat) (hs fs : List Nat) : Prop where
  cache : Ring s.mm.links (.cache (listId size)) (hs.map .header)
  free : Ring s.mm.links .freeHeader (fs.map .header)
  apart : ∀ h ∈ hs, h ∉ fs
  inMap : ∀ h ∈ hs, s.mm.inMap (s.mm.vaToPageId (s.header h).base) = true

/-- The call comes back with the first slice that is not stale, or null; the stale
    headers in front of it have moved to the list of free headers, the header of the
    slice has left the cache list too, and no list node in the page of a slice that
    was dropped was written. -/
def Discards (s : Slab) (size : Nat) (hs fs : List Nat) : Prop :=
  ∃ fuel ret log s', s.getSlabInListRepet size gfpKernel fuel = some (ret, log, s') ∧
    ret = ((hs.dropWhile s.staleHeader).head?.map (fun h => (s.header h).base)).getD 0 ∧
    Forward s'.mm.links (.cache (listId size) ::
      (hs.dropWhile s.staleHeader).tail.map .header ++ [.cache (listId size)]) ∧
    (∃ fs' : List Nat, fs'.Perm (hs.takeWhile s.staleHeader ++ fs) ∧
      Forward s'.mm.links (.freeHeader :: fs'.map .header ++ [.freeHeader])) ∧
    ∀ a, MemNode.header a ∈ log → ∀ h ∈ hs.takeWhile s.staleHeader,
      s.mm.vaToPageId a ≠ s.mm.vaToPageId (s.header h).base

section

variable (s : Slab) (size : Nat) (fs : List Nat)

/-- An empty list gives no slice. -/
theorem discards_nil (hlist : CacheList s size [] fs) : Discards s size [] fs := by
  have hempty : isListEmpty s.mm.links (.cache (listId size)) = true :=
    decide_eq_true ((ring_next_self_iff s.mm.links _ _ hlist.cache).mpr rfl)
  refine ⟨1, 0, [], s, ?_, rfl, forward_of_linked _ _ hlist.cache.2,
    ⟨fs, List.Perm.refl fs, forward_of_linked _ _ hlist.free.2⟩, fun a ha => ?_⟩
  · unfold getSlabInListRepet repet
    rw [if_neg (by decide)]
    simp only [hempty, if_true]
  · exact absurd ha List.not_mem_nil

variable (h : Nat) (rest : List Nat) (hlist : CacheList s size (h :: rest) fs)

include hlist

/-- One turn of the loop: the first header is looked at. -/
theorem repet_first (fuel : Nat) :
    repet size (fuel + 1) s = if s.staleHeader h = true then
      ((s.kfreeHeaderSlab (s.mm.vaToPageId (s.header h).base) (s.header h).base).bind
        fun r => (repet size fuel r.2).bind fun r' => some (r'.1, r.1 ++ r'.2.1, r'.2.2))
    else
      let r := s.switchToPage h (s.mm.vaToPageId (s.header h).base) (.cache (listId size))
      some ((s.header h).base, r.1, { r.2 with aside := r.2.aside.erase ⟨(s.header h).base, size⟩ })
    := by
  have hnext : s.mm.links.next (.cache (listId size)) = .header h :=
    ring_next_head s.mm.links _ _ hlist.cache
  have hempty : isListEmpty s.mm.links (.cache (listId size)) = false := by
    unfold isListEmpty
    rw [hnext]
    rfl
  have hstate : s.mm.pageState (s.mm.vaToPageId (s.header h).base)
      = some (readBit s.mm.pageMap (s.mm.vaToPageId (s.header h).base)) :=
    if_pos (hlist.inMap h List.mem_cons_self)
  conv_lhs => unfold repet
  simp only [hempty, Bool.false_eq_true, if_false, hnext, hstate, Option.bind_eq_bind,
    Option.bind_some, Option.pure_def, readBit_eq_zero_iff, staleHeader, Bool.not_eq_true']

/-- A first slice that is not stale is handed out. -/
theorem discards_fresh (hfresh : s.staleHeader h = false) : Discards s size (h :: rest) fs := by
  have hrun := repet_first s size fs h rest hlist 0
  rw [if_neg (by rw [hfresh]; exact Bool.false_ne_true)] at hrun
  have hdrop : (h :: rest).dropWhile s.staleHeader = h :: rest := by
    rw [List.dropWhile_cons, hfresh, if_neg Bool.false_ne_true]
  have htake : (h :: rest).takeWhile s.staleHeader = [] := by
    rw [List.takeWhile_cons, hfresh, if_neg Bool.false_ne_true]
  have hpre : s.mm.links.pre (.header h) = .cache (listId size) :=
    (ring_split s.mm.links _ _ [] (rest.map .header) hlist.cache).1
  have hnd := hlist.cache.1
  -- The forward pointers of the cache list's head, of the header and of the page change.
  have hnext : ∀ n, n ≠ .header h → n ≠ .page (s.mm.vaToPageId (s.header h).base) →
      (s.switchToPage h (s.mm.vaToPageId (s.header h).base)
        (.cache (listId size))).2.mm.links.next n
        = if n = .cache (listId size) then s.mm.links.next (.header h) else s.mm.links.next n := by
    intro n hnh hnp
    simp only [switchToPage, headerListSwitch, setLinks, Bool.false_eq_true, if_false,
      listAdd_eq_link, listDel_eq_link, Links.link_next, if_neg hnh, if_neg hnp, hpre]
  refine ⟨1, _, _, _, (if_neg (by decide)).trans hrun, ?_, ?_, ⟨fs, ?_, ?_⟩, fun a _ b hb => ?_⟩
  · rw [hdrop]
    rfl
  · rw [hdrop]
    refine forward_skip s.mm.links _ _ (rest.map .header) (.cache (listId size)) (.header h)
      ?_ ?_ ?_
    · exact (List.isChain_cons_cons.mp (forward_of_linked _ _ hlist.cache.2)).2
    · exact (hnext (.cache (listId size)) (by simp) (by simp)).trans (if_pos rfl)
    · intro y hy
      rcases List.mem_map.mp hy with ⟨b, hb, rfl⟩
      refine (hnext (.header b) (fun hc => ?_) (by simp)).trans (if_neg (by simp))
      exact (List.nodup_cons.mp (List.nodup_cons.mp hnd).2).1 (hc ▸ hy)
  · rw [htake]
    exact List.Perm.refl fs
  · refine forward_skip s.mm.links _ _ (fs.map .header) .freeHeader .freeHeader
      (forward_of_linked _ _ hlist.free.2)
        ((hnext .freeHeader (by simp) (by simp)).trans (if_neg (by simp))) ?_
    intro y hy
    rcases List.mem_map.mp hy with ⟨b, hb, rfl⟩
    refine (hnext (.header b) (fun hc => ?_) (by simp)).trans (if_neg (by simp))
    exact hlist.apart h List.mem_cons_self (MemNode.header.inj hc ▸ hb)
  · rw [htake] at hb
    exact absurd hb List.not_mem_nil

/-- A stale first slice is itself written. -/
theorem not_discards_stale (hstale : s.staleHeader h = true) : ¬Discards s size (h :: rest) fs := by
  rintro ⟨fuel, ret, log, s', hrun, _, _, _, hlog⟩
  have hloop : repet size fuel s = some (ret, log, s') := (if_neg (by decide)).symm.trans hrun
  cases fuel with
  | zero => exact absurd hloop (by simp only [repet, reduceCtorEq, not_false_eq_true])
  | succ fuel =>
      rw [repet_first s size fs h rest hlist fuel, if_pos hstale] at hloop
      rcases Option.bind_eq_some_iff.mp hloop with ⟨⟨log₁, s₁⟩, hfree, hloop⟩
      rcases Option.bind_eq_some_iff.mp hloop with ⟨⟨ret₂, log₂, s₂⟩, _, hloop⟩
      simp only [Option.some.injEq, Prod.mk.injEq] at hloop
      simp only [kfreeHeaderSlab, Option.pure_def, Option.bind_eq_bind, Option.bind_eq_some_iff,
        Option.some.injEq, Prod.mk.injEq] at hfree
      rcases hfree with ⟨mm, _, hlog₁, _⟩
      -- The second store of `list_add` goes to the block that is added.
      have hmem : MemNode.header (s.header h).base ∈ log := by
        rw [← hloop.2.1, ← hlog₁]
        simp only [addStores, List.mem_append, List.mem_cons, true_or, or_true]
      exact hlog _ hmem h (by rw [List.takeWhile_cons, if_pos hstale]; exact List.mem_cons_self) rfl

end

/-- The stale headers at the front of a cache list are discarded only when there are
    none: in every other case the released page of the first one is written. -/
theorem getSlabInList_discards (s : Slab) (size : Nat) (hs fs : List Nat)
    (hlist : CacheList s size hs fs) :
    Discards s size hs fs ↔ ∀ h, hs.head? = some h → s.staleHeader h = false := by
  cases hs with
  | nil => exact iff_of_true (discards_nil s size fs hlist) (fun h hh => nomatch hh)
  | cons h rest =>
      cases hstale : s.staleHeader h with
      | false =>
          refine iff_of_true (discards_fresh s size fs h rest hlist hstale) (fun a ha => ?_)
          rw [← Option.some.inj ha]
          exact hstale
      | true =>
          refine iff_of_false (not_discards_stale s size fs h rest hlist hstale) (fun hall => ?_)
          exact Bool.noConfusion (hstale.symm.trans (hall h rfl))

instance (s : Slab) (size : Nat) (hs fs : List Nat) : Decidable (CacheList s size hs fs) :=
  decidable_of_iff (Ring s.mm.links (.cache (listId size)) (hs.map .header) ∧
      Ring s.mm.links .freeHeader (fs.map .header) ∧ (∀ h ∈ hs, h ∉ fs) ∧
      ∀ h ∈ hs, s.mm.inMap (s.mm.vaToPageId (s.header h).base) = true)
    ⟨fun h => ⟨h.1, h.2.1, h.2.2.1, h.2.2.2⟩, fun h => ⟨h.cache, h.free, h.apart, h.inMap⟩⟩

/-- On the board, two blocks of 32 bytes and the first one freed: its header is on the
    cache list, and the page is kept by the second block. -/
theorem getSlabInList_discards_board :
    ∃ s, (do
        let (a, s) ← boardSlab.slab.kmalloc 32 gfpKernel
        let (_, s) ← s.kmalloc 32 gfpKernel
        s.kfreeKernelMem a) = some s ∧ Discards s 32 [0x80015000] [] := by
  have heval : (do
      let (a, s) ← boardSlab.slab.kmalloc 32 gfpKernel
      let (_, s) ← s.kmalloc 32 gfpKernel
      s.kfreeKernelMem a).map (fun s => decide (CacheList s 32 [0x80015000] [] ∧
        s.staleHeader 0x80015000 = false)) = some true := by decide +kernel
  rcases Option.map_eq_some_iff.mp heval with ⟨s, hs, hstate⟩
  rcases of_decide_eq_true hstate with ⟨hlist, hfresh⟩
  refine ⟨s, hs, (getSlabInList_discards s 32 _ _ hlist).mpr (fun h hh => ?_)⟩
  rw [← Option.some.inj hh]
  exact hfresh

/-- On the board, a block of 32 bytes that is freed takes its page with it, and its
    header stays on the cache list. -/
theorem getSlabInList_discards_fails :
    ¬∀ (s : Slab) (size : Nat) (hs fs : List Nat), CacheList s size hs fs →
      Discards s size hs fs := by
  intro hall
  have heval : (do
      let (a, s) ← boardSlab.slab.kmalloc 32 gfpKernel
      s.kfreeKernelMem a).map (fun s => decide (CacheList s 32 [0x80015000] [] ∧
        s.staleHeader 0x80015000 = true)) = some true := by decide +kernel
  rcases Option.map_eq_some_iff.mp heval with ⟨s, hs, hstate⟩
  rcases of_decide_eq_true hstate with ⟨hlist, hstale⟩
  exact not_discards_stale s 32 [] 0x80015000 [] hlist hstale (hall s 32 _ _ hlist)

end Slab

end Mirros
