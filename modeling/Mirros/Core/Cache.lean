import Mirros.Core.Slab

/-!
# Cached Slices of Released Pages

`get_slab_in_list` for every cache list, also one whose first slices lie in pages
that were released since. `Slab.getSlabInList` leaves that case undefined, because
`__kfree_header_slab` is given the address of the slice and takes the memory there
for a slab header.

The list node of that header is at the address of the slice. It is a node like any
other here, `MemNode.header` of the address, and what it points at is whatever the
released memory holds. The function then goes round again, so the loop has fuel and
a run that uses it up says nothing. Every store through a list pointer is put in a
log, since memory that was released must not be written.

## Main definitions

* `delStores`, `addStores`: The nodes `list_del` and `list_add` write.
* `kfreeHeaderSlab`: `__kfree_header_slab` with the address it is given.
* `getSlabInListRepet`: `get_slab_in_list` with its loop and the log of its stores.
* `kmallocRepet`: `kmalloc` over that.

## Theorems

* `getSlabInList_repet`, `kmalloc_repet`: Where no slice of a released page is met,
  the loop does what `Slab.getSlabInList` and `Slab.kmalloc` do.
-/

namespace Mirros

/-- The nodes `list_del` writes. -/
def delStores {α : Type} (l : Links α) (list : α) : List α :=
  [l.next list, l.pre list]

/-- The nodes `list_add` writes. -/
def addStores {α : Type} (l : Links α) (head new : α) : List α :=
  [l.next head, new, new, head]

namespace Slab

/-- `__kfree_header_slab`: the block at the address is taken for a header. -/
def kfreeHeaderSlab (s : Slab) (pg addr : Nat) : Option (List MemNode × Slab) := do
  let del := delStores s.mm.links (.header addr)
  let s := s.setLinks (listDel s.mm.links (.header addr))
  let add := addStores s.mm.links .freeHeader (.header addr)
  let s := s.setLinks (listAdd s.mm.links .freeHeader (.header addr))
  let mm ← s.mm.pagePut pg
  return (del ++ add, { s with mm := mm })

/-- `header_list_switch` to the page, with the nodes it writes. -/
def switchToPage (s : Slab) (header pg : Nat) (list : MemNode) : List MemNode × Slab :=
  (delStores s.mm.links (.header header) ++
      addStores (listDel s.mm.links (.header header)) (.page pg) (.header header),
    s.headerListSwitch header pg list false)

/-- The loop of `get_slab_in_list`, from the label `repet` on. -/
def repet (size : Nat) : Nat → Slab → Option (Nat × List MemNode × Slab)
  | 0, _ => none
  | fuel + 1, s =>
      let list := MemNode.cache (listId size)
      if isListEmpty s.mm.links list then some (0, [], s)
      else
        match s.mm.links.next list with
        | .header h => do
            let base := (s.header h).base
            let pg := s.mm.vaToPageId base
            let state ← s.mm.pageState pg
            if state = 0 then
              -- The list still starts with `h`, unless the stores below changed that.
              let (log, s) ← s.kfreeHeaderSlab pg base
              let (ret, log', s) ← repet size fuel s
              return (ret, log ++ log', s)
            else
              let (log, s) := s.switchToPage h pg list
              return (base, log, { s with aside := s.aside.erase ⟨base, size⟩ })
        | _ => none

/-- `get_slab_in_list` -/
def getSlabInListRepet (s : Slab) (size flag fuel : Nat) : Option (Nat × List MemNode × Slab) :=
  if flag &&& gfpKernel = 0 then some (0, [], s)
  else repet size fuel s

/-- `__kmalloc` -/
def doKmallocRepet (s : Slab) (size flag fuel : Nat) : Option (Nat × Slab) := do
  let newSize := getNewAllocSize size flag
  let s ← s.lock
  if flag = gfpDma ∨ flag = gfpRes ∨ pageSize ≤ size then
    let (ret, s) ← s.getNewSlab newSize flag
    return (ret, s.unlock)
  let (ret, _, s) ← s.getSlabInListRepet newSize flag fuel
  if ret ≠ 0 then
    return (ret, s.unlock)
  let (ret, s) ← s.getSlabFromPageFree newSize
  if ret ≠ 0 then
    return (ret, s.unlock)
  let (ret, s) ← s.getNewSlab newSize flag
  return (ret, s.unlock)

/-- `kmalloc` -/
def kmallocRepet (s : Slab) (size : Int) (flag fuel : Nat) : Option (Nat × Slab) :=
  if size ≤ 0 then some (0, s)
  else if flag ≠ gfpKernel ∧ flag ≠ gfpDma ∧ flag ≠ gfpRes then some (0, s)
  else s.doKmallocRepet size.toNat flag fuel

theorem getSlabInList_repet (s s' : Slab) (size flag fuel ret : Nat)
    (h : s.getSlabInList size flag = some (ret, s')) :
    ∃ log, s.getSlabInListRepet size flag (fuel + 1) = some (ret, log, s') := by
  unfold getSlabInList at h
  unfold getSlabInListRepet
  by_cases hflag : flag &&& gfpKernel = 0
  · rw [if_pos hflag, Option.some.injEq, Prod.mk.injEq] at h
    rw [if_pos hflag, h.1, h.2]
    exact ⟨[], rfl⟩
  rw [if_neg hflag] at h
  rw [if_neg hflag]
  unfold repet
  by_cases hempty : isListEmpty s.mm.links (.cache (listId size)) = true
  · simp only [if_pos hempty, Option.some.injEq, Prod.mk.injEq] at h
    rw [← h.1, ← h.2, if_pos hempty]
    exact ⟨[], rfl⟩
  simp only [if_neg hempty] at h ⊢
  cases hnext : s.mm.links.next (.cache (listId size)) with
  | header a =>
      rw [hnext] at h
      simp only [Option.pure_def, Option.bind_eq_bind, Option.bind_eq_some_iff] at h
      rcases h with ⟨state, hstate, h⟩
      -- A slice of a released page has no result in `getSlabInList`.
      by_cases hzero : state = 0
      · rw [if_pos hzero] at h
        exact absurd h (by simp only [reduceCtorEq, not_false_eq_true])
      · rw [if_neg hzero, Option.some.injEq, Prod.mk.injEq] at h
        rw [← h.1, ← h.2]
        simp only [hstate, Option.bind_eq_bind, Option.bind_some, if_neg hzero]
        exact ⟨_, rfl⟩
  | _ =>
      rw [hnext] at h
      exact absurd h (by simp only [reduceCtorEq, not_false_eq_true])

theorem doKmalloc_repet (s s' : Slab) (size flag fuel ret : Nat)
    (h : s.doKmalloc size flag = some (ret, s')) :
    s.doKmallocRepet size flag (fuel + 1) = some (ret, s') := by
  unfold doKmalloc at h
  unfold doKmallocRepet
  simp only [Option.pure_def, Option.bind_eq_bind, Option.bind_eq_some_iff] at h ⊢
  rcases h with ⟨s₁, hlock, h⟩
  refine ⟨s₁, hlock, ?_⟩
  by_cases hnew : flag = gfpDma ∨ flag = gfpRes ∨ pageSize ≤ size
  · rw [if_pos hnew] at h
    rw [if_pos hnew]
    exact h
  rw [if_neg hnew, Option.bind_eq_some_iff] at h
  rcases h with ⟨⟨a, s₂⟩, hlist, h⟩
  rcases getSlabInList_repet s₁ s₂ _ flag fuel a hlist with ⟨log, hrepet⟩
  rw [if_neg hnew, hrepet]
  exact h

theorem kmalloc_repet (s s' : Slab) (size : Int) (flag fuel ret : Nat)
    (h : s.kmalloc size flag = some (ret, s')) :
    s.kmallocRepet size flag (fuel + 1) = some (ret, s') := by
  unfold kmalloc at h
  unfold kmallocRepet
  by_cases hsize : size ≤ 0
  · rw [if_pos hsize] at h
    rw [if_pos hsize]
    exact h
  rw [if_neg hsize] at h
  rw [if_neg hsize]
  by_cases hflag : flag ≠ gfpKernel ∧ flag ≠ gfpDma ∧ flag ≠ gfpRes
  · rw [if_pos hflag] at h
    rw [if_pos hflag]
    exact h
  · rw [if_neg hflag] at h
    rw [if_neg hflag]
    exact doKmalloc_repet s s' _ flag fuel ret h

end Slab

end Mirros
