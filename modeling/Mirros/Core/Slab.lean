import Mirros.Core.Mm

/-!
# The Slab Allocator

The allocator of `mm/slab.c` for blocks smaller than a page. Blocks are slices
of pages that are taken from the page allocator one at a time. Each slice has a
`struct slab_header`, which is itself carved out of header pages and never given
back to the page allocator. A header hangs on the list of its page while its
slice is in use and on the cache list of its size once it has been freed.

Headers are identified by their address and pages by their number. A header has
one list node for all of its lists (`plist`, `slab_list` and `header_list` are
one union), `MemNode.header`; the node of a page is `MemNode.page`.

As in the page allocator, `none` is a call that does not come back. This covers
walking a list onto something that is not a slab header, adding a null header to
a cache list, and handing the memory of a released page to
`__kfree_header_slab`, which takes its content for a header.

## Main definitions

* `Slab`: The state of the slab allocator, with the page allocator below it.
* `getNewSlabHeader`: A header from the free list, the header page or a new one.
* `getSlabInList`, `getSlabFromPageFree`, `getKernelSlab`: The three ways of
  getting a slice.
* `updateSlabFreePage`: Choosing the page later slices come from.
* `kmalloc`, `kfreeKernelMem`, `kfree`: The interface.
-/

namespace Mirros

/-- `struct slab_header`, without its list node. -/
structure SlabHeader where
  base : Nat
  size : Nat
  deriving DecidableEq, Repr

/-- `struct slab_header_table`, without its list heads. `header_in_page` is
    compared as an unsigned number and kept as one. -/
structure SlabHeaderTable where
  tablePageCurrent : Option Nat
  tableTotalPages : Nat
  pageCurrent : Int
  headerInPage : Nat
  deriving DecidableEq, Repr

/-- `struct slab`. `aside` is a history variable that no function reads: the
    slices `update_slab_free_page` put on a cache list that have not been handed
    out since. -/
structure Slab where
  mm : Mm
  slabMutex : Nat
  slabPageCurrent : Option Nat
  table : SlabHeaderTable
  header : Nat → SlabHeader
  aside : List SlabHeader

/-- `SLAB_HEADER_SIZE` -/
def slabHeaderSize : Nat := 16

/-- `SLAB_STEP` -/
def slabStep : Nat := 16

/-- `SLAB_NODE` -/
def slabNode : Nat := (pageSize - slabHeaderSize) / 16

/-- `SLAB_MAX` -/
def slabMax : Nat := slabNode * slabStep

/-- `SIZE_1G` -/
def size1G : Nat := 0x40000000

/-- `list_id` -/
def listId (size : Nat) : Nat :=
  size / 16 - 1

/-- Subtraction of unsigned 16-bit words. -/
def sub16 (a b : Nat) : Nat :=
  (a + (0x10000 - b % 0x10000)) % 0x10000

/-- `get_new_alloc_size` -/
def getNewAllocSize (size flag : Nat) : Nat :=
  if flag &&& gfpDma ≠ 0 ∨ flag &&& gfpRes ≠ 0 then baligin size pageSize
  else baligin size slabStep

namespace Slab

/-- Replace the list nodes. -/
def setLinks (s : Slab) (l : Links MemNode) : Slab :=
  { s with mm := { s.mm with links := l } }

/-- `mutex_lock(&pslab->slab_mutex)` -/
def lock (s : Slab) : Option Slab :=
  if s.slabMutex = 0 then some { s with slabMutex := 1 } else none

/-- `mutex_unlock(&pslab->slab_mutex)` -/
def unlock (s : Slab) : Slab :=
  { s with slabMutex := 0 }

/-- `header_list_switch`. `toSlab` is the direction `PAGE_TO_SLAB`. -/
def headerListSwitch (s : Slab) (header pg : Nat) (list : MemNode) (toSlab : Bool) : Slab :=
  if toSlab then
    s.setLinks (listAdd (listDel s.mm.links (.header header)) list (.header header))
  else
    s.setLinks (listAdd (listDel s.mm.links (.header header)) (.page pg) (.header header))

/-- `add_slab_header_to_page` -/
def addSlabHeaderToPage (s : Slab) (pg header : Nat) : Slab :=
  s.setLinks (listAdd s.mm.links (.page pg) (.header header))

/-- `add_slab_header_to_list` -/
def addSlabHeaderToList (s : Slab) (header : Nat) : Slab :=
  s.setLinks (listAdd s.mm.links (.cache (listId (s.header header).size)) (.header header))

/-- `init_slab_header` -/
def initSlabHeader (s : Slab) (header size base : Nat) : Slab :=
  let s := { s with header := Function.update s.header header ⟨base, size⟩ }
  s.setLinks (initList s.mm.links (.header header))

/-- Move the start of the free part of a page up by `size` bytes. -/
def bumpPage (s : Slab) (pg size : Nat) : Slab :=
  let page := s.mm.pageTable pg
  { s with mm := s.mm.setPage pg { page with
      freeBase := add32 page.freeBase size
      freeSize := sub16 page.freeSize size } }

/-- `page_get` -/
def pageGet (s : Slab) (pg : Nat) : Slab :=
  { s with mm := s.mm.pageGet pg }

/-- `get_slab_header_from_page` -/
def getSlabHeaderFromPage (s : Slab) (pg : Nat) : Nat × Slab :=
  ((s.mm.pageTable pg).freeBase, (s.bumpPage pg slabHeaderSize).pageGet pg)

/-- The last part of `get_new_slab_header`, for the page at `base`: it becomes
    the current header page. -/
def startHeaderPage (s : Slab) (base : Nat) : Slab :=
  let pg := s.mm.vaToPageId base
  let mm := s.mm.setPage pg { s.mm.pageTable pg with
    freeBase := s.mm.pageIdToVa pg
    freeSize := pageSize }
  { s with
    -- The reference of the allocation stays, so that a header page is never freed.
    mm := { mm with links := listAdd mm.links .tableList (.page pg) }
    table :=
      { tablePageCurrent := some pg
        tableTotalPages := s.table.tableTotalPages + 1
        pageCurrent := s.table.tableTotalPages
        headerInPage := 1 } }

/-- `get_new_slab_header`: the address of the header, if there is one. -/
def getNewSlabHeader (s : Slab) : Option (Option Nat × Slab) :=
  if !isListEmpty s.mm.links .freeHeader then
    -- A header that was given back comes first.
    match s.mm.links.next .freeHeader with
    | .header h => some (some h, s.setLinks (listDel s.mm.links (.header h)))
    | _ => none
  else
    -- Then the current header page, if there is one with room.
    match (if s.table.headerInPage < pageSize / slabHeaderSize then
        s.table.tablePageCurrent else none) with
    | some pg =>
        let s := { s with table := { s.table with headerInPage := s.table.headerInPage + 1 } }
        let (header, s) := s.getSlabHeaderFromPage pg
        some (some header, s)
    | none => do
        let (base, mm) ← s.mm.getFreePage gfpSlabHeader
        let s := { s with mm := mm }
        if base = 0 then return (none, s)
        let s := s.startHeaderPage base
        let (header, s) := s.getSlabHeaderFromPage (s.mm.vaToPageId base)
        return (some header, s)

/-- The lines that `get_slab_from_page` and `get_slab_from_page_free` share:
    the header describes the slice at the start of the free part of the page. -/
def takeSlice (s : Slab) (pg size header : Nat) : Slab :=
  let s := s.initSlabHeader header size (s.mm.pageTable pg).freeBase
  let s := s.bumpPage pg size
  let s := s.addSlabHeaderToPage pg header
  s.pageGet pg

/-- `get_slab_from_page` -/
def getSlabFromPage (s : Slab) (pg size : Nat) : Option (Option Nat × Slab) := do
  let (header, s) ← s.getNewSlabHeader
  match header with
  | none => return (none, s)
  | some header => return (some header, s.takeSlice pg size header)

/-- The page slices will come from and the page that is put aside, of the
    current page and a new one. -/
def choosePage (s : Slab) (pg : Nat) : Nat × Option Nat :=
  match s.slabPageCurrent with
  | none => (pg, none)
  | some cur =>
      -- On a tie the current page stays.
      if (s.mm.pageTable cur).freeSize < (s.mm.pageTable pg).freeSize then (pg, some cur)
      else (cur, some pg)

/-- `update_slab_free_page`. The header of the remainder goes to a cache list
    without being taken off the list of its page. -/
def updateSlabFreePage (s : Slab) (pg : Nat) : Option Slab :=
  let (new, old) := s.choosePage pg
  let s := { s with slabPageCurrent := some new }
  match old with
  | none => some s
  | some old =>
      -- A remainder of one step is forgotten.
      if 16 < (s.mm.pageTable old).freeSize then do
        let rest : SlabHeader :=
          ⟨(s.mm.pageTable old).freeBase, (s.mm.pageTable old).freeSize⟩
        match ← s.getSlabFromPage old (s.mm.pageTable old).freeSize with
        -- The source goes on with the null pointer here.
        | (none, _) => none
        | (some header, s) =>
            return { s.addSlabHeaderToList header with aside := rest :: s.aside }
      else some s

/-- `get_slab_in_list`. A cached slice of a released page is undefined. -/
def getSlabInList (s : Slab) (size flag : Nat) : Option (Nat × Slab) :=
  if flag &&& gfpKernel = 0 then some (0, s)
  else
    -- The size is rounded up, so no list serves larger requests than its own.
    let list := MemNode.cache (listId size)
    if isListEmpty s.mm.links list then some (0, s)
    else
      match s.mm.links.next list with
      | .header h => do
          let base := (s.header h).base
          let pg := s.mm.vaToPageId base
          let state ← s.mm.pageState pg
          -- `__kfree_header_slab` and another turn in the source.
          if state = 0 then none
          else
            let s := s.headerListSwitch h pg list false
            return (base, { s with aside := s.aside.erase ⟨base, size⟩ })
      | _ => none

/-- `get_slab_from_page_free` -/
def getSlabFromPageFree (s : Slab) (size : Nat) : Option (Nat × Slab) :=
  match s.slabPageCurrent with
  | none => some (0, s)
  | some pg => do
      let state ← s.mm.pageState pg
      -- The page has been released: the next request looks for a new one.
      if state = 0 then
        return (0, { s with slabPageCurrent := none })
      if (s.mm.pageTable pg).freeSize < size then
        return (0, s)
      let (header, s) ← s.getNewSlabHeader
      match header with
      | none => return (0, s)
      | some header =>
          let s := s.takeSlice pg size header
          return ((s.header header).base, s)

/-- The page at the end of a new run becomes a slab page. Its own reference is
    dropped, for the slices to hold theirs. -/
def openSlabPage (s : Slab) (pg : Nat) : Slab :=
  let page := s.mm.pageTable pg
  { s with mm := s.mm.setPage pg { page with
      flag := page.flag ||| gfpSlabBit
      usage := (page.usage + 255) % 256 } }

/-- The first page of a longer run forgets about the last one and remembers
    how much of it was taken. -/
def shortenRun (s : Slab) (pg leaveSize : Nat) : Slab :=
  let page := s.mm.pageTable pg
  -- `free_base` and `extra_size` are one union.
  { s with mm := s.mm.setPage pg { page with
      count := (page.count + 255) % 256
      freeBase := leaveSize } }

/-- `get_kernel_slab` -/
def getKernelSlab (s : Slab) (size flag : Nat) : Option (Nat × Slab) := do
  let count := pageNr size
  let (base, mm) ← s.mm.getFreePages count flag
  let s := { s with mm := mm }
  -- Whole pages are handed out as they are, no slice is made.
  if isAligin size pageSize then
    return (base, s)
  if base = 0 then
    return (0, s)
  let leaveSize := size - (count - 1) * pageSize
  let s := if 1 < count then s.shortenRun (s.mm.vaToPageId base) leaveSize else s
  -- The last page is the first one if the run has one page only.
  let pg := s.mm.vaToPageId (add32 base ((count - 1) * pageSize))
  let s := s.openSlabPage pg
  -- Without a header the memory is handed out all the same.
  let (_, s) ← s.getSlabFromPage pg leaveSize
  let s ← s.updateSlabFreePage pg
  return (base, s)

/-- `get_new_slab` -/
def getNewSlab (s : Slab) (size flag : Nat) : Option (Nat × Slab) :=
  if flag = gfpDma ∨ flag = gfpRes then do
    let (base, mm) ← s.mm.getFreePages (pageNr size) flag
    return (base, { s with mm := mm })
  else s.getKernelSlab size flag

/-- `__kmalloc` -/
def doKmalloc (s : Slab) (size flag : Nat) : Option (Nat × Slab) := do
  let newSize := getNewAllocSize size flag
  let s ← s.lock
  -- `size` is the caller's, not the rounded one.
  if flag = gfpDma ∨ flag = gfpRes ∨ pageSize ≤ size then
    let (ret, s) ← s.getNewSlab newSize flag
    return (ret, s.unlock)
  let (ret, s) ← s.getSlabInList newSize flag
  if ret ≠ 0 then
    return (ret, s.unlock)
  let (ret, s) ← s.getSlabFromPageFree newSize
  if ret ≠ 0 then
    return (ret, s.unlock)
  let (ret, s) ← s.getNewSlab newSize flag
  return (ret, s.unlock)

/-- `kmalloc` -/
def kmalloc (s : Slab) (size : Int) (flag : Nat) : Option (Nat × Slab) :=
  if size ≤ 0 then some (0, s)
  else if flag ≠ gfpKernel ∧ flag ≠ gfpDma ∧ flag ≠ gfpRes then some (0, s)
  else s.doKmalloc size.toNat flag

/-- The loop of `__kfree_slice_slab`: the header on the list of the page whose
    slice starts at the address, if there is one. -/
def findHeader (s : Slab) (head : MemNode) (addr : Nat) : Nat → MemNode → Option (Option Nat)
  | 0, _ => none
  | fuel + 1, list =>
      if list = head then some none
      else
        match list with
        | .header h =>
            if (s.header h).base = addr then some (some h)
            else findHeader s head addr fuel (s.mm.links.next list)
        | _ => none

/-- More steps than there are headers: a walk that is longer comes by a header
    again and never ends. -/
def findHeaderFuel (s : Slab) : Nat :=
  pageSize / slabHeaderSize * s.table.tableTotalPages + 2

/-- `__kfree_slice_slab` -/
def kfreeSliceSlab (s : Slab) (pg addr : Nat) : Option Slab := do
  match ← s.findHeader (.page pg) addr s.findHeaderFuel (s.mm.links.next (.page pg)) with
  | none => return s
  | some header =>
      -- The size of the slice says which cache list it goes to.
      let s := s.setLinks (listDel s.mm.links (.header header))
      let s := s.addSlabHeaderToList header
      let mm ← s.mm.pagePut pg
      return { s with mm := mm }

/-- `__kfree_page_slab`: `free_pages` is given the address of the `struct page`
    and not that of the page. -/
def kfreePageSlab (s : Slab) (pg : Nat) : Option Slab := do
  -- `count` was lowered, so this is the page behind the run that is left.
  let last := pg + (s.mm.pageTable pg).count
  let mm ← s.mm.freePages (add32 s.mm.pageTableAddr (pg * Mm.sizeofPage))
  let s := { s with mm := mm }
  s.kfreeSliceSlab last (s.mm.pageIdToVa last)

/-- `kfree_kernel_mem`: an address inside a page that is not a slab page
    leaves the mutex locked. -/
def kfreeKernelMem (s : Slab) (addr : Nat) : Option Slab := do
  let s ← s.lock
  let pg := s.mm.vaToPageId addr
  if (s.mm.pageTable pg).flag &&& gfpSlabBit ≠ 0 then
    let s ← s.kfreeSliceSlab pg addr
    return s.unlock
  else if !isAligin addr pageSize then
    return s
  else
    let s ← s.kfreePageSlab pg
    return s.unlock

/-- `kfree` -/
def kfree (s : Slab) (addr : Nat) : Option Slab :=
  if addr = 0 then some s
  else if addr < size1G then s.kfreeKernelMem addr
  else some s

/-- `slab_init`, over a page allocator that has booted. The current page is a
    static variable and starts as the null pointer. -/
def slabInit (mm : Mm) (header : Nat → SlabHeader) : Slab :=
  let l := (List.range slabNode).foldl (fun l i => initList l (.cache i)) mm.links
  { mm := { mm with links := initList (initList l .tableList) .freeHeader }
    slabMutex := 0
    slabPageCurrent := none
    table :=
      { tablePageCurrent := none
        tableTotalPages := 0
        pageCurrent := -1
        headerInPage := u32Size - 1 }
    header := header
    aside := [] }

end Slab

end Mirros
