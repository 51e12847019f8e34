import Mirros.Core.List
import Mirros.Core.Bitops

/-!
# The Page Allocator

The page allocator of `mm/mm.c`: four memory zones, a page map with one bit per
page, a table with one `struct page` per page, and the functions that hand out
and take back runs of pages.

The page map and the page table are separate arrays here, although the kernel
lays them out one after the other in memory. The table is a total function of
the page number. The map is a total function of the word number together with
the number of words `init_page_table_map` reserved for it, and an access
outside those words is undefined.

A call returns `none` when it does not come back: it touches the page map
outside its words, it waits for a mutex nobody will release, or its loop never
ends. Otherwise it returns its result and the state afterwards, with address
zero for the null pointer. Machine integers are natural numbers reduced modulo
the width of the C type at every operation that can leave it, so `int` loop
counters that pass through minus one are their unsigned representation.

The search loop of `find_continous_pages` has no bound of its own. It is given
enough fuel for one pass from the cursor and one from the start of the zone,
after which it is back in a state it has been in before.

## Main definitions

* `ZoneId`, `MmSection`, `Zone`, `Page`, `Mm`: The data of the allocator.
* `MemNode`: The list nodes embedded in memory management objects.
* `initPageTableMap`: Setting up the map and the table at boot.
* `findContinousPages`: The search for a run of pages.
* `getFreePages`, `getFreePageAligin`, `freePages`: The operations.
* `pageGet`, `pagePut`: The usage count of a page.
-/

namespace Mirros

/-- `mm_zone_t`, without the closing `MM_ZONE_UNKNOW`. -/
inductive ZoneId where
  | normal
  | dma
  | res
  | io
  deriving DecidableEq, Repr

/-- `bank->zone[id]`: the zone an index below `MM_ZONE_UNKNOW` names. -/
def zoneOfId : Nat → Option ZoneId
  | 0 => some .normal
  | 1 => some .dma
  | 2 => some .res
  | 3 => some .io
  | _ => none

/-- `struct mm_section`. `pvOffset` is a signed difference, kept as its
    32-bit representation. -/
structure MmSection where
  phyStart : Nat
  virStart : Nat
  size : Nat
  pvOffset : Nat
  maped : Bool
  deriving DecidableEq, Repr

/-- `struct mm_zone`. Of `zone_mutex` only the count is kept: the operations
    below are not interleaved with each other. -/
structure Zone where
  memorySection : Nat → MmSection
  nrSection : Nat
  zoneMutex : Nat
  totalSize : Nat
  freeSize : Nat
  pageNum : Nat
  freePages : Nat
  bmStart : Nat
  bmEnd : Nat
  bmCurrent : Nat

/-- `struct page`, without its list node. `free_base` and `extra_size` are one
    word; `free_size` has 16 bits, `count` and `usage` have 8. -/
structure Page where
  phyAddress : Nat
  flag : Nat
  freeBase : Nat
  freeSize : Nat
  count : Nat
  usage : Nat
  deriving DecidableEq, Repr

/-- The list nodes of memory management: the node of a page (`plist`,
    `pgt_list`, `slab_list` and `slab_header_list` are one union), the node of
    the slab header at an address, the heads of the slab allocator, and the
    page list heads of a task. -/
inductive MemNode where
  | page (i : Nat)
  | header (addr : Nat)
  | cache (i : Nat)
  | freeHeader
  | tableList
  | stackList (task : Nat)
  | elfList (task : Nat)
  | elfStackList (task : Nat)
  | elfImageList (task : Nat)
  deriving DecidableEq, Repr

/-- `struct mm_bank` with the page table, the page map and the list nodes. -/
structure Mm where
  kernelStart : Nat
  totalSize : Nat
  totalPage : Nat
  zone : ZoneId → Zone
  pageTableAddr : Nat
  pageMapAddr : Nat
  pageTable : Nat → Page
  pageMap : Bitmap
  mapWords : Nat
  links : Links MemNode

/-- `PAGE_SIZE` -/
def pageSize : Nat := 4096

/-- `SIZE_1M` -/
def size1M : Nat := 0x100000

/-- `GFP_ZONE_ID_MASK` -/
def gfpZoneIdMask : Nat := 0xf

/-- `__GFP_PGT` -/
def gfpPgtBit : Nat := 0x10

/-- `__GFP_PAGE_HEADER` -/
def gfpPageHeader : Nat := 0x20

/-- `__GFP_SLAB` -/
def gfpSlabBit : Nat := 0x40

/-- `__GFP_SLAB_HEADER` -/
def gfpSlabHeaderBit : Nat := 0x80

/-- `GFP_KERNEL` -/
def gfpKernel : Nat := 0x1

/-- `GFP_DMA` -/
def gfpDma : Nat := 0x2

/-- `GFP_RES` -/
def gfpRes : Nat := 0x4

/-- `GFP_PGT` -/
def gfpPgt : Nat := gfpKernel ||| gfpPgtBit

/-- `GFP_SLAB_HEADER` -/
def gfpSlabHeader : Nat := gfpSlabHeaderBit ||| gfpKernel

/-- The number of different values of a 32-bit word. -/
def u32Size : Nat := 0x100000000

/-- Subtraction of unsigned 32-bit words. -/
def sub32 (a b : Nat) : Nat :=
  (a + (u32Size - b % u32Size)) % u32Size

/-- Addition of unsigned 32-bit words. -/
def add32 (a b : Nat) : Nat :=
  (a + b) % u32Size

/-- `baligin`, for a `size` that is a power of two: the mask `~(size - 1)` is
    the word `2^32 - size`. -/
def baligin (num size : Nat) : Nat :=
  sub32 (num + size) 1 &&& (u32Size - size)

/-- `is_aligin` -/
def isAligin (base bound : Nat) : Bool :=
  base &&& (bound - 1) = 0

/-- `page_nr`, as that of an unsigned word. -/
def pageNr (size : Nat) : Nat :=
  baligin size pageSize / pageSize

/-- The number that 32 bits are as an `int`. -/
def toInt32 (n : Nat) : Int :=
  if n < 0x80000000 then n else (n : Int) - u32Size

/-- `page_nr` of an `int`, given as its 32 bits. The shift keeps the sign. -/
def pageNrInt (size : Nat) : Int :=
  toInt32 (baligin size pageSize) / pageSize

/-- The turns of a loop that counts an `int` from zero up to `page_nr`. A negative number of
    pages makes none. -/
def pageTurns (size : Nat) : Nat :=
  (pageNrInt size).toNat

/-- The zone id in the low bits of an allocation flag. -/
def zoneIdOfFlag (flag : Nat) : Nat :=
  (flag &&& gfpZoneIdMask) >>> 1

namespace Mm

/-- Replace one zone. -/
def setZone (mm : Mm) (z : ZoneId) (zone : Zone) : Mm :=
  { mm with zone := Function.update mm.zone z zone }

/-- Replace one entry of the page table. -/
def setPage (mm : Mm) (i : Nat) (page : Page) : Mm :=
  { mm with pageTable := Function.update mm.pageTable i page }

/-- `va_to_page_id` -/
def vaToPageId (mm : Mm) (va : Nat) : Nat :=
  sub32 va mm.kernelStart / pageSize

/-- `page_id_to_va` -/
def pageIdToVa (mm : Mm) (index : Nat) : Nat :=
  add32 mm.kernelStart (index * pageSize)

/-- The page map has a word for this position. -/
def inMap (mm : Mm) (i : Nat) : Bool :=
  i / 32 < mm.mapWords

/-- `page_state`, undefined outside the page map. -/
def pageState (mm : Mm) (n : Nat) : Option Nat :=
  if mm.inMap n then some (readBit mm.pageMap n) else none

/-- `mutex_lock(&zone->zone_mutex)`: a locked mutex is never released while
    the caller waits for it. -/
def lockZone (mm : Mm) (z : ZoneId) : Option Mm :=
  if (mm.zone z).zoneMutex = 0 then some (mm.setZone z { mm.zone z with zoneMutex := 1 })
  else none

/-- `mutex_unlock(&zone->zone_mutex)` -/
def unlockZone (mm : Mm) (z : ZoneId) : Mm :=
  mm.setZone z { mm.zone z with zoneMutex := 0 }

/-- The sections of all zones in the order the kernel walks them. -/
def sections (mm : Mm) : List MmSection :=
  [ZoneId.normal, .dma, .res, .io].flatMap
    (fun z => (List.range (mm.zone z).nrSection).map (mm.zone z).memorySection)

/-- `va_get_pv_offset`: the first section that holds the address, its end
    included. -/
def vaGetPvOffset (mm : Mm) (va : Nat) : Nat :=
  match mm.sections.find? (fun s => s.virStart ≤ va && va ≤ add32 s.virStart s.size) with
  | some s => s.pvOffset
  | none => 0

/-- `page_get` -/
def pageGet (mm : Mm) (i : Nat) : Mm :=
  mm.setPage i { mm.pageTable i with usage := ((mm.pageTable i).usage + 1) % 256 }

/-- The body of the loop of `init_pages` for page `i`. -/
def initPage (mm : Mm) (index count i flag : Nat) : Mm :=
  let va := mm.pageIdToVa i
  let pg : Page :=
    { phyAddress := sub32 va (mm.vaGetPvOffset va)
      usage := 0
      -- The other pages of a run keep their own index in `count`.
      count := (if i = index then count else i) % 256
      freeSize := pageSize
      freeBase := va
      flag := flag }
  pageGet { mm.setPage i pg with links := initList mm.links (.page i) } i

/-- `init_pages`. `flag` is assigned inside the loop, so the header bit the
    first page adds to it stays set for all later pages of the run. -/
def initPages (mm : Mm) (index count flag : Nat) : Mm :=
  ((List.range' index count).foldl
    (fun acc i =>
      -- The header bit is set once and carried on.
      let flag := if i = index then acc.2 ||| gfpPageHeader else acc.2
      (initPage acc.1 index count i flag, flag))
    (mm, flag)).1

/-- `update_memory_bitmap`, undefined when it leaves the page map. -/
def updateMemoryBitmap (mm : Mm) (index count : Nat) (update : Bool) : Option Mm :=
  if count = 0 ∨ index + count ≤ 32 * mm.mapWords then
    some { mm with
      pageMap := (List.range' index count).foldl
        (fun m i => if update then setBit m i else clearBit m i) mm.pageMap }
  else none

/-- `index + count` in `update_memory_bitmap`: the sum of an unsigned word and a signed one is
    an unsigned word. -/
def bitmapEnd (index : Nat) (count : Int) : Nat :=
  ((index + count) % u32Size).toNat

/-- The loop of `update_memory_bitmap` as it stands in the source, on a map of `words` words.
    `i` is compared as an unsigned word. -/
def updateLoop (words last : Nat) (update : Int) : Nat → Nat → Bitmap → Option Bitmap
  | 0, _, _ => none
  | fuel + 1, i, map =>
      if i < last then
        if (getBitPos i).1 < words then
          updateLoop words last update fuel (add32 i 1)
            (if update ≠ 0 then setBit map i else clearBit map i)
        else none
      else some map

/-- `update_memory_bitmap` on a map of `words` words, for every value of its arguments. -/
def updateBitmap (words : Nat) (map : Bitmap) (index : Nat) (count update : Int) :
    Option Bitmap :=
  updateLoop words (bitmapEnd index count) update (bitmapEnd index count - index + 1) index map

/-- The `while` loop of `find_continous_pages`. -/
def findLoop (mm : Mm) (zone : Zone) (count : Nat) : Nat → Nat → Bool → Nat → Option Nat
  | 0, _, _, _ => none
  | fuel + 1, i, again, sum =>
      if mm.inMap i then
        -- A used bit leaves `sum` as it is.
        let sum := if readBit mm.pageMap i = 0 then sum + 1 else sum
        if readBit mm.pageMap i = 0 ∧ sum = count then
          some (sub32 (i + 1) count)
        else
          -- The bit at `bm_end` has been read, although it is not in the zone.
          let wrap := i = zone.bmEnd
          let again := again || wrap
          let sum := if wrap then 0 else sum
          let i := if wrap then sub32 zone.bmStart 1 else i
          -- The test is made after the jump, so a cursor at `bm_end` never meets it.
          if again && i = zone.bmCurrent then some 0
          else findLoop mm zone count fuel (add32 i 1) again sum
      else none

/-- Enough steps for a pass from the cursor and a pass from the start. -/
def findFuel (mm : Mm) : Nat :=
  2 * (32 * mm.mapWords + 1)

/-- `find_continous_pages` -/
def findContinousPages (mm : Mm) (zone : Zone) (count : Nat) : Option Nat :=
  findLoop mm zone count mm.findFuel zone.bmCurrent false 0

/-- `_get_free_pages` -/
def doGetFreePages (mm : Mm) (count flag : Nat) : Option (Nat × Mm) :=
  match zoneOfId (zoneIdOfFlag flag) with
  | none => some (0, mm)
  | some z => do
      let mm ← mm.lockZone z
      if (mm.zone z).freePages < count then
        return (0, mm.unlockZone z)
      -- Page zero is the kernel's own, so zero is the failure.
      let index ← mm.findContinousPages (mm.zone z) count
      if index = 0 then
        return (0, mm.unlockZone z)
      let mm ← mm.updateMemoryBitmap index count true
      let zone := mm.zone z
      let mm := mm.setZone z { zone with
        bmCurrent := add32 index count
        freeSize := sub32 zone.freeSize (count * pageSize)
        freePages := sub32 zone.freePages count }
      -- The lock is given back before the pages are filled in.
      let mm := mm.unlockZone z
      let mm := mm.initPages index count flag
      return (mm.pageIdToVa index, mm)

/-- `get_free_pages` -/
def getFreePages (mm : Mm) (count : Int) (flag : Nat) : Option (Nat × Mm) :=
  if count ≤ 0 then some (0, mm) else mm.doGetFreePages count.toNat flag

/-- `get_free_page` -/
def getFreePage (mm : Mm) (flag : Nat) : Option (Nat × Mm) :=
  mm.getFreePages 1 flag

/-- `__free_pages` -/
def doFreePages (mm : Mm) (index : Nat) (z : ZoneId) : Option Mm := do
  let mm ← mm.lockZone z
  -- What is freed is what `count` says, whoever wrote it.
  let count := (mm.pageTable index).count
  let mm ← mm.updateMemoryBitmap index count false
  let zone := mm.zone z
  let mm := mm.setZone z { zone with
    freeSize := add32 zone.freeSize (count * pageSize)
    freePages := add32 zone.freePages count
    bmCurrent := if zone.bmCurrent = index + count then index else zone.bmCurrent }
  return mm.unlockZone z

/-- `free_pages`. A zone id past the bank's array is undefined. -/
def freePages (mm : Mm) (addr : Nat) : Option Mm :=
  if isAligin addr pageSize then
    let index := mm.vaToPageId addr
    if (mm.pageTable index).flag &&& gfpPageHeader ≠ 0 then
      match zoneOfId (zoneIdOfFlag (mm.pageTable index).flag) with
      | none => none
      | some z => mm.doFreePages index z
    else some mm
  else some mm

/-- `page_put` -/
def pagePut (mm : Mm) (i : Nat) : Option Mm :=
  let usage := ((mm.pageTable i).usage + 255) % 256
  let mm := mm.setPage i { mm.pageTable i with usage := usage }
  if usage = 0 then mm.freePages (mm.pageIdToVa i) else some mm

/-- The inner loop of `get_free_page_aligin` over one section: the page with
    the wanted offset in each megabyte. The address is back where it started
    after 4096 steps, so a scan that uses up its fuel never ends. -/
def aliginScan (mm : Mm) (bound offset : Nat) : Nat → Nat → Option (Option Nat)
  | 0, _ => none
  | fuel + 1, j =>
      if j < bound then do
        -- The offset is added to the page of an address that need not be aligned.
        let id := mm.vaToPageId j + offset
        let state ← mm.pageState id
        if state = 0 then return some id
        else aliginScan mm bound offset fuel (add32 j size1M)
      else some none

/-- The outer loop of `get_free_page_aligin`. -/
def aliginSections (mm : Mm) (offset : Nat) : List MmSection → Option (Option Nat)
  | [] => some none
  | s :: rest => do
      match ← mm.aliginScan (add32 s.virStart s.size) offset 4097 s.virStart with
      | some id => return some id
      | none => aliginSections mm offset rest

/-- `get_free_page_aligin` -/
def getFreePageAligin (mm : Mm) (aligin flag : Nat) : Option (Nat × Mm) :=
  let offset := (aligin &&& 0x000fffff) / pageSize
  match zoneOfId (zoneIdOfFlag flag) with
  | none => some (0, mm)
  | some z => do
      let mm ← mm.lockZone z
      let found ← mm.aliginSections offset
        -- As in the source page zero stands for no page, also if it was found.
        ((List.range (mm.zone z).nrSection).map (mm.zone z).memorySection)
      let id := found.getD 0
      if id = 0 then
        return (0, mm.unlockZone z)
      let mm ← mm.updateMemoryBitmap id 1 true
      let zone := mm.zone z
      let mm := mm.setZone z { zone with
        freeSize := sub32 zone.freeSize pageSize
        freePages := sub32 zone.freePages 1 }
      let mm := mm.unlockZone z
      let mm := mm.initPages id 1 flag
      return (mm.pageIdToVa id, mm)

/-- `sizeof(struct page)` -/
def sizeofPage : Nat := 24

/-- The addresses `init_page_table_map` computes: the page table, the page
    map, and the end of the page map. -/
def tableLayout (totalPage kernelEnd : Nat) : Nat × Nat × Nat :=
  let pageTable := baligin kernelEnd 4
  let pageMap := baligin (add32 pageTable (totalPage * sizeofPage)) 4
  (pageTable, pageMap, add32 pageMap (bitsToLong totalPage * 4))

/-- The number of pages `init_page_table_map` reserves. -/
def reservedPages (mm : Mm) (kernelEnd : Nat) : Nat :=
  baligin (sub32 (tableLayout mm.totalPage kernelEnd).2.2 mm.kernelStart) pageSize / pageSize

/-- The body of the loop of `init_page_table_map` for page `i`. The flag of
    the page is not written. -/
def reservePage (pvOffset : Nat) (mm : Mm) (i : Nat) : Mm :=
  { mm with
    pageMap := setBit mm.pageMap i
    pageTable := Function.update mm.pageTable i
      { mm.pageTable i with
        phyAddress := sub32 (mm.pageIdToVa i) pvOffset
        freeSize := 0
        freeBase := 0
        count := 0
        usage := 1 }
    links := initList mm.links (.page i) }

/-- The `pv_offset` of the section the kernel is mapped in, or the
    uninitialised value of the local variable when there is none. -/
def kernelPvOffset (mm : Mm) (uninit : Nat) : Nat :=
  let sections := (List.range (mm.zone .normal).nrSection).map (mm.zone .normal).memorySection
  match sections.find? (fun s => mm.kernelStart = s.virStart) with
  | some s => s.pvOffset
  | none => uninit

/-- The bitmap range of a zone that starts at page `i`, with its cursor. -/
def setRange (zone : Zone) (i current : Nat) : Zone :=
  { zone with bmStart := i, bmCurrent := current, bmEnd := i + zone.pageNum }

/-- `init_page_table_map`. `uninit` is what the stack held in `pv_offset`. -/
def initPageTableMap (mm : Mm) (kernelEnd uninit : Nat) : Mm :=
  let words := bitsToLong mm.totalPage
  let size := baligin (sub32 (tableLayout mm.totalPage kernelEnd).2.2 mm.kernelStart) pageSize
  let pages := mm.reservedPages kernelEnd
  let normal := mm.zone .normal
  let mm₁ : Mm := { mm with
    pageTableAddr := (tableLayout mm.totalPage kernelEnd).1
    pageMapAddr := (tableLayout mm.totalPage kernelEnd).2.1
    pageMap := fun w => if w < words then 0#32 else mm.pageMap w
    mapWords := words }
  let mm₂ := (List.range pages).foldl (reservePage (mm.kernelPvOffset uninit)) mm₁
  -- The three ranges follow each other from page zero on.
  let normal := setRange { normal with
    freeSize := sub32 normal.freeSize size
    freePages := sub32 normal.freePages pages } 0 pages
  let dma := setRange (mm.zone .dma) normal.bmEnd normal.bmEnd
  let res := setRange (mm.zone .res) dma.bmEnd dma.bmEnd
  ((mm₂.setZone .normal normal).setZone .dma dma).setZone .res res

end Mm

end Mirros
