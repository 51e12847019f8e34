import Mirros.Core.Mm

/-!
# Memory Set-Up

The first half of `mm/mm.c`: how the memory regions a board registers become
the sections of the four zones, and where the sections are placed in the
kernel's virtual address space.

A board calls `register_memory_region` once per bank of memory. At boot
`handle_platform_memory_region` sorts the regions by address, turns each into a
section of its zone, and takes a DMA zone out of the NORMAL zone when the board
registered none. `map_zone_memory` then lays the sections out one after the
other, beginning with the section the kernel was loaded into.

The arrays of regions and sections are total functions with their counters, as
in the C structures. A pointer into `memory_section` is the index it points at.
The zone an out-of-range attribute names lies past the array `zone`, so a
region with such an attribute makes the set-up undefined.

## Main definitions

* `MemoryRegion`, `PlatformInfo`: What a board registers.
* `registerMemoryRegion`: Registering one region.
* `sortRegions`: The selection sort over the regions.
* `insertRegionToZone`, `insertRegions`: Regions become sections.
* `maxSection`, `fitSection`, `giveSection`, `cutSection`, `autoDma`: The DMA zone.
* `handlePlatformMemoryRegion`: The whole of the set-up.
* `mapSectionToVirtual`, `mapZoneToVirtual`, `mapZoneMemory`: The placement.
* `paGetPvOffset`, `paToVa`, `vaToPa`: Translation between the address spaces.
-/

namespace Mirros

/-- `struct memory_region` -/
structure MemoryRegion where
  start : Nat
  size : Nat
  attr : Nat
  deriving DecidableEq, Repr

/-- `struct platform_info`, of which only the regions are read here. -/
structure PlatformInfo where
  region : Nat → MemoryRegion
  regionNr : Nat

/-- `MEM_MAX_REGION` -/
def memMaxRegion : Nat := 16

/-- `ZONE_MAX_REGION` -/
def zoneMaxRegion : Nat := 4

/-- `MM_SECTION_ALIGIN` -/
def mmSectionAligin : Nat := 0x100000

/-- `DMA_MEM` -/
def dmaMem : Nat := 1

/-- `IO_MEM` -/
def ioMem : Nat := 3

/-- `UNKNOW_MEM` -/
def unknowMem : Nat := 4

/-- `min_aligin`, for a `size` that is a power of two. -/
def minAligin (num size : Nat) : Nat :=
  num % u32Size &&& (u32Size - size)

/-- `init_platform_memory_region` -/
def initPlatformMemoryRegion (_info : PlatformInfo) : PlatformInfo :=
  { region := fun _ => { start := 0, size := 0, attr := unknowMem }, regionNr := 0 }

/-- `register_memory_region`. The size is not compared with what rounding the
    start up takes away, so a region smaller than that wraps around. -/
def registerMemoryRegion (info : PlatformInfo) (start size attr : Nat) : PlatformInfo :=
  if info.regionNr < memMaxRegion then
    let newStart := baligin start mmSectionAligin
    let size := sub32 size (sub32 newStart start)
    -- Always true by now, the size having been rounded down.
    let size := minAligin size mmSectionAligin
    if isAligin size mmSectionAligin then
      if pageSize ≤ size then
        { region := Function.update info.region info.regionNr
            { start := newStart, size := size, attr := attr }
          regionNr := info.regionNr + 1 }
      -- A region that is too small is dropped without an error.
      else info
    else info
  else info

/-- The inner loop of the sort: the first region with the lowest start from
    position `i` on. -/
def minRegion (region : Nat → MemoryRegion) (i nr : Nat) : Nat :=
  (List.range' (i + 1) (nr - (i + 1))).foldl
    (fun min j => if (region j).start < (region min).start then j else min) i

/-- The body of the outer loop of the sort. -/
def swapMin (nr : Nat) (region : Nat → MemoryRegion) (i : Nat) : Nat → MemoryRegion :=
  let min := minRegion region i nr
  if min ≠ i then
    Function.update (Function.update region i (region min)) min (region i)
  else region

/-- The sort of `handle_platform_memory_region`. -/
def sortRegions (info : PlatformInfo) : PlatformInfo :=
  { info with region := (List.range info.regionNr).foldl (swapMin info.regionNr) info.region }

/-- Replace one section of a zone. -/
def Zone.setSection (zone : Zone) (i : Nat) (s : MmSection) : Zone :=
  { zone with memorySection := Function.update zone.memorySection i s }

/-- `insert_region_to_zone`: the size that was inserted and the zone. Of the
    section only the start and the size are written. -/
def insertRegionToZone (region : MemoryRegion) (zone : Zone) : Nat × Zone :=
  -- A zone that is full counts nothing.
  if zone.nrSection = zoneMaxRegion then (0, zone)
  else
    let s : MmSection := { zone.memorySection zone.nrSection with
      phyStart := region.start
      size := region.size }
    -- All four are computed from the new total, whatever was taken before.
    let total := add32 zone.totalSize region.size
    (region.size, { zone.setSection zone.nrSection s with
      nrSection := zone.nrSection + 1
      totalSize := total
      freeSize := total
      pageNum := total / pageSize
      freePages := total / pageSize })

/-- `init_memory_section` -/
def initMemorySection : MmSection :=
  { phyStart := 0, virStart := 0, size := 0, pvOffset := 0, maped := false }

namespace Mm

/-- `init_memory_bank`. The sizes of the zones keep what `.bss` holds. -/
def initMemoryBank (bank : Mm) : Mm :=
  { bank with
    totalSize := 0
    totalPage := 0
    zone := fun z => { bank.zone z with
      nrSection := 0
      zoneMutex := 0
      memorySection := fun j =>
        if j < zoneMaxRegion then initMemorySection else (bank.zone z).memorySection j } }

/-- The body of the loop that turns regions into sections. -/
def insertRegion (bank : Mm) (region : MemoryRegion) : Option Mm :=
  match zoneOfId region.attr with
  | none => none
  | some z =>
      let inserted := insertRegionToZone region (bank.zone z)
      let bank := bank.setZone z inserted.2
      -- Memory of devices does not count as memory of the bank.
      if region.attr ≠ ioMem ∧ region.attr ≠ unknowMem then
        some { bank with totalSize := add32 bank.totalSize inserted.1 }
      else some bank

/-- The loop that turns regions into sections. -/
def insertRegions (bank : Mm) (info : PlatformInfo) : Option Mm :=
  ((List.range info.regionNr).map info.region).foldlM insertRegion bank

end Mm

/-- The search for the first section with the largest size. -/
def maxSection (zone : Zone) : Nat :=
  (List.range zone.nrSection).foldl
    (fun pr i => if (zone.memorySection pr).size < (zone.memorySection i).size then i else pr) 0

/-- The search for the smallest section that is large enough and smaller than
    section `pr`. The copy `tmp` is the section at the index returned, which is
    `pr` itself when there is none. -/
def fitSection (zone : Zone) (pr size : Nat) : Nat :=
  (List.range zone.nrSection).foldl
    (fun tmp i =>
      if (zone.memorySection i).size < (zone.memorySection pr).size ∧
          size ≤ (zone.memorySection i).size ∧
          (zone.memorySection i).size < (zone.memorySection tmp).size then i
      else tmp) pr

/-- The size wanted for the DMA zone. -/
def dmaSize (zone : Zone) : Nat :=
  baligin (zone.totalSize / 16) 0x100000

/-- A section is given away whole: the sizes pass the comparisons in the
    `nr_section > 1` branch. -/
def wholeSection (zone : Zone) : Bool :=
  let pr := maxSection zone
  let tmp := fitSection zone pr (dmaSize zone)
  1 < zone.nrSection &&
    (zone.memorySection tmp).size ≠ (zone.memorySection pr).size &&
    sub32 (zone.memorySection tmp).size (dmaSize zone) ≤ zone.totalSize / 32

/-- Section `j` is emptied and the zone has one section fewer. -/
def giveSection (zone : Zone) (j : Nat) : MemoryRegion × Zone :=
  let tmp := zone.memorySection j
  ({ start := tmp.phyStart, size := tmp.size, attr := dmaMem },
    -- The virtual address and the mark `maped` stay.
    { zone.setSection j { tmp with size := 0, phyStart := 0, pvOffset := 0 } with
      nrSection := zone.nrSection - 1 })

/-- The end of section `pr` is cut off. -/
def cutSection (zone : Zone) (pr size : Nat) : MemoryRegion × Zone :=
  let s := zone.memorySection pr
  ({ start := sub32 (add32 s.phyStart s.size) size, size := size, attr := dmaMem },
    zone.setSection pr { s with size := sub32 s.size size })

/-- The region taken out of the NORMAL zone for DMA, and what is left of the
    zone. -/
def takeDma (zone : Zone) : MemoryRegion × Zone :=
  let pr := maxSection zone
  if wholeSection zone then giveSection zone (fitSection zone pr (dmaSize zone))
  else cutSection zone pr (dmaSize zone)

namespace Mm

/-- The part of `handle_platform_memory_region` that makes a DMA zone. -/
def autoDma (bank : Mm) : Mm :=
  if (bank.zone .dma).nrSection = 0 then
    let taken := takeDma (bank.zone .normal)
    let rtmp := taken.1
    let zone := taken.2
    let pageNum := sub32 zone.pageNum (rtmp.size / pageSize)
    let bank := bank.setZone .normal { zone with
      -- The three are lowered by the size, and `freePages` is the new `pageNum`.
      totalSize := sub32 zone.totalSize rtmp.size
      freeSize := sub32 zone.freeSize rtmp.size
      pageNum := pageNum
      freePages := pageNum }
    -- A DMA zone is made even when nothing was taken.
    bank.setZone .dma (insertRegionToZone rtmp (bank.zone .dma)).2
  else bank

/-- `handle_platform_memory_region` -/
def handlePlatformMemoryRegion (bank : Mm) (info : PlatformInfo) : Option Mm := do
  let bank ← bank.insertRegions (sortRegions info)
  return bank.autoDma

end Mm

/-- `map_section_to_virtual` -/
def mapSectionToVirtual (s : MmSection) (mapBase : Nat) : MmSection :=
  { s with virStart := mapBase, pvOffset := sub32 mapBase s.phyStart, maped := true }

/-- The body of the loop of `map_zone_to_virtual`. -/
def mapSection (acc : Zone × Nat) (i : Nat) : Zone × Nat :=
  let s := acc.1.memorySection i
  -- A section is mapped once, and an empty one never.
  if 0 < s.size ∧ s.maped = false then
    (acc.1.setSection i (mapSectionToVirtual s acc.2), add32 acc.2 s.size)
  else acc

/-- `map_zone_to_virtual`: the zone and the size that was mapped. -/
def mapZoneToVirtual (zone : Zone) (mapBase : Nat) : Zone × Nat :=
  let acc := (List.range zone.nrSection).foldl mapSection (zone, mapBase)
  (acc.1, sub32 acc.2 mapBase)

namespace Mm

/-- The section the kernel was loaded into. -/
def kernelSection (bank : Mm) (kernelPhyStart : Nat) : Option Nat :=
  (List.range (bank.zone .normal).nrSection).find?
    (fun i => ((bank.zone .normal).memorySection i).phyStart = kernelPhyStart)

/-- The first loop of `map_zone_memory`: the section of the kernel comes
    first, whatever its size. -/
def mapKernel (bank : Mm) (kernelPhyStart : Nat) : Mm × Nat :=
  match bank.kernelSection kernelPhyStart with
  | some i =>
      let zone := bank.zone .normal
      let s := zone.memorySection i
      -- The address is `kernel_start` whatever was mapped there.
      (bank.setZone .normal (zone.setSection i (mapSectionToVirtual s bank.kernelStart)),
        add32 bank.kernelStart s.size)
  | none => (bank, bank.kernelStart)

/-- The body of the second loop of `map_zone_memory`. -/
def mapZone (acc : Mm × Nat) (z : ZoneId) : Mm × Nat :=
  let mapped := mapZoneToVirtual (acc.1.zone z) acc.2
  (acc.1.setZone z mapped.1, add32 acc.2 mapped.2)

/-- `map_zone_memory`: the bank and the first address after the mapping. -/
def mapZoneMemory (bank : Mm) (kernelPhyStart : Nat) : Mm × Nat :=
  [ZoneId.normal, .dma, .res, .io].foldl mapZone (bank.mapKernel kernelPhyStart)

/-- `pa_get_pv_offset`: the first section that holds the address, its end
    included. -/
def paGetPvOffset (mm : Mm) (pa : Nat) : Nat :=
  match mm.sections.find? (fun s => s.phyStart ≤ pa && pa ≤ add32 s.phyStart s.size) with
  | some s => s.pvOffset
  | none => 0

/-- `pa_to_va` -/
def paToVa (mm : Mm) (pa : Nat) : Nat :=
  let pvOffset := mm.paGetPvOffset pa
  -- An offset of zero is taken for a section that was not found.
  if pvOffset ≠ 0 then add32 pa pvOffset else 0

/-- `va_to_pa` -/
def vaToPa (mm : Mm) (va : Nat) : Nat :=
  (mm.pageTable (mm.vaToPageId va)).phyAddress

end Mm

end Mirros
