import Mirros.Core.Boot

/-!
# Translation Tables

The functions of `kernel/mmu.c` that fill the translation tables of the ARM
MMU, with the descriptors of `arch/arm/machine/arm920t_c.c`, and the functions
of `mm/mm.c` that use them at boot.

The level-one table is an array of 4096 words, one for each megabyte of
virtual addresses. It is a total function of the entry number, so that a loop
running past its end is visible as a write to an entry above 4095. Level-two
tables lie in ordinary memory, which is a total function from addresses to
bytes. Memory is addressed as the kernel addresses it, through its own mapping;
`Mm.kernelVa` is that mapping for the physical addresses in descriptors. The
flush of the TLB after each change has no counterpart here.

`walk` is not code of the repository but what the hardware does with the tables:
the two-level translation of the ARM920T for section, coarse, large and small
page descriptors.

## Main definitions

* `archBuildTlbDes`, `archGetTlbAttr`, `archBuildPageTableDes`: Descriptors.
* `buildTlbTableEntry`: Filling entries of the level-one table.
* `clearTlbEntry`: Clearing entries of the level-one table.
* `Ram`, `store32`, `load32`: Memory.
* `buildPageTableEntry`: Filling entries of a level-two table.
* `walk`, `levelTwo`: The translation the hardware makes.
* `Mm.mapMemory`, `clearUserTlb`: The kernel's table at boot.
-/

namespace Mirros

/-- `SIZE_1K` -/
def size1K : Nat := 1024

/-- `KERNEL_BASE_ADDRESS` -/
def kernelBaseAddress : Nat := 0x80000000

/-- `TLB_ATTR_KERNEL_MEMORY` -/
def tlbAttrKernelMemory : Nat := 1

/-- `TLB_ATTR_DMA_MEMORY` -/
def tlbAttrDmaMemory : Nat := 2

/-- `TLB_ATTR_IO_MEMORY` -/
def tlbAttrIoMemory : Nat := 4

/-- `TLB_ATTR_USER_MEMORY` -/
def tlbAttrUserMemory : Nat := 8

/-- `TLB_ATTR_MEMORY_MASK` -/
def tlbAttrMemoryMask : Nat := 0xf

/-- `MST_WB_AP_SRW_UN` -/
def mstWbApSrwUn : Nat := 0x2 ||| (0x3 <<< 2) ||| (0x1 <<< 10) ||| (1 <<< 4)

/-- `MST_NCNB_AP_SRW_UN` -/
def mstNcnbApSrwUn : Nat := 0x2 ||| (0x0 <<< 2) ||| (0x1 <<< 10) ||| (1 <<< 4)

/-- `CURDE_PAGE_TABLE` -/
def curdePageTable : Nat := 0x01 ||| (0 <<< 5)

/-- `PGT_DES_DEFAULT` -/
def pgtDesDefault : Nat :=
  0x02 ||| (0x3 <<< 4) ||| (0x3 <<< 6) ||| (0x3 <<< 8) ||| (0x3 <<< 10) ||| (0x3 <<< 2)

/-- `arch_build_tlb_des` -/
def archBuildTlbDes (pa attr : Nat) : Nat :=
  if attr &&& 0x03 = 0x01 then (pa &&& 0xfffffc00) ||| attr
  else (pa &&& 0xfff00000) ||| attr

/-- `arch_build_page_table_des` -/
def archBuildPageTableDes (pa attr : Nat) : Nat :=
  (pa &&& 0xfffff000) ||| attr

/-- `arch_get_tlb_attr` -/
def archGetTlbAttr (flag : Nat) : Nat :=
  let memory := flag &&& tlbAttrMemoryMask
  if memory = tlbAttrKernelMemory then mstWbApSrwUn
  else if memory = tlbAttrDmaMemory ∨ memory = tlbAttrIoMemory then mstNcnbApSrwUn
  else if memory = tlbAttrUserMemory then curdePageTable
  -- No other attribute reaches this.
  else mstWbApSrwUn

/-- `arch_get_page_table_attr` -/
def archGetPageTableAttr (_flag : Nat) : Nat :=
  pgtDesDefault

/-- The words of the level-one table. -/
abbrev TlbTable : Type := Nat → Nat

/-- The turns of the loop of `build_tlb_table_entry`, for the word `size`. A `size_t` is
    an `int` here, so from 2^31 on the size is negative and there are none. -/
def tlbTurns (size : Nat) : Nat :=
  if size < 0x80000000 then size / size1M else 0

/-- `build_tlb_table_entry`: the table, and whether the arguments were
    accepted. The alignment of `vstart` is tested twice and that of `pstart`
    not at all. -/
def buildTlbTableEntry (tlb : TlbTable) (vstart pstart size flag : Nat) : TlbTable × Bool :=
  if isAligin vstart size1M && isAligin vstart size1M && isAligin size size1M then
    let offset := vstart / size1M
    let attr := archGetTlbAttr flag
    -- A user entry points at a table of one kilobyte, every other one maps a megabyte.
    let step := if flag &&& tlbAttrMemoryMask = tlbAttrUserMemory then size1K else size1M
    ((List.range (tlbTurns size)).foldl
      (fun t i => Function.update t (offset + i) (archBuildTlbDes (add32 pstart (i * step)) attr))
      tlb, true)
  else (tlb, false)

/-- `clear_tlb_entry`: the pointer starts at the base of the table whatever
    the address. -/
def clearTlbEntry (tlb : TlbTable) (va size : Nat) : TlbTable :=
  -- The number of entries is lowered by where the address is.
  let va := if va = 0 then 1 else va
  let first := (va - 1) / size1M
  (List.range (size - first)).foldl (fun t i => Function.update t i 0) tlb

/-- The bytes of memory by the address the kernel has them at. -/
abbrev Ram : Type := Nat → BitVec 8

/-- Store a word, the low byte first. -/
def store32 (ram : Ram) (addr value : Nat) : Ram :=
  fun x =>
    if addr ≤ x ∧ x < addr + 4 then BitVec.ofNat 8 (value / 256 ^ (x - addr)) else ram x

/-- Load a word, the low byte first. -/
def load32 (ram : Ram) (addr : Nat) : Nat :=
  (ram addr).toNat + 256 * (ram (addr + 1)).toNat + 256 ^ 2 * (ram (addr + 2)).toNat
    + 256 ^ 3 * (ram (addr + 3)).toNat

/-- `build_page_table_entry`, with the physical address of the page the table
    is to point at: the memory, and whether the size was accepted. -/
def buildPageTableEntry (ram : Ram) (base pa size flag : Nat) : Ram × Bool :=
  if isAligin size pageSize && size ≤ size1M then
    let attr := archGetPageTableAttr flag
    ((List.range (size / pageSize)).foldl
      (fun m i => store32 m (base + 4 * i) (archBuildPageTableDes (add32 pa (i * pageSize)) attr))
      ram, true)
  else (ram, false)

/-- The attribute `map_memory` gives the sections of a zone. -/
def mapFlag : ZoneId → Nat
  | .normal => tlbAttrKernelMemory
  | .dma => tlbAttrDmaMemory
  | .io => tlbAttrIoMemory
  | .res => tlbAttrKernelMemory

/-- The body of the inner loop of `map_memory`. -/
def mapMemorySection (kernelStart alreadyMap flag : Nat) (tlb : TlbTable) (s : MmSection) :
    TlbTable :=
  let tlb :=
    -- The part that is mapped already is not skipped but entered once more, that much lower.
    if s.virStart = kernelStart then
      (buildTlbTableEntry tlb (sub32 s.virStart alreadyMap) (sub32 s.phyStart alreadyMap)
        (sub32 s.size alreadyMap) flag).1
    else tlb
  (buildTlbTableEntry tlb s.virStart s.phyStart s.size flag).1

/-- The size of the kernel image, rounded up to whole megabytes. -/
def alreadyMap (kernelStart bssEnd : Nat) : Nat :=
  baligin (sub32 bssEnd kernelStart) 0x100000

namespace Mm

/-- `map_memory` -/
def mapMemory (bank : Mm) (bssEnd : Nat) (tlb : TlbTable) : TlbTable :=
  [ZoneId.normal, .dma, .res, .io].foldl
    (fun tlb z =>
      ((List.range (bank.zone z).nrSection).map (bank.zone z).memorySection).foldl
        (mapMemorySection bank.kernelStart (alreadyMap bank.kernelStart bssEnd) (mapFlag z)) tlb)
    tlb

end Mm

/-- `clear_user_tlb` -/
def clearUserTlb (tlb : TlbTable) : TlbTable :=
  clearTlbEntry tlb 0x0 2048

/-- The address at which the kernel has mapped a physical address. -/
def Mm.kernelVa (mm : Mm) (pa : Nat) : Nat :=
  match mm.sections.find? (fun s => s.phyStart ≤ pa && pa < s.phyStart + s.size) with
  | some s => add32 pa s.pvOffset
  | none => pa

/-- The level-two descriptor of an address whose level-one descriptor is coarse. -/
def levelTwo (mm : Mm) (ram : Ram) (d1 va : Nat) : Nat :=
  load32 ram (mm.kernelVa ((d1 &&& 0xfffffc00) + 4 * (va / pageSize % 256)))

/-- The physical address the hardware translates a virtual address to, or nothing
    for a fault. Fine tables are not used by the kernel and count as a fault. -/
def walk (mm : Mm) (tlb : TlbTable) (ram : Ram) (va : Nat) : Option Nat :=
  -- The two low bits tell what kind of descriptor it is.
  let d1 := tlb (va / size1M)
  match d1 % 4 with
  | 1 =>
      -- A large page, or a small one.
      let d2 := levelTwo mm ram d1 va
      match d2 % 4 with
      | 1 => some ((d2 &&& 0xffff0000) + va % 0x10000)
      | 2 => some ((d2 &&& 0xfffff000) + va % pageSize)
      | _ => none
  | 2 => some ((d1 &&& 0xfff00000) + va % size1M)
  | _ => none

end Mirros
