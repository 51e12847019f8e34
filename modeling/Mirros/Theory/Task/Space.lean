import Mirros.Theory.Task.Fork
import Mirros.Theory.Task.Mapped

/-!
# The Address Space of a User Task

The tables of a task after `switch_task`, read as the hardware reads them. One page
holds four tables of 1 KiB, installed for four consecutive megabytes, so word `w` of
the page translates page `w` of the four megabytes (`walk_table`). The table of the
image starts at `PROCESS_USER_BASE`, that of the stack ends at
`PROCESS_USER_STACK_BASE`.

The words that `alloc_memory_and_map` writes give the pages of the task
(`user_translation`). All other words are what the memory held before, so the rest
of the address space is empty exactly when those were fault descriptors
(`isolation_exact`).

## Main definitions

* `Faults`: The translation of an address ends at a fault descriptor.
* `Kernel.Isolated`: No address outside of the pages of the task is translated.
* `Mm.tablePages`: The pages that will be the tables of a new task.
* `FaultWords`: The words of the two tables that are not written.

## Theorems

* `user_translation`: Every page of a task is where it should be.
* `isolation_exact`: When nothing else is.
-/

namespace Mirros

/-- Four megabytes of the level-one table point at the four tables of a page. -/
theorem buildTlbTableEntry_user (tlb : TlbTable) (vstart pstart e : Nat)
    (hal : vstart % size1M = 0) :
    (buildTlbTableEntry tlb vstart pstart (4 * size1M) tlbAttrUserMemory).1 e
      = if vstart / size1M ≤ e ∧ e < vstart / size1M + 4 then
          archBuildTlbDes (add32 pstart ((e - vstart / size1M) * size1K)) curdePageTable
        else tlb e := by
  have hva := (isAligin_iff vstart).2 hal
  have hsize : isAligin (4 * size1M) size1M = true := by decide
  have hcount : tlbTurns (4 * size1M) = 4 := by decide
  have hstep : (if tlbAttrUserMemory &&& tlbAttrMemoryMask = tlbAttrUserMemory then size1K
      else size1M) = size1K := by decide
  have hattr : archGetTlbAttr tlbAttrUserMemory = curdePageTable := by decide
  rw [buildTlbTableEntry_run, hcount, hstep, hattr, hva, hsize]
  simp only [true_and]

/-- The descriptor of one of the four tables of a page, taken apart. -/
theorem tableDes_fields (pa j : Nat) (hpa : pa < u32Size) (hal : pa % pageSize = 0) (hj : j < 4) :
    archBuildTlbDes (add32 pa (j * size1K)) curdePageTable % 4 = 1 ∧
      archBuildTlbDes (add32 pa (j * size1K)) curdePageTable &&& 0xfffffc00 = pa + j * size1K := by
  have hmask : ∀ x, x < 2 ^ 32 → x &&& 0xfffffc00 = x / 2 ^ 10 * 2 ^ 10 :=
    fun x hx => Mm.and_mask x 10 hx (by omega)
  have hval : curdePageTable = 1 := by decide
  have hadd : add32 pa (j * size1K) = pa + j * size1K := by
    unfold add32 size1K pageSize u32Size at *
    omega
  unfold pageSize u32Size size1K at *
  have hbase : pa + j * 1024 &&& 0xfffffc00 = 2 ^ 10 * ((pa + j * 1024) / 2 ^ 10) := by
    rw [hmask _ (by omega), Nat.mul_comm]
  unfold archBuildTlbDes
  rw [hval, if_pos (by decide), hadd, hbase,
    ← Nat.two_pow_add_eq_or_of_lt (by decide : 1 < 2 ^ 10), hmask _ (by omega)]
  omega

/-- Word `w` of a page of tables translates page `w` of its four megabytes. -/
theorem walk_table (mm : Mm) (tlb : TlbTable) (ram : Ram) (q vstart w o : Nat)
    (hmapped : mm.PageMapped q) (hal : vstart % size1M = 0)
    (hw : w < 1024) (ho : o < pageSize)
    (htlb : ∀ e, vstart / size1M ≤ e → e < vstart / size1M + 4 →
      tlb e = archBuildTlbDes (add32 (mm.pagePa q) ((e - vstart / size1M) * size1K))
        curdePageTable) :
    tlb ((vstart + pageSize * w + o) / size1M) % 4 = 1 ∧
      levelTwo mm ram (tlb ((vstart + pageSize * w + o) / size1M)) (vstart + pageSize * w + o)
        = load32 ram (mm.pageIdToVa q + 4 * w) := by
  -- A page of tables is four level-two tables of 256 words.
  have hindex : (vstart + pageSize * w + o) / size1M = vstart / size1M + w / 256 := by
    unfold size1M pageSize at *
    omega
  have hword : (vstart + pageSize * w + o) / pageSize % 256 = w % 256 := by
    unfold size1M pageSize at *
    omega
  rcases tableDes_fields (mm.pagePa q) (w / 256) (mm.pagePa_lt q) hmapped.aligned
    (by omega) with ⟨hkind, hbase⟩
  have hentry := htlb (vstart / size1M + w / 256) (by omega) (by omega)
  rw [Nat.add_sub_cancel_left] at hentry
  rw [hindex, hentry]
  refine ⟨hkind, ?_⟩
  unfold levelTwo
  rw [hbase, hword]
  have haddr : mm.pagePa q + w / 256 * size1K + 4 * (w % 256) = mm.pagePa q + 4 * w := by
    unfold size1K
    omega
  rw [haddr, hmapped.back (4 * w) (by unfold pageSize; omega)]

/-- The translation of an address ends at a fault descriptor of one of the levels. -/
def Faults (mm : Mm) (tlb : TlbTable) (ram : Ram) (va : Nat) : Prop :=
  tlb (va / size1M) % 4 = 0 ∨
    (tlb (va / size1M) % 4 = 1 ∧ levelTwo mm ram (tlb (va / size1M)) va % 4 = 0)

theorem walk_of_faults (mm : Mm) (tlb : TlbTable) (ram : Ram) (va : Nat)
    (h : Faults mm tlb ram va) : walk mm tlb ram va = none := by
  unfold walk
  rcases h with h | ⟨h, h'⟩
  · simp only [h]
  · simp only [h, h']

theorem walk_of_small (mm : Mm) (tlb : TlbTable) (ram : Ram) (va : Nat)
    (h : tlb (va / size1M) % 4 = 1) (h' : levelTwo mm ram (tlb (va / size1M)) va % 4 = 2) :
    walk mm tlb ram va
      = some ((levelTwo mm ram (tlb (va / size1M)) va &&& 0xfffff000) + va % pageSize) := by
  unfold walk
  simp only [h, h']

namespace Kernel

theorem installStack_one (mm : Mm) (q base : Nat) (tlb : TlbTable) :
    installStack mm [q] base tlb = (buildTlbTableEntry tlb (sub32 base (4 * size1M))
      (mm.pageTable q).phyAddress (4 * size1M) tlbAttrUserMemory).1 := by
  unfold installStack
  unfold installStack
  rfl

theorem installElf_one (mm : Mm) (q base : Nat) (tlb : TlbTable) :
    installElf mm [q] base tlb = (buildTlbTableEntry tlb base (mm.pageTable q).phyAddress
      (4 * size1M) tlbAttrUserMemory).1 := by
  unfold installElf
  unfold installElf
  rfl

theorem switchTask_user (k : Kernel) (cur t : Nat) (hcur : cur ≠ 0) (ht : t ≠ 0)
    (hflag : (k.task t).flag &&& processTypeKernel = 0) :
    (k.switchTask cur t).2 = { k with
      tlb := installElf k.mm (k.task t).mm.elfList processUserBase
        (installStack k.mm (k.task t).mm.stackList processUserStackBase k.tlb) } := by
  have hnull : ¬(cur = 0 ∨ t = 0) := by
    intro hc
    rcases hc with hc | hc
    · exact hcur hc
    · exact ht hc
  have hkind : ¬(k.task t).flag &&& processTypeKernel ≠ 0 := fun hc => hc hflag
  unfold switchTask
  rw [if_neg hnull, if_neg hkind]

section Space

variable (k₁ k : Kernel) (cur t qs qe : Nat) (ps rs : List Nat)
  (h : Filling k₁ k t qs qe ps rs) (hstackMap : k₁.mm.PageMapped qs)
  (helfMap : k₁.mm.PageMapped qe) (hcur : cur ≠ 0) (ht : t ≠ 0)
  (hflag : (k₁.task t).flag &&& processTypeKernel = 0)
include h hstackMap helfMap hcur ht hflag

end Space

/-- A page of the task is translated to its frame. -/
theorem walk_page (k₁ k k' : Kernel) (va p o : Nat) (hmapped : k₁.mm.PageMapped p)
    (hbank : Mm.SameBank k₁.mm k.mm) (ho : va % pageSize = o)
    (hkind : k'.tlb (va / size1M) % 4 = 1)
    (hword : levelTwo k.mm k.ram (k'.tlb (va / size1M)) va = k₁.mm.pageDes p) :
    walk k.mm k'.tlb k.ram va = some (k₁.mm.pagePa p + o) ∧
      k.mm.kernelVa (k₁.mm.pagePa p + o) = k.mm.pageIdToVa p + o := by
  have hfields := Mm.pageDes_fields k₁.mm p hmapped.aligned
  have hlt : o < pageSize := by
    rw [← ho]
    exact Nat.mod_lt _ (by decide)
  refine ⟨?_, ?_⟩
  · rw [walk_of_small k.mm k'.tlb k.ram va hkind (by rw [hword]; exact hfields.1), hword, hfields.2,
      ho]
  · rw [Mm.kernelVa_same k₁.mm k.mm hbank, Mm.pageIdToVa_same k₁.mm k.mm hbank]
    exact hmapped.back o hlt

end Kernel

theorem userBank_sound : Mm.SoundBank Mm.userBank :=
  Mm.soundBank_of_places Mm.userBank
    (Mm.bareBank_unmapped [(0x30000000, 0x400000)] [(0x30400000, 0x100000)] [] []) (by decide)
    (by decide)

/-- All pages of the board are mapped. Those of the NORMAL memory come first. -/
theorem userMm_mapped (q : Nat) (hq : q < 1280) : Mm.userMm.PageMapped q := by
  have hstart : Mm.userMm.kernelStart = Mm.userBoot.kernelStart := by decide +kernel
  have hsections : Mm.userMm.sections = Mm.userBoot.sections := by decide +kernel
  refine Mm.pageMapped_congr Mm.userBoot Mm.userMm hstart hsections q ?_
  have hpages : ∀ p ∈ Mm.userBank.places, Mm.userBank.phyAt p % pageSize = 0 ∧
      Mm.userBank.sizeAt p % pageSize = 0 := by
    decide
  have hoff : ∀ p ∈ (Mm.userBank.mapZoneMemory 0x30000000).1.places,
      (Mm.userBank.mapZoneMemory 0x30000000).1.offAt p = 0x50000000 ∧
      (Mm.userBank.mapZoneMemory 0x30000000).1.virAt p
        + (Mm.userBank.mapZoneMemory 0x30000000).1.sizeAt p < u32Size := by
    decide +kernel
  have hva : (Mm.userBank.mapZoneMemory 0x30000000).1.pageIdToVa q = 0x80000000 + 4096 * q := by
    have hstart : (Mm.userBank.mapZoneMemory 0x30000000).1.kernelStart = 0x80000000 := by
      decide +kernel
    unfold Mm.pageIdToVa add32 pageSize u32Size
    rw [hstart]
    omega
  have hbooted := fun p hp hin => Mm.pageMapped_booted Mm.userBank 0x30000000 0x80010000 0
    userBank_sound (by decide) (by decide) (fun p hp => hpages p ((Mm.mem_places _ p).2 hp)) p q hp
    hin (Mm.clear_of_offset _ _ _ hoff p hp _)
  by_cases hlow : q < 1024
  · have hvir : (Mm.userBank.mapZoneMemory 0x30000000).1.virAt (.normal, 0) = 0x80000000 ∧
        (Mm.userBank.mapZoneMemory 0x30000000).1.sizeAt (.normal, 0) = 0x400000 := by
      decide +kernel
    refine hbooted (.normal, 0) (by decide +kernel) ?_
    unfold Within
    rw [hva, hvir.1, hvir.2]
    omega
  · have hvir : (Mm.userBank.mapZoneMemory 0x30000000).1.virAt (.dma, 0) = 0x80400000 ∧
        (Mm.userBank.mapZoneMemory 0x30000000).1.sizeAt (.dma, 0) = 0x100000 := by
      decide +kernel
    refine hbooted (.dma, 0) (by decide +kernel) ?_
    unfold Within
    rw [hva, hvir.1, hvir.2]
    omega

/-- The board with the structure of a new user task. -/
def newUserKernel (ram : Ram) : Kernel :=
  (userKernel ram).setTask 0x80140000 { userTask with stackBase := 0, stackOrigin := 0 }

/-- `slab_init` leaves the banks alone. -/
theorem slabInit_bank (mm : Mm) (header : Nat → SlabHeader) :
    Mm.SameBank mm (Slab.slabInit mm header).mm :=
  (Mm.grows_of_fields mm (Slab.slabInit mm header).mm rfl rfl rfl rfl).bank

theorem newUserKernel_bank (ram : Ram) : Mm.SameBank Mm.userMm (newUserKernel ram).mm :=
  slabInit_bank Mm.userMm (fun _ => ⟨0, 0⟩)

/-- The board has memory for the new task. -/
theorem newUserKernel_alloc (b : BitVec 8) (hb : b = 0#8 ∨ b = 2#8) :
    ∃ k, ((newUserKernel (fun _ => b)).initMmStruct 0x80140000 0).allocMemoryForTask 0x80140000
      = some (0, k) ∧
        ∀ p ∈ (k.task 0x80140000).mm.pages, (newUserKernel (fun _ => b)).mm.PageMapped p := by
  have heval : (((newUserKernel (fun _ => b)).initMmStruct 0x80140000 0).allocMemoryForTask
      0x80140000).map (fun r => (r.1, decide (∀ p ∈ (r.2.task 0x80140000).mm.pages, p < 1280)))
      = some (0, true) := by
    rcases hb with rfl | rfl
    · decide +kernel
    · decide +kernel
  rcases Option.map_eq_some_iff.1 heval with ⟨⟨ret, k⟩, halloc, hpair⟩
  rw [Prod.mk.injEq, decide_eq_true_eq] at hpair
  rcases hpair with ⟨hret, hpages⟩
  have hret' : ret = 0 := hret
  subst hret'
  exact ⟨k, halloc, fun p hp => Mm.pageMapped_same Mm.userMm _ (newUserKernel_bank _) p
    (userMm_mapped p (hpages p hp))⟩

theorem newUserKernel_plain (ram : Ram) : Mm.PlainMap (newUserKernel ram).mm :=
  userKernel_plain ram

theorem newUserKernel_flag (ram : Ram) :
    ((newUserKernel ram).task 0x80140000).flag = processTypeUser := by
  unfold newUserKernel Kernel.setTask
  simp only [Function.update_self]
  exact rfl

/-- The table of the board after boot. -/
theorem newUserKernel_tlb (ram : Ram) : (newUserKernel ram).tlb = clearUserTlb (fun _ => 0) := by
  funext e
  rw [clearUserTlb_entry]
  exact (ite_self _).symm

namespace Mm

/-- The pages that `alloc_memory_for_task` will make the table of the stack and the
    table of the image: the second and the third page the allocator has to give. -/
def tablePages (mm : Mm) : Option (Nat × Nat) := do
  let (_, mm) ← mm.getFreePages 1 gfpKernel
  let (stack, mm) ← mm.getFreePage gfpPgt
  let (elf, _) ← mm.getFreePage gfpPgt
  return (stack, elf)

/-- Which page is handed out does not depend on the page table. -/
theorem getFreePages_setPage (mm : Mm) (q : Nat) (page : Page) (count : Int) (flag : Nat) :
    ((mm.setPage q page).getFreePages count flag).map Prod.fst
      = (mm.getFreePages count flag).map Prod.fst := by
  unfold getFreePages
  by_cases hc : count ≤ 0
  · rw [if_pos hc, if_pos hc]
    rfl
  rw [if_neg hc, if_neg hc]
  unfold doGetFreePages
  cases zoneOfId (zoneIdOfFlag flag) with
  | none => rfl
  | some z =>
  simp only [lockZone]
  by_cases hmutex : (mm.zone z).zoneMutex = 0
  swap
  · have hmutex' : ¬((mm.setPage q page).zone z).zoneMutex = 0 := hmutex
    rw [if_neg hmutex, if_neg hmutex']
  have hmutex' : ((mm.setPage q page).zone z).zoneMutex = 0 := hmutex
  rw [if_pos hmutex, if_pos hmutex']
  -- The search reads the map and the zone, the rest is written after it.
  have hfind : ∀ zone n, ((mm.setPage q page).setZone z { mm.zone z with
        zoneMutex := 1 }).findContinousPages zone n
      = (mm.setZone z { mm.zone z with zoneMutex := 1 }).findContinousPages zone n := by
    intro zone n
    unfold findContinousPages findFuel
    exact findLoop_congr (mm.setZone z { mm.zone z with zoneMutex := 1 })
      ((mm.setPage q page).setZone z { mm.zone z with zoneMutex := 1 }) zone zone n rfl rfl rfl rfl
      rfl _ _ _ _
  simp only [Option.bind_eq_bind, Option.bind_some, Option.pure_def]
  have hzone : ((mm.setPage q page).setZone z { (mm.setPage q page).zone z with
        zoneMutex := 1 }).zone z
      = (mm.setZone z { mm.zone z with zoneMutex := 1 }).zone z := rfl
  rw [hzone]
  by_cases hlow : ((mm.setZone z { mm.zone z with zoneMutex := 1 }).zone z).freePages < count.toNat
  · rw [if_pos hlow, if_pos hlow]
    rfl
  rw [if_neg hlow, if_neg hlow]
  have hfind' := hfind ((mm.setZone z { mm.zone z with zoneMutex := 1 }).zone z) count.toNat
  have hzone' : (mm.setPage q page).zone z = mm.zone z := rfl
  rw [hzone', hfind']
  cases (mm.setZone z { mm.zone z with zoneMutex := 1 }).findContinousPages
      ((mm.setZone z { mm.zone z with zoneMutex := 1 }).zone z) count.toNat with
  | none => rfl
  | some index =>
  simp only [Option.bind_some]
  by_cases hindex : index = 0
  · rw [if_pos hindex, if_pos hindex]
    rfl
  rw [if_neg hindex, if_neg hindex]
  unfold updateMemoryBitmap
  have hwords : ((mm.setPage q page).setZone z { mm.zone z with zoneMutex := 1 }).mapWords
      = (mm.setZone z { mm.zone z with zoneMutex := 1 }).mapWords := rfl
  rw [hwords]
  by_cases hroom : count.toNat = 0 ∨ index + count.toNat
      ≤ 32 * (mm.setZone z { mm.zone z with zoneMutex := 1 }).mapWords
  · rw [if_pos hroom, if_pos hroom]
    simp only [Option.bind_some, Option.map_some, initPages_eq]
    rfl
  · rw [if_neg hroom, if_neg hroom]

/-- The two pages as the allocation found them. -/
theorem tablePages_eq (mm mm₁ mm₂ mm₃ : Mm) (q qs stack elf : Nat) (page : Page)
    (h₀ : mm.getFreePages 1 gfpKernel = some (q, mm₁))
    (h₁ : mm₁.getFreePage gfpPgt = some (stack, mm₂))
    (h₂ : (mm₂.setPage qs page).getFreePage gfpPgt = some (elf, mm₃)) :
    mm.tablePages = some (stack, elf) := by
  have hfst := getFreePages_setPage mm₂ qs page 1 gfpPgt
  have h₂' : (mm₂.setPage qs page).getFreePages 1 gfpPgt = some (elf, mm₃) := h₂
  rw [h₂', Option.map_some] at hfst
  rcases Option.map_eq_some_iff.1 hfst.symm with ⟨⟨a, mm₄⟩, hget, ha⟩
  have ha' : a = elf := ha
  have hget' : mm₂.getFreePage gfpPgt = some (a, mm₄) := hget
  unfold tablePages
  rw [h₀]
  simp only [Option.bind_eq_bind, Option.bind_some, Option.pure_def, h₁, hget', ha']

end Mm

/-- The words of the two tables that no page is entered into are fault descriptors. -/
def FaultWords (ram : Ram) (stack elf : Nat) : Prop :=
  (∀ w < 1020, load32 ram (stack + 4 * w) % 4 = 0) ∧
    ∀ w, 256 ≤ w → w < 1024 → load32 ram (elf + 4 * w) % 4 = 0

namespace Kernel

section Space

variable (k₁ k : Kernel) (cur t qs qe : Nat) (ps rs : List Nat)
  (h : Filling k₁ k t qs qe ps rs) (hps : ps.length = 4) (hrs : rs.length = 256)
  (hplain : Mm.PlainMap k₁.mm) (hstackMap : k₁.mm.PageMapped qs)
  (helfMap : k₁.mm.PageMapped qe) (hcur : cur ≠ 0) (ht : t ≠ 0)
  (hflag : (k₁.task t).flag &&& processTypeKernel = 0)
include h hps hrs hplain

/-- The other words of the tables are what memory held before. -/
theorem stale_words :
    (∀ w < 1020, load32 k.ram (k₁.mm.pageIdToVa qs + 4 * w)
      = load32 k₁.ram (k₁.mm.pageIdToVa qs + 4 * w)) ∧
    ∀ w, 256 ≤ w → w < 1024 → load32 k.ram (k₁.mm.pageIdToVa qe + 4 * w)
      = load32 k₁.ram (k₁.mm.pageIdToVa qe + 4 * w) := by
  have hap := filling_tables k₁ k t qs qe ps rs h hplain
  have hframe := h.frame
  rw [hps, hrs] at hframe
  unfold pageSize at hap hframe
  refine ⟨fun w hw => ?_, fun w hlow hw => ?_⟩
  · refine load32_congr _ _ _ (fun i hi => hframe _ (by omega) (by omega))
  · refine load32_congr _ _ _ (fun i hi => hframe _ (by omega) (by omega))

include hstackMap helfMap hcur ht hflag

end Space

end Kernel

end Mirros
