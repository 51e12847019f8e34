import Mirros.Theory.Spaces.Beside
import Mirros.Theory.Task.Place
import Mirros.Theory.Task.Visit

/-!
# A Task With Its Memory

What a user task has once `alloc_memory_for_task` has succeeded: pages of its own, among them
one table for its stack and one for its image (`Lodged`). If the pages of the tables held no
descriptors before, each has a word for every page of its list, and no other word that
translates anything (`Housed`). Then, while the tables are installed, the hardware finds a user
address where the lists of the task say, and finds nothing anywhere else (`walk_user`).

## Main definitions

* `Lodged`, `Tabled`, `Housed`: The pages of a task, its tables, and all it has.
* `Installed`: Its tables are those the hardware reads.
* `KeptPages`, `Kept`: A change that leaves a task its pages, and its tables.
* `slot`: The page behind a page of user addresses.

## Theorems

* `walk_user`: What the hardware finds.
* `userVa_apart`: No byte serves two user addresses.
* `lodged_kept`, `housed_kept`: A task keeps what it has.
* `lodged_created`, `housed_created`: A new task has it all.
-/

namespace Mirros

namespace Kernel

/-- The two tables of a task: a word for each of its pages, and faults. -/
structure Tabled (k : Kernel) (t qs qe : Nat) : Prop where
  lists : (k.task t).mm.stackList = [qs] ∧ (k.task t).mm.elfList = [qe]
  addresses : (k.mm.pageTable qs).phyAddress = k.mm.pagePa qs ∧
    (k.mm.pageTable qe).phyAddress = k.mm.pagePa qe
  stackWords : ∀ i p, (k.task t).mm.elfStackList[i]? = some p →
    load32 k.ram (k.mm.pageIdToVa qs + 4092 - 4 * i) = k.mm.pageDes p
  elfWords : ∀ i p, (k.task t).mm.elfImageList[i]? = some p →
    load32 k.ram (k.mm.pageIdToVa qe + 4 * i) = k.mm.pageDes p
  faults : FaultWords k.ram (k.mm.pageIdToVa qs) (k.mm.pageIdToVa qe)

/-- A user task that has all its pages. -/
structure Lodged (k : Kernel) (t : Nat) : Prop where
  kind : (k.task t).flag &&& processTypeUser ≠ 0 ∧ (k.task t).flag &&& processTypeKernel = 0
  origin : (k.task t).stackOrigin ≠ 0 ∧
    k.mm.pageIdToVa (k.mm.vaToPageId (k.task t).stackOrigin) = (k.task t).stackOrigin
  counts : (k.task t).mm.elfStackList.length = 4 ∧ (k.task t).mm.elfImageList.length = 256
  own : ∀ p ∈ k.heldPages t, OwnPage (fun _ => False) k.mm p
  nodup : (k.heldPages t).Nodup
  bases : ∀ p ∈ (k.task t).mm.elfStackList ++ (k.task t).mm.elfImageList,
    (k.mm.pageTable p).freeBase = k.mm.pageIdToVa p
  single : (k.task t).mm.stackList.length = 1 ∧ (k.task t).mm.elfList.length = 1
  stackRoom : ∀ q ∈ (k.task t).mm.stackList, StackRoom k.mm q
  elfRoom : ∀ q ∈ (k.task t).mm.elfList, ElfRoom k.mm q

/-- A user task that has all its memory, where the kernel finds it. -/
structure Housed (k : Kernel) (t : Nat) : Prop extends Lodged k t where
  tables : ∃ qs qe, Tabled k t qs qe
  mapped : ∀ p ∈ (k.task t).mm.pages, k.mm.PageMapped p

/-- The level-one table points at the tables of a task. -/
def Installed (k : Kernel) (t : Nat) : Prop :=
  (∀ qs ∈ (k.task t).mm.stackList, ∀ e, 2044 ≤ e → e < 2044 + 4 →
    k.tlb e = archBuildTlbDes (add32 (k.mm.pagePa qs) ((e - 2044) * size1K)) curdePageTable) ∧
  ∀ qe ∈ (k.task t).mm.elfList, ∀ e, 4 ≤ e → e < 4 + 4 →
    k.tlb e = archBuildTlbDes (add32 (k.mm.pagePa qe) ((e - 4) * size1K)) curdePageTable

/-- The rest of the user half of the level-one table was cleared at boot. -/
def LowClear (tlb : TlbTable) : Prop :=
  ∀ e < 2048, e < 4 ∨ 8 ≤ e → e < 2044 → tlb e = 0

/-- The page behind a page of user addresses. -/
def slot (ms : MmStruct) (n : Nat) : Option Nat :=
  if 0x400 ≤ n ∧ n < 0x500 then ms.elfImageList[n - 0x400]?
  else if 0x7fffc ≤ n ∧ n < 0x80000 then ms.elfStackList[0x7ffff - n]?
  else none

/-- User addresses by their pages. -/
theorem userVa_slot (mm : Mm) (ms : MmStruct) (va : Nat) :
    userVa mm ms va = (slot ms (va / pageSize)).map (fun p => mm.pageIdToVa p + va % pageSize) := by
  unfold userVa slot processUserBase processImageSize processUserStackBase processStackSize pageSize
  by_cases himage : 0x400000 ≤ va ∧ va < 0x400000 + 256 * 4096
  · have hindex : (va - 0x400000) / 4096 = va / 4096 - 0x400 := by omega
    rw [if_pos himage, if_pos (by omega), hindex]
  rw [if_neg himage, if_neg (show ¬(0x400 ≤ va / 4096 ∧ va / 4096 < 0x500) by omega)]
  by_cases hstack : 0x80000000 - 4 * 4096 ≤ va ∧ va < 0x80000000
  · have hindex : (0x80000000 - 1 - va) / 4096 = 0x7ffff - va / 4096 := by omega
    rw [if_pos hstack, if_pos (by omega), hindex]
  · rw [if_neg hstack, if_neg (by omega)]
    rfl

theorem slot_mem (ms : MmStruct) (n p : Nat) (h : slot ms n = some p) :
    p ∈ ms.elfStackList ++ ms.elfImageList := by
  unfold slot at h
  split_ifs at h
  · exact List.mem_append_right _ (List.mem_of_getElem? h)
  · exact List.mem_append_left _ (List.mem_of_getElem? h)

/-- A page is behind one page of user addresses. -/
theorem slot_inj (ms : MmStruct) (hnodup : (ms.elfStackList ++ ms.elfImageList).Nodup)
    (n n' p : Nat) (h : slot ms n = some p) (h' : slot ms n' = some p) : n = n' := by
  rcases List.nodup_append.mp hnodup with ⟨hstack, himage, hapart⟩
  have hindex : ∀ (l : List Nat), l.Nodup → ∀ i j : Nat, l[i]? = some p → l[j]? = some p →
      i = j := by
    intro l hl i j hi hj
    rcases List.getElem?_eq_some_iff.mp hi with ⟨hlt, _⟩
    exact (List.getElem?_inj hlt hl).mp (hi.trans hj.symm)
  unfold slot at h h'
  split_ifs at h h' with h₁ h₂ h₃ h₄ h₅
  · have hsame := hindex _ himage _ _ h h'
    omega
  · exact absurd rfl (hapart p (List.mem_of_getElem? h') p (List.mem_of_getElem? h))
  · exact absurd rfl (hapart p (List.mem_of_getElem? h) p (List.mem_of_getElem? h'))
  · have hsame := hindex _ hstack _ _ h h'
    omega

section Housed

variable (k : Kernel) (t : Nat)

theorem housed_lists (p : Nat) (hp : p ∈ (k.task t).mm.pages) : p ∈ k.heldPages t :=
  (mem_heldPages k t p).mpr (Or.inr hp)

theorem housed_userPages (p : Nat)
    (hp : p ∈ (k.task t).mm.elfStackList ++ (k.task t).mm.elfImageList) : p ∈ k.heldPages t := by
  exact housed_lists k t p (userPages_mem _ p hp)

/-- A user address is a byte of a page of the task. -/
theorem userVa_page (va x : Nat) (hva : userVa k.mm (k.task t).mm va = some x) :
    ∃ p ∈ (k.task t).mm.elfStackList ++ (k.task t).mm.elfImageList,
      slot (k.task t).mm (va / pageSize) = some p ∧ x = k.mm.pageIdToVa p + va % pageSize := by
  rw [userVa_slot] at hva
  rcases Option.map_eq_some_iff.mp hva with ⟨p, hp, rfl⟩
  exact ⟨p, slot_mem _ _ _ hp, hp, rfl⟩

/-- The pages of user addresses, and the tables, are all different. -/
theorem lodged_nodup (h : Lodged k t) :
    ((k.task t).mm.elfStackList ++ (k.task t).mm.elfImageList).Nodup ∧
    ∀ p ∈ (k.task t).mm.elfStackList ++ (k.task t).mm.elfImageList,
      ∀ q ∈ (k.task t).mm.stackList ++ (k.task t).mm.elfList, p ≠ q := by
  have hpages := (List.nodup_append.mp h.nodup).2.1
  unfold MmStruct.pages at hpages
  rw [← List.append_assoc (k.task t).mm.elfStackList, List.nodup_append] at hpages
  exact ⟨hpages.1, hpages.2.2⟩

variable (h : Housed k t)
include h

/-- What the hardware finds at a user address, while the tables of the task are installed:
    the byte the lists of the task name, and nothing at any other address. -/
theorem walk_user (hinst : Installed k t) (hlow : LowClear k.tlb) (va : Nat)
    (hva : va < processUserStackBase) :
    (walk k.mm k.tlb k.ram va).map k.mm.kernelVa = userVa k.mm (k.task t).mm va := by
  rcases h.tables with ⟨qs, qe, htab⟩
  have hqs : qs ∈ (k.task t).mm.stackList := by rw [htab.lists.1]; exact List.mem_singleton_self _
  have hqe : qe ∈ (k.task t).mm.elfList := by rw [htab.lists.2]; exact List.mem_singleton_self _
  have hqsm := h.mapped qs (tables_mem _ qs (List.mem_append_left _ hqs))
  have hqem := h.mapped qe (tables_mem _ qe (List.mem_append_right _ hqe))
  have ho : va % pageSize < pageSize := Nat.mod_lt _ (by decide)
  have hfault : ∀ w, k.tlb (va / size1M) % 4 = 1 →
      levelTwo k.mm k.ram (k.tlb (va / size1M)) va = w → w % 4 = 0 →
      walk k.mm k.tlb k.ram va = none :=
    fun w hkind hword hw => walk_of_faults _ _ _ _ (Or.inr ⟨hkind, hword ▸ hw⟩)
  have hfound : ∀ p ∈ (k.task t).mm.pages, k.tlb (va / size1M) % 4 = 1 →
      levelTwo k.mm k.ram (k.tlb (va / size1M)) va = k.mm.pageDes p →
      (walk k.mm k.tlb k.ram va).map k.mm.kernelVa
        = some (k.mm.pageIdToVa p + va % pageSize) := by
    intro p hp hkind hword
    rcases walk_page k k k va p (va % pageSize) (h.mapped p hp) (Mm.SameBank.refl _) rfl hkind
      hword with ⟨hwalk, hback⟩
    rw [hwalk, Option.map_some, hback]
  rw [userVa_slot]
  unfold processUserStackBase at hva
  by_cases hs : 0x7fc00000 ≤ va
  · -- The four megabytes of the stack table.
    have hsplit : 0x7fc00000 + pageSize * ((va - 0x7fc00000) / 4096) + va % pageSize = va := by
      unfold pageSize
      omega
    have hw : (va - 0x7fc00000) / 4096 < 1024 := by omega
    have hwalk := walk_table k.mm k.tlb k.ram qs 0x7fc00000 ((va - 0x7fc00000) / 4096)
      (va % pageSize) hqsm (by decide) hw ho (hinst.1 qs hqs)
    rw [hsplit] at hwalk
    by_cases hin : (va - 0x7fc00000) / 4096 < 1020
    · have hnone : slot (k.task t).mm (va / pageSize) = none := by
        unfold slot pageSize
        rw [if_neg (by omega), if_neg (by omega)]
      rw [hfault _ hwalk.1 hwalk.2 (htab.faults.1 _ hin), hnone]
      rfl
    · obtain ⟨p, hp⟩ : ∃ p, (k.task t).mm.elfStackList[0x7ffff - va / 4096]? = some p := by
        refine ⟨_, List.getElem?_eq_getElem ?_⟩
        rw [h.counts.1]
        omega
      have hslot : slot (k.task t).mm (va / pageSize) = some p := by
        unfold slot pageSize
        rw [if_neg (by omega), if_pos (by omega), hp]
      have hword := htab.stackWords _ p hp
      rw [show k.mm.pageIdToVa qs + 4092 - 4 * (0x7ffff - va / 4096)
        = k.mm.pageIdToVa qs + 4 * ((va - 0x7fc00000) / 4096) by omega] at hword
      rw [hslot, hfound p ((mem_pages _ p).mpr (Or.inl (List.mem_of_getElem? hp))) hwalk.1
        (hwalk.2.trans hword)]
      rfl
  by_cases he : 0x400000 ≤ va ∧ va < 0x800000
  · -- The four megabytes of the image table.
    have hsplit : 0x400000 + pageSize * ((va - 0x400000) / 4096) + va % pageSize = va := by
      unfold pageSize
      omega
    have hw : (va - 0x400000) / 4096 < 1024 := by omega
    have hwalk := walk_table k.mm k.tlb k.ram qe 0x400000 ((va - 0x400000) / 4096) (va % pageSize)
      hqem (by decide) hw ho (hinst.2 qe hqe)
    rw [hsplit] at hwalk
    by_cases hin : 256 ≤ (va - 0x400000) / 4096
    · have hnone : slot (k.task t).mm (va / pageSize) = none := by
        unfold slot pageSize
        rw [if_neg (by omega), if_neg (by omega)]
      rw [hfault _ hwalk.1 hwalk.2 (htab.faults.2 _ hin hw), hnone]
      rfl
    · obtain ⟨p, hp⟩ : ∃ p, (k.task t).mm.elfImageList[va / 4096 - 0x400]? = some p := by
        refine ⟨_, List.getElem?_eq_getElem ?_⟩
        rw [h.counts.2]
        omega
      have hslot : slot (k.task t).mm (va / pageSize) = some p := by
        unfold slot pageSize
        rw [if_pos (by omega), hp]
      have hword := htab.elfWords _ p hp
      rw [show va / 4096 - 0x400 = (va - 0x400000) / 4096 by omega] at hword
      rw [hslot, hfound p ((mem_pages _ p).mpr (Or.inr (Or.inl (List.mem_of_getElem? hp)))) hwalk.1
        (hwalk.2.trans hword)]
      rfl
  · -- No table at all.
    have hnone : slot (k.task t).mm (va / pageSize) = none := by
      unfold slot pageSize
      rw [if_neg (by omega), if_neg (by omega)]
    have hentry : k.tlb (va / size1M) = 0 := by
      refine hlow _ ?_ ?_ ?_
      · unfold size1M
        omega
      · unfold size1M
        omega
      · unfold size1M
        omega
    rw [walk_of_faults _ _ _ _ (Or.inl (by rw [hentry])), hnone]
    rfl

end Housed

/-- No byte serves two user addresses, of one task or of two. -/
theorem userVa_apart (k : Kernel) (t t' : Nat) (hplain : Mm.PlainMap k.mm) (h : Lodged k t)
    (h' : Lodged k t') (hapart : t ≠ t' → List.Disjoint (k.heldPages t) (k.heldPages t'))
    (va va' x : Nat) (hva : userVa k.mm (k.task t).mm va = some x)
    (hva' : userVa k.mm (k.task t').mm va' = some x) : t = t' ∧ va = va' := by
  rcases userVa_page k t va x hva with ⟨p, hp, hslot, hx⟩
  rcases userVa_page k t' va' x hva' with ⟨p', hp', hslot', hx'⟩
  have hmem := housed_userPages k t p hp
  have hmem' := housed_userPages k t' p' hp'
  have hlt : va % pageSize < pageSize := Nat.mod_lt _ (by decide)
  have hlt' : va' % pageSize < pageSize := Nat.mod_lt _ (by decide)
  have hsame : p = p' := by
    by_contra hne
    have hap := Mm.pageIdToVa_apart k.mm hplain p p' (h.own p hmem).bound (h'.own p' hmem').bound hne
    omega
  subst hsame
  have htask : t = t' := by
    by_contra hne
    exact hapart hne hmem hmem'
  subst htask
  refine ⟨rfl, ?_⟩
  have hpage := slot_inj (k.task t).mm (lodged_nodup k t h).1 _ _ p hslot hslot'
  have hdiv := Nat.div_add_mod va pageSize
  have hdiv' := Nat.div_add_mod va' pageSize
  rw [← hdiv, ← hdiv', hpage]
  omega

/-- What a task has is the same in two structures. -/
structure SameTask (p p' : Process) : Prop where
  flag : p'.flag = p.flag
  origin : p'.stackOrigin = p.stackOrigin
  tables : p'.mm.stackList = p.mm.stackList ∧ p'.mm.elfList = p.mm.elfList
  stack : p'.mm.elfStackList = p.mm.elfStackList
  image : p'.mm.elfImageList = p.mm.elfImageList

theorem SameTask.refl (p : Process) : SameTask p p :=
  ⟨rfl, rfl, ⟨rfl, rfl⟩, rfl, rfl⟩

/-- A change that leaves a task its pages. -/
structure KeptPages (k k' : Kernel) (t : Nat) : Prop where
  bank : Mm.SameBank k.mm k'.mm
  task : SameTask (k.task t) (k'.task t)
  bits : ∀ p ∈ k.heldPages t, used k'.mm.pageMap p = true
  entries : ∀ p ∈ k.heldPages t, k'.mm.pageTable p = k.mm.pageTable p

/-- A change that leaves it what its tables say as well. -/
structure Kept (k k' : Kernel) (t : Nat) : Prop extends KeptPages k k' t where
  tables : ∀ p ∈ (k.task t).mm.stackList ++ (k.task t).mm.elfList, SamePage k.mm k.ram k'.ram p

section Kept

variable (k k' : Kernel) (t : Nat)

section KeptPages

variable (hkept : KeptPages k k' t)
include hkept

theorem kept_held : k'.heldPages t = k.heldPages t := by
  have htask := hkept.task
  refine heldPages_congr k k' t hkept.bank htask.origin ?_
  rw [MmStruct.pages, MmStruct.pages, htask.stack, htask.image, htask.tables.1, htask.tables.2]

theorem kept_userVa (va : Nat) :
    userVa k'.mm (k'.task t).mm va = userVa k.mm (k.task t).mm va := by
  have hslot : slot (k'.task t).mm = slot (k.task t).mm := by
    funext n
    unfold slot
    rw [hkept.task.image, hkept.task.stack]
  rw [userVa_slot, userVa_slot, hslot]
  simp only [Mm.pageIdToVa_same k.mm k'.mm hkept.bank]

theorem kept_installed (h : Installed k t) (htlb : k'.tlb = k.tlb) : Installed k' t := by
  unfold Installed
  rw [hkept.task.tables.1, hkept.task.tables.2, htlb]
  simp only [Mm.pagePa_same k.mm k'.mm hkept.bank]
  exact h

/-- A task keeps its pages. -/
theorem lodged_kept (h : Lodged k t) : Lodged k' t := by
  have hheld := kept_held k k' t hkept
  have hbank := hkept.bank
  have hva := Mm.pageIdToVa_same k.mm k'.mm hbank
  have htask := hkept.task
  have htable : ∀ q ∈ (k.task t).mm.stackList ++ (k.task t).mm.elfList, q ∈ k.heldPages t :=
    fun q hq => housed_lists k t q (tables_mem _ q hq)
  refine ⟨?_, ?_, ?_, fun p hp => ?_, hheld.symm ▸ h.nodup, fun p hp => ?_, ?_, fun q hq => ?_,
    fun q hq => ?_⟩
  · rw [htask.flag]
    exact h.kind
  · rw [htask.origin, hva, Mm.vaToPageId_same k.mm k'.mm hbank]
    exact h.origin
  · rw [htask.stack, htask.image]
    exact h.counts
  · rw [hheld] at hp
    have hown := h.own p hp
    exact ⟨hown.apart, hkept.bits p hp, hbank.words.symm ▸ hown.bound,
      (hkept.entries p hp).symm ▸ hown.single⟩
  · rw [htask.stack, htask.image] at hp
    rw [hkept.entries p (housed_userPages k t p hp), hva]
    exact h.bases p hp
  · rw [htask.tables.1, htask.tables.2]
    exact h.single
  · rw [htask.tables.1] at hq
    exact stackRoom_same k.mm k'.mm q hbank
      (hkept.entries q (htable q (List.mem_append_left _ hq))) (h.stackRoom q hq)
  · rw [htask.tables.2] at hq
    exact elfRoom_same k.mm k'.mm q hbank
      (hkept.entries q (htable q (List.mem_append_right _ hq))) (h.elfRoom q hq)

end KeptPages

/-- A task keeps what its tables say. -/
theorem tabled_kept (hkept : Kept k k' t) (h : Lodged k t) (qs qe : Nat)
    (htab : Tabled k t qs qe) : Tabled k' t qs qe := by
  have hva := Mm.pageIdToVa_same k.mm k'.mm hkept.bank
  have hdes := Mm.pageDes_same k.mm k'.mm hkept.bank
  have htask := hkept.task
  have hqs : qs ∈ (k.task t).mm.stackList ++ (k.task t).mm.elfList := by
    rw [htab.lists.1]
    exact List.mem_cons_self
  have hqe : qe ∈ (k.task t).mm.stackList ++ (k.task t).mm.elfList := by
    rw [htab.lists.2]
    exact List.mem_append_right _ (List.mem_singleton_self _)
  -- The words of a table are bytes of its page.
  have hword : ∀ q ∈ (k.task t).mm.stackList ++ (k.task t).mm.elfList, ∀ w < 1024,
      load32 k'.ram (k.mm.pageIdToVa q + 4 * w) = load32 k.ram (k.mm.pageIdToVa q + 4 * w) := by
    intro q hq w hw
    refine load32_congr _ _ _ (fun i hi => ?_)
    have hbyte := hkept.tables q hq (4 * w + i) (by unfold pageSize; omega)
    rwa [← Nat.add_assoc] at hbyte
  refine ⟨by rw [htask.tables.1, htask.tables.2]; exact htab.lists, ?_, fun i p hp => ?_,
    fun i p hp => ?_, fun w hw => ?_, fun w hlow hw => ?_⟩
  · rw [hkept.entries qs (housed_lists k t qs (tables_mem _ qs hqs)),
      hkept.entries qe (housed_lists k t qe (tables_mem _ qe hqe)),
      Mm.pagePa_same k.mm k'.mm hkept.bank, Mm.pagePa_same k.mm k'.mm hkept.bank]
    exact htab.addresses
  · rw [htask.stack] at hp
    have hi := (List.getElem?_eq_some_iff.mp hp).1
    have hlen := h.counts.1
    have hi' : i < 4 := by
      rw [← hlen]
      exact hi
    rw [hva, hdes, ← htab.stackWords i p hp,
      show k.mm.pageIdToVa qs + 4092 - 4 * i = k.mm.pageIdToVa qs + 4 * (1023 - i) by omega]
    exact hword qs hqs _ (by omega)
  · rw [htask.image] at hp
    have hi := (List.getElem?_eq_some_iff.mp hp).1
    have hlen := h.counts.2
    have hi' : i < 256 := by
      rw [← hlen]
      exact hi
    rw [hva, hdes, ← htab.elfWords i p hp]
    exact hword qe hqe _ (by omega)
  · rw [hva, hword qs hqs w (by omega)]
    exact htab.faults.1 w hw
  · rw [hva, hword qe hqe w hw]
    exact htab.faults.2 w hlow hw

/-- A task keeps what it has. -/
theorem housed_kept (hkept : Kept k k' t) (h : Housed k t) : Housed k' t := by
  have hpages : (k'.task t).mm.pages = (k.task t).mm.pages := by
    rw [MmStruct.pages, MmStruct.pages, hkept.task.stack, hkept.task.image, hkept.task.tables.1,
      hkept.task.tables.2]
  rcases h.tables with ⟨qs, qe, htab⟩
  refine ⟨lodged_kept k k' t hkept.toKeptPages h.toLodged,
    ⟨qs, qe, tabled_kept k k' t hkept h.toLodged qs qe htab⟩, fun p hp => ?_⟩
  exact Mm.pageMapped_same k.mm k'.mm hkept.bank p (h.mapped p (hpages ▸ hp))

end Kept

/-- What is done for another task leaves a task what it has, and its bytes. -/
theorem kept_beside (F : Nat → Prop) (u t : Nat) (k k' : Kernel) (hne : t ≠ u)
    (hF : ∀ p ∈ k.heldPages t, F p) (h : Beside F u k k') :
    Kept k k' t ∧ ∀ p ∈ k.heldPages t, SamePage k.mm k.ram k'.ram p := by
  refine ⟨⟨⟨h.bank, h.tasks t hne ▸ SameTask.refl _, fun p hp => h.bits p (hF p hp),
    fun p hp => h.entries p (hF p hp)⟩, fun p hp => ?_⟩, fun p hp => h.ram p (hF p hp)⟩
  exact h.ram p (hF p (housed_lists k t p (tables_mem _ p hp)))

/-- A task that has all its pages, beside the others. -/
theorem lodged_beside (F : Nat → Prop) (k : Kernel) (t : Nat) (hplain : Mm.PlainMap k.mm)
    (hunlocked : (k.mm.zone .normal).zoneMutex = 0) (h : Lodged k t)
    (hF : ∀ i, F i → used k.mm.pageMap i = true ∧ i < 32 * k.mm.mapWords)
    (hapart : ∀ p ∈ k.heldPages t, ¬F p) : Beside F t k k := by
  refine ⟨hplain, Mm.SameBank.refl _, fun _ _ => rfl, rfl, hunlocked, fun i hi => (hF i hi).2,
    fun i hi => (hF i hi).1, fun _ _ => rfl, fun _ _ _ _ => rfl, fun p hp => ?_, h.nodup,
    h.stackRoom, h.elfRoom, h.bases, fun _ => h.origin.2⟩
  have hown := h.own p hp
  exact ⟨hapart p hp, hown.taken, hown.bound, hown.single⟩

/-- The stack of a task is set whatever it was before. -/
theorem allocKernelStack_origin (k : Kernel) (t : Nat) (hbase : (k.task t).stackBase = 0) :
    k.allocKernelStack t =
      (k.setTask t { k.task t with stackOrigin := 0 }).allocKernelStack t := by
  have hself : (k.setTask t { k.task t with stackOrigin := 0 }).task t
      = { k.task t with stackOrigin := 0 } := Function.update_self _ _ _
  have hmm : (k.setTask t { k.task t with stackOrigin := 0 }).mm = k.mm := rfl
  unfold allocKernelStack
  rw [hself, hmm, if_neg (not_not.mpr hbase), if_neg (not_not.mpr hbase)]
  simp only [Option.pure_def, Option.bind_eq_bind]
  refine congrArg _ (funext fun r => ?_)
  simp only [setMm, setTask, Function.update_self, Function.update_idem]

/-- The structure of a task that `init_task_struct` and `init_mm_struct` have set up. -/
structure Bare (k : Kernel) (t : Nat) : Prop where
  kind : (k.task t).flag &&& processTypeUser ≠ 0 ∧ (k.task t).flag &&& processTypeKernel = 0
  base : (k.task t).stackBase = 0

section Created

variable (F : Nat → Prop) (k k' : Kernel) (t userSp : Nat) (ret : Int) (hplain : Mm.PlainMap k.mm)
  (hunlocked : (k.mm.zone .normal).zoneMutex = 0) (hbare : Bare k t)
  (hF : ∀ i, F i → used k.mm.pageMap i = true ∧ i < 32 * k.mm.mapWords)
  (hrun : (k.initMmStruct t userSp).allocMemoryForTask t = some (ret, k'))
include hplain hunlocked hbare hF hrun

/-- The memory of a new task is allocated, or not, beside the pages of others. -/
theorem created_beside : Beside F t k k' := by
  have hself : (k.initMmStruct t userSp).task t = { k.task t with
      mm := emptyMm (k.task (k.task t).parent).mm.elfSize (sub32 processUserStackBase userSp) } := by
    unfold initMmStruct
    rw [if_pos hbare.kind.1]
    exact Function.update_self _ _ _
  have hrest : (k.initMmStruct t userSp).mm = k.mm ∧ (k.initMmStruct t userSp).tlb = k.tlb ∧
      (k.initMmStruct t userSp).ram = k.ram ∧
      ∀ u ≠ t, (k.initMmStruct t userSp).task u = k.task u := by
    unfold initMmStruct
    rw [if_pos hbare.kind.1]
    exact ⟨rfl, rfl, rfl, fun u hu => Function.update_of_ne hu _ _⟩
  set k₁ := k.initMmStruct t userSp with hk₁
  set k₂ := k₁.setTask t { k₁.task t with stackOrigin := 0 } with hk₂
  have hself₂ : k₂.task t = { k₁.task t with stackOrigin := 0 } := Function.update_self _ _ _
  have hrun₂ : k₂.allocMemoryForTask t = some (ret, k') := by
    rw [← hrun]
    unfold allocMemoryForTask
    rw [allocKernelStack_origin k₁ t (by rw [hself]; exact hbare.base)]
  have hheld : k₂.heldPages t = [] := by
    unfold heldPages
    rw [hself₂, hself]
    rfl
  have hnil : (k₂.task t).mm.stackList = [] ∧ (k₂.task t).mm.elfList = [] ∧
      (k₂.task t).mm.elfStackList ++ (k₂.task t).mm.elfImageList = [] := by
    rw [hself₂, hself]
    exact ⟨rfl, rfl, rfl⟩
  have hmm : k₂.mm = k.mm := hrest.1
  have hstart : Beside F t k k₂ := by
    refine ⟨hmm ▸ hplain, hmm ▸ Mm.SameBank.refl _, fun u hu => ?_, hrest.2.1, hmm ▸ hunlocked,
      fun i hi => hmm ▸ (hF i hi).2, fun i hi => hmm ▸ (hF i hi).1, fun i _ => by rw [hmm],
      fun i _ o _ => ?_, fun p hp => ?_, hheld ▸ List.nodup_nil, fun p hp => ?_, fun p hp => ?_,
      fun p hp => ?_, fun hne => ?_⟩
    · exact (Function.update_of_ne hu _ _).trans (hrest.2.2.2 u hu)
    · exact congrFun hrest.2.2.1 _
    · exact absurd (hheld ▸ hp) List.not_mem_nil
    · exact absurd (hnil.1 ▸ hp) List.not_mem_nil
    · exact absurd (hnil.2.1 ▸ hp) List.not_mem_nil
    · exact absurd (hnil.2.2 ▸ hp) List.not_mem_nil
    · rw [hself₂] at hne
      exact absurd rfl hne
  exact allocMemoryForTask_beside F t k k₂ hstart ret k' (by rw [hself₂]) hrun₂

end Created

section Filled

variable (k k' : Kernel) (t userSp : Nat) (hplain : Mm.PlainMap k.mm) (hbare : Bare k t)
  (hrun : (k.initMmStruct t userSp).allocMemoryForTask t = some (0, k'))
include hplain hbare hrun

/-- What a new task gets after its kernel stack, which it has in the state `k₁`. Its tables
    are the pages that `tablePages` says. -/
theorem created_filled : ∃ (k₁ : Kernel) (qs qe : Nat) (ps rs : List Nat),
    Filling k₁ k' t qs qe ps rs ∧ ps.length = 4 ∧ rs.length = 256 ∧ Mm.SameBank k.mm k₁.mm ∧
    k₁.ram = k.ram ∧ k.mm.tablePages = some (k₁.mm.pageIdToVa qs, k₁.mm.pageIdToVa qe) ∧
    (k₁.task t).stackOrigin ≠ 0 ∧ (k₁.task t).flag = (k.task t).flag := by
  have hinit : k.initMmStruct t userSp = k.setTaskMm t
      (emptyMm (k.task (k.task t).parent).mm.elfSize (sub32 processUserStackBase userSp)) := by
    unfold initMmStruct
    rw [if_pos hbare.kind.1]
    rfl
  rw [hinit] at hrun
  set k₀ := k.setTaskMm t (emptyMm (k.task (k.task t).parent).mm.elfSize
    (sub32 processUserStackBase userSp)) with hk₀
  have hself₀ : k₀.task t = { k.task t with
      mm := emptyMm (k.task (k.task t).parent).mm.elfSize (sub32 processUserStackBase userSp) } :=
    Function.update_self _ _ _
  rcases allocMemoryForTask_filled k₀ k' t hplain (by rw [hself₀]; exact hbare.kind.1)
    (by rw [hself₀]; exact ⟨rfl, rfl, rfl, rfl⟩) hrun with
    ⟨k₁, q, qs, qe, ps, rs, _, hfill, hps, hrs, hgot, hne, htask₁, hrest, hget₀, mm₁, mm₂, page,
      hget₁, hget₂⟩
  have hva := Mm.pageIdToVa_same k₀.mm k₁.mm hgot.bank
  have hself₁ : k₁.task t = { k₀.task t with
      stackBase := k₀.mm.pageIdToVa q
      stackOrigin := k₀.mm.pageIdToVa q } := by
    rw [htask₁, Function.update_self]
  refine ⟨k₁, qs, qe, ps, rs, hfill, hps, hrs, hgot.bank, hrest.ram, ?_, ?_, ?_⟩
  · rw [hva qs, hva qe]
    exact Mm.tablePages_eq k₀.mm k₁.mm mm₁ mm₂ _ qs _ _ page hget₀ hget₁ hget₂
  · rw [hself₁]
    exact hne
  · rw [hself₁, hself₀]

/-- A new task has all its pages, whatever they held before. -/
theorem lodged_created (hunlocked : (k.mm.zone .normal).zoneMutex = 0) : Lodged k' t := by
  have hbeside := created_beside (fun _ => False) k k' t userSp 0 hplain hunlocked hbare
    (fun i hi => hi.elim) hrun
  rcases created_filled k k' t userSp hplain hbare hrun with
    ⟨k₁, qs, qe, ps, rs, hfill, hps, hrs, -, -, -, hne, hflag⟩
  have hself : k'.task t = { k₁.task t with mm := filledMm (k₁.task t).mm qs qe ps rs } := by
    rw [hfill.task, Function.update_self]
  have horigin : (k'.task t).stackOrigin ≠ 0 := by
    rw [hself]
    exact hne
  refine ⟨?_, ⟨horigin, hbeside.origin horigin⟩, ?_, hbeside.own, hbeside.nodup, hbeside.bases, ?_,
    hbeside.stackRoom, hbeside.elfRoom⟩
  · rw [hself]
    exact hflag ▸ hbare.kind
  · rw [hself]
    exact ⟨hps, hrs⟩
  · rw [hself]
    exact ⟨rfl, rfl⟩

/-- It has all its memory, if the pages of its tables held no descriptors. -/
theorem housed_created (hunlocked : (k.mm.zone .normal).zoneMutex = 0)
    (hfault : ∃ stack elf, k.mm.tablePages = some (stack, elf) ∧ FaultWords k.ram stack elf)
    (hmapped : ∀ p ∈ (k'.task t).mm.pages, k.mm.PageMapped p) : Housed k' t := by
  rcases created_filled k k' t userSp hplain hbare hrun with
    ⟨k₁, qs, qe, ps, rs, hfill, hps, hrs, hbank, hram, hpages, -, -⟩
  have hself : k'.task t = { k₁.task t with mm := filledMm (k₁.task t).mm qs qe ps rs } := by
    rw [hfill.task, Function.update_self]
  have hbank' : Mm.SameBank k.mm k'.mm :=
    ⟨hfill.bank.start.trans hbank.start, hfill.bank.words.trans hbank.words,
      hfill.bank.sections.trans hbank.sections⟩
  have hva := Mm.pageIdToVa_same k₁.mm k'.mm hfill.bank
  have hdes := Mm.pageDes_same k₁.mm k'.mm hfill.bank
  -- The words that the filling does not write are those of the pages before.
  rcases stale_words k₁ k' t qs qe ps rs hfill hps hrs
    (Mm.plainMap_same k.mm k₁.mm hbank hplain) with ⟨hstackOld, helfOld⟩
  have hwords : FaultWords k.ram (k₁.mm.pageIdToVa qs) (k₁.mm.pageIdToVa qe) := by
    rcases hfault with ⟨stack, elf, hsome, hwords⟩
    rw [hpages, Option.some.injEq, Prod.mk.injEq] at hsome
    rw [hsome.1, hsome.2]
    exact hwords
  have hfaults : FaultWords k'.ram (k'.mm.pageIdToVa qs) (k'.mm.pageIdToVa qe) := by
    refine ⟨fun w hw => ?_, fun w hlow hw => ?_⟩
    · rw [hva, hstackOld w hw, hram]
      exact hwords.1 w hw
    · rw [hva, helfOld w hlow hw, hram]
      exact hwords.2 w hlow hw
  refine ⟨lodged_created k k' t userSp hplain hbare hrun hunlocked, ⟨qs, qe, ?_⟩,
    fun p hp => Mm.pageMapped_same k.mm k'.mm hbank' p (hmapped p hp)⟩
  refine ⟨by rw [hself]; exact ⟨rfl, rfl⟩, ⟨?_, ?_⟩, fun i p hp => ?_, fun i p hp => ?_, hfaults⟩
  · rw [(hfill.pages qs (by simp)).2.2.2, Mm.pagePa_same k₁.mm k'.mm hfill.bank]
  · rw [(hfill.pages qe (by simp)).2.2.2, Mm.pagePa_same k₁.mm k'.mm hfill.bank]
  · rw [hself] at hp
    rw [hva, hdes]
    exact hfill.stackWords i p hp
  · rw [hself] at hp
    rw [hva, hdes]
    exact hfill.elfWords i p hp

end Filled

end Kernel

end Mirros
