import Mirros.Lib.Spaces
import Mirros.Theory.Spaces.Housed

/-!
# Tasks in Their Address Spaces

The kernel with several user tasks, of which one runs. Memory is allocated for tasks and
released, the tables are switched from one to the next, a fork copies a task, an image is
loaded, and the program that runs stores where it likes: what it reaches is up to the tables
the hardware reads. Whatever else the kernel does meanwhile is taken into account as long as
it leaves the pages of the tasks alone (`Aside`).

Seen from the programs this is a number of private memories (`TaskSystem.spaces`), and every
step is an act on these (`step_acts`).

## Main definitions

* `TaskSystem`, `TaskEvent`, `Step`: The tasks, and what happens to them.
* `userStore`: A store of the program that runs.
* `Aside`, `Loads`: What the rest of the kernel may do, and what can be loaded.
* `TaskSystem.spaces`, `actOf`: The private memories, and the act behind an event.
* `Parted`, `Separated`: What holds at any time, of the pages and of the tables.

## Theorems

* `created_parted`, `destroyed_parted`: No page is of two tasks.
* `created_acts`, `refused_acts`, `destroyed_acts`: Tasks come and go.
* `switched_acts`, `parked_acts`: Another task runs.
* `stored_acts`, `rested_acts`: The program stores, and the kernel does something else.
-/

namespace Mirros

namespace Kernel

/-- A store of the program that runs: the hardware looks the address up, and where there is
    no translation nothing is stored. -/
def userStore (k : Kernel) (va : Nat) (b : BitVec 8) : Kernel :=
  match walk k.mm k.tlb k.ram va with
  | none => k
  | some pa => { k with ram := Function.update k.ram (k.mm.kernelVa pa) b }

/-- A load of the program that runs. -/
def userLoad (k : Kernel) (va : Nat) : Option (BitVec 8) :=
  (walk k.mm k.tlb k.ram va).map (fun pa => k.ram (k.mm.kernelVa pa))

/-- A section that `load_elf_section` can load into the image of a task: it is inside the
    image, its bytes are in the file, which lies elsewhere, and it is not both shorter than a
    page and in two pages. -/
structure Loads (k : Kernel) (t : Nat) (file : RamFile) (s : ElfSection) : Prop where
  low : processUserExecBase ≤ s.loadAddr
  high : s.loadAddr + s.size ≤ processUserBase + processImageSize
  size : 0 < s.size
  present : s.isBss = false → s.offset + s.size ≤ file.size
  apart : s.isBss = false → ∀ n < s.size, ∀ q ∈ (k.task t).mm.elfImageList,
    ¬(k.mm.pageIdToVa q ≤ file.base + s.offset + n ∧
      file.base + s.offset + n < k.mm.pageIdToVa q + pageSize)
  fits : s.loadAddr % pageSize + s.size ≤ pageSize ∨ pageSize ≤ s.size

/-- The user addresses of the pages that `copy_process_memory` copies. -/
def copiedVa (k : Kernel) (new va : Nat) : Bool :=
  if processUserBase ≤ va ∧ va < processUserBase + processImageSize then
    decide ((va - processUserBase) / pageSize
      < pageTurns (add32 (k.task new).mm.elfSize pageSize))
  else
    decide (va < processUserStackBase ∧
      (processUserStackBase - 1 - va) / pageSize < pageTurns (k.task new).mm.stackSize)

/-- The bytes of a section, by the user addresses they are loaded to. -/
def sectionBytes (k : Kernel) (file : RamFile) (s : ElfSection) (va : Nat) : Option (BitVec 8) :=
  if s.loadAddr ≤ va ∧ va < s.loadAddr + s.size then
    some (if s.isBss then 0#8 else k.ram (file.base + s.offset + (va - s.loadAddr)))
  else none

end Kernel

open Kernel

/-- The kernel, the user tasks that have their memory, and the one that runs. -/
structure TaskSystem where
  kernel : Kernel
  live : List Nat
  running : Option Nat

/-- What happens to the memory of the tasks. -/
inductive TaskEvent where
  | create (t userSp : Nat)
  | destroy (t : Nat)
  | switch (cur next : Nat)
  | copy (old new : Nat)
  | load (t : Nat) (file : RamFile) (section' : ElfSection)
  | store (va : Nat) (b : BitVec 8)
  | rest

/-- What the rest of the kernel may do: it leaves the tasks, their pages and the tables
    alone. -/
structure Aside (s : TaskSystem) (k' : Kernel) : Prop where
  bank : Mm.SameBank s.kernel.mm k'.mm
  tlb : k'.tlb = s.kernel.tlb
  unlocked : (k'.mm.zone .normal).zoneMutex = 0
  tasks : ∀ t ∈ s.live, SameTask (s.kernel.task t) (k'.task t)
  bits : ∀ t ∈ s.live, ∀ p ∈ s.kernel.heldPages t, used k'.mm.pageMap p = true
  entries : ∀ t ∈ s.live, ∀ p ∈ s.kernel.heldPages t,
    k'.mm.pageTable p = s.kernel.mm.pageTable p
  ram : ∀ t ∈ s.live, ∀ p ∈ s.kernel.heldPages t, SamePage s.kernel.mm s.kernel.ram k'.ram p

/-- One step of the system. A new task has the structure `init_task_struct` sets up, and is
    none of those that live. The pages of its tables hold no descriptors, and all it gets is
    where the kernel finds it. -/
inductive Step : TaskSystem → TaskEvent → TaskSystem → Prop where
  | created (s : TaskSystem) (t userSp : Nat) (k' : Kernel) (hnew : t ∉ s.live) (hne : t ≠ 0)
      (hbare : Bare s.kernel t)
      (hfault : ∃ stack elf, s.kernel.mm.tablePages = some (stack, elf) ∧
        FaultWords s.kernel.ram stack elf)
      (hrun : (s.kernel.initMmStruct t userSp).allocMemoryForTask t = some (0, k'))
      (hmapped : ∀ p ∈ (k'.task t).mm.pages, s.kernel.mm.PageMapped p) :
      Step s (.create t userSp) ⟨k', t :: s.live, s.running⟩
  | refused (s : TaskSystem) (t userSp : Nat) (ret : Int) (k' : Kernel) (hnew : t ∉ s.live)
      (hbare : Bare s.kernel t) (hret : ret ≠ 0)
      (hrun : (s.kernel.initMmStruct t userSp).allocMemoryForTask t = some (ret, k')) :
      Step s (.create t userSp) ⟨k', s.live, s.running⟩
  | destroyed (s : TaskSystem) (t : Nat) (k' : Kernel) (ht : t ∈ s.live)
      (hrun : s.kernel.releaseTaskMemory t = some k') :
      Step s (.destroy t)
        ⟨k', s.live.erase t, if s.running = some t then none else s.running⟩
  | switched (s : TaskSystem) (cur next : Nat) (hcur : cur ≠ 0) (hnext : next ∈ s.live) :
      Step s (.switch cur next) ⟨(s.kernel.switchTask cur next).2, s.live, some next⟩
  | parked (s : TaskSystem) (cur next : Nat) (hcur : cur ≠ 0) (hne : next ≠ 0)
      (hkind : (s.kernel.task next).flag &&& processTypeKernel ≠ 0) :
      Step s (.switch cur next) ⟨(s.kernel.switchTask cur next).2, s.live, none⟩
  | copied (s : TaskSystem) (old new : Nat) (k' : Kernel) (hold : old ∈ s.live)
      (hnew : new ∈ s.live) (hne : old ≠ new)
      (hrun : s.kernel.copyProcessMemory old new = some k') :
      Step s (.copy old new) ⟨k', s.live, s.running⟩
  | loaded (s : TaskSystem) (t : Nat) (file file' : RamFile) (sec : ElfSection) (k' : Kernel)
      (ht : t ∈ s.live) (hloads : Loads s.kernel t file sec)
      (hrun : s.kernel.loadElfSection t file sec = some (0, file', k')) :
      Step s (.load t file sec) ⟨k', s.live, s.running⟩
  | stored (s : TaskSystem) (va : Nat) (b : BitVec 8) (hrunning : s.running ≠ none)
      (hva : va < processUserStackBase) :
      Step s (.store va b) ⟨s.kernel.userStore va b, s.live, s.running⟩
  | rested (s : TaskSystem) (k' : Kernel) (haside : Aside s k') :
      Step s .rest ⟨k', s.live, s.running⟩

namespace TaskSystem

/-- Where in memory the user addresses of the tasks are. -/
def placing (s : TaskSystem) : Placing Nat Nat Nat :=
  fun t va => if t ∈ s.live then userVa s.kernel.mm (s.kernel.task t).mm va else none

/-- The memories of the tasks as the programs see them. -/
def spaces (s : TaskSystem) : Spaces Nat Nat (BitVec 8) :=
  ⟨s.placing.view s.kernel.ram, s.running⟩

end TaskSystem

/-- The act behind an event that leads from `s` to `s'`. A task that is made finds in its
    memory whatever its pages hold. -/
def actOf (s s' : TaskSystem) : TaskEvent → SpaceAct Nat Nat (BitVec 8)
  | .create t _ => if t ∈ s'.live then .appear t (s'.spaces.memory t) else .idle
  | .destroy t => .vanish t
  | .switch _ _ => .enter s'.running
  | .copy old new => .copy old new (copiedVa s.kernel new)
  | .load t file sec => .load t (sectionBytes s.kernel file sec)
  | .store va b => .store va b
  | .rest => .idle

/-- What holds of the pages at any time: every task has its own, and none is of two tasks. -/
structure Parted (s : TaskSystem) : Prop where
  plain : Mm.PlainMap s.kernel.mm
  unlocked : (s.kernel.mm.zone .normal).zoneMutex = 0
  nodup : s.live.Nodup
  lodged : ∀ t ∈ s.live, Lodged s.kernel t
  apart : ∀ t ∈ s.live, ∀ u ∈ s.live, t ≠ u →
    List.Disjoint (s.kernel.heldPages t) (s.kernel.heldPages u)

/-- What holds of the tables as well: those of a task say where its memory is, and the task
    that runs has its own installed. -/
structure Separated (s : TaskSystem) : Prop extends Parted s where
  housed : ∀ t ∈ s.live, t ≠ 0 ∧ Housed s.kernel t
  low : LowClear s.kernel.tlb
  installed : ∀ t, s.running = some t → t ∈ s.live ∧ Installed s.kernel t

/-- The pages of the tasks other than `t`. -/
def otherPages (s : TaskSystem) (t p : Nat) : Prop :=
  ∃ u ∈ s.live, u ≠ t ∧ p ∈ s.kernel.heldPages u

/-- The tables of the last program stay installed while a kernel task runs. -/
theorem switchTask_parked (k : Kernel) (cur next : Nat) (hcur : cur ≠ 0) (hne : next ≠ 0)
    (hkind : (k.task next).flag &&& processTypeKernel ≠ 0) : (k.switchTask cur next).2 = k := by
  unfold switchTask
  rw [if_neg (by tauto), if_pos hkind]

section Parted

variable (s : TaskSystem) (h : Parted s)
include h

theorem placing_apart : s.placing.Apart := by
  intro t va u va' x ht hu
  unfold TaskSystem.placing at ht hu
  split_ifs at ht hu with htl hul
  exact userVa_apart s.kernel t u h.plain (h.lodged t htl) (h.lodged u hul) (h.apart t htl u hul)
    va va' x ht hu

theorem other_used (t : Nat) : ∀ p, otherPages s t p →
    used s.kernel.mm.pageMap p = true ∧ p < 32 * s.kernel.mm.mapWords := by
  rintro p ⟨u, hu, -, hp⟩
  have hown := (h.lodged u hu).own p hp
  exact ⟨hown.taken, hown.bound⟩

/-- A place is a byte of a page of its task. -/
theorem placing_page (t va x : Nat) (hplace : s.placing t va = some x) :
    t ∈ s.live ∧ ∃ p ∈ (s.kernel.task t).mm.elfStackList ++ (s.kernel.task t).mm.elfImageList,
      p ∈ s.kernel.heldPages t ∧ p < 32 * s.kernel.mm.mapWords ∧
      x = s.kernel.mm.pageIdToVa p + va % pageSize ∧ va % pageSize < pageSize := by
  unfold TaskSystem.placing at hplace
  split_ifs at hplace with htl
  rcases userVa_page s.kernel t va x hplace with ⟨p, hp, -, hx⟩
  have hheld := housed_userPages s.kernel t p hp
  exact ⟨htl, p, hp, hheld, ((h.lodged t htl).own p hheld).bound, hx, Nat.mod_lt _ (by decide)⟩

/-- A change that leaves every task its pages. -/
theorem parted_kept (k' : Kernel) (running : Option Nat)
    (hkept : ∀ t ∈ s.live, KeptPages s.kernel k' t) (hbank : Mm.SameBank s.kernel.mm k'.mm)
    (hunlocked : (k'.mm.zone .normal).zoneMutex = 0) : Parted ⟨k', s.live, running⟩ := by
  refine ⟨Mm.plainMap_same s.kernel.mm k'.mm hbank h.plain, hunlocked, h.nodup,
    fun t ht => lodged_kept s.kernel k' t (hkept t ht) (h.lodged t ht), fun t ht u hu hne => ?_⟩
  show List.Disjoint (k'.heldPages t) (k'.heldPages u)
  rw [kept_held s.kernel k' t (hkept t ht), kept_held s.kernel k' u (hkept u hu)]
  exact h.apart t ht u hu hne

/-- What is done for a new task, whether it gets its memory or not. -/
theorem refused_beside (t userSp : Nat) (ret : Int) (k' : Kernel) (hbare : Bare s.kernel t)
    (hrun : (s.kernel.initMmStruct t userSp).allocMemoryForTask t = some (ret, k')) :
    Beside (otherPages s t) t s.kernel k' :=
  created_beside (otherPages s t) s.kernel k' t userSp ret h.plain h.unlocked hbare
    (other_used s h t) hrun

omit h in
/-- The other tasks keep what they have. -/
theorem others_kept (t : Nat) (k' : Kernel) (hbeside : Beside (otherPages s t) t s.kernel k') :
    ∀ u ∈ s.live, u ≠ t → Kernel.Kept s.kernel k' u ∧
      ∀ p ∈ s.kernel.heldPages u, SamePage s.kernel.mm s.kernel.ram k'.ram p := by
  intro u hu hne
  exact kept_beside (otherPages s t) t u s.kernel k' hne (fun p hp => ⟨u, hu, hne, hp⟩) hbeside

theorem refused_parted (t : Nat) (k' : Kernel) (running : Option Nat) (hnew : t ∉ s.live)
    (hbeside : Beside (otherPages s t) t s.kernel k') : Parted ⟨k', s.live, running⟩ :=
  parted_kept s h k' running (fun u hu => (others_kept s t k' hbeside u hu
    (ne_of_mem_of_not_mem hu hnew)).1.toKeptPages) hbeside.bank hbeside.unlocked

/-- A new task has pages of its own. -/
theorem created_parted (t userSp : Nat) (k' : Kernel) (running : Option Nat) (hnew : t ∉ s.live)
    (hbare : Bare s.kernel t)
    (hrun : (s.kernel.initMmStruct t userSp).allocMemoryForTask t = some (0, k')) :
    Parted ⟨k', t :: s.live, running⟩ := by
  have hbeside := refused_beside s h t userSp 0 k' hbare hrun
  have hold := refused_parted s h t k' running hnew hbeside
  have hlodged := lodged_created s.kernel k' t userSp h.plain hbare hrun h.unlocked
  have hapart : ∀ u ∈ s.live, List.Disjoint (k'.heldPages t) (k'.heldPages u) := by
    intro u hu p hp hp'
    have hut : u ≠ t := ne_of_mem_of_not_mem hu hnew
    rw [kept_held s.kernel k' u (others_kept s t k' hbeside u hu hut).1.toKeptPages] at hp'
    exact (hbeside.own p hp).apart ⟨u, hu, hut, hp'⟩
  refine ⟨hold.plain, hold.unlocked, List.nodup_cons.mpr ⟨hnew, h.nodup⟩, fun u hu => ?_,
    fun u hu v hv huv => ?_⟩
  · rcases List.mem_cons.mp hu with rfl | hu
    · exact hlodged
    · exact hold.lodged u hu
  · rcases List.mem_cons.mp hu with hut | hul
    · rcases List.mem_cons.mp hv with hvt | hvl
      · exact absurd (hut.trans hvt.symm) huv
      · exact hut ▸ hapart v hvl
    · rcases List.mem_cons.mp hv with hvt | hvl
      · exact hvt ▸ (hapart u hul).symm
      · exact hold.apart u hul v hvl huv

/-- The memory of a task can be released, and the others keep theirs. -/
theorem destroyed_beside (t : Nat) (ht : t ∈ s.live) :
    ∃ k', s.kernel.releaseTaskMemory t = some k' ∧ Beside (otherPages s t) t s.kernel k' :=
  releaseTaskMemory_beside (otherPages s t) t s.kernel s.kernel
    (lodged_beside (otherPages s t) s.kernel t h.plain h.unlocked (h.lodged t ht)
      (other_used s h t) (fun p hp => by
        rintro ⟨u, hu, hne, hp'⟩
        exact h.apart t ht u hu (Ne.symm hne) hp hp'))

/-- The others are a system of their own. -/
theorem destroyed_parted (t : Nat) (k' : Kernel) (running : Option Nat)
    (hbeside : Beside (otherPages s t) t s.kernel k') :
    Parted ⟨k', s.live.erase t, running⟩ := by
  have hmem : ∀ u, u ∈ s.live.erase t ↔ u ≠ t ∧ u ∈ s.live := fun u => h.nodup.mem_erase_iff
  have hothers : Parted ⟨s.kernel, s.live.erase t, running⟩ :=
    ⟨h.plain, h.unlocked, h.nodup.erase t, fun u hu => h.lodged u ((hmem u).mp hu).2,
      fun u hu v hv huv => h.apart u ((hmem u).mp hu).2 v ((hmem v).mp hv).2 huv⟩
  exact parted_kept _ hothers k' running (fun u hu => (others_kept s t k' hbeside u
    ((hmem u).mp hu).2 ((hmem u).mp hu).1).1.toKeptPages) hbeside.bank hbeside.unlocked

end Parted

section Separated

variable (s : TaskSystem) (h : Separated s)
include h

/-- A change that leaves every task what it has. -/
theorem separated_kept (k' : Kernel) (hkept : ∀ t ∈ s.live, Kernel.Kept s.kernel k' t)
    (hbank : Mm.SameBank s.kernel.mm k'.mm) (hunlocked : (k'.mm.zone .normal).zoneMutex = 0)
    (htlb : k'.tlb = s.kernel.tlb) :
    Separated ⟨k', s.live, s.running⟩ ∧
      (⟨k', s.live, s.running⟩ : TaskSystem).placing = s.placing := by
  refine ⟨⟨parted_kept s h.toParted k' s.running (fun t ht => (hkept t ht).toKeptPages) hbank
    hunlocked, fun t ht => ⟨(h.housed t ht).1,
      housed_kept s.kernel k' t (hkept t ht) (h.housed t ht).2⟩, ?_, fun t ht => ?_⟩, ?_⟩
  · show LowClear k'.tlb
    rw [htlb]
    exact h.low
  · rcases h.installed t ht with ⟨hlive, hinst⟩
    exact ⟨hlive, kept_installed s.kernel k' t (hkept t hlive).toKeptPages hinst htlb⟩
  · funext t va
    unfold TaskSystem.placing
    by_cases ht : t ∈ s.live
    · rw [if_pos ht, if_pos ht, kept_userVa s.kernel k' t (hkept t ht).toKeptPages]
    · rw [if_neg ht, if_neg ht]

/-- Memory changes in pages of user addresses only. -/
theorem kept_ram (ram : Ram)
    (hram : ∀ t ∈ s.live, ∀ p ∈ (s.kernel.task t).mm.stackList ++ (s.kernel.task t).mm.elfList,
      SamePage s.kernel.mm s.kernel.ram ram p) :
    ∀ t ∈ s.live, Kernel.Kept s.kernel { s.kernel with ram := ram } t := fun t ht =>
  ⟨⟨Mm.SameBank.refl _, SameTask.refl _,
    fun p hp => ((h.lodged t ht).own p hp).taken, fun _ _ => rfl⟩, hram t ht⟩

/-- A byte of a page of user addresses is in no table. -/
theorem table_apart (t u p q : Nat) (ht : t ∈ s.live) (hu : u ∈ s.live)
    (hp : p ∈ (s.kernel.task t).mm.elfStackList ++ (s.kernel.task t).mm.elfImageList)
    (hq : q ∈ (s.kernel.task u).mm.stackList ++ (s.kernel.task u).mm.elfList) :
    p ≠ q ∧ q < 32 * s.kernel.mm.mapWords ∧ p < 32 * s.kernel.mm.mapWords := by
  have hqheld := housed_lists s.kernel u q (tables_mem _ q hq)
  have hpheld := housed_userPages s.kernel t p hp
  refine ⟨?_, ((h.lodged u hu).own q hqheld).bound, ((h.lodged t ht).own p hpheld).bound⟩
  by_cases htu : t = u
  · subst htu
    exact (lodged_nodup s.kernel t (h.lodged t ht)).2 p hp q hq
  · exact fun hc => h.apart t ht u hu htu hpheld (hc ▸ hqheld)

/-- A byte of a place is in no table. -/
theorem place_table (t va x u q : Nat) (hplace : s.placing t va = some x) (hu : u ∈ s.live)
    (hq : q ∈ (s.kernel.task u).mm.stackList ++ (s.kernel.task u).mm.elfList) (o : Nat)
    (ho : o < pageSize) : s.kernel.mm.pageIdToVa q + o ≠ x := by
  rcases placing_page s h.toParted t va x hplace with ⟨ht, p, hp, -, -, rfl, hlt⟩
  rcases table_apart s h t u p q ht hu hp hq with ⟨hne, hqb, hpb⟩
  have hap := Mm.pageIdToVa_apart s.kernel.mm h.plain p q hpb hqb hne
  omega

/-- The memory of one task changes, and it stays otherwise. -/
theorem separated_write (k' : Kernel) (t : Nat) (content : Nat → Option (BitVec 8))
    (hseparated : Separated ⟨k', s.live, s.running⟩ ∧
      (⟨k', s.live, s.running⟩ : TaskSystem).placing = s.placing)
    (hin : ∀ v x, s.placing t v = some x → k'.ram x = (content v).getD (s.kernel.ram x))
    (hout : ∀ x, (∀ v, s.placing t v ≠ some x) → k'.ram x = s.kernel.ram x) :
    Separated ⟨k', s.live, s.running⟩ ∧
      (⟨k', s.live, s.running⟩ : TaskSystem).spaces = s.spaces.write t content := by
  refine ⟨hseparated.1, ?_⟩
  have hview := Placing.view_write s.placing (placing_apart s h.toParted) s.kernel.ram k'.ram t
    content hin hout
  unfold TaskSystem.spaces Spaces.write
  rw [hseparated.2]
  exact congrArg (fun memory => (⟨memory, s.running⟩ : Spaces Nat Nat (BitVec 8))) hview

/-- The program that runs stores a byte. -/
theorem stored_acts (va : Nat) (b : BitVec 8) (hrunning : s.running ≠ none)
    (hva : va < processUserStackBase) :
    Separated ⟨s.kernel.userStore va b, s.live, s.running⟩ ∧
      (⟨s.kernel.userStore va b, s.live, s.running⟩ : TaskSystem).spaces
        = s.spaces.act (.store va b) := by
  obtain ⟨t, ht⟩ := Option.ne_none_iff_exists'.mp hrunning
  rcases h.installed t ht with ⟨hlive, hinst⟩
  have hwalk := walk_user s.kernel t (h.housed t hlive).2 hinst h.low va hva
  have hplace : s.placing t va = (walk s.kernel.mm s.kernel.tlb s.kernel.ram va).map
      s.kernel.mm.kernelVa := by
    unfold TaskSystem.placing
    rw [if_pos hlive, hwalk]
  have hact : s.spaces.act (.store va b)
      = s.spaces.write t (fun v => if v = va then some b else none) := by
    unfold Spaces.act
    have hrun : s.spaces.running = some t := ht
    rw [hrun]
  rw [hact]
  unfold userStore
  cases hpa : walk s.kernel.mm s.kernel.tlb s.kernel.ram va with
  | none =>
      rw [hpa] at hplace
      -- Nothing is stored, and the task has no such address.
      refine separated_write s h s.kernel t _ ⟨h, rfl⟩ (fun v x hv => ?_) (fun _ _ => rfl)
      have hne : v ≠ va := by
        rintro rfl
        rw [hplace] at hv
        exact absurd hv (by simp only [Option.map_none, reduceCtorEq, not_false_eq_true])
      rw [if_neg hne]
      rfl
  | some pa =>
      rw [hpa, Option.map_some] at hplace
      have hkept := kept_ram s h (Function.update s.kernel.ram (s.kernel.mm.kernelVa pa) b)
        (fun u hu q hq o ho =>
          Function.update_of_ne (place_table s h t va _ u q hplace hu hq o ho) _ _)
      refine separated_write s h _ t _
        (separated_kept s h _ hkept (Mm.SameBank.refl _) h.unlocked rfl)
        (fun v x hv => ?_) (fun x hx => ?_)
      · show Function.update s.kernel.ram (s.kernel.mm.kernelVa pa) b x = _
        by_cases hne : v = va
        · subst hne
          rw [hplace, Option.some.injEq] at hv
          rw [if_pos rfl, hv, Function.update_self]
          rfl
        · rw [if_neg hne, Function.update_of_ne]
          · rfl
          · rintro rfl
            exact hne (placing_apart s h.toParted t v t va _ hv hplace).2
      · have hne : x ≠ s.kernel.mm.kernelVa pa := fun hc => hx va (hc ▸ hplace)
        exact Function.update_of_ne hne _ _

/-- The rest of the kernel does something. -/
theorem rested_acts (k' : Kernel) (haside : Aside s k') :
    Separated ⟨k', s.live, s.running⟩ ∧
      (⟨k', s.live, s.running⟩ : TaskSystem).spaces = s.spaces := by
  have hkept : ∀ t ∈ s.live, Kernel.Kept s.kernel k' t := by
    intro t ht
    refine ⟨⟨haside.bank, haside.tasks t ht, haside.bits t ht, haside.entries t ht⟩, fun p hp => ?_⟩
    exact haside.ram t ht p (housed_lists s.kernel t p (tables_mem _ p hp))
  have hseparated := separated_kept s h k' hkept haside.bank haside.unlocked haside.tlb
  refine ⟨hseparated.1, ?_⟩
  unfold TaskSystem.spaces
  rw [hseparated.2]
  refine congrArg (fun memory => (⟨memory, s.running⟩ : Spaces Nat Nat (BitVec 8))) ?_
  funext t va
  unfold Placing.view
  cases hplace : s.placing t va with
  | none => rfl
  | some x =>
      rcases placing_page s h.toParted t va x hplace with ⟨ht, p, -, hheld, -, rfl, hlt⟩
      rw [Option.map_some, Option.map_some, haside.ram t ht p hheld _ hlt]

/-- The memory of a new task is not there, and the others have theirs. -/
theorem refused_acts (t : Nat) (k' : Kernel) (hnew : t ∉ s.live)
    (hbeside : Beside (otherPages s t) t s.kernel k') :
    Separated ⟨k', s.live, s.running⟩ ∧
      (⟨k', s.live, s.running⟩ : TaskSystem).spaces = s.spaces := by
  refine rested_acts s h k' ?_
  have hF : ∀ u ∈ s.live, ∀ p ∈ s.kernel.heldPages u, otherPages s t p :=
    fun u hu p hp => ⟨u, hu, fun hc => hnew (hc ▸ hu), hp⟩
  exact ⟨hbeside.bank, hbeside.tlb, hbeside.unlocked,
    fun u hu => hbeside.tasks u (fun hc => hnew (hc ▸ hu)) ▸ SameTask.refl _,
    fun u hu p hp => hbeside.bits p (hF u hu p hp),
    fun u hu p hp => hbeside.entries p (hF u hu p hp),
    fun u hu p hp => hbeside.ram p (hF u hu p hp)⟩

/-- A new task has its memory. -/
theorem created_acts (t userSp : Nat) (k' : Kernel) (hnew : t ∉ s.live) (hne : t ≠ 0)
    (hbare : Bare s.kernel t)
    (hfault : ∃ stack elf, s.kernel.mm.tablePages = some (stack, elf) ∧
      FaultWords s.kernel.ram stack elf)
    (hrun : (s.kernel.initMmStruct t userSp).allocMemoryForTask t = some (0, k'))
    (hmapped : ∀ p ∈ (k'.task t).mm.pages, s.kernel.mm.PageMapped p) :
    Separated ⟨k', t :: s.live, s.running⟩ ∧
      (⟨k', t :: s.live, s.running⟩ : TaskSystem).spaces = s.spaces.act (.appear t
        ((⟨k', t :: s.live, s.running⟩ : TaskSystem).spaces.memory t)) := by
  rcases refused_acts s h t k' hnew (refused_beside s h.toParted t userSp 0 k' hbare hrun) with
    ⟨hold, hspaces⟩
  have hhoused := housed_created s.kernel k' t userSp h.plain hbare hrun h.unlocked hfault hmapped
  refine ⟨⟨created_parted s h.toParted t userSp k' s.running hnew hbare hrun, fun u hu => ?_,
    hold.low, fun u hu => ?_⟩, ?_⟩
  · rcases List.mem_cons.mp hu with rfl | hu
    · exact ⟨hne, hhoused⟩
    · exact hold.housed u hu
  · rcases hold.installed u hu with ⟨hlive, hinst⟩
    exact ⟨List.mem_cons_of_mem _ hlive, hinst⟩
  · have hmemory := congrArg Spaces.memory hspaces
    refine congrArg (fun memory => (⟨memory, s.running⟩ : Spaces Nat Nat (BitVec 8))) ?_
    funext u
    by_cases hu : u = t
    · rw [hu, Function.update_self]
      rfl
    · rw [Function.update_of_ne hu, ← hmemory]
      funext va
      show ((if u ∈ t :: s.live then _ else none : Option Nat)).map _
        = ((if u ∈ s.live then _ else none : Option Nat)).map _
      rw [if_congr (by rw [List.mem_cons, or_iff_right hu]) rfl rfl]

/-- The memory of a task is released. -/
theorem destroyed_acts (t : Nat) (k' : Kernel) (ht : t ∈ s.live)
    (hrun : s.kernel.releaseTaskMemory t = some k') :
    Separated ⟨k', s.live.erase t, if s.running = some t then none else s.running⟩ ∧
      (⟨k', s.live.erase t, if s.running = some t then none else s.running⟩ : TaskSystem).spaces
        = s.spaces.act (.vanish t) := by
  rcases destroyed_beside s h.toParted t ht with ⟨k₁, hrun₁, hbeside⟩
  rw [hrun, Option.some.injEq] at hrun₁
  subst hrun₁
  have hmem : ∀ u, u ∈ s.live.erase t ↔ u ≠ t ∧ u ∈ s.live := fun u => h.nodup.mem_erase_iff
  have hkept : ∀ u ∈ s.live.erase t, Kernel.Kept s.kernel k' u ∧
      ∀ p ∈ s.kernel.heldPages u, SamePage s.kernel.mm s.kernel.ram k'.ram p := fun u hu =>
    others_kept s t k' hbeside u ((hmem u).mp hu).2 ((hmem u).mp hu).1
  refine ⟨⟨destroyed_parted s h.toParted t k' _ hbeside, fun u hu => ?_, ?_, fun u hu => ?_⟩, ?_⟩
  · have hlive := ((hmem u).mp hu).2
    exact ⟨(h.housed u hlive).1, housed_kept s.kernel k' u (hkept u hu).1 (h.housed u hlive).2⟩
  · show LowClear k'.tlb
    rw [hbeside.tlb]
    exact h.low
  · have hrunning : s.running = some u ∧ u ≠ t := by
      have hu' : (if s.running = some t then none else s.running) = some u := hu
      split_ifs at hu' with hself
      exact ⟨hu', fun hc => hself (hc ▸ hu')⟩
    rcases h.installed u hrunning.1 with ⟨hlive, hinst⟩
    have hin := (hmem u).mpr ⟨hrunning.2, hlive⟩
    exact ⟨hin, kept_installed s.kernel k' u (hkept u hin).1.toKeptPages hinst hbeside.tlb⟩
  · refine congrArg (fun memory => (⟨memory, if s.running = some t then none else s.running⟩ :
      Spaces Nat Nat (BitVec 8))) ?_
    funext u va
    by_cases hut : u = t
    · subst hut
      rw [Function.update_self]
      show ((if u ∈ s.live.erase u then _ else none : Option Nat)).map _ = none
      rw [if_neg (fun hc => ((hmem u).mp hc).1 rfl)]
      rfl
    · rw [Function.update_of_ne hut]
      show ((if u ∈ s.live.erase t then _ else none : Option Nat)).map _
        = ((if u ∈ s.live then _ else none : Option Nat)).map _
      by_cases hlive : u ∈ s.live
      · have hin := (hmem u).mpr ⟨hut, hlive⟩
        rw [if_pos hin, if_pos hlive, kept_userVa s.kernel k' u (hkept u hin).1.toKeptPages]
        cases hplace : userVa s.kernel.mm (s.kernel.task u).mm va with
        | none => rfl
        | some x =>
            have hplace' : s.placing u va = some x := by
              unfold TaskSystem.placing
              rw [if_pos hlive, hplace]
            rcases placing_page s h.toParted u va x hplace' with ⟨-, p, -, hheld, -, rfl, hlt⟩
            rw [Option.map_some, Option.map_some, (hkept u hin).2 p hheld _ hlt]
      · rw [if_neg (fun hc => hlive ((hmem u).mp hc).2), if_neg hlive]
        rfl

/-- The tables of another task are installed. -/
theorem switched_acts (cur next : Nat) (hcur : cur ≠ 0) (hnext : next ∈ s.live) :
    Separated ⟨(s.kernel.switchTask cur next).2, s.live, some next⟩ ∧
      (⟨(s.kernel.switchTask cur next).2, s.live, some next⟩ : TaskSystem).spaces
        = s.spaces.act (.enter (some next)) := by
  rcases h.housed next hnext with ⟨hne, hhoused⟩
  rcases hhoused.tables with ⟨qs, qe, htab⟩
  have hbase : sub32 processUserStackBase (4 * size1M) = 0x7fc00000 := by decide
  have hfirst : 0x7fc00000 / size1M = 2044 := by decide
  have hsecond : processUserBase / size1M = 4 := by decide
  have hstack := fun tlb e => buildTlbTableEntry_user tlb 0x7fc00000
    (s.kernel.mm.pagePa qs) e (by decide)
  have helf := fun tlb e => buildTlbTableEntry_user tlb processUserBase
    (s.kernel.mm.pagePa qe) e (by decide)
  simp only [hfirst] at hstack
  simp only [hsecond] at helf
  -- The entries 2044 to 2047 are the stack, the entries 4 to 7 the image.
  obtain ⟨tlb, htlb⟩ : ∃ tlb, tlb = (buildTlbTableEntry (buildTlbTableEntry s.kernel.tlb 0x7fc00000
    (s.kernel.mm.pagePa qs) (4 * size1M) tlbAttrUserMemory).1 processUserBase
    (s.kernel.mm.pagePa qe) (4 * size1M) tlbAttrUserMemory).1 := ⟨_, rfl⟩
  have hswitch : (s.kernel.switchTask cur next).2 = { s.kernel with tlb := tlb } := by
    rw [switchTask_user s.kernel cur next hcur hne hhoused.kind.2, htab.lists.1, htab.lists.2,
      installElf_one, installStack_one, htab.addresses.1, htab.addresses.2, hbase, htlb]
  have hkept : ∀ t ∈ s.live, Kernel.Kept s.kernel { s.kernel with tlb := tlb } t := fun t ht =>
    ⟨⟨Mm.SameBank.refl _, SameTask.refl _, fun p hp => ((h.lodged t ht).own p hp).taken,
      fun _ _ => rfl⟩, fun _ _ _ _ => rfl⟩
  rw [hswitch]
  refine ⟨⟨parted_kept s h.toParted _ (some next) (fun t ht => (hkept t ht).toKeptPages)
    (Mm.SameBank.refl _) h.unlocked, fun t ht => ⟨(h.housed t ht).1,
      housed_kept s.kernel _ t (hkept t ht) (h.housed t ht).2⟩, fun e he hout hlow => ?_,
    fun t ht => ?_⟩, rfl⟩
  · show tlb e = 0
    rw [htlb, helf, if_neg (by omega), hstack, if_neg (by omega)]
    exact h.low e he hout hlow
  · have hself : t = next := (Option.some.inj ht).symm
    subst hself
    refine ⟨hnext, fun q hq e he he' => ?_, fun q hq e he he' => ?_⟩
    · have hq' : q ∈ (s.kernel.task t).mm.stackList := hq
      rw [htab.lists.1] at hq'
      rw [List.mem_singleton.mp hq']
      show tlb e = _
      rw [htlb, helf, if_neg (by omega), hstack, if_pos ⟨he, he'⟩]
      rfl
    · have hq' : q ∈ (s.kernel.task t).mm.elfList := hq
      rw [htab.lists.2] at hq'
      rw [List.mem_singleton.mp hq']
      show tlb e = _
      rw [htlb, helf, if_pos ⟨he, he'⟩]
      rfl

/-- A kernel task runs, and no program does. -/
theorem parked_acts (cur next : Nat) (hcur : cur ≠ 0) (hne : next ≠ 0)
    (hkind : (s.kernel.task next).flag &&& processTypeKernel ≠ 0) :
    Separated ⟨(s.kernel.switchTask cur next).2, s.live, none⟩ ∧
      (⟨(s.kernel.switchTask cur next).2, s.live, none⟩ : TaskSystem).spaces
        = s.spaces.act (.enter none) := by
  rw [switchTask_parked s.kernel cur next hcur hne hkind]
  refine ⟨⟨⟨h.plain, h.unlocked, h.nodup, h.lodged, h.apart⟩, h.housed, h.low, fun t ht => ?_⟩, rfl⟩
  have hnone : (none : Option Nat) = some t := ht
  exact absurd hnone (by simp only [reduceCtorEq, not_false_eq_true])

end Separated

end Mirros
