import Mirros.Theory.Spaces.Copies

/-!
# Every Program Has Its Own Memory

Tasks are made or refused, released, switched to, copied and loaded in any order, and the
program that runs stores where it likes. What the programs see is what private memories would
show them (`private_memories`), so a program reads back what it wrote, no matter who ran
meanwhile (`waiting_memory`).

Two things are asked of every new task. The pages that become its tables hold no descriptors,
for the kernel does not clear them, and the pages it gets are mapped where `init_pages` says,
as those inside the sections are after boot. Copies stay on the lists of both tasks, and what
is loaded fits (`Loads`).

## Main definitions

* `TaskRun`: Any number of steps, and the acts behind them.
* `Booted`: The state before the first user task.
* `TaskEvent.About`: An event that is about a task.

## Theorems

* `step_acts`, `run_acts`: Steps and runs are acts on private memories.
* `aside_get`, `aside_put`, `aside_poke`: Other users of the page allocator.
* `private_memories`, `waiting_memory`: What programs see.
-/

namespace Mirros

open Kernel

theorem actOf_created (s : TaskSystem) (k' : Kernel) (t userSp : Nat) :
    actOf s ⟨k', t :: s.live, s.running⟩ (.create t userSp)
      = .appear t ((⟨k', t :: s.live, s.running⟩ : TaskSystem).spaces.memory t) :=
  if_pos List.mem_cons_self

theorem actOf_refused (s : TaskSystem) (k' : Kernel) (t userSp : Nat) (hnew : t ∉ s.live) :
    actOf s ⟨k', s.live, s.running⟩ (.create t userSp) = .idle :=
  if_neg hnew

/-- A step keeps the system separated, and is an act on the private memories. -/
theorem step_acts (s s' : TaskSystem) (e : TaskEvent) (h : Separated s) (hstep : Step s e s') :
    Separated s' ∧ s'.spaces = s.spaces.act (actOf s s' e) := by
  cases hstep with
  | created t userSp k' hnew hne hbare hfault hrun hmapped =>
      rw [actOf_created]
      exact created_acts s h t userSp k' hnew hne hbare hfault hrun hmapped
  | refused t userSp ret k' hnew hbare hret hrun =>
      rw [actOf_refused s k' t userSp hnew]
      exact refused_acts s h t k' hnew (refused_beside s h.toParted t userSp ret k' hbare hrun)
  | destroyed t k' ht hrun => exact destroyed_acts s h t k' ht hrun
  | switched cur next hcur hnext => exact switched_acts s h cur next hcur hnext
  | parked cur next hcur hne hkind => exact parked_acts s h cur next hcur hne hkind
  | copied old new k' hold hnew hne hrun => exact copied_acts s h old new k' hold hnew hne hrun
  | loaded t file file' sec k' ht hloads hrun =>
      exact loaded_acts s h t file file' sec k' ht hloads hrun
  | stored va b hrunning hva => exact stored_acts s h va b hrunning hva
  | rested k' haside => exact rested_acts s h k' haside

/-- Any number of steps, with the acts behind them. -/
inductive TaskRun : TaskSystem → List TaskEvent → List (SpaceAct Nat Nat (BitVec 8)) →
    TaskSystem → Prop where
  | nil (s : TaskSystem) : TaskRun s [] [] s
  | cons (s s₁ s' : TaskSystem) (e : TaskEvent) (es : List TaskEvent)
      (as : List (SpaceAct Nat Nat (BitVec 8))) (hstep : Step s e s₁)
      (hrest : TaskRun s₁ es as s') : TaskRun s (e :: es) (actOf s s₁ e :: as) s'

theorem run_acts (s s' : TaskSystem) (es : List TaskEvent)
    (as : List (SpaceAct Nat Nat (BitVec 8))) (h : Separated s) (hrun : TaskRun s es as s') :
    Separated s' ∧ s'.spaces = s.spaces.acts as := by
  induction hrun with
  | nil s => exact ⟨h, rfl⟩
  | cons s s₁ s' e es as hstep hrest ih =>
      rcases step_acts s s₁ e h hstep with ⟨h₁, hact⟩
      rcases ih h₁ with ⟨h', hacts⟩
      refine ⟨h', ?_⟩
      rw [hacts, hact]
      rfl

/-- The state before the first user task: memory is laid out, the zone is not locked, and the
    user half of the level-one table is clear. -/
structure Booted (s : TaskSystem) : Prop where
  plain : Mm.PlainMap s.kernel.mm
  unlocked : (s.kernel.mm.zone .normal).zoneMutex = 0
  none : s.live = [] ∧ s.running = none
  low : ∀ e < 2048, s.kernel.tlb e = 0

theorem booted_separated (s : TaskSystem) (h : Booted s) : Separated s := by
  refine ⟨⟨h.plain, h.unlocked, h.none.1 ▸ List.nodup_nil, fun t ht => ?_, fun t ht => ?_⟩,
    fun t ht => ?_, fun e he _ _ => h.low e he, fun t ht => ?_⟩
  · exact absurd (h.none.1 ▸ ht) List.not_mem_nil
  · exact absurd (h.none.1 ▸ ht) List.not_mem_nil
  · exact absurd (h.none.1 ▸ ht) List.not_mem_nil
  · rw [h.none.2] at ht
    exact absurd ht (by simp only [reduceCtorEq, not_false_eq_true])

/-- What the program that runs loads from an address is what its private memory has there. -/
theorem userLoad_spaces (s : TaskSystem) (h : Separated s) (t va : Nat) (ht : s.running = some t)
    (hva : va < processUserStackBase) : s.kernel.userLoad va = s.spaces.memory t va := by
  rcases h.installed t ht with ⟨hlive, hinst⟩
  have hwalk := walk_user s.kernel t (h.housed t hlive).2 hinst h.low va hva
  show _ = ((if t ∈ s.live then userVa s.kernel.mm (s.kernel.task t).mm va else none)).map _
  rw [if_pos hlive, ← hwalk, Option.map_map]
  rfl

section Others

variable (s : TaskSystem) (h : Separated s)
include h

/-- The rest of the kernel may take single pages from any zone. -/
theorem aside_get (flag addr : Nat) (mm' : Mm)
    (hget : s.kernel.mm.getFreePages 1 flag = some (addr, mm')) :
    Aside s (s.kernel.setMm mm') := by
  have hsame : ∀ t ∈ s.live, ∀ p ∈ s.kernel.heldPages t, used s.kernel.mm.pageMap p = true :=
    fun t ht p hp => ((h.lodged t ht).own p hp).taken
  rcases Mm.getFreePages_got s.kernel.mm mm' flag addr h.plain.words hget with
    ⟨-, rfl⟩ | ⟨q, -, hgot⟩
  · exact ⟨Mm.SameBank.refl _, rfl, h.unlocked, fun _ _ => SameTask.refl _, hsame,
      fun _ _ _ _ => rfl, fun _ _ _ _ _ _ => rfl⟩
  · have hunlocked : (mm'.zone .normal).zoneMutex = 0 := by
      rcases Mm.getFreePages_cases s.kernel.mm mm' 1 flag addr hget with
        ⟨-, rfl⟩ | ⟨z, index, -, -, -, -, -, htook⟩
      · exact h.unlocked
      · rw [htook.zones, Function.update_apply]
        split_ifs with hz
        · rw [← hz]
          exact h.unlocked
        · exact h.unlocked
    refine ⟨hgot.bank, rfl, hunlocked, fun _ _ => SameTask.refl _, fun t ht p hp => ?_,
      fun t ht p hp => ?_, fun _ _ _ _ _ _ => rfl⟩
    · show used mm'.pageMap p = true
      rw [hgot.bits, hsame t ht p hp, ite_self]
    · exact hgot.others p (ne_of_used _ p q (hsame t ht p hp) hgot.clear)

/-- It may give back single pages that no task has. -/
theorem aside_put (q : Nat) (mm' : Mm) (hq : q < 32 * s.kernel.mm.mapWords)
    (hcount : (s.kernel.mm.pageTable q).count = 1)
    (hother : ∀ t ∈ s.live, q ∉ s.kernel.heldPages t)
    (hput : s.kernel.mm.freePages (s.kernel.mm.pageIdToVa q) = some mm') :
    Aside s (s.kernel.setMm mm') := by
  have hsame : ∀ t ∈ s.live, ∀ p ∈ s.kernel.heldPages t, used s.kernel.mm.pageMap p = true :=
    fun t ht p hp => ((h.lodged t ht).own p hp).taken
  rcases Mm.freePages_cases s.kernel.mm mm' _ hput with rfl | ⟨z, -, -, -, hgave⟩
  · exact ⟨Mm.SameBank.refl _, rfl, h.unlocked, fun _ _ => SameTask.refl _, hsame,
      fun _ _ _ _ => rfl, fun _ _ _ _ _ _ => rfl⟩
  · rw [Mm.vaToPageId_page s.kernel.mm h.plain q hq, hcount] at hgave
    have hbank : Mm.SameBank s.kernel.mm mm' :=
      ⟨hgave.start, hgave.words, Mm.sections_update s.kernel.mm mm' z _ hgave.zones rfl rfl⟩
    refine ⟨hbank, rfl, ?_, fun _ _ => SameTask.refl _, fun t ht p hp => ?_, fun t ht p hp => ?_,
      fun _ _ _ _ _ _ => rfl⟩
    · show (mm'.zone .normal).zoneMutex = 0
      rw [hgave.zones, Function.update_apply]
      by_cases hz : ZoneId.normal = z
      · rw [if_pos hz]
        exact hz ▸ h.unlocked
      · rw [if_neg hz]
        exact h.unlocked
    · show used mm'.pageMap p = true
      have hne : p ≠ q := fun hc => hother t ht (hc ▸ hp)
      rw [hgave.bits, if_neg (by omega), hsame t ht p hp]
    · show mm'.pageTable p = _
      rw [hgave.table]

/-- It may write into memory that no task has. -/
theorem aside_poke (x : Nat) (b : BitVec 8)
    (hother : ∀ t ∈ s.live, ∀ p ∈ s.kernel.heldPages t,
      ¬(s.kernel.mm.pageIdToVa p ≤ x ∧ x < s.kernel.mm.pageIdToVa p + pageSize)) :
    Aside s { s.kernel with ram := Function.update s.kernel.ram x b } := by
  refine ⟨Mm.SameBank.refl _, rfl, h.unlocked, fun _ _ => SameTask.refl _,
    fun t ht p hp => ((h.lodged t ht).own p hp).taken, fun _ _ _ _ => rfl,
    fun t ht p hp o ho => ?_⟩
  have hne : s.kernel.mm.pageIdToVa p + o ≠ x := by
    intro hc
    exact hother t ht p hp (by omega)
  exact Function.update_of_ne hne _ _

end Others

/-- In every run from boot, with tasks made, refused, released, switched to, copied and loaded
    in any order and programs that store anywhere in the user half of the addresses, the
    memories of the programs are private memories on which the steps have acted, the program
    that runs loads from each address what its own has there, and any task can be released. -/
theorem private_memories (s s' : TaskSystem) (es : List TaskEvent)
    (as : List (SpaceAct Nat Nat (BitVec 8))) (hboot : Booted s) (hrun : TaskRun s es as s') :
    s'.spaces = s.spaces.acts as ∧
      (∀ t va, s'.running = some t → va < processUserStackBase →
        s'.kernel.userLoad va = (s.spaces.acts as).memory t va) ∧
      ∀ t ∈ s'.live, ∃ k', s'.kernel.releaseTaskMemory t = some k' := by
  rcases run_acts s s' es as (booted_separated s hboot) hrun with ⟨h, hacts⟩
  refine ⟨hacts, fun t va ht hva => ?_, fun t ht => ?_⟩
  · rw [← hacts]
    exact userLoad_spaces s' h t va ht hva
  · rcases destroyed_beside s' h.toParted t ht with ⟨k', hrelease, -⟩
    exact ⟨k', hrelease⟩

/-- The board after boot, with the structure of a task that has no memory yet. -/
def newUserSystem : TaskSystem := ⟨newUserKernel (fun _ => 0#8), [], none⟩

theorem newUserSystem_booted : Booted newUserSystem := by
  refine ⟨newUserKernel_plain _, ?_, ⟨rfl, rfl⟩, fun e he => ?_⟩
  · decide +kernel
  · show (newUserKernel (fun _ => 0#8)).tlb e = 0
    rw [newUserKernel_tlb, clearUserTlb_entry, if_pos he]

theorem newUserSystem_bare : Bare newUserSystem.kernel 0x80140000 := by
  refine ⟨⟨?_, ?_⟩, ?_⟩
  · show ((newUserKernel (fun _ => 0#8)).task 0x80140000).flag &&& processTypeUser ≠ 0
    rw [newUserKernel_flag]
    decide
  · show ((newUserKernel (fun _ => 0#8)).task 0x80140000).flag &&& processTypeKernel = 0
    rw [newUserKernel_flag]
    decide
  · show ((newUserKernel (fun _ => 0#8)).task 0x80140000).stackBase = 0
    unfold newUserKernel Kernel.setTask
    simp only [Function.update_self]

/-- The task gets its memory, and nothing happens to the tasks of the kernel. -/
theorem newUserSystem_created :
    ∃ k, Step newUserSystem (.create 0x80140000 0) ⟨k, [0x80140000], none⟩ ∧
      Beside (fun _ => False) 0x80140000 newUserSystem.kernel k := by
  rcases newUserKernel_alloc 0#8 (Or.inl rfl) with ⟨k, halloc, hmapped⟩
  have hpages : (Slab.slabInit Mm.userMm (fun _ => ⟨0, 0⟩)).mm.tablePages
      = some (0x80141000, 0x80142000) := by
    decide +kernel
  exact ⟨k, Step.created newUserSystem 0x80140000 0 k List.not_mem_nil (by decide)
      newUserSystem_bare ⟨_, _, hpages, fun w _ => rfl, fun w _ _ => rfl⟩ halloc hmapped,
    created_beside (fun _ => False) _ k 0x80140000 0 0 (newUserKernel_plain _)
      newUserSystem_booted.unlocked newUserSystem_bare (fun i hi => hi.elim) halloc⟩

/-- A task that has its memory has the address of its second page. -/
theorem userVa_second (s : TaskSystem) (t : Nat) (h : Lodged s.kernel t) (ht : t ∈ s.live) :
    ∃ b, s.spaces.memory t 0x401000 = some b := by
  have hlt : 1 < (s.kernel.task t).mm.elfImageList.length := by
    rw [h.counts.2]
    decide
  have hindex : 0x401000 / pageSize - 0x400 = 1 := by decide
  have hva : userVa s.kernel.mm (s.kernel.task t).mm 0x401000
      = some (s.kernel.mm.pageIdToVa ((s.kernel.task t).mm.elfImageList[1])
        + 0x401000 % pageSize) := by
    rw [userVa_slot]
    unfold slot
    rw [if_pos (by decide), hindex, List.getElem?_eq_getElem hlt]
    rfl
  refine ⟨s.kernel.ram (s.kernel.mm.pageIdToVa ((s.kernel.task t).mm.elfImageList[1])
    + 0x401000 % pageSize), ?_⟩
  show (s.placing t 0x401000).map s.kernel.ram = _
  unfold TaskSystem.placing
  rw [if_pos ht, hva]
  rfl

theorem private_memories_board :
    ∃ s' as, TaskRun newUserSystem [.create 0x80140000 0, .switch 0x80000900 0x80140000,
        .store 0x401000 5#8] as s' ∧ s'.kernel.userLoad 0x401000 = some 5#8 := by
  rcases newUserSystem_created with ⟨k, hcreated, -⟩
  have hseparated := (step_acts _ _ _ (booted_separated _ newUserSystem_booted) hcreated).1
  rcases userVa_second _ 0x80140000 (hseparated.lodged 0x80140000 List.mem_cons_self)
    List.mem_cons_self with ⟨b, hb⟩
  have hswitched := Step.switched ⟨k, [0x80140000], none⟩ 0x80000900 0x80140000 (by decide)
    List.mem_cons_self
  have hstored := Step.stored ⟨(k.switchTask 0x80000900 0x80140000).2, [0x80140000],
    some 0x80140000⟩ 0x401000 5#8 (Option.some_ne_none _) (by decide)
  have hrun := TaskRun.cons _ _ _ _ _ _ hcreated (TaskRun.cons _ _ _ _ _ _ hswitched
    (TaskRun.cons _ _ _ _ _ _ hstored (TaskRun.nil _)))
  refine ⟨_, _, hrun, ?_⟩
  have hact : actOf newUserSystem ⟨k, [0x80140000], none⟩ (.create 0x80140000 0)
      = .appear 0x80140000 ((⟨k, [0x80140000], none⟩ : TaskSystem).spaces.memory 0x80140000) :=
    actOf_created newUserSystem k 0x80140000 0
  rw [(private_memories _ _ _ _ newUserSystem_booted hrun).2.1 0x80140000 0x401000 rfl (by decide),
    hact]
  show (((newUserSystem.spaces.act (.appear 0x80140000 _)).act (.enter (some 0x80140000))).act
    (.store 0x401000 5#8)).memory 0x80140000 0x401000 = some 5#8
  refine store_read 0x80140000 _ 0x401000 5#8 b rfl ?_
  show Function.update newUserSystem.spaces.memory 0x80140000 _ 0x80140000 0x401000 = some b
  rw [Function.update_self]
  exact hb

/-- An event that is about the memory of a task, or lets it run. -/
def TaskEvent.About (t : Nat) : TaskEvent → Prop
  | .create u _ => u = t
  | .destroy u => u = t
  | .switch _ next => next = t
  | .copy _ new => new = t
  | .load u _ _ => u = t
  | .store _ _ => False
  | .rest => False

theorem step_spares (s s' : TaskSystem) (e : TaskEvent) (t : Nat) (hstep : Step s e s')
    (habout : ¬e.About t) : (actOf s s' e).Spares t := by
  cases hstep with
  | created u userSp k' hnew hne hbare hfault hrun hmapped =>
      rw [actOf_created]
      exact habout
  | refused u userSp ret k' hnew hbare hret hrun =>
      rw [actOf_refused s k' u userSp hnew]
      exact trivial
  | destroyed u k' hu hrun => exact habout
  | switched cur next hcur hnext => exact fun hc => habout (Option.some.inj hc)
  | parked cur next hcur hne hkind =>
      exact fun hc => absurd hc (by simp only [reduceCtorEq, not_false_eq_true])
  | copied old new k' hold hnew hne hrun => exact habout
  | loaded u file file' sec k' hu hloads hrun => exact habout
  | stored va b hrunning hva => exact trivial
  | rested k' haside => exact trivial

theorem run_spares (s s' : TaskSystem) (es : List TaskEvent)
    (as : List (SpaceAct Nat Nat (BitVec 8))) (t : Nat) (hrun : TaskRun s es as s')
    (habout : ∀ e ∈ es, ¬e.About t) : ∀ a ∈ as, a.Spares t := by
  induction hrun with
  | nil s => exact fun a ha => absurd ha List.not_mem_nil
  | cons s s₁ s' e es as hstep hrest ih =>
      intro a ha
      rcases List.mem_cons.mp ha with rfl | ha
      · exact step_spares s s₁ e t hstep (habout e List.mem_cons_self)
      · exact ih (fun e he => habout e (List.mem_cons_of_mem _ he)) a ha

/-- While a task waits, whatever the others do and whoever is made or released, no byte of its
    memory changes. -/
theorem waiting_memory (s₀ s s' : TaskSystem) (es₀ es : List TaskEvent)
    (as₀ as : List (SpaceAct Nat Nat (BitVec 8))) (t : Nat) (hboot : Booted s₀)
    (hrun₀ : TaskRun s₀ es₀ as₀ s) (hrun : TaskRun s es as s') (hwaits : s.running ≠ some t)
    (habout : ∀ e ∈ es, ¬e.About t) (ht : t ∈ s.live) (va : Nat) :
    t ∈ s'.live ∧ userByte s'.kernel.mm (s'.kernel.task t).mm s'.kernel.ram va
      = userByte s.kernel.mm (s.kernel.task t).mm s.kernel.ram va := by
  have h := (run_acts s₀ s es₀ as₀ (booted_separated s₀ hboot) hrun₀).1
  have hspares := run_spares s s' es as t hrun habout
  rcases run_acts s s' es as h hrun with ⟨h', hacts⟩
  have hlive : t ∈ s'.live := by
    clear hspares hacts h' hwaits h hrun₀
    induction hrun with
    | nil s => exact ht
    | cons s s₁ s' e es as hstep hrest ih =>
        refine ih (fun e he => habout e (List.mem_cons_of_mem _ he)) ?_
        have hfirst := habout e List.mem_cons_self
        cases hstep with
        | created => exact List.mem_cons_of_mem _ ht
        | destroyed u k' hu hrun => exact (List.mem_erase_of_ne (Ne.symm hfirst)).mpr ht
        | _ => exact ht
  have hmemory := congrFun ((congrFun (congrArg Spaces.memory hacts) t).trans
    (acts_spares t as s.spaces hspares hwaits)) va
  refine ⟨hlive, ?_⟩
  have hmemory' : ((if t ∈ s'.live then userVa s'.kernel.mm (s'.kernel.task t).mm va
      else none : Option Nat)).map s'.kernel.ram
      = ((if t ∈ s.live then userVa s.kernel.mm (s.kernel.task t).mm va
      else none : Option Nat)).map s.kernel.ram := hmemory
  rw [if_pos hlive, if_pos ht] at hmemory'
  exact hmemory'

theorem waiting_memory_board :
    ∃ s s' es as, TaskRun s es as s' ∧ es = [.switch 0x80140000 0x80000800, .rest] ∧
      0x80140000 ∈ s'.live ∧ userByte s'.kernel.mm (s'.kernel.task 0x80140000).mm s'.kernel.ram
        0x401000 = userByte s.kernel.mm (s.kernel.task 0x80140000).mm s.kernel.ram 0x401000 := by
  rcases newUserSystem_created with ⟨k, hcreated, hbeside⟩
  have hkernel : (k.task 0x80000800).flag &&& processTypeKernel ≠ 0 := by
    rw [hbeside.tasks 0x80000800 (by decide)]
    have hother : (newUserKernel (fun _ => 0#8)).task 0x80000800
        = (userKernel (fun _ => 0#8)).task 0x80000800 := by
      have hne : (0x80000800 : Nat) ≠ 0x80140000 := by decide
      exact Function.update_of_ne hne { userTask with stackBase := 0, stackOrigin := 0 }
        (userKernel (fun _ => 0#8)).task
    show ((newUserKernel (fun _ => 0#8)).task 0x80000800).flag &&& processTypeKernel ≠ 0
    rw [hother]
    decide
  have hseparated := (step_acts _ _ _ (booted_separated _ newUserSystem_booted) hcreated).1
  have hparked := Step.parked ⟨k, [0x80140000], none⟩ 0x80140000 0x80000800 (by decide) (by decide)
    hkernel
  rw [switchTask_parked k _ _ (by decide) (by decide) hkernel] at hparked
  have hrested := Step.rested _ _ (aside_poke _ hseparated 0 1#8 (fun t ht p hp hin => ?_))
  · have hrun := TaskRun.cons _ _ _ _ _ _ hparked
      (TaskRun.cons _ _ _ _ _ _ hrested (TaskRun.nil _))
    refine ⟨_, _, _, _, hrun, rfl, waiting_memory _ _ _ _ _ _ _ 0x80140000 newUserSystem_booted
      (TaskRun.cons _ _ _ _ _ _ hcreated (TaskRun.nil _)) hrun (Option.some_ne_none _).symm
      (fun e he => ?_) List.mem_cons_self 0x401000⟩
    rcases List.mem_cons.mp he with rfl | he
    · exact fun hc => absurd (show 0x80000800 = 0x80140000 from hc) (by decide)
    · rw [List.mem_singleton.mp he]
      exact id
  · -- The memory of the board is at higher addresses.
    have hwords : k.mm.mapWords = Mm.userMm.mapWords :=
      hbeside.bank.words.trans (newUserKernel_bank _).words
    have hstart : k.mm.kernelStart = Mm.userMm.kernelStart :=
      hbeside.bank.start.trans (newUserKernel_bank _).start
    have hbound := ((hseparated.lodged t ht).own p hp).bound
    have hplace : 0 < k.mm.pageIdToVa p := by
      have hstart₀ : Mm.userMm.kernelStart = 0x80000000 := by decide +kernel
      have hwords₀ : Mm.userMm.mapWords = 41 := by decide +kernel
      rw [hwords, hwords₀] at hbound
      unfold Mm.pageIdToVa add32 pageSize u32Size
      rw [hstart, hstart₀]
      omega
    exact absurd hin.1 (Nat.not_le.mpr hplace)

end Mirros
