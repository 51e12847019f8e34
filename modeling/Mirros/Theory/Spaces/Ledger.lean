import Mirros.Theory.Spaces.Books
import Mirros.Theory.Spaces.Runs

/-!
# Where the Pages Go

Over whole runs: a page that was not in use at boot and is in use now belongs to a task that
lives, or is lost, and the counter of the NORMAL zone has gone down by as many. A task that
lives costs 263 pages, and all of them come back when it is released. What never comes back
are the two tables of each creation that got this far and then found fewer than 260 pages
(`pages_conserved`).

What the tables of a task say does not matter for the books, so nothing is asked of the
memory a new task gets (`PageStep`). What matters is that nobody writes over what the kernel
keeps in its own pages, and that nobody else takes pages from the zone.

## Main definitions

* `PageStep`: What happens to the tasks, as far as their pages go.
* `stranded`: The pages that an event strands.
* `PageRun`: Any number of steps, with the pages stranded on the way.

## Theorems

* `step_ledger`, `run_ledger`: The account over steps and runs.
* `pages_conserved`: Where the pages are.
-/

namespace Mirros

open Kernel

/-- One step of the system, as far as pages go. Who runs is not on the books, and the tables
    of a task may hold anything. -/
inductive PageStep : TaskSystem → TaskEvent → TaskSystem → Prop where
  | created (s : TaskSystem) (t userSp : Nat) (k' : Kernel) (hnew : t ∉ s.live)
      (hbare : Bare s.kernel t)
      (hrun : (s.kernel.initMmStruct t userSp).allocMemoryForTask t = some (0, k')) :
      PageStep s (.create t userSp) ⟨k', t :: s.live, s.running⟩
  | refused (s : TaskSystem) (t userSp : Nat) (ret : Int) (k' : Kernel) (hnew : t ∉ s.live)
      (hbare : Bare s.kernel t) (hret : ret ≠ 0)
      (hrun : (s.kernel.initMmStruct t userSp).allocMemoryForTask t = some (ret, k')) :
      PageStep s (.create t userSp) ⟨k', s.live, s.running⟩
  | destroyed (s : TaskSystem) (t : Nat) (k' : Kernel) (ht : t ∈ s.live)
      (hrun : s.kernel.releaseTaskMemory t = some k') :
      PageStep s (.destroy t)
        ⟨k', s.live.erase t, if s.running = some t then none else s.running⟩
  | switched (s : TaskSystem) (cur next : Nat) (running : Option Nat) :
      PageStep s (.switch cur next) ⟨(s.kernel.switchTask cur next).2, s.live, running⟩
  -- The copy ends on the lists of both tasks.
  | copied (s : TaskSystem) (old new : Nat) (k' : Kernel) (hnew : new ∈ s.live)
      (hrun : s.kernel.copyProcessMemory old new = some k') :
      PageStep s (.copy old new) ⟨k', s.live, s.running⟩
  -- A short section in two pages is written past the first.
  | loaded (s : TaskSystem) (t : Nat) (file file' : RamFile) (sec : ElfSection) (ret : Int)
      (k' : Kernel) (ht : t ∈ s.live)
      (hfits : sec.loadAddr % pageSize + sec.size ≤ pageSize ∨ pageSize ≤ sec.size)
      (hrun : s.kernel.loadElfSection t file sec = some (ret, file', k')) :
      PageStep s (.load t file sec) ⟨k', s.live, s.running⟩
  -- Anywhere else there could be something of the kernel, which is apart from memory here.
  | stored (s : TaskSystem) (va : Nat) (b : BitVec 8)
      (hlands : ∀ pa, walk s.kernel.mm s.kernel.tlb s.kernel.ram va = some pa →
        ∃ t ∈ s.live, ∃ p ∈ s.kernel.heldPages t,
          s.kernel.mm.pageIdToVa p ≤ s.kernel.mm.kernelVa pa ∧
          s.kernel.mm.kernelVa pa < s.kernel.mm.pageIdToVa p + pageSize) :
      PageStep s (.store va b) ⟨s.kernel.userStore va b, s.live, s.running⟩
  | rested (s : TaskSystem) (k' : Kernel) (hmm : k'.mm = s.kernel.mm)
      (htask : ∀ t ∈ s.live, SameTask (s.kernel.task t) (k'.task t)) :
      PageStep s .rest ⟨k', s.live, s.running⟩

/-- The pages that an event strands: the two tables of a task that could not be made. -/
def stranded (s s' : TaskSystem) : TaskEvent → Nat
  | .create t _ => if t ∉ s'.live ∧ s.kernel.mm.strands = true then 2 else 0
  | _ => 0

/-- Any number of steps, with the number of pages stranded on the way. -/
inductive PageRun : TaskSystem → List TaskEvent → Nat → TaskSystem → Prop where
  | nil (s : TaskSystem) : PageRun s [] 0 s
  | cons (s s₁ s' : TaskSystem) (e : TaskEvent) (es : List TaskEvent) (n : Nat)
      (hstep : PageStep s e s₁) (hrest : PageRun s₁ es n s') :
      PageRun s (e :: es) (stranded s s₁ e + n) s'

/-- The pages of all tasks that live. -/
def TaskSystem.livePages (s : TaskSystem) : List Nat :=
  s.live.flatMap s.kernel.heldPages

/-- Installing tables changes neither the pages nor the tasks. -/
theorem switchTask_keeps (k : Kernel) (cur next : Nat) :
    (k.switchTask cur next).2.mm = k.mm ∧ (k.switchTask cur next).2.task = k.task := by
  unfold switchTask
  split_ifs
  · exact ⟨rfl, rfl⟩
  · exact ⟨rfl, rfl⟩
  · exact ⟨rfl, rfl⟩

theorem userStore_keeps (k : Kernel) (va : Nat) (b : BitVec 8) :
    (k.userStore va b).mm = k.mm ∧ (k.userStore va b).task = k.task := by
  unfold userStore
  cases walk k.mm k.tlb k.ram va with
  | none => exact ⟨rfl, rfl⟩
  | some pa => exact ⟨rfl, rfl⟩

/-- A task with the same structure has the same pages. -/
theorem sameTask_held (k k' : Kernel) (t : Nat) (hbank : Mm.SameBank k.mm k'.mm)
    (h : SameTask (k.task t) (k'.task t)) : k'.heldPages t = k.heldPages t := by
  refine heldPages_congr k k' t hbank h.origin ?_
  rw [MmStruct.pages, MmStruct.pages, h.stack, h.image, h.tables.1, h.tables.2]

/-- What is done for one task leaves the others their pages. -/
theorem beside_held (F : Nat → Prop) (t u : Nat) (k k' : Kernel) (h : Beside F t k k')
    (hne : u ≠ t) : k'.heldPages u = k.heldPages u :=
  sameTask_held k k' u h.bank (by rw [h.tasks u hne]; exact SameTask.refl _)

/-- The pages of the tasks other than `t`. -/
theorem beside_live (F : Nat → Prop) (t : Nat) (k k' : Kernel) (live : List Nat)
    (h : Beside F t k k') (hlive : t ∉ live) :
    live.flatMap k'.heldPages = live.flatMap k.heldPages :=
  List.flatMap_congr fun u hu => beside_held F t u k k' h (ne_of_mem_of_not_mem hu hlive)

section Ledger

variable (mm₀ : Mm) (s : TaskSystem) (lost : List Nat) (h : Parted s)
  (hdrawn : Mm.Drawn mm₀ s.kernel.mm (s.livePages ++ lost))
include h hdrawn

/-- What leaves the page allocator and the lists of pages alone leaves the books alone. -/
theorem quiet_ledger (k' : Kernel) (running : Option Nat) (hmm : k'.mm = s.kernel.mm)
    (htask : ∀ t ∈ s.live, SameTask (s.kernel.task t) (k'.task t)) :
    Parted ⟨k', s.live, running⟩ ∧
      ∃ lost', lost'.length = 0 + lost.length ∧
        Mm.Drawn mm₀ k'.mm (s.live.flatMap k'.heldPages ++ lost') := by
  have hbank : Mm.SameBank s.kernel.mm k'.mm := hmm ▸ Mm.SameBank.refl _
  refine ⟨parted_kept s h k' running (fun t ht => ⟨hbank, htask t ht, fun p hp => ?_,
    fun p _ => by rw [hmm]⟩) hbank (hmm ▸ h.unlocked), lost, (Nat.zero_add _).symm, ?_⟩
  · rw [hmm]
    exact ((h.lodged t ht).own p hp).taken
  · have hheld : s.live.flatMap k'.heldPages = s.livePages :=
      List.flatMap_congr fun t ht => sameTask_held s.kernel k' t hbank (htask t ht)
    rw [hmm, hheld]
    exact hdrawn

variable (hplain₀ : Mm.PlainMap mm₀)
include hplain₀

/-- A release gives back what the task has. -/
theorem destroyed_ledger (t : Nat) (k' : Kernel) (running : Option Nat) (ht : t ∈ s.live)
    (hrun : s.kernel.releaseTaskMemory t = some k') :
    Parted ⟨k', s.live.erase t, running⟩ ∧
      ∃ lost', lost'.length = 0 + lost.length ∧
        Mm.Drawn mm₀ k'.mm ((s.live.erase t).flatMap k'.heldPages ++ lost') := by
  rcases destroyed_beside s h t ht with ⟨k₁, hrun₁, hbeside⟩
  rw [hrun, Option.some.injEq] at hrun₁
  subst hrun₁
  have hlodged := h.lodged t ht
  have hout : t ∉ s.live.erase t := fun hc => (h.nodup.mem_erase_iff.mp hc).1 rfl
  have hbooked :
      Booked mm₀ ((s.live.erase t).flatMap s.kernel.heldPages ++ lost) t s.kernel := by
    refine Mm.drawn_perm mm₀ s.kernel.mm _ hdrawn _ ?_
    rw [← List.append_assoc]
    exact ((List.perm_cons_erase ht).flatMap_right _).symm.append_right lost
  rcases releaseTaskMemory_booked mm₀ _ t hplain₀ s.kernel hbooked hlodged.kind.1
    (fun _ => hlodged.origin.2) with ⟨k₂, hrun₂, hdrawn₂, -⟩
  rw [hrun, Option.some.injEq] at hrun₂
  subst hrun₂
  refine ⟨destroyed_parted s h t k' running hbeside, lost, (Nat.zero_add _).symm, ?_⟩
  rw [beside_live _ t s.kernel k' _ hbeside hout]
  exact hdrawn₂

variable (hzero₀ : Mm.NoZero mm₀)
include hzero₀

/-- One step on the books: pages taken since the state `mm₀` are those of the tasks that live
    and those that are lost. -/
theorem step_ledger (s' : TaskSystem) (e : TaskEvent) (hstep : PageStep s e s') :
    Parted s' ∧ ∃ lost', lost'.length = stranded s s' e + lost.length ∧
      Mm.Drawn mm₀ s'.kernel.mm (s'.livePages ++ lost') := by
  cases hstep with
  | created t userSp k' hnew hbare hrun =>
      have hbeside := refused_beside s h t userSp 0 k' hbare hrun
      have hbooked := (created_booked mm₀ _ s.kernel k' t userSp 0 hplain₀ hzero₀ hdrawn hbare
        hrun).1
      refine ⟨created_parted s h t userSp k' s.running hnew hbare hrun, lost, ?_, ?_⟩
      · rw [stranded, if_neg (fun hc => hc.1 List.mem_cons_self), Nat.zero_add]
      · show Mm.Drawn mm₀ k'.mm ((t :: s.live).flatMap k'.heldPages ++ lost)
        rw [List.flatMap_cons, beside_live _ t s.kernel k' s.live hbeside hnew, List.append_assoc]
        exact hbooked
  | refused t userSp ret k' hnew hbare hret hrun =>
      have hbeside := refused_beside s h t userSp ret k' hbare hrun
      rcases created_booked mm₀ _ s.kernel k' t userSp ret hplain₀ hzero₀ hdrawn hbare hrun with
        ⟨hbooked, hleft⟩
      -- What the task that is thrown away still has is lost.
      refine ⟨refused_parted s h t k' s.running hnew hbeside, k'.heldPages t ++ lost, ?_, ?_⟩
      · rw [List.length_append, hleft hret, stranded]
        exact congrArg (· + lost.length) (if_congr (by tauto) rfl rfl)
      · show Mm.Drawn mm₀ k'.mm (s.live.flatMap k'.heldPages ++ (k'.heldPages t ++ lost))
        rw [beside_live _ t s.kernel k' s.live hbeside hnew]
        refine Mm.drawn_perm mm₀ k'.mm _ hbooked _ ?_
        exact List.perm_append_comm_assoc _ _ _
  | destroyed t k' ht hrun => exact destroyed_ledger mm₀ s lost h hdrawn hplain₀ t k' _ ht hrun
  | switched cur next running =>
      rcases switchTask_keeps s.kernel cur next with ⟨hmm, htask⟩
      exact quiet_ledger mm₀ s lost h hdrawn _ running hmm (fun t _ => htask ▸ SameTask.refl _)
  | copied old new k' hnew hrun =>
      rcases copyProcessMemory_loops s old new k' hrun with ⟨ram₁, ram₂, -, -, rfl⟩
      exact quiet_ledger mm₀ s lost h hdrawn _ _ rfl (fun t _ => SameTask.refl _)
  | loaded t file file' sec ret k' ht hfits hrun =>
      rcases loadElfSection_keeps s.kernel k' t file file' sec ret hrun with ⟨hmm, -, htask⟩
      exact quiet_ledger mm₀ s lost h hdrawn k' _ hmm (fun u _ => htask u)
  | stored va b hlands =>
      rcases userStore_keeps s.kernel va b with ⟨hmm, htask⟩
      exact quiet_ledger mm₀ s lost h hdrawn _ _ hmm (fun t _ => htask ▸ SameTask.refl _)
  | rested k' hmm htask => exact quiet_ledger mm₀ s lost h hdrawn k' _ hmm htask

end Ledger

theorem run_ledger (mm₀ : Mm) (hplain₀ : Mm.PlainMap mm₀) (hzero₀ : Mm.NoZero mm₀)
    (s s' : TaskSystem) (es : List TaskEvent) (n : Nat) (hrun : PageRun s es n s') :
    ∀ lost : List Nat, Parted s → Mm.Drawn mm₀ s.kernel.mm (s.livePages ++ lost) →
      Parted s' ∧ ∃ lost', lost'.length = n + lost.length ∧
        Mm.Drawn mm₀ s'.kernel.mm (s'.livePages ++ lost') := by
  induction hrun with
  | nil s => exact fun lost h hdrawn => ⟨h, lost, (Nat.zero_add _).symm, hdrawn⟩
  | cons s s₁ s' e es n hstep hrest ih =>
      intro lost h hdrawn
      rcases step_ledger mm₀ s lost h hdrawn hplain₀ hzero₀ s₁ e hstep with
        ⟨h₁, lost₁, hlen₁, hdrawn₁⟩
      rcases ih lost₁ h₁ hdrawn₁ with ⟨h', lost', hlen', hdrawn'⟩
      exact ⟨h', lost', by omega, hdrawn'⟩

/-- Every task that lives has 263 pages. -/
theorem livePages_length (s : TaskSystem) (h : Parted s) :
    s.livePages.length = 263 * s.live.length := by
  have hheld : ∀ t ∈ s.live, (s.kernel.heldPages t).length = 263 := by
    intro t ht
    have hlodged := h.lodged t ht
    rw [heldPages, if_neg hlodged.origin.1, MmStruct.pages]
    simp only [List.length_append, hlodged.single.1, hlodged.single.2, hlodged.counts.1,
      hlodged.counts.2, List.length_singleton]
  unfold TaskSystem.livePages
  rw [List.length_flatMap, List.map_congr_left hheld, List.map_const', List.sum_replicate,
    smul_eq_mul, Nat.mul_comm]

/-- In every run of the system, a page is in use if it was at boot, if a task that lives has
    it, or if it is lost, and these are all different. Lost are the two tables of every
    creation that was refused for lack of 260 more pages, for good, and the counter of free
    pages has gone down by 263 for each task that lives and by those. -/
theorem pages_conserved (s s' : TaskSystem) (es : List TaskEvent) (n : Nat) (hboot : Booted s)
    (hzero : Mm.NoZero s.kernel.mm) (hpages : (s.kernel.mm.zone .normal).freePages < u32Size)
    (hsize : (s.kernel.mm.zone .normal).freeSize < u32Size) (hrun : PageRun s es n s') :
    ∃ lost : List Nat, lost.length = n ∧
      (s'.live.flatMap s'.kernel.heldPages ++ lost).Nodup ∧
      (∀ p, used s'.kernel.mm.pageMap p = true ↔ used s.kernel.mm.pageMap p = true ∨ p ∈ lost ∨
        ∃ t ∈ s'.live, p ∈ s'.kernel.heldPages t) ∧
      (∀ p, (p ∈ lost ∨ ∃ t ∈ s'.live, p ∈ s'.kernel.heldPages t) →
        used s.kernel.mm.pageMap p = false) ∧
      add32 (s'.kernel.mm.zone .normal).freePages (263 * s'.live.length + n)
        = (s.kernel.mm.zone .normal).freePages := by
  have hstart : Mm.Drawn s.kernel.mm s.kernel.mm (s.livePages ++ []) := by
    unfold TaskSystem.livePages
    rw [hboot.none.1]
    exact Mm.drawn_refl s.kernel.mm hpages hsize
  rcases run_ledger s.kernel.mm hboot.plain hzero s s' es n hrun []
    (booted_separated s hboot).toParted hstart with ⟨h', lost, hlen, hdrawn⟩
  have hmem : ∀ p, p ∈ s'.livePages ++ lost ↔
      p ∈ lost ∨ ∃ t ∈ s'.live, p ∈ s'.kernel.heldPages t := by
    intro p
    unfold TaskSystem.livePages
    rw [List.mem_append, List.mem_flatMap, or_comm]
  refine ⟨lost, hlen, hdrawn.nodup, fun p => ?_, fun p hp => ?_, ?_⟩
  · rw [hdrawn.bits p]
    split_ifs with hp
    · exact iff_of_true rfl (Or.inr ((hmem p).mp hp))
    · rw [← hmem p]
      exact (or_iff_left hp).symm
  · exact (hdrawn.clear p ((hmem p).mpr hp)).1
  · have hcount := hdrawn.pages
    rw [List.length_append, livePages_length s' h', hlen] at hcount
    exact hcount

/-- The board with 288 free pages, and the structures of two tasks. -/
def shortSystem : TaskSystem :=
  ⟨{ (newUserKernel (fun _ => 0#8)).setTask 0x80140800
        { userTask with stackBase := 0, stackOrigin := 0 } with
      slab := Slab.slabInit (Mm.takenMm 736) (fun _ => ⟨0, 0⟩) }, [], none⟩

theorem shortSystem_booted : Booted shortSystem ∧ Mm.NoZero shortSystem.kernel.mm := by
  refine ⟨⟨by decide +kernel, by decide +kernel, ⟨rfl, rfl⟩, fun e he => ?_⟩, fun q hq => ?_⟩
  · show (newUserKernel (fun _ => 0#8)).tlb e = 0
    rw [newUserKernel_tlb, clearUserTlb_entry, if_pos he]
  · have hstart : shortSystem.kernel.mm.kernelStart = 0x80000000 := by decide +kernel
    have hwords : shortSystem.kernel.mm.mapWords = 41 := by decide +kernel
    rw [hwords] at hq
    unfold Mm.pageIdToVa add32 pageSize u32Size
    rw [hstart]
    omega

theorem shortSystem_bare :
    Bare shortSystem.kernel 0x80140000 ∧ Bare shortSystem.kernel 0x80140800 := by
  have hne : (0x80140000 : Nat) ≠ 0x80140800 := by decide
  obtain ⟨p, hp⟩ : ∃ p : Process, p = { userTask with stackBase := 0, stackOrigin := 0 } := ⟨_, rfl⟩
  have htask : shortSystem.kernel.task = Function.update newUserSystem.kernel.task 0x80140800 p := by
    rw [hp]
    rfl
  have hfirst : shortSystem.kernel.task 0x80140000 = newUserSystem.kernel.task 0x80140000 := by
    rw [htask, Function.update_of_ne hne]
  have hsecond : shortSystem.kernel.task 0x80140800 = p := by rw [htask, Function.update_self]
  refine ⟨⟨hfirst ▸ newUserSystem_bare.kind, hfirst ▸ newUserSystem_bare.base⟩, ?_, ?_⟩
  · rw [hsecond, hp]
    decide
  · rw [hsecond, hp]

/-- One task gets its memory, and the next finds 25 pages: two of them are lost. -/
theorem pages_conserved_short :
    ∃ (s' : TaskSystem) (lost : List Nat),
      PageRun shortSystem [.create 0x80140000 0, .create 0x80140800 0] 2 s' ∧
      s'.live = [0x80140000] ∧ lost.length = 2 ∧
      (∀ p ∈ lost, used s'.kernel.mm.pageMap p = true ∧ p ∉ s'.kernel.heldPages 0x80140000) ∧
      add32 (s'.kernel.mm.zone .normal).freePages 265 = 288 := by
  have heval : ((shortSystem.kernel.initMmStruct 0x80140000 0).allocMemoryForTask 0x80140000).bind
      (fun r => ((r.2.initMmStruct 0x80140800 0).allocMemoryForTask 0x80140800).map
        (fun r' => (r.1, r'.1, r.2.mm.strands))) = some (0, errNoMem, true) := by
    decide +kernel
  rcases Option.bind_eq_some_iff.mp heval with ⟨⟨ret₁, k₁⟩, hrun₁, hmap⟩
  rcases Option.map_eq_some_iff.mp hmap with ⟨⟨ret₂, k₂⟩, hrun₂, hfields⟩
  simp only [Prod.mk.injEq] at hfields
  rcases hfields with ⟨rfl, hret₂, hstrands⟩
  have hbeside := created_beside (fun _ => False) _ k₁ 0x80140000 0 0 shortSystem_booted.1.plain
    shortSystem_booted.1.unlocked shortSystem_bare.1 (fun i hi => hi.elim) hrun₁
  have hbare₁ : Bare k₁ 0x80140800 := by
    have hsame := hbeside.tasks 0x80140800 (by decide)
    exact ⟨hsame ▸ shortSystem_bare.2.kind, hsame ▸ shortSystem_bare.2.base⟩
  have hstep₁ := PageStep.created shortSystem 0x80140000 0 k₁ List.not_mem_nil shortSystem_bare.1
    hrun₁
  have hnew : 0x80140800 ∉ [0x80140000] := by decide
  have hstep₂ := PageStep.refused ⟨k₁, [0x80140000], none⟩ 0x80140800 0 ret₂ k₂ hnew hbare₁
    (by rw [hret₂]; decide) hrun₂
  have hruns := PageRun.cons _ _ _ _ _ _ hstep₁ (PageRun.cons _ _ _ _ _ _ hstep₂ (PageRun.nil _))
  have hcount : stranded shortSystem ⟨k₁, [0x80140000], none⟩ (.create 0x80140000 0)
      + (stranded ⟨k₁, [0x80140000], none⟩ ⟨k₂, [0x80140000], none⟩ (.create 0x80140800 0) + 0)
      = 2 := by
    rw [stranded, stranded, if_neg (fun hc => hc.1 List.mem_cons_self), if_pos ⟨hnew, hstrands⟩]
  rcases pages_conserved shortSystem ⟨k₂, [0x80140000], none⟩ _ _ shortSystem_booted.1
    shortSystem_booted.2 (by decide +kernel) (by decide +kernel) hruns with
    ⟨lost, hlen, hnodup, hused, -, hfree⟩
  refine ⟨⟨k₂, [0x80140000], none⟩, lost, ?_, rfl, hlen.trans hcount, fun p hp => ⟨?_, fun hc => ?_⟩,
    ?_⟩
  · rw [← hcount]
    exact hruns
  · exact (hused p).mpr (Or.inr (Or.inl hp))
  · have hapart := (List.nodup_append.mp hnodup).2.2
    exact hapart p (List.mem_flatMap.mpr ⟨0x80140000, List.mem_cons_self, hc⟩) p hp rfl
  · have hstart : (shortSystem.kernel.mm.zone .normal).freePages = 288 := by decide +kernel
    have hnumber : 263 * [0x80140000].length
        + (stranded shortSystem ⟨k₁, [0x80140000], none⟩ (.create 0x80140000 0)
          + (stranded ⟨k₁, [0x80140000], none⟩ ⟨k₂, [0x80140000], none⟩ (.create 0x80140800 0) + 0))
        = 265 := by
      rw [hcount, List.length_singleton]
    rw [← hnumber, ← hstart]
    exact hfree

end Mirros
