import Mirros.Core.Exec
import Mirros.Theory.Task.Blind
import Mirros.Theory.Task.Registers

/-!
# What a Fork Copies

`copy_process_memory` copies the first pages of the stack and of the image of the
parent, as many as `stack_size` and `elf_size` say. `elf_size` is the sum of the sizes
of the sections, while a section lies where its load address says, so a section that
starts behind a gap may lie in pages that are not copied. `fork_copy_exact` says that
this is all that can go wrong.

## Main definitions

* `imageSize`, `copiedPages`: The sum of the sizes, and the pages it makes.
* `Kernel.SameByte`: Two tasks have the same byte at a user address.
* `Kernel.Copied`: The child has everything the parent has.
* `Kernel.PagesOf`: A task has all its pages.
* `Kernel.Parent`: A task whose image was loaded, about to fork.

## Theorems

* `loadElfImage_size`: What `load_elf_image` leaves in the task.
* `copyPages_bytes`: What the copy loop does to memory.
* `doFork_memory`: What a fork does to memory.
* `forked_pages`: A forked task has all its pages.
* `fork_copy_exact`: When a fork copies the whole image.
-/

namespace Mirros

/-- What `load_elf_image` leaves in `elf_size`. -/
def imageSize (sections : List ElfSection) : Nat :=
  (sections.map ElfSection.size).sum % u32Size

/-- The number of pages of the image that a fork copies. -/
def copiedPages (sections : List ElfSection) : Nat :=
  pageTurns (add32 (imageSize sections) pageSize)

namespace Kernel

/-- A section that was loaded is accounted for in the size of the image. -/
theorem loadElfSection_size (k k' : Kernel) (t : Nat) (file file' : RamFile) (s : ElfSection)
    (h : k.loadElfSection t file s = some (0, file', k')) :
    processUserExecBase ≤ s.loadAddr ∧ 0 < s.size ∧ k'.slab = k.slab ∧
      k'.task = Function.update k.task t { k.task t with mm := { (k.task t).mm with
        elfSize := add32 (k.task t).mm.elfSize s.size } } ∧
      k'.tlb = k.tlb ∧ k'.pidMap = k.pidMap ∧ k'.current = k.current ∧ k'.idle = k.idle := by
  unfold loadElfSection at h
  by_cases hbad : s.loadAddr < processUserExecBase ∨ s.size = 0
  · rw [if_pos hbad] at h
    simp only [Option.pure_def, Option.some.injEq, Prod.mk.injEq] at h
    exact absurd h.1 (by decide)
  rw [if_neg hbad] at h
  by_cases hbig : 0x80000000 ≤ s.size
  · rw [if_pos hbig] at h
    exact absurd h (by simp only [reduceCtorEq, not_false_eq_true])
  rw [if_neg hbig] at h
  simp only [Option.pure_def, Option.bind_eq_bind, Option.bind_eq_some_iff, Prod.exists] at h
  rcases h with ⟨ram, file₁, _, h⟩
  simp only [Option.some.injEq, Prod.mk.injEq] at h
  refine ⟨by omega, by omega, ?_⟩
  rw [← h.2.2]
  exact ⟨rfl, rfl, rfl, rfl, rfl, rfl⟩

theorem loadElfSections_size (t : Nat) (sections : List ElfSection) :
    ∀ (k k' : Kernel) (file file' : RamFile), (k.task t).mm.elfSize < u32Size →
      k.loadElfSections t file sections = some (0, file', k') →
      (∀ s ∈ sections, processUserExecBase ≤ s.loadAddr ∧ 0 < s.size) ∧ k'.slab = k.slab ∧
        k'.task = Function.update k.task t { k.task t with mm := { (k.task t).mm with
          elfSize := ((k.task t).mm.elfSize + (sections.map ElfSection.size).sum) % u32Size } } ∧
        k'.tlb = k.tlb ∧ k'.pidMap = k.pidMap ∧ k'.current = k.current ∧ k'.idle = k.idle := by
  induction sections with
  | nil =>
      intro k k' file file' hlt h
      simp only [loadElfSections, Option.some.injEq, Prod.mk.injEq] at h
      rcases h with ⟨-, -, rfl⟩
      refine ⟨by simp, rfl, ?_, rfl, rfl, rfl, rfl⟩
      simp only [List.map_nil, List.sum_nil, Nat.add_zero, Nat.mod_eq_of_lt hlt]
      exact (Function.update_eq_self t k.task).symm
  | cons s rest ih =>
      intro k k' file file' hlt h
      simp only [loadElfSections, Option.pure_def, Option.bind_eq_bind, Option.bind_eq_some_iff,
        Prod.exists] at h
      rcases h with ⟨ret, file₁, k₁, hload, h⟩
      by_cases hret : ret ≠ 0
      · rw [if_pos hret] at h
        simp only [Option.some.injEq, Prod.mk.injEq] at h
        exact absurd h.1 hret
      rw [if_neg hret] at h
      rw [ne_eq, not_not] at hret
      subst hret
      rcases loadElfSection_size k k₁ t file file₁ s hload with
        ⟨haddr, hsize, hslab, htask, htlb, hpid, hcur, hidle⟩
      have hself : (k₁.task t).mm = { (k.task t).mm with
          elfSize := add32 (k.task t).mm.elfSize s.size } := by
        rw [htask, Function.update_self]
      have hlt₁ : (k₁.task t).mm.elfSize < u32Size := by
        rw [hself]
        exact Nat.mod_lt _ (by decide)
      rcases ih k₁ k' file₁ file' hlt₁ h with ⟨hall, hslab', htask', htlb', hpid', hcur', hidle'⟩
      refine ⟨?_, hslab'.trans hslab, ?_, htlb'.trans htlb, hpid'.trans hpid, hcur'.trans hcur,
        hidle'.trans hidle⟩
      · -- The first section by its own load, the rest by induction.
        intro s' hs'
        rcases List.mem_cons.1 hs' with rfl | hs'
        · exact ⟨haddr, hsize⟩
        · exact hall s' hs'
      · -- The size wraps once at the end or at each step, to the same number.
        have hsum : (add32 (k.task t).mm.elfSize s.size + (rest.map ElfSection.size).sum) % u32Size
            = ((k.task t).mm.elfSize + ((s :: rest).map ElfSection.size).sum) % u32Size := by
          rw [List.map_cons, List.sum_cons]
          unfold add32
          rw [Nat.mod_add_mod, Nat.add_assoc]
        rw [htask', htask, Function.update_idem, Function.update_self]
        simp only
        rw [hsum]

/-- A task whose image was loaded. -/
theorem loadElfImage_size (k k' : Kernel) (t : Nat) (file file' : RamFile)
    (sections : List ElfSection)
    (h : k.loadElfImage t file sections = some (0, file', k')) :
    (∀ s ∈ sections, processUserExecBase ≤ s.loadAddr ∧ 0 < s.size) ∧ k'.slab = k.slab ∧
      k'.task = Function.update k.task t { k.task t with mm := { (k.task t).mm with
        elfSize := imageSize sections } } ∧ k'.current = k.current := by
  unfold loadElfImage at h
  rcases loadElfSections_size t sections _ k' file file'
    (by simp only [setTaskMm, setTask, Function.update_self]; decide) h with
    ⟨hall, hslab, htask, -, -, hcur, -⟩
  refine ⟨hall, hslab, ?_, hcur⟩
  rw [htask]
  simp only [setTaskMm, setTask, Function.update_self, Function.update_idem, Nat.zero_add]
  rfl

/-- A page has the same bytes in two memories. -/
def SamePage (mm : Mm) (ram ram' : Ram) (p : Nat) : Prop :=
  ∀ o < pageSize, ram' (mm.pageIdToVa p + o) = ram (mm.pageIdToVa p + o)

theorem SamePage.trans {mm : Mm} {ram₁ ram₂ ram₃ : Ram} {p : Nat} (h : SamePage mm ram₁ ram₂ p)
    (h' : SamePage mm ram₂ ram₃ p) : SamePage mm ram₁ ram₃ p :=
  fun o ho => (h' o ho).trans (h o ho)

/-- A list without repetition does not have its later members among the first. -/
theorem nodup_take {l : List Nat} (h : l.Nodup) (n i p : Nat) (hi : n ≤ i)
    (hp : l[i]? = some p) : p ∉ l.take n := by
  intro hc
  rcases List.mem_iff_getElem?.1 hc with ⟨j, hj⟩
  rw [List.getElem?_take] at hj
  by_cases hjn : j < n
  · rw [if_pos hjn] at hj
    rcases List.getElem?_eq_some_iff.1 hp with ⟨hil, -⟩
    have hij := (List.getElem?_inj hil h).1 (hp.trans hj.symm)
    omega
  · rw [if_neg hjn] at hj
    exact absurd hj (by simp only [reduceCtorEq, not_false_eq_true])

section Pages

variable (mm : Mm) (hplain : Mm.PlainMap mm)
include hplain

/-- Copying one page to another changes the other only. -/
theorem copyPageVa_bytes (ram : Ram) (old new p : Nat) (hnew : new < 32 * mm.mapWords)
    (hp : p < 32 * mm.mapWords) :
    (∀ o < pageSize, copyPageVa ram (mm.pageIdToVa new) (mm.pageIdToVa old) (mm.pageIdToVa new + o)
      = ram (mm.pageIdToVa old + o)) ∧
    (p ≠ new → SamePage mm ram (copyPageVa ram (mm.pageIdToVa new) (mm.pageIdToVa old)) p) := by
  refine ⟨fun o ho => ?_, fun hne o ho => ?_⟩
  · unfold copyPageVa
    rw [if_pos (by omega), Nat.add_sub_cancel_left]
  · have hap := Mm.pageIdToVa_apart mm hplain p new hp hnew hne
    unfold copyPageVa
    rw [if_neg (by omega)]

/-- The copy loop: the first `n` pages of the new list get the bytes of the old ones,
    and every other page keeps its own. -/
theorem copyPages_bytes (n : Nat) :
    ∀ (olds news : List Nat) (ram ram' : Ram), copyPages mm n olds news ram = some ram' →
      news.Nodup → (∀ p ∈ olds, p ∉ news) →
      (∀ p ∈ olds ++ news, p < 32 * mm.mapWords) →
      (∀ i < n, ∀ old new, olds[i]? = some old → news[i]? = some new → ∀ o < pageSize,
        ram' (mm.pageIdToVa new + o) = ram (mm.pageIdToVa old + o)) ∧
      ∀ p < 32 * mm.mapWords, p ∉ news.take n → SamePage mm ram ram' p := by
  induction n with
  | zero =>
      intro olds news ram ram' h _ _ _
      rw [copyPages, Option.some.injEq] at h
      rw [h]
      exact ⟨fun i hi => absurd hi (Nat.not_lt_zero i), fun p _ _ o _ => rfl⟩
  | succ n ih =>
      intro olds news ram ram' h hnodup hapart hbound
      cases olds with
      | nil => exact absurd h (by simp only [copyPages, reduceCtorEq, not_false_eq_true])
      | cons old olds =>
      cases news with
      | nil => exact absurd h (by simp only [copyPages, reduceCtorEq, not_false_eq_true])
      | cons new news =>
      rw [copyPages] at h
      have hnew : new < 32 * mm.mapWords := hbound new (by simp)
      have hfirst := fun p hp => copyPageVa_bytes mm hplain ram old new p hnew hp
      rcases List.nodup_cons.1 hnodup with ⟨hnotin, hnodup'⟩
      rcases ih olds news _ ram' h hnodup'
        (fun p hp hc => hapart p (List.mem_cons_of_mem _ hp) (List.mem_cons_of_mem _ hc))
        (fun p hp => hbound p (by
          rcases List.mem_append.1 hp with hp | hp
          · exact List.mem_append_left _ (List.mem_cons_of_mem _ hp)
          · exact List.mem_append_right _ (List.mem_cons_of_mem _ hp))) with ⟨hcopied, hkept⟩
      refine ⟨fun i hi o₁ n₁ ho₁ hn₁ o ho => ?_, fun p hp hnot => ?_⟩
      · cases i with
        | zero =>
            rw [List.getElem?_cons_zero, Option.some.injEq] at ho₁ hn₁
            rw [← ho₁, ← hn₁]
            have hsame := hkept new hnew (fun hc => hnotin (List.mem_of_mem_take hc)) o ho
            rw [hsame, (hfirst new hnew).1 o ho]
        | succ i =>
            rw [List.getElem?_cons_succ] at ho₁ hn₁
            rw [hcopied i (by omega) o₁ n₁ ho₁ hn₁ o ho]
            -- An old page is not among the new ones, so the first copy left it alone.
            have hmem : o₁ ∈ old :: olds := List.mem_cons_of_mem _ (List.mem_of_getElem? ho₁)
            have hne : o₁ ≠ new := fun hc => hapart o₁ hmem (by rw [hc]; exact List.mem_cons_self)
            exact (hfirst o₁ (hbound o₁ (List.mem_append_left _ hmem))).2 hne o ho
      · rw [List.take_succ_cons, List.mem_cons, not_or] at hnot
        exact ((hfirst p hp).2 hnot.1).trans (hkept p hp hnot.2)

/-- Building the first context of a task writes to its kernel stack only. -/
theorem archSetUpTaskStack_page (k : Kernel) (t q p : Nat) (regs : PtRegs)
    (horigin : (k.task t).stackOrigin = mm.pageIdToVa q) (hq : q < 32 * mm.mapWords)
    (hp : p < 32 * mm.mapWords) (hne : p ≠ q) (hregs : ∀ w ∈ regs.frame, w < u32Size) :
    SamePage mm k.ram (k.archSetUpTaskStack t regs).2.ram p := by
  intro o ho
  by_cases hbase : (k.task t).stackBase = 0
  · unfold archSetUpTaskStack
    rw [if_pos hbase]
  have hram : (k.archSetUpTaskStack t regs).2.ram
      = (pushWords k.ram (add32 (k.task t).stackOrigin kernelStackSize) regs.pushed).1 := by
    unfold archSetUpTaskStack
    rw [if_neg hbase]
  rw [hram]
  have htop : add32 (k.task t).stackOrigin kernelStackSize < u32Size := Nat.mod_lt _ (by decide)
  have hws : ∀ w ∈ regs.pushed, w < u32Size := by
    intro w hw
    have hrev : regs.pushed = regs.frame.reverse := rfl
    rw [hrev, List.mem_reverse] at hw
    exact hregs w hw
  refine (pushWords_load k.ram _ htop regs.pushed (show 18 < 2 ^ 20 by decide) hws).2 _
    (fun i hi => ?_)
  have hi' : i < 18 := hi
  have hap := Mm.pageIdToVa_apart mm hplain p q hp hq hne
  have hqtop := Mm.pageIdToVa_top mm hplain q
  have hptop := Mm.pageIdToVa_top mm hplain p
  rw [horigin]
  -- The words are pushed down from the end of the page.
  have haddr : pushAddr (add32 (mm.pageIdToVa q) kernelStackSize) i
      = mm.pageIdToVa q + 4096 - 4 * (i + 1) := by
    unfold pushAddr add32 sub32 kernelStackSize
    unfold pageSize u32Size at *
    omega
  rw [haddr]
  unfold pageSize at *
  omega

end Pages

theorem archSetUpTaskStack_keeps (k : Kernel) (t t' : Nat) (regs : PtRegs) :
    (k.archSetUpTaskStack t regs).2.slab = k.slab ∧
      ((k.archSetUpTaskStack t regs).2.task t').mm = (k.task t').mm := by
  unfold archSetUpTaskStack
  by_cases hbase : (k.task t).stackBase = 0
  · rw [if_pos hbase]
    exact ⟨rfl, rfl⟩
  rw [if_neg hbase]
  dsimp only
  generalize pushWords k.ram (add32 (k.task t).stackOrigin kernelStackSize) regs.pushed = pushed
  cases pushed with | mk ram base =>
  refine ⟨rfl, ?_⟩
  simp only [setTask]
  by_cases ht : t' = t
  · rw [ht, Function.update_self]
  · rw [Function.update_of_ne ht]

/-- A task has all the pages of its image and its stack, and they are in use. -/
structure PagesOf (k : Kernel) (t : Nat) : Prop where
  image : (k.task t).mm.elfImageList.length = 256
  stack : (k.task t).mm.elfStackList.length = 4
  inUse : ∀ p ∈ (k.task t).mm.elfImageList ++ (k.task t).mm.elfStackList,
    used k.mm.pageMap p = true ∧ p < 32 * k.mm.mapWords

/-- A task that was forked has all its pages, so it can fork again. -/
theorem forked_pages (k k₁ k' : Kernel) (new userSp flag q qs qe : Nat) (ps rs : List Nat)
    (h : Forked k k₁ k' new userSp flag q qs qe ps rs) : PagesOf k' new := by
  have hmm : (k'.task new).mm = filledMm (k₁.task new).mm qs qe ps rs := by
    rw [forked_task k k₁ k' new userSp flag q qs qe ps rs h]
  have hwords : k'.mm.mapWords = k₁.mm.mapWords := h.filling.bank.words
  refine ⟨?_, ?_, fun p hp => ?_⟩
  · rw [hmm]
    exact h.imagePages
  · rw [hmm]
    exact h.stackPages
  · rw [hmm] at hp
    have hin : p ∈ qs :: qe :: (ps ++ rs) := by
      rcases List.mem_append.1 hp with hp | hp
      · exact List.mem_cons_of_mem _ (List.mem_cons_of_mem _ (List.mem_append_right _ hp))
      · exact List.mem_cons_of_mem _ (List.mem_cons_of_mem _ (List.mem_append_left _ hp))
    rcases h.filling.pages p hin with ⟨-, hused, hbound, -⟩
    exact ⟨hused, by rw [hwords]; exact hbound⟩

/-- The memory after a fork: pages in use keep their bytes, the first pages of the
    child have those of the parent, and the other pages of its image keep what they
    held. -/
structure ForkMemory (k k' : Kernel) (new userSp : Nat) (ps rs : List Nat) : Prop where
  bank : Mm.SameBank k.mm k'.mm
  parentMm : (k'.task k.current).mm = (k.task k.current).mm
  stackList : (k'.task new).mm.elfStackList = ps
  imageList : (k'.task new).mm.elfImageList = rs
  stackPages : ps.length = 4
  imagePages : rs.length = 256
  count : pageTurns (add32 (k.task k.current).mm.elfSize pageSize) ≤ 256
  fresh : ∀ p ∈ ps ++ rs, used k.mm.pageMap p = false ∧ p < 32 * k.mm.mapWords
  kept : ∀ p, used k.mm.pageMap p = true → p < 32 * k.mm.mapWords → SamePage k.mm k.ram k'.ram p
  stack : ∀ i < pageTurns (sub32 processUserStackBase userSp), ∀ old new,
    (k.task k.current).mm.elfStackList[i]? = some old → ps[i]? = some new → ∀ o < pageSize,
      k'.ram (k.mm.pageIdToVa new + o) = k.ram (k.mm.pageIdToVa old + o)
  image : ∀ i < pageTurns (add32 (k.task k.current).mm.elfSize pageSize), ∀ old new,
    (k.task k.current).mm.elfImageList[i]? = some old → rs[i]? = some new → ∀ o < pageSize,
      k'.ram (k.mm.pageIdToVa new + o) = k.ram (k.mm.pageIdToVa old + o)
  stale : ∀ i p, pageTurns (add32 (k.task k.current).mm.elfSize pageSize) ≤ i → rs[i]? = some p →
    SamePage k.mm k.ram k'.ram p

section Forked

variable (k k₁ k' : Kernel) (new userSp flag q qs qe : Nat) (ps rs : List Nat)
  (h : Forked k k₁ k' new userSp flag q qs qe ps rs)

include h

/-- The pages of the child were free before. -/
theorem forked_fresh :
    ∀ p ∈ qs :: qe :: (ps ++ rs), used k.mm.pageMap p = false ∧ p < 32 * k.mm.mapWords ∧ p ≠ q := by
  intro p hp
  rcases h.filling.pages p hp with ⟨hclear, _, hbound, _⟩
  refine ⟨?_, h.grows.bank.words ▸ hbound, ?_⟩
  · exact clear_before _ _ p (h.grows.keeps p) hclear
  · intro hc
    rw [hc, h.stackPage.2.1] at hclear
    exact absurd hclear (by decide)

/-- A page that was in use is none of the child. -/
theorem forked_used (p : Nat) (hp : used k.mm.pageMap p = true) :
    p ∉ qs :: qe :: (ps ++ rs) ∧ p ≠ q := by
  refine ⟨fun hc => ?_, fun hc => ?_⟩
  · have hclear := (forked_fresh k k₁ k' new userSp flag q qs qe ps rs h p hc).1
    rw [hp] at hclear
    exact absurd hclear (by decide)
  · have hclear := h.stackPage.1
    rw [← hc, hp] at hclear
    exact absurd hclear (by decide)

variable (hplain : Mm.PlainMap k.mm)

include hplain

/-- Before the copy only the two page tables of the child are written. -/
theorem forked_tables (p : Nat) (hp : p < 32 * k.mm.mapWords) (hps : p ≠ qs) (hpe : p ≠ qe) :
    SamePage k.mm k.ram k'.ram p := by
  intro o ho
  have hfresh := forked_fresh k k₁ k' new userSp flag q qs qe ps rs h
  have haps := Mm.pageIdToVa_apart k.mm hplain p qs hp (hfresh qs (by simp)).2.1 hps
  have hape := Mm.pageIdToVa_apart k.mm hplain p qe hp (hfresh qe (by simp)).2.1 hpe
  have hva := Mm.pageIdToVa_same k.mm k₁.mm h.grows.bank
  have hlens := h.stackPages
  have hlene := h.imagePages
  rw [h.filling.frame _ (by rw [hva]; unfold pageSize at *; omega)
    (by rw [hva]; unfold pageSize at *; omega), h.ram]

/-- A copy loop of the fork, from pages that were in use to pages of the child. -/
theorem forked_copy (n : Nat) (olds news : List Nat) (ram ram' : Ram)
    (holds : ∀ p ∈ olds, used k.mm.pageMap p = true ∧ p < 32 * k.mm.mapWords)
    (hnews : ∀ p ∈ news, p ∈ ps ++ rs) (hnodup : news.Nodup)
    (hcopy : copyPages k'.mm n olds news ram = some ram') :
    (∀ i < n, ∀ old new, olds[i]? = some old → news[i]? = some new → ∀ o < pageSize,
      ram' (k.mm.pageIdToVa new + o) = ram (k.mm.pageIdToVa old + o)) ∧
    ∀ p < 32 * k.mm.mapWords, p ∉ news.take n → SamePage k.mm ram ram' p := by
  have hbank : Mm.SameBank k.mm k'.mm := h.grows.bank.trans h.filling.bank
  have hva := Mm.pageIdToVa_same k.mm k'.mm hbank
  have hwords : k'.mm.mapWords = k.mm.mapWords := hbank.words
  have hin : ∀ p ∈ news, p ∈ qs :: qe :: (ps ++ rs) := fun p hp =>
    List.mem_cons_of_mem _ (List.mem_cons_of_mem _ (hnews p hp))
  rcases copyPages_bytes k'.mm (Mm.plainMap_same k.mm k'.mm hbank hplain) n olds news ram ram' hcopy
    hnodup
    (fun p hp hc => (forked_used k k₁ k' new userSp flag q qs qe ps rs h p (holds p hp).1).1
      (hin p hc))
    (fun p hp => by
      rw [hwords]
      rcases List.mem_append.1 hp with hp | hp
      · exact (holds p hp).2
      · exact (forked_fresh k k₁ k' new userSp flag q qs qe ps rs h p (hin p hp)).2.1) with
    ⟨hcopied, hkept⟩
  rw [hwords] at hkept
  refine ⟨fun i hi old new' hold hnew o ho => ?_, fun p hp hnot o ho => ?_⟩
  · rw [← hva, ← hva]
    exact hcopied i hi old new' hold hnew o ho
  · rw [← hva]
    exact hkept p hp hnot o ho

/-- The first context of the child is written to its kernel stack. -/
theorem forked_context (k₂ : Kernel) (htask : k₂.task = k'.task) (regs : PtRegs)
    (hregs : ∀ w ∈ regs.frame, w < u32Size) (p : Nat) (hp : p < 32 * k.mm.mapWords)
    (hne : p ≠ q) : SamePage k.mm k₂.ram (k₂.archSetUpTaskStack new regs).2.ram p := by
  have hq : q < 32 * k.mm.mapWords := h.grows.bank.words ▸ h.stackPage.2.2
  have horigin : (k₂.task new).stackOrigin = k.mm.pageIdToVa q := by
    rw [htask, forked_task k k₁ k' new userSp flag q qs qe ps rs h]
    exact h.stackOrigin.trans (Mm.pageIdToVa_same k.mm k₁.mm h.grows.bank q)
  exact archSetUpTaskStack_page k.mm hplain k₂ new q p regs horigin hq hp hne hregs

/-- The memory after the two copy loops, when what is written afterwards is on the kernel
    stack of the child. -/
theorem forked_memory (hne : new ≠ k.current) (hown : PagesOf k k.current) (ram₁ ram₂ : Ram)
    (hstack : copyPages k'.mm (pageTurns (sub32 processUserStackBase userSp))
      (k.task k.current).mm.elfStackList ps k'.ram = some ram₁)
    (himage : copyPages k'.mm (pageTurns (add32 (k.task k.current).mm.elfSize pageSize))
      (k.task k.current).mm.elfImageList rs ram₁ = some ram₂)
    (k₂ : Kernel) (hbank : k₂.mm = k'.mm) (hmm : ∀ t, (k₂.task t).mm = (k'.task t).mm)
    (hframe : ∀ p < 32 * k.mm.mapWords, p ≠ q → SamePage k.mm ram₂ k₂.ram p) :
    ForkMemory k k₂ new userSp ps rs := by
  have hfresh := forked_fresh k k₁ k' new userSp flag q qs qe ps rs h
  have hold := forked_used k k₁ k' new userSp flag q qs qe ps rs h
  have htables := forked_tables k k₁ k' new userSp flag q qs qe ps rs h hplain
  have hself := forked_task k k₁ k' new userSp flag q qs qe ps rs h
  have hnodup := h.filling.nodup
  rw [List.nodup_cons, List.nodup_cons, List.nodup_append] at hnodup
  rcases hnodup with ⟨hqs, hqe, hps, hrs, hdisj⟩
  rcases forked_copy k k₁ k' new userSp flag q qs qe ps rs h hplain _ _ _ _ ram₁
    (fun p hp => hown.inUse p (List.mem_append_right _ hp))
    (fun p hp => List.mem_append_left _ hp) hps hstack with ⟨hstacked, hstackKept⟩
  rcases forked_copy k k₁ k' new userSp flag q qs qe ps rs h hplain _ _ _ _ ram₂
    (fun p hp => hown.inUse p (List.mem_append_left _ hp))
    (fun p hp => List.mem_append_right _ hp) hrs himage with ⟨himaged, himageKept⟩
  -- The memory from the first loop on is only changed where the image is copied.
  have hlast : ∀ p < 32 * k.mm.mapWords, p ≠ q → p ∉ rs.take
      (pageTurns (add32 (k.task k.current).mm.elfSize pageSize)) → SamePage k.mm ram₁ k₂.ram p :=
    fun p hp hpq hpr => (himageKept p hp hpr).trans (hframe p hp hpq)
  have hsource : ∀ p, used k.mm.pageMap p = true → p < 32 * k.mm.mapWords →
      SamePage k.mm k.ram ram₁ p := by
    intro p hused hp
    have hnot := (hold p hused).1
    rw [List.mem_cons, List.mem_cons, List.mem_append, not_or, not_or, not_or] at hnot
    exact (htables p hp hnot.1 hnot.2.1).trans
      (hstackKept p hp (fun hc => hnot.2.2.1 (List.mem_of_mem_take hc)))
  have hcount := ((copyPages_some k'.mm _ _ _ _).1 ⟨ram₂, himage⟩).1
  rw [hown.image] at hcount
  refine ⟨?_, ?_, ?_, ?_, h.stackPages, h.imagePages, hcount, ?_, ?_, ?_, ?_, ?_⟩
  · rw [hbank]
    exact h.grows.bank.trans h.filling.bank
  · rw [hmm]
    exact forked_parent k k₁ k' new userSp flag q qs qe ps rs h hne
  · rw [hmm, hself]
    rfl
  · rw [hmm, hself]
    rfl
  · intro p hp
    have hpage := hfresh p (by simp [List.mem_append.1 hp])
    exact ⟨hpage.1, hpage.2.1⟩
  · intro p hused hp
    have hnot := hold p hused
    have hpr : p ∉ rs := fun hc => hnot.1 (by simp [hc])
    exact (hsource p hused hp).trans (hlast p hp hnot.2 (fun hc => hpr (List.mem_of_mem_take hc)))
  · intro i hi old new' hold' hnew' o ho
    have hmem := List.mem_of_getElem? hnew'
    have hpage := hfresh new' (by simp [hmem])
    have hpr : new' ∉ rs := fun hc => hdisj new' hmem new' hc rfl
    rw [hlast new' hpage.2.1 hpage.2.2 (fun hc => hpr (List.mem_of_mem_take hc)) o ho,
      hstacked i hi old new' hold' hnew' o ho]
    have hpar := hown.inUse old (List.mem_append_right _ (List.mem_of_getElem? hold'))
    have hnot := (hold old hpar.1).1
    rw [List.mem_cons, List.mem_cons, not_or, not_or] at hnot
    exact htables old hpar.2 hnot.1 hnot.2.1 o ho
  · intro i hi old new' hold' hnew' o ho
    have hpage := hfresh new' (by simp [List.mem_of_getElem? hnew'])
    rw [hframe new' hpage.2.1 hpage.2.2 o ho, himaged i hi old new' hold' hnew' o ho]
    have hpar := hown.inUse old (List.mem_append_left _ (List.mem_of_getElem? hold'))
    exact hsource old hpar.1 hpar.2 o ho
  · intro i p hi hip
    have hmem := List.mem_of_getElem? hip
    have hpage := hfresh p (by simp [hmem])
    have hpr := nodup_take hrs _ i p hi hip
    have hpp : p ∉ ps := fun hc => hdisj p hc p hmem rfl
    have hps' : p ≠ qs := fun hc => hqs (by rw [← hc]; simp [hmem])
    have hpe' : p ≠ qe := fun hc => hqe (by rw [← hc]; simp [hmem])
    exact ((htables p hpage.2.1 hps' hpe').trans (hstackKept p hpage.2.1
      (fun hc => hpp (List.mem_of_mem_take hc)))).trans (hlast p hpage.2.1 hpage.2.2 hpr)

end Forked

theorem doFork_memory (k k' : Kernel) (regs regs' : PtRegs) (userSp flag new : Nat) (ret : Int)
    (hplain : Mm.PlainMap k.mm) (huser : flag &&& processTypeUser ≠ 0)
    (hflag : flag &&& processTypeKernel = 0) (hzero : new ≠ 0) (hne : new ≠ k.current)
    (hcur : k.current ≠ 0) (hown : PagesOf k k.current) (hregs : ∀ w ∈ regs.frame, w < u32Size)
    (h : k.doFork regs userSp flag = some (ret, regs', new, k')) :
    ∃ ps rs, ForkMemory k k' new userSp ps rs := by
  rcases doFork_ok k k' regs regs' userSp flag new ret hzero h with
    ⟨k₂, k₃, hnew, hcopy, _, hregs', hk'⟩
  rcases forkNewTask_user k k₂ userSp flag new hplain huser hflag hzero hne hnew with
    ⟨k₁, q, qs, qe, ps, rs, hf⟩
  rw [if_pos huser, copyProcess_forked k k₁ k₂ new userSp flag q qs qe ps rs hf hne hcur] at hcopy
  rcases Option.bind_eq_some_iff.1 hcopy with ⟨ram₁, hcopy₁, hcopy₂⟩
  rcases Option.map_eq_some_iff.1 hcopy₂ with ⟨ram₂, hcopy₂, hk₃⟩
  have hws : ∀ w ∈ regs'.frame, w < u32Size := by
    rw [hregs']
    by_cases hfork : flag &&& processFlagFork ≠ 0
    · rw [if_pos hfork]
      exact archSetTaskReturnValue_words regs _ hregs
    · rw [if_neg hfork]
      exact hregs
  have htask₃ : k₃.task = k₂.task := by
    rw [← hk₃]
  have hslab₃ : k₃.slab = k₂.slab := by
    rw [← hk₃]
  -- The end of the fork builds the first context of the child.
  refine ⟨ps, rs, forked_memory k k₁ k₂ new userSp flag q qs qe ps rs hf hplain hne hown ram₁ ram₂
    hcopy₁ hcopy₂ k' ?_ (fun t => ?_) (fun p hp hpq => ?_)⟩
  · have hkeeps := (archSetUpTaskStack_keeps k₃ new new regs').1
    rw [← hk'] at hkeeps
    exact congrArg Slab.mm (hkeeps.trans hslab₃)
  · have hkeeps := (archSetUpTaskStack_keeps k₃ new t regs').2
    rw [← hk', htask₃] at hkeeps
    exact hkeeps
  · have hpage := forked_context k k₁ k₂ new userSp flag q qs qe ps rs hf hplain k₃ htask₃ regs' hws
      p hp hpq
    rw [← hk', ← hk₃] at hpage
    exact hpage

/-- Two tasks have the same byte at a user address. -/
def SameByte (k : Kernel) (old new va : Nat) : Prop :=
  ∃ a b, userVa k.mm (k.task old).mm va = some a ∧ userVa k.mm (k.task new).mm va = some b ∧
    k.ram b = k.ram a

/-- A task has the sections, the arguments and the stack of another one. -/
structure Copied (k : Kernel) (old new : Nat) (sections : List ElfSection) (userSp : Nat) :
    Prop where
  image : ∀ s ∈ sections, ∀ va, s.loadAddr ≤ va → va < s.loadAddr + s.size → k.SameByte old new va
  argument : ∀ va, processUserBase ≤ va → va < processUserExecBase → k.SameByte old new va
  stack : ∀ va, userSp ≤ va → va < processUserStackBase → k.SameByte old new va

/-- The turns of the copy loop for a size, as arithmetic. -/
theorem pageTurns_eq (n : Nat) (h : n + pageSize ≤ 0x80000000) : pageTurns n = (n + 4095) / 4096 := by
  have hround : baligin n pageSize = (n + 4095) / 4096 * 4096 :=
    Mm.baligin_eq n 12 (by decide) (by unfold pageSize at h; omega)
  have hpos : toInt32 ((n + 4095) / 4096 * 4096) = (((n + 4095) / 4096 * 4096 : Nat) : Int) :=
    if_pos (by unfold pageSize at h; omega)
  unfold pageTurns pageNrInt
  rw [hround, hpos]
  unfold pageSize
  omega

/-- A size that is negative, or is rounded up to a negative one or to zero, makes no turn. -/
theorem pageTurns_zero (n : Nat) (hn : n < u32Size) (h : 0x80000000 < n + pageSize) :
    pageTurns n = 0 := by
  unfold pageTurns pageNrInt
  by_cases hsmall : n + pageSize ≤ u32Size
  · have hround : baligin n pageSize = (n + 4095) / 4096 * 4096 :=
      Mm.baligin_eq n 12 (by decide) hsmall
    have hneg : toInt32 ((n + 4095) / 4096 * 4096)
        = (((n + 4095) / 4096 * 4096 : Nat) : Int) - u32Size :=
      if_neg (by unfold pageSize at h; omega)
    rw [hround, hneg]
    unfold pageSize u32Size at *
    omega
  · -- Rounding up goes over the end of the word.
    have hsub : sub32 (n + pageSize) 1 = n + pageSize - 1 - u32Size := by
      unfold sub32 pageSize u32Size at *
      omega
    have hmask := Mm.and_mask (n + pageSize - 1 - u32Size) 12
      (by unfold pageSize u32Size at *; omega) (by decide)
    have hdiv : (n + pageSize - 1 - u32Size) / 2 ^ 12 = 0 :=
      Nat.div_eq_of_lt (by unfold pageSize u32Size at *; omega)
    rw [hdiv, Nat.zero_mul] at hmask
    unfold baligin
    rw [hsub, show u32Size - pageSize = 2 ^ 32 - 2 ^ 12 from rfl, hmask]
    decide

section Memory

variable {k k' : Kernel} {new userSp : Nat} {ps rs : List Nat}
  (hm : ForkMemory k k' new userSp ps rs) (hown : PagesOf k k.current)
include hm hown

/-- An address of the image, in the pages of both tasks. -/
theorem image_byte (va : Nat) (hlow : processUserBase ≤ va)
    (hhigh : va < processUserBase + processImageSize) :
    ∃ p r, (k.task k.current).mm.elfImageList[(va - processUserBase) / pageSize]? = some p ∧
      rs[(va - processUserBase) / pageSize]? = some r ∧
      userVa k'.mm (k'.task k.current).mm va = some (k.mm.pageIdToVa p + va % pageSize) ∧
      userVa k'.mm (k'.task new).mm va = some (k.mm.pageIdToVa r + va % pageSize) ∧
      used k.mm.pageMap p = true ∧ p < 32 * k.mm.mapWords ∧
      used k.mm.pageMap r = false ∧ r < 32 * k.mm.mapWords := by
  have hi : (va - processUserBase) / pageSize < 256 := by
    unfold processImageSize at hhigh
    exact (Nat.div_lt_iff_lt_mul (by decide)).2 (by omega)
  have hlen : (va - processUserBase) / pageSize < (k.task k.current).mm.elfImageList.length := by
    rw [hown.image]
    exact hi
  have hlen' : (va - processUserBase) / pageSize < rs.length := by
    rw [hm.imagePages]
    exact hi
  have hp := List.getElem?_eq_getElem hlen
  have hr := List.getElem?_eq_getElem hlen'
  have hva := Mm.pageIdToVa_same k.mm k'.mm hm.bank
  refine ⟨_, _, hp, hr, ?_, ?_, ?_⟩
  · unfold userVa
    rw [if_pos ⟨hlow, hhigh⟩, hm.parentMm, hp, Option.map_some, hva]
  · unfold userVa
    rw [if_pos ⟨hlow, hhigh⟩, hm.imageList, hr, Option.map_some, hva]
  · have hold := hown.inUse _ (List.mem_append_left _ (List.mem_of_getElem? hp))
    have hfresh := hm.fresh _ (List.mem_append_right _ (List.mem_of_getElem? hr))
    exact ⟨hold.1, hold.2, hfresh.1, hfresh.2⟩

/-- The part of the image that is copied. -/
theorem image_same (va : Nat) (hlow : processUserBase ≤ va)
    (hhigh : va < processUserBase +
      pageTurns (add32 (k.task k.current).mm.elfSize pageSize) * pageSize) :
    k'.SameByte k.current new va := by
  have hcount := hm.count
  have hi : (va - processUserBase) / pageSize <
      pageTurns (add32 (k.task k.current).mm.elfSize pageSize) :=
    (Nat.div_lt_iff_lt_mul (by decide)).2 (by omega)
  have hin : va < processUserBase + processImageSize := by
    have hmul := Nat.mul_le_mul_right pageSize hcount
    unfold processImageSize
    omega
  rcases image_byte hm hown va hlow hin with ⟨p, r, hp, hr, hva, hva', hused, hbound, -, -⟩
  refine ⟨_, _, hva, hva', ?_⟩
  have ho : va % pageSize < pageSize := Nat.mod_lt _ (by decide)
  rw [hm.image _ hi p r hp hr _ ho, hm.kept p hused hbound _ ho]

/-- The stack is copied down to the stack pointer. -/
theorem stack_same (va : Nat) (hsp : processUserStackBase - processStackSize ≤ userSp)
    (hlow : userSp ≤ va) (hhigh : va < processUserStackBase) :
    k'.SameByte k.current new va := by
  -- The page of the address is one of those the copy went through.
  have hi : (processUserStackBase - 1 - va) / pageSize <
      pageTurns (sub32 processUserStackBase userSp) := by
    have hsub : sub32 processUserStackBase userSp = processUserStackBase - userSp := by
      unfold sub32 processUserStackBase u32Size at *
      omega
    rw [hsub, pageTurns_eq _ (by unfold processUserStackBase processStackSize pageSize at *; omega)]
    unfold pageSize
    omega
  have hi4 : (processUserStackBase - 1 - va) / pageSize < 4 := by
    unfold processUserStackBase processStackSize pageSize at *
    omega
  have hnot : ¬(processUserBase ≤ va ∧ va < processUserBase + processImageSize) := by
    unfold processUserStackBase processStackSize processUserBase processImageSize pageSize at *
    omega
  have hlen : (processUserStackBase - 1 - va) / pageSize <
      (k.task k.current).mm.elfStackList.length := by
    rw [hown.stack]
    exact hi4
  have hlen' : (processUserStackBase - 1 - va) / pageSize < ps.length := by
    rw [hm.stackPages]
    exact hi4
  have hp := List.getElem?_eq_getElem hlen
  have hr := List.getElem?_eq_getElem hlen'
  have hold := hown.inUse _ (List.mem_append_right _ (List.mem_of_getElem? hp))
  have hva := Mm.pageIdToVa_same k.mm k'.mm hm.bank
  have ho : va % pageSize < pageSize := Nat.mod_lt _ (by decide)
  have hin : processUserStackBase - processStackSize ≤ va := hsp.trans hlow
  -- Both tasks have the page at the same place in their lists.
  have hparent : userVa k'.mm (k'.task k.current).mm va = some (k'.mm.pageIdToVa
      (k.task k.current).mm.elfStackList[(processUserStackBase - 1 - va) / pageSize]
        + va % pageSize) := by
    unfold userVa
    rw [if_neg hnot, if_pos ⟨hin, hhigh⟩, hm.parentMm, hp, Option.map_some]
  have hchild : userVa k'.mm (k'.task new).mm va = some (k'.mm.pageIdToVa
      ps[(processUserStackBase - 1 - va) / pageSize] + va % pageSize) := by
    unfold userVa
    rw [if_neg hnot, if_pos ⟨hin, hhigh⟩, hm.stackList, hr, Option.map_some]
  refine ⟨_, _, hparent, hchild, ?_⟩
  rw [hva, hva, hm.stack _ hi _ _ hp hr _ ho, hm.kept _ hold.1 hold.2 _ ho]

end Memory

/-- A task whose image was loaded earlier, about to fork. -/
structure Parent (k : Kernel) (sections : List ElfSection) (userSp flag new : Nat) : Prop where
  plain : Mm.PlainMap k.mm
  running : k.current ≠ 0
  own : PagesOf k k.current
  loaded : ∃ (k₀ k₁ : Kernel) (file file' : RamFile),
    k₀.loadElfImage k.current file sections = some (0, file', k₁) ∧
      (k.task k.current).mm = (k₁.task k.current).mm
  inside : ∀ s ∈ sections, s.loadAddr + s.size ≤ processUserBase + processImageSize
  user : flag &&& processTypeUser ≠ 0
  notKernel : flag &&& processTypeKernel = 0
  stack : processUserStackBase - processStackSize ≤ userSp ∧ userSp ≤ processUserStackBase
  child : new ≠ 0 ∧ new ≠ k.current ∧ ∃ k', k.forkNewTask userSp flag = some (new, k')

section Parent

variable {k : Kernel} {sections : List ElfSection} {userSp flag new : Nat}
  (hp : Parent k sections userSp flag new)
include hp

theorem parent_sections : (k.task k.current).mm.elfSize = imageSize sections ∧
    ∀ s ∈ sections, processUserExecBase ≤ s.loadAddr ∧ 0 < s.size := by
  rcases hp.loaded with ⟨k₀, k₁, file, file', hload, hmm⟩
  rcases loadElfImage_size k₀ k₁ _ file file' sections hload with ⟨hall, -, htask, -⟩
  refine ⟨?_, hall⟩
  rw [hmm, htask, Function.update_self]

/-- What memory holds makes no difference to the parent. -/
theorem parent_setRam (ram : Ram) : Parent (k.setRam ram) sections userSp flag new := by
  rcases hp.child with ⟨hzero, hne, k', hnew⟩
  rcases forkNewTask_blind k k' userSp flag new ram hzero hnew with ⟨ram', hnew'⟩
  exact ⟨hp.plain, hp.running, ⟨hp.own.image, hp.own.stack, hp.own.inUse⟩, hp.loaded, hp.inside,
    hp.user, hp.notKernel, hp.stack, hzero, hne, k'.setRam ram', hnew'⟩

/-- A parent all of whose sections lie in the pages that are copied. -/
theorem fork_copied (regs : PtRegs) (hregs : ∀ w ∈ regs.frame, w < u32Size)
    (hcount : copiedPages sections ≤ 256)
    (hfit : ∀ s ∈ sections,
      s.loadAddr + s.size ≤ processUserBase + copiedPages sections * pageSize) :
    ∃ regs' k', k.doFork regs userSp flag = some (0, regs', new, k') ∧
      Copied k' k.current new sections userSp := by
  rcases parent_sections hp with ⟨hsize, hall⟩
  rcases hp.child with ⟨hzero, hne, k₁, hnew⟩
  have hpages : pageTurns (add32 (k.task k.current).mm.elfSize pageSize) = copiedPages sections := by
    rw [hsize]
    rfl
  have hstack : pageTurns (sub32 processUserStackBase userSp) ≤ 4 := by
    have hsp := hp.stack
    have hsub : sub32 processUserStackBase userSp = processUserStackBase - userSp := by
      unfold sub32 processUserStackBase u32Size at *
      omega
    rw [hsub, pageTurns_eq _ (by unfold processUserStackBase processStackSize pageSize at *; omega)]
    unfold processUserStackBase processStackSize pageSize at *
    omega
  rcases doFork_some k k₁ regs userSp flag new hp.plain hp.user hp.notKernel hzero hne hp.running
    hnew ⟨by rw [hp.own.stack]; exact hstack, hstack⟩
    (by rw [hpages, hp.own.image]; exact ⟨hcount, hcount⟩) with ⟨regs', k', hfork⟩
  rcases doFork_memory k k' regs regs' userSp flag new 0 hp.plain hp.user hp.notKernel hzero hne
    hp.running hp.own hregs hfork with ⟨ps, rs, hm⟩
  refine ⟨regs', k', hfork, ?_, ?_, ?_⟩
  · intro s hs va hlow hhigh
    have haddr := (hall s hs).1
    have hend := hfit s hs
    refine image_same hm hp.own va (by unfold processUserBase processUserExecBase at *; omega) ?_
    rw [hpages]
    omega
  · intro va hlow hhigh
    refine image_same hm hp.own va hlow ?_
    rw [hpages]
    -- The page of the arguments comes before the first section.
    have hone : 1 ≤ copiedPages sections := by
      cases sections with
      | nil => decide
      | cons s rest =>
          have haddr := hall s List.mem_cons_self
          have hend := hfit s List.mem_cons_self
          unfold processUserBase processUserExecBase pageSize at *
          omega
    have hmul := Nat.mul_le_mul_right pageSize hone
    unfold processUserBase processUserExecBase pageSize at *
    omega
  · exact fun va hlow hhigh => stack_same hm hp.own va hp.stack.1 hlow hhigh

/-- A section that ends behind the pages that are copied is lost when memory has the
    wrong byte there. -/
theorem fork_stale (regs : PtRegs) (hregs : ∀ w ∈ regs.frame, w < u32Size) (s : ElfSection)
    (hs : s ∈ sections)
    (hend : processUserBase + copiedPages sections * pageSize < s.loadAddr + s.size) :
    ∃ ram, ∀ regs' k', (k.setRam ram).doFork regs userSp flag = some (0, regs', new, k') →
      ¬Copied k' k.current new sections userSp := by
  rcases parent_sections hp with ⟨hsize, hall⟩
  rcases hp.child with ⟨hzero, hne, -⟩
  have haddr := hall s hs
  have hinside := hp.inside s hs
  -- The last byte of the section, in the memory of the parent.
  let va := s.loadAddr + s.size - 1
  have hlow : processUserBase ≤ va := by
    show processUserBase ≤ s.loadAddr + s.size - 1
    unfold processUserBase processUserExecBase at *
    omega
  have hhigh : va < processUserBase + processImageSize := by
    show s.loadAddr + s.size - 1 < _
    omega
  have hi : (va - processUserBase) / pageSize < (k.task k.current).mm.elfImageList.length := by
    rw [hp.own.image]
    unfold processImageSize at hhigh
    exact (Nat.div_lt_iff_lt_mul (by decide)).2 (by omega)
  let a := k.mm.pageIdToVa (k.task k.current).mm.elfImageList[(va - processUserBase) / pageSize]
    + va % pageSize
  refine ⟨fun x => if x = a then 0#8 else 1#8, fun regs' k' hfork hcopied => ?_⟩
  have hp' := parent_setRam hp (fun x => if x = a then 0#8 else 1#8)
  rcases doFork_memory _ k' regs regs' userSp flag new 0 hp'.plain hp.user hp.notKernel hzero hne
    hp.running hp'.own hregs hfork with ⟨ps, rs, hm⟩
  rcases image_byte hm hp'.own va hlow hhigh with
    ⟨p, r, hget, hr, hva, hva', hused, hbound, hfree, hbound'⟩
  rcases hcopied.image s hs va (show _ ≤ s.loadAddr + s.size - 1 by omega)
    (show s.loadAddr + s.size - 1 < _ by omega) with ⟨x, y, hx, hy, hsame⟩
  have hx' : x = a := by
    have hpa := (List.getElem?_eq_some_iff.1 hget).2
    rw [show userVa k'.mm (k'.task k.current).mm va = _ from hva, Option.some.injEq] at hx
    rw [← hx, ← hpa]
    rfl
  rw [hva', Option.some.injEq] at hy
  have ho : va % pageSize < pageSize := Nat.mod_lt _ (by decide)
  have hbehind : pageTurns (add32 (k.task k.current).mm.elfSize pageSize) ≤
      (va - processUserBase) / pageSize := by
    rw [hsize]
    refine (Nat.le_div_iff_mul_le (by decide)).2 ?_
    show copiedPages sections * pageSize ≤ s.loadAddr + s.size - 1 - processUserBase
    omega
  have hnew := hm.stale _ r hbehind hr _ ho
  have hold := hm.kept p hused hbound _ ho
  have hap := Mm.pageIdToVa_apart k.mm hp.plain p r hbound hbound' (fun hc => by
    rw [hc, hfree] at hused
    exact absurd hused (by decide))
  have hpa : k.mm.pageIdToVa p + va % pageSize = a := by
    rw [← (List.getElem?_eq_some_iff.1 hget).2]
    rfl
  have hra : k.mm.pageIdToVa r + va % pageSize ≠ a := by
    rw [← hpa]
    unfold pageSize at *
    omega
  have hchild : k'.ram y = 1#8 := by
    rw [← hy]
    exact hnew.trans (if_neg hra)
  have hparent : k'.ram x = 0#8 := by
    rw [hx', ← hpa]
    exact hold.trans (if_pos hpa)
  rw [hchild, hparent] at hsame
  exact absurd hsame (by decide)

end Parent

/-- A fork copies the whole image of its parent, whatever memory holds, exactly when
    the pages that the sizes make are no more than a task has and every section ends
    in them. -/
theorem fork_copy_exact (k : Kernel) (sections : List ElfSection) (regs : PtRegs)
    (userSp flag new : Nat) (hp : Parent k sections userSp flag new)
    (hregs : ∀ w ∈ regs.frame, w < u32Size) :
    (∀ ram, ∃ regs' k', (k.setRam ram).doFork regs userSp flag = some (0, regs', new, k') ∧
      Copied k' k.current new sections userSp) ↔
    copiedPages sections ≤ 256 ∧ ∀ s ∈ sections,
      s.loadAddr + s.size ≤ processUserBase + copiedPages sections * pageSize := by
  refine ⟨fun h => ⟨?_, fun s hs => ?_⟩, fun h ram => ?_⟩
  · rcases hp.child with ⟨hzero, hne, -⟩
    rcases h k.ram with ⟨regs', k', hfork, -⟩
    rcases doFork_memory k k' regs regs' userSp flag new 0 hp.plain hp.user hp.notKernel hzero hne
      hp.running hp.own hregs hfork with ⟨ps, rs, hm⟩
    have hcount := hm.count
    rw [(parent_sections hp).1] at hcount
    exact hcount
  · by_contra hend
    rcases fork_stale hp regs hregs s hs (by omega) with ⟨ram, hstale⟩
    rcases h ram with ⟨regs', k', hfork, hcopied⟩
    exact hstale regs' k' hfork hcopied
  · exact fork_copied (parent_setRam hp ram) regs hregs h.1 h.2

end Kernel

/-- A program of two pages, the second at an address of its own. -/
def twoSections (loadAddr : Nat) : List ElfSection :=
  [⟨['.', 't', 'e', 'x', 't'], 0, 0x1000, 0x401000⟩,
    ⟨['.', 'd', 'a', 't', 'a'], 0x1000, 0x1000, loadAddr⟩]

/-- Its file in the ramdisk. -/
def twoPagesFile : RamFile :=
  ⟨0x80110000, 0x2000, 0x80110000⟩

theorem userKernel_load (loadAddr : Nat) (h : loadAddr = 0x402000 ∨ loadAddr = 0x440000) :
    ∃ file' k₁, (userKernel (fun _ => 0#8)).loadElfImage 0x80000900 twoPagesFile
      (twoSections loadAddr) = some (0, file', k₁) ∧ (k₁.task 0x80000900).mm = userTask.mm := by
  have heval : ((userKernel (fun _ => 0#8)).loadElfImage 0x80000900 twoPagesFile
      (twoSections loadAddr)).map (fun x => x.1) = some 0 := by
    rcases h with rfl | rfl
    · decide +kernel
    · decide +kernel
  rcases Option.map_eq_some_iff.1 heval with ⟨⟨ret, file', k₁⟩, hload, hret⟩
  have hzero : ret = 0 := hret
  subst hzero
  rcases Kernel.loadElfImage_size _ k₁ _ _ file' _ hload with ⟨-, -, htask, -⟩
  refine ⟨file', k₁, hload, ?_⟩
  have hsize : imageSize (twoSections loadAddr) = 0x2000 := rfl
  rw [htask, Function.update_self, hsize]
  rfl

theorem userKernel_parent (loadAddr : Nat) (h : loadAddr = 0x402000 ∨ loadAddr = 0x440000) :
    Kernel.Parent (userKernel (fun _ => 0#8)) (twoSections loadAddr) 0x7ffffff0
      (processTypeUser ||| processFlagFork) 0x80140000 := by
  rcases userKernel_load loadAddr h with ⟨file', k₁, hload, hmm⟩
  refine ⟨userKernel_plain _, show 0x80000900 ≠ 0 by decide,
    ⟨List.length_range', List.length_range', ?_⟩, ⟨_, k₁, _, file', hload, hmm.symm⟩, ?_,
    by decide, by decide, by decide, by decide,
    show 0x80140000 ≠ 0x80000900 by decide, userKernel_fork _ _ _ (by decide) (by decide)⟩
  · have hpages : ∀ p ∈ List.range' 40 256 ++ List.range' 32 4,
        used Mm.userMm.pageMap p = true ∧ p < 32 * Mm.userMm.mapWords := by
      decide +kernel
    exact hpages
  · rcases h with rfl | rfl
    · decide
    · decide

/-- A program without gaps is copied whole. -/
theorem fork_copy_exact_board : ∃ regs' k',
    ((userKernel (fun _ => 0#8)).setRam (fun _ => 1#8)).doFork Kernel.userRegs 0x7ffffff0
      (processTypeUser ||| processFlagFork) = some (0, regs', 0x80140000, k') ∧
      Kernel.Copied k' 0x80000900 0x80140000 (twoSections 0x402000) 0x7ffffff0 :=
  (Kernel.fork_copy_exact (userKernel (fun _ => 0#8)) (twoSections 0x402000) Kernel.userRegs
    0x7ffffff0 (processTypeUser ||| processFlagFork) 0x80140000 (userKernel_parent _ (Or.inl rfl))
    (by decide)).2 (by decide) (fun _ => 1#8)

/-- A section behind a gap of some pages is not copied. -/
theorem fork_loses_section : ∃ ram regs' k',
    ((userKernel (fun _ => 0#8)).setRam ram).doFork Kernel.userRegs 0x7ffffff0
      (processTypeUser ||| processFlagFork) = some (0, regs', 0x80140000, k') ∧
      Kernel.Parent ((userKernel (fun _ => 0#8)).setRam ram) (twoSections 0x440000) 0x7ffffff0
        (processTypeUser ||| processFlagFork) 0x80140000 ∧
      ¬Kernel.Copied k' 0x80000900 0x80140000 (twoSections 0x440000) 0x7ffffff0 := by
  have hp := userKernel_parent 0x440000 (Or.inr rfl)
  rcases Kernel.fork_stale hp Kernel.userRegs (by decide) _
    (List.mem_cons_of_mem _ List.mem_cons_self) (by decide) with ⟨ram, hstale⟩
  rcases userKernel_doFork ram Kernel.userRegs 0x7ffffff0 (processTypeUser ||| processFlagFork)
    (by decide) (by decide) (by decide) with ⟨regs', k', hfork⟩
  exact ⟨ram, regs', k', hfork, Kernel.parent_setRam hp ram, hstale regs' k' hfork⟩

end Mirros
