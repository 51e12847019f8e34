import Mirros.Theory.Pages.Undo
import Mirros.Theory.Task.Space
import Mirros.Theory.Task.Visit

/-!
# Giving Back the Memory of a Task

`release_task_memory` after an `alloc_memory_for_task` that succeeded. Every page of a task
is a block of one page from the NORMAL zone, and whatever is done to its entry in between
leaves the flag and the number of pages alone that `free_pages` goes by. So the pages can be
given back in another order than they were taken in, and each of them undoes one step of
the counters.

`Drawn` is the state in between: some pages have been taken since a state before. Taking a
page adds one to them and giving one back removes it, and with none left the page map and
the counters are what they were.

The loop of `_release_task_memory` takes the node it stands on off the list and goes on by
the pointer this node still has. On the pointers a list is empty when its head points at
itself.

## Main definitions

* `Page.Single`: What `free_pages` reads in the entry of a single page.
* `Mm.Drawn`: Some pages have been taken.
* `Mm.freeAll`: Pages given back one after the other.
* `Kernel.Owning`: What a task owns while it gets its memory.

## Theorems

* `drawn_get`, `drawn_free`, `drawn_freeAll`: Pages are taken and given back.
* `releaseNodes_ring`, `releaseHeads_rings`: The loop of `_release_task_memory`.
* `allocMemoryForTask_drawn`: The pages of a new task.
* `releaseTaskMemory_returns`: The memory of a task is returned in full.
-/

namespace Mirros

/-- The entry of a single page of the NORMAL zone, as `free_pages` reads it. -/
structure Page.Single (page : Page) : Prop where
  header : page.flag &&& gfpPageHeader ≠ 0
  zone : zoneOfId (zoneIdOfFlag page.flag) = some .normal
  count : page.count = 1

namespace Mm

/-- A step down is made up for by a step further up. -/
theorem add32_sub32_step (a n m : Nat) : add32 (sub32 a m) (n + m) = add32 a n := by
  unfold add32 sub32 u32Size
  omega

/-- Pages are given back one after the other. -/
def freeAll (mm : Mm) (ps : List Nat) : Option Mm :=
  ps.foldlM (fun mm p => mm.freePages (mm.pageIdToVa p)) mm

theorem freeAll_cons (mm mm' : Mm) (p : Nat) (ps : List Nat) (h : mm.freeAll (p :: ps) = some mm') :
    ∃ mm₁, mm.freePages (mm.pageIdToVa p) = some mm₁ ∧ mm₁.freeAll ps = some mm' := by
  unfold freeAll at h
  rw [List.foldlM_cons, Option.bind_eq_bind, Option.bind_eq_some_iff] at h
  exact h

theorem freeAll_append (mm mm' : Mm) (ps rs : List Nat) (h : mm.freeAll (ps ++ rs) = some mm') :
    ∃ mm₁, mm.freeAll ps = some mm₁ ∧ mm₁.freeAll rs = some mm' := by
  unfold freeAll at h
  rw [List.foldlM_append, Option.bind_eq_bind, Option.bind_eq_some_iff] at h
  exact h

/-- The pages of a list have been taken one at a time since the state `mm`. -/
structure Drawn (mm mm' : Mm) (qs : List Nat) : Prop where
  bank : SameBank mm mm'
  nodup : qs.Nodup
  clear : ∀ q ∈ qs, used mm.pageMap q = false ∧ q < 32 * mm.mapWords
  bits : ∀ i, used mm'.pageMap i = if i ∈ qs then true else used mm.pageMap i
  entries : ∀ q ∈ qs, (mm'.pageTable q).Single
  words : (mm'.zone .normal).freePages < u32Size ∧ (mm'.zone .normal).freeSize < u32Size
  pages : add32 (mm'.zone .normal).freePages qs.length = (mm.zone .normal).freePages
  size : add32 (mm'.zone .normal).freeSize (qs.length * pageSize) = (mm.zone .normal).freeSize
  others : ∀ z ≠ .normal, mm'.zone z = mm.zone z
  unlocked : qs ≠ [] → (mm'.zone .normal).zoneMutex = 0

theorem drawn_refl (mm : Mm) (hpages : (mm.zone .normal).freePages < u32Size)
    (hsize : (mm.zone .normal).freeSize < u32Size) : Drawn mm mm [] where
  bank := SameBank.refl mm
  nodup := List.nodup_nil
  clear := fun _ hq => absurd hq List.not_mem_nil
  bits := fun _ => (if_neg List.not_mem_nil).symm
  entries := fun _ hq => absurd hq List.not_mem_nil
  words := ⟨hpages, hsize⟩
  pages := Nat.mod_eq_of_lt (by rw [List.length_nil]; exact hpages)
  size := Nat.mod_eq_of_lt (by rw [List.length_nil, Nat.zero_mul]; exact hsize)
  others := fun _ _ => rfl
  unlocked := fun hc => absurd rfl hc

section Drawn

variable (mm mm' : Mm) (qs : List Nat) (h : Drawn mm mm' qs)

include h

/-- The order of the pages does not matter. -/
theorem drawn_perm (rs : List Nat) (hperm : rs.Perm qs) : Drawn mm mm' rs where
  bank := h.bank
  nodup := hperm.nodup_iff.mpr h.nodup
  clear := fun q hq => h.clear q (hperm.mem_iff.mp hq)
  bits := fun i => by simp only [h.bits, hperm.mem_iff]
  entries := fun q hq => h.entries q (hperm.mem_iff.mp hq)
  words := h.words
  pages := hperm.length_eq ▸ h.pages
  size := hperm.length_eq ▸ h.size
  others := h.others
  unlocked := fun hne => h.unlocked (fun hc => hne (by rw [hc] at hperm; exact hperm.eq_nil))

/-- An entry may change, but not in what `free_pages` goes by. -/
theorem drawn_setPage (q : Nat) (page : Page) (hflag : page.flag = (mm'.pageTable q).flag)
    (hcount : page.count = (mm'.pageTable q).count) : Drawn mm (mm'.setPage q page) qs := by
  refine ⟨h.bank.trans (setPage_same mm' q page), h.nodup, h.clear, h.bits, fun r hr => ?_, h.words,
    h.pages, h.size, h.others, h.unlocked⟩
  have hr' := h.entries r hr
  show (Function.update mm'.pageTable q page r).Single
  rw [Function.update_apply]
  split_ifs with hrq
  · rw [hrq] at hr'
    exact ⟨hflag ▸ hr'.header, hflag ▸ hr'.zone, hcount ▸ hr'.count⟩
  · exact hr'

/-- One more page. -/
theorem drawn_get (hplain : PlainMap mm) (mm'' : Mm) (flag addr : Nat)
    (hflag : zoneOfId (zoneIdOfFlag flag) = some .normal)
    (hget : mm'.getFreePages 1 flag = some (addr, mm'')) (haddr : addr ≠ 0) :
    ∃ q, addr = mm.pageIdToVa q ∧ mm''.vaToPageId addr = q ∧ Drawn mm mm'' (q :: qs) := by
  have hmutex := getFreePages_unlocked mm' mm'' 1 flag addr .normal hflag hget haddr
  have hplain' := plainMap_same mm mm' h.bank hplain
  rcases getFreePages_got mm' mm'' flag addr hplain'.words hget with ⟨hzero, _⟩ | ⟨q, hq, hgot⟩
  · exact absurd hzero haddr
  rcases getFreePages_cases mm' mm'' 1 flag addr hget with
    ⟨hzero, _⟩ | ⟨z, index, hz, _, _, _, hindex, htook⟩
  · exact absurd hzero haddr
  rw [hflag, Option.some.injEq] at hz
  subst hz
  -- Both accounts of the call speak of the same page.
  have hbound : index < 32 * mm'.mapWords := htook.bound.resolve_left (by decide)
  have hiq : index = q := by
    have hback := vaToPageId_page mm' hplain' index hbound
    rw [← hindex, hq, vaToPageId_page mm' hplain' q hgot.bound] at hback
    exact hback.symm
  subst hiq
  have hva : addr = mm.pageIdToVa index := by rw [hq, pageIdToVa_same mm mm' h.bank]
  have hnew : index ∉ qs := by
    intro hc
    have hclear := hgot.clear
    rw [h.bits, if_pos hc] at hclear
    exact absurd hclear (by decide)
  have hclear : used mm.pageMap index = false := by
    rw [← hgot.clear, h.bits, if_neg hnew]
  have hzone : mm''.zone .normal = { mm'.zone .normal with
      bmCurrent := add32 index 1
      freeSize := sub32 (mm'.zone .normal).freeSize pageSize
      freePages := sub32 (mm'.zone .normal).freePages 1 } := by
    rw [htook.zones]
    exact Function.update_self _ _ _
  refine ⟨index, hva, ?_, h.bank.trans hgot.bank, List.nodup_cons.mpr ⟨hnew, h.nodup⟩,
    fun r hr => ?_, fun i => ?_, fun r hr => ?_, ?_, ?_, ?_, fun z hz => ?_, fun _ => ?_⟩
  · rw [vaToPageId_same mm' mm'' hgot.bank, hq]
    exact vaToPageId_page mm' hplain' index hgot.bound
  · rcases List.mem_cons.mp hr with rfl | hr
    · exact ⟨hclear, h.bank.words ▸ hgot.bound⟩
    · exact h.clear r hr
  · rw [hgot.bits, h.bits]
    by_cases hi : i = index
    · rw [if_pos hi, if_pos (List.mem_cons.mpr (Or.inl hi))]
    · rw [if_neg hi]
      exact if_congr (by rw [List.mem_cons]; tauto) rfl rfl
  · rcases List.mem_cons.mp hr with rfl | hr
    · have hentry : mm''.pageTable r = mm'.freshPage r 1 r (flag ||| gfpPageHeader) := by
        rw [htook.table, if_pos ⟨Nat.le_refl _, Nat.lt_succ_self _⟩]
        rfl
      rw [hentry]
      refine ⟨header_bit flag, ?_, ?_⟩
      · exact (congrArg zoneOfId (zoneIdOfFlag_header flag)).trans hflag
      · simp only [freshPage, if_true]
    · rw [hgot.others r (fun hc => hnew (hc ▸ hr))]
      exact h.entries r hr
  · rw [hzone]
    exact ⟨Nat.mod_lt _ (by decide), Nat.mod_lt _ (by decide)⟩
  · rw [hzone, ← h.pages, List.length_cons]
    exact add32_sub32_step _ _ 1
  · rw [hzone, ← h.size, List.length_cons, Nat.succ_mul]
    exact add32_sub32_step _ _ pageSize
  · rw [htook.zones, Function.update_of_ne hz]
    exact h.others z hz
  · rw [hzone]
    exact hmutex

/-- One page is given back. -/
theorem drawn_free (hplain : PlainMap mm) (q : Nat) (hq : q ∈ qs) :
    ∃ mm'', mm'.freePages (mm.pageIdToVa q) = some mm'' ∧ Drawn mm mm'' (qs.erase q) := by
  have hplain' := plainMap_same mm mm' h.bank hplain
  have hwords := hplain'.words
  have hsingle := h.entries q hq
  have hbound : q < 32 * mm'.mapWords := h.bank.words.symm ▸ (h.clear q hq).2
  have hfree : mm'.freePages (mm.pageIdToVa q) = mm'.doFreePages q .normal := by
    rw [← pageIdToVa_same mm mm' h.bank]
    exact freePages_header mm' q .normal hplain' (by omega) hsingle.header hsingle.zone
  rcases doFreePages_returns mm' q .normal (h.unlocked (List.ne_nil_of_mem hq))
    (Or.inr (by rw [hsingle.count]; omega)) with ⟨mm'', hrun⟩
  have hgave := doFreePages_cases mm' mm'' q .normal hrun
  rw [hsingle.count] at hgave
  refine ⟨mm'', hfree.trans hrun, ?_⟩
  have hmem : ∀ r, r ∈ qs.erase q ↔ r ≠ q ∧ r ∈ qs := fun r => h.nodup.mem_erase_iff
  have hlen : (qs.erase q).length + 1 = qs.length := List.length_erase_add_one hq
  have hzone : mm''.zone .normal = { mm'.zone .normal with
      freeSize := add32 (mm'.zone .normal).freeSize pageSize
      freePages := add32 (mm'.zone .normal).freePages 1
      bmCurrent := if (mm'.zone .normal).bmCurrent = q + 1
        then q else (mm'.zone .normal).bmCurrent } := by
    rw [hgave.zones]
    exact Function.update_self _ _ _
  refine ⟨h.bank.trans ⟨hgave.start, hgave.words, ?_⟩, h.nodup.erase q,
    fun r hr => h.clear r ((hmem r).mp hr).2, fun i => ?_, fun r hr => ?_, ?_, ?_, ?_,
    fun z hz => ?_, fun _ => ?_⟩
  · exact sections_update mm' mm'' .normal _ hgave.zones rfl rfl
  · have hi : (q ≤ i ∧ i < q + 1) ↔ i = q := by omega
    rw [hgave.bits, h.bits, if_congr hi rfl rfl, if_congr (hmem i) rfl rfl]
    by_cases hiq : i = q
    · rw [if_pos hiq, if_neg (fun hc => hc.1 hiq), hiq, (h.clear q hq).1]
    · rw [if_neg hiq]
      exact if_congr (by tauto) rfl rfl
  · rw [hgave.table]
    exact h.entries r ((hmem r).mp hr).2
  · rw [hzone]
    exact ⟨Nat.mod_lt _ (by decide), Nat.mod_lt _ (by decide)⟩
  · rw [hzone, ← h.pages, ← hlen, Nat.add_comm (qs.erase q).length 1]
    exact add32_add32 _ 1 _
  · rw [hzone, ← h.size, ← hlen, Nat.succ_mul, Nat.add_comm _ pageSize]
    exact add32_add32 _ pageSize _
  · rw [hgave.zones, Function.update_of_ne hz]
    exact h.others z hz
  · rw [hzone]
    exact h.unlocked (List.ne_nil_of_mem hq)

/-- There are no more pages than the map has. -/
theorem drawn_length : qs.length ≤ 32 * mm.mapWords := by
  have hsub : qs ⊆ List.range (32 * mm.mapWords) :=
    fun q hq => List.mem_range.mpr (h.clear q hq).2
  have hle := (List.subperm_of_subset h.nodup hsub).length_le
  rwa [List.length_range] at hle

/-- With every page given back nothing has happened. -/
theorem drawn_nil (hnil : qs = []) : mm'.pageMap = mm.pageMap ∧
    ∀ z, (mm'.zone z).freePages = (mm.zone z).freePages ∧
      (mm'.zone z).freeSize = (mm.zone z).freeSize := by
  subst hnil
  refine ⟨bitmap_ext _ _ (fun i => (h.bits i).trans (if_neg List.not_mem_nil)), fun z => ?_⟩
  by_cases hz : z = .normal
  · subst hz
    have hpages := h.pages
    have hsize := h.size
    rw [List.length_nil, Nat.zero_mul] at hsize
    rw [List.length_nil] at hpages
    exact ⟨(Nat.mod_eq_of_lt h.words.1).symm.trans hpages,
      (Nat.mod_eq_of_lt h.words.2).symm.trans hsize⟩
  · rw [h.others z hz]
    exact ⟨rfl, rfl⟩

end Drawn

/-- Some of the pages are given back one after the other. -/
theorem drawn_freeAll (mm : Mm) (hplain : PlainMap mm) (L : List Nat) :
    ∀ (ps : List Nat) (mm' : Mm), Drawn mm mm' (ps ++ L) →
      ∃ mm'', mm'.freeAll ps = some mm'' ∧ Drawn mm mm'' L := by
  intro ps
  induction ps with
  | nil => exact fun mm' h => ⟨mm', rfl, h⟩
  | cons p ps ih =>
      intro mm' h
      rcases drawn_free mm mm' _ h hplain p List.mem_cons_self with ⟨mm₁, hfree, h₁⟩
      rw [List.cons_append, List.erase_cons_head] at h₁
      rcases ih mm₁ h₁ with ⟨mm'', hrun, h'⟩
      refine ⟨mm'', ?_, h'⟩
      rw [freeAll, List.foldlM_cons, pageIdToVa_same mm mm' h.bank, hfree]
      exact hrun

end Mm

section Nodes

variable (S : Set PageNode)

theorem freePages_start (mm mm' : Mm) (addr : Nat) (h : mm.freePages addr = some mm') :
    mm'.kernelStart = mm.kernelStart := by
  rcases Mm.freePages_cases mm mm' addr h with rfl | ⟨z, _, _, _, hgave⟩
  · rfl
  · exact hgave.start

/-- The addresses of the pages stay while pages are given back. -/
theorem freeAll_addr (ps : List Nat) : ∀ mm mm' : Mm, mm.freeAll ps = some mm' →
    mm'.pageIdToVa = mm.pageIdToVa := by
  induction ps with
  | nil =>
      intro mm mm' h
      rw [Mm.freeAll, List.foldlM_nil, Option.pure_def, Option.some.injEq] at h
      rw [h]
  | cons p ps ih =>
      intro mm mm' h
      rcases Mm.freeAll_cons mm mm' p ps h with ⟨mm₁, hfree, hrest⟩
      rw [ih mm₁ mm' hrest]
      funext q
      unfold Mm.pageIdToVa
      rw [freePages_start mm mm₁ _ hfree]

theorem releaseNodes_head (head : PageNode) (n : Nat) (links : Links PageNode) (mm : Mm) :
    Kernel.releaseNodes head (n + 1) links mm head = some ([], links, mm) := by
  unfold Kernel.releaseNodes
  rw [if_pos rfl]

/-- The loop over one list frees its pages from the first to the last. -/
theorem releaseNodes_ring (head : PageNode) (hh : head ∈ S) : ∀ (qs : List Nat) (turns : Nat)
    (links : Links PageNode) (f : PageNode → List Nat) (mm mm' : Mm),
    Rings links S (fun h => (f h).map .page) → f head = qs → qs.length < turns →
    mm.freeAll qs = some mm' →
      ∃ links', Kernel.releaseNodes head turns links mm (links.next head) =
          some (qs.map mm.pageIdToVa, links', mm') ∧
        Rings links' S (fun h => (Function.update f head [] h).map .page) := by
  intro qs
  induction qs with
  | nil =>
      intro turns links f mm mm' hr hf hturns hrun
      rcases Nat.exists_eq_succ_of_ne_zero (Nat.ne_of_gt hturns) with ⟨n, rfl⟩
      have hself : links.next head = head :=
        (ring_next_self_iff links head _ (hr.1 head hh)).mpr (by dsimp only; rw [hf]; rfl)
      rw [Mm.freeAll, List.foldlM_nil, Option.pure_def, Option.some.injEq] at hrun
      refine ⟨links, ?_, ?_⟩
      · rw [hself, releaseNodes_head, hrun]
        rfl
      · rw [← hf, Function.update_eq_self]
        exact hr
  | cons q qs ih =>
      intro turns links f mm mm' hr hf hturns hrun
      rcases Nat.exists_eq_succ_of_ne_zero (Nat.ne_of_gt (Nat.zero_lt_of_lt hturns)) with ⟨n, rfl⟩
      have hring : Ring links head (.page q :: qs.map .page) := by
        have hone := hr.1 head hh
        dsimp only at hone
        rw [hf] at hone
        exact hone
      have hmem : PageNode.page q ∈ PageNode.page q :: qs.map PageNode.page := List.mem_cons_self
      have hne : PageNode.page q ≠ head := fun hc => (List.nodup_cons.mp hring.1).1 (hc ▸ hmem)
      rcases Mm.freeAll_cons mm mm' q qs hrun with ⟨mm₁, hfree, hrest⟩
      have hva := freeAll_addr [q] mm mm₁ (Option.bind_eq_some_iff.mpr ⟨mm₁, hfree, rfl⟩)
      -- The node is off the list, and still knows the node behind it.
      have hr' : Rings (listDel links (.page q)) S
          (fun h => (Function.update f head qs h).map .page) := by
        have hdel := rings_listDel links S _ head (.page q) hr hh (by
          rw [hf]
          exact hmem)
        have hset : Function.update (fun h => (f h).map PageNode.page) head
            (((f head).map PageNode.page).erase (.page q)) =
            fun h => (Function.update f head qs h).map .page := by
          funext h
          by_cases hc : h = head
          · rw [hc, Function.update_self, Function.update_self, hf, List.map_cons,
              List.erase_cons_head]
          · rw [Function.update_of_ne hc, Function.update_of_ne hc]
        rwa [hset] at hdel
      have hnext : (listDel links (.page q)).next (.page q) =
          (listDel links (.page q)).next head := by
        rw [listDel_next_self links _ (ring_neighbours_ne links head _ _ hring hmem).2,
          (ring_split links head (.page q) [] (qs.map .page) hring).2,
          ring_next_head _ head _ (hr'.1 head hh)]
        dsimp only
        rw [Function.update_self]
      rcases ih n _ (Function.update f head qs) mm₁ mm' hr' (Function.update_self _ _ _)
        (Nat.lt_of_succ_lt_succ hturns) hrest with ⟨links', hloop, hr''⟩
      rw [Function.update_idem] at hr''
      refine ⟨links', ?_, hr''⟩
      rw [ring_next_head links head _ hring, List.headD_cons, Kernel.releaseNodes, if_neg hne]
      simp only [hfree, hnext, hloop, hva, Option.pure_def, Option.bind_eq_bind, Option.bind_some,
        List.map_cons]

/-- The loops over some lists, one after the other. -/
theorem releaseHeads_rings : ∀ (heads : List PageNode) (links : Links PageNode)
    (f : PageNode → List Nat) (mm mm' : Mm), heads.Nodup → (∀ h ∈ heads, h ∈ S) →
    Rings links S (fun h => (f h).map .page) → (∀ h ∈ heads, (f h).length < u32Size) →
    mm.freeAll (heads.flatMap f) = some mm' →
      ∃ links', Kernel.releaseHeads heads links mm =
          some ((heads.flatMap f).map mm.pageIdToVa, links', mm') ∧
        Rings links' S (fun h => if h ∈ heads then [] else (f h).map .page) := by
  intro heads
  induction heads with
  | nil =>
      intro links f mm mm' _ _ hr _ hrun
      rw [List.flatMap_nil, Mm.freeAll, List.foldlM_nil, Option.pure_def, Option.some.injEq]
        at hrun
      refine ⟨links, by rw [Kernel.releaseHeads, hrun]; rfl, ?_⟩
      simp only [List.not_mem_nil, if_false]
      exact hr
  | cons head heads ih =>
      intro links f mm mm' hnodup hsub hr hlen hrun
      rw [List.flatMap_cons] at hrun
      rcases Mm.freeAll_append mm mm' _ _ hrun with ⟨mm₁, hfirst, hrun⟩
      have hhead := List.nodup_cons.mp hnodup
      rcases releaseNodes_ring S head (hsub head List.mem_cons_self) (f head) u32Size links f mm mm₁
        hr rfl (hlen head List.mem_cons_self) hfirst with ⟨links₁, hone, hr₁⟩
      -- The other lists are as they were.
      have hsame : ∀ h ∈ heads, Function.update f head [] h = f h :=
        fun h hh => Function.update_of_ne (ne_of_mem_of_not_mem hh hhead.1) _ _
      have hflat : heads.flatMap (Function.update f head []) = heads.flatMap f :=
        List.flatMap_congr hsame
      rcases ih links₁ (Function.update f head []) mm₁ mm' hhead.2
        (fun h hh => hsub h (List.mem_cons_of_mem _ hh)) hr₁
        (fun h hh => by rw [hsame h hh]; exact hlen h (List.mem_cons_of_mem _ hh))
        (by rw [hflat]; exact hrun) with ⟨links', hrest, hr'⟩
      have hva := freeAll_addr (f head) mm mm₁ hfirst
      refine ⟨links', ?_, ?_⟩
      · rw [Kernel.releaseHeads]
        simp only [hone, hrest, hflat, hva, Option.pure_def, Option.bind_eq_bind, Option.bind_some,
          List.flatMap_cons, List.map_append]
      · have hset : (fun h => if h ∈ heads then []
            else (Function.update f head [] h).map PageNode.page) =
            fun h => if h ∈ head :: heads then [] else (f h).map PageNode.page := by
          funext h
          by_cases hc : h = head
          · rw [hc, Function.update_self, if_pos List.mem_cons_self, List.map_nil, ite_self]
          · rw [Function.update_of_ne hc]
            exact if_congr (by rw [List.mem_cons]; tauto) rfl rfl
        rwa [hset] at hr'

end Nodes

namespace Kernel

/-- Entering a page into a table changes the entry of the table only. -/
theorem taskMapMemory_keeps (k k' : Kernel) (addr t : Nat) (elf : Bool)
    (h : k.taskMapMemory addr t elf = some k') :
    ∃ table page, k'.mm = k.mm.setPage table page ∧ page.flag = (k.mm.pageTable table).flag ∧
      page.count = (k.mm.pageTable table).count ∧ k'.task = k.task := by
  unfold taskMapMemory at h
  cases elf with
  | false =>
      rw [if_neg (by decide)] at h
      simp only [Option.pure_def, Option.bind_eq_bind, Option.bind_eq_some_iff,
        Option.some.injEq] at h
      rcases h with ⟨table, _, rfl⟩
      exact ⟨table, _, rfl, rfl, rfl, rfl⟩
  | true =>
      rw [if_pos rfl] at h
      simp only [Option.pure_def, Option.bind_eq_bind, Option.bind_eq_some_iff,
        Option.some.injEq] at h
      rcases h with ⟨table, _, rfl⟩
      exact ⟨table, _, rfl, rfl, rfl, rfl⟩

/-- While task `t` gets its memory: what was taken since the state `mm` are its kernel
    stack `q` and its pages, and apart from the lists the task is `p`. -/
structure Owning (mm : Mm) (p : Process) (q : Nat) (t : Nat) (k : Kernel) : Prop where
  drawn : Mm.Drawn mm k.mm (q :: (k.task t).mm.pages)
  rest : k.task t = { p with mm := (k.task t).mm }

section Owning

variable (mm : Mm) (p : Process) (q t : Nat) (k : Kernel) (h : Owning mm p q t k)
  (hplain : mm.PlainMap)

include h

/-- The task has one more page. -/
theorem owning_enter (k' : Kernel) (ms : MmStruct) (r : Nat)
    (hdrawn : Mm.Drawn mm k'.mm (r :: q :: (k.task t).mm.pages))
    (htask : k'.task t = { k.task t with mm := ms })
    (hcount : ∀ a, ms.pages.count a = (r :: (k.task t).mm.pages).count a) :
    Owning mm p q t k' := by
  have hms : (k'.task t).mm = ms := by rw [htask]
  constructor
  · rw [hms]
    refine Mm.drawn_perm mm k'.mm _ hdrawn _ ?_
    exact ((List.perm_iff_count.mpr hcount).cons q).trans (List.Perm.swap r q _)
  · rw [hms, htask, h.rest]

/-- Another memory structure with the same pages. -/
theorem owning_setTaskMm (ms : MmStruct) (hpages : ms.pages = (k.task t).mm.pages) :
    Owning mm p q t (k.setTaskMm t ms) := by
  have htask : (k.setTaskMm t ms).task t = { k.task t with mm := ms } :=
    Function.update_self _ _ _
  constructor
  · rw [htask]
    show Mm.Drawn mm k.mm (q :: ms.pages)
    rw [hpages]
    exact h.drawn
  · rw [htask, h.rest]

include hplain

theorem owning_addStackTable (k' : Kernel) (hrun : k.addStackTable t = some (true, k')) :
    Owning mm p q t k' := by
  unfold addStackTable at hrun
  simp only [Option.pure_def, Option.bind_eq_bind, Option.bind_eq_some_iff, Prod.exists] at hrun
  rcases hrun with ⟨addr, mm₁, hget, hrun⟩
  by_cases hzero : addr = 0
  · rw [if_pos hzero, Option.some.injEq, Prod.mk.injEq] at hrun
    exact absurd hrun.1 (by decide)
  rw [if_neg hzero, Option.some.injEq, Prod.mk.injEq] at hrun
  rcases Mm.drawn_get mm k.mm _ h.drawn hplain mm₁ gfpPgt addr (by decide) hget hzero with
    ⟨r, _, hid, hdrawn⟩
  have hset := Mm.drawn_setPage mm mm₁ _ hdrawn r { mm₁.pageTable r with
    freeBase := add32 (mm₁.pageTable r).freeBase (pageSize - 4) } rfl rfl
  rw [hid] at hrun
  rw [← hrun.2]
  refine owning_enter mm p q t k h _ _ r hset (Function.update_self _ _ _) (fun a => ?_)
  simp only [MmStruct.pages, List.count_append, List.count_cons, List.count_nil]
  omega

theorem owning_addElfTable (k' : Kernel) (hrun : k.addElfTable t = some (true, k')) :
    Owning mm p q t k' := by
  unfold addElfTable at hrun
  simp only [Option.pure_def, Option.bind_eq_bind, Option.bind_eq_some_iff, Prod.exists] at hrun
  rcases hrun with ⟨addr, mm₁, hget, hrun⟩
  by_cases hzero : addr = 0
  · rw [if_pos hzero, Option.some.injEq, Prod.mk.injEq] at hrun
    exact absurd hrun.1 (by decide)
  rw [if_neg hzero, Option.some.injEq, Prod.mk.injEq] at hrun
  rcases Mm.drawn_get mm k.mm _ h.drawn hplain mm₁ gfpPgt addr (by decide) hget hzero with
    ⟨r, _, hid, hdrawn⟩
  rw [hid] at hrun
  rw [← hrun.2]
  refine owning_enter mm p q t k h _ _ r hdrawn (Function.update_self _ _ _) (fun a => ?_)
  simp only [MmStruct.pages, List.count_append, List.count_cons, List.count_nil]
  omega

/-- Entering a page into a table changes the entry of the table only. -/
theorem owning_addPage (elf : Bool) (k' : Kernel) (hrun : addPage t elf k = some (true, k')) :
    Owning mm p q t k' := by
  unfold addPage at hrun
  simp only [Option.pure_def, Option.bind_eq_bind, Option.bind_eq_some_iff, Prod.exists] at hrun
  rcases hrun with ⟨addr, mm₁, hget, hrun⟩
  by_cases hzero : addr = 0
  · rw [if_pos hzero, Option.some.injEq, Prod.mk.injEq] at hrun
    exact absurd hrun.1 (by decide)
  rw [if_neg hzero, Option.bind_eq_some_iff] at hrun
  rcases hrun with ⟨k₁, hmap, hrun⟩
  rcases Mm.drawn_get mm k.mm _ h.drawn hplain mm₁ gfpKernel addr (by decide) hget hzero with
    ⟨r, _, hid, hdrawn⟩
  rcases taskMapMemory_keeps _ k₁ addr t elf hmap with ⟨table, page, hmm, hflag, hcount, htask⟩
  have hset : Mm.Drawn mm k₁.mm (r :: q :: (k.task t).mm.pages) := by
    rw [hmm]
    exact Mm.drawn_setPage mm mm₁ _ hdrawn table page hflag hcount
  have hid' : k₁.mm.vaToPageId addr = r := by rw [hmm, ← hid]; rfl
  have hold : (k₁.task t).mm = (k.task t).mm := by rw [htask]; rfl
  rw [Option.some.injEq, Prod.mk.injEq, hid', hold] at hrun
  rw [← hrun.2]
  refine owning_enter mm p q t k h _ (enterPage (k.task t).mm elf r) r hset ?_ (fun a => ?_)
  · show Function.update _ t _ t = _
    rw [Function.update_self, htask]
    rfl
  · unfold enterPage
    cases elf with
    | false =>
        simp only [Bool.false_eq_true, if_false, MmStruct.pages, List.count_append,
          List.count_cons, List.count_nil]
        omega
    | true =>
        simp only [if_true, MmStruct.pages, List.count_append, List.count_cons, List.count_nil]
        omega

end Owning

/-- The pages that `release_task_memory` gives back besides the kernel stack. -/
def ownPages (k : Kernel) (t : Nat) : List Nat :=
  if (k.task t).flag &&& processTypeUser ≠ 0 then (k.task t).mm.pages else []

/-- What a new task owns is what was taken for it. -/
theorem allocMemoryForTask_drawn (k k' : Kernel) (t : Nat) (hplain : k.mm.PlainMap)
    (hpages : (k.mm.zone .normal).freePages < u32Size)
    (hsize : (k.mm.zone .normal).freeSize < u32Size) (hempty : k.ownPages t = [])
    (h : k.allocMemoryForTask t = some (0, k')) :
    ∃ q, k.mm.pageIdToVa q ≠ 0 ∧ (k'.task t).stackOrigin = k.mm.pageIdToVa q ∧
      (k'.task t).flag = (k.task t).flag ∧ Mm.Drawn k.mm k'.mm (q :: k'.ownPages t) := by
  rcases allocMemoryForTask_ok k k' t h with ⟨k₁, hstack, h⟩
  rcases allocKernelStack_cases k k₁ t hplain hstack with ⟨a, mm₁, hget, _, hne, hmm₁, htask, _⟩
  rcases Mm.drawn_get k.mm k.mm [] (Mm.drawn_refl k.mm hpages hsize) hplain mm₁ gfpKernel _
    (by decide) hget hne with ⟨q, hq, _, hdrawn⟩
  rw [hq] at hne htask
  refine ⟨q, hne, ?_⟩
  have hself : k₁.task t = { k.task t with
      stackBase := k.mm.pageIdToVa q
      stackOrigin := k.mm.pageIdToVa q } := by
    rw [htask, Function.update_self]
  have hflag : (k₁.task t).flag = (k.task t).flag := by rw [hself]
  unfold ownPages at hempty ⊢
  by_cases huser : (k₁.task t).flag &&& processTypeUser ≠ 0
  swap
  · rw [if_neg huser] at h
    rw [h, if_neg huser, hflag, hself, hmm₁]
    exact ⟨rfl, rfl, hdrawn⟩
  rw [if_pos huser] at h
  rw [← hflag, if_pos huser] at hempty
  -- The stack comes first, and goes with a user task that has no page.
  have hfirst : Owning k.mm (k₁.task t) q t k₁ := by
    refine ⟨?_, rfl⟩
    rw [hmm₁, hself]
    show Mm.Drawn k.mm mm₁ (q :: (k.task t).mm.pages)
    rw [hempty]
    exact hdrawn
  rcases h with ⟨k₂, htable, hmap⟩
  rcases allocPageTable_ok k₁ k₂ t htable with ⟨k₃, k₄, hone, htwo, rfl⟩
  have h₃ := owning_addStackTable _ _ _ _ _ hfirst hplain k₃ (whileOk_one _ _ _ hone)
  have h₃' := owning_setTaskMm _ _ _ _ _ h₃ { (k₃.task t).mm with
    stackCurr := (k₃.task t).mm.stackList.head? } rfl
  have h₄ := owning_addElfTable _ _ _ _ _ h₃' hplain k₄ (whileOk_one _ _ _ htwo)
  have h₅ := owning_setTaskMm _ _ _ _ _ h₄ { (k₄.task t).mm with
    elfCurr := (k₄.task t).mm.elfList.head? } rfl
  rcases allocMemoryAndMap_ok _ k' t hmap with ⟨k₆, hloop, hloop'⟩
  have h₆ := whileOk_steps (addPage t false) (fun _ => Owning k.mm _ q t)
    (fun _ k₁ k₂ hk hrun => owning_addPage _ _ _ _ k₁ hk hplain false k₂ hrun) 4 0 _ k₆ h₅ hloop
  have h₇ := whileOk_steps (addPage t true) (fun _ => Owning k.mm _ q t)
    (fun _ k₁ k₂ hk hrun => owning_addPage _ _ _ _ k₁ hk hplain true k₂ hrun) 256 0 k₆ k' h₆ hloop'
  have horigin : (k'.task t).stackOrigin = k.mm.pageIdToVa q := by rw [h₇.rest, hself]
  have hflag' : (k'.task t).flag = (k₁.task t).flag := by rw [h₇.rest]
  rw [hflag', if_pos huser]
  exact ⟨horigin, hflag, h₇.drawn⟩

/-- The pages on the lists of a task, by their heads. -/
def taskList (ms : MmStruct) : PageNode → List Nat
  | .elfStackList _ => ms.elfStackList
  | .elfImageList _ => ms.elfImageList
  | .stackList _ => ms.stackList
  | .elfList _ => ms.elfList
  | _ => []

theorem taskList_length (ms : MmStruct) (h : PageNode) :
    (taskList ms h).length ≤ ms.pages.length := by
  unfold MmStruct.pages
  cases h <;> simp only [taskList, List.length_append, List.length_nil] <;> omega

theorem releaseList_some (k : Kernel) (ps : List Nat) (mm : Mm) (h : k.mm.freeAll ps = some mm) :
    k.releaseList ps = some (k.setMm mm) :=
  Option.bind_eq_some_iff.mpr ⟨mm, h, rfl⟩

/-- The two lists of pages and the two lists of tables are given back, and are empty. -/
theorem releaseTaskPages_some (k : Kernel) (t : Nat) (mm mm' : Mm)
    (h : k.mm.freeAll (k.task t).mm.elfStackList = some mm)
    (h' : mm.freeAll (k.task t).mm.elfImageList = some mm') :
    k.releaseTaskPages t = some ((k.setMm mm').setTaskMm t
      { (k.task t).mm with elfStackList := [], elfImageList := [] }) :=
  Option.bind_eq_some_iff.mpr ⟨_, releaseList_some k _ mm h,
    Option.bind_eq_some_iff.mpr ⟨_, releaseList_some (k.setMm mm) _ mm' h', rfl⟩⟩

theorem releaseTaskPageTable_some (k : Kernel) (t : Nat) (mm mm' : Mm)
    (h : k.mm.freeAll (k.task t).mm.stackList = some mm)
    (h' : mm.freeAll (k.task t).mm.elfList = some mm') :
    k.releaseTaskPageTable t = some ((k.setMm mm').setTaskMm t
      { (k.task t).mm with stackList := [], elfList := [] }) :=
  Option.bind_eq_some_iff.mpr ⟨_, releaseList_some k _ mm h,
    Option.bind_eq_some_iff.mpr ⟨_, releaseList_some (k.setMm mm) _ mm' h', rfl⟩⟩

theorem releaseKernelStack_some (k : Kernel) (t : Nat) (mm : Mm)
    (horigin : (k.task t).stackOrigin ≠ 0) (h : k.mm.freePages (k.task t).stackOrigin = some mm) :
    k.releaseKernelStack t =
      some ((k.setMm mm).setTask t { k.task t with stackBase := 0, stackOrigin := 0 }) := by
  unfold releaseKernelStack
  rw [if_pos horigin, h]
  rfl

/-- The parts of `release_task_memory` give back the pages of the task and the stack. -/
theorem releaseTaskMemory_some (k : Kernel) (t : Nat) (mm mm' : Mm)
    (hpages : k.mm.freeAll (k.ownPages t) = some mm) (horigin : (k.task t).stackOrigin ≠ 0)
    (hstack : mm.freePages (k.task t).stackOrigin = some mm') :
    ∃ k', k.releaseTaskMemory t = some k' ∧ k'.mm = mm' ∧
      ((k.task t).flag &&& processTypeUser ≠ 0 → EmptyMm (k'.task t).mm) := by
  unfold ownPages at hpages
  by_cases huser : (k.task t).flag &&& processTypeUser ≠ 0
  · rw [if_pos huser] at hpages
    rcases Mm.freeAll_append _ _ _ _ hpages with ⟨mm₁, h₁, hpages⟩
    rcases Mm.freeAll_append _ _ _ _ hpages with ⟨mm₂, h₂, hpages⟩
    rcases Mm.freeAll_append _ _ _ _ hpages with ⟨mm₃, h₃, h₄⟩
    have hfirst := releaseTaskPages_some k t mm₁ mm₂ h₁ h₂
    set k₁ := (k.setMm mm₂).setTaskMm t
      { (k.task t).mm with elfStackList := [], elfImageList := [] } with hk₁
    have htask₁ : k₁.task t = { k.task t with mm :=
        { (k.task t).mm with elfStackList := [], elfImageList := [] } } :=
      Function.update_self _ _ _
    have hsecond := releaseTaskPageTable_some k₁ t mm₃ mm (by rw [htask₁]; exact h₃)
      (by rw [htask₁]; exact h₄)
    set k₂ := (k₁.setMm mm).setTaskMm t
      { (k₁.task t).mm with stackList := [], elfList := [] } with hk₂
    have htask₂ : k₂.task t = { k₁.task t with mm :=
        { (k₁.task t).mm with stackList := [], elfList := [] } } :=
      Function.update_self _ _ _
    have horigin₂ : (k₂.task t).stackOrigin = (k.task t).stackOrigin := by rw [htask₂, htask₁]
    have hthird := releaseKernelStack_some k₂ t mm' (by rw [horigin₂]; exact horigin)
      (by rw [horigin₂]; exact hstack)
    refine ⟨(k₂.setMm mm').setTask t { k₂.task t with stackBase := 0, stackOrigin := 0 }, ?_, rfl,
      fun _ => ?_⟩
    · unfold releaseTaskMemory
      simp only [if_pos huser, hfirst, hsecond, hthird, Option.bind_eq_bind, Option.bind_some]
    · show EmptyMm (Function.update k₂.task t _ t).mm
      rw [Function.update_self, htask₂, htask₁]
      exact ⟨rfl, rfl, rfl, rfl⟩
  · rw [if_neg huser] at hpages
    cases hpages
    refine ⟨(k.setMm mm').setTask t { k.task t with stackBase := 0, stackOrigin := 0 }, ?_, rfl,
      fun hc => absurd hc huser⟩
    unfold releaseTaskMemory
    rw [if_neg huser]
    exact Option.bind_eq_some_iff.mpr ⟨k, rfl, releaseKernelStack_some k t mm' horigin hstack⟩

/-- The same on the pointers. -/
theorem releaseTaskMemoryAt_some (k : Kernel) (links : Links PageNode) (t : Nat) (mm mm' : Mm)
    (hrings : (k.task t).flag &&& processTypeUser ≠ 0 →
      Rings links {h | h ∈ taskHeads t} (fun h => (taskList (k.task t).mm h).map .page))
    (hlen : (k.ownPages t).length < u32Size)
    (hpages : k.mm.freeAll (k.ownPages t) = some mm) (horigin : (k.task t).stackOrigin ≠ 0)
    (hstack : mm.freePages (k.task t).stackOrigin = some mm') :
    ∃ links', k.releaseTaskMemoryAt links t =
        some ((k.ownPages t).map k.mm.pageIdToVa ++ [(k.task t).stackOrigin], links', mm') ∧
      ((k.task t).flag &&& processTypeUser ≠ 0 →
        ∀ h ∈ taskHeads t, isListEmpty links' h = true) := by
  unfold ownPages at hpages hlen ⊢
  unfold releaseTaskMemoryAt
  by_cases huser : (k.task t).flag &&& processTypeUser ≠ 0
  · rw [if_pos huser] at hpages hlen
    have hflat : (taskHeads t).flatMap (taskList (k.task t).mm) = (k.task t).mm.pages := by
      simp only [taskHeads, List.flatMap_cons, List.flatMap_nil, List.append_nil, taskList]
      rfl
    rcases releaseHeads_rings {h | h ∈ taskHeads t} (taskHeads t) links
      (taskList (k.task t).mm) k.mm mm (by simp [taskHeads]) (fun h hh => hh) (hrings huser)
      (fun h _ => Nat.lt_of_le_of_lt (taskList_length _ h) hlen)
      (by rw [hflat]; exact hpages) with ⟨links', hrun, hr'⟩
    refine ⟨links', ?_, fun _ h hh => ?_⟩
    · simp only [if_pos huser, hrun, hflat, hstack, if_pos horigin, Option.pure_def,
        Option.bind_eq_bind, Option.bind_some]
    · refine (isListEmpty_iff links' _ _ h hr' hh).mpr ?_
      exact if_pos hh
  · rw [if_neg huser] at hpages
    cases hpages
    refine ⟨links, ?_, fun hc => absurd hc huser⟩
    simp only [if_neg huser, hstack, if_pos horigin, Option.pure_def, Option.bind_eq_bind,
      Option.bind_some, List.map_nil]

/-- Whatever a task got comes back: the page map and the counters are as before, the lists
    of a user task are empty, and each page is given back once. -/
theorem releaseTaskMemory_returns (k k' : Kernel) (t : Nat) (links : Links PageNode)
    (hplain : k.mm.PlainMap) (hpages : (k.mm.zone .normal).freePages < u32Size)
    (hsize : (k.mm.zone .normal).freeSize < u32Size)
    (hempty : (k.task t).flag &&& processTypeUser ≠ 0 → EmptyMm (k.task t).mm)
    (halloc : k.allocMemoryForTask t = some (0, k'))
    (hrings : (k.task t).flag &&& processTypeUser ≠ 0 →
      Rings links {h | h ∈ taskHeads t} (fun h => (taskList (k'.task t).mm h).map .page)) :
    ∃ (pages : List Nat) (links' : Links PageNode) (k'' : Kernel),
      k'.releaseTaskMemory t = some k'' ∧
      k'.releaseTaskMemoryAt links t = some (pages.map k.mm.pageIdToVa, links', k''.mm) ∧
      k''.mm.pageMap = k.mm.pageMap ∧
      (∀ z, (k''.mm.zone z).freePages = (k.mm.zone z).freePages ∧
        (k''.mm.zone z).freeSize = (k.mm.zone z).freeSize) ∧
      ((k.task t).flag &&& processTypeUser ≠ 0 → EmptyMm (k''.task t).mm ∧
        ∀ h ∈ taskHeads t, isListEmpty links' h = true) ∧
      pages.Nodup ∧
      ∀ q, q ∈ pages ↔ used k.mm.pageMap q = false ∧ used k'.mm.pageMap q = true := by
  have hnone : k.ownPages t = [] := by
    unfold ownPages
    by_cases huser : (k.task t).flag &&& processTypeUser ≠ 0
    · rcases hempty huser with ⟨h₁, h₂, h₃, h₄⟩
      rw [if_pos huser, MmStruct.pages, h₁, h₂, h₃, h₄]
      rfl
    · exact if_neg huser
  rcases allocMemoryForTask_drawn k k' t hplain hpages hsize hnone halloc with
    ⟨q, hne, horigin, hflag, hdrawn⟩
  have hperm : (k'.ownPages t ++ [q]).Perm (q :: k'.ownPages t) := List.perm_append_singleton q _
  have hdrawn' := Mm.drawn_perm k.mm k'.mm _ hdrawn _ hperm
  -- The stack is the last page that goes back.
  rcases Mm.drawn_freeAll k.mm hplain [q] _ k'.mm hdrawn' with ⟨mm₁, hown, h₁⟩
  rcases Mm.drawn_free k.mm mm₁ [q] h₁ hplain q List.mem_cons_self with ⟨mm₂, hstack, h₂⟩
  rw [List.erase_cons_head] at h₂
  have hstack' : mm₁.freePages (k'.task t).stackOrigin = some mm₂ := by rw [horigin]; exact hstack
  have hnz : (k'.task t).stackOrigin ≠ 0 := by rw [horigin]; exact hne
  have hshort : (k'.ownPages t).length < u32Size := by
    have hlen := Mm.drawn_length k.mm k'.mm _ hdrawn
    have hwords := hplain.words
    rw [List.length_cons] at hlen
    unfold u32Size
    omega
  rcases releaseTaskMemory_some k' t mm₁ mm₂ hown hnz hstack' with ⟨k'', hrun, hmm, hlists⟩
  rcases releaseTaskMemoryAt_some k' links t mm₁ mm₂ (by rw [hflag]; exact hrings) hshort hown hnz
    hstack' with ⟨links', hrunAt, hheads⟩
  have hback := Mm.drawn_nil k.mm mm₂ [] h₂ rfl
  refine ⟨k'.ownPages t ++ [q], links', k'', hrun, ?_, ?_, ?_, ?_, hdrawn'.nodup, fun r => ?_⟩
  · rw [hmm, List.map_append, List.map_singleton, ← horigin,
      ← funext (Mm.pageIdToVa_same k.mm k'.mm hdrawn.bank)]
    exact hrunAt
  · rw [hmm]
    exact hback.1
  · rw [hmm]
    exact hback.2
  · rw [← hflag]
    exact fun huser => ⟨hlists huser, hheads huser⟩
  · rw [hdrawn'.bits r]
    constructor
    · intro hr
      exact ⟨(hdrawn'.clear r hr).1, if_pos hr⟩
    · rintro ⟨hclear, hused⟩
      by_contra hr
      rw [if_neg hr, hclear] at hused
      exact absurd hused (by decide)

/-- The heads of a task by their place. -/
def taskHead (t : Nat) : Fin 4 → PageNode
  | 0 => .elfStackList t
  | 1 => .elfImageList t
  | 2 => .stackList t
  | 3 => .elfList t

theorem mem_taskHeads (t : Nat) (h : PageNode) : h ∈ taskHeads t ↔ ∃ i, h = taskHead t i := by
  simp only [taskHeads, Fin.exists_fin_succ, Fin.exists_fin_zero, List.mem_cons, List.not_mem_nil]
  exact Iff.rfl

/-- There are pointers for the lists of a task. -/
theorem exists_ownLinks (ms : MmStruct) (t : Nat) (hnodup : ms.pages.Nodup) :
    ∃ links, Rings links {h | h ∈ taskHeads t} (fun h => (taskList ms h).map .page) := by
  have hinj : Function.Injective (taskHead t) := by
    intro i j hij
    fin_cases i <;> fin_cases j <;> first | rfl | cases hij
  rcases exists_hangs (taskHead t) PageNode.page hinj (fun _ _ h => PageNode.page.inj h)
    (fun i q h => by fin_cases i <;> cases h)
    (ms.elfStackList.map (fun q => (0, q)) ++ (ms.elfImageList.map (fun q => (1, q)) ++
      (ms.stackList.map (fun q => (2, q)) ++ ms.elfList.map (fun q => (3, q))))) (by
      simpa only [MmStruct.pages, List.map_append, List.map_map, Function.comp_def, List.map_id']
        using hnodup) with ⟨links, f, hr, hf⟩
  have hheads : {a | ∃ i, True ∧ a = taskHead t i} = {h | h ∈ taskHeads t} := by
    ext h
    exact (exists_congr (fun i => iff_of_eq (true_and _))).trans (mem_taskHeads t h).symm
  rw [hheads] at hr
  have hsame : ∀ h ∈ taskHeads t, f h = (taskList ms h).map .page := by
    intro h hh
    rcases (mem_taskHeads t h).mp hh with ⟨i, rfl⟩
    rw [hf i trivial]
    simp only [List.filter_append, List.map_append, filter_tagged]
    fin_cases i <;> simp [taskHead, taskList]
  refine ⟨links, fun h hh => ?_, fun h hh h' hh' hne => ?_⟩
  · show Ring links h ((taskList ms h).map .page)
    rw [← hsame h hh]
    exact hr.1 h hh
  · dsimp only
    rw [← hsame h hh, ← hsame h' hh']
    exact hr.2 h hh h' hh' hne

end Kernel

/-- A user task of the board gets its memory and gives it back. -/
theorem releaseTaskMemory_returns_user : ∃ (k' k'' : Kernel) (links links' : Links PageNode)
    (pages : List Nat),
    ((newUserKernel (fun _ => 0#8)).initMmStruct 0x80140000 0).allocMemoryForTask 0x80140000
      = some (0, k') ∧ k'.releaseTaskMemory 0x80140000 = some k'' ∧
    k'.releaseTaskMemoryAt links 0x80140000 = some
      (pages.map (newUserKernel (fun _ => 0#8)).mm.pageIdToVa, links', k''.mm) ∧
    k''.mm.pageMap = (newUserKernel (fun _ => 0#8)).mm.pageMap := by
  rcases newUserKernel_alloc 0#8 (Or.inl rfl) with ⟨k', halloc, _⟩
  have huser : ((newUserKernel (fun _ => 0#8)).task 0x80140000).flag &&& processTypeUser ≠ 0 := by
    rw [newUserKernel_flag]
    decide
  set k := (newUserKernel (fun _ => 0#8)).initMmStruct 0x80140000 0 with hk
  have hmm : k.mm = (newUserKernel (fun _ => 0#8)).mm := by
    rw [hk, Kernel.initMmStruct, if_pos huser]
    rfl
  have hempty : Kernel.EmptyMm (k.task 0x80140000).mm := by
    rw [hk, Kernel.initMmStruct, if_pos huser, Kernel.setTaskMm, Kernel.setTask]
    dsimp only
    rw [Function.update_self]
    exact ⟨rfl, rfl, rfl, rfl⟩
  have hplain : k.mm.PlainMap := hmm ▸ userKernel_plain (fun _ => 0#8)
  have hcounts : (k.mm.zone .normal).freePages < u32Size ∧
      (k.mm.zone .normal).freeSize < u32Size := by
    rw [hmm]
    exact ⟨by decide +kernel, by decide +kernel⟩
  have hnone : k.ownPages 0x80140000 = [] := by
    rcases hempty with ⟨h₁, h₂, h₃, h₄⟩
    rw [Kernel.ownPages, MmStruct.pages, h₁, h₂, h₃, h₄]
    exact ite_self _
  rcases Kernel.allocMemoryForTask_drawn k k' 0x80140000 hplain hcounts.1 hcounts.2 hnone halloc with
    ⟨q, _, _, hflag, hdrawn⟩
  -- The pages of the task are different, so there are lists of them.
  have huser' : (k'.task 0x80140000).flag &&& processTypeUser ≠ 0 := by
    rw [hflag, hk, Kernel.initMmStruct, if_pos huser, Kernel.setTaskMm, Kernel.setTask]
    dsimp only
    rw [Function.update_self]
    exact huser
  have hnodup := (List.nodup_cons.mp hdrawn.nodup).2
  rw [Kernel.ownPages, if_pos huser'] at hnodup
  rcases Kernel.exists_ownLinks _ 0x80140000 hnodup with ⟨links, hrings⟩
  rcases Kernel.releaseTaskMemory_returns k k' 0x80140000 links hplain hcounts.1 hcounts.2
    (fun _ => hempty) halloc (fun _ => hrings) with
    ⟨pages, links', k'', hrun, hrunAt, hmap, _⟩
  rw [hmm] at hrunAt hmap
  exact ⟨k', k'', links, links', pages, halloc, hrun, hrunAt, hmap⟩

end Mirros
