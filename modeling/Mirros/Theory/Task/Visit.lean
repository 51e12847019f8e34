import Mirros.Core.PageLists
import Mirros.Lib.Hang
import Mirros.Theory.Task.Copy

/-!
# The Pages a Fork Visits

`copy_process_memory` walks the lists of two tasks for as many steps as `stack_size` and
`elf_size` make pages. The first is the distance of the stack pointer of the caller from
the top of its stack, and a user can put anything into its stack pointer; the second is
the sum of the sizes of the sections. The lists have 4 and 256 pages. A walk of one step
more takes the head of the list for a page.

Both sizes are signed and so is the number of their pages. A stack pointer above the stack,
or one so low that the size or its rounding is 2^31 or more, makes a negative number or
zero, and nothing is copied. That is the other end of both conditions.

## Main definitions

* `PagesOnly`: The nodes that are visited on the lists of a task are its pages.
* `TaskLinks`: The pointers of the lists of a task.
* `Forking`: A fork that has come to `copy_process_memory`.

## Theorems

* `visits_pages`: A walk visits pages only if it is no longer than the list.
* `copyNodes_eq`: The loop on the pointers is the loop on the sequences.
* `pageTurns_le`: When a size makes few turns.
* `copyProcessMemory_visits`: When a fork visits pages only.
-/

namespace Mirros

section Walk

variable (links : Links PageNode) (h : PageNode)

/-- A walk that is not longer than the list. -/
theorem visits_take (xs : List PageNode) (n : Nat) : ∀ a : PageNode,
    Forward links (a :: xs ++ [h]) → n ≤ xs.length → visits links n a = xs.take n := by
  induction xs generalizing n with
  | nil =>
      intro a _ hn
      rw [Nat.le_zero.mp hn]
      rfl
  | cons x xs ih =>
      intro a hf hn
      cases n with
      | zero => rfl
      | succ n =>
          rcases List.isChain_cons_cons.mp hf with ⟨hax, hrest⟩
          rw [visits, hax, List.take_succ_cons, ih n x hrest (Nat.le_of_succ_le_succ hn)]

/-- A longer one comes to the head. -/
theorem visits_head (xs : List PageNode) (n : Nat) : ∀ a : PageNode,
    Forward links (a :: xs ++ [h]) → xs.length < n → h ∈ visits links n a := by
  induction xs generalizing n with
  | nil =>
      intro a hf hn
      rcases Nat.exists_eq_succ_of_ne_zero (Nat.ne_of_gt hn) with ⟨m, rfl⟩
      rw [visits, (List.isChain_cons_cons.mp hf).1]
      exact List.mem_cons_self
  | cons x xs ih =>
      intro a hf hn
      rcases Nat.exists_eq_succ_of_ne_zero (Nat.ne_of_gt (Nat.lt_of_le_of_lt (Nat.zero_le _) hn)) with
        ⟨m, rfl⟩
      rcases List.isChain_cons_cons.mp hf with ⟨hax, hrest⟩
      rw [visits, hax]
      exact List.mem_cons_of_mem _ (ih m x hrest (Nat.lt_of_succ_lt_succ hn))

/-- The nodes that are visited are pages of the list if and only if the walk is not
    longer than the list. -/
theorem visits_pages (qs : List Nat) (hring : Ring links h (qs.map PageNode.page)) (n : Nat) :
    (∀ v ∈ visits links n h, ∃ q ∈ qs, v = .page q) ↔ n ≤ qs.length := by
  have hf := forward_of_linked links _ hring.2
  rw [← List.length_map PageNode.page]
  constructor
  · intro hall
    by_contra hn
    rcases hall h (visits_head links h _ n h hf (Nat.lt_of_not_le hn)) with ⟨q, hq, rfl⟩
    -- The head is not one of the pages.
    exact (List.nodup_cons.mp hring.1).1 (List.mem_map_of_mem hq)
  · intro hn v hv
    rw [visits_take links h _ n h hf hn] at hv
    rcases List.mem_map.mp (List.mem_of_mem_take hv) with ⟨q, hq, rfl⟩
    exact ⟨q, hq, rfl⟩

/-- The loop on the pointers of two lists that are long enough. -/
theorem copyNodes_eq (h' : PageNode) (mm : Mm) (n : Nat) :
    ∀ (olds news : List Nat) (a b : PageNode) (ram : Ram),
      Forward links (a :: olds.map PageNode.page ++ [h]) →
      Forward links (b :: news.map PageNode.page ++ [h']) → n ≤ olds.length → n ≤ news.length →
      Kernel.copyNodes mm links n a b ram = Kernel.copyPages mm n olds news ram := by
  induction n with
  | zero =>
      intro olds news a b ram _ _ _ _
      rfl
  | succ n ih =>
      intro olds news a b ram hold hnew hlo hln
      cases olds with
      | nil => exact absurd hlo (Nat.not_succ_le_zero n)
      | cons old olds =>
      cases news with
      | nil => exact absurd hln (Nat.not_succ_le_zero n)
      | cons new news =>
      rcases List.isChain_cons_cons.mp hold with ⟨hao, hold'⟩
      rcases List.isChain_cons_cons.mp hnew with ⟨hbn, hnew'⟩
      simp only [Kernel.copyNodes, hao, hbn, Kernel.copyPages]
      exact ih olds news _ _ _ hold' hnew' (Nat.le_of_succ_le_succ hlo)
        (Nat.le_of_succ_le_succ hln)

end Walk

/-- A size makes few turns if it is small, or if the number of its pages is not positive. -/
theorem pageTurns_le (n c : Nat) (hn : n < u32Size) :
    pageTurns n ≤ c ↔ n ≤ c * pageSize ∨ 0x80000000 < n + pageSize := by
  by_cases hsmall : n + pageSize ≤ 0x80000000
  · rw [Kernel.pageTurns_eq n hsmall]
    unfold pageSize at *
    omega
  · rw [Kernel.pageTurns_zero n hn (Nat.not_le.mp hsmall)]
    exact ⟨fun _ => Or.inr (Nat.not_le.mp hsmall), fun _ => Nat.zero_le c⟩

/-- The stack pointers for which the stack is not too long. -/
theorem stackPages_le (userSp : Nat) (h : userSp < u32Size) :
    pageTurns (sub32 processUserStackBase userSp) ≤ 4 ↔
      processUserStackBase - processStackSize ≤ userSp ∨ userSp < pageSize := by
  have hword : sub32 processUserStackBase userSp < u32Size := Nat.mod_lt _ (by decide)
  rw [pageTurns_le _ 4 hword]
  unfold sub32 processUserStackBase processStackSize pageSize u32Size at *
  omega

/-- The sizes for which the image is not too long. -/
theorem imagePages_le (elfSize : Nat) (h : elfSize < u32Size) :
    pageTurns (add32 elfSize pageSize) ≤ 256 ↔
      elfSize + pageSize ≤ processImageSize ∨ 0x80000000 < elfSize + 2 * pageSize := by
  have hword : add32 elfSize pageSize < u32Size := Nat.mod_lt _ (by decide)
  rw [pageTurns_le _ 256 hword]
  unfold add32 processImageSize pageSize u32Size at *
  omega

namespace Kernel

/-- The nodes that are visited on the lists of a task, `s` on the one of its stack and `e`
    on the one of its image, are pages on these lists. -/
def PagesOnly (links : Links PageNode) (k : Kernel) (t s e : Nat) : Prop :=
  (∀ v ∈ visits links s (.elfStackList t), ∃ q ∈ (k.task t).mm.elfStackList, v = .page q) ∧
    ∀ v ∈ visits links e (.elfImageList t), ∃ q ∈ (k.task t).mm.elfImageList, v = .page q

/-- The pointers are those of the lists of the task. -/
structure TaskLinks (links : Links PageNode) (k : Kernel) (t : Nat) : Prop where
  stack : Ring links (.elfStackList t) ((k.task t).mm.elfStackList.map .page)
  image : Ring links (.elfImageList t) ((k.task t).mm.elfImageList.map .page)

theorem pagesOnly_iff (links : Links PageNode) (k : Kernel) (t s e : Nat)
    (h : TaskLinks links k t) : PagesOnly links k t s e ↔
      s ≤ (k.task t).mm.elfStackList.length ∧ e ≤ (k.task t).mm.elfImageList.length := by
  unfold PagesOnly
  rw [visits_pages links _ _ h.stack, visits_pages links _ _ h.image]

/-- The copy loop leaves everything out of the new pages alone. -/
theorem copyPages_outside (mm : Mm) (n : Nat) :
    ∀ (olds news : List Nat) (ram ram' : Ram), copyPages mm n olds news ram = some ram' →
      ∀ x, (∀ q ∈ news, ¬(mm.pageIdToVa q ≤ x ∧ x < mm.pageIdToVa q + pageSize)) →
        ram' x = ram x := by
  induction n with
  | zero =>
      intro olds news ram ram' hrun x _
      rw [copyPages, Option.some.injEq] at hrun
      rw [hrun]
  | succ n ih =>
      intro olds news ram ram' hrun x hx
      cases olds with
      | nil => exact absurd hrun (by simp only [copyPages, reduceCtorEq, not_false_eq_true])
      | cons old olds =>
      cases news with
      | nil => exact absurd hrun (by simp only [copyPages, reduceCtorEq, not_false_eq_true])
      | cons new news =>
      rw [copyPages] at hrun
      rw [ih olds news _ ram' hrun x (fun q hq => hx q (List.mem_cons_of_mem _ hq))]
      unfold copyPageVa
      rw [if_neg (hx new List.mem_cons_self)]

theorem copyProcessMemory_some (k : Kernel) (old new : Nat) (ram₁ ram₂ : Ram)
    (h₁ : copyPages k.mm (pageTurns (k.task new).mm.stackSize) (k.task old).mm.elfStackList
      (k.task new).mm.elfStackList k.ram = some ram₁)
    (h₂ : copyPages k.mm (pageTurns (add32 (k.task new).mm.elfSize pageSize))
      (k.task old).mm.elfImageList (k.task new).mm.elfImageList ram₁ = some ram₂) :
    k.copyProcessMemory old new = some { k with ram := ram₂ } :=
  Option.bind_eq_some_iff.2 ⟨ram₁, h₁, Option.bind_eq_some_iff.2 ⟨ram₂, h₂, rfl⟩⟩

/-- `copy_process_memory` on lists that are long enough. -/
theorem copyProcessMemoryAt_eq (links : Links PageNode) (k : Kernel) (old new : Nat)
    (hold : TaskLinks links k old) (hnew : TaskLinks links k new)
    (hstack : pageTurns (k.task new).mm.stackSize ≤ (k.task old).mm.elfStackList.length ∧
      pageTurns (k.task new).mm.stackSize ≤ (k.task new).mm.elfStackList.length)
    (himage : pageTurns (add32 (k.task new).mm.elfSize pageSize) ≤
        (k.task old).mm.elfImageList.length ∧
      pageTurns (add32 (k.task new).mm.elfSize pageSize) ≤ (k.task new).mm.elfImageList.length) :
    k.copyProcessMemoryAt links old new = k.copyProcessMemory old new := by
  have hs := fun ram => copyNodes_eq links (.elfStackList old) (.elfStackList new) k.mm _ _ _ _ _ ram
    (forward_of_linked links _ hold.stack.2) (forward_of_linked links _ hnew.stack.2) hstack.1
    hstack.2
  have hi := fun ram => copyNodes_eq links (.elfImageList old) (.elfImageList new) k.mm _ _ _ _ _ ram
    (forward_of_linked links _ hold.image.2) (forward_of_linked links _ hnew.image.2) himage.1
    himage.2
  unfold copyProcessMemoryAt copyProcessMemory
  simp only [hs, hi]

/-- A fork of the task that runs that has allocated the memory of the child, and comes to
    `copy_process_memory`. -/
structure Forking (k k₁ : Kernel) (userSp flag new : Nat) : Prop where
  plain : Mm.PlainMap k.mm
  running : k.current ≠ 0
  own : PagesOf k k.current
  loaded : ∃ (k₂ k₃ : Kernel) (file file' : RamFile) (sections : List ElfSection),
    k₂.loadElfImage k.current file sections = some (0, file', k₃) ∧
      (k.task k.current).mm.elfSize = (k₃.task k.current).mm.elfSize
  user : flag &&& processTypeUser ≠ 0
  notKernel : flag &&& processTypeKernel = 0
  child : new ≠ 0 ∧ new ≠ k.current ∧ k.forkNewTask userSp flag = some (new, k₁)

/-- The lists and the sizes of the two tasks. -/
theorem forking_sizes (k k₁ : Kernel) (userSp flag new : Nat) (h : Forking k k₁ userSp flag new) :
    (k₁.task k.current).mm = (k.task k.current).mm ∧
      (k₁.task new).mm.stackSize = sub32 processUserStackBase userSp ∧
      (k₁.task new).mm.elfSize = (k.task k.current).mm.elfSize ∧
      (k₁.task new).mm.elfStackList.length = 4 ∧ (k₁.task new).mm.elfImageList.length = 256 ∧
      (k.task k.current).mm.elfSize < u32Size := by
  rcases h.child with ⟨hzero, hne, hnew⟩
  rcases forkNewTask_user k k₁ userSp flag new h.plain h.user h.notKernel hzero hne hnew with
    ⟨k₂, q, qs, qe, ps, rs, hf⟩
  have hself := forked_task k k₂ k₁ new userSp flag q qs qe ps rs hf
  rcases h.loaded with ⟨k₃, k₄, file, file', sections, hload, hsize⟩
  rcases loadElfImage_size k₃ k₄ _ file file' sections hload with ⟨-, -, htask, -⟩
  refine ⟨forked_parent k k₂ k₁ new userSp flag q qs qe ps rs hf hne, ?_, ?_, ?_, ?_, ?_⟩
  · rw [hself]
    exact hf.stackSize
  · rw [hself]
    exact hf.elfSize
  · rw [hself]
    exact hf.stackPages
  · rw [hself]
    exact hf.imagePages
  · rw [hsize, htask, Function.update_self]
    exact Nat.mod_lt _ (by decide)

/-- `copy_process_memory` visits pages of the two tasks only, and changes no memory out of
    the pages of the child, if and only if the stack pointer of the parent is in the stack
    or above, or in the first page of all, and the sections with the page of the arguments
    are no longer than the image or so long that the number of their pages is not positive. -/
theorem copyProcessMemory_visits (k k₁ : Kernel) (userSp flag new : Nat)
    (h : Forking k k₁ userSp flag new) (hsp : userSp < u32Size) (links : Links PageNode)
    (hold : TaskLinks links k₁ k.current) (hnew : TaskLinks links k₁ new) :
    (PagesOnly links k₁ k.current (pageTurns (k₁.task new).mm.stackSize)
        (pageTurns (add32 (k₁.task new).mm.elfSize pageSize)) ∧
      PagesOnly links k₁ new (pageTurns (k₁.task new).mm.stackSize)
        (pageTurns (add32 (k₁.task new).mm.elfSize pageSize)) ∧
      ∃ k₂, k₁.copyProcessMemoryAt links k.current new = some k₂ ∧
        ∀ x, (∀ q ∈ (k₁.task new).mm.elfStackList ++ (k₁.task new).mm.elfImageList,
          ¬(k₁.mm.pageIdToVa q ≤ x ∧ x < k₁.mm.pageIdToVa q + pageSize)) → k₂.ram x = k₁.ram x) ↔
    (processUserStackBase - processStackSize ≤ userSp ∨ userSp < pageSize) ∧
      ((k.task k.current).mm.elfSize + pageSize ≤ processImageSize ∨
        0x80000000 < (k.task k.current).mm.elfSize + 2 * pageSize) := by
  rcases forking_sizes k k₁ userSp flag new h with ⟨hpar, hs, he, hls, hle, hlt⟩
  have hown := h.own
  rw [pagesOnly_iff links k₁ _ _ _ hold, pagesOnly_iff links k₁ _ _ _ hnew, hpar, hls, hle,
    hown.stack, hown.image]
  have hstack := stackPages_le userSp hsp
  have himage := imagePages_le (k.task k.current).mm.elfSize hlt
  rw [← hs] at hstack
  have himage' : pageTurns (add32 (k₁.task new).mm.elfSize pageSize) ≤ 256 ↔
      ((k.task k.current).mm.elfSize + pageSize ≤ processImageSize ∨
        0x80000000 < (k.task k.current).mm.elfSize + 2 * pageSize) := by
    rw [he]
    exact himage
  rw [hstack, himage']
  refine ⟨fun hall => ⟨hall.1.1, hall.1.2⟩, fun hc => ⟨⟨hc.1, hc.2⟩, ⟨hc.1, hc.2⟩, ?_⟩⟩
  have hs4 := hstack.mpr hc.1
  have he256 := himage'.mpr hc.2
  rw [copyProcessMemoryAt_eq links k₁ k.current new hold hnew
    (by rw [hpar, hls, hown.stack]; exact ⟨hs4, hs4⟩)
    (by rw [hpar, hle, hown.image]; exact ⟨he256, he256⟩)]
  rcases (copyPages_some k₁.mm _ (k₁.task k.current).mm.elfStackList (k₁.task new).mm.elfStackList
    k₁.ram).2 (by rw [hpar, hls, hown.stack]; exact ⟨hs4, hs4⟩) with ⟨ram₁, hram₁⟩
  rcases (copyPages_some k₁.mm _ (k₁.task k.current).mm.elfImageList (k₁.task new).mm.elfImageList
    ram₁).2 (by rw [hpar, hle, hown.image]; exact ⟨he256, he256⟩) with ⟨ram₂, hram₂⟩
  refine ⟨{ k₁ with ram := ram₂ }, ?_, fun x hx => ?_⟩
  · exact copyProcessMemory_some k₁ k.current new ram₁ ram₂ hram₁ hram₂
  · exact (copyPages_outside k₁.mm _ _ _ ram₁ ram₂ hram₂ x
      (fun q hq => hx q (List.mem_append_right _ hq))).trans
      (copyPages_outside k₁.mm _ _ _ k₁.ram ram₁ hram₁ x
        (fun q hq => hx q (List.mem_append_left _ hq)))

/-- The members with one index, of some that have one index. -/
theorem filter_tagged {ι κ : Type} [DecidableEq ι] (i j : ι) (ks : List κ) :
    ((ks.map (fun k => (j, k))).filter (fun e => e.1 = i)).map Prod.snd =
      if j = i then ks else [] := by
  induction ks with
  | nil => simp
  | cons k ks ih =>
      rw [List.map_cons, List.filter_cons]
      by_cases hji : j = i
      · rw [if_pos hji] at ih ⊢
        rw [if_pos (decide_eq_true hji), List.map_cons, ih]
      · rw [if_neg hji] at ih ⊢
        rw [if_neg (by rw [decide_eq_true_eq]; exact hji), ih]

/-- The heads of the lists of the pages of a task. -/
def pageListHead : Bool × Nat → PageNode
  | (true, t) => .elfStackList t
  | (false, t) => .elfImageList t

theorem pageListHead_injective : Function.Injective pageListHead := by
  rintro ⟨_ | _, t⟩ ⟨_ | _, t'⟩ h <;> simp_all [pageListHead]

/-- There are pointers for the lists of two tasks that share no page. -/
theorem exists_taskLinks (k : Kernel) (old new : Nat) (hne : old ≠ new)
    (hnodup : ((k.task old).mm.elfStackList ++ ((k.task old).mm.elfImageList ++
      ((k.task new).mm.elfStackList ++ (k.task new).mm.elfImageList))).Nodup) :
    ∃ links, TaskLinks links k old ∧ TaskLinks links k new := by
  rcases exists_hangs pageListHead PageNode.page pageListHead_injective
    (fun _ _ h => PageNode.page.inj h) (by rintro ⟨_ | _, t⟩ q h <;> cases h)
    ((k.task old).mm.elfStackList.map (fun q => ((true, old), q)) ++
      ((k.task old).mm.elfImageList.map (fun q => ((false, old), q)) ++
        ((k.task new).mm.elfStackList.map (fun q => ((true, new), q)) ++
          (k.task new).mm.elfImageList.map (fun q => ((false, new), q))))) (by
      simpa only [List.map_append, List.map_map, Function.comp_def, List.map_id'] using hnodup) with
    ⟨links, hl⟩
  have hring := fun i => hangs_ring _ _ _ _ _ hl i trivial
  simp only [List.filter_append, List.map_append, filter_tagged] at hring
  refine ⟨links, ⟨?_, ?_⟩, ⟨?_, ?_⟩⟩
  · simpa [hne, Ne.symm hne, pageListHead] using hring (true, old)
  · simpa [hne, Ne.symm hne, pageListHead] using hring (false, old)
  · simpa [hne, pageListHead] using hring (true, new)
  · simpa [hne, pageListHead] using hring (false, new)

end Kernel

/-- A task with a program of two pages forks, with any stack pointer. -/
theorem userKernel_forking (userSp : Nat) : ∃ k₁ links,
    Kernel.Forking (userKernel (fun _ => 0#8)) k₁ userSp (processTypeUser ||| processFlagFork)
      0x80140000 ∧
    Kernel.TaskLinks links k₁ 0x80000900 ∧ Kernel.TaskLinks links k₁ 0x80140000 := by
  rcases userKernel_load 0x402000 (Or.inl rfl) with ⟨file', k₂, hload, hmm⟩
  rcases userKernel_fork (fun _ => 0#8) userSp (processTypeUser ||| processFlagFork) (by decide)
    (by decide) with ⟨k₁, hnew⟩
  have hown := (userKernel_parent 0x402000 (Or.inl rfl)).own
  have hne : (0x80140000 : Nat) ≠ (userKernel (fun _ => 0#8)).current :=
    show 0x80140000 ≠ 0x80000900 by decide
  have hforking : Kernel.Forking (userKernel (fun _ => 0#8)) k₁ userSp
      (processTypeUser ||| processFlagFork) 0x80140000 :=
    ⟨userKernel_plain _, show 0x80000900 ≠ 0 by decide, hown,
      ⟨_, k₂, _, file', _, hload, congrArg MmStruct.elfSize hmm.symm⟩, by decide, by decide,
      by decide, hne, hnew⟩
  rcases Kernel.forkNewTask_user _ k₁ userSp _ _ (userKernel_plain _) (by decide) (by decide)
    (by decide) hne hnew with ⟨k₃, q, qs, qe, ps, rs, hf⟩
  have hself := Kernel.forked_task _ k₃ k₁ _ userSp _ q qs qe ps rs hf
  have hpar : (k₁.task 0x80000900).mm = userTask.mm :=
    Kernel.forked_parent _ k₃ k₁ _ userSp _ q qs qe ps rs hf hne
  have hfresh := Kernel.forked_fresh _ k₃ k₁ _ userSp _ q qs qe ps rs hf
  have hnodup := hf.filling.nodup
  rw [List.nodup_cons, List.nodup_cons] at hnodup
  rcases Kernel.exists_taskLinks k₁ 0x80000900 0x80140000 (by decide) (by
    rw [hpar, hself, ← List.append_assoc]
    refine List.Nodup.append (by decide +kernel) hnodup.2.2 (fun p hp hc => ?_)
    -- The pages of the parent were in use when those of the child were free.
    have hused := (hown.inUse p (List.mem_append.mpr (Or.symm (List.mem_append.mp hp)))).1
    rw [(hfresh p (List.mem_cons_of_mem _ (List.mem_cons_of_mem _ hc))).1] at hused
    cases hused) with ⟨links, hl, hl'⟩
  exact ⟨k₁, links, hforking, hl, hl'⟩

/-- A fork with the stack pointer in the first page of the stack visits pages only. -/
theorem copyProcessMemory_visits_top : ∃ k₁ links,
    Kernel.PagesOnly links k₁ 0x80000900 (pageTurns (k₁.task 0x80140000).mm.stackSize)
      (pageTurns (add32 (k₁.task 0x80140000).mm.elfSize pageSize)) ∧
    Kernel.PagesOnly links k₁ 0x80140000 (pageTurns (k₁.task 0x80140000).mm.stackSize)
      (pageTurns (add32 (k₁.task 0x80140000).mm.elfSize pageSize)) := by
  rcases userKernel_forking 0x7ffffff0 with ⟨k₁, links, hforking, hl, hl'⟩
  have hall := (Kernel.copyProcessMemory_visits (userKernel (fun _ => 0#8)) k₁ 0x7ffffff0
    (processTypeUser ||| processFlagFork) 0x80140000 hforking (by decide) links hl hl').mpr
    ⟨Or.inl (by decide), Or.inl (by decide)⟩
  exact ⟨k₁, links, hall.1, hall.2.1⟩

/-- A user whose stack pointer is one byte below its stack makes a fork take the heads of the
    lists of both tasks for pages. -/
theorem copyProcessMemory_visits_heads : ∃ k₁ links,
    Kernel.Forking (userKernel (fun _ => 0#8)) k₁ 0x7fffbfff (processTypeUser ||| processFlagFork)
      0x80140000 ∧
    Kernel.TaskLinks links k₁ 0x80000900 ∧ Kernel.TaskLinks links k₁ 0x80140000 ∧
    PageNode.elfStackList 0x80000900 ∈
      visits links (pageTurns (k₁.task 0x80140000).mm.stackSize) (.elfStackList 0x80000900) ∧
    PageNode.elfStackList 0x80140000 ∈
      visits links (pageTurns (k₁.task 0x80140000).mm.stackSize) (.elfStackList 0x80140000) := by
  rcases userKernel_forking 0x7fffbfff with ⟨k₁, links, hforking, hl, hl'⟩
  rcases Kernel.forking_sizes _ k₁ 0x7fffbfff _ _ hforking with ⟨hpar, hs, _, hls, _, _⟩
  have hlong : ∀ n, n = 4 → n < pageTurns (k₁.task 0x80140000).mm.stackSize := by
    rintro n rfl
    rw [hs, ← Nat.not_le, stackPages_le 0x7fffbfff (by decide)]
    decide
  refine ⟨k₁, links, hforking, hl, hl', ?_, ?_⟩
  · refine visits_head links _ _ _ _ (forward_of_linked links _ hl.stack.2) (hlong _ ?_)
    rw [List.length_map, show (k₁.task 0x80000900).mm = userTask.mm from hpar]
    exact List.length_range'
  · refine visits_head links _ _ _ _ (forward_of_linked links _ hl'.stack.2) (hlong _ ?_)
    rw [List.length_map, hls]

end Mirros
