import Mirros.Theory.Spaces.Steps

/-!
# Images and Copies

The two ways in which the kernel writes into the memory of a task: `load_elf_section` into
its image, and `copy_process_memory` into the pages of a child. Both go by the lists of pages,
so in the private memories the bytes arrive at the addresses that they have in the file, or in
the memory of the parent.

## Theorems

* `userVa_of_page`: Every byte of the pages of a task has a user address.
* `loaded_acts`: A section is loaded.
* `copied_acts`: The pages of a task are copied.
-/

namespace Mirros

open Kernel

namespace Kernel

/-- Every byte of the pages of a task has a user address. -/
theorem userVa_of_page (k : Kernel) (t p x : Nat) (h : Lodged k t)
    (hp : p ∈ (k.task t).mm.elfStackList ++ (k.task t).mm.elfImageList)
    (hx : k.mm.pageIdToVa p ≤ x ∧ x < k.mm.pageIdToVa p + pageSize) :
    ∃ va, userVa k.mm (k.task t).mm va = some x := by
  have hcounts := h.counts
  have hoff : x = k.mm.pageIdToVa p + (x - k.mm.pageIdToVa p) := by omega
  have hlt : x - k.mm.pageIdToVa p < 4096 := by
    unfold pageSize at hx
    omega
  rcases List.mem_append.mp hp with hp | hp
  · rcases List.mem_iff_getElem?.mp hp with ⟨i, hi⟩
    have hlen := (List.getElem?_eq_some_iff.mp hi).1
    refine ⟨4096 * (0x7ffff - i) + (x - k.mm.pageIdToVa p), ?_⟩
    rw [userVa_slot]
    have hdiv : (4096 * (0x7ffff - i) + (x - k.mm.pageIdToVa p)) / pageSize = 0x7ffff - i := by
      unfold pageSize
      omega
    have hmod : (4096 * (0x7ffff - i) + (x - k.mm.pageIdToVa p)) % pageSize
        = x - k.mm.pageIdToVa p := by
      unfold pageSize
      omega
    have hslot : slot (k.task t).mm (0x7ffff - i) = some p := by
      unfold slot
      rw [if_neg (by omega), if_pos (by omega), ← hi]
      exact congrArg _ (by omega)
    rw [hdiv, hmod, hslot, Option.map_some, ← hoff]
  · rcases List.mem_iff_getElem?.mp hp with ⟨i, hi⟩
    have hlen := (List.getElem?_eq_some_iff.mp hi).1
    refine ⟨4096 * (0x400 + i) + (x - k.mm.pageIdToVa p), ?_⟩
    rw [userVa_slot]
    have hdiv : (4096 * (0x400 + i) + (x - k.mm.pageIdToVa p)) / pageSize = 0x400 + i := by
      unfold pageSize
      omega
    have hmod : (4096 * (0x400 + i) + (x - k.mm.pageIdToVa p)) % pageSize
        = x - k.mm.pageIdToVa p := by
      unfold pageSize
      omega
    have hslot : slot (k.task t).mm (0x400 + i) = some p := by
      unfold slot
      rw [if_pos (by omega), ← hi]
      exact congrArg _ (by omega)
    rw [hdiv, hmod, hslot, Option.map_some, ← hoff]

end Kernel

/-- The two loops of `copy_process_memory`, by what they do to memory. -/
theorem copyProcessMemory_loops (s : TaskSystem) (old new : Nat) (k' : Kernel)
    (hrun : s.kernel.copyProcessMemory old new = some k') :
    ∃ ram₁ ram₂, copyPages s.kernel.mm (pageTurns (s.kernel.task new).mm.stackSize)
        (s.kernel.task old).mm.elfStackList (s.kernel.task new).mm.elfStackList s.kernel.ram
        = some ram₁ ∧
      copyPages s.kernel.mm (pageTurns (add32 (s.kernel.task new).mm.elfSize pageSize))
        (s.kernel.task old).mm.elfImageList (s.kernel.task new).mm.elfImageList ram₁ = some ram₂ ∧
      k' = { s.kernel with ram := ram₂ } := by
  unfold copyProcessMemory at hrun
  simp only [Option.pure_def, Option.bind_eq_bind, Option.bind_eq_some_iff,
    Option.some.injEq] at hrun
  rcases hrun with ⟨ram₁, h₁, ram₂, h₂, hk'⟩
  exact ⟨ram₁, ram₂, h₁, h₂, hk'.symm⟩

/-- Apart from memory only the size in the structure of a task changes, whatever is loaded. -/
theorem loadElfSection_keeps (k k' : Kernel) (t : Nat) (file file' : RamFile) (sec : ElfSection)
    (ret : Int) (hrun : k.loadElfSection t file sec = some (ret, file', k')) :
    k'.mm = k.mm ∧ k'.tlb = k.tlb ∧ ∀ u, SameTask (k.task u) (k'.task u) := by
  unfold loadElfSection at hrun
  split_ifs at hrun with hrefused
  · rw [Option.pure_def, Option.some.injEq, Prod.mk.injEq, Prod.mk.injEq] at hrun
    rw [← hrun.2.2]
    exact ⟨rfl, rfl, fun u => SameTask.refl _⟩
  · simp only [Option.pure_def, Option.bind_eq_bind, Option.bind_eq_some_iff, Prod.exists,
      Option.some.injEq, Prod.mk.injEq] at hrun
    rcases hrun with ⟨ram, file₁, -, -, -, hk'⟩
    rw [← hk']
    refine ⟨rfl, rfl, fun u => ?_⟩
    by_cases hu : u = t
    · subst hu
      simp only [setTaskMm, setTask, Function.update_self]
      exact ⟨rfl, rfl, ⟨rfl, rfl⟩, rfl, rfl⟩
    · simp only [setTaskMm, setTask, Function.update_of_ne hu]
      exact SameTask.refl _

section Separated

variable (s : TaskSystem) (h : Separated s)
include h

/-- Bytes change at user addresses of task `t` only. -/
theorem separated_places (k' : Kernel) (t : Nat)
    (htask : ∀ u, SameTask (s.kernel.task u) (k'.task u)) (hmm : k'.mm = s.kernel.mm)
    (htlb : k'.tlb = s.kernel.tlb)
    (hout : ∀ x, (∀ v, s.placing t v ≠ some x) → k'.ram x = s.kernel.ram x) :
    Separated ⟨k', s.live, s.running⟩ ∧
      (⟨k', s.live, s.running⟩ : TaskSystem).placing = s.placing := by
  refine separated_kept s h k' (fun u hu => ?_) (hmm ▸ Mm.SameBank.refl _) (hmm ▸ h.unlocked) htlb
  refine ⟨⟨hmm ▸ Mm.SameBank.refl _, htask u, fun p hp => ?_, fun p _ => by rw [hmm]⟩,
    fun q hq o ho => ?_⟩
  · rw [hmm]
    exact ((h.lodged u hu).own p hp).taken
  · exact hout _ (fun v hv => place_table s h t v _ u q hv hu hq o ho rfl)

/-- A section that can be loaded has its place in the image of a task. -/
theorem loads_placed (t : Nat) (file : RamFile) (sec : ElfSection) (ht : t ∈ s.live)
    (hloads : Loads s.kernel t file sec) : Kernel.Placed s.kernel t file sec := by
  have hlodged := h.lodged t ht
  refine ⟨h.plain, hlodged.counts.2, ?_, fun q hq => ?_, hloads.low, hloads.high, hloads.size,
    hloads.present, hloads.apart⟩
  · exact (List.nodup_append.mp (lodged_nodup s.kernel t hlodged).1).2.1
  · have hq' := List.mem_append_right (s.kernel.task t).mm.elfStackList hq
    exact ⟨(hlodged.own q (housed_userPages s.kernel t q hq')).bound, hlodged.bases q hq'⟩

/-- A section is loaded into the image of a task. -/
theorem loaded_acts (t : Nat) (file file' : RamFile) (sec : ElfSection) (k' : Kernel)
    (ht : t ∈ s.live) (hloads : Loads s.kernel t file sec)
    (hrun : s.kernel.loadElfSection t file sec = some (0, file', k')) :
    Separated ⟨k', s.live, s.running⟩ ∧
      (⟨k', s.live, s.running⟩ : TaskSystem).spaces
        = s.spaces.act (.load t (sectionBytes s.kernel file sec)) := by
  rcases loadElfSection_keeps s.kernel k' t file file' sec 0 hrun with ⟨hmm, htlb, htask⟩
  rcases placed_fits s.kernel t file sec (loads_placed s h t file sec ht hloads) hloads.fits with
    ⟨file₁, k₁, hrun₁, hbytes, hframe⟩
  rw [hrun, Option.some.injEq, Prod.mk.injEq, Prod.mk.injEq] at hrun₁
  rcases hrun₁ with ⟨-, -, hk₁⟩
  subst hk₁
  have hplace : ∀ v, s.placing t v = userVa s.kernel.mm (s.kernel.task t).mm v := fun v => if_pos ht
  have hout : ∀ x, (∀ v, s.placing t v ≠ some x) → k'.ram x = s.kernel.ram x :=
    fun x hx => hframe x (fun n _ hn => hx _ ((hplace _).trans hn))
  refine separated_write s h k' t _ (separated_places s h k' t htask hmm htlb hout)
    (fun v x hv => ?_) hout
  unfold sectionBytes
  by_cases hin : sec.loadAddr ≤ v ∧ v < sec.loadAddr + sec.size
  · rw [if_pos hin]
    have hbyte := hbytes (v - sec.loadAddr) (by omega)
    rw [show sec.loadAddr + (v - sec.loadAddr) = v by omega] at hbyte
    unfold userByte at hbyte
    have hva : userVa k'.mm (k'.task t).mm v = some x := by
      have hkept : KeptPages s.kernel k' t := by
        refine ⟨hmm ▸ Mm.SameBank.refl _, htask t, fun p hp => ?_, fun p _ => by rw [hmm]⟩
        rw [hmm]
        exact ((h.lodged t ht).own p hp).taken
      rw [kept_userVa s.kernel k' t hkept, ← hplace]
      exact hv
    rw [hva, Option.map_some, Option.some.injEq] at hbyte
    exact hbyte
  · rw [if_neg hin]
    refine hframe x (fun n hn hc => ?_)
    have hsame := placing_apart s h.toParted t v t (sec.loadAddr + n) x hv ((hplace _).trans hc)
    omega

section Copied

variable (old new : Nat) (ram₁ ram₂ : Ram) (hold : old ∈ s.live) (hnew : new ∈ s.live)
  (hne : old ≠ new)
  (hstack : copyPages s.kernel.mm (pageTurns (s.kernel.task new).mm.stackSize)
    (s.kernel.task old).mm.elfStackList (s.kernel.task new).mm.elfStackList s.kernel.ram
    = some ram₁)
  (himage : copyPages s.kernel.mm (pageTurns (add32 (s.kernel.task new).mm.elfSize pageSize))
    (s.kernel.task old).mm.elfImageList (s.kernel.task new).mm.elfImageList ram₁ = some ram₂)
include hold hnew hne

/-- The lists of the two tasks have no page in common. -/
theorem copied_apart (p q : Nat)
    (hp : p ∈ (s.kernel.task old).mm.elfStackList ++ (s.kernel.task old).mm.elfImageList)
    (hq : q ∈ (s.kernel.task new).mm.elfStackList ++ (s.kernel.task new).mm.elfImageList) :
    p ≠ q ∧ p < 32 * s.kernel.mm.mapWords ∧ q < 32 * s.kernel.mm.mapWords := by
  have hp' := housed_userPages s.kernel old p hp
  have hq' := housed_userPages s.kernel new q hq
  exact ⟨fun hc => h.apart old hold new hnew hne hp' (hc ▸ hq'),
    ((h.lodged old hold).own p hp').bound, ((h.lodged new hnew).own q hq').bound⟩

include hstack in
/-- What the first loop does to memory. -/
theorem copied_first : (∀ i < pageTurns (s.kernel.task new).mm.stackSize, ∀ q p,
      (s.kernel.task old).mm.elfStackList[i]? = some q →
      (s.kernel.task new).mm.elfStackList[i]? = some p → ∀ o < pageSize,
        ram₁ (s.kernel.mm.pageIdToVa p + o) = s.kernel.ram (s.kernel.mm.pageIdToVa q + o)) ∧
    ∀ p < 32 * s.kernel.mm.mapWords, p ∉ (s.kernel.task new).mm.elfStackList.take
      (pageTurns (s.kernel.task new).mm.stackSize) → SamePage s.kernel.mm s.kernel.ram ram₁ p := by
  have hapart := copied_apart s h old new hold hnew hne
  refine copyPages_bytes s.kernel.mm h.plain _ _ _ _ _ hstack
    (List.nodup_append.mp (lodged_nodup s.kernel new (h.lodged new hnew)).1).1
    (fun p hp hc => ?_) (fun p hp => ?_)
  · exact (hapart p p (List.mem_append_left _ hp) (List.mem_append_left _ hc)).1 rfl
  · rcases List.mem_append.mp hp with hp | hp
    · exact ((h.lodged old hold).own p
        (housed_userPages s.kernel old p (List.mem_append_left _ hp))).bound
    · exact ((h.lodged new hnew).own p
        (housed_userPages s.kernel new p (List.mem_append_left _ hp))).bound

include himage in
/-- What the second loop does to memory. -/
theorem copied_second : (∀ i < pageTurns (add32 (s.kernel.task new).mm.elfSize pageSize), ∀ q p,
      (s.kernel.task old).mm.elfImageList[i]? = some q →
      (s.kernel.task new).mm.elfImageList[i]? = some p → ∀ o < pageSize,
        ram₂ (s.kernel.mm.pageIdToVa p + o) = ram₁ (s.kernel.mm.pageIdToVa q + o)) ∧
    ∀ p < 32 * s.kernel.mm.mapWords, p ∉ (s.kernel.task new).mm.elfImageList.take
      (pageTurns (add32 (s.kernel.task new).mm.elfSize pageSize)) →
        SamePage s.kernel.mm ram₁ ram₂ p := by
  have hapart := copied_apart s h old new hold hnew hne
  refine copyPages_bytes s.kernel.mm h.plain _ _ _ _ _ himage
    (List.nodup_append.mp (lodged_nodup s.kernel new (h.lodged new hnew)).1).2.1
    (fun p hp hc => ?_) (fun p hp => ?_)
  · exact (hapart p p (List.mem_append_right _ hp) (List.mem_append_right _ hc)).1 rfl
  · rcases List.mem_append.mp hp with hp | hp
    · exact ((h.lodged old hold).own p
        (housed_userPages s.kernel old p (List.mem_append_right _ hp))).bound
    · exact ((h.lodged new hnew).own p
        (housed_userPages s.kernel new p (List.mem_append_right _ hp))).bound

include hstack himage

/-- A page of the stack after both loops. -/
theorem copied_stack (i q p : Nat) (hq : (s.kernel.task old).mm.elfStackList[i]? = some q)
    (hp : (s.kernel.task new).mm.elfStackList[i]? = some p) (o : Nat) (ho : o < pageSize) :
    ram₂ (s.kernel.mm.pageIdToVa p + o)
      = if i < pageTurns (s.kernel.task new).mm.stackSize
        then s.kernel.ram (s.kernel.mm.pageIdToVa q + o)
        else s.kernel.ram (s.kernel.mm.pageIdToVa p + o) := by
  rcases copied_first s h old new ram₁ hold hnew hne hstack with ⟨hcopied, hkept⟩
  rcases copied_second s h old new ram₁ ram₂ hold hnew hne himage with ⟨-, hkept'⟩
  rcases List.nodup_append.mp (lodged_nodup s.kernel new (h.lodged new hnew)).1 with
    ⟨hnodup, -, hlists⟩
  have hpStack := List.mem_of_getElem? hp
  have hpb := (copied_apart s h old new hold hnew hne q p
    (List.mem_append_left _ (List.mem_of_getElem? hq)) (List.mem_append_left _ hpStack)).2.2
  rw [hkept' p hpb (fun hc => hlists p hpStack p (List.mem_of_mem_take hc) rfl) o ho]
  by_cases hcount : i < pageTurns (s.kernel.task new).mm.stackSize
  · rw [if_pos hcount]
    exact hcopied i hcount q p hq hp o ho
  · rw [if_neg hcount]
    exact hkept p hpb (nodup_take hnodup _ _ p (Nat.le_of_not_lt hcount) hp) o ho

/-- A page of the image after both loops. -/
theorem copied_image (i q p : Nat) (hq : (s.kernel.task old).mm.elfImageList[i]? = some q)
    (hp : (s.kernel.task new).mm.elfImageList[i]? = some p) (o : Nat) (ho : o < pageSize) :
    ram₂ (s.kernel.mm.pageIdToVa p + o)
      = if i < pageTurns (add32 (s.kernel.task new).mm.elfSize pageSize)
        then s.kernel.ram (s.kernel.mm.pageIdToVa q + o)
        else s.kernel.ram (s.kernel.mm.pageIdToVa p + o) := by
  rcases copied_first s h old new ram₁ hold hnew hne hstack with ⟨-, hkept⟩
  rcases copied_second s h old new ram₁ ram₂ hold hnew hne himage with ⟨hcopied', hkept'⟩
  rcases List.nodup_append.mp (lodged_nodup s.kernel new (h.lodged new hnew)).1 with
    ⟨-, hnodup, hlists⟩
  have hapart := copied_apart s h old new hold hnew hne
  have hqImage := List.mem_append_right (s.kernel.task old).mm.elfStackList
    (List.mem_of_getElem? hq)
  have hpImage := List.mem_of_getElem? hp
  rcases hapart q p hqImage (List.mem_append_right _ hpImage) with ⟨-, hqb, hpb⟩
  by_cases hcount : i < pageTurns (add32 (s.kernel.task new).mm.elfSize pageSize)
  · -- The first loop has not touched the page that is copied.
    have hqStack : q ∉ (s.kernel.task new).mm.elfStackList :=
      fun hc => (hapart q q hqImage (List.mem_append_left _ hc)).1 rfl
    rw [if_pos hcount, hcopied' i hcount q p hq hp o ho]
    exact hkept q hqb (fun hc => hqStack (List.mem_of_mem_take hc)) o ho
  · rw [if_neg hcount, hkept' p hpb (nodup_take hnodup _ _ p (Nat.le_of_not_lt hcount) hp) o ho]
    exact hkept p hpb (fun hc => hlists p (List.mem_of_mem_take hc) p hpImage rfl) o ho

/-- The page behind a page of user addresses, and the one it is copied from. -/
theorem copied_slot (v p : Nat) (hslot : slot (s.kernel.task new).mm (v / pageSize) = some p) :
    ∃ q, slot (s.kernel.task old).mm (v / pageSize) = some q ∧ ∀ o < pageSize,
      ram₂ (s.kernel.mm.pageIdToVa p + o)
        = if copiedVa s.kernel new v = true
          then s.kernel.ram (s.kernel.mm.pageIdToVa q + o)
          else s.kernel.ram (s.kernel.mm.pageIdToVa p + o) := by
  have hcounts := (h.lodged old hold).counts
  unfold slot at hslot ⊢
  unfold copiedVa processUserBase processImageSize processUserStackBase pageSize
  unfold pageSize at hslot
  split_ifs at hslot with hin hin'
  · rw [if_pos hin, if_pos (show 0x400000 ≤ v ∧ v < 0x400000 + 256 * 4096 by omega),
      show (v - 0x400000) / 4096 = v / 4096 - 0x400 by omega]
    obtain ⟨q, hq⟩ : ∃ q, (s.kernel.task old).mm.elfImageList[v / 4096 - 0x400]? = some q :=
      ⟨_, List.getElem?_eq_getElem (by omega)⟩
    refine ⟨q, hq, fun o ho => ?_⟩
    simp only [decide_eq_true_eq]
    exact copied_image s h old new ram₁ ram₂ hold hnew hne hstack himage _ q p hq hslot o ho
  · rw [if_neg hin, if_pos hin', if_neg (show ¬(0x400000 ≤ v ∧ v < 0x400000 + 256 * 4096) by omega),
      show (0x80000000 - 1 - v) / 4096 = 0x7ffff - v / 4096 by omega]
    obtain ⟨q, hq⟩ : ∃ q, (s.kernel.task old).mm.elfStackList[0x7ffff - v / 4096]? = some q :=
      ⟨_, List.getElem?_eq_getElem (by omega)⟩
    refine ⟨q, hq, fun o ho => ?_⟩
    simp only [decide_eq_true_eq, and_iff_right (show v < 0x80000000 by omega)]
    exact copied_stack s h old new ram₁ ram₂ hold hnew hne hstack himage _ q p hq hslot o ho

omit hold hne in
/-- The loops write the pages of the new task only. -/
theorem copied_outside (x : Nat) (hx : ∀ v, s.placing new v ≠ some x) :
    ram₂ x = s.kernel.ram x := by
  have hoff : ∀ q ∈ (s.kernel.task new).mm.elfStackList ++ (s.kernel.task new).mm.elfImageList,
      ¬(s.kernel.mm.pageIdToVa q ≤ x ∧ x < s.kernel.mm.pageIdToVa q + pageSize) := by
    intro q hq hin
    rcases userVa_of_page s.kernel new q x (h.lodged new hnew) hq hin with ⟨va, hva⟩
    exact hx va ((if_pos hnew).trans hva)
  rw [copyPages_outside s.kernel.mm _ _ _ _ _ himage x
      (fun q hq => hoff q (List.mem_append_right _ hq)),
    copyPages_outside s.kernel.mm _ _ _ _ _ hstack x
      (fun q hq => hoff q (List.mem_append_left _ hq))]

end Copied

/-- The pages of a task are copied to another one. -/
theorem copied_acts (old new : Nat) (k' : Kernel) (hold : old ∈ s.live) (hnew : new ∈ s.live)
    (hne : old ≠ new) (hrun : s.kernel.copyProcessMemory old new = some k') :
    Separated ⟨k', s.live, s.running⟩ ∧
      (⟨k', s.live, s.running⟩ : TaskSystem).spaces
        = s.spaces.act (.copy old new (copiedVa s.kernel new)) := by
  rcases copyProcessMemory_loops s old new k' hrun with ⟨ram₁, ram₂, hstack, himage, rfl⟩
  have hout := copied_outside s h old new ram₁ ram₂ hnew hstack himage
  refine separated_write s h _ new _
    (separated_places s h _ new (fun u => SameTask.refl _) rfl rfl hout) (fun v x hv => ?_) hout
  have hva : userVa s.kernel.mm (s.kernel.task new).mm v = some x := (if_pos hnew).symm.trans hv
  rw [userVa_slot] at hva
  rcases Option.map_eq_some_iff.mp hva with ⟨p, hslot, rfl⟩
  rcases copied_slot s h old new ram₁ ram₂ hold hnew hne hstack himage v p hslot with
    ⟨q, hq, hbyte⟩
  have hread : s.spaces.memory old v
      = some (s.kernel.ram (s.kernel.mm.pageIdToVa q + v % pageSize)) := by
    show (if old ∈ s.live then userVa s.kernel.mm (s.kernel.task old).mm v else none).map
      s.kernel.ram = _
    rw [if_pos hold, userVa_slot, hq]
    rfl
  show ram₂ (s.kernel.mm.pageIdToVa p + v % pageSize)
    = (if copiedVa s.kernel new v = true then s.spaces.memory old v else none).getD
      (s.kernel.ram (s.kernel.mm.pageIdToVa p + v % pageSize))
  rw [hbyte _ (Nat.mod_lt _ (by decide)), hread]
  split_ifs
  · rfl
  · rfl

end Separated

end Mirros
