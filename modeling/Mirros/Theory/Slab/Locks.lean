import Mirros.Core.Locks
import Mirros.Theory.Pid.Session
import Mirros.Theory.Slab.Steps

/-!
# Which Calls Give Their Mutexes Back

A call that returns must leave every mutex as it found it. Between taking and giving
back the mutex of the slab allocator no path touches it, and the page allocator below
gives back each zone mutex that it takes, so `SameMutexes` is one of the relations
that hold across every path of an allocation. Freeing walks the same way, with the
one exception of an address that is neither in a slab page nor at the start of a
page: there `kfree_kernel_mem` returns between its lock and its unlock.

## Main definitions

* `Mm.SameZoneMutexes`, `Slab.SameMutexes`: No mutex has changed.
* `LockState.Balanced`: The same for a call.
* `LockState.ForgetsMutex`: The call that returns in between.

## Theorems

* `sameMutexes_kmallocRepet`: `kmalloc` gives everything back.
* `kfreeKernelMem_mutexes`: When `kfree_kernel_mem` does.
* `locks_balanced`: Every call gives back every mutex, except for that one.
-/

namespace Mirros

namespace Mm

/-- No zone mutex has changed. -/
def SameZoneMutexes (mm mm' : Mm) : Prop :=
  ∀ z, (mm'.zone z).zoneMutex = (mm.zone z).zoneMutex

theorem sameZoneMutexes_update (mm mm' : Mm) (z : ZoneId) (zone' : Zone)
    (hzones : mm'.zone = Function.update mm.zone z zone')
    (hmutex : zone'.zoneMutex = (mm.zone z).zoneMutex) : SameZoneMutexes mm mm' := by
  intro w
  rw [hzones]
  by_cases hw : w = z
  · rw [hw, Function.update_self, hmutex]
  · rw [Function.update_of_ne hw]

theorem sameZoneMutexes_getFreePages (mm mm' : Mm) (count : Int) (flag addr : Nat)
    (h : mm.getFreePages count flag = some (addr, mm')) : SameZoneMutexes mm mm' := by
  rcases getFreePages_cases mm mm' count flag addr h with hzero | ⟨z, q, _, _, _, _, _, htook⟩
  · rw [hzero.2]
    exact fun _ => rfl
  · exact sameZoneMutexes_update mm mm' z _ htook.zones rfl

theorem sameZoneMutexes_getFreePageAligin (mm mm' : Mm) (aligin flag addr : Nat)
    (h : mm.getFreePageAligin aligin flag = some (addr, mm')) : SameZoneMutexes mm mm' := by
  rcases getFreePageAligin_cases mm mm' aligin flag addr h with
    hzero | ⟨z, q, _, _, _, _, _, _, htook⟩
  · rw [hzero.2]
    exact fun _ => rfl
  · exact sameZoneMutexes_update mm mm' z _ htook.zones rfl

theorem sameZoneMutexes_freePages (mm mm' : Mm) (addr : Nat)
    (h : mm.freePages addr = some mm') : SameZoneMutexes mm mm' := by
  rcases freePages_cases mm mm' addr h with hsame | ⟨z, _, _, _, hgave⟩
  · rw [hsame]
    exact fun _ => rfl
  · exact sameZoneMutexes_update mm mm' z _ hgave.zones rfl

theorem sameZoneMutexes_pagePut (mm mm' : Mm) (i : Nat) (h : mm.pagePut i = some mm') :
    SameZoneMutexes mm mm' := by
  unfold pagePut at h
  simp only at h
  -- Dropping the last reference frees the page; the count itself is in the table.
  by_cases hzero : ((mm.pageTable i).usage + 255) % 256 = 0
  · rw [if_pos hzero] at h
    have hsame := sameZoneMutexes_freePages _ mm' _ h
    exact fun z => hsame z
  · rw [if_neg hzero, Option.some.injEq] at h
    rw [← h]
    exact fun _ => rfl

end Mm

namespace Slab

/-- No mutex has changed. -/
def SameMutexes (s s' : Slab) : Prop :=
  Mm.SameZoneMutexes s.mm s'.mm ∧ s'.slabMutex = s.slabMutex

theorem SameMutexes.refl (s : Slab) : SameMutexes s s :=
  ⟨fun _ => rfl, rfl⟩

theorem SameMutexes.trans {s₁ s₂ s₃ : Slab} (h : SameMutexes s₁ s₂) (h' : SameMutexes s₂ s₃) :
    SameMutexes s₁ s₃ :=
  ⟨fun z => (h'.1 z).trans (h.1 z), h'.2.trans h.2⟩

theorem carries_sameMutexes : Carries SameMutexes :=
  { refl := SameMutexes.refl
    trans := fun _ _ _ h h' => h.trans h'
    fields := fun _ _ h => ⟨fun z => by rw [h.zone], h.mutex⟩
    headerPage := fun s mm addr h =>
      ⟨Mm.sameZoneMutexes_getFreePages s.mm mm 1 gfpSlabHeader addr h, rfl⟩ }

theorem sameMutexes_getNewSlab (s s' : Slab) (size flag ret : Nat)
    (h : s.getNewSlab size flag = some (ret, s')) : SameMutexes s s' := by
  refine carries_getNewSlab _ carries_sameMutexes (fun s mm count flag addr hget => ?_)
    (fun s base size => ?_) s s' size flag ret h
  · exact ⟨Mm.sameZoneMutexes_getFreePages s.mm mm count flag addr hget, rfl⟩
  · rcases markRun_frame s base size with ⟨table, hframe⟩
    rw [hframe]
    exact ⟨fun _ => rfl, rfl⟩

/-- The mutex of the slab allocator is free before it is taken and after it was given
    back. -/
theorem sameMutexes_unlock (s s₁ s₂ : Slab) (hlock : s.lock = some s₁)
    (h : SameMutexes s₁ s₂) : SameMutexes s s₂.unlock := by
  rcases lock_cases s s₁ hlock with ⟨hmutex, hs₁⟩
  rw [hs₁] at h
  exact ⟨h.1, hmutex.symm⟩

theorem sameMutexes_kfreeHeaderSlab (s s' : Slab) (pg addr : Nat) (log : List MemNode)
    (h : s.kfreeHeaderSlab pg addr = some (log, s')) : SameMutexes s s' := by
  simp only [kfreeHeaderSlab, Option.pure_def, Option.bind_eq_bind, Option.bind_eq_some_iff,
    Option.some.injEq, Prod.mk.injEq] at h
  rcases h with ⟨mm, hput, _, h⟩
  have hsame := Mm.sameZoneMutexes_pagePut _ mm pg hput
  rw [← h]
  exact ⟨fun z => hsame z, rfl⟩

theorem sameMutexes_repet (size : Nat) : ∀ (fuel : Nat) (s s' : Slab) (ret : Nat)
    (log : List MemNode), repet size fuel s = some (ret, log, s') → SameMutexes s s' := by
  intro fuel
  induction fuel with
  | zero =>
      intro s s' ret log h
      exact absurd h (by simp only [repet, reduceCtorEq, not_false_eq_true])
  | succ fuel ih =>
      intro s s' ret log h
      unfold repet at h
      by_cases hempty : isListEmpty s.mm.links (.cache (listId size)) = true
      · simp only [if_pos hempty, Option.some.injEq, Prod.mk.injEq] at h
        rw [← h.2.2]
        exact SameMutexes.refl s
      simp only [if_neg hempty] at h
      cases hnext : s.mm.links.next (.cache (listId size)) with
      | header a =>
          rw [hnext] at h
          simp only [Option.pure_def, Option.bind_eq_bind, Option.bind_eq_some_iff] at h
          rcases h with ⟨state, _, h⟩
          by_cases hzero : state = 0
          · -- One round with `__kfree_header_slab`, and then the rounds that are left.
            simp only [if_pos hzero, Option.bind_eq_some_iff, Option.some.injEq,
              Prod.mk.injEq, Prod.exists] at h
            rcases h with ⟨log₁, s₁, hfree, ret₂, log₂, s₂, hrest, _, _, h⟩
            rw [← h]
            exact (sameMutexes_kfreeHeaderSlab s s₁ _ _ log₁ hfree).trans
              (ih s₁ s₂ ret₂ log₂ hrest)
          · rw [if_neg hzero, Option.some.injEq, Prod.mk.injEq, Prod.mk.injEq] at h
            rw [← h.2.2]
            exact ⟨fun _ => rfl, rfl⟩
      | _ =>
          rw [hnext] at h
          exact absurd h (by simp only [reduceCtorEq, not_false_eq_true])

theorem sameMutexes_getSlabInListRepet (s s' : Slab) (size flag fuel ret : Nat)
    (log : List MemNode) (h : s.getSlabInListRepet size flag fuel = some (ret, log, s')) :
    SameMutexes s s' := by
  unfold getSlabInListRepet at h
  by_cases hflag : flag &&& gfpKernel = 0
  · rw [if_pos hflag, Option.some.injEq, Prod.mk.injEq, Prod.mk.injEq] at h
    rw [← h.2.2]
    exact SameMutexes.refl s
  · rw [if_neg hflag] at h
    exact sameMutexes_repet size fuel s s' ret log h

theorem sameMutexes_doKmallocRepet (s s' : Slab) (size flag fuel ret : Nat)
    (h : s.doKmallocRepet size flag fuel = some (ret, s')) : SameMutexes s s' := by
  unfold doKmallocRepet at h
  simp only [Option.pure_def, Option.bind_eq_bind, Option.bind_eq_some_iff] at h
  rcases h with ⟨s₁, hlock, h⟩
  by_cases hnew : flag = gfpDma ∨ flag = gfpRes ∨ pageSize ≤ size
  · rw [if_pos hnew, Option.bind_eq_some_iff] at h
    rcases h with ⟨⟨a, s₂⟩, hget, h⟩
    rw [Option.some.injEq, Prod.mk.injEq] at h
    rw [← h.2]
    exact sameMutexes_unlock s s₁ s₂ hlock
      (sameMutexes_getNewSlab s₁ s₂ _ _ a hget)
  rw [if_neg hnew, Option.bind_eq_some_iff] at h
  rcases h with ⟨⟨a, log, s₂⟩, hlist, h⟩
  have hsame₂ := sameMutexes_getSlabInListRepet s₁ s₂ _ _ _ a log hlist
  -- Each way out of the function goes by its label `exit`.
  by_cases ha : a ≠ 0
  · simp only [if_pos ha, Option.some.injEq, Prod.mk.injEq] at h
    rw [← h.2]
    exact sameMutexes_unlock s s₁ s₂ hlock hsame₂
  simp only [if_neg ha, Option.bind_eq_some_iff] at h
  rcases h with ⟨⟨b, s₃⟩, hfree, h⟩
  have hsame₃ := hsame₂.trans
    (carries_getSlabFromPageFree _ carries_sameMutexes s₂ s₃ _ b hfree)
  by_cases hb : b ≠ 0
  · rw [if_pos hb, Option.some.injEq, Prod.mk.injEq] at h
    rw [← h.2]
    exact sameMutexes_unlock s s₁ s₃ hlock hsame₃
  rw [if_neg hb, Option.bind_eq_some_iff] at h
  rcases h with ⟨⟨c, s₄⟩, hget, h⟩
  rw [Option.some.injEq, Prod.mk.injEq] at h
  rw [← h.2]
  exact sameMutexes_unlock s s₁ s₄ hlock
    (hsame₃.trans (sameMutexes_getNewSlab s₃ s₄ _ _ c hget))

theorem sameMutexes_kmallocRepet (s s' : Slab) (size : Int) (flag fuel ret : Nat)
    (h : s.kmallocRepet size flag fuel = some (ret, s')) : SameMutexes s s' := by
  unfold kmallocRepet at h
  by_cases hsize : size ≤ 0
  · rw [if_pos hsize, Option.some.injEq, Prod.mk.injEq] at h
    rw [← h.2]
    exact SameMutexes.refl s
  rw [if_neg hsize] at h
  by_cases hflag : flag ≠ gfpKernel ∧ flag ≠ gfpDma ∧ flag ≠ gfpRes
  · rw [if_pos hflag, Option.some.injEq, Prod.mk.injEq] at h
    rw [← h.2]
    exact SameMutexes.refl s
  · rw [if_neg hflag] at h
    exact sameMutexes_doKmallocRepet s s' _ flag fuel ret h

theorem sameMutexes_kfreeSliceSlab (s s' : Slab) (pg addr : Nat)
    (h : s.kfreeSliceSlab pg addr = some s') : SameMutexes s s' := by
  simp only [kfreeSliceSlab, Option.pure_def, Option.bind_eq_bind, Option.bind_eq_some_iff] at h
  rcases h with ⟨found, _, h⟩
  cases found with
  | none =>
      simp only [Option.some.injEq] at h
      rw [← h]
      exact SameMutexes.refl s
  | some header =>
      simp only [Option.bind_eq_some_iff, Option.some.injEq] at h
      rcases h with ⟨mm, hput, h⟩
      have hsame := Mm.sameZoneMutexes_pagePut _ mm pg hput
      rw [← h]
      exact ⟨fun z => hsame z, rfl⟩

theorem sameMutexes_kfreePageSlab (s s' : Slab) (pg : Nat) (h : s.kfreePageSlab pg = some s') :
    SameMutexes s s' := by
  simp only [kfreePageSlab, Option.bind_eq_bind, Option.bind_eq_some_iff] at h
  rcases h with ⟨mm, hfree, h⟩
  have hsame : SameMutexes s { s with mm := mm } :=
    ⟨Mm.sameZoneMutexes_freePages s.mm mm _ hfree, rfl⟩
  exact hsame.trans (sameMutexes_kfreeSliceSlab _ s' _ _ h)

/-- `kfree_kernel_mem` gives its mutex back unless the address is inside a page that
    is not a slab page. -/
theorem kfreeKernelMem_mutexes (s s' : Slab) (addr : Nat) (h : s.kfreeKernelMem addr = some s') :
    SameMutexes s s' ↔ ¬((s.mm.pageTable (s.mm.vaToPageId addr)).flag &&& gfpSlabBit = 0 ∧
      isAligin addr pageSize = false) := by
  unfold kfreeKernelMem at h
  simp only [Option.pure_def, Option.bind_eq_bind, Option.bind_eq_some_iff] at h
  rcases h with ⟨s₁, hlock, h⟩
  rcases lock_cases s s₁ hlock with ⟨hfree, hs₁⟩
  have hflag : (s₁.mm.pageTable (s₁.mm.vaToPageId addr)).flag
      = (s.mm.pageTable (s.mm.vaToPageId addr)).flag := by
    rw [hs₁]
  rw [hflag] at h
  by_cases hslab : (s.mm.pageTable (s.mm.vaToPageId addr)).flag &&& gfpSlabBit ≠ 0
  · rw [if_pos hslab] at h
    simp only [Option.bind_eq_some_iff, Option.some.injEq] at h
    rcases h with ⟨s₂, hslice, h⟩
    rw [← h]
    exact iff_of_true
      (sameMutexes_unlock s s₁ s₂ hlock (sameMutexes_kfreeSliceSlab s₁ s₂ _ _ hslice))
      (fun hno => hslab hno.1)
  rw [if_neg hslab] at h
  cases hal : isAligin addr pageSize with
  | true =>
      simp only [hal, Bool.not_true, Bool.false_eq_true, if_false, Option.bind_eq_some_iff,
        Option.some.injEq] at h
      rcases h with ⟨s₂, hpage, h⟩
      rw [← h]
      exact iff_of_true
        (sameMutexes_unlock s s₁ s₂ hlock (sameMutexes_kfreePageSlab s₁ s₂ _ hpage))
        (fun hno => Bool.noConfusion hno.2)
  | false =>
      -- The early return: the mutex was free before the call and is taken after it.
      simp only [hal, Bool.not_false, if_true, Option.some.injEq] at h
      refine iff_of_false (fun hsame => ?_) (fun hno => hno ⟨not_not.mp hslab, rfl⟩)
      have hmutex := hsame.2
      rw [← h, hs₁, hfree] at hmutex
      exact Nat.one_ne_zero hmutex

end Slab

namespace LockState

/-- Every mutex is as it was: what the call acquired it has released. -/
structure Balanced (l l' : LockState) : Prop where
  zone : ∀ z, (l'.kernel.mm.zone z).zoneMutex = (l.kernel.mm.zone z).zoneMutex
  slab : l'.kernel.slab.slabMutex = l.kernel.slab.slabMutex
  pid : l'.pidMapMutex = l.pidMapMutex

/-- The call frees an address inside a page that is not a slab page. -/
def ForgetsMutex (l : LockState) : LockCall → Prop
  | .kfreeKernelMem addr =>
      (l.kernel.mm.pageTable (l.kernel.mm.vaToPageId addr)).flag &&& gfpSlabBit = 0 ∧
        isAligin addr pageSize = false
  | _ => False

theorem balanced_setMm (l : LockState) (mm : Mm) (h : Mm.SameZoneMutexes l.kernel.mm mm) :
    Balanced l (l.setMm mm) :=
  ⟨h, rfl, rfl⟩

theorem balanced_setSlab (l : LockState) (s : Slab) :
    Balanced l (l.setSlab s) ↔ Slab.SameMutexes l.kernel.slab s :=
  ⟨fun h => ⟨h.zone, h.slab⟩, fun h => ⟨h.1, h.2, rfl⟩⟩

/-- The mutex of the pid map is free before it is taken and after it was given back. -/
theorem balanced_unlockPidMap (l l₁ : LockState) (hlock : l.lockPidMap = some l₁) :
    Balanced l l₁.unlockPidMap ∧ ∀ map, Balanced l (l₁.setPidMap map).unlockPidMap := by
  unfold lockPidMap at hlock
  by_cases hmutex : l.pidMapMutex = 0
  · rw [if_pos hmutex, Option.some.injEq] at hlock
    rw [← hlock]
    exact ⟨⟨fun _ => rfl, rfl, hmutex.symm⟩, fun _ => ⟨fun _ => rfl, rfl, hmutex.symm⟩⟩
  · rw [if_neg hmutex] at hlock
    exact absurd hlock (by simp only [reduceCtorEq, not_false_eq_true])

theorem balanced_getNewPid (l l' : LockState) (t : Nat) (pid : Int)
    (h : l.getNewPid t = some (pid, l')) : Balanced l l' := by
  simp only [getNewPid, Option.pure_def, Option.bind_eq_bind, Option.bind_eq_some_iff] at h
  rcases h with ⟨l₁, hlock, h⟩
  have hunlock := balanced_unlockPidMap l l₁ hlock
  by_cases hfree : l₁.kernel.pidMap.nrFree = 0
  · rw [if_pos hfree, Option.some.injEq, Prod.mk.injEq] at h
    rw [← h.2]
    exact hunlock.1
  rw [if_neg hfree] at h
  cases hfind : (List.range' l₁.kernel.pidMap.current
      (l₁.kernel.pidMap.nr - l₁.kernel.pidMap.current)).find?
      (fun i => l₁.kernel.pidMap.addr i = 0) with
  | some i =>
      rw [hfind] at h
      simp only [Option.some.injEq, Prod.mk.injEq] at h
      rw [← h.2]
      exact hunlock.2 _
  | none =>
      rw [hfind] at h
      simp only [Option.some.injEq, Prod.mk.injEq] at h
      rw [← h.2]
      exact hunlock.1

theorem balanced_releasePid (l l' : LockState) (t : Nat) (h : l.releasePid t = some l') :
    Balanced l l' := by
  simp only [releasePid, Option.pure_def, Option.bind_eq_bind, Option.bind_eq_some_iff] at h
  rcases h with ⟨l₁, hlock, h⟩
  by_cases hpid : 0 ≤ (l₁.kernel.task t).pid ∧ (l₁.kernel.task t).pid < l₁.kernel.pidMap.nr
  · rw [if_pos hpid, Option.some.injEq] at h
    rw [← h]
    exact (balanced_unlockPidMap l l₁ hlock).2 _
  · rw [if_neg hpid] at h
    exact absurd h (by simp only [reduceCtorEq, not_false_eq_true])

/-- A call that returns has given back every mutex it took, unless it frees an address
    inside a page that is not a slab page. -/
theorem locks_balanced (fuel : Nat) (l l' : LockState) (c : LockCall)
    (h : call fuel l c = some l') : Balanced l l' ↔ ¬ForgetsMutex l c := by
  cases c with
  | getFreePages count flag =>
      rcases Option.map_eq_some_iff.mp h with ⟨⟨addr, mm⟩, hget, rfl⟩
      exact iff_of_true (balanced_setMm l mm
        (Mm.sameZoneMutexes_getFreePages _ mm count flag addr hget)) not_false
  | freePages addr =>
      rcases Option.map_eq_some_iff.mp h with ⟨mm, hfree, rfl⟩
      exact iff_of_true (balanced_setMm l mm
        (Mm.sameZoneMutexes_freePages _ mm addr hfree)) not_false
  | getFreePageAligin aligin flag =>
      rcases Option.map_eq_some_iff.mp h with ⟨⟨addr, mm⟩, hget, rfl⟩
      exact iff_of_true (balanced_setMm l mm
        (Mm.sameZoneMutexes_getFreePageAligin _ mm aligin flag addr hget)) not_false
  | kmalloc size flag =>
      rcases Option.map_eq_some_iff.mp h with ⟨⟨addr, s⟩, halloc, rfl⟩
      exact iff_of_true ((balanced_setSlab l s).mpr
        (Slab.sameMutexes_kmallocRepet _ s size flag fuel addr halloc)) not_false
  | kfreeKernelMem addr =>
      rcases Option.map_eq_some_iff.mp h with ⟨s, hfree, rfl⟩
      exact (balanced_setSlab l s).trans (Slab.kfreeKernelMem_mutexes _ s addr hfree)
  | getNewPid t =>
      rcases Option.map_eq_some_iff.mp h with ⟨⟨pid, l₁⟩, hget, rfl⟩
      exact iff_of_true (balanced_getNewPid l l₁ t pid hget) not_false
  | releasePid t =>
      exact iff_of_true (balanced_releasePid l l' t h) not_false

/-- An allocation on the board, which takes the mutexes of the slab allocator and of
    the zone. -/
theorem locks_balanced_alloc :
    ∃ l', call 1 ⟨pidKernel, 0⟩ (.kmalloc 100 gfpKernel) = some l' ∧
      Balanced ⟨pidKernel, 0⟩ l' := by
  have heval : (call 1 ⟨pidKernel, 0⟩ (.kmalloc 100 gfpKernel)).isSome = true := by
    decide +kernel
  rcases Option.isSome_iff_exists.mp heval with ⟨l', hl'⟩
  exact ⟨l', hl', (locks_balanced 1 _ l' _ hl').mpr not_false⟩

/-- Freeing an address in the middle of a page that holds no slices leaves
    `slab_mutex` locked. -/
theorem locks_balanced_fails :
    ¬∀ (fuel : Nat) (l l' : LockState) (c : LockCall), call fuel l c = some l' →
      Balanced l l' := by
  intro hall
  have heval : (call 1 ⟨pidKernel, 0⟩ (.kfreeKernelMem 0x80040008)).map
      (fun l => l.kernel.slab.slabMutex) = some 1 := by decide +kernel
  rcases Option.map_eq_some_iff.mp heval with ⟨l', hl', hmutex⟩
  have hslab := (hall 1 _ l' _ hl').slab
  rw [hmutex] at hslab
  exact Nat.one_ne_zero hslab

end LockState

end Mirros
