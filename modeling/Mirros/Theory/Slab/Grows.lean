import Mirros.Theory.Slab.Steps
import Mirros.Theory.Task.Alloc

/-!
# Allocation Only Takes Pages

`kmalloc` takes pages for slices and for headers and gives none back, so pages in
use stay in use, and it does not touch the sections of the zones.

## Main definitions

* `Mm.Grows`: The same memory with more pages in use.

## Theorems

* `kmalloc_grows`: What `kmalloc` leaves alone.
-/

namespace Mirros

namespace Mm

/-- The same memory, with at least the same pages in use. -/
structure Grows (mm mm' : Mm) : Prop where
  bank : SameBank mm mm'
  keeps : ∀ q, used mm.pageMap q = true → used mm'.pageMap q = true

theorem Grows.refl (mm : Mm) : Grows mm mm :=
  ⟨SameBank.refl mm, fun _ h => h⟩

theorem Grows.trans {mm₁ mm₂ mm₃ : Mm} (h : Grows mm₁ mm₂) (h' : Grows mm₂ mm₃) :
    Grows mm₁ mm₃ :=
  ⟨h.bank.trans h'.bank, fun q hq => h'.keeps q (h.keeps q hq)⟩

/-- What is not in the map or the zones does not count. -/
theorem grows_of_fields (mm mm' : Mm) (hstart : mm'.kernelStart = mm.kernelStart)
    (hwords : mm'.mapWords = mm.mapWords) (hzone : mm'.zone = mm.zone)
    (hmap : mm'.pageMap = mm.pageMap) : Grows mm mm' := by
  refine ⟨⟨hstart, hwords, ?_⟩, fun q hq => ?_⟩
  · unfold sections
    rw [hzone]
  · rw [hmap]
    exact hq

theorem grows_getFreePages (mm mm' : Mm) (count : Int) (flag addr : Nat)
    (h : mm.getFreePages count flag = some (addr, mm')) : Grows mm mm' := by
  rcases getFreePages_cases mm mm' count flag addr h with hzero | ⟨z, q, _, _, _, _, _, htook⟩
  · rw [hzero.2]
    exact Grows.refl mm
  · refine ⟨⟨htook.start, htook.words, sections_update mm mm' z _ htook.zones rfl rfl⟩,
      fun i hi => ?_⟩
    rw [htook.bits i, hi]
    exact ite_self _

end Mm

namespace Slab

/-- Having at least the same pages in use holds across every path of an allocation. -/
theorem carries_grows : Carries (fun s s' => Mm.Grows s.mm s'.mm) :=
  { refl := fun s => Mm.Grows.refl s.mm
    trans := fun _ _ _ h₁ h₂ => h₁.trans h₂
    fields := fun _ _ h => Mm.grows_of_fields _ _ h.start h.words h.zone h.map
    headerPage := fun s mm addr h => Mm.grows_getFreePages s.mm mm 1 gfpSlabHeader addr h }

theorem grows_getNewSlab (s s' : Slab) (size flag ret : Nat)
    (h : s.getNewSlab size flag = some (ret, s')) : Mm.Grows s.mm s'.mm := by
  refine carries_getNewSlab _ carries_grows (fun s mm count flag addr hget => ?_)
    (fun s base size => ?_) s s' size flag ret h
  · exact Mm.grows_getFreePages s.mm mm count flag addr hget
  · rcases markRun_frame s base size with ⟨table, hframe⟩
    rw [hframe]
    exact Mm.grows_of_fields _ _ rfl rfl rfl rfl

theorem kmalloc_grows (s s' : Slab) (size : Int) (flag ret : Nat)
    (h : s.kmalloc size flag = some (ret, s')) : Mm.Grows s.mm s'.mm :=
  carries_kmalloc _ carries_grows (fun s _ => Mm.Grows.refl s.mm) grows_getNewSlab s s' size
    flag ret h

end Slab

end Mirros
