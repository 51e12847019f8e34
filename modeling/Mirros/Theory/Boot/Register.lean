import Mirros.Theory.Boot.Regions

/-!
# What Registering a Region Keeps

`register_memory_region` is handed a block of memory and keeps the whole megabytes of it.
It rounds the start up, takes what that skips off the size, and rounds the size down. The
size is not compared with what is taken off it, so a block that ends before the next whole
megabyte begins wraps around: instead of being dropped it becomes a region of almost the
whole address space. Only the test against `PAGE_SIZE` follows, which such a region passes.

All other blocks, those at the very end of the address space included, are dropped or kept
in part.

## Main definitions

* `gapTo`: What rounding the start up skips.
* `KeepsBlock`: The table has at most one new region, a part of the block in whole megabytes.

## Theorems

* `registerMemoryRegion_eq`: The region that is entered.
* `registerMemoryRegion_keeps`: When the table is as it should be.
-/

namespace Mirros

/-- The distance of an address from the first whole megabyte that is not below it. -/
def gapTo (start : Nat) : Nat :=
  (mmSectionAligin - start % mmSectionAligin) % mmSectionAligin

/-- The size of a block without the part before its first whole megabyte, as a word. -/
def sizeLeft (start size : Nat) : Nat :=
  sub32 size (gapTo start)

/-- The table did not change, or it had room and the next entry is a part of the block
    that starts and ends on whole megabytes. -/
def KeepsBlock (info info' : PlatformInfo) (start size attr : Nat) : Prop :=
  info' = info ∨
    info.regionNr < memMaxRegion ∧ ∃ r : MemoryRegion,
      info' = { region := Function.update info.region info.regionNr r
                regionNr := info.regionNr + 1 } ∧
      r.attr = attr ∧ r.start % mmSectionAligin = 0 ∧ r.size % mmSectionAligin = 0 ∧
      start ≤ r.start ∧ r.start + r.size ≤ start + size

/-- Rounding up to a whole megabyte, also past the end of the address space. -/
theorem baligin_section (start : Nat) :
    baligin start mmSectionAligin = (start + gapTo start) % u32Size := by
  have hsub : sub32 (start + mmSectionAligin) 1 < 2 ^ 32 := Nat.mod_lt _ (by decide)
  have hmask : baligin start mmSectionAligin =
      sub32 (start + mmSectionAligin) 1 / 2 ^ 20 * 2 ^ 20 := Mm.and_mask _ 20 hsub (by decide)
  rw [hmask]
  unfold sub32 gapTo mmSectionAligin u32Size at *
  omega

/-- The region that is entered, if any. -/
theorem registerMemoryRegion_eq (info : PlatformInfo) (start size attr : Nat) :
    registerMemoryRegion info start size attr =
      if info.regionNr < memMaxRegion ∧ mmSectionAligin ≤ sizeLeft start size then
        { region := Function.update info.region info.regionNr
            { start := (start + gapTo start) % u32Size
              size := sizeLeft start size / mmSectionAligin * mmSectionAligin
              attr := attr }
          regionNr := info.regionNr + 1 }
      else info := by
  have hnew := baligin_section start
  have hgap : sub32 ((start + gapTo start) % u32Size) start = gapTo start := by
    unfold sub32 gapTo mmSectionAligin u32Size at *
    omega
  have hleft : sizeLeft start size < 2 ^ 32 := Nat.mod_lt _ (by decide)
  have hround : minAligin (sizeLeft start size) mmSectionAligin =
      sizeLeft start size / mmSectionAligin * mmSectionAligin := by
    have hmask := Mm.and_mask (sizeLeft start size) 20 hleft (by decide)
    unfold minAligin
    rw [show sizeLeft start size % u32Size = sizeLeft start size from Nat.mod_eq_of_lt hleft]
    exact hmask
  have haligin : isAligin (sizeLeft start size / mmSectionAligin * mmSectionAligin)
      mmSectionAligin = true :=
    (Mm.isAligin_pow _ 20).mpr (Nat.mul_mod_left _ _)
  have hpage : pageSize ≤ sizeLeft start size / mmSectionAligin * mmSectionAligin ↔
      mmSectionAligin ≤ sizeLeft start size := by
    unfold pageSize mmSectionAligin
    omega
  unfold registerMemoryRegion
  simp only [hnew, hgap]
  rw [show sub32 size (gapTo start) = sizeLeft start size from rfl, hround, haligin]
  simp only [if_true, hpage]
  by_cases hnr : info.regionNr < memMaxRegion
  · by_cases hle : mmSectionAligin ≤ sizeLeft start size
    · rw [if_pos hnr, if_pos hle, if_pos ⟨hnr, hle⟩]
    · rw [if_pos hnr, if_neg hle, if_neg (fun hc => hle hc.2)]
  · rw [if_neg hnr, if_neg (fun hc => hnr hc.1)]

/-- A region is entered that is not part of the block exactly when there is room for it
    and the block ends before its first whole megabyte. -/
theorem registerMemoryRegion_keeps (info : PlatformInfo) (start size attr : Nat)
    (hstart : start < u32Size) (hsize : size < u32Size) (hend : start + size ≤ u32Size) :
    KeepsBlock info (registerMemoryRegion info start size attr) start size attr ↔
      memMaxRegion ≤ info.regionNr ∨ gapTo start ≤ size := by
  have hgaplt : gapTo start < mmSectionAligin := Nat.mod_lt _ (by decide)
  have hgapmod : (start + gapTo start) % mmSectionAligin = 0 := by
    unfold gapTo mmSectionAligin
    omega
  rw [registerMemoryRegion_eq info start size attr]
  by_cases henter : info.regionNr < memMaxRegion ∧ mmSectionAligin ≤ sizeLeft start size
  swap
  · -- Nothing is entered, and what was taken off the size cannot have been more than it.
    rw [if_neg henter]
    refine iff_of_true (Or.inl rfl) ?_
    by_cases hnr : info.regionNr < memMaxRegion
    · right
      have hshort : ¬mmSectionAligin ≤ sizeLeft start size := fun hc => henter ⟨hnr, hc⟩
      unfold sizeLeft sub32 mmSectionAligin u32Size at *
      omega
    · exact Or.inl (Nat.le_of_not_lt hnr)
  rw [if_pos henter]
  constructor
  · rintro (hsame | ⟨_, r, hr, _, _, _, hlow, hhigh⟩)
    · have hnr := congrArg PlatformInfo.regionNr hsame
      exact absurd hnr (Nat.succ_ne_self _)
    · right
      -- The entry is the one that was made.
      have hentry := congrFun (congrArg PlatformInfo.region hr) info.regionNr
      dsimp only at hentry
      rw [Function.update_self, Function.update_self] at hentry
      rw [← hentry] at hlow hhigh
      dsimp only at hlow hhigh
      have hle := henter.2
      unfold sizeLeft sub32 mmSectionAligin u32Size at *
      omega
  · rintro (hfull | hgap)
    · exact absurd henter.1 (Nat.not_lt_of_le hfull)
    · have hle := henter.2
      refine Or.inr ⟨henter.1, _, rfl, rfl, ?_, Nat.mul_mod_left _ _, ?_, ?_⟩
      · dsimp only
        unfold gapTo mmSectionAligin u32Size at *
        omega
      · dsimp only
        unfold sizeLeft sub32 mmSectionAligin u32Size at *
        omega
      · dsimp only
        unfold sizeLeft sub32 mmSectionAligin u32Size at *
        omega

/-- A bank of 64 megabytes that starts inside of one is kept from the next one on. -/
theorem registerMemoryRegion_keeps_bank :
    KeepsBlock noRegions (registerMemoryRegion noRegions 0x30080000 0x4000000 0) 0x30080000
      0x4000000 0 :=
  (registerMemoryRegion_keeps noRegions 0x30080000 0x4000000 0 (by decide) (by decide)
    (by decide)).mpr (Or.inr (by decide))

/-- One page in the middle of a megabyte becomes a region of all but one megabyte of the
    address space. -/
theorem registerMemoryRegion_wraps :
    (registerMemoryRegion noRegions 0x30001000 0x1000 0).region 0 =
        { start := 0x30100000, size := 0xfff00000, attr := 0 } ∧
      ¬KeepsBlock noRegions (registerMemoryRegion noRegions 0x30001000 0x1000 0) 0x30001000
        0x1000 0 := by
  have hentry : (registerMemoryRegion noRegions 0x30001000 0x1000 0).region 0 =
      { start := 0x30100000, size := 0xfff00000, attr := 0 } := by decide
  refine ⟨hentry, ?_⟩
  rintro (hsame | ⟨_, r, hr, _, _, _, _, hhigh⟩)
  · have hnr := congrArg PlatformInfo.regionNr hsame
    exact absurd hnr (by decide)
  · have hself : (registerMemoryRegion noRegions 0x30001000 0x1000 0).region 0 = r := by
      rw [hr]
      exact Function.update_self noRegions.regionNr r noRegions.region
    rw [← hself, hentry] at hhigh
    exact absurd hhigh (by decide)

end Mirros
