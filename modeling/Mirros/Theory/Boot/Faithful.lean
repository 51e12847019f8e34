import Mirros.Theory.Boot.Table

/-!
# What a Mapping Promises

`build_tlb_table_entry` is asked to map a range of virtual addresses to physical ones and
says whether it did. A section descriptor has twelve bits for the address, so what it maps
are whole megabytes on both sides. The function tests the virtual start for this, twice,
and the size, and never the physical start: a mapping to the middle of a megabyte is
accepted, and the descriptors point at the start of that megabyte.

`size_t` is an `int` in this repository. With a negative size the range is empty and the
loop makes no turn.

## Main definitions

* `MapsRange`: The range is mapped and nothing else has changed.
* `MapsOrRefuses`: What the function promises.

## Theorems

* `walk_section`: The translation through a section descriptor.
* `buildTlbTableEntry_faithful`: When the promise is kept.
-/

namespace Mirros

/-- Every address of the range is translated to the one at the same distance from `pstart`,
    and the entries of all other addresses are as before. -/
def MapsRange (mm : Mm) (ram : Ram) (tlb tlb' : TlbTable) (vstart pstart : Nat) (size : Int) :
    Prop :=
  (∀ va : Nat, vstart ≤ va → (va : Int) < vstart + size →
    walk mm tlb' ram va = some (add32 pstart (va - vstart))) ∧
  ∀ e, (∀ va : Nat, vstart ≤ va → (va : Int) < vstart + size → va / size1M ≠ e) → tlb' e = tlb e

/-- The arguments are refused and the table stays, or the range is mapped. -/
def MapsOrRefuses (mm : Mm) (ram : Ram) (tlb : TlbTable) (vstart pstart : Nat) (size : Int)
    (flag : Nat) : Prop :=
  let built := buildTlbTableEntry tlb vstart pstart (size % u32Size).toNat flag
  built.2 = false ∧ built.1 = tlb ∨
    built.2 = true ∧ MapsRange mm ram tlb built.1 vstart pstart size

/-- The flags of kernel memory, of DMA memory and of IO memory. -/
def SectionFlag (flag : Nat) : Prop :=
  flag &&& tlbAttrMemoryMask = tlbAttrKernelMemory ∨
    flag &&& tlbAttrMemoryMask = tlbAttrDmaMemory ∨ flag &&& tlbAttrMemoryMask = tlbAttrIoMemory

/-- The attributes of such a flag make a section descriptor. -/
theorem archGetTlbAttr_section (flag : Nat) (h : SectionFlag flag) :
    flag &&& tlbAttrMemoryMask ≠ tlbAttrUserMemory ∧
      ∃ z, archGetTlbAttr flag = zoneAttr z := by
  unfold archGetTlbAttr
  rcases h with h | h | h
  · rw [h]
    exact ⟨by decide, .normal, by decide⟩
  · rw [h]
    exact ⟨by decide, .dma, by decide⟩
  · rw [h]
    exact ⟨by decide, .io, by decide⟩

/-- A section descriptor translates to the megabyte of its address. -/
theorem walk_section (mm : Mm) (ram : Ram) (tlb : TlbTable) (va pa : Nat) (z : ZoneId)
    (hpa : pa < u32Size) (hdes : tlb (va / size1M) = archBuildTlbDes pa (zoneAttr z)) :
    walk mm tlb ram va = some (pa / size1M * size1M + va % size1M) := by
  have hattr : zoneAttr z < 2 ^ 20 ∧ zoneAttr z % 4 = 2 ∧ zoneAttr z &&& 3 ≠ 1 := by
    cases z <;> decide
  have hmask : ∀ x, x < 2 ^ 32 → x &&& 0xfff00000 = x / 2 ^ 20 * 2 ^ 20 :=
    fun x hx => Mm.and_mask x 20 hx (by decide)
  have hbase : pa &&& 0xfff00000 = 2 ^ 20 * (pa / 2 ^ 20) := by
    rw [hmask pa hpa, Nat.mul_comm]
  have hval : tlb (va / size1M) = 2 ^ 20 * (pa / 2 ^ 20) + zoneAttr z := by
    rw [hdes, archBuildTlbDes, if_neg hattr.2.2, hbase]
    exact (Nat.two_pow_add_eq_or_of_lt hattr.1 _).symm
  have hlt : tlb (va / size1M) < 2 ^ 32 := by
    unfold u32Size at hpa
    omega
  have hkind : tlb (va / size1M) % 4 = 2 := by omega
  have hhigh : tlb (va / size1M) / 2 ^ 20 * 2 ^ 20 = pa / size1M * size1M := by
    unfold size1M at *
    omega
  unfold walk
  simp only [hkind]
  rw [hmask _ hlt, hhigh]

section Accepted

variable (mm : Mm) (ram : Ram) (tlb : TlbTable) (vstart pstart : Nat) (size : Int) (flag : Nat)
  (hflag : SectionFlag flag) (hsize : -0x80000000 ≤ size ∧ size < 0x80000000)
  (hv : vstart % size1M = 0) (hs : size % size1M = 0)

include hflag hsize hv hs

/-- The entry of an address of the range, and the entries outside of it. -/
theorem buildTlbTableEntry_range :
    (∀ va : Nat, vstart ≤ va → (va : Int) < vstart + size → ∃ z,
      (buildTlbTableEntry tlb vstart pstart (size % u32Size).toNat flag).1 (va / size1M) =
        archBuildTlbDes (add32 pstart ((va / size1M - vstart / size1M) * size1M)) (zoneAttr z)) ∧
    ∀ e, (∀ va : Nat, vstart ≤ va → (va : Int) < vstart + size → va / size1M ≠ e) →
      (buildTlbTableEntry tlb vstart pstart (size % u32Size).toNat flag).1 e = tlb e := by
  rcases archGetTlbAttr_section flag hflag with ⟨huser, z, hattr⟩
  have hword : isAligin (size % u32Size).toNat size1M = true := by
    rw [isAligin_iff]
    unfold size1M u32Size at *
    omega
  -- A negative size makes no turn, another one as many as it has megabytes.
  have hturns : (tlbTurns (size % u32Size).toNat : Int) = max 0 (size / size1M) := by
    unfold tlbTurns size1M u32Size at *
    split_ifs with hneg
    · omega
    · omega
  refine ⟨fun va hlow hhigh => ⟨z, ?_⟩, fun e hout => ?_⟩
  · rw [buildTlbTableEntry_run, if_neg huser, hattr, if_pos]
    refine ⟨(isAligin_iff _).mpr hv, hword, Nat.div_le_div_right hlow, ?_⟩
    unfold size1M at *
    omega
  · rw [buildTlbTableEntry_run, if_neg]
    rintro ⟨_, _, hlow, hhigh⟩
    refine hout (e * size1M) ?_ ?_ (Nat.mul_div_cancel _ (by decide))
    · unfold size1M at *
      omega
    · unfold size1M at *
      omega

end Accepted

/-- A range is mapped faithfully or refused, except that a physical start inside of a
    megabyte is accepted. -/
theorem buildTlbTableEntry_faithful (mm : Mm) (ram : Ram) (tlb : TlbTable) (vstart pstart : Nat)
    (size : Int) (flag : Nat) (hflag : SectionFlag flag) (hp : pstart < u32Size)
    (hsize : -0x80000000 ≤ size ∧ size < 0x80000000) :
    MapsOrRefuses mm ram tlb vstart pstart size flag ↔
      pstart % size1M = 0 ∨ size ≤ 0 ∨ vstart % size1M ≠ 0 ∨ size % size1M ≠ 0 := by
  unfold MapsOrRefuses
  have hsnd : (buildTlbTableEntry tlb vstart pstart (size % u32Size).toNat flag).2 = true ↔
      vstart % size1M = 0 ∧ size % size1M = 0 := by
    have hword : ((size % u32Size).toNat % size1M : Nat) = 0 ↔ size % size1M = 0 := by
      unfold size1M u32Size at *
      omega
    rw [← hword, ← isAligin_iff, ← isAligin_iff]
    unfold buildTlbTableEntry
    split_ifs with hok
    · simp only [Bool.and_eq_true] at hok
      exact ⟨fun _ => ⟨hok.1.1, hok.2⟩, fun _ => rfl⟩
    · simp only [Bool.and_eq_true] at hok
      exact ⟨fun _ => ⟨hok.1.1, hok.2⟩, fun _ => rfl⟩
    · simp only [Bool.and_eq_true] at hok
      exact ⟨fun hc => absurd hc (by decide), fun hc => absurd ⟨⟨hc.1, hc.1⟩, hc.2⟩ hok⟩
  by_cases hal : vstart % size1M = 0 ∧ size % size1M = 0
  swap
  · -- What is refused leaves the table alone.
    have hno := (Bool.not_eq_true _).mp (fun hc => hal (hsnd.mp hc))
    refine iff_of_true (Or.inl ⟨hno, ?_⟩) (by tauto)
    unfold buildTlbTableEntry at hno ⊢
    split_ifs at hno ⊢ with hok
    · rfl
  have hyes := hsnd.mpr hal
  rcases buildTlbTableEntry_range tlb vstart pstart size flag hflag hsize hal.1 hal.2 with
    ⟨hin, hout⟩
  constructor
  · rintro (⟨hno, _⟩ | ⟨_, hmaps, _⟩)
    · rw [hyes] at hno
      exact absurd hno (by decide)
    · -- The first address of the range tells where the megabyte of `pstart` starts.
      by_cases hpos : size ≤ 0
      · exact Or.inr (Or.inl hpos)
      · left
        rcases hin vstart (Nat.le_refl _) (by omega) with ⟨z, hentry⟩
        rw [Nat.sub_self, Nat.zero_mul] at hentry
        have hfirst := hmaps vstart (Nat.le_refl _) (by omega)
        rw [walk_section mm ram _ vstart (add32 pstart 0) z (Nat.mod_lt _ (by decide)) hentry,
          Nat.sub_self, Option.some.injEq] at hfirst
        have hzero : add32 pstart 0 = pstart := Nat.mod_eq_of_lt hp
        rw [hzero] at hfirst
        unfold size1M at *
        omega
  · intro hcond
    refine Or.inr ⟨hyes, fun va hlow hhigh => ?_, hout⟩
    have hpal : pstart % size1M = 0 := by
      rcases hcond with h | h | h | h
      · exact h
      · omega
      · exact absurd hal.1 h
      · exact absurd hal.2 h
    rcases hin va hlow hhigh with ⟨z, hentry⟩
    have hpa : add32 pstart ((va / size1M - vstart / size1M) * size1M) < u32Size :=
      Nat.mod_lt _ (by decide)
    rw [walk_section mm ram _ va _ z hpa hentry]
    have hv := hal.1
    have hsum : add32 pstart ((va / size1M - vstart / size1M) * size1M) / size1M * size1M +
        va % size1M = add32 pstart (va - vstart) := by
      unfold add32 size1M u32Size at *
      omega
    rw [hsum]

/-- Two megabytes of IO memory. -/
theorem buildTlbTableEntry_faithful_io :
    MapsOrRefuses (Mm.bareBank [] [] [] []) (fun _ => 0#8) (fun _ => 0) 0xc0000000 0x50000000
      0x200000 tlbAttrIoMemory :=
  (buildTlbTableEntry_faithful _ _ _ _ _ _ _ (Or.inr (Or.inr (by decide))) (by decide)
    (by decide)).mpr (Or.inl (by decide))

/-- A mapping to the middle of a megabyte is accepted and leads to the start of it. -/
theorem buildTlbTableEntry_skewed :
    ¬ MapsOrRefuses (Mm.bareBank [] [] [] []) (fun _ => 0#8) (fun _ => 0) 0xc0000000 0x50080000
      0x100000 tlbAttrIoMemory := by
  rintro (⟨hno, _⟩ | ⟨_, hmaps, _⟩)
  · exact absurd hno (by decide)
  · have hfirst := hmaps 0xc0000000 (by decide) (by decide)
    exact absurd hfirst (by decide)

end Mirros
