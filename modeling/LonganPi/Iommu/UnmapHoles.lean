import LonganPi.Iommu.UnmapSweep

/-!
# Unmapping a range with holes

`sunxi_iommu_unmap` answers with the size it was asked for, whatever it
found.  A missing directory entry is an errno that the loop adds to its
cursor, so mapped spans behind it are skipped.

* `unmap_outside` holds of every range: the call returns, and every address
  outside translates as before.
* `unmapsExactly_iff`: the range is gone and the answer is the number of
  bytes that are gone exactly when every byte of it was mapped.
-/

namespace LonganPi.Iommu

variable {L : PgtableLayout} {s : Pgtable}

/-! ## What the call is for -/

/-- The byte at `a` translates. -/
def Translates (L : PgtableLayout) (s : Pgtable) (a : Nat) : Bool :=
  (sunxiPgtableIovaToPhys L s a).toOption.getD 0 != 0

/-- The bytes of the range whose translation is gone. -/
def goneBytes (L : PgtableLayout) (s s' : Pgtable) (iova size : Nat) : Nat :=
  (List.range' iova size).countP fun a =>
    Translates L s a && !Translates L s' a

/-- The call returns, the range is gone, the rest is as before, and the
answer is the number of bytes that are gone. -/
def UnmapsExactly (L : PgtableLayout) (version : Nat) (s : Pgtable)
    (iova size : Nat) (gather : Gather) : Prop :=
  ∃ s' gather' ret,
    sunxiIommuUnmap L version s iova size gather = .ok (s', gather', ret) ∧
    (∀ a, iova ≤ a → a < iova + size →
      sunxiPgtableIovaToPhys L s' a = .ok 0) ∧
    (∀ a < 2 ^ iommuVaBits L, ¬ (iova ≤ a ∧ a < iova + size) →
      sunxiPgtableIovaToPhys L s' a = sunxiPgtableIovaToPhys L s a) ∧
    ret = goneBytes L s s' iova size

/-! ## Translations and leaves -/

theorem iommuPhyToCpuPhy_ne_zero (L : PgtableLayout) (x : Nat) :
    iommuPhyToCpuPhy L x ≠ 0 := by
  unfold iommuPhyToCpuPhy
  rw [sunxiPhysOffset_eq]
  cases L <;> split_ifs <;> simp <;> omega

/-- The translation of an address is 0 when its leaf is. -/
theorem iovaToPhys_zero_iff (hwf : WellFormed L s) {a : Nat} :
    sunxiPgtableIovaToPhys L s a = .ok 0 ↔ leafWord L s a = 0 := by
  rw [sunxiPgtableIovaToPhys_eq hwf, Except.ok.injEq]
  by_cases hleaf : leafWord L s a = 0
  · simp [hleaf]
  · simp [hleaf, iommuPhyToCpuPhy_ne_zero]

theorem translates_iff (hwf : WellFormed L s) {a : Nat} :
    Translates L s a = true ↔ leafWord L s a ≠ 0 := by
  unfold Translates
  rw [sunxiPgtableIovaToPhys_eq hwf]
  by_cases hleaf : leafWord L s a = 0
  · simp [hleaf, Except.toOption]
  · simp [hleaf, Except.toOption, iommuPhyToCpuPhy_ne_zero]

/-- Equal leaves translate alike. -/
theorem iovaToPhys_congr {s' : Pgtable} (hwf : WellFormed L s)
    (hwf' : WellFormed L s') {a : Nat}
    (h : leafWord L s' a = leafWord L s a) :
    sunxiPgtableIovaToPhys L s' a = sunxiPgtableIovaToPhys L s a := by
  rw [sunxiPgtableIovaToPhys_eq hwf', sunxiPgtableIovaToPhys_eq hwf, h]

/-- All bytes of the range are counted exactly when each of them went. -/
theorem goneBytes_eq_size {s' : Pgtable} {iova size : Nat} :
    goneBytes L s s' iova size = size ↔
      ∀ a, iova ≤ a → a < iova + size →
        Translates L s a = true ∧ Translates L s' a = false := by
  have hlen : (List.range' iova size).length = size := List.length_range'
  unfold goneBytes
  constructor
  · intro hall a hge hlt
    have hmem : a ∈ List.range' iova size := List.mem_range'_1.mpr ⟨hge, hlt⟩
    have hone := List.countP_eq_length.mp (hall.trans hlen.symm) a hmem
    simpa using hone
  · intro hall
    refine (List.countP_eq_length.mpr fun a ha => ?_).trans hlen
    rw [List.mem_range'_1] at ha
    simpa using hall a ha.1 ha.2

/-! ## Any range -/

section Range

variable {version iova size : Nat} {gather : Gather}

/-- The call returns on every range, keeps the invariant and does not change
a translation outside. -/
theorem unmap_outside (version : Nat) (gather : Gather) (hwf : WellFormed L s)
    (hr : PageRange L iova (iova + size)) :
    ∃ s', sunxiIommuUnmap L version s iova size gather
        = .ok (s', gather.widen iova (iova + size), size) ∧
      WellFormed L s' ∧
      ∀ a < 2 ^ iommuVaBits L, ¬ (iova ≤ a ∧ a < iova + size) →
        sunxiPgtableIovaToPhys L s' a = sunxiPgtableIovaToPhys L s a := by
  obtain ⟨es, heq, hsweep⟩ := unmap_sweep version gather hwf hr
  have hsame := preInvalidations_sameMemory (L := L) (s := s) version iova
    (iova + size)
  have hstart := hr.start_aligned
  refine ⟨_, heq, hsweep.wellFormed, fun a ha hout => ?_⟩
  apply iovaToPhys_congr hwf hsweep.wellFormed
  rcases hsweep.leafWord_eq a ha with hkeep | ⟨-, hge, hlt⟩
  · rw [hkeep, hsame.leafWord_eq]
  · omega

/-- Without a hole among the directory entries, the loop visits every page
of the range. -/
theorem unmap_inside (version : Nat) (gather : Gather) (hwf : WellFormed L s)
    (hr : PageRange L iova (iova + size))
    (hvalid : ∀ a, iova ≤ a → a < iova + size →
      IsValid (s.pgtable (iopdeIndex L a))) :
    ∃ s', sunxiIommuUnmap L version s iova size gather
        = .ok (s', gather.widen iova (iova + size), size) ∧
      ∀ a, iova ≤ a → a < iova + size → leafWord L s' a = 0 := by
  have hsame := preInvalidations_sameMemory (L := L) (s := s) version iova
    (iova + size)
  rw [← hsame.pgtable_eq] at hvalid
  obtain ⟨s', heq, hunmaps⟩ := unmapLoop_spec version (fun _ => hr)
    enoughFuel_spanFuel _ (hsame.wellFormed hwf) (Or.inl hvalid)
  refine ⟨s', ?_, hunmaps.inside hvalid⟩
  unfold sunxiIommuUnmap
  simp only [hr.start_eq, hr.stop_eq, unmapPrologue_eq, heq, bind,
    Except.bind]

/-- The call does what it is for exactly when every byte of the range was
mapped. -/
theorem unmapsExactly_iff (hwf : WellFormed L s)
    (hr : PageRange L iova (iova + size)) :
    UnmapsExactly L version s iova size gather ↔
      ∀ a, iova ≤ a → a < iova + size →
        sunxiPgtableIovaToPhys L s a ≠ .ok 0 := by
  obtain ⟨s', heq, hwf', hout⟩ :=
    unmap_outside version gather hwf hr
  constructor
  · intro hexact a hge hlt hzero
    obtain ⟨s₁, gather₁, ret, heq₁, -, -, hret⟩ := hexact
    rw [heq, Except.ok.injEq] at heq₁
    obtain ⟨rfl, rfl, rfl⟩ : s' = s₁ ∧ _ = gather₁ ∧ size = ret := by
      simpa using heq₁
    have hgone := (goneBytes_eq_size.mp hret.symm a hge hlt).1
    rw [translates_iff hwf] at hgone
    exact hgone ((iovaToPhys_zero_iff hwf).mp hzero)
  · intro hmapped
    have hleaf : ∀ a, iova ≤ a → a < iova + size → leafWord L s a ≠ 0 :=
      fun a hge hlt hzero =>
        hmapped a hge hlt ((iovaToPhys_zero_iff hwf).mpr hzero)
    have hvalid : ∀ a, iova ≤ a → a < iova + size →
        IsValid (s.pgtable (iopdeIndex L a)) := by
      intro a hge hlt
      by_contra hv
      exact hleaf a hge hlt (leafWord_of_not_valid hv)
    obtain ⟨s₁, heq₁, hclear⟩ := unmap_inside version gather
      hwf hr hvalid
    rw [heq, Except.ok.injEq] at heq₁
    have hs : s' = s₁ := congrArg Prod.fst heq₁
    subst hs
    refine ⟨s', _, size, heq, fun a hge hlt => ?_, hout, ?_⟩
    · exact (iovaToPhys_zero_iff hwf').mpr (hclear a hge hlt)
    · refine (goneBytes_eq_size.mpr fun a hge hlt => ⟨?_, ?_⟩).symm
      · exact (translates_iff hwf).mpr (hleaf a hge hlt)
      · rw [← Bool.not_eq_true, translates_iff hwf', not_not]
        exact hclear a hge hlt

end Range

/-! ## Two runs -/

/-- Two pages, with a whole directory span between them that was never
mapped. -/
def twoIslands : Pgtable :=
  pgtableAfter .v1 iommuVersionV12 [some 0x50000000, some 0x50001000]
    [.map 0x1000000 0x41000000 0x1000 3, .map 0x1200000 0x41200000 0x1000 3]

theorem twoIslands_wellFormed : WellFormed .v1 twoIslands :=
  wellFormed_pgtableAfter _ _ (by decide)

/-- The first of the two pages. -/
theorem unmapsExactly_firstIsland :
    UnmapsExactly .v1 iommuVersionV12 twoIslands 0x1000000 0x1000
        Gather.init ↔
      ∀ a, 0x1000000 ≤ a → a < 0x1000000 + 0x1000 →
        sunxiPgtableIovaToPhys .v1 twoIslands a ≠ .ok 0 :=
  unmapsExactly_iff twoIslands_wellFormed
    ⟨by decide, by decide, by decide, by decide⟩

/-- An unmap of 16 MiB from the first page on jumps over the second one,
which still translates. -/
theorem secondIsland_survives :
    ¬ UnmapsExactly .v1 iommuVersionV12 twoIslands 0x1000000 0x1000000
      Gather.init := by
  intro hexact
  obtain ⟨s', gather, ret, heq, hgone, -, -⟩ := hexact
  have hkept : ((sunxiIommuUnmap .v1 iommuVersionV12 twoIslands 0x1000000
      0x1000000 Gather.init).bind fun r =>
        sunxiPgtableIovaToPhys .v1 r.1 0x1200000).toOption
      = some 0x41200000 := by decide +kernel
  have hzero := hgone 0x1200000 (by decide) (by decide)
  rw [heq] at hkept
  simp [Except.bind, hzero, Except.toOption] at hkept

end LonganPi.Iommu
