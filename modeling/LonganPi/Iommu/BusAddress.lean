import LonganPi.Iommu.PgtableOps
import Mathlib.Data.Set.Function

/-!
# Bus addresses are a bijection, but for one address

`cpu_phy_to_iommu_phy` and `iommu_phy_to_cpu_phy` move the gigabyte above the
aperture to bus addresses from 0 on, and back.  The first one compares with
`>`, so the address `2^IOMMU_VA_BITS` itself, which has to become 0, stays
where it is.

* `TranslatesOver` says that the two are inverse on the memory of a board, and
  that a directory entry keeps every table of it.
* `alloc_entry` is the part about entries.  It holds for the whole window,
  since the stored word drops the bit that is too many.
* `translatesOver_iff` is the condition: the board has no memory at
  `2^IOMMU_VA_BITS`.
-/

namespace LonganPi.Iommu

variable {L : PgtableLayout} {mem : Set Nat}

/-- The bus addresses whose physical address is memory of the board. -/
def busOf (L : PgtableLayout) (mem : Set Nat) : Set Nat :=
  {bus | bus < 2 ^ iommuVaBits L ∧ iommuPhyToCpuPhy L bus ∈ mem}

/-- The translation is one to one on the memory of a board, and its tables
survive the trip through a directory entry. -/
structure TranslatesOver (L : PgtableLayout) (mem : Set Nat) : Prop where
  bijOn : Set.BijOn (cpuPhyToIommuPhy L) mem (busOf L mem)
  invOn : Set.InvOn (iommuPhyToCpuPhy L) (cpuPhyToIommuPhy L) mem (busOf L mem)
  entries : ∀ pa ∈ mem, pa % ptSize L = 0 → ∀ (s : Pgtable) slab,
    s.slab = some pa :: slab → s.tables pa = none → ∀ i, ∃ s',
      sunxiAllocIopte L s i = (s', true) ∧ IsValid (s'.pgtable i) ∧
        ∀ iova, iopteOffset L (s'.pgtable i) iova = pa + 4 * iopteIndex L iova

/-! ## The two conversions -/

/-- Every bus address of the aperture is one of the window. -/
theorem iommuPhyToCpuPhy_mem {bus : Nat} (hbus : bus < 2 ^ iommuVaBits L) :
    InPhysWindow L (iommuPhyToCpuPhy L bus) := by
  have hoff := physOffset_lt_aperture L
  unfold InPhysWindow iommuPhyToCpuPhy
  rw [Nat.one_shiftLeft]
  split_ifs <;> omega

/-- On the whole window the inverse is asked for on the whole aperture. -/
theorem busOf_window (L : PgtableLayout) :
    busOf L {pa | InPhysWindow L pa} = {bus | bus < 2 ^ iommuVaBits L} := by
  ext bus
  constructor
  · intro h
    exact h.1
  · intro h
    exact ⟨h, iommuPhyToCpuPhy_mem h⟩

/-- To the bus and back is the identity. -/
theorem iommuPhyToCpuPhy_cpuPhyToIommuPhy {pa : Nat} (hw : InPhysWindow L pa) :
    iommuPhyToCpuPhy L (cpuPhyToIommuPhy L pa) = pa := by
  have hoff := physOffset_lt_aperture L
  unfold InPhysWindow at hw
  unfold iommuPhyToCpuPhy cpuPhyToIommuPhy
  rw [Nat.one_shiftLeft]
  split_ifs <;> omega

/-- Only `2^IOMMU_VA_BITS` is left above the aperture. -/
theorem cpuPhyToIommuPhy_lt_iff {pa : Nat} (hw : InPhysWindow L pa) :
    cpuPhyToIommuPhy L pa < 2 ^ iommuVaBits L ↔ pa ≠ 2 ^ iommuVaBits L := by
  have hoff := physOffset_lt_aperture L
  unfold InPhysWindow at hw
  unfold cpuPhyToIommuPhy
  rw [Nat.one_shiftLeft]
  split_ifs <;> omega

/-- From the bus and back is the identity for the other addresses. -/
theorem cpuPhyToIommuPhy_iommuPhyToCpuPhy {bus : Nat}
    (hbus : bus < 2 ^ iommuVaBits L)
    (hne : iommuPhyToCpuPhy L bus ≠ 2 ^ iommuVaBits L) :
    cpuPhyToIommuPhy L (iommuPhyToCpuPhy L bus) = bus := by
  unfold iommuPhyToCpuPhy at hne ⊢
  unfold cpuPhyToIommuPhy
  rw [Nat.one_shiftLeft] at hne ⊢
  split_ifs at hne ⊢ <;> omega

/-! ## Entries -/

/-- `sunxi_alloc_iopte` stores an entry that leads to the new table, anywhere
in the window. -/
theorem alloc_entry {s : Pgtable} {slab : List (Option Nat)} {pa : Nat}
    (hal : pa % ptSize L = 0) (hw : InPhysWindow L pa)
    (hslab : s.slab = some pa :: slab) (hfresh : s.tables pa = none) (i : Nat) :
    ∃ s', sunxiAllocIopte L s i = (s', true) ∧ IsValid (s'.pgtable i) ∧
      ∀ iova, iopteOffset L (s'.pgtable i) iova = pa + 4 * iopteIndex L iova := by
  refine ⟨(Pgtable.perform L { s with slab } (.allocTable pa)).perform L
    (.storeDent i (iopteEntry L pa)), ?_, ?_, ?_⟩
  · unfold sunxiAllocIopte kmemCacheZalloc
    simp only [hslab, if_pos (And.intro hfresh (And.intro hal hw))]
  · rw [perform_storeDent_pgtable, Function.update_self]
    exact isValid_iopteEntry hal
  · intro iova
    rw [perform_storeDent_pgtable, Function.update_self]
    exact iopteOffset_iopteEntry hal hw iova

/-! ## The condition -/

/-- The translation is exact on the memory of a board when none of it is at
`2^IOMMU_VA_BITS`. -/
theorem translatesOver_iff (hmem : mem ⊆ {pa | InPhysWindow L pa}) :
    TranslatesOver L mem ↔ 2 ^ iommuVaBits L ∉ mem := by
  constructor
  · intro h htop
    have hlt := (h.bijOn.mapsTo htop).1
    rw [cpuPhyToIommuPhy_lt_iff (hmem htop)] at hlt
    exact hlt rfl
  · intro htop
    have hleft : Set.LeftInvOn (iommuPhyToCpuPhy L) (cpuPhyToIommuPhy L) mem :=
      fun pa hpa => iommuPhyToCpuPhy_cpuPhyToIommuPhy (hmem hpa)
    have hright : Set.RightInvOn (iommuPhyToCpuPhy L) (cpuPhyToIommuPhy L)
        (busOf L mem) := by
      intro bus hbus
      apply cpuPhyToIommuPhy_iommuPhyToCpuPhy hbus.1
      intro heq
      exact htop (heq ▸ hbus.2)
    have hmaps : Set.MapsTo (cpuPhyToIommuPhy L) mem (busOf L mem) := by
      intro pa hpa
      constructor
      · rw [cpuPhyToIommuPhy_lt_iff (hmem hpa)]
        exact fun heq => htop (heq ▸ hpa)
      · rw [iommuPhyToCpuPhy_cpuPhyToIommuPhy (hmem hpa)]
        exact hpa
    have hinv : Set.InvOn (iommuPhyToCpuPhy L) (cpuPhyToIommuPhy L) mem
        (busOf L mem) := ⟨hleft, hright⟩
    constructor
    · exact hinv.bijOn hmaps fun bus hbus => hbus.2
    · exact hinv
    · intro pa hpa hal s slab hslab hfresh i
      exact alloc_entry hal (hmem hpa) hslab hfresh i

/-- A board with 3 GiB of memory, in the 32-bit layout. -/
theorem translatesOver_threeGib :
    TranslatesOver .v1 {pa | 0x40000000 ≤ pa ∧ pa < 0x100000000} := by
  have hmem : {pa | 0x40000000 ≤ pa ∧ pa < 0x100000000}
      ⊆ {pa | InPhysWindow .v1 pa} := by
    intro pa hpa
    exact ⟨hpa.1, Nat.lt_of_lt_of_le hpa.2 (by decide)⟩
  apply (translatesOver_iff hmem).mpr
  intro htop
  exact absurd htop.2 (by decide)

/-- With memory in the whole window, the first byte behind the aperture keeps
an address that is no bus address. -/
theorem topAddress_not_translated :
    cpuPhyToIommuPhy .v1 0x100000000 = 0x100000000 ∧
      cpuPhyToIommuPhy .v2 0x400000000 = 0x400000000 ∧
      ¬ Set.BijOn (cpuPhyToIommuPhy .v1) {pa | InPhysWindow .v1 pa}
        {bus | bus < 2 ^ iommuVaBits .v1} ∧
      ¬ Set.BijOn (cpuPhyToIommuPhy .v2) {pa | InPhysWindow .v2 pa}
        {bus | bus < 2 ^ iommuVaBits .v2} := by
  refine ⟨by decide, by decide, ?_, ?_⟩
  · intro h
    have hw : InPhysWindow .v1 0x100000000 := by decide
    have hlt : cpuPhyToIommuPhy .v1 0x100000000 < 2 ^ 32 := h.mapsTo hw
    exact absurd hlt (by decide)
  · intro h
    have hw : InPhysWindow .v2 0x400000000 := by decide
    have hlt : cpuPhyToIommuPhy .v2 0x400000000 < 2 ^ 34 := h.mapsTo hw
    exact absurd hlt (by decide)

end LonganPi.Iommu
