import LonganPi.Lib.Bits

/-!
# The page-table layouts of the Allwinner IOMMU

The macros and the word formats of `sunxi-iommu-pgtable.h` and
`sunxi-iommu-pgtable.c`, on a 64-bit kernel.  `PgtableLayout.v1` is
`AW_IOMMU_PGTABLE_V1` (32-bit IO virtual addresses, a directory entry spans
1 MiB) and `PgtableLayout.v2` is `AW_IOMMU_PGTABLE_V2` (34-bit addresses, a
span of 4 MiB).

Addresses (`dma_addr_t`, `phys_addr_t`) are `Nat`: none of them comes near
`2^64`.  Page-table words are `u32` in the source, so every store truncates
with `u32`.  `__va` and `__pa` are the linear map, so a pointer to a table
is its physical address.

Each macro keeps its bit operations.  The `_eq` lemma beside it gives the
arithmetic form, and with `cases L` the simp lemmas turn every size into a
number that `omega` can use.
-/

namespace LonganPi.Iommu

/-- `AW_IOMMU_PGTABLE_V1` or `AW_IOMMU_PGTABLE_V2`. -/
inductive PgtableLayout where
  | v1
  | v2
  deriving DecidableEq, Repr

/-- A store to a `u32` keeps the low 32 bits. -/
def u32 (x : Nat) : Nat := x % 2 ^ 32

/-! ## Sizes and masks -/

/-- `SUNXI_PHYS_OFFSET`: where physical memory starts. -/
def sunxiPhysOffset : Nat := 0x40000000

/-- `IOMMU_VA_BITS`. -/
def iommuVaBits : PgtableLayout → Nat
  | .v1 => 32
  | .v2 => 34

/-- `IOMMU_PD_SHIFT`. -/
def iommuPdShift : PgtableLayout → Nat
  | .v1 => 20
  | .v2 => 22

/-- `IOMMU_PT_SHIFT`. -/
def iommuPtShift : Nat := 12

/-- `SPAGE_SIZE`. -/
def spageSize : Nat := 1 <<< iommuPtShift

/-- `SPD_SIZE`: the span of one directory entry. -/
def spdSize (L : PgtableLayout) : Nat := 1 <<< iommuPdShift L

/-- `NUM_ENTRIES_PDE`. -/
def numEntriesPde (L : PgtableLayout) : Nat :=
  1 <<< (iommuVaBits L - iommuPdShift L)

/-- `NUM_ENTRIES_PTE`. -/
def numEntriesPte (L : PgtableLayout) : Nat :=
  1 <<< (iommuPdShift L - iommuPtShift)

/-- `PT_SIZE`: the bytes of one L2 table. -/
def ptSize (L : PgtableLayout) : Nat := numEntriesPte L * 4

/-- `IOMMU_PT_MASK`, `~((1UL << IOMMU_PT_SHIFT) - 1)`. -/
def iommuPtMask : Nat := 2 ^ 64 - 2 ^ 12

/-- `IOPTE_BASE_MASK`, `~(PT_SIZE - 1)`. -/
def iopteBaseMask (L : PgtableLayout) : Nat := 2 ^ 64 - ptSize L

/-- `SPAGE_ALIGN(addr)`. -/
def spageAlign (addr : Nat) : Nat := (addr + (spageSize - 1)) &&& iommuPtMask

@[simp] theorem iommuVaBits_v1 : iommuVaBits .v1 = 32 := rfl
@[simp] theorem iommuVaBits_v2 : iommuVaBits .v2 = 34 := rfl
@[simp] theorem spageSize_eq : spageSize = 4096 := rfl
@[simp] theorem spdSize_v1 : spdSize .v1 = 1048576 := rfl
@[simp] theorem spdSize_v2 : spdSize .v2 = 4194304 := rfl
@[simp] theorem numEntriesPde_eq (L : PgtableLayout) :
    numEntriesPde L = 4096 := by cases L <;> rfl
@[simp] theorem numEntriesPte_v1 : numEntriesPte .v1 = 256 := rfl
@[simp] theorem numEntriesPte_v2 : numEntriesPte .v2 = 1024 := rfl
@[simp] theorem ptSize_v1 : ptSize .v1 = 1024 := rfl
@[simp] theorem ptSize_v2 : ptSize .v2 = 4096 := rfl
@[simp] theorem sunxiPhysOffset_eq : sunxiPhysOffset = 1073741824 := rfl

/-- A 64-bit word with `IOMMU_PT_MASK` applied is rounded down to its page. -/
theorem and_iommuPtMask {x : Nat} (hx : x < 2 ^ 64) :
    x &&& iommuPtMask = x / 4096 * 4096 :=
  Bits.and_highMask hx (by decide)

theorem and_iopteBaseMask {L : PgtableLayout} {x : Nat} (hx : x < 2 ^ 64) :
    x &&& iopteBaseMask L = x / ptSize L * ptSize L := by
  cases L
  · exact Bits.and_highMask (k := 10) hx (by decide)
  · exact Bits.and_highMask (k := 12) hx (by decide)

/-- Aligning a page-aligned address changes nothing. -/
theorem spageAlign_of_aligned {x : Nat} (hx : x < 2 ^ 63)
    (hal : x % 4096 = 0) : spageAlign x = x := by
  unfold spageAlign
  rw [spageSize_eq, and_iommuPtMask (by omega)]
  omega

/-! ## Indices into the two levels -/

/-- `IOPDE_INDEX(va)`. -/
def iopdeIndex (L : PgtableLayout) (va : Nat) : Nat :=
  (va >>> iommuPdShift L) &&& (numEntriesPde L - 1)

/-- `IOPTE_INDEX(va)`. -/
def iopteIndex (L : PgtableLayout) (va : Nat) : Nat :=
  (va >>> iommuPtShift) &&& (numEntriesPte L - 1)

/-- `IOVA_PAGE_OFT(va)`. -/
def iovaPageOft (va : Nat) : Nat := va &&& (2 ^ 12 - 1)

theorem iopdeIndex_eq (L : PgtableLayout) (va : Nat) :
    iopdeIndex L va = va / spdSize L % 4096 := by
  unfold iopdeIndex
  rw [Nat.shiftRight_eq_div_pow, numEntriesPde_eq]
  cases L <;> exact Bits.and_lowMask _ 12

theorem iopteIndex_eq (L : PgtableLayout) (va : Nat) :
    iopteIndex L va = va / 4096 % numEntriesPte L := by
  unfold iopteIndex
  rw [Nat.shiftRight_eq_div_pow]
  cases L
  · exact Bits.and_lowMask _ 8
  · exact Bits.and_lowMask _ 10

theorem iovaPageOft_eq (va : Nat) : iovaPageOft va = va % 4096 :=
  Bits.and_lowMask va 12

theorem iopdeIndex_lt (L : PgtableLayout) (va : Nat) :
    iopdeIndex L va < numEntriesPde L := by
  rw [iopdeIndex_eq, numEntriesPde_eq]
  exact Nat.mod_lt _ (by decide)

theorem iopteIndex_lt (L : PgtableLayout) (va : Nat) :
    iopteIndex L va < numEntriesPte L := by
  rw [iopteIndex_eq]
  cases L <;> exact Nat.mod_lt _ (by decide)

/-! ## Bus addresses -/

/-- The physical window that the IOMMU can address. -/
def InPhysWindow (L : PgtableLayout) (pa : Nat) : Prop :=
  sunxiPhysOffset ≤ pa ∧ pa < sunxiPhysOffset + 2 ^ iommuVaBits L

instance (L : PgtableLayout) (pa : Nat) : Decidable (InPhysWindow L pa) :=
  inferInstanceAs (Decidable (_ ∧ _))

/-- `iommu_phy_to_cpu_phy`. -/
def iommuPhyToCpuPhy (L : PgtableLayout) (iommuPhy : Nat) : Nat :=
  if iommuPhy < sunxiPhysOffset then iommuPhy + 1 <<< iommuVaBits L
  else iommuPhy

/-- `cpu_phy_to_iommu_phy`. -/
def cpuPhyToIommuPhy (L : PgtableLayout) (cpuPhy : Nat) : Nat :=
  if cpuPhy > 1 <<< iommuVaBits L then cpuPhy - 1 <<< iommuVaBits L
  else cpuPhy

/-- The aperture is larger than the part below the physical memory. -/
theorem physOffset_lt_aperture (L : PgtableLayout) :
    sunxiPhysOffset < 2 ^ iommuVaBits L := by
  cases L <;> decide

/-- No layout has more than 34 address bits. -/
theorem aperture_le (L : PgtableLayout) : 2 ^ iommuVaBits L ≤ 2 ^ 34 := by
  cases L <;> decide

/-- The bus address of a page decodes page by page: the offset inside the
page never crosses `SUNXI_PHYS_OFFSET`. -/
theorem iommuPhyToCpuPhy_add {L : PgtableLayout} {pfn off : Nat}
    (hpfn : pfn % 4096 = 0) (hoff : off < 4096) :
    iommuPhyToCpuPhy L (pfn + off) = iommuPhyToCpuPhy L pfn + off := by
  unfold iommuPhyToCpuPhy
  rw [sunxiPhysOffset_eq]
  split_ifs <;> omega

/-- A physical address of the window survives the trip through the bus
address, whatever multiple of the aperture the stored word dropped. -/
theorem iommuPhyToCpuPhy_of_mod {L : PgtableLayout} {pa bus : Nat}
    (hw : InPhysWindow L pa)
    (hbus : bus = pa % 2 ^ iommuVaBits L) :
    iommuPhyToCpuPhy L bus = pa := by
  unfold InPhysWindow at hw
  unfold iommuPhyToCpuPhy
  split_ifs with h <;> cases L <;> simp at hw hbus h ⊢ <;> omega

/-- The bus address agrees with the physical address modulo the aperture. -/
theorem cpuPhyToIommuPhy_mod (L : PgtableLayout) (pa : Nat) :
    cpuPhyToIommuPhy L pa % 2 ^ iommuVaBits L = pa % 2 ^ iommuVaBits L := by
  unfold cpuPhyToIommuPhy
  split_ifs with h <;> cases L <;> simp at h ⊢
  all_goals omega

/-- So does the physical address of a bus address. -/
theorem iommuPhyToCpuPhy_mod (L : PgtableLayout) (bus : Nat) :
    iommuPhyToCpuPhy L bus % 2 ^ iommuVaBits L = bus % 2 ^ iommuVaBits L := by
  unfold iommuPhyToCpuPhy
  rw [Nat.one_shiftLeft]
  split_ifs
  · exact Nat.add_mod_right _ _
  · rfl

/-- Inside the window the bus address is at most the aperture size. -/
theorem cpuPhyToIommuPhy_le {L : PgtableLayout} {pa : Nat}
    (hw : InPhysWindow L pa) :
    cpuPhyToIommuPhy L pa ≤ 2 ^ iommuVaBits L := by
  have hoff := physOffset_lt_aperture L
  unfold InPhysWindow at hw
  unfold cpuPhyToIommuPhy
  rw [Nat.one_shiftLeft]
  split_ifs <;> omega

/-- The bus address keeps every alignment that divides the aperture. -/
theorem cpuPhyToIommuPhy_aligned {L : PgtableLayout} {pa m : Nat}
    (hm : m ∣ 2 ^ iommuVaBits L) (hal : pa % m = 0) :
    cpuPhyToIommuPhy L pa % m = 0 := by
  have hdvd : m ∣ pa := Nat.dvd_of_mod_eq_zero hal
  unfold cpuPhyToIommuPhy
  rw [Nat.shiftLeft_eq, Nat.one_mul]
  split_ifs
  · exact Nat.mod_eq_zero_of_dvd (Nat.dvd_sub hdvd hm)
  · exact hal

end LonganPi.Iommu
