import LonganPi.Iommu.Layout

/-!
# Directory entries and leaves

The two word formats of the page table.  A directory entry is the bus
address of an L2 table with `DENT_VALID`; a leaf is the bus address of a
page with its access bits and `SUNXI_PTE_PAGE_VALID`.  In the 34-bit layout
bits 32 and 33 of the address sit in bits 8 and 9 of the word.

`iopteOffset_iopteEntry` is the round trip of a directory entry, and
`phys_of_leaf` with `leaf_readable` and `leaf_writable` says what a leaf
decodes to.  Later modules use these and never unfold a word again.
-/

namespace LonganPi.Iommu

/-! ## Constants -/

/-- `DENT_VALID`. -/
def dentValid : Nat := 0x01

/-- `DENT_ADDR_HIGH_SHIFT` and `SUNXI_PTE_PAGE_ADDR_HIGH_SHIFT`. -/
def addrHighShift : Nat := 8

/-- `DENT_ADDR_HIGH_MASK` and `SUNXI_PTE_PAGE_ADDR_HIGH_MASK`. -/
def addrHighMask : Nat := 0x3 <<< addrHighShift

/-- `SUNXI_PTE_PAGE_WRITABLE`, `BIT(3)`. -/
def sunxiPtePageWritable : Nat := 1 <<< 3

/-- `SUNXI_PTE_PAGE_READABLE`, `BIT(2)`. -/
def sunxiPtePageReadable : Nat := 1 <<< 2

/-- `SUNXI_PTE_PAGE_VALID`, `BIT(1)`. -/
def sunxiPtePageValid : Nat := 1 <<< 1

/-- `IOMMU_READ` of the kernel's `linux/iommu.h`. -/
def iommuRead : Nat := 1 <<< 0

/-- `IOMMU_WRITE` of the kernel's `linux/iommu.h`. -/
def iommuWrite : Nat := 1 <<< 1

/-! ## Directory entries -/

/-- `IS_VALID(x)`. -/
def IsValid (x : Nat) : Prop := x &&& 0x03 = dentValid

instance (x : Nat) : Decidable (IsValid x) :=
  inferInstanceAs (Decidable (_ = _))

theorem isValid_iff {x : Nat} : IsValid x ↔ x % 4 = 1 := by
  unfold IsValid dentValid
  rw [show (0x03 : Nat) = 2 ^ 2 - 1 from rfl, Bits.and_lowMask]
  rfl

theorem not_isValid_zero : ¬ IsValid 0 := by decide

/-- The word that `sunxi_alloc_iopte` stores for a table at physical address
`pa`.  The two stores of the 34-bit layout are the two `u32`. -/
def iopteEntry (L : PgtableLayout) (pa : Nat) : Nat :=
  let sent := u32 (cpuPhyToIommuPhy L pa ||| dentValid)
  match L with
  | .v1 => sent
  | .v2 => u32 (sent ||| ((pa >>> 32) <<< addrHighShift &&& addrHighMask))

/-- `iopte_offset(ent, iova)`: the physical address of the leaf of `iova` in
the table that `ent` points to. -/
def iopteOffset (L : PgtableLayout) (ent iova : Nat) : Nat :=
  let iopteBase := ent &&& iopteBaseMask L
  let iopteBase := match L with
    | .v1 => iopteBase
    | .v2 => iopteBase ||| ((ent &&& addrHighMask) >>> addrHighShift) <<< 32
  iommuPhyToCpuPhy L iopteBase + 4 * iopteIndex L iova

/-- The table that a directory entry points to: the address of its first
leaf. -/
def tableOf (L : PgtableLayout) (ent : Nat) : Nat := iopteOffset L ent 0

theorem iopteIndex_zero (L : PgtableLayout) : iopteIndex L 0 = 0 := by
  cases L <;> rfl

theorem iopteOffset_eq (L : PgtableLayout) (ent iova : Nat) :
    iopteOffset L ent iova = tableOf L ent + 4 * iopteIndex L iova := by
  unfold tableOf iopteOffset
  rw [iopteIndex_zero, Nat.mul_zero, Nat.add_zero]

/-- The address field of a word of the 34-bit layout, as arithmetic. -/
private theorem highField (w : Nat) :
    ((w &&& addrHighMask) >>> addrHighShift) <<< 32
      = w / 256 % 4 * 2 ^ 32 := by
  have hfield : w &&& addrHighMask = w / 2 ^ 8 % 2 ^ 2 * 2 ^ 8 :=
    Bits.and_field w 8 2
  rw [hfield, Nat.shiftRight_eq_div_pow, Nat.shiftLeft_eq]
  simp only [addrHighShift]
  omega

/-- The high address bits of `pa`, placed in bits 8 and 9. -/
private theorem highBits (pa : Nat) :
    (pa >>> 32) <<< addrHighShift &&& addrHighMask
      = pa / 2 ^ 32 % 4 * 256 := by
  have hfield : (pa >>> 32) <<< addrHighShift &&& addrHighMask
      = (pa >>> 32) <<< addrHighShift / 2 ^ 8 % 2 ^ 2 * 2 ^ 8 :=
    Bits.and_field _ 8 2
  rw [hfield, Nat.shiftLeft_eq, Nat.shiftRight_eq_div_pow]
  simp only [addrHighShift]
  omega

/-- The page part and the address field of a word whose control part sits
below bit 12. -/
private theorem word_fields (hi ctrl : Nat) (hhi : hi % 4096 = 0)
    (hctrl : ctrl < 4096) :
    (hi + ctrl) / 4096 * 4096 = hi ∧
      (hi + ctrl) / 256 % 4 = ctrl / 256 % 4 := by
  constructor <;> omega

private theorem iopteEntry_v1 {pa : Nat} (hal : pa % 1024 = 0) :
    iopteEntry .v1 pa = pa % 2 ^ 32 + 1 := by
  have hmod := cpuPhyToIommuPhy_mod .v1 pa
  have hbal : cpuPhyToIommuPhy .v1 pa % 2 ^ 10 = 0 :=
    cpuPhyToIommuPhy_aligned (by decide) hal
  have hor : cpuPhyToIommuPhy .v1 pa ||| dentValid
      = cpuPhyToIommuPhy .v1 pa + 1 := Bits.or_eq_add hbal (by decide)
  simp only [iommuVaBits_v1] at hmod
  simp only [iopteEntry, u32, hor]
  omega

private theorem iopteEntry_v2 {pa : Nat} (hal : pa % 4096 = 0) :
    iopteEntry .v2 pa = pa % 2 ^ 32 + (pa / 2 ^ 32 % 4 * 256 + 1) := by
  have hmod := cpuPhyToIommuPhy_mod .v2 pa
  have hbal : cpuPhyToIommuPhy .v2 pa % 2 ^ 12 = 0 :=
    cpuPhyToIommuPhy_aligned (by decide) hal
  have hor : cpuPhyToIommuPhy .v2 pa ||| dentValid
      = cpuPhyToIommuPhy .v2 pa + 1 := Bits.or_eq_add hbal (by decide)
  simp only [iommuVaBits_v2] at hmod
  have hlow : u32 (cpuPhyToIommuPhy .v2 pa ||| dentValid)
      = pa % 2 ^ 32 ||| 1 := by
    unfold u32
    rw [hor, Bits.or_eq_add (k := 12) (by omega) (by decide)]
    omega
  -- The valid bit and the high address bits both sit below the base.
  have hctrl : pa / 2 ^ 32 % 4 * 256 ||| 1 = pa / 2 ^ 32 % 4 * 256 + 1 :=
    Bits.or_eq_add (k := 8) (by omega) (by decide)
  have hword : (pa % 2 ^ 32 ||| 1) ||| pa / 2 ^ 32 % 4 * 256
      = pa % 2 ^ 32 + (pa / 2 ^ 32 % 4 * 256 + 1) := by
    rw [Nat.or_assoc, Nat.or_comm 1, hctrl]
    exact Bits.or_eq_add (k := 12) (by omega) (by omega)
  unfold iopteEntry
  simp only [hlow, highBits, hword]
  unfold u32
  omega

/-- A freshly stored directory entry is valid. -/
theorem isValid_iopteEntry {L : PgtableLayout} {pa : Nat}
    (hal : pa % ptSize L = 0) : IsValid (iopteEntry L pa) := by
  rw [isValid_iff]
  cases L
  · rw [iopteEntry_v1 hal]
    simp only [ptSize_v1] at hal
    omega
  · rw [iopteEntry_v2 hal]
    simp only [ptSize_v2] at hal
    omega

/-- A directory entry decodes to the table it was made for. -/
theorem tableOf_iopteEntry {L : PgtableLayout} {pa : Nat}
    (hal : pa % ptSize L = 0) (hw : InPhysWindow L pa) :
    tableOf L (iopteEntry L pa) = pa := by
  unfold tableOf iopteOffset
  rw [iopteIndex_zero, Nat.mul_zero, Nat.add_zero]
  apply iommuPhyToCpuPhy_of_mod hw
  cases L
  · rw [iopteEntry_v1 hal]
    simp only [ptSize_v1, iommuVaBits_v1] at hal ⊢
    rw [and_iopteBaseMask (by omega), ptSize_v1]
    omega
  · rw [iopteEntry_v2 hal]
    simp only [ptSize_v2, iommuVaBits_v2] at hal ⊢
    have hsum : pa / 2 ^ 32 % 4 * 2 ^ 32 + pa % 2 ^ 32 = pa % 2 ^ 34 := by
      omega
    obtain ⟨hbase, hfield⟩ := word_fields (pa % 2 ^ 32)
      (pa / 2 ^ 32 % 4 * 256 + 1) (by omega) (by omega)
    have hhigh : (pa / 2 ^ 32 % 4 * 256 + 1) / 256 % 4 = pa / 2 ^ 32 % 4 := by
      omega
    have hor : pa / 2 ^ 32 % 4 * 2 ^ 32 ||| pa % 2 ^ 32
        = pa / 2 ^ 32 % 4 * 2 ^ 32 + pa % 2 ^ 32 :=
      Bits.or_eq_add (k := 32) (by omega) (by omega)
    rw [and_iopteBaseMask (by omega), ptSize_v2, highField, hbase, hfield,
      hhigh, Nat.or_comm, hor, hsum]

/-- Storing a table address and reading it back with `iopte_offset` gives
the leaf of `iova` in that table. -/
theorem iopteOffset_iopteEntry {L : PgtableLayout} {pa : Nat}
    (hal : pa % ptSize L = 0) (hw : InPhysWindow L pa) (iova : Nat) :
    iopteOffset L (iopteEntry L pa) iova = pa + 4 * iopteIndex L iova := by
  rw [iopteOffset_eq, tableOf_iopteEntry hal hw]

/-! ## Leaves -/

/-- The access bits of a leaf for the protection `prot`. -/
def pteFlags (prot : Nat) : Nat :=
  (if prot &&& iommuRead ≠ 0 then sunxiPtePageReadable else 0) |||
    (if prot &&& iommuWrite ≠ 0 then sunxiPtePageWritable else 0)

/-- `sunxi_mk_pte`. -/
def sunxiMkPte (L : PgtableLayout) (page prot : Nat) : Nat :=
  let page := page &&& iommuPtMask
  let highAddr := match L with
    | .v1 => 0
    | .v2 => u32 ((page >>> 32) <<< addrHighShift &&& addrHighMask)
  u32 (page ||| highAddr ||| pteFlags prot ||| sunxiPtePageValid)

/-- `IOPTE_TO_PFN(ent)`. -/
def iopteToPfn (L : PgtableLayout) (ent : Nat) : Nat :=
  match L with
  | .v1 => ent &&& iommuPtMask
  | .v2 => (ent &&& iommuPtMask) |||
      ((ent &&& addrHighMask) >>> addrHighShift) <<< 32

/-- The physical address that a leaf translates the first byte of its page
to. -/
def leafPhys (L : PgtableLayout) (ent : Nat) : Nat :=
  iommuPhyToCpuPhy L (iopteToPfn L ent)

/-- The access bits are two bits of the word, one for each right. -/
theorem pteFlags_eq (prot : Nat) :
    pteFlags prot = 4 * (prot % 2) + 8 * (prot / 2 % 2) := by
  have hr : prot &&& iommuRead = prot % 2 := Bits.and_lowMask prot 1
  have hw : prot &&& iommuWrite = prot / 2 % 2 * 2 := Bits.and_field prot 1 1
  have hb0 : prot % 2 = 0 ∨ prot % 2 = 1 := by omega
  have hb1 : prot / 2 % 2 = 0 ∨ prot / 2 % 2 = 1 := by omega
  unfold pteFlags
  rw [hr, hw]
  rcases hb0 with h0 | h0 <;> rcases hb1 with h1 | h1 <;> rw [h0, h1] <;> decide

/-- The control bits of a leaf below its page address. -/
private def ctrlBits (L : PgtableLayout) (page prot : Nat) : Nat :=
  (match L with | .v1 => 0 | .v2 => page / 2 ^ 32 % 4 * 256) +
    (4 * (prot % 2) + 8 * (prot / 2 % 2)) + 2

private theorem ctrlBits_lt (L : PgtableLayout) (page prot : Nat) :
    ctrlBits L page prot < 4096 := by
  unfold ctrlBits
  cases L <;> simp only <;> omega

/-- A leaf is its page address and its control bits. -/
private theorem sunxiMkPte_eq {L : PgtableLayout} {page : Nat} (prot : Nat)
    (hpage : page < 2 ^ 64) (hal : page % 4096 = 0) :
    sunxiMkPte L page prot = page % 2 ^ 32 + ctrlBits L page prot := by
  have hmask : page &&& iommuPtMask = page := by
    rw [and_iommuPtMask hpage]
    omega
  have hflags := pteFlags_eq prot
  have hjoin : ∀ high, high % 256 = 0 → high < 1024 →
      u32 (page ||| high ||| pteFlags prot ||| sunxiPtePageValid)
        = page % 2 ^ 32 + (high + pteFlags prot + 2) := by
    intro high hal' hlt
    have hv : pteFlags prot ||| sunxiPtePageValid = pteFlags prot + 2 :=
      Bits.or_eq_add (k := 2) (by omega) (by decide)
    have hc : high ||| (pteFlags prot + 2) = high + (pteFlags prot + 2) :=
      Bits.or_eq_add (k := 8) (by omega) (by omega)
    have hp : page ||| (high + (pteFlags prot + 2))
        = page + (high + (pteFlags prot + 2)) :=
      Bits.or_eq_add (k := 12) (by omega) (by omega)
    rw [Nat.or_assoc, Nat.or_assoc, hv, hc, hp]
    unfold u32
    omega
  unfold sunxiMkPte ctrlBits
  simp only [hmask]
  cases L with
  | v1 =>
    simp only
    rw [hjoin 0 (by omega) (by omega), hflags]
  | v2 =>
    simp only
    have hhigh : u32 ((page >>> 32) <<< addrHighShift &&& addrHighMask)
        = page / 2 ^ 32 % 4 * 256 := by
      rw [highBits]
      unfold u32
      omega
    rw [hhigh, hjoin _ (by omega) (by omega), hflags]

/-- `IOPTE_TO_PFN` of a 32-bit word, as arithmetic. -/
private theorem iopteToPfn_eq {L : PgtableLayout} {w : Nat}
    (hw : w < 2 ^ 32) :
    iopteToPfn L w = w / 4096 * 4096 +
      (match L with | .v1 => 0 | .v2 => w / 256 % 4 * 2 ^ 32) := by
  unfold iopteToPfn
  cases L with
  | v1 =>
    simp only
    rw [and_iommuPtMask (by omega), Nat.add_zero]
  | v2 =>
    simp only
    rw [and_iommuPtMask (by omega), highField, Nat.or_comm,
      Bits.or_eq_add (k := 32) (by omega) (by omega)]
    omega

theorem iopteToPfn_aligned {L : PgtableLayout} {w : Nat} (hw : w < 2 ^ 32) :
    iopteToPfn L w % 4096 = 0 := by
  rw [iopteToPfn_eq hw]
  cases L <;> simp only <;> omega

/-- `sunxi_pgtable_prepare_l2_tables` makes one leaf and adds the page size
to it for each further page.  In the 34-bit layout the sum must not carry
out of the low 32 bits, since the high bits are not part of it. -/
def NoCarry (L : PgtableLayout) (page i : Nat) : Prop :=
  match L with
  | .v1 => True
  | .v2 => page % 2 ^ 32 + spageSize * i < 2 ^ 32

/-- The `i`-th leaf of a run that starts with the leaf of `page`. -/
def leafRun (L : PgtableLayout) (page prot i : Nat) : Nat :=
  u32 (sunxiMkPte L page prot + spageSize * i)

theorem leafRun_lt (L : PgtableLayout) (page prot i : Nat) :
    leafRun L page prot i < 2 ^ 32 :=
  Nat.mod_lt _ (by decide)

/-- The `i`-th leaf of a run is the address of the `i`-th page and the
control bits of the first one. -/
private theorem leafRun_eq {L : PgtableLayout} {page : Nat} (prot i : Nat)
    (hpage : page < 2 ^ 64) (hal : page % 4096 = 0) :
    leafRun L page prot i
      = (page + spageSize * i) % 2 ^ 32 + ctrlBits L page prot := by
  have hlt := ctrlBits_lt L page prot
  unfold leafRun u32
  rw [sunxiMkPte_eq prot hpage hal, spageSize_eq]
  omega

/-- The `i`-th leaf of a run decodes to the `i`-th page after `page`. -/
theorem phys_of_leaf {L : PgtableLayout} {page i pa : Nat} (prot : Nat)
    (hpage : page < 2 ^ 64) (hal : page % 4096 = 0)
    (hcarry : NoCarry L page i) (hw : InPhysWindow L pa)
    (hpa : pa % 2 ^ iommuVaBits L
      = (page + spageSize * i) % 2 ^ iommuVaBits L) :
    leafPhys L (leafRun L page prot i) = pa := by
  apply iommuPhyToCpuPhy_of_mod hw
  obtain ⟨hbase, hfield⟩ := word_fields
    ((page + spageSize * i) % 2 ^ 32) (ctrlBits L page prot)
    (by rw [spageSize_eq]; omega) (ctrlBits_lt L page prot)
  rw [hpa, iopteToPfn_eq (leafRun_lt L page prot i),
    leafRun_eq prot i hpage hal, hbase, hfield]
  unfold NoCarry at hcarry
  cases L
  · simp only [iommuVaBits_v1, Nat.add_zero]
  · have hctrl : ctrlBits .v2 page prot / 256 % 4 = page / 2 ^ 32 % 4 := by
      unfold ctrlBits
      simp only
      omega
    simp only [iommuVaBits_v2, spageSize_eq, hctrl] at hcarry ⊢
    omega

/-- A run that carries decodes to another page: the carry is not part of the
high address bits. -/
theorem noCarry_of_phys {L : PgtableLayout} {page i pa prot : Nat}
    (hpage : page < 2 ^ 64) (hal : page % 4096 = 0) (hi : i < numEntriesPte L)
    (hpa : pa % 2 ^ iommuVaBits L
      = (page + spageSize * i) % 2 ^ iommuVaBits L)
    (hphys : leafPhys L (leafRun L page prot i) = pa) : NoCarry L page i := by
  have hmod := iommuPhyToCpuPhy_mod L (iopteToPfn L (leafRun L page prot i))
  obtain ⟨hbase, hfield⟩ := word_fields
    ((page + spageSize * i) % 2 ^ 32) (ctrlBits L page prot)
    (by rw [spageSize_eq]; omega) (ctrlBits_lt L page prot)
  rw [show iommuPhyToCpuPhy L (iopteToPfn L (leafRun L page prot i)) = pa
      from hphys, hpa, iopteToPfn_eq (leafRun_lt L page prot i),
    leafRun_eq prot i hpage hal, hbase, hfield] at hmod
  unfold NoCarry
  cases L
  · trivial
  · have hctrl : ctrlBits .v2 page prot / 256 % 4 = page / 2 ^ 32 % 4 := by
      unfold ctrlBits
      simp only
      omega
    clear hbase hfield
    simp only [iommuVaBits_v2, spageSize_eq, numEntriesPte_v2, hctrl]
      at hi hmod ⊢
    omega

/-- `SUNXI_PTE_PAGE_VALID` is set in every leaf of a run. -/
theorem leafRun_valid {L : PgtableLayout} {page : Nat} (prot i : Nat)
    (hpage : page < 2 ^ 64) (hal : page % 4096 = 0) :
    leafRun L page prot i &&& sunxiPtePageValid ≠ 0 := by
  have hf : leafRun L page prot i &&& sunxiPtePageValid
      = leafRun L page prot i / 2 % 2 * 2 := Bits.and_field _ 1 1
  rw [hf, leafRun_eq prot i hpage hal]
  unfold ctrlBits
  cases L <;> simp only [spageSize_eq] <;> omega

/-- A leaf is readable exactly when the mapping was. -/
theorem leaf_readable {L : PgtableLayout} {page : Nat} (prot i : Nat)
    (hpage : page < 2 ^ 64) (hal : page % 4096 = 0) :
    leafRun L page prot i &&& sunxiPtePageReadable ≠ 0 ↔
      prot &&& iommuRead ≠ 0 := by
  have hf : leafRun L page prot i &&& sunxiPtePageReadable
      = leafRun L page prot i / 4 % 2 * 4 := Bits.and_field _ 2 1
  have hr : prot &&& iommuRead = prot % 2 := Bits.and_lowMask prot 1
  rw [hf, hr, leafRun_eq prot i hpage hal]
  unfold ctrlBits
  cases L <;> simp only [spageSize_eq] <;> omega

/-- A leaf is writable exactly when the mapping was. -/
theorem leaf_writable {L : PgtableLayout} {page : Nat} (prot i : Nat)
    (hpage : page < 2 ^ 64) (hal : page % 4096 = 0) :
    leafRun L page prot i &&& sunxiPtePageWritable ≠ 0 ↔
      prot &&& iommuWrite ≠ 0 := by
  have hf : leafRun L page prot i &&& sunxiPtePageWritable
      = leafRun L page prot i / 8 % 2 * 8 := Bits.and_field _ 3 1
  have hr : prot &&& iommuWrite = prot / 2 % 2 * 2 := Bits.and_field prot 1 1
  rw [hf, hr, leafRun_eq prot i hpage hal]
  unfold ctrlBits
  cases L <;> simp only [spageSize_eq] <;> omega

end LonganPi.Iommu
