import LonganPi.Iommu.PgtableOps

/-!
# Which physical runs the second pass encodes

`sunxi_pgtable_prepare_l2_tables` makes one leaf for each table of the range
and adds the page size to it for the further ones.  In the 34-bit layout bits
32 and 33 of the address are in the middle of the word, so the sum must not
carry out of the low 32 bits.

* `mappedLeaf_phys_iff` is one leaf: it decodes to its page when its run has
  not carried.  `mappedLeaf_rights` is the part that always holds.
* `EncodesRun` is what the pass is for.
* `encodesRun_iff` is the condition on the ranges: a 4 GiB boundary inside the
  physical run has to be the start of a table.
-/

namespace LonganPi.Iommu

variable {L : PgtableLayout} {s : Pgtable}
  {start stop paddr prot a : Nat}

/-! ## One leaf -/

/-- Where the run of leaves of `a` starts: at the range, or at its table. -/
def runBase (L : PgtableLayout) (start a : Nat) : Nat :=
  max start (a / spdSize L * spdSize L)

theorem runBase_spec (hal : start % 4096 = 0) (hge : start ≤ a) :
    start ≤ runBase L start a ∧ runBase L start a ≤ a ∧
      runBase L start a % 4096 = 0 ∧
      (a - runBase L start a) / 4096 < numEntriesPte L := by
  unfold runBase
  cases L <;> simp only [spdSize_v1, spdSize_v2, numEntriesPte_v1,
    numEntriesPte_v2] <;> omega

/-- A range of pages, and a physical run of the window for it. -/
structure RunArgs (L : PgtableLayout) (start stop paddr : Nat) : Prop where
  start_aligned : start % 4096 = 0
  stop_aligned : stop % 4096 = 0
  le : start ≤ stop
  stop_le : stop ≤ 2 ^ iommuVaBits L
  paddr_aligned : paddr % 4096 = 0
  window_lo : sunxiPhysOffset ≤ paddr
  window_hi : paddr + (stop - start) ≤ sunxiPhysOffset + 2 ^ iommuVaBits L

namespace RunArgs

theorem pageRange (h : RunArgs L start stop paddr) (hlt : start < stop) :
    PageRange L start stop :=
  ⟨h.start_aligned, h.stop_aligned, hlt, h.stop_le⟩

/-- The bus address of the run is a page that the mask keeps. -/
theorem bus_spec (h : RunArgs L start stop paddr) (hlt : start < stop) :
    cpuPhyToIommuPhy L paddr &&& iommuPtMask = cpuPhyToIommuPhy L paddr ∧
      cpuPhyToIommuPhy L paddr % 4096 = 0 ∧
      cpuPhyToIommuPhy L paddr ≤ 2 ^ iommuVaBits L := by
  have hpage : 4096 ∣ 2 ^ iommuVaBits L := by cases L <;> decide
  have hal := cpuPhyToIommuPhy_aligned hpage h.paddr_aligned
  have hle : cpuPhyToIommuPhy L paddr ≤ 2 ^ iommuVaBits L :=
    cpuPhyToIommuPhy_le ⟨h.window_lo, by have := h.window_hi; omega⟩
  have hva := aperture_le L
  refine ⟨?_, hal, hle⟩
  rw [and_iommuPtMask (by omega)]
  omega

end RunArgs

/-- The bus page that the run of `a` starts with. -/
def runPage (L : PgtableLayout) (start paddr a : Nat) : Nat :=
  cpuPhyToIommuPhy L paddr + (runBase L start a - start)

/-- The page of `a` and the leaf it gets, counted from the start of its run. -/
theorem runPage_spec (h : RunArgs L start stop paddr) (hge : start ≤ a)
    (hlt : a < stop) :
    runPage L start paddr a < 2 ^ 64 ∧ runPage L start paddr a % 4096 = 0 ∧
      InPhysWindow L (paddr + (a / 4096 * 4096 - start)) ∧
      (paddr + (a / 4096 * 4096 - start)) % 2 ^ iommuVaBits L
        = (runPage L start paddr a
            + spageSize * ((a - runBase L start a) / 4096))
          % 2 ^ iommuVaBits L := by
  obtain ⟨hbge, hble, hbal, -⟩ := runBase_spec (L := L) h.start_aligned hge
  obtain ⟨-, hbus, hle⟩ := h.bus_spec (by omega)
  have hmod := cpuPhyToIommuPhy_mod L paddr
  have hva := aperture_le L
  rcases h with ⟨hstart, hstop, -, hstople, hpaddr, hlo, hhi⟩
  have hoff : runPage L start paddr a
      + spageSize * ((a - runBase L start a) / 4096)
      = cpuPhyToIommuPhy L paddr + (a / 4096 * 4096 - start) := by
    unfold runPage
    rw [spageSize_eq]
    omega
  refine ⟨?_, ?_, ⟨?_, ?_⟩, ?_⟩
  · unfold runPage
    omega
  · unfold runPage
    omega
  · omega
  · omega
  · rw [hoff, Nat.add_mod, ← hmod, ← Nat.add_mod]

theorem mappedLeaf_eq (h : RunArgs L start stop paddr) (hlt : start < stop)
    (prot a : Nat) :
    mappedLeaf L start (cpuPhyToIommuPhy L paddr &&& iommuPtMask) prot a
      = leafRun L (runPage L start paddr a) prot
          ((a - runBase L start a) / 4096) := by
  rw [(h.bus_spec hlt).1]
  rfl

/-- The leaf of `a` decodes to its page exactly when its run has not carried
out of the low 32 bits. -/
theorem mappedLeaf_phys_iff (h : RunArgs L start stop paddr) (prot : Nat)
    (hge : start ≤ a) (hlt : a < stop) :
    leafPhys L (mappedLeaf L start (cpuPhyToIommuPhy L paddr &&& iommuPtMask)
        prot a) = paddr + (a / 4096 * 4096 - start) ↔
      NoCarry L (runPage L start paddr a)
        ((a - runBase L start a) / 4096) := by
  obtain ⟨hlt64, hal, hw, hmod⟩ := runPage_spec h hge hlt
  obtain ⟨-, -, -, hidx⟩ := runBase_spec (L := L) h.start_aligned hge
  rw [mappedLeaf_eq h (by omega)]
  constructor
  · intro hphys
    exact noCarry_of_phys hlt64 hal hidx hmod hphys
  · intro hcarry
    exact phys_of_leaf prot hlt64 hal hcarry hw hmod

/-- Validity and rights of a leaf do not depend on the carry. -/
theorem mappedLeaf_rights (h : RunArgs L start stop paddr) (prot : Nat)
    (hge : start ≤ a) (hlt : a < stop) :
    let w := mappedLeaf L start (cpuPhyToIommuPhy L paddr &&& iommuPtMask) prot a
    w < 2 ^ 32 ∧ w &&& sunxiPtePageValid ≠ 0 ∧
      (w &&& sunxiPtePageReadable ≠ 0 ↔ prot &&& iommuRead ≠ 0) ∧
      (w &&& sunxiPtePageWritable ≠ 0 ↔ prot &&& iommuWrite ≠ 0) := by
  obtain ⟨hlt64, hal, -, -⟩ := runPage_spec h hge hlt
  simp only [mappedLeaf_eq h (Nat.lt_of_le_of_lt hge hlt)]
  exact ⟨leafRun_lt _ _ _ _, leafRun_valid _ _ hlt64 hal,
    leaf_readable _ _ hlt64 hal, leaf_writable _ _ hlt64 hal⟩

/-! ## The whole range -/

/-- The pass maps the range to the physical run, with the rights of `prot`, and
changes no other leaf. -/
structure EncodesRun (L : PgtableLayout) (s s' : Pgtable)
    (start stop paddr prot : Nat) : Prop where
  phys : ∀ a, start ≤ a → a < stop →
    sunxiPgtableIovaToPhys L s' a = .ok (paddr + (a - start))
  readable : ∀ a, start ≤ a → a < stop →
    (leafWord L s' a &&& sunxiPtePageReadable ≠ 0 ↔ prot &&& iommuRead ≠ 0)
  writable : ∀ a, start ≤ a → a < stop →
    (leafWord L s' a &&& sunxiPtePageWritable ≠ 0 ↔ prot &&& iommuWrite ≠ 0)
  outside : ∀ a < 2 ^ iommuVaBits L, ¬ (start ≤ a ∧ a < stop) →
    leafWord L s' a = leafWord L s a

/-- In the 34-bit layout, a 4 GiB boundary inside the physical run is mapped by
the first leaf of a table. -/
def BoundariesStartTables (L : PgtableLayout) (start stop paddr : Nat) : Prop :=
  L = .v2 → ∀ a, start < a → a < stop → (paddr + (a - start)) % 2 ^ 32 = 0 →
    a % spdSize L = 0

/-- No run of the range carries when every boundary starts a new one. -/
theorem noCarry_iff (h : RunArgs L start stop paddr) :
    (∀ a, start ≤ a → a < stop →
        NoCarry L (runPage L start paddr a)
          ((a - runBase L start a) / 4096)) ↔
      BoundariesStartTables L start stop paddr := by
  have hmod := cpuPhyToIommuPhy_mod L paddr
  have hpaddr := h.paddr_aligned
  have hstart := h.start_aligned
  unfold BoundariesStartTables
  cases L with
  | v1 => simp [NoCarry]
  | v2 =>
    simp only [NoCarry, runPage, runBase, spdSize_v2, spageSize_eq,
      iommuVaBits_v2, true_imp_iff] at hmod ⊢
    generalize cpuPhyToIommuPhy .v2 paddr = bus at hmod ⊢
    constructor
    · intro hnone a hgt hlt hbound
      have hcarry := hnone a (Nat.le_of_lt hgt) hlt
      omega
    · intro hbound a hge hlt
      by_contra hcarry
      -- The boundary that the run of `a` crosses.
      obtain ⟨base, hbase⟩ :
          ∃ base, base = max start (a / 4194304 * 4194304) := ⟨_, rfl⟩
      rw [← hbase] at hcarry
      obtain ⟨b, hb⟩ :
          ∃ b, b = base + (2 ^ 32 - (bus + (base - start)) % 2 ^ 32) := ⟨_, rfl⟩
      have haligned := hbound b (by omega) (by omega) (by omega)
      omega

/-- What a walk of the range finds after the pass. -/
theorem Maps.iovaToPhys {s' : Pgtable} (h : RunArgs L start stop paddr)
    (hmaps : Maps L s s' start stop
      (cpuPhyToIommuPhy L paddr &&& iommuPtMask) prot)
    (hge : start ≤ a) (hlt : a < stop) :
    sunxiPgtableIovaToPhys L s' a = .ok (leafPhys L (mappedLeaf L start
      (cpuPhyToIommuPhy L paddr &&& iommuPtMask) prot a) + a % 4096) := by
  obtain ⟨hlt32, hvalid, -, -⟩ := mappedLeaf_rights h prot hge hlt
  have hleaf := hmaps.leafWord_eq a (Nat.lt_of_lt_of_le hlt h.stop_le)
  rw [if_pos ⟨hge, hlt⟩] at hleaf
  have hne : mappedLeaf L start (cpuPhyToIommuPhy L paddr &&& iommuPtMask) prot a
      ≠ 0 := by
    intro h0
    rw [h0] at hvalid
    exact hvalid (Nat.zero_and _)
  rw [sunxiPgtableIovaToPhys_eq hmaps.wellFormed, hleaf, if_pos hne,
    iovaPageOft_eq, iommuPhyToCpuPhy_add (iopteToPfn_aligned hlt32)
      (Nat.mod_lt _ (by decide))]
  rfl

/-- The pass encodes the run exactly when every 4 GiB boundary inside it starts
a table. -/
theorem encodesRun_iff (hwf : WellFormed L s)
    (h : RunArgs L start stop paddr)
    (hvalid : ∀ a, start ≤ a → a < stop →
      IsValid (s.pgtable (iopdeIndex L a))) (prot : Nat) :
    (∃ s', sunxiPgtablePrepareL2Tables L s start stop paddr prot = .ok s' ∧
        EncodesRun L s s' start stop paddr prot) ↔
      BoundariesStartTables L start stop paddr := by
  obtain ⟨s', heq, hmaps⟩ := prepareL2Loop_spec h.pageRange enoughFuel_spanFuel
    s (cpuPhyToIommuPhy L paddr &&& iommuPtMask) hwf hvalid
  have hstart := h.start_aligned
  rw [← noCarry_iff h]
  constructor
  · rintro ⟨s₁, heq₁, henc⟩ a hge hlt
    obtain rfl : s' = s₁ := Except.ok.inj (heq.symm.trans heq₁)
    have hphys := (hmaps.iovaToPhys h hge hlt).symm.trans (henc.phys a hge hlt)
    rw [← mappedLeaf_phys_iff h prot hge hlt]
    have hsum := Except.ok.inj hphys
    omega
  · intro hnone
    have hleaf : ∀ a, start ≤ a → a < stop → leafWord L s' a
        = mappedLeaf L start (cpuPhyToIommuPhy L paddr &&& iommuPtMask) prot a := by
      intro a hge hlt
      rw [hmaps.leafWord_eq a (Nat.lt_of_lt_of_le hlt h.stop_le),
        if_pos ⟨hge, hlt⟩]
    refine ⟨s', heq, ?_, ?_, ?_, ?_⟩
    · intro a hge hlt
      rw [hmaps.iovaToPhys h hge hlt,
        (mappedLeaf_phys_iff h prot hge hlt).mpr (hnone a hge hlt)]
      congr 1
      omega
    · intro a hge hlt
      rw [hleaf a hge hlt]
      exact (mappedLeaf_rights h prot hge hlt).2.2.1
    · intro a hge hlt
      rw [hleaf a hge hlt]
      exact (mappedLeaf_rights h prot hge hlt).2.2.2
    · intro a ha hout
      rw [hmaps.leafWord_eq a ha, if_neg hout]

/-! ## Two runs of two pages -/

/-- An empty table for the first directory entry of the 34-bit layout. -/
def firstTable : Pgtable :=
  (sunxiAllocIopte .v2 (sunxiPgtableAlloc [some 0x50000000]) 0).1

theorem firstTable_wellFormed : WellFormed .v2 firstTable :=
  (sunxiAllocIopte_spec (wellFormed_alloc .v2 _) (by decide)
    not_isValid_zero).1.wellFormed

/-- Two pages from 0x41000000 on. -/
theorem encodesRun_twoPages :
    ∃ s', sunxiPgtablePrepareL2Tables .v2 firstTable 0x1000 0x3000 0x41000000 3
        = .ok s' ∧
      EncodesRun .v2 firstTable s' 0x1000 0x3000 0x41000000 3 := by
  have hvalid : ∀ a, 0x1000 ≤ a → a < 0x3000 →
      IsValid (firstTable.pgtable (iopdeIndex .v2 a)) := by
    intro a _ hlt
    rw [iopdeIndex_eq, spdSize_v2, show a / 4194304 % 4096 = 0 by omega]
    decide
  apply (encodesRun_iff firstTable_wellFormed
    ⟨by decide, by decide, by decide, by decide, by decide, by decide,
      by decide⟩ hvalid 3).mpr
  intro _ a hgt hlt hbound
  omega

/-- Two pages with the 4 GiB boundary between them.  The second one goes to
16 GiB. -/
theorem boundary_carries :
    RunArgs .v2 0x1000 0x3000 0xFFFFF000 ∧
      ¬ ∃ s', sunxiPgtablePrepareL2Tables .v2 firstTable 0x1000 0x3000 0xFFFFF000 3
          = .ok s' ∧
        EncodesRun .v2 firstTable s' 0x1000 0x3000 0xFFFFF000 3 := by
  refine ⟨⟨by decide, by decide, by decide, by decide, by decide, by decide,
    by decide⟩, ?_⟩
  rintro ⟨s', heq, henc⟩
  have hcarried : ((sunxiPgtablePrepareL2Tables .v2 firstTable 0x1000 0x3000
      0xFFFFF000 3).bind fun s =>
        sunxiPgtableIovaToPhys .v2 s 0x2000).toOption
      = some 0x400000000 := by decide +kernel
  have hphys := henc.phys 0x2000 (by decide) (by decide)
  rw [heq] at hcarried
  simp [Except.bind, hphys, Except.toOption] at hcarried

end LonganPi.Iommu
