import LonganPi.Iommu.IovaTrace
import LonganPi.Iommu.UnmapSweep

/-!
# The register pairs of an invalidation

From V12 on an invalidation writes a START and an END register.  The
addresses are 64-bit and the registers are 32-bit.  `sunxi-iommu-v1.c` writes
the address as it is, the other two files write it in pages or in directory
spans.

* `RangesSound` says of an unmap and of `sunxi_zap_tlb` that no pair is
  inverted, and that the pairs of the unmap cover its range.
* `rangesSound_iff` is the condition on the range.  A range fails at the top
  of the 32-bit aperture, where END wraps, and from V14 on in the first span,
  where START goes below 0.
-/

namespace LonganPi.Iommu

variable {s : Pgtable}

/-! ## The registers -/

/-- The page table that the file is built with. -/
def DriverVersion.layout : DriverVersion → PgtableLayout
  | .v1 => .v1
  | .v2 => .v2
  | .v3 => .v2

/-- `IOMMU_TLB_IVLD_ADDR_ALIGN_SHIFT`. -/
def iommuTlbIvldAddrAlignShift : Nat := 12

/-- `IOMMU_TLB_IVLD_ADDR_OFFSET`. -/
def iommuTlbIvldAddrOffset : Nat := 0

/-- `IOMMU_PC_IVLD_ADDR_ALIGN_SHIFT`. -/
def iommuPcIvldAddrAlignShift : Nat := 22

/-- `IOMMU_PC_IVLD_ADDR_OFFSET`. -/
def iommuPcIvldAddrOffset : Nat := 0

/-- What `sunxi_tlb_invalid` stores for an address from V12 on. -/
def DriverVersion.tlbReg (d : DriverVersion) (addr : Nat) : Nat :=
  match d with
  | .v1 => u32 addr
  | _ => u32 ((addr >>> iommuTlbIvldAddrAlignShift)
      <<< iommuTlbIvldAddrOffset)

/-- What `sunxi_ptw_cache_invalid` stores for an address from V14 on. -/
def DriverVersion.pcReg (d : DriverVersion) (addr : Nat) : Nat :=
  match d with
  | .v1 => u32 addr
  | _ => u32 ((addr >>> iommuPcIvldAddrAlignShift)
      <<< iommuPcIvldAddrOffset)

/-- The pair is not inverted, if the step writes one. -/
def DriverVersion.Ordered (d : DriverVersion) (version : Nat) :
    Event → Prop
  | .tlbInvalid start stop =>
    version ≥ iommuVersionV12 → d.tlbReg start ≤ d.tlbReg stop
  | .ptwInvalid start stop =>
    version ≥ iommuVersionV14 → d.pcReg start ≤ d.pcReg stop
  | _ => True

/-- One of the steps writes a TLB pair that covers the page of `a`. -/
def DriverVersion.TlbCovers (d : DriverVersion) (es : List Event) (a : Nat) :
    Prop :=
  ∃ start stop, .tlbInvalid start stop ∈ es ∧
    d.tlbReg start ≤ d.tlbReg a ∧ d.tlbReg a ≤ d.tlbReg stop

/-- One of the steps writes a PTW pair that covers the page of `a`. -/
def DriverVersion.PcCovers (d : DriverVersion) (es : List Event) (a : Nat) :
    Prop :=
  ∃ start stop, .ptwInvalid start stop ∈ es ∧
    d.pcReg start ≤ d.pcReg a ∧ d.pcReg a ≤ d.pcReg stop

/-- No pair of the unmap or of `sunxi_zap_tlb` is inverted, and those of the
unmap cover the range. -/
def RangesSound (d : DriverVersion) (version : Nat) (s : Pgtable)
    (iova size : Nat) : Prop :=
  ∃ s' gather ret,
    sunxiIommuUnmap d.layout version s iova size Gather.init
      = .ok (s', gather, ret) ∧
    (∀ e ∈ stepsBetween s s', d.Ordered version e) ∧
    (∀ e ∈ zapEvents d.layout version iova size, d.Ordered version e) ∧
    ∀ a, iova ≤ a → a < iova + size →
      d.TlbCovers (stepsBetween s s') a ∧
        (version ≥ iommuVersionV14 → d.PcCovers (stepsBetween s s') a)

/-! ## The registers as numbers -/

@[simp] theorem tlbReg_v1 (addr : Nat) :
    DriverVersion.v1.tlbReg addr = addr % 2 ^ 32 := rfl

@[simp] theorem pcReg_v1 (addr : Nat) :
    DriverVersion.v1.pcReg addr = addr % 2 ^ 32 := rfl

theorem tlbReg_page {d : DriverVersion} (hd : d ≠ .v1) (addr : Nat) :
    d.tlbReg addr = addr / 4096 % 2 ^ 32 := by
  cases d with
  | v1 => exact absurd rfl hd
  | v2 => exact congrArg u32 (Nat.shiftRight_eq_div_pow addr 12)
  | v3 => exact congrArg u32 (Nat.shiftRight_eq_div_pow addr 12)

theorem pcReg_span {d : DriverVersion} (hd : d ≠ .v1) (addr : Nat) :
    d.pcReg addr = addr / 4194304 % 2 ^ 32 := by
  cases d with
  | v1 => exact absurd rfl hd
  | v2 => exact congrArg u32 (Nat.shiftRight_eq_div_pow addr 22)
  | v3 => exact congrArg u32 (Nat.shiftRight_eq_div_pow addr 22)

theorem layout_page {d : DriverVersion} (hd : d ≠ .v1) : d.layout = .v2 := by
  cases d with
  | v1 => exact absurd rfl hd
  | v2 => rfl
  | v3 => rfl

/-! ## The pairs of an unmap -/

/-- The steps of an unmap: the invalidations of the range, then the loop,
which invalidates no range. -/
theorem unmap_steps {L : PgtableLayout} {iova size : Nat} (version : Nat)
    (hwf : WellFormed L s) (hr : PageRange L iova (iova + size)) :
    ∃ s' gather ret es,
      sunxiIommuUnmap L version s iova size Gather.init
        = .ok (s', gather, ret) ∧
      stepsBetween s s' = preInvalidations version iova (iova + size) ++ es ∧
      ∀ e ∈ es, e.InLoop version := by
  obtain ⟨es, heq, hloop⟩ := unmap_sweep version Gather.init hwf hr
  refine ⟨_, _, _, es, heq, ?_, hloop.inLoop⟩
  rw [← performs_append, stepsBetween_performs]

/-- A step of the loop writes no pair. -/
theorem Event.InLoop.ordered {version : Nat} {e : Event}
    (h : e.InLoop version) (d : DriverVersion) : d.Ordered version e := by
  cases e with
  | tlbInvalid start stop => exact absurd h id
  | ptwInvalid start stop =>
    intro hnew
    have hold : version < iommuVersionV14 := h
    omega
  | storeLeaf addr val => trivial
  | storeDent i val => trivial
  | allocTable pa => trivial
  | freeTable pa => trivial

theorem mem_preInvalidations {version iova stop : Nat} {e : Event} :
    e ∈ preInvalidations version iova stop ↔
      version ≥ iommuVersionV12 ∧ e = .tlbInvalid iova stop ∨
        version ≥ iommuVersionV14 ∧ e = .ptwInvalid iova stop := by
  unfold preInvalidations
  rw [List.mem_append]
  split_ifs <;> simp_all

/-- The unmap writes its own pair and no other. -/
theorem rangesSound_of_zap {d : DriverVersion} {version iova size : Nat}
    (hlo : iommuVersionV12 ≤ version) (hwf : WellFormed d.layout s)
    (hr : PageRange d.layout iova (iova + size))
    (hzap : ∀ e ∈ zapEvents d.layout version iova size, d.Ordered version e)
    (htlb : ∀ a, iova ≤ a → a < iova + size → d.tlbReg iova ≤ d.tlbReg a ∧
      d.tlbReg a ≤ d.tlbReg (iova + size))
    (hpc : version ≥ iommuVersionV14 → ∀ a, iova ≤ a → a < iova + size →
      d.pcReg iova ≤ d.pcReg a ∧ d.pcReg a ≤ d.pcReg (iova + size)) :
    RangesSound d version s iova size := by
  obtain ⟨s', gather, ret, es, heq, hsteps, hes⟩ := unmap_steps version hwf hr
  have hfirst := hr.lt
  refine ⟨s', gather, ret, heq, fun e he => ?_, hzap, fun a hge hlt => ?_⟩
  · rw [hsteps] at he
    rcases List.mem_append.mp he with hpre | hloop
    · rcases mem_preInvalidations.mp hpre with ⟨-, rfl⟩ | ⟨hnew, rfl⟩
      · intro _
        have hpair := htlb iova (Nat.le_refl _) hfirst
        exact hpair.2
      · intro _
        exact (hpc hnew iova (Nat.le_refl _) hfirst).2
    · exact (hes e hloop).ordered d
  · rw [hsteps]
    refine ⟨⟨iova, iova + size, ?_, htlb a hge hlt⟩,
      fun hnew => ⟨iova, iova + size, ?_, hpc hnew a hge hlt⟩⟩
    · exact List.mem_append_left _ (mem_preInvalidations.mpr
        (Or.inl ⟨hlo, rfl⟩))
    · exact List.mem_append_left _ (mem_preInvalidations.mpr
        (Or.inr ⟨hnew, rfl⟩))

/-! ## The pairs of `sunxi_zap_tlb` -/

/-- The pairs of `sunxi_zap_tlb` from V12 on. -/
theorem zap_ordered_iff {d : DriverVersion} {version iova size : Nat}
    (hlo : iommuVersionV12 ≤ version) :
    (∀ e ∈ zapEvents d.layout version iova size, d.Ordered version e) ↔
      (d.tlbReg iova ≤ d.tlbReg (iova + 2 * spageSize) ∧
        d.tlbReg (usub (iova + size) spageSize)
          ≤ d.tlbReg (iova + size + 8 * spageSize)) ∧
      (version ≥ iommuVersionV14 →
        d.pcReg iova ≤ d.pcReg (iova + spdSize d.layout) ∧
        d.pcReg (usub (iova + size) (spdSize d.layout))
          ≤ d.pcReg (iova + size)) := by
  have hold : ¬ version ≤ iommuVersionV11 := by
    unfold iommuVersionV12 at hlo
    unfold iommuVersionV11
    omega
  unfold zapEvents
  rw [if_neg hold]
  by_cases hhi : version ≤ iommuVersionV13
  · have hnew : ¬ version ≥ iommuVersionV14 := by
      unfold iommuVersionV13 at hhi
      unfold iommuVersionV14
      omega
    rw [if_pos hhi]
    simp [DriverVersion.Ordered, hlo, hnew]
  · have hnew : version ≥ iommuVersionV14 := by
      unfold iommuVersionV13 at hhi
      unfold iommuVersionV14
      omega
    rw [if_neg hhi]
    simp [DriverVersion.Ordered, hlo, hnew, and_assoc]

/-- The range on which the pairs of the file do not wrap. -/
def NoWrap (d : DriverVersion) (version iova size : Nat) : Prop :=
  (d = .v1 → iova + size + 8 * spageSize < 2 ^ 32 ∧
    (version ≥ iommuVersionV14 → iova + spdSize .v1 < 2 ^ 32)) ∧
  (version ≥ iommuVersionV14 → spdSize d.layout ≤ iova + size)

/-- The TLB pairs of `sunxi-iommu-v1.c` wrap at the top of the aperture. -/
theorem zap_tlb_v1 {iova size : Nat}
    (hr : PageRange .v1 iova (iova + size)) :
    (DriverVersion.v1.tlbReg iova
        ≤ DriverVersion.v1.tlbReg (iova + 2 * spageSize) ∧
      DriverVersion.v1.tlbReg (usub (iova + size) spageSize)
        ≤ DriverVersion.v1.tlbReg (iova + size + 8 * spageSize)) ↔
      iova + size + 8 * spageSize < 2 ^ 32 := by
  rcases hr with ⟨hstart, hstop, hlt, hle⟩
  simp only [tlbReg_v1, usub, spageSize_eq, iommuVaBits_v1] at *
  omega

/-- Its PTW pairs wrap at both ends. -/
theorem zap_pc_v1 {iova size : Nat}
    (hr : PageRange .v1 iova (iova + size)) (hfit : iova + size < 2 ^ 32) :
    (DriverVersion.v1.pcReg iova
        ≤ DriverVersion.v1.pcReg (iova + spdSize .v1) ∧
      DriverVersion.v1.pcReg (usub (iova + size) (spdSize .v1))
        ≤ DriverVersion.v1.pcReg (iova + size)) ↔
      iova + spdSize .v1 < 2 ^ 32 ∧ spdSize .v1 ≤ iova + size := by
  rcases hr with ⟨hstart, hstop, hlt, hle⟩
  simp only [pcReg_v1, usub, spdSize_v1, iommuVaBits_v1] at *
  omega

/-- In pages, no address of the aperture wraps. -/
theorem zap_tlb_page {d : DriverVersion} (hd : d ≠ .v1) {iova size : Nat}
    (hr : PageRange .v2 iova (iova + size)) :
    d.tlbReg iova ≤ d.tlbReg (iova + 2 * spageSize) ∧
      d.tlbReg (usub (iova + size) spageSize)
        ≤ d.tlbReg (iova + size + 8 * spageSize) := by
  rcases hr with ⟨hstart, hstop, hlt, hle⟩
  simp only [tlbReg_page hd, usub, spageSize_eq, iommuVaBits_v2] at *
  omega

/-- In spans, only the subtraction goes wrong. -/
theorem zap_pc_page {d : DriverVersion} (hd : d ≠ .v1) {iova size : Nat}
    (hr : PageRange .v2 iova (iova + size)) :
    (d.pcReg iova ≤ d.pcReg (iova + spdSize .v2) ∧
      d.pcReg (usub (iova + size) (spdSize .v2)) ≤ d.pcReg (iova + size)) ↔
      spdSize .v2 ≤ iova + size := by
  rcases hr with ⟨hstart, hstop, hlt, hle⟩
  simp only [pcReg_span hd, usub, spdSize_v2, iommuVaBits_v2] at *
  omega

/-- No pair of `sunxi_zap_tlb` is inverted exactly when the range does not
wrap. -/
theorem zap_ordered_noWrap {d : DriverVersion} {version iova size : Nat}
    (hlo : iommuVersionV12 ≤ version)
    (hr : PageRange d.layout iova (iova + size)) :
    (∀ e ∈ zapEvents d.layout version iova size, d.Ordered version e) ↔
      NoWrap d version iova size := by
  rw [zap_ordered_iff hlo]
  unfold NoWrap
  by_cases hd : d = .v1
  · subst hd
    have htlb := zap_tlb_v1 hr
    rw [htlb]
    constructor
    · intro hbounds
      obtain ⟨hfit, hpc⟩ := hbounds
      have hpc' := fun hnew => (zap_pc_v1 hr (by omega)).mp (hpc hnew)
      exact ⟨fun _ => ⟨hfit, fun hnew => (hpc' hnew).1⟩,
        fun hnew => (hpc' hnew).2⟩
    · intro hbounds
      obtain ⟨hfit, hlow⟩ := hbounds
      have htop := hfit rfl
      exact ⟨htop.1, fun hnew => (zap_pc_v1 hr (by omega)).mpr
        ⟨htop.2 hnew, hlow hnew⟩⟩
  · rw [layout_page hd] at hr ⊢
    have htlb := zap_tlb_page hd hr
    have hpc := zap_pc_page hd hr
    simp only [hpc]
    exact ⟨fun h => ⟨fun h1 => absurd h1 hd, h.2⟩, fun h => ⟨htlb, h.2⟩⟩

/-! ## The pair of the unmap -/

/-- Below the top of the register, the pair of the range covers it. -/
theorem tlbReg_covers {d : DriverVersion} {version iova size : Nat}
    (hr : PageRange d.layout iova (iova + size))
    (hfit : NoWrap d version iova size) {a : Nat} (hge : iova ≤ a)
    (hlt : a < iova + size) :
    d.tlbReg iova ≤ d.tlbReg a ∧ d.tlbReg a ≤ d.tlbReg (iova + size) := by
  have hle := hr.le
  by_cases hd : d = .v1
  · subst hd
    have htop := (hfit.1 rfl).1
    simp only [tlbReg_v1]
    omega
  · rw [layout_page hd, iommuVaBits_v2] at hle
    simp only [tlbReg_page hd]
    omega

theorem pcReg_covers {d : DriverVersion} {version iova size : Nat}
    (hr : PageRange d.layout iova (iova + size))
    (hfit : NoWrap d version iova size) {a : Nat} (hge : iova ≤ a)
    (hlt : a < iova + size) :
    d.pcReg iova ≤ d.pcReg a ∧ d.pcReg a ≤ d.pcReg (iova + size) := by
  have hle := hr.le
  by_cases hd : d = .v1
  · subst hd
    have htop := (hfit.1 rfl).1
    simp only [pcReg_v1]
    omega
  · rw [layout_page hd, iommuVaBits_v2] at hle
    simp only [pcReg_span hd]
    omega

/-! ## The exact condition -/

/-- From V12 on, the pairs are sound exactly when the range does not wrap. -/
theorem rangesSound_iff {d : DriverVersion} {version iova size : Nat}
    (hlo : iommuVersionV12 ≤ version) (hwf : WellFormed d.layout s)
    (hr : PageRange d.layout iova (iova + size)) :
    RangesSound d version s iova size ↔ NoWrap d version iova size := by
  rw [← zap_ordered_noWrap hlo hr]
  constructor
  · intro hsound
    obtain ⟨s', gather, ret, -, -, hzap, -⟩ := hsound
    exact hzap
  · intro hzap
    have hfit := (zap_ordered_noWrap hlo hr).mp hzap
    exact rangesSound_of_zap hlo hwf hr hzap
      (fun a hge hlt => tlbReg_covers hr hfit hge hlt)
      (fun _ a hge hlt => pcReg_covers hr hfit hge hlt)

/-- One page in the middle of the aperture of the third file, on V14. -/
theorem rangesSound_onePage :
    RangesSound .v3 iommuVersionV14 (sunxiPgtableAlloc []) 0x40000000 0x1000 ↔
      NoWrap .v3 iommuVersionV14 0x40000000 0x1000 :=
  rangesSound_iff (by decide) (wellFormed_alloc _ [])
    ⟨by decide, by decide, by decide, by decide⟩

/-- The last page of the 32-bit aperture, on V12: END wraps. -/
theorem topPage_wraps :
    ¬ RangesSound .v1 iommuVersionV12 (sunxiPgtableAlloc [])
      0xFFFFF000 0x1000 := by
  intro hsound
  obtain ⟨s', gather, ret, -, -, hzap, -⟩ := hsound
  have hpair := hzap (.tlbInvalid 0xFFFFF000 0x100001000) (by decide)
    (Nat.le_refl _)
  exact absurd hpair (by decide)

end LonganPi.Iommu
