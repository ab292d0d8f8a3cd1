import LonganPi.Errno
import LonganPi.Iommu.Driver
import LonganPi.Lib.Transition

/-!
# The bypass mask of the two-instance IOMMU

`sunxi-iommu-v2.c` drives two instances with six masters each.  One mask,
`iommu->bypass`, has a bit for each of the twelve masters, and each master has
a bypass register in its instance.  `sunxi_enable_device_iommu` changes one
master in both places, and `sunxi_iommu_hw_init` replays the whole mask, also
on every resume.

* `hwInit_mirror`: after `hw_init` the twelve registers are those of the
  mask, whatever they held, also when the flush or the enable fails.
* `bypass_iff`: in every awake state of a run the registers are those of the
  mask, and a master is bypassed unless its last call enabled it exactly when
  `DEFAULT_BYPASS_VALUE` has its bit or some call was made for it.  That
  constant has bits for seven masters.
-/

namespace LonganPi.Iommu.V2

open Transition

/-! ## Registers -/

/-- `IOMMU_MIC_MAX_MASTER`. -/
def iommuMicMaxMaster : Nat := 6

/-- `IOMMU_HW_SET_COUNT`. -/
def iommuHwSetCount : Nat := 2

/-- `IOMMU_PER_SET_ADDR_SIZE`. -/
def iommuPerSetAddrSize : Nat := 0x10000

/-- `DEFAULT_BYPASS_VALUE`. -/
def defaultBypassValue : BitVec 32 := 0x7f

/-- `IOMMU_MIC_BYP_REG`. -/
def iommuMicBypReg (masterId : Nat) : Nat := 0x200 * masterId + 0x0004 + 0x400

/-- `IOMMU_MIC_TLB_FLUSH_ENABLE_REG`. -/
def iommuMicTlbFlushEnableReg (masterId : Nat) : Nat :=
  0x200 * masterId + 0x0018 + 0x400

/-- The registers by their offset from the base. -/
abbrev Regs := Nat → BitVec 32

/-- `sunxi_iommu_write`. -/
def sunxiIommuWrite (regs : Regs) (offset : Nat) (value : BitVec 32) : Regs :=
  Function.update regs offset value

/-- `WRITE_EQUAL_REG`. -/
def writeEqualReg (regs : Regs) (offset : Nat) (value : BitVec 32) : Regs :=
  sunxiIommuWrite (sunxiIommuWrite regs offset value)
    (offset + iommuPerSetAddrSize) value

/-- The bypass register of a master: instance `master / 6`, slot
`master % 6`. -/
@[irreducible] def bypReg (master : Nat) : Nat :=
  (master / iommuMicMaxMaster) * iommuPerSetAddrSize +
    iommuMicBypReg (master % iommuMicMaxMaster)

/-! ## The driver -/

/-- `struct sunxi_iommu_owner`: the master of a device, and whether its
traffic is to be translated. -/
structure Owner where
  tlbid : Fin 12
  flag : Bool
  deriving DecidableEq, Repr

/-- The driver and its hardware.  `last` is not in the source: it is the flag
of the last call for a master. -/
structure Driver where
  regs : Regs
  bypass : BitVec 32
  hwInitFlag : Bool
  owners : Nat → Option Owner
  awake : Bool
  last : Fin 12 → Option Bool

/-- `__sunxi_enable_device_iommu_unlocked`. -/
def enableDeviceIommuUnlocked (s : Driver) (masterId : Nat) (flag : Bool) :
    Driver :=
  let bypass :=
    if flag then s.bypass &&& ~~~(1#32 <<< masterId)
    else s.bypass ||| (1#32 <<< masterId)
  { s with
    bypass := bypass
    regs := sunxiIommuWrite s.regs (bypReg masterId) (if flag then 0 else 1) }

/-- `sunxi_enable_device_iommu`. -/
def sunxiEnableDeviceIommu (s : Driver) (masterId : Fin 12) (flag : Bool) :
    Driver :=
  { enableDeviceIommuUnlocked s masterId flag with
    last := Function.update s.last masterId (some flag) }

/-- What `sunxi_tlb_flush` writes: the offset, the value, and the bit it sets
in `ret` when the wait on that register times out. -/
def flushRequests : List (Nat × BitVec 32 × Nat) :=
  (List.range iommuHwSetCount).flatMap fun i =>
    (iommuPerSetAddrSize * i + 0x0030, 3, i * (iommuMicMaxMaster + 2)) ::
      (List.range iommuMicMaxMaster).map fun j =>
        (iommuPerSetAddrSize * i + iommuMicTlbFlushEnableReg j, 1,
          i * (iommuMicMaxMaster + 2) + j)

/-- `sunxi_tlb_flush`.  `timedOut` says at which registers the wait times
out. -/
def sunxiTlbFlush (regs : Regs) (timedOut : Nat → Bool) : Regs × Int :=
  let r := flushRequests.foldl (fun (r : Regs × BitVec 32) q =>
    (sunxiIommuWrite r.1 q.1 q.2.1,
      if timedOut q.1 then r.2 ||| (1#32 <<< q.2.2) else r.2)) (regs, 0)
  (r.1, if r.2 ≠ 0 then eTimedout else 0)

/-- `struct sunxi_iommu_plat_data` and the address of the page directory. -/
structure PlatData where
  version : Nat
  tlbPrefetch : BitVec 32
  tlbInvalidMode : BitVec 32
  ptwInvalidMode : BitVec 32
  pgtable : Nat

/-- How the hardware answers `sunxi_iommu_hw_init`. -/
structure HwAnswer where
  timedOut : Nat → Bool
  /-- The two reads of `IOMMU_ENABLE_REG`. -/
  enable : BitVec 32
  enableAgain : BitVec 32

/-- The part of `sunxi_iommu_hw_init` before the masters. -/
def hwInitRegs (cfg : PlatData) (regs : Regs) : Regs :=
  let regs := writeEqualReg regs 0x0020 (BitVec.ofNat 32 (cfg.pgtable >>> 14))
  let regs := writeEqualReg regs 0x002c cfg.tlbPrefetch
  let regs := if cfg.version ≥ iommuVersionV12
    then writeEqualReg regs 0x0040 cfg.tlbInvalidMode else regs
  let regs := if cfg.version ≥ iommuVersionV14
    then writeEqualReg regs 0x0060 cfg.ptwInvalidMode else regs
  writeEqualReg regs 0x0080 0x3003f

/-- The loop of `sunxi_iommu_hw_init`. -/
def replayBypass (s : Driver) : Nat → Driver
  | 0 => s
  | n + 1 =>
    let s := replayBypass s n
    if (s.bypass >>> n) &&& 1 ≠ 0 then enableDeviceIommuUnlocked s n false
    else enableDeviceIommuUnlocked s n true

/-- `sunxi_iommu_hw_init`. -/
def sunxiIommuHwInit (cfg : PlatData) (o : HwAnswer) (s : Driver) :
    Driver × Int :=
  let s := { s with regs := hwInitRegs cfg s.regs }
  let s := replayBypass s (iommuMicMaxMaster * iommuHwSetCount)
  let r := sunxiTlbFlush s.regs o.timedOut
  let s := { s with regs := r.1 }
  if r.2 ≠ 0 then (s, r.2)
  else
    let regs := writeEqualReg s.regs 0x001c 1
    let s := { s with regs := writeEqualReg regs 0x0014 1 }
    if o.enable ≠ 1 ∧ o.enableAgain ≠ 1 then (s, eNodev)
    else ({ s with hwInitFlag := true }, 0)

/-- `sunxi_iommu_probe` sets the mask.  Nothing is known of the registers
yet. -/
def probed (regs : Regs) : Driver where
  regs := regs
  bypass := defaultBypassValue
  hwInitFlag := false
  owners := fun _ => none
  awake := true
  last := fun _ => none

/-- A call of a client or of the power management. -/
inductive Call
  | enable (masterId : Fin 12) (flag : Bool)
  | xlate (dev : Nat) (tlbid : Fin 12) (flag : Bool)
  | finalize (dev : Nat)
  | release (dev : Nat)
  | suspend
  | resume (regs : Regs) (o : HwAnswer)

/-- One call.  The clocks are off while the device sleeps, and the registers
hold anything when it wakes. -/
def callStep (cfg : PlatData) (s : Driver) : Call → Option Driver
  | .enable masterId flag => some (sunxiEnableDeviceIommu s masterId flag)
  | .xlate dev tlbid flag =>
    match s.owners dev with
    | some _ => some s
    | none => some { s with
        owners := Function.update s.owners dev (some ⟨tlbid, flag⟩) }
  | .finalize dev =>
    (s.owners dev).map fun owner =>
      sunxiEnableDeviceIommu s owner.tlbid owner.flag
  | .release dev =>
    match s.owners dev with
    | none => some s
    | some owner =>
      let s := sunxiEnableDeviceIommu s owner.tlbid false
      some { s with owners := Function.update s.owners dev none }
  | .suspend => if s.awake then some { s with awake := false } else none
  | .resume regs o =>
    if s.awake then none
    else some (sunxiIommuHwInit cfg o { s with regs := regs, awake := true }).1

/-! ## What is asked for -/

/-- The register of every master is 1 exactly when its bit is set. -/
def Mirror (s : Driver) : Prop :=
  ∀ m : Fin 12, s.regs (bypReg m) = 1 ↔ s.bypass.getLsbD m = true

/-- The master is bypassed unless its last call enabled it. -/
def BypassedUnlessEnabled (s : Driver) (m : Fin 12) : Prop :=
  s.regs (bypReg m) = 1 ↔ s.last m ≠ some true

/-! ## One master -/

/-- Twelve registers. -/
theorem bypReg_inj {m m' : Nat} (h : bypReg m = bypReg m') : m = m' := by
  simp only [bypReg, iommuMicBypReg, iommuMicMaxMaster, iommuPerSetAddrSize] at h
  omega

theorem getLsbD_one_shift {m j : Nat} (hj : j < 32) :
    (1#32 <<< m).getLsbD j = decide (j = m) := by
  rw [BitVec.getLsbD_shiftLeft, BitVec.getLsbD_one]
  by_cases hjm : j = m
  · simp [hjm, show m < 32 by omega]
  · have hiff : ¬ (m ≤ j ∧ j - m = 0) := by omega
    simp only [hj, hjm]
    by_cases hlt : j < m
    · simp [hlt]
    · have hne : j - m ≠ 0 := by omega
      simp [hne]

variable {s : Driver} {m j : Nat} {flag : Bool}

theorem enable_bit (hj : j < 32) :
    (enableDeviceIommuUnlocked s m flag).bypass.getLsbD j =
      if j = m then !flag else s.bypass.getLsbD j := by
  have hshift := getLsbD_one_shift (m := m) hj
  cases flag with
  | true =>
    show (s.bypass &&& ~~~(1#32 <<< m)).getLsbD j = _
    rw [BitVec.getLsbD_and, BitVec.getLsbD_not, hshift]
    by_cases hjm : j = m <;> simp [hj, hjm]
  | false =>
    show (s.bypass ||| (1#32 <<< m)).getLsbD j = _
    rw [BitVec.getLsbD_or, hshift]
    by_cases hjm : j = m <;> simp [hjm]

theorem enable_reg :
    (enableDeviceIommuUnlocked s m flag).regs (bypReg j) =
      if j = m then (if flag then 0 else 1) else s.regs (bypReg j) := by
  show Function.update s.regs (bypReg m) _ (bypReg j) = _
  by_cases hjm : j = m
  · rw [hjm, Function.update_self, if_pos rfl]
  · rw [Function.update_of_ne (fun h => hjm (bypReg_inj h)), if_neg hjm]

/-- The test of the loop reads one bit. -/
theorem shift_and_one {x : BitVec 32} :
    (x >>> m) &&& 1 ≠ 0 ↔ x.getLsbD m = true := by
  constructor
  · intro h
    by_contra hbit
    refine h (BitVec.eq_of_getLsbD_eq fun i hi => ?_)
    rw [BitVec.getLsbD_and, BitVec.getLsbD_ushiftRight]
    by_cases hi0 : i = 0
    · rw [hi0, Nat.add_zero, Bool.not_eq_true _ |>.mp hbit]
      rfl
    · have hone : (1 : BitVec 32).getLsbD i = false := by
        show (1#32).getLsbD i = false
        simp [BitVec.getLsbD_one, hi0]
      rw [hone]
      simp
  · intro hbit h
    have hzero := congrArg (fun y => BitVec.getLsbD y 0) h
    simp [hbit] at hzero

/-! ## The replay -/

/-- The register of `m` shows its bit. -/
def Shown (s : Driver) (m : Nat) : Prop :=
  s.regs (bypReg m) = if s.bypass.getLsbD m then 1 else 0

theorem mirror_of_shown (h : ∀ m, m < 12 → Shown s m) : Mirror s := by
  intro m
  rw [h m m.isLt]
  cases s.bypass.getLsbD m <;> simp

/-- The loop keeps the mask and shows its first `n` bits. -/
theorem replay_spec (s : Driver) {n : Nat} (hn : n ≤ 12) :
    (∀ j, j < 32 →
      (replayBypass s n).bypass.getLsbD j = s.bypass.getLsbD j) ∧
    (∀ j, j < n → Shown (replayBypass s n) j) ∧
    (replayBypass s n).last = s.last := by
  induction n with
  | zero => exact ⟨fun _ _ => rfl, fun _ h => absurd h (by omega), rfl⟩
  | succ n ih =>
    obtain ⟨hbits, hshown, hlast⟩ := ih (by omega)
    -- both branches store the bit that the mask has
    have hstep : replayBypass s (n + 1) =
        enableDeviceIommuUnlocked (replayBypass s n) n
          (!(replayBypass s n).bypass.getLsbD n) := by
      rw [replayBypass]
      by_cases hbit : (replayBypass s n).bypass.getLsbD n = true
      · rw [if_pos (shift_and_one.mpr hbit), hbit]
        rfl
      · rw [if_neg (fun h => hbit (shift_and_one.mp h)),
          Bool.not_eq_true _ |>.mp hbit]
        rfl
    have hkeep : ∀ j, j < 32 →
        (replayBypass s (n + 1)).bypass.getLsbD j =
          (replayBypass s n).bypass.getLsbD j := by
      intro j hj
      rw [hstep, enable_bit hj]
      split_ifs with hjn
      · rw [hjn, Bool.not_not]
      · rfl
    refine ⟨fun j hj => (hkeep j hj).trans (hbits j hj), fun j hj => ?_, ?_⟩
    · rw [Shown, hkeep j (by omega), hstep, enable_reg]
      by_cases hjn : j = n
      · rw [if_pos hjn, hjn]
        cases (replayBypass s n).bypass.getLsbD n <;> rfl
      · rw [if_neg hjn]
        exact hshown j (by omega)
    · rw [hstep]
      exact hlast

/-! ## The other registers -/

/-- The offset is not one of a bypass register. -/
def NotByp (offset : Nat) : Prop := ∀ m, m < 12 → bypReg m ≠ offset

theorem write_notByp {regs : Regs} {offset : Nat} {value : BitVec 32}
    (h : NotByp offset) (hm : m < 12) :
    sunxiIommuWrite regs offset value (bypReg m) = regs (bypReg m) :=
  Function.update_of_ne (h m hm) _ _

/-- A register of the common part of both instances. -/
theorem writeEqual_notByp {regs : Regs} {offset : Nat} {value : BitVec 32}
    (h : offset < 0x400) (hm : m < 12) :
    writeEqualReg regs offset value (bypReg m) = regs (bypReg m) := by
  have hboth : NotByp offset ∧ NotByp (offset + iommuPerSetAddrSize) := by
    constructor <;> intro m' hm' heq <;>
      simp only [bypReg, iommuMicBypReg, iommuMicMaxMaster,
        iommuPerSetAddrSize] at heq <;> omega
  rw [writeEqualReg, write_notByp hboth.2 hm, write_notByp hboth.1 hm]

theorem flushRequests_notByp : ∀ q ∈ flushRequests, NotByp q.1 := by
  intro q hq m hm heq
  rw [flushRequests, List.mem_flatMap] at hq
  obtain ⟨i, hi, hq⟩ := hq
  rw [List.mem_range, iommuHwSetCount] at hi
  simp only [bypReg, iommuMicBypReg, iommuMicMaxMaster, iommuPerSetAddrSize] at heq
  rcases List.mem_cons.mp hq with rfl | hq
  · simp only [iommuPerSetAddrSize] at heq
    omega
  · obtain ⟨j, hj, rfl⟩ := List.mem_map.mp hq
    rw [List.mem_range, iommuMicMaxMaster] at hj
    simp only [iommuPerSetAddrSize, iommuMicTlbFlushEnableReg] at heq
    omega

theorem flush_notByp {regs : Regs} {timedOut : Nat → Bool} (hm : m < 12) :
    (sunxiTlbFlush regs timedOut).1 (bypReg m) = regs (bypReg m) := by
  have hloop : ∀ (qs : List (Nat × BitVec 32 × Nat)) (r : Regs × BitVec 32),
      (∀ q ∈ qs, NotByp q.1) →
      (qs.foldl (fun (r : Regs × BitVec 32) q =>
        (sunxiIommuWrite r.1 q.1 q.2.1,
          if timedOut q.1 then r.2 ||| (1#32 <<< q.2.2) else r.2)) r).1
        (bypReg m) = r.1 (bypReg m) := by
    intro qs
    induction qs with
    | nil => intro r _; rfl
    | cons q qs ih =>
      intro r hqs
      rw [List.foldl_cons, ih _ fun q' hq' => hqs q' (.tail _ hq')]
      exact write_notByp (hqs q (.head _)) hm
  exact hloop flushRequests (regs, 0) flushRequests_notByp

/-- After the replay `hw_init` stores to other registers only. -/
theorem hwInit_eq (cfg : PlatData) (o : HwAnswer) (s : Driver) :
    let r := replayBypass { s with regs := hwInitRegs cfg s.regs } 12
    ∃ regs flag, (sunxiIommuHwInit cfg o s).1 =
        { r with regs := regs, hwInitFlag := flag } ∧
      ∀ m, m < 12 → regs (bypReg m) = r.regs (bypReg m) := by
  intro r
  have hend : ∀ m, m < 12 → writeEqualReg (writeEqualReg
      (sunxiTlbFlush r.regs o.timedOut).1 0x001c 1) 0x0014 1 (bypReg m) =
      r.regs (bypReg m) := by
    intro m hm
    rw [writeEqual_notByp (by decide) hm, writeEqual_notByp (by decide) hm,
      flush_notByp hm]
  unfold sunxiIommuHwInit
  by_cases hflush : (sunxiTlbFlush r.regs o.timedOut).2 ≠ 0
  · refine ⟨(sunxiTlbFlush r.regs o.timedOut).1, r.hwInitFlag, ?_,
      fun m hm => flush_notByp hm⟩
    exact congrArg Prod.fst (if_pos hflush)
  · by_cases henable : o.enable ≠ 1 ∧ o.enableAgain ≠ 1
    · refine ⟨_, r.hwInitFlag, ?_, hend⟩
      exact (congrArg Prod.fst (if_neg hflush)).trans
        (congrArg Prod.fst (if_pos henable))
    · refine ⟨_, true, ?_, hend⟩
      exact (congrArg Prod.fst (if_neg hflush)).trans
        (congrArg Prod.fst (if_neg henable))

/-- However `hw_init` ends, the registers show the mask, and the mask is the
one before. -/
theorem hwInit_mirror (cfg : PlatData) (o : HwAnswer) (s : Driver) :
    let s' := (sunxiIommuHwInit cfg o s).1
    (∀ m, m < 12 → Shown s' m) ∧
      (∀ m, m < 12 → s'.bypass.getLsbD m = s.bypass.getLsbD m) ∧
      s'.last = s.last := by
  obtain ⟨hbits, hshown, hlast⟩ :=
    replay_spec { s with regs := hwInitRegs cfg s.regs } (Nat.le_refl 12)
  obtain ⟨regs, flag, heq, hregs⟩ := hwInit_eq cfg o s
  rw [heq]
  exact ⟨fun m hm => (hregs m hm).trans (hshown m hm),
    fun m hm => hbits m (by omega), hlast⟩

/-! ## Every run -/

/-- The mask is the default one but for the last calls, and the registers of
an awake device show it. -/
structure BypassInv (s : Driver) : Prop where
  mask : ∀ m : Fin 12, s.bypass.getLsbD m =
    match s.last m with
    | some flag => !flag
    | none => defaultBypassValue.getLsbD m
  shown : s.awake = true → ∀ m, m < 12 → Shown s m

/-- A call for one master changes that master. -/
theorem BypassInv.enable (h : BypassInv s) (m : Fin 12) (flag : Bool) :
    BypassInv (sunxiEnableDeviceIommu s m flag) where
  mask j := by
    show (enableDeviceIommuUnlocked s m flag).bypass.getLsbD j = _
    rw [enable_bit (by omega)]
    by_cases hjm : j = m
    · rw [hjm, if_pos rfl]
      simp [sunxiEnableDeviceIommu]
    · rw [if_neg (fun hval => hjm (Fin.ext hval)), h.mask j]
      simp [sunxiEnableDeviceIommu, Function.update_of_ne hjm]
  shown hawake j hj := by
    have hshown := h.shown hawake j hj
    rw [Shown] at hshown ⊢
    show (enableDeviceIommuUnlocked s m flag).regs (bypReg j) = if
      (enableDeviceIommuUnlocked s m flag).bypass.getLsbD j then 1 else 0
    rw [enable_bit (by omega), enable_reg]
    split_ifs at hshown ⊢ <;> simp_all

theorem bypassInv_start (cfg : PlatData) (o : HwAnswer) (regs : Regs) :
    BypassInv (sunxiIommuHwInit cfg o (probed regs)).1 := by
  obtain ⟨hshown, hbits, hlast⟩ := hwInit_mirror cfg o (probed regs)
  refine ⟨fun m => ?_, fun _ => hshown⟩
  rw [hbits m m.isLt, hlast]
  rfl

theorem callStep_inv {cfg : PlatData} {s' : Driver} {c : Call}
    (h : BypassInv s) (hstep : callStep cfg s c = some s') : BypassInv s' := by
  cases c with
  | enable m flag =>
    obtain rfl := Option.some.inj hstep
    exact h.enable m flag
  | xlate dev tlbid flag =>
    rw [callStep] at hstep
    split at hstep
    · obtain rfl := Option.some.inj hstep
      exact h
    · obtain rfl := Option.some.inj hstep
      exact ⟨h.mask, h.shown⟩
  | finalize dev =>
    obtain ⟨owner, -, rfl⟩ := Option.map_eq_some_iff.mp hstep
    exact h.enable owner.tlbid owner.flag
  | release dev =>
    rw [callStep] at hstep
    split at hstep
    · obtain rfl := Option.some.inj hstep
      exact h
    · rename_i owner _
      obtain rfl := Option.some.inj hstep
      have henable := h.enable owner.tlbid false
      exact ⟨henable.mask, henable.shown⟩
  | suspend =>
    rw [callStep] at hstep
    split_ifs at hstep
    obtain rfl := Option.some.inj hstep
    exact ⟨h.mask, fun hawake => by cases hawake⟩
  | resume regs o =>
    rw [callStep] at hstep
    split_ifs at hstep
    obtain rfl := Option.some.inj hstep
    obtain ⟨hshown, hbits, hlast⟩ :=
      hwInit_mirror cfg o { s with regs := regs, awake := true }
    refine ⟨fun m => ?_, fun _ => hshown⟩
    rw [hbits m m.isLt, hlast]
    exact h.mask m

/-- The constant has bits for the masters 0 to 6. -/
theorem defaultBypassValue_bit (m : Fin 12) :
    defaultBypassValue.getLsbD m = true ↔ m.val ≤ 6 := by
  revert m
  decide

/-- Of an awake device, a master that had no call is bypassed only by the
default mask. -/
theorem BypassInv.bypassed_iff (h : BypassInv s) (hawake : s.awake = true)
    (m : Fin 12) :
    BypassedUnlessEnabled s m ↔ m.val ≤ 6 ∨ s.last m ≠ none := by
  have hmirror := mirror_of_shown (h.shown hawake) m
  rw [BypassedUnlessEnabled, hmirror, h.mask m, ← defaultBypassValue_bit]
  cases hlast : s.last m with
  | none => simp
  | some flag => cases flag <;> simp

/-- In every awake state of a run the twelve registers are those of the mask,
and a master is bypassed unless its last call enabled it exactly when it is
one of the first seven or some call was made for it. -/
theorem bypass_iff (cfg : PlatData) (o : HwAnswer) (regs : Regs)
    (calls : List Call) :
    Always (callStep cfg)
      (fun s => s.awake = true → Mirror s ∧ ∀ m : Fin 12,
        (BypassedUnlessEnabled s m ↔ m.val ≤ 6 ∨ s.last m ≠ none))
      calls (sunxiIommuHwInit cfg o (probed regs)).1 := by
  refine Always.mono (P := BypassInv) ?_ ?_
  · intro s h hawake
    exact ⟨mirror_of_shown (h.shown hawake), h.bypassed_iff hawake⟩
  · exact always_of_step (fun s c s' h hstep => callStep_inv h hstep) calls
      (bypassInv_start cfg o regs)

/-- After the first `hw_init`, and no call, master 7 is translated. -/
theorem master7_translated :
    let r := sunxiIommuHwInit ⟨0x14, 0x3f, 1, 1, 0x40000000⟩
      ⟨fun _ => false, 1, 1⟩ (probed fun _ => 0)
    r.2 = 0 ∧ r.1.awake = true ∧ r.1.last 7 = none ∧
      r.1.regs (bypReg 7) = 0 ∧ ¬ BypassedUnlessEnabled r.1 7 := by
  intro r
  have hret : r.2 = 0 := by decide +kernel
  have hreg : r.1.regs (bypReg 7) = 0 := by decide +kernel
  refine ⟨hret, rfl, rfl, hreg, fun h => ?_⟩
  rw [BypassedUnlessEnabled, show (7 : Fin 12).val = 7 from rfl, hreg] at h
  cases h.mpr (by decide)

end LonganPi.Iommu.V2
