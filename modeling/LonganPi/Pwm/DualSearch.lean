import LonganPi.Pwm.DualPrescaler

/-!
# The search of the dual version

`sunxi_pwm_config_dual` looks for a divider and a prescaler that leave a
period and a dead zone that fit.  Its outer loop fails in the first iteration,
its limits are one larger than the fields, the divider is written with a width
of 0, and two fields are written before the search.

* `SearchesDual` says that the search finds what exists, that both channels
  then hold it, and that a failure changes nothing.
* `prescaleLoopDual_first` says what the search finds, and `configDual_found`
  and `configDual_failed` what the call does with it.
* `searchesDual_iff` is the condition on the arguments and the old registers.
-/

namespace LonganPi.Pwm

variable {cfg : SunxiPwmConfig} {sel bind o : Channel} {uninit : Nat}
  {regs : Regs} {dutyNs periodNs : Int} {clk c deadTime m : Nat}

/-! ## What the search promises -/

/-- The dead zone of a clock that is divided by `m`. -/
def deadZone (clk deadTime m : Nat) : Nat := clk / m * deadTime / 1000000000

/-- A divider and a prescaler with a period and a dead zone that fit. -/
structure ChoiceFits (clk c deadTime reg preDiv prescale : Nat) : Prop where
  divider : (reg, preDiv) ∈ preScal
  prescal : prescale < 2 ^ pwmPrescalWidth
  period : c / preDiv / (prescale + 1) ≤ 65536
  zone : deadZone clk deadTime (preDiv * (prescale + 1)) < 2 ^ pwmPdzintvWidth

/-- Some divider and prescaler fit. -/
def Feasible (deadTime : Nat) (periodNs : Int) : Prop :=
  ∃ reg preDiv prescale, ChoiceFits (clockRate periodNs) (clockCycles periodNs)
    deadTime reg preDiv prescale

/-- The cycles of a period, at least one. -/
def choiceCycles (c preDiv prescale : Nat) : Nat :=
  max 1 (c / preDiv / (prescale + 1))

/-- The fields of a channel. -/
def divMField (regs : Regs) (sel : Channel) : Nat :=
  (getBits pwmDivMShift pwmDivMWidth (regs (getPccrRegOffset sel))).toNat

def prescalField (regs : Regs) (sel : Channel) : Nat :=
  (getBits pwmPrescalShift pwmPrescalWidth (regs (pcrOffset sel))).toNat

def activeField (regs : Regs) (sel : Channel) : Nat :=
  (getBits pwmActCyclesShift pwmActCyclesWidth (regs (pprOffset sel))).toNat

def periodField (regs : Regs) (sel : Channel) : Nat :=
  (getBits pwmPeriodCyclesShift pwmPeriodCyclesWidth
    (regs (pprOffset sel))).toNat

def zoneField (regs : Regs) (sel : Channel) (uninit : Nat) : Nat :=
  (getBits pwmPdzintvShift pwmPdzintvWidth
    (regs (getPdzcrRegOffset sel uninit))).toNat

/-- The fields of a channel hold a choice.  Channel 8 has no dead zone. -/
structure DecodesChoice (regs : Regs) (sel : Channel) (uninit deadTime : Nat)
    (dutyNs periodNs : Int) (reg preDiv prescale : Nat) : Prop where
  divM : divMField regs sel = reg
  prescal : prescalField regs sel = prescale
  period : periodField regs sel + 1
    = choiceCycles (clockCycles periodNs) preDiv prescale
  active : activeField regs sel
    = choiceCycles (clockCycles periodNs) preDiv prescale * dutyNs.toNat
        / periodNs.toNat
  zone : sel ≠ 8 → zoneField regs sel uninit
    = deadZone (clockRate periodNs) deadTime (preDiv * (prescale + 1))

/-- Both channels hold one choice that fits. -/
def HoldsChoice (regs : Regs) (sel bind : Channel) (uninit deadTime : Nat)
    (dutyNs periodNs : Int) : Prop :=
  ∃ reg preDiv prescale,
    ChoiceFits (clockRate periodNs) (clockCycles periodNs) deadTime reg preDiv
      prescale ∧
    ∀ o, o = sel ∨ o = bind →
      DecodesChoice regs o uninit deadTime dutyNs periodNs reg preDiv prescale

/-- The search finds what exists, and a failure changes nothing. -/
structure SearchesDual (cfg : SunxiPwmConfig) (sel bind : Channel)
    (uninit : Nat) (dutyNs periodNs : Int) (regs : Regs) : Prop where
  complete : Feasible cfg.deadTime.toNat periodNs →
    (sunxiPwmConfigDual cfg sel bind uninit dutyNs periodNs regs).2 = 0 ∧
      HoldsChoice (sunxiPwmConfigDual cfg sel bind uninit dutyNs periodNs regs).1
        sel bind uninit cfg.deadTime.toNat dutyNs periodNs
  atomic :
    (sunxiPwmConfigDual cfg sel bind uninit dutyNs periodNs regs).2 = eInval →
      (sunxiPwmConfigDual cfg sel bind uninit dutyNs periodNs regs).1 = regs

/-! ## The condition -/

/-- `m` is the least number that fits. -/
structure FirstDualFit (clk c deadTime m : Nat) : Prop where
  pos : 0 < m
  fits : DualFit clk c deadTime m
  first : ∀ m', 0 < m' → m' < m → ¬ DualFit clk c deadTime m'

/-- The divider `reg` in place of 0 makes no difference: a period of one cycle
without a dead zone stays one. -/
def DividerHarmless (deadTime : Nat) (periodNs : Int) (reg : Nat) : Prop :=
  reg = 0 ∨ reg ≤ 8 ∧ periodNs ≤ 19 ∧ deadTime < 10

/-- The search ends with numbers that fit the fields, and what the call leaves
in the registers agrees with them. -/
structure FoundFits (sel bind : Channel) (uninit deadTime : Nat)
    (dutyNs periodNs : Int) (regs : Regs) (m : Nat) : Prop where
  first : FirstDualFit (clockRate periodNs) (clockCycles periodNs) deadTime m
  prescal : m ≤ 2 ^ pwmPrescalWidth
  zone : deadZone (clockRate periodNs) deadTime m < 2 ^ pwmPdzintvWidth
  active : ¬ (dutyNs = periodNs ∧ clockCycles periodNs / m = 65536)
  divM : DividerHarmless deadTime periodNs (divMField regs sel)
  bound : divMField regs bind = divMField regs sel
  boundZone : bind = 8 ∨
    getPdzcrRegOffset bind uninit = getPdzcrRegOffset sel uninit ∨
    zoneField regs bind uninit = deadZone (clockRate periodNs) deadTime m

/-- Nothing fits, and the fields that are written first already hold what is
written. -/
structure FailureKeeps (sel bind : Channel) (uninit deadTime : Nat)
    (periodNs : Int) (regs : Regs) : Prop where
  infeasible : ¬ Feasible deadTime periodNs
  enabled : getBits pwmDzEnShift pwmDzEnWidth
    (regs (getPdzcrRegOffset sel uninit)) = 1
  source : ∀ o, o = sel ∨ o = bind →
    getBits pwmClkSrcShift pwmClkSrcWidth (regs (getPccrRegOffset o)) = 0

/-! ## The search -/

theorem FirstDualFit.unique {m' : Nat} (h : FirstDualFit clk c deadTime m)
    (h' : FirstDualFit clk c deadTime m') : m = m' := by
  have hle : ¬ m < m' := fun hlt => h'.first m h.pos hlt h.fits
  have hge : ¬ m' < m := fun hlt => h.first m' h'.pos hlt h'.fits
  omega

/-- The search stops at the first number that fits. -/
theorem prescaleLoopDual_first (fuel prescale entireCycles clkTemp : Nat)
    (hfuel : 0 < fuel) (h : DualFit clk c deadTime (prescale + fuel)) :
    ∃ m, prescale < m ∧ m ≤ prescale + fuel ∧ DualFit clk c deadTime m ∧
      (∀ m', prescale < m' → m' < m → ¬ DualFit clk c deadTime m') ∧
      prescaleLoopDual clk c deadTime 1 fuel prescale entireCycles clkTemp
        = (c / m, deadZone clk deadTime m, m - 1, true) := by
  induction fuel generalizing prescale entireCycles clkTemp with
  | zero => exact absurd hfuel (Nat.lt_irrefl 0)
  | succ fuel ih =>
    unfold prescaleLoopDual
    simp only [Nat.div_one, Nat.one_mul]
    by_cases hnow : DualFit clk c deadTime (prescale + 1)
    · have hnow' : c / (prescale + 1) ≤ 65536 ∧
          clk / (prescale + 1) * deadTime / 1000000000 ≤ 256 := hnow
      rw [if_pos hnow']
      exact ⟨prescale + 1, by omega, by omega, hnow,
        fun m' hgt hlt => by omega, rfl⟩
    · have hnow' : ¬ (c / (prescale + 1) ≤ 65536 ∧
          clk / (prescale + 1) * deadTime / 1000000000 ≤ 256) := hnow
      have hmore : 0 < fuel := by
        by_contra hzero
        obtain rfl : fuel = 0 := by omega
        exact hnow h
      rw [if_neg hnow']
      rw [show prescale + (fuel + 1) = prescale + 1 + fuel by omega] at h
      obtain ⟨m, hgt, hle, hfits, hfirst, heq⟩ := ih (prescale + 1)
        (c / (prescale + 1)) (clk / (prescale + 1) * deadTime / 1000000000)
        hmore h
      refine ⟨m, by omega, by omega, hfits, fun m' hgt' hlt => ?_, heq⟩
      by_cases hsame : m' = prescale + 1
      · rw [hsame]
        exact hnow
      · exact hfirst m' (by omega) hlt

/-! ## Cycles and dead zones -/

/-- A short period has the fast clock. -/
theorem clockRate_of_short (hp : 10 < periodNs) (hshort : periodNs ≤ 334) :
    clockRate periodNs = 100000000 := by
  unfold clockRate
  rw [if_pos ⟨hp, hshort⟩]

/-- A dead zone within the period takes no more cycles than the period. -/
theorem deadZone_le_cycles (hdead : deadTime ≤ periodNs.toNat) (m : Nat) :
    deadZone (clockRate periodNs) deadTime m ≤ clockCycles periodNs / m := by
  unfold deadZone clockCycles
  rw [Nat.div_div_eq_div_mul, Nat.mul_comm 1000000000 m,
    ← Nat.div_div_eq_div_mul]
  apply Nat.div_le_div_right
  calc clockRate periodNs / m * deadTime
      ≤ clockRate periodNs / m * periodNs.toNat := Nat.mul_le_mul_left _ hdead
    _ ≤ clockRate periodNs * periodNs.toNat / m := by
        rw [Nat.mul_comm, Nat.mul_comm (clockRate periodNs)]
        exact Nat.mul_div_le_mul_div_assoc _ _ _

theorem clockCycles_range (hp : 10 < periodNs) (hlt : periodNs < 2 ^ 31) :
    0 < clockCycles periodNs ∧ clockCycles periodNs < 51539608 := by
  unfold clockCycles
  rcases clockRate_cases hp with ⟨hrate, hle⟩ | ⟨hrate, hge⟩
  · rw [hrate]
    omega
  · rw [hrate]
    omega

/-- What does not fit is at least 257 cycles. -/
theorem cycles_of_not_fit (hdead : deadTime ≤ periodNs.toNat)
    (h : ¬ DualFit (clockRate periodNs) (clockCycles periodNs) deadTime m) :
    257 ≤ clockCycles periodNs / m := by
  have hzone := deadZone_le_cycles hdead m
  have hbig : ¬ (clockCycles periodNs / m ≤ 65536 ∧
      deadZone (clockRate periodNs) deadTime m ≤ 256) := h
  omega

/-- A divider greater than 1 is only found for more than 256 cycles of the
divider before. -/
theorem FirstDualFit.before (hdead : deadTime ≤ periodNs.toNat)
    (h : FirstDualFit (clockRate periodNs) (clockCycles periodNs) deadTime m)
    (hm : 1 < m) : 257 * (m - 1) ≤ clockCycles periodNs := by
  have hbig := cycles_of_not_fit hdead
    (h.first (m - 1) (by omega) (by omega))
  exact (Nat.le_div_iff_mul_le (by omega)).mp hbig

theorem FirstDualFit.cycles_pos (hp : 10 < periodNs) (hlt : periodNs < 2 ^ 31)
    (hdead : deadTime ≤ periodNs.toNat)
    (h : FirstDualFit (clockRate periodNs) (clockCycles periodNs) deadTime m) :
    0 < clockCycles periodNs / m := by
  have hpos := h.pos
  have hcycles := clockCycles_range hp hlt
  apply Nat.div_pos _ hpos
  by_cases hm : 1 < m
  · have hbefore := h.before hdead hm
    omega
  · omega

/-- The least number is 1 when one cycle is left. -/
theorem FirstDualFit.eq_one (hdead : deadTime ≤ periodNs.toNat)
    (h : FirstDualFit (clockRate periodNs) (clockCycles periodNs) deadTime m)
    (hone : clockCycles periodNs / m ≤ 1) : m = 1 := by
  have hpos := h.pos
  by_contra hne
  have hbefore := h.before hdead (by omega)
  have hlt : clockCycles periodNs < 2 * m :=
    (Nat.div_lt_iff_lt_mul hpos).mp (by omega)
  omega

/-- What fits with 257 fits with the greatest divider and prescaler. -/
theorem feasible_of_fit (hp : 10 < periodNs) (hlt : periodNs < 2 ^ 31)
    (h : DualFit (clockRate periodNs) (clockCycles periodNs) deadTime 257) :
    Feasible deadTime periodNs := by
  have hcycles := clockCycles_range hp hlt
  have hzone : clockRate periodNs / 257 * deadTime / 1000000000 ≤ 256 := h.2
  refine ⟨8, 256, 255, by decide, by decide, ?_, ?_⟩
  · omega
  · simp only [deadZone, pwmPdzintvWidth]
    rcases clockRate_cases hp with ⟨hrate, hle⟩ | ⟨hrate, hge⟩
    · rw [hrate] at hzone ⊢
      omega
    · rw [hrate] at hzone ⊢
      omega

/-- A period of the fast clock fits. -/
theorem fit_of_short (hp : 10 < periodNs) (hshort : periodNs ≤ 334)
    (hdead : deadTime ≤ periodNs.toNat) :
    DualFit (clockRate periodNs) (clockCycles periodNs) deadTime 257 := by
  have hrate := clockRate_of_short hp hshort
  unfold DualFit clockCycles
  rw [hrate]
  omega

/-! ## The two writes of a field -/

theorem writeBoth_of_ne {offset0 offset1 offset : Nat} (regs : Regs)
    (shift width : Nat) (val : BitVec 32) (h0 : offset ≠ offset0)
    (h1 : offset ≠ offset1) :
    writeBoth regs offset0 offset1 shift width val offset = regs offset := by
  unfold writeBoth
  rw [writeField_of_ne _ _ _ _ h1, writeField_of_ne _ _ _ _ h0]

theorem writeBoth_self {offset0 offset1 offset : Nat} (regs : Regs)
    (shift width : Nat) (val : BitVec 32)
    (h : offset = offset0 ∨ offset = offset1) :
    writeBoth regs offset0 offset1 shift width val offset
      = BitField.set shift width (regs offset) val := by
  unfold writeBoth
  by_cases h1 : offset = offset1
  · by_cases h0 : offset = offset0
    · rw [h1, writeField_self, ← h1, h0, writeField_self, BitField.set_set]
    · rw [h1, writeField_self, ← h1, writeField_of_ne _ _ _ _ h0]
  · obtain rfl := h.resolve_right h1
    rw [writeField_of_ne _ _ _ _ h1, writeField_self]

/-- A register of one of the two channels is one of their two registers. -/
theorem offset_or (offset : Channel → Nat) (h : o = sel ∨ o = bind) :
    offset o = offset sel ∨ offset o = offset bind :=
  h.imp (congrArg offset) (congrArg offset)

/-- Only channel 8 reads the variable that is not initialised. -/
theorem pdzcr_uninit (hsel : sel ≠ 8) (uninit : Nat) :
    getPdzcrRegOffset sel uninit = getPdzcrRegOffset sel 0 := by
  unfold getPdzcrRegOffset
  split
  all_goals first | rfl | exact absurd rfl hsel

/-- The dead zone register is none of the others. -/
theorem pdzcr_ne (hsel : sel ≠ 8) (uninit : Nat) (o : Channel) :
    getPdzcrRegOffset sel uninit ≠ getPccrRegOffset o ∧
      getPdzcrRegOffset sel uninit ≠ pcrOffset o ∧
      getPdzcrRegOffset sel uninit ≠ pprOffset o := by
  rw [pdzcr_uninit hsel]
  revert sel o
  decide

/-! ## The call -/

/-- The writes before the search. -/
def selectDual (sel bind : Channel) (uninit : Nat) (src : BitVec 32)
    (regs : Regs) : Regs :=
  writeBoth
    (writeField regs (getPdzcrRegOffset sel uninit) pwmDzEnShift pwmDzEnWidth 1)
    (getPccrRegOffset sel) (getPccrRegOffset bind) pwmClkSrcShift
    pwmClkSrcWidth src

/-- The writes after the search. -/
def writeDual (sel bind : Channel) (uninit active cycles prescale zone : Nat)
    (regs : Regs) : Regs :=
  let regs := writeBoth regs (getPccrRegOffset sel) (getPccrRegOffset bind)
    pwmDivMShift pwmDivMShift 0
  let regs := writeBoth regs (pcrOffset sel) (pcrOffset bind) pwmPrescalShift
    pwmPrescalWidth (BitVec.ofNat 32 prescale)
  let regs := writeBoth regs (pprOffset sel) (pprOffset bind) pwmActCyclesShift
    pwmActCyclesWidth (BitVec.ofNat 32 active)
  let regs := writeBoth regs (pprOffset sel) (pprOffset bind)
    pwmPeriodCyclesShift pwmPeriodCyclesWidth (BitVec.ofNat 32 (cycles - 1))
  writeField regs (getPdzcrRegOffset sel uninit) pwmPdzintvShift
    pwmPdzintvWidth (BitVec.ofNat 32 zone)

/-- The registers after a search that ends with `m`. -/
def foundRegs (sel bind : Channel) (uninit deadTime : Nat)
    (dutyNs periodNs : Int) (m : Nat) (regs : Regs) : Regs :=
  writeDual sel bind uninit
    (clockCycles periodNs / m * dutyNs.toNat / periodNs.toNat)
    (clockCycles periodNs / m) (m - 1)
    (deadZone (clockRate periodNs) deadTime m)
    (selectDual sel bind uninit (clockSource periodNs) regs)

/-- A duty cycle that holds the dead zone reaches the search. -/
theorem configDual_eq (sel bind : Channel) (uninit : Nat) (regs : Regs)
    (hp : 10 < periodNs) (hlt : periodNs < 2 ^ 31) (hle : dutyNs ≤ periodNs)
    (hdead : (cfg.deadTime.toNat : Int) ≤ dutyNs) :
    sunxiPwmConfigDual cfg sel bind uninit dutyNs periodNs regs =
      let r := prescaleLoopDual (clockRate periodNs) (clockCycles periodNs)
        cfg.deadTime.toNat 1 257 0 (clockCycles periodNs) 0
      let regs := selectDual sel bind uninit (clockSource periodNs) regs
      if r.2.2.2 = false then (regs, eInval)
      else (writeDual sel bind uninit (activeCycles r.1 dutyNs periodNs)
        (if r.1 = 0 then 1 else r.1) r.2.2.1 r.2.1 regs, 0) := by
  have hclk : (if 10 < periodNs ∧ periodNs ≤ 334
      then ((100000000, 1) : Nat × BitVec 32)
      else if 334 < periodNs then (24000000, 0) else (0, 0))
        = (clockRate periodNs, clockSource periodNs) := by
    unfold clockRate clockSource
    split_ifs <;> first | rfl | omega
  have hcycles : clockRate periodNs * u64OfInt periodNs % 2 ^ 64 / 1000000000
      = clockCycles periodNs := by
    have hrate := clockRate_cases hp
    exact cycles_eq (by omega) hlt (by omega)
  have henabled := deadZone_enabled regs (getPdzcrRegOffset sel uninit)
  have hholds : ¬ u32OfInt dutyNs < cfg.deadTime.toNat := by
    rw [u32OfInt_of_range (by omega) (by omega)]
    omega
  have hlong : ¬ (0 < periodNs ∧ periodNs ≤ 10) := by omega
  unfold sunxiPwmConfigDual
  simp only [henabled, hholds, or_false, if_false, if_neg hlong, hclk, hcycles]
  rfl

/-- Nothing fits. -/
theorem configDual_failed (sel bind : Channel) (uninit : Nat) (regs : Regs)
    (hp : 10 < periodNs) (hlt : periodNs < 2 ^ 31) (hle : dutyNs ≤ periodNs)
    (hdead : (cfg.deadTime.toNat : Int) ≤ dutyNs)
    (hnone : ¬ DualFit (clockRate periodNs) (clockCycles periodNs)
      cfg.deadTime.toNat 257) :
    sunxiPwmConfigDual cfg sel bind uninit dutyNs periodNs regs
      = (selectDual sel bind uninit (clockSource periodNs) regs, eInval) := by
  have hfound : (prescaleLoopDual (clockRate periodNs) (clockCycles periodNs)
      cfg.deadTime.toNat 1 257 0 (clockCycles periodNs) 0).2.2.2 = false := by
    rw [← Bool.not_eq_true, prescaleLoopDual_found]
    exact fun h => hnone h.2
  rw [configDual_eq sel bind uninit regs hp hlt hle hdead]
  dsimp only
  rw [if_pos hfound]

/-- The least number that fits ends in the registers. -/
theorem configDual_found (sel bind : Channel) (uninit : Nat) (regs : Regs)
    (hp : 10 < periodNs) (hlt : periodNs < 2 ^ 31) (hle : dutyNs ≤ periodNs)
    (hdead : (cfg.deadTime.toNat : Int) ≤ dutyNs)
    (h : DualFit (clockRate periodNs) (clockCycles periodNs)
      cfg.deadTime.toNat 257) :
    ∃ m, m ≤ 257 ∧ FirstDualFit (clockRate periodNs) (clockCycles periodNs)
        cfg.deadTime.toNat m ∧
      sunxiPwmConfigDual cfg sel bind uninit dutyNs periodNs regs
        = (foundRegs sel bind uninit cfg.deadTime.toNat dutyNs periodNs m regs,
            0) := by
  obtain ⟨m, hpos, hm, hfits, hfirst, heq⟩ := prescaleLoopDual_first 257 0
    (clockCycles periodNs) 0 (by decide) (by rwa [Nat.zero_add])
  have hleast : FirstDualFit (clockRate periodNs) (clockCycles periodNs)
      cfg.deadTime.toNat m := ⟨hpos, hfits, hfirst⟩
  have hleft := hleast.cycles_pos hp hlt (by omega)
  refine ⟨m, by omega, hleast, ?_⟩
  rw [configDual_eq sel bind uninit regs hp hlt hle hdead, heq]
  dsimp only
  rw [if_neg (by decide), if_neg (by omega),
    activeCycles_eq hfits.1 (by omega) hle hlt]
  rfl

/-! ## The fields after the call -/

section Fields

variable (regs : Regs) (uninit active cycles prescale zone : Nat)
  (src : BitVec 32)

theorem divMField_found (hsel : sel ≠ 8) (ho : o = sel ∨ o = bind) :
    divMField (writeDual sel bind uninit active cycles prescale zone
      (selectDual sel bind uninit src regs)) o = divMField regs o := by
  have hzone := (pdzcr_ne hsel uninit o).1.symm
  unfold divMField writeDual selectDual
  rw [writeField_of_ne _ _ _ _ hzone,
    writeBoth_of_ne _ _ _ _ (pccr_ne_ppr o sel) (pccr_ne_ppr o bind),
    writeBoth_of_ne _ _ _ _ (pccr_ne_ppr o sel) (pccr_ne_ppr o bind),
    writeBoth_of_ne _ _ _ _ (pccr_ne_pcr o sel) (pccr_ne_pcr o bind),
    writeBoth_self _ _ _ _ (offset_or getPccrRegOffset ho),
    writeBoth_self _ _ _ _ (offset_or getPccrRegOffset ho),
    writeField_of_ne _ _ _ _ hzone, getBits_eq, getBits_eq]
  -- The write of the divider has a width of 0 and a value of 0.
  have hnone : ∀ r : BitVec 32, BitField.set pwmDivMShift pwmDivMShift r 0 = r :=
    fun r => (BitField.set_eq_self_iff (by decide) (by decide)).mpr
      (BitVec.eq_of_toNat_eq (by simp [BitField.get, BitField.mask, pwmDivMShift]))
  rw [hnone, BitField.get_set_of_le (by decide) (by decide)]

theorem prescalField_found (hsel : sel ≠ 8) (ho : o = sel ∨ o = bind) :
    prescalField (writeDual sel bind uninit active cycles prescale zone
        (selectDual sel bind uninit src regs)) o
      = (BitField.get 0 pwmPrescalWidth (BitVec.ofNat 32 prescale)).toNat := by
  unfold prescalField writeDual
  rw [writeField_of_ne _ _ _ _ (pdzcr_ne hsel uninit o).2.1.symm,
    writeBoth_of_ne _ _ _ _ (pcrOffset_ne_ppr o sel) (pcrOffset_ne_ppr o bind),
    writeBoth_of_ne _ _ _ _ (pcrOffset_ne_ppr o sel) (pcrOffset_ne_ppr o bind),
    writeBoth_self _ _ _ _ (offset_or pcrOffset ho), getBits_eq,
    BitField.get_set_self (by decide)]

theorem activeField_found (hsel : sel ≠ 8) (ho : o = sel ∨ o = bind) :
    activeField (writeDual sel bind uninit active cycles prescale zone
        (selectDual sel bind uninit src regs)) o
      = (BitField.get 0 pwmActCyclesWidth (BitVec.ofNat 32 active)).toNat := by
  unfold activeField writeDual
  rw [writeField_of_ne _ _ _ _ (pdzcr_ne hsel uninit o).2.2.symm,
    writeBoth_self _ _ _ _ (offset_or pprOffset ho),
    writeBoth_self _ _ _ _ (offset_or pprOffset ho), getBits_eq,
    BitField.get_set_of_le (by decide) (by decide),
    BitField.get_set_self (by decide)]

theorem periodField_found (hsel : sel ≠ 8) (ho : o = sel ∨ o = bind) :
    periodField (writeDual sel bind uninit active cycles prescale zone
        (selectDual sel bind uninit src regs)) o
      = (BitField.get 0 pwmPeriodCyclesWidth
          (BitVec.ofNat 32 (cycles - 1))).toNat := by
  unfold periodField writeDual
  rw [writeField_of_ne _ _ _ _ (pdzcr_ne hsel uninit o).2.2.symm,
    writeBoth_self _ _ _ _ (offset_or pprOffset ho), getBits_eq,
    BitField.get_set_self (by decide)]

/-- There is one dead zone register for a channel and its neighbour. -/
theorem zoneField_found (ho : o ≠ 8) :
    zoneField (writeDual sel bind uninit active cycles prescale zone
        (selectDual sel bind uninit src regs)) o uninit
      = if getPdzcrRegOffset o uninit = getPdzcrRegOffset sel uninit then
          (BitField.get 0 pwmPdzintvWidth (BitVec.ofNat 32 zone)).toNat
        else zoneField regs o uninit := by
  have hne := pdzcr_ne ho uninit
  unfold zoneField writeDual selectDual
  split_ifs with hsame
  · rw [hsame, writeField_self, getBits_eq, BitField.get_set_self (by decide)]
  · rw [writeField_of_ne _ _ _ _ hsame,
      writeBoth_of_ne _ _ _ _ (hne sel).2.2 (hne bind).2.2,
      writeBoth_of_ne _ _ _ _ (hne sel).2.2 (hne bind).2.2,
      writeBoth_of_ne _ _ _ _ (hne sel).2.1 (hne bind).2.1,
      writeBoth_of_ne _ _ _ _ (hne sel).1 (hne bind).1,
      writeBoth_of_ne _ _ _ _ (hne sel).1 (hne bind).1,
      writeField_of_ne _ _ _ _ hsame]

end Fields

/-! ## Which divider the fields agree with -/

theorem mem_preScal_iff {reg preDiv : Nat} :
    (reg, preDiv) ∈ preScal ↔ reg ≤ 8 ∧ preDiv = 2 ^ reg := by
  have htable : ∀ entry ∈ preScal, entry.1 ≤ 8 ∧ entry.2 = 2 ^ entry.1 := by
    decide
  have hpowers : ∀ reg ≤ 8, (reg, 2 ^ reg) ∈ preScal := by decide
  constructor
  · exact htable (reg, preDiv)
  · intro h
    rw [h.2]
    exact hpowers reg h.1

/-- The cycles agree with another divider only when one cycle is left. -/
theorem cycles_of_divider {reg : Nat} (hpos : 0 < m)
    (h : c / m = choiceCycles c (2 ^ reg) (m - 1)) : reg = 0 ∨ c / m ≤ 1 := by
  by_contra hboth
  have hreg : 2 ≤ 2 ^ reg := by
    calc 2 = 2 ^ 1 := rfl
      _ ≤ 2 ^ reg := Nat.pow_le_pow_right (by decide) (by omega)
  have hle : c / m / 2 ^ reg ≤ c / m / 2 := Nat.div_le_div_left hreg (by decide)
  unfold choiceCycles at h
  rw [Nat.sub_add_cancel hpos, Nat.div_div_eq_div_mul, Nat.mul_comm,
    ← Nat.div_div_eq_div_mul] at h
  omega

/-- One cycle has no dead zone with a divider greater than 1. -/
theorem deadZone_divided {reg : Nat} (hp : 10 < periodNs)
    (hshort : periodNs ≤ 19) (hdead : deadTime ≤ periodNs.toNat)
    (hreg : reg ≠ 0) : deadZone (clockRate periodNs) deadTime (2 ^ reg) = 0 := by
  have hrate := clockRate_of_short hp (by omega)
  have hhalf : 100000000 / 2 ^ reg ≤ 100000000 / 2 ^ 1 :=
    Nat.div_le_div_left (Nat.pow_le_pow_right (by decide) (by omega)) (by decide)
  unfold deadZone
  rw [hrate]
  apply Nat.div_eq_of_lt
  calc 100000000 / 2 ^ reg * deadTime
      ≤ 50000000 * 19 := Nat.mul_le_mul hhalf (by omega)
    _ < 1000000000 := by decide

theorem clockCycles_le_one_iff (hp : 10 < periodNs) :
    clockCycles periodNs ≤ 1 ↔ periodNs ≤ 19 := by
  unfold clockCycles
  rcases clockRate_cases hp with ⟨hrate, hle⟩ | ⟨hrate, hge⟩
  · rw [hrate]
    omega
  · rw [hrate]
    omega

theorem deadZone_one_iff (hp : 10 < periodNs) (hshort : periodNs ≤ 19) :
    deadZone (clockRate periodNs) deadTime 1 = 0 ↔ deadTime < 10 := by
  have hrate := clockRate_of_short hp (by omega)
  unfold deadZone
  rw [hrate]
  omega

/-- The cycles and the dead zone of the search are those of a divider exactly
when the divider is harmless. -/
theorem dividerHarmless_iff {reg : Nat} (hp : 10 < periodNs)
    (hlt : periodNs < 2 ^ 31) (hdead : deadTime ≤ periodNs.toNat)
    (hreg : reg ≤ 8)
    (h : FirstDualFit (clockRate periodNs) (clockCycles periodNs) deadTime m) :
    (clockCycles periodNs / m
          = choiceCycles (clockCycles periodNs) (2 ^ reg) (m - 1) ∧
        deadZone (clockRate periodNs) deadTime m
          = deadZone (clockRate periodNs) deadTime (2 ^ reg * (m - 1 + 1))) ↔
      DividerHarmless deadTime periodNs reg := by
  have hpos := h.pos
  have hleft := h.cycles_pos hp hlt hdead
  have hcycles := clockCycles_range hp hlt
  unfold DividerHarmless
  rw [Nat.sub_add_cancel hpos]
  constructor
  · intro hsame
    rcases cycles_of_divider hpos hsame.1 with hzero | hone
    · exact Or.inl hzero
    · by_cases hzero : reg = 0
      · exact Or.inl hzero
      · obtain rfl := h.eq_one hdead hone
        rw [Nat.div_one] at hone
        have hshort := (clockCycles_le_one_iff hp).mp hone
        have hnone := hsame.2
        rw [Nat.mul_one, deadZone_divided hp hshort hdead hzero,
          deadZone_one_iff hp hshort] at hnone
        exact Or.inr ⟨hreg, hshort, hnone⟩
  · intro hharmless
    by_cases hzero : reg = 0
    · rw [hzero, Nat.pow_zero, Nat.one_mul]
      unfold choiceCycles
      rw [Nat.div_one, Nat.sub_add_cancel hpos]
      exact ⟨by omega, rfl⟩
    · obtain ⟨-, hshort, hfew⟩ := hharmless.resolve_left hzero
      have hone := (clockCycles_le_one_iff hp).mpr hshort
      have hm : m = 1 := h.eq_one hdead
        (Nat.le_trans (Nat.div_le_self _ _) hone)
      rw [hm, Nat.mul_one, deadZone_divided hp hshort hdead hzero,
        deadZone_one_iff hp hshort]
      refine ⟨?_, hfew⟩
      have hdiv : clockCycles periodNs / 2 ^ reg ≤ 1 :=
        Nat.le_trans (Nat.div_le_self _ _) hone
      unfold choiceCycles
      rw [Nat.div_one, Nat.div_one]
      omega

/-! ## When the fields hold a choice -/

/-- The period field has room for the cycles that are left. -/
theorem periodField_foundRegs (uninit : Nat) (dutyNs : Int) (regs : Regs)
    (hsel : sel ≠ 8) (ho : o = sel ∨ o = bind)
    (hpos : 0 < clockCycles periodNs / m)
    (hfit : DualFit (clockRate periodNs) (clockCycles periodNs) deadTime m) :
    periodField (foundRegs sel bind uninit deadTime dutyNs periodNs m regs) o + 1
      = clockCycles periodNs / m := by
  have hroom : clockCycles periodNs / m - 1 < 2 ^ pwmPeriodCyclesWidth := by
    have hle := hfit.1
    simp only [pwmPeriodCyclesWidth]
    omega
  unfold foundRegs
  rw [periodField_found _ _ _ _ _ _ _ hsel ho,
    get_ofNat_of_lt (by decide) hroom]
  omega

/-- A prescaler of 256 reads as 0, and no divider makes up for that. -/
theorem FirstDualFit.prescal_fits {reg : Nat}
    (hdead : deadTime ≤ periodNs.toNat) (hreg : reg ≤ 8)
    (h : FirstDualFit (clockRate periodNs) (clockCycles periodNs) deadTime m)
    (hle : m ≤ 257)
    (hcycles : clockCycles periodNs / m = choiceCycles (clockCycles periodNs)
      (2 ^ reg)
      (BitField.get 0 pwmPrescalWidth (BitVec.ofNat 32 (m - 1))).toNat) :
    m ≤ 2 ^ pwmPrescalWidth := by
  simp only [pwmPrescalWidth]
  by_contra hbig
  obtain rfl : m = 257 := by omega
  have hbefore := h.before hdead (by decide)
  have hzero : (BitField.get 0 pwmPrescalWidth
      (BitVec.ofNat 32 (257 - 1))).toNat = 0 := by decide
  have hdiv : clockCycles periodNs / 2 ^ 8 ≤ clockCycles periodNs / 2 ^ reg :=
    Nat.div_le_div_left (Nat.pow_le_pow_right (by decide) hreg)
      (Nat.two_pow_pos _)
  unfold choiceCycles at hcycles
  rw [hzero, Nat.zero_add, Nat.div_one] at hcycles
  omega

/-- A dead zone of 256 reads as 0, and no divider makes up for that. -/
theorem FirstDualFit.zone_fits {reg : Nat}
    (hdead : deadTime ≤ periodNs.toNat)
    (h : FirstDualFit (clockRate periodNs) (clockCycles periodNs) deadTime m)
    (hcycles : clockCycles periodNs / m
      = choiceCycles (clockCycles periodNs) (2 ^ reg) (m - 1))
    (hzone : (BitField.get 0 pwmPdzintvWidth (BitVec.ofNat 32
        (deadZone (clockRate periodNs) deadTime m))).toNat
      = deadZone (clockRate periodNs) deadTime (2 ^ reg * (m - 1 + 1))) :
    deadZone (clockRate periodNs) deadTime m < 2 ^ pwmPdzintvWidth := by
  have hle : deadZone (clockRate periodNs) deadTime m ≤ 256 := h.fits.2
  have hfew := deadZone_le_cycles hdead m
  simp only [pwmPdzintvWidth] at hzone ⊢
  by_contra hbig
  have hfull : deadZone (clockRate periodNs) deadTime m = 256 := by omega
  rcases cycles_of_divider h.pos hcycles with hzero | hone
  · have hnone : (BitField.get 0 8 (BitVec.ofNat 32 256)).toNat = 0 := by decide
    rw [hzero, Nat.pow_zero, Nat.one_mul, Nat.sub_add_cancel h.pos, hfull,
      hnone] at hzone
    omega
  · omega

/-- A full duty cycle of 65536 cycles does not fit, and every other one
does. -/
theorem active_fits_iff (hp : 10 < periodNs) (hle : dutyNs ≤ periodNs)
    (hpos : 0 < c) (hc : c ≤ 65536) :
    c * dutyNs.toNat / periodNs.toNat < 2 ^ pwmActCyclesWidth ↔
      ¬ (dutyNs = periodNs ∧ c = 65536) := by
  have hfull := active_full_iff hpos (show 0 < periodNs.toNat by omega)
    (show dutyNs.toNat ≤ periodNs.toNat by omega)
  have hmost := active_le (e := c) (show dutyNs.toNat ≤ periodNs.toNat by omega)
  simp only [pwmActCyclesWidth]
  constructor
  · intro hlt hboth
    have hall := hfull.mpr (by omega)
    omega
  · intro hnot
    by_contra hbig
    have hall := hfull.mp (by omega)
    exact hnot ⟨by omega, by omega⟩

/-- The value of a field is less than its size. -/
theorem activeField_lt (regs : Regs) (sel : Channel) :
    activeField regs sel < 2 ^ pwmActCyclesWidth := by
  unfold activeField
  rw [getBits_eq]
  exact BitField.toNat_get_lt (by decide)

theorem foundFits_of_holds (uninit : Nat) (regs : Regs) (hsel : sel ≠ 8)
    (hp : 10 < periodNs) (hlt : periodNs < 2 ^ 31) (hle : dutyNs ≤ periodNs)
    (hdead : (deadTime : Int) ≤ dutyNs) (hm : m ≤ 257)
    (h : FirstDualFit (clockRate periodNs) (clockCycles periodNs) deadTime m)
    (hholds : HoldsChoice
      (foundRegs sel bind uninit deadTime dutyNs periodNs m regs)
      sel bind uninit deadTime dutyNs periodNs) :
    FoundFits sel bind uninit deadTime dutyNs periodNs regs m := by
  obtain ⟨reg, preDiv, q, hfits, hboth⟩ := hholds
  obtain ⟨hreg, rfl⟩ := mem_preScal_iff.mp hfits.divider
  have hwithin : deadTime ≤ periodNs.toNat := by omega
  have hpos := h.cycles_pos hp hlt hwithin
  have hs := hboth sel (Or.inl rfl)
  have hb := hboth bind (Or.inr rfl)
  have hdivM : divMField regs sel = reg :=
    (divMField_found _ _ _ _ _ _ _ hsel (Or.inl rfl)).symm.trans hs.divM
  have hbound : divMField regs bind = reg :=
    (divMField_found _ _ _ _ _ _ _ hsel (Or.inr rfl)).symm.trans hb.divM
  have hprescal := (prescalField_found _ _ _ _ _ _ _ hsel
    (Or.inl rfl)).symm.trans hs.prescal
  have hcycles := (periodField_foundRegs uninit dutyNs regs hsel (Or.inl rfl)
    hpos h.fits).symm.trans hs.period
  have hfew : m ≤ 2 ^ pwmPrescalWidth :=
    h.prescal_fits hwithin hreg hm (by rw [hprescal]; exact hcycles)
  have hm1 : m - 1 < 2 ^ pwmPrescalWidth := by
    have hpos' := h.pos
    omega
  obtain rfl : m - 1 = q := by
    rw [get_ofNat_of_lt (by decide) hm1] at hprescal
    exact hprescal
  have hzone := hs.zone hsel
  unfold foundRegs at hzone
  rw [zoneField_found _ _ _ _ _ _ _ hsel, if_pos rfl] at hzone
  have hzoneFits := h.zone_fits hwithin hcycles hzone
  rw [get_ofNat_of_lt (by decide) hzoneFits] at hzone
  have hactive := hs.active
  rw [← hcycles] at hactive
  refine ⟨h, hfew, hzoneFits, ?_, ?_, hbound.trans hdivM.symm, ?_⟩
  · apply (active_fits_iff hp hle hpos h.fits.1).mp
    rw [← hactive]
    exact activeField_lt _ sel
  · rw [hdivM]
    exact (dividerHarmless_iff hp hlt hwithin hreg h).mp ⟨hcycles, hzone⟩
  · by_cases hlast : bind = 8
    · exact Or.inl hlast
    · have hboundZone := hb.zone hlast
      unfold foundRegs at hboundZone
      rw [zoneField_found _ _ _ _ _ _ _ hlast] at hboundZone
      split_ifs at hboundZone with hsame
      · exact Or.inr (Or.inl hsame)
      · exact Or.inr (Or.inr (hboundZone.trans hzone.symm))

theorem holds_of_foundFits (uninit : Nat) (regs : Regs) (hsel : sel ≠ 8)
    (hp : 10 < periodNs) (hlt : periodNs < 2 ^ 31) (hle : dutyNs ≤ periodNs)
    (hdead : (deadTime : Int) ≤ dutyNs)
    (hfound : FoundFits sel bind uninit deadTime dutyNs periodNs regs m) :
    HoldsChoice (foundRegs sel bind uninit deadTime dutyNs periodNs m regs)
      sel bind uninit deadTime dutyNs periodNs := by
  have h := hfound.first
  have hwithin : deadTime ≤ periodNs.toNat := by omega
  have hpos := h.cycles_pos hp hlt hwithin
  have hreg : divMField regs sel ≤ 8 := by
    rcases hfound.divM with hzero | hbig
    · omega
    · exact hbig.1
  obtain ⟨hcycles, hzone⟩ :=
    (dividerHarmless_iff hp hlt hwithin hreg h).mpr hfound.divM
  have hprescal : m - 1 < 2 ^ pwmPrescalWidth := by
    have hm := h.pos
    have hfew := hfound.prescal
    omega
  have hactive := (active_fits_iff hp hle hpos h.fits.1).mpr
    hfound.active
  refine ⟨divMField regs sel, 2 ^ divMField regs sel, m - 1,
    ⟨mem_preScal_iff.mpr ⟨hreg, rfl⟩, hprescal, ?_, ?_⟩, fun o ho =>
      ⟨?_, ?_, ?_, ?_, fun hlast => ?_⟩⟩
  · have hfit := h.fits.1
    rw [hcycles] at hfit
    exact Nat.le_trans (Nat.le_max_right 1 _) hfit
  · rw [← hzone]
    exact hfound.zone
  · unfold foundRegs
    rw [divMField_found _ _ _ _ _ _ _ hsel ho]
    rcases ho with rfl | rfl
    · rfl
    · exact hfound.bound
  · unfold foundRegs
    rw [prescalField_found _ _ _ _ _ _ _ hsel ho,
      get_ofNat_of_lt (by decide) hprescal]
  · rw [periodField_foundRegs uninit dutyNs regs hsel ho hpos h.fits, hcycles]
  · unfold foundRegs
    rw [activeField_found _ _ _ _ _ _ _ hsel ho,
      get_ofNat_of_lt (by decide) hactive, ← hcycles]
  · unfold foundRegs
    rw [zoneField_found _ _ _ _ _ _ _ hlast,
      get_ofNat_of_lt (by decide) hfound.zone, ← hzone]
    split_ifs with hsame
    · rfl
    · rcases ho with rfl | rfl
      · exact absurd rfl hsame
      · rcases hfound.boundZone with heq | heq | hold
        · exact absurd heq hlast
        · exact absurd heq hsame
        · exact hold

/-! ## When a failure changes nothing -/

/-- The writes before the search change nothing exactly when the fields hold
their values. -/
theorem selectDual_eq_self_iff (src : BitVec 32) (bind : Channel)
    (uninit : Nat) (regs : Regs) (hsel : sel ≠ 8)
    (hsrc : src.toNat < 2 ^ pwmClkSrcWidth) :
    selectDual sel bind uninit src regs = regs ↔
      getBits pwmDzEnShift pwmDzEnWidth (regs (getPdzcrRegOffset sel uninit)) = 1 ∧
        ∀ o, o = sel ∨ o = bind →
          getBits pwmClkSrcShift pwmClkSrcWidth (regs (getPccrRegOffset o))
            = src := by
  have hne := fun o => (pdzcr_ne hsel uninit o).1
  have hsource : ∀ r : BitVec 32,
      BitField.get pwmClkSrcShift pwmClkSrcWidth r = src ↔
        BitField.set pwmClkSrcShift pwmClkSrcWidth r src = r :=
    fun r => (BitField.set_eq_self_iff (by decide) hsrc).symm
  have henabled : ∀ r : BitVec 32,
      BitField.get pwmDzEnShift pwmDzEnWidth r = 1 ↔
        BitField.set pwmDzEnShift pwmDzEnWidth r 1 = r :=
    fun r => (BitField.set_eq_self_iff (by decide) (by decide)).symm
  simp only [getBits_eq, hsource, henabled]
  unfold selectDual
  constructor
  · intro h
    constructor
    · have hat := congrFun h (getPdzcrRegOffset sel uninit)
      rw [writeBoth_of_ne _ _ _ _ (hne sel) (hne bind), writeField_self] at hat
      exact hat
    · intro o ho
      have hat := congrFun h (getPccrRegOffset o)
      rw [writeBoth_self _ _ _ _ (offset_or getPccrRegOffset ho),
        writeField_of_ne _ _ _ _ (hne o).symm] at hat
      exact hat
  · intro h
    have hfirst : writeField regs (getPdzcrRegOffset sel uninit) pwmDzEnShift
        pwmDzEnWidth 1 = regs := by
      unfold writeField
      rw [setBits_eq, h.1, Function.update_eq_self]
    funext x
    rw [hfirst]
    by_cases hx : x = getPccrRegOffset sel ∨ x = getPccrRegOffset bind
    · rw [writeBoth_self _ _ _ _ hx]
      rcases hx with rfl | rfl
      · exact h.2 sel (Or.inl rfl)
      · exact h.2 bind (Or.inr rfl)
    · obtain ⟨h0, h1⟩ := not_or.mp hx
      exact writeBoth_of_ne _ _ _ _ h0 h1

/-! ## The exact condition -/

/-- The search ends. -/
theorem searchesDual_iff_found (sel bind : Channel) (uninit : Nat) (regs : Regs)
    (hsel : sel ≠ 8) (hp : 10 < periodNs) (hlt : periodNs < 2 ^ 31)
    (hle : dutyNs ≤ periodNs) (hdead : (cfg.deadTime.toNat : Int) ≤ dutyNs)
    (hfit : DualFit (clockRate periodNs) (clockCycles periodNs)
      cfg.deadTime.toNat 257) :
    SearchesDual cfg sel bind uninit dutyNs periodNs regs ↔
      ∃ m, FoundFits sel bind uninit cfg.deadTime.toNat dutyNs periodNs regs
        m := by
  have hfeasible := feasible_of_fit hp hlt hfit
  obtain ⟨m, hm, hfirst, heq⟩ := configDual_found sel bind uninit regs hp hlt
    hle hdead hfit
  constructor
  · intro h
    have hholds := (h.complete hfeasible).2
    rw [heq] at hholds
    exact ⟨m, foundFits_of_holds uninit regs hsel hp hlt hle hdead hm hfirst
      hholds⟩
  · intro h
    obtain ⟨m', hfound⟩ := h
    obtain rfl := hfirst.unique hfound.first
    have herr : ¬ (0 : Int) = eInval := by decide
    constructor
    · intro _
      rw [heq]
      exact ⟨rfl, holds_of_foundFits uninit regs hsel hp hlt hle hdead hfound⟩
    · intro hret
      rw [heq] at hret
      exact absurd hret herr

/-- The search fails. -/
theorem searchesDual_iff_failed (sel bind : Channel) (uninit : Nat)
    (regs : Regs) (hsel : sel ≠ 8) (hp : 10 < periodNs)
    (hlt : periodNs < 2 ^ 31) (hle : dutyNs ≤ periodNs)
    (hdead : (cfg.deadTime.toNat : Int) ≤ dutyNs)
    (hnone : ¬ DualFit (clockRate periodNs) (clockCycles periodNs)
      cfg.deadTime.toNat 257) :
    SearchesDual cfg sel bind uninit dutyNs periodNs regs ↔
      FailureKeeps sel bind uninit cfg.deadTime.toNat periodNs regs := by
  have heq := configDual_failed sel bind uninit regs hp hlt hle hdead hnone
  have hsource : clockSource periodNs = 0 := by
    unfold clockSource
    rw [if_neg fun hshort => hnone (fit_of_short hp hshort (by omega))]
  have hkeeps := selectDual_eq_self_iff 0 bind uninit regs hsel (by decide)
  have herr : ¬ eInval = 0 := by decide
  constructor
  · intro h
    have hsame := h.atomic (by rw [heq])
    rw [heq, hsource] at hsame
    obtain ⟨henabled, hsources⟩ := hkeeps.mp hsame
    refine ⟨fun hfeasible => ?_, henabled, hsources⟩
    have hret := (h.complete hfeasible).1
    rw [heq] at hret
    exact absurd hret herr
  · intro h
    constructor
    · intro hfeasible
      exact absurd hfeasible h.infeasible
    · intro _
      rw [heq, hsource]
      exact hkeeps.mpr ⟨h.enabled, h.source⟩

/-- When the search finds what exists, and a failure changes nothing. -/
theorem searchesDual_iff (cfg : SunxiPwmConfig) (sel bind : Channel)
    (uninit : Nat) (dutyNs periodNs : Int) (regs : Regs) (hsel : sel ≠ 8)
    (hp : 10 < periodNs) (hlt : periodNs ≤ 2 ^ 31 - 1)
    (hle : dutyNs ≤ periodNs) (hdead : (cfg.deadTime.toNat : Int) ≤ dutyNs) :
    SearchesDual cfg sel bind uninit dutyNs periodNs regs ↔
      (∃ m, FoundFits sel bind uninit cfg.deadTime.toNat dutyNs periodNs regs
        m) ∨
      FailureKeeps sel bind uninit cfg.deadTime.toNat periodNs regs := by
  have hlt' : periodNs < 2 ^ 31 := by omega
  by_cases hfit : DualFit (clockRate periodNs) (clockCycles periodNs)
      cfg.deadTime.toNat 257
  · have hfeasible := feasible_of_fit hp hlt' hfit
    rw [searchesDual_iff_found sel bind uninit regs hsel hp hlt' hle hdead hfit]
    exact (or_iff_left fun hfail => hfail.infeasible hfeasible).symm
  · rw [searchesDual_iff_failed sel bind uninit regs hsel hp hlt' hle hdead hfit]
    refine (or_iff_right fun hfound => hfit ?_).symm
    obtain ⟨m, hfound⟩ := hfound
    have hfew : m ≤ 2 ^ pwmPrescalWidth := hfound.prescal
    simp only [pwmPrescalWidth] at hfew
    exact hfound.first.fits.mono hfound.first.pos (by omega)

/-- One millisecond, half of it active, with a dead zone of a microsecond. -/
theorem searchesDual_millisecond :
    SearchesDual ⟨1000, some 1, 0⟩ 0 1 0 500000 1000000 (fun _ => 0) ↔
      (∃ m, FoundFits 0 1 0 (1000 : BitVec 32).toNat 500000 1000000
        (fun _ => 0) m) ∨
      FailureKeeps 0 1 0 (1000 : BitVec 32).toNat 1000000 (fun _ => 0) :=
  searchesDual_iff ⟨1000, some 1, 0⟩ 0 1 0 500000 1000000 (fun _ => 0)
    (by decide) (by decide) (by decide) (by decide) (by decide)

/-- A period of one second fits a divider of 2 and is refused with the dead
zone enabled, and an old divider of 2 stays. -/
theorem searchesDual_fails :
    ¬ SearchesDual ⟨0, some 1, 0⟩ 0 1 0 500000000 1000000000 (fun _ => 0) ∧
      (sunxiPwmConfigDual ⟨0, some 1, 0⟩ 0 1 0 500000000 1000000000
        (fun _ => 0)).1 ≠ (fun _ => 0) ∧
      ¬ SearchesDual ⟨1000, some 1, 0⟩ 0 1 0 500000 1000000
        (fun offset => if offset = pwmPccr01 then 1 else 0) := by
  have hfeasible : Feasible (0 : BitVec 32).toNat 1000000000 :=
    ⟨1, 2, 255, by decide, by decide, by decide, by decide⟩
  refine ⟨fun h => ?_, fun h => ?_, fun h => ?_⟩
  · have hret := (h.complete hfeasible).1
    revert hret
    decide +kernel
  · have hat := congrFun h pwmPdzcr01
    revert hat
    decide +kernel
  · have hfeasible' : Feasible (1000 : BitVec 32).toNat 1000000 :=
      ⟨0, 1, 0, by decide, by decide, by decide, by decide⟩
    obtain ⟨-, reg, preDiv, q, hfits, hboth⟩ := h.complete hfeasible'
    have hs := hboth 0 (Or.inl rfl)
    have hdivM : reg = 1 := by
      rw [← hs.divM]
      decide +kernel
    obtain ⟨-, rfl⟩ := mem_preScal_iff.mp hfits.divider
    have hperiod := hs.period
    have hprescal : q = 0 := by
      rw [← hs.prescal]
      decide +kernel
    rw [hdivM, hprescal] at hperiod
    revert hperiod
    decide +kernel

end LonganPi.Pwm
