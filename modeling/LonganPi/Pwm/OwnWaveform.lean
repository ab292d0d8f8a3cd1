import LonganPi.Pwm.Dividers
import LonganPi.Pwm.Waveform

/-!
# What a call on a channel does to its own waveform

The counterpart of the lemmas about the other channels.  `configSingle_own`
says what the configuration leaves in every field of the waveform.  Two of
them are not what the configuration means to write.  The bypass bit is set
and never cleared, and a prescaler of 256 or more does not fit its field: its
ninth bit lands in the active state bit.
-/

namespace LonganPi.Pwm

variable {cfg : SunxiPwmConfig} {regs : Regs} {sel : Channel}

/-! ## Writes -/

/-- A write of one bit in the control register, above the prescaler. -/
theorem waveform_writeActSta_own {polarity : PwmPolarity} :
    waveform (setPolaritySingle sel polarity regs) sel
      = { waveform regs sel with polarity := polarity = .normal } := by
  have hpcr := pcrOffset_ne_per sel
  have hval : (actSta polarity).toNat < 2 ^ 1 := by cases polarity <;> decide
  unfold setPolaritySingle waveform
  rw [writeField_self, writeField_of_ne _ _ _ _ (pccr_ne_pcr sel sel),
    writeField_of_ne _ _ _ _ (pcrOffset_ne_ppr sel sel).symm,
    writeField_of_ne _ _ _ _ hpcr.symm]
  apply Waveform.ext <;> dsimp only [decode]
  · exact BitField.get_set_of_le (by decide) (by decide)
  · rw [BitField.getLsbD_set (by decide) (by decide)]
    cases polarity <;> simp [pwmActStaShift, actSta]

/-- A write of the prescaler spills into the active state bit. -/
theorem waveform_writePrescal_own {val : BitVec 32} :
    waveform (writeField regs (pcrOffset sel) pwmPrescalShift pwmPrescalWidth
        val) sel
      = { waveform regs sel with
          prescale := BitField.get 0 pwmPrescalWidth val
          polarity := (waveform regs sel).polarity
            || val.getLsbD pwmActStaShift } := by
  unfold waveform
  rw [writeField_self, writeField_of_ne _ _ _ _ (pccr_ne_pcr sel sel),
    writeField_of_ne _ _ _ _ (pcrOffset_ne_ppr sel sel).symm,
    writeField_of_ne _ _ _ _ (pcrOffset_ne_per sel).symm]
  apply Waveform.ext <;> dsimp only [decode]
  · exact BitField.get_set_self (by decide)
  · rw [BitField.getLsbD_set (by decide) (by decide)]
    simp [pwmPrescalShift, pwmPrescalWidth, pwmActStaShift]

/-- The write of the period after that of the active cycles clears what the
latter spills. -/
theorem waveform_writePpr_own {active period : BitVec 32} :
    waveform (writeField (writeField regs (pprOffset sel) pwmActCyclesShift
        pwmActCyclesWidth active) (pprOffset sel) pwmPeriodCyclesShift
        pwmPeriodCyclesWidth period) sel
      = { waveform regs sel with
          periodCycles := BitField.get 0 pwmPeriodCyclesWidth period
          activeCycles := BitField.get 0 pwmActCyclesWidth active } := by
  have hpccr := pccr_ne_ppr sel sel
  have hpcr := pcrOffset_ne_ppr sel sel
  have hper := (pprOffset_ne_per sel).symm
  unfold waveform
  rw [writeField_self, writeField_self, writeField_of_ne _ _ _ _ hpccr,
    writeField_of_ne _ _ _ _ hpccr, writeField_of_ne _ _ _ _ hpcr,
    writeField_of_ne _ _ _ _ hpcr, writeField_of_ne _ _ _ _ hper,
    writeField_of_ne _ _ _ _ hper]
  apply Waveform.ext <;> dsimp only [decode]
  · exact BitField.get_set_self (by decide)
  · rw [BitField.get_set_of_le (by decide) (by decide)]
    exact BitField.get_set_self (by decide)

theorem waveform_writeBypass_own :
    waveform (writeField regs (getPccrRegOffset sel) (regBypassShift sel) 1 1)
        sel
      = { waveform regs sel with bypass := true } := by
  have hs := regBypassShift_cases sel
  have hval : (1 : BitVec 32).toNat < 2 ^ 1 := by decide
  rw [waveform_writePccr rfl]
  apply Waveform.ext <;> dsimp only [decode, waveform]
  · exact BitField.get_set_of_lt (by omega) hval
      (by unfold pwmClkSrcShift; omega) (by decide)
  · rw [BitField.getLsbD_set (by decide) (by omega)]
    simp
  · exact BitField.get_set_of_le (by omega)
      (by unfold pwmDivMShift pwmDivMWidth; omega)
  · rw [BitField.getLsbD_set_of_lt (by omega) hval (by decide)
      (Or.inl (by unfold pwmClkGatingShift; omega))]

/-- A write of the enable bit. -/
theorem enabled_writePer_own (regs : Regs) (sel : Channel) (on : Bool) :
    (writeField regs pwmPer sel 1 (if on then 1 else 0) pwmPer).getLsbD sel
      = on := by
  rw [writeField_self, BitField.getLsbD_set (by decide) (by omega)]
  cases on <;> simp

/-! ## Functions -/

theorem setPolarity_own {polarity : PwmPolarity}
    (hcfg : cfg.bindPwm = none) :
    waveform (sunxiPwmSetPolarity cfg sel polarity regs) sel
      = { waveform regs sel with polarity := polarity = .normal } := by
  unfold sunxiPwmSetPolarity
  rw [hcfg]
  exact waveform_writeActSta_own

/-- A disable whose lookups succeed. -/
theorem disableSingle_own {l : PinLookups}
    (hl : ¬ (l.phandle = false ∨ l.device = false)) :
    (waveform (sunxiPwmDisableSingle l sel regs) sel).enabled = false := by
  have hoff := enabled_writePer_own regs sel false
  unfold sunxiPwmDisableSingle
  rw [if_neg hl]
  dsimp only
  split_ifs with hlast
  · show (writeField _ _ _ _ _ pwmPer).getLsbD sel = false
    rw [writeField_of_ne _ _ _ _ (pccr_ne_per sel).symm]
    exact hoff
  · exact hoff

theorem enableSingle_own (sel : Channel) (regs : Regs) {l : PinLookups}
    (hphandle : l.phandle = true) (hdevice : l.device = true)
    (hpin : l.pinState = 0) :
    (sunxiPwmEnableSingle l sel regs).2 = 0 ∧
      (waveform (sunxiPwmEnableSingle l sel regs).1 sel).enabled = true ∧
      (waveform (sunxiPwmEnableSingle l sel regs).1 sel).gated = true := by
  have heq : sunxiPwmEnableSingle l sel regs
      = (writeField (writeField regs (getPccrRegOffset sel) pwmClkGatingShift
          1 1) pwmPer sel 1 1, 0) := by
    unfold sunxiPwmEnableSingle
    rw [if_neg (by simp [hphandle]), if_neg (by simp [hdevice]),
      if_neg (by simp [hpin])]
  have hon := enabled_writePer_own
    (writeField regs (getPccrRegOffset sel) pwmClkGatingShift 1 1) sel true
  have hgate : (writeField (writeField regs (getPccrRegOffset sel)
      pwmClkGatingShift 1 1) pwmPer sel 1 1 (getPccrRegOffset sel)).getLsbD
        pwmClkGatingShift = true := by
    rw [writeField_of_ne _ _ _ _ (pccr_ne_per sel), writeField_self,
      BitField.getLsbD_set (by decide) (by decide)]
    simp
  rw [heq]
  refine ⟨rfl, hon, ?_⟩
  show (_ && _) = true
  rw [hgate, Bool.and_true]
  exact hon

/-- The choice of the clock. -/
theorem selectClock_own {src : BitVec 32} (hsrc : src.toNat < 4) :
    waveform (selectClock cfg sel src regs) sel
      = { waveform regs sel with
          source := src
          bypass := (waveform regs sel).bypass
            || decide (cfg.clkBypassOutput = 1) } := by
  unfold selectClock
  dsimp only
  rw [waveform_writeSource hsrc rfl]
  by_cases hout : cfg.clkBypassOutput = 1
  · rw [if_pos hout, waveform_writeBypass_own, decide_eq_true hout,
      Bool.or_true]
  · rw [if_neg hout, decide_eq_false hout, Bool.or_false]

/-- The writes of the search result. -/
theorem writeCycles_own {d : Dividers} {active : Nat} (hd : d.divM < 16) :
    waveform (writeCycles sel d active regs) sel
      = { waveform regs sel with
          divM := BitVec.ofNat 32 d.divM
          prescale := BitField.get 0 pwmPrescalWidth
            (BitVec.ofNat 32 d.prescale)
          polarity := (waveform regs sel).polarity
            || (BitVec.ofNat 32 d.prescale).getLsbD pwmActStaShift
          periodCycles := BitField.get 0 pwmPeriodCyclesWidth
            (BitVec.ofNat 32
              ((if d.entireCycles = 0 then 1 else d.entireCycles) - 1))
          activeCycles := BitField.get 0 pwmActCyclesWidth
            (BitVec.ofNat 32 active) } := by
  have hfits : (BitVec.ofNat 32 d.divM).toNat < 16 := by
    rw [BitVec.toNat_ofNat]
    omega
  unfold writeCycles
  dsimp only
  rw [waveform_writePpr_own, waveform_writePrescal_own,
    waveform_writeDivM hfits rfl]

/-- What the configuration leaves in the waveform of its channel. -/
def configOwn (cfg : SunxiPwmConfig) (dutyNs periodNs : Int) (w : Waveform) :
    Waveform :=
  if 0 < periodNs ∧ periodNs ≤ 10 then
    { w with bypass := true, source := 1 }
  else
    let w :=
      if 0 < periodNs then
        { w with
          source := clockSource periodNs
          bypass := w.bypass || decide (cfg.clkBypassOutput = 1) }
      else w
    let d := searchDividers (clockRate periodNs) periodNs
    { w with
      divM := BitVec.ofNat 32 d.divM
      prescale := BitField.get 0 pwmPrescalWidth (BitVec.ofNat 32 d.prescale)
      polarity := w.polarity
        || (BitVec.ofNat 32 d.prescale).getLsbD pwmActStaShift
      periodCycles := BitField.get 0 pwmPeriodCyclesWidth
        (BitVec.ofNat 32
          ((if d.entireCycles = 0 then 1 else d.entireCycles) - 1))
      activeCycles := BitField.get 0 pwmActCyclesWidth
        (BitVec.ofNat 32 (activeCycles d.entireCycles dutyNs periodNs)) }

theorem configSingle_own (dutyNs periodNs : Int) :
    waveform (sunxiPwmConfigSingle cfg sel dutyNs periodNs regs) sel
      = configOwn cfg dutyNs periodNs (waveform regs sel) := by
  unfold sunxiPwmConfigSingle configOwn
  by_cases hbypass : 0 < periodNs ∧ periodNs ≤ 10
  · rw [if_pos hbypass, if_pos hbypass]
    dsimp only
    rw [waveform_writeSource (by decide) rfl, waveform_writeBypass_own]
  · rw [if_neg hbypass, if_neg hbypass]
    dsimp only
    unfold clockRate
    by_cases hshort : 10 < periodNs ∧ periodNs ≤ 334
    · have hsource : clockSource periodNs = 1 := by
        unfold clockSource
        rw [if_pos hshort.2]
      have hpos : 0 < periodNs := by omega
      simp only [hshort, hpos, and_self, if_true, hsource]
      rw [writeCycles_own (searchDividers_divM_lt _ _),
        selectClock_own (by decide)]
    · by_cases hlong : 334 < periodNs
      · have hsource : clockSource periodNs = 0 := by
          unfold clockSource
          rw [if_neg (by omega)]
        have hpos : 0 < periodNs := by omega
        simp only [hshort, hlong, hpos, if_true, if_false, hsource]
        rw [writeCycles_own (searchDividers_divM_lt _ _),
          selectClock_own (by decide)]
      · have hneg : ¬ 0 < periodNs := by omega
        simp only [hshort, hlong, hneg, if_false]
        rw [writeCycles_own (searchDividers_divM_lt _ _)]

theorem config_own (uninit : Nat) {dutyNs periodNs : Int}
    (hcfg : cfg.bindPwm = none) :
    waveform (sunxiPwmConfig cfg sel uninit dutyNs periodNs regs) sel
      = configOwn cfg dutyNs periodNs (waveform regs sel) := by
  unfold sunxiPwmConfig
  rw [hcfg]
  exact configSingle_own dutyNs periodNs

/-- The configuration never stops a channel, closes its gate or clears its
active state bit. -/
theorem configOwn_keeps (cfg : SunxiPwmConfig) (dutyNs periodNs : Int)
    (w : Waveform) :
    (configOwn cfg dutyNs periodNs w).enabled = w.enabled ∧
      (configOwn cfg dutyNs periodNs w).gated = w.gated ∧
      (w.polarity = true →
        (configOwn cfg dutyNs periodNs w).polarity = true) := by
  unfold configOwn
  split_ifs with hbypass hpos
  · exact ⟨rfl, rfl, id⟩
  · exact ⟨rfl, rfl, fun h => by simp [h]⟩
  · exact ⟨rfl, rfl, fun h => by simp [h]⟩

end LonganPi.Pwm
