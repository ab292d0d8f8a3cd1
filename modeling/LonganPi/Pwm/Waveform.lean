import LonganPi.Pwm.Chip
import Mathlib.Tactic.SplitIfs

/-!
# The waveform of a channel

`waveform` reads from the registers what a channel puts out.  Each function
of the driver changes the waveforms of the other channels in a way that has
nothing to do with the registers: `configSingle_other`, `enableSingle_other`,
`disableSingle_other` and `setPolaritySingle_other` say how.
-/

namespace LonganPi.Pwm

/-- What the registers say of a channel. -/
@[ext]
structure Waveform where
  source : BitVec 32
  bypass : Bool
  divM : BitVec 32
  prescale : BitVec 32
  periodCycles : BitVec 32
  activeCycles : BitVec 32
  /-- The active state bit. -/
  polarity : Bool
  enabled : Bool
  /-- The clock gate, which matters while the channel is enabled. -/
  gated : Bool
  deriving DecidableEq, Repr

/-- The waveform in the words of the clock control register, of the two
registers of the channel and of the enable register. -/
def decode (o : Channel) (pccr pcr ppr per : BitVec 32) : Waveform where
  source := BitField.get pwmClkSrcShift pwmClkSrcWidth pccr
  bypass := pccr.getLsbD (regBypassShift o)
  divM := BitField.get pwmDivMShift pwmDivMWidth pccr
  prescale := BitField.get pwmPrescalShift pwmPrescalWidth pcr
  periodCycles := BitField.get pwmPeriodCyclesShift pwmPeriodCyclesWidth ppr
  activeCycles := BitField.get pwmActCyclesShift pwmActCyclesWidth ppr
  polarity := pcr.getLsbD pwmActStaShift
  enabled := per.getLsbD o
  gated := per.getLsbD o && pccr.getLsbD pwmClkGatingShift

/-- The waveform of a channel. -/
def waveform (regs : Regs) (o : Channel) : Waveform :=
  decode o (regs (getPccrRegOffset o)) (regs (pcrOffset o))
    (regs (pprOffset o)) (regs pwmPer)

variable {regs regs' : Regs} {sel o : Channel}

/-- A waveform is read from three registers and one bit. -/
theorem waveform_congr
    (hpccr : regs' (getPccrRegOffset o) = regs (getPccrRegOffset o))
    (hpcr : regs' (pcrOffset o) = regs (pcrOffset o))
    (hppr : regs' (pprOffset o) = regs (pprOffset o))
    (hper : (regs' pwmPer).getLsbD o = (regs pwmPer).getLsbD o) :
    waveform regs' o = waveform regs o := by
  unfold waveform decode
  rw [hpccr, hpcr, hppr, hper]

theorem regBypassShift_cases (a : Channel) :
    regBypassShift a = 5 ∨ regBypassShift a = 6 := by
  unfold regBypassShift
  split_ifs
  · exact Or.inl rfl
  · exact Or.inr rfl

/-- Two channels with a common clock control register have different bypass
bits. -/
theorem regBypassShift_ne (hne : o ≠ sel)
    (hpccr : getPccrRegOffset o = getPccrRegOffset sel) :
    regBypassShift o ≠ regBypassShift sel := by
  revert o sel
  decide

/-! ## Writes to the registers of one channel -/

theorem waveform_writePcr {shift width : Nat} {val : BitVec 32}
    (hne : o ≠ sel) :
    waveform (writeField regs (pcrOffset sel) shift width val) o
      = waveform regs o := by
  apply waveform_congr
  · exact writeField_of_ne _ _ _ _ (pccr_ne_pcr o sel)
  · exact writeField_of_ne _ _ _ _ (pcrOffset_injective.ne hne)
  · exact writeField_of_ne _ _ _ _ (pcrOffset_ne_ppr sel o).symm
  · rw [writeField_of_ne _ _ _ _ (pcrOffset_ne_per sel).symm]

theorem waveform_writePpr {shift width : Nat} {val : BitVec 32}
    (hne : o ≠ sel) :
    waveform (writeField regs (pprOffset sel) shift width val) o
      = waveform regs o := by
  apply waveform_congr
  · exact writeField_of_ne _ _ _ _ (pccr_ne_ppr o sel)
  · exact writeField_of_ne _ _ _ _ (pcrOffset_ne_ppr o sel)
  · exact writeField_of_ne _ _ _ _ (pprOffset_injective.ne hne)
  · rw [writeField_of_ne _ _ _ _ (pprOffset_ne_per sel).symm]

theorem getLsbD_writePer {val : BitVec 32} (hval : val.toNat < 2)
    (hne : o ≠ sel) :
    (writeField regs pwmPer sel 1 val pwmPer).getLsbD o
      = (regs pwmPer).getLsbD o := by
  rw [writeField_self]
  have hval' : val.toNat < 2 ^ 1 := hval
  have hdiff : o.val ≠ sel.val := fun h => hne (Fin.ext h)
  exact BitField.getLsbD_set_of_lt (by omega) hval' (by omega) (by omega)

theorem waveform_writePer {val : BitVec 32} (hval : val.toNat < 2)
    (hne : o ≠ sel) :
    waveform (writeField regs pwmPer sel 1 val) o = waveform regs o := by
  apply waveform_congr
  · exact writeField_of_ne _ _ _ _ (pccr_ne_per o)
  · exact writeField_of_ne _ _ _ _ (pcrOffset_ne_per o)
  · exact writeField_of_ne _ _ _ _ (pprOffset_ne_per o)
  · exact getLsbD_writePer hval hne

/-! ## Writes to the common register -/

/-- A write to another clock control register changes nothing. -/
theorem waveform_writePccr_of_ne {shift width : Nat} {val : BitVec 32}
    (hpccr : getPccrRegOffset o ≠ getPccrRegOffset sel) :
    waveform (writeField regs (getPccrRegOffset sel) shift width val) o
      = waveform regs o := by
  apply waveform_congr
  · exact writeField_of_ne _ _ _ _ hpccr
  · exact writeField_of_ne _ _ _ _ (pccr_ne_pcr sel o).symm
  · exact writeField_of_ne _ _ _ _ (pccr_ne_ppr sel o).symm
  · rw [writeField_of_ne _ _ _ _ (pccr_ne_per sel).symm]

theorem waveform_writePccr {shift width : Nat} {val : BitVec 32}
    (hpccr : getPccrRegOffset o = getPccrRegOffset sel) :
    waveform (writeField regs (getPccrRegOffset sel) shift width val) o
      = decode o (BitField.set shift width (regs (getPccrRegOffset o)) val)
          (regs (pcrOffset o)) (regs (pprOffset o)) (regs pwmPer) := by
  unfold waveform
  rw [hpccr, writeField_self,
    writeField_of_ne _ _ _ _ (pccr_ne_pcr sel o).symm,
    writeField_of_ne _ _ _ _ (pccr_ne_ppr sel o).symm,
    writeField_of_ne _ _ _ _ (pccr_ne_per sel).symm]

/-- The bypass bit of a channel is its own. -/
theorem waveform_writeBypass {val : BitVec 32} (hval : val.toNat < 2)
    (hne : o ≠ sel) :
    waveform (writeField regs (getPccrRegOffset sel) (regBypassShift sel) 1
      val) o = waveform regs o := by
  by_cases hpccr : getPccrRegOffset o = getPccrRegOffset sel
  · have hshift := regBypassShift_ne hne hpccr
    have ho := regBypassShift_cases o
    have hs := regBypassShift_cases sel
    have hval' : val.toNat < 2 ^ 1 := hval
    rw [waveform_writePccr hpccr]
    apply Waveform.ext <;> dsimp only [decode, waveform]
    · exact BitField.get_set_of_lt (by omega) hval' (by unfold pwmClkSrcShift; omega) (by decide)
    · exact BitField.getLsbD_set_of_lt (by omega) hval' (by omega) (by omega)
    · exact BitField.get_set_of_le (by omega) (by unfold pwmDivMShift pwmDivMWidth; omega)
    · rw [BitField.getLsbD_set_of_lt (by omega) hval' (by decide)
        (Or.inl (by unfold pwmClkGatingShift; omega))]
  · exact waveform_writePccr_of_ne hpccr

/-- A write of the source is seen by both channels. -/
theorem waveform_writeSource {val : BitVec 32} (hval : val.toNat < 4)
    (hpccr : getPccrRegOffset o = getPccrRegOffset sel) :
    waveform (writeField regs (getPccrRegOffset sel) pwmClkSrcShift
        pwmClkSrcWidth val) o
      = { waveform regs o with source := val } := by
  have ho := regBypassShift_cases o
  have hval' : val.toNat < 2 ^ pwmClkSrcWidth := hval
  rw [waveform_writePccr hpccr]
  apply Waveform.ext <;> dsimp only [decode, waveform]
  · exact BitField.get_set_self_of_lt (by decide) hval'
  · exact BitField.getLsbD_set_of_lt (by decide) hval' (by omega)
      (Or.inl (by unfold pwmClkSrcShift; omega))
  · exact BitField.get_set_of_le (by decide) (by decide)
  · rw [BitField.getLsbD_set_of_lt (by decide) hval' (by decide) (by decide)]

/-- A write of the divider is seen by both channels. -/
theorem waveform_writeDivM {val : BitVec 32} (hval : val.toNat < 16)
    (hpccr : getPccrRegOffset o = getPccrRegOffset sel) :
    waveform (writeField regs (getPccrRegOffset sel) pwmDivMShift pwmDivMWidth
        val) o
      = { waveform regs o with divM := val } := by
  have ho := regBypassShift_cases o
  have hval' : val.toNat < 2 ^ pwmDivMWidth := hval
  rw [waveform_writePccr hpccr]
  apply Waveform.ext <;> dsimp only [decode, waveform]
  · exact BitField.get_set_of_lt (by decide) hval' (by decide) (by decide)
  · exact BitField.getLsbD_set_of_lt (by decide) hval' (by omega)
      (Or.inr (by unfold pwmDivMShift pwmDivMWidth; omega))
  · exact BitField.get_set_self_of_lt (by decide) hval'
  · rw [BitField.getLsbD_set_of_lt (by decide) hval' (by decide) (by decide)]

/-- A write of the gate is seen by both channels. -/
theorem waveform_writeGate (regs : Regs) (on : Bool)
    (hpccr : getPccrRegOffset o = getPccrRegOffset sel) :
    waveform (writeField regs (getPccrRegOffset sel) pwmClkGatingShift 1
        (if on then 1 else 0)) o
      = { waveform regs o with gated := (waveform regs o).enabled && on } := by
  have ho := regBypassShift_cases o
  have hval : (if on then 1 else 0 : BitVec 32).toNat < 2 ^ 1 := by
    cases on <;> decide
  rw [waveform_writePccr hpccr]
  apply Waveform.ext <;> dsimp only [decode, waveform]
  · exact BitField.get_set_of_lt (by decide) hval (by decide) (by decide)
  · exact BitField.getLsbD_set_of_lt (by decide) hval (by omega)
      (Or.inr (by unfold pwmClkGatingShift; omega))
  · exact BitField.get_set_of_le (by decide) (by decide)
  · rw [BitField.getLsbD_set (by decide) (by decide)]
    cases on <;> simp [pwmClkGatingShift]

end LonganPi.Pwm
