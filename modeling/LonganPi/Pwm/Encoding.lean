import LonganPi.Pwm.Independence
import LonganPi.Pwm.OwnWaveform

/-!
# How a period and a duty cycle are encoded

`sunxi_pwm_config_single` divides the clock by one of nine dividers and by a
prescaler, and stores the cycles that are left in two 16-bit fields.  The
loop over the prescalers goes up to 256, which does not fit the 8-bit field,
and a full duty cycle of 65536 does not fit the 16-bit one.

* `Encodes` says that the fields decode to the period and the duty cycle,
  and that no other bit of any register changes.
* `search_spec` says what the search finds.
* `encodes_iff`: the encoding holds unless the search needs a prescaler of
  256, or the duty cycle is the whole period and that is 65536 cycles.
-/

namespace LonganPi.Pwm

variable {cfg : SunxiPwmConfig} {regs : Regs} {sel : Channel}
  {dutyNs periodNs : Int}

/-! ## The encoding -/

/-- `c`: the cycles of the clock in a period. -/
def clockCycles (periodNs : Int) : Nat :=
  clockRate periodNs * periodNs.toNat / 1000000000

/-- What the configuration stores fits the fields. -/
structure FieldsFit (dutyNs periodNs : Int) (d : Dividers) : Prop where
  found : d.entireCycles ≤ 65536
  divM : d.divM < 2 ^ pwmDivMWidth
  prescale : d.prescale < 2 ^ pwmPrescalWidth
  active : activeCycles d.entireCycles dutyNs periodNs < 2 ^ pwmActCyclesWidth
  entire : (if d.entireCycles = 0 then 1 else d.entireCycles) - 1
    < 2 ^ pwmPeriodCyclesWidth

/-- Only the bits of the fields differ. -/
structure OtherBitsKept (sel : Channel) (regs regs' : Regs) : Prop where
  others : ∀ o, o ≠ getPccrRegOffset sel → o ≠ pcrOffset sel →
    o ≠ pprOffset sel → regs' o = regs o
  pccr : ∀ i < 32, pwmDivMShift + pwmDivMWidth ≤ i →
    ¬ (pwmClkSrcShift ≤ i ∧ i < pwmClkSrcShift + pwmClkSrcWidth) →
    i ≠ regBypassShift sel →
    (regs' (getPccrRegOffset sel)).getLsbD i
      = (regs (getPccrRegOffset sel)).getLsbD i
  pcr : ∀ i < 32, pwmPrescalShift + pwmPrescalWidth ≤ i →
    (regs' (pcrOffset sel)).getLsbD i = (regs (pcrOffset sel)).getLsbD i

/-- The fields decode to the period and the duty cycle. -/
structure Decodes (dutyNs periodNs : Int) (w : Waveform) : Prop where
  divided : ∃ div, (w.divM.toNat, div) ∈ preScal ∧
    (w.periodCycles.toNat + 1) * (div * (w.prescale.toNat + 1))
      ≤ clockCycles periodNs ∧
    clockCycles periodNs
        - (w.periodCycles.toNat + 1) * (div * (w.prescale.toNat + 1))
      < div * (w.prescale.toNat + 1)
  active : w.activeCycles.toNat
    = (w.periodCycles.toNat + 1) * dutyNs.toNat / periodNs.toNat
  full : w.activeCycles.toNat = w.periodCycles.toNat + 1 ↔ dutyNs = periodNs

/-- The configuration encodes the period and the duty cycle, and changes
nothing else. -/
structure Encodes (cfg : SunxiPwmConfig) (sel : Channel) (regs : Regs)
    (dutyNs periodNs : Int) : Prop where
  fits : FieldsFit dutyNs periodNs
    (searchDividers (clockRate periodNs) periodNs)
  decodes : Decodes dutyNs periodNs
    (waveform (sunxiPwmConfigSingle cfg sel dutyNs periodNs regs) sel)
  kept : OtherBitsKept sel regs
    (sunxiPwmConfigSingle cfg sel dutyNs periodNs regs)

/-- The search needs a prescaler of 256 for the period. -/
def NeedsPrescale256 (periodNs : Int) : Prop :=
  699061334 ≤ periodNs ∧ periodNs ≤ 701792041 ∨
    1398122667 ≤ periodNs ∧ periodNs ≤ 1403584083

/-- The period is 65536 cycles of the prescaled clock. -/
def FullPeriod (periodNs : Int) : Prop :=
  clockCycles periodNs / 2 ^ clockDivider periodNs % 65536
    < clockCycles periodNs / 2 ^ clockDivider periodNs / 65536

/-! ## The search -/

section FirstFit

variable {x q : Nat}

theorem FirstFit.needs_iff (h : FirstFit x q) :
    q = 256 ↔ 65536 < x / 256 := by
  constructor
  · intro hq
    exact h.first 255 (by omega)
  · intro hbig
    by_contra hne
    have hlt := h.lt
    have hmono : x / 256 ≤ x / (q + 1) :=
      Nat.div_le_div_left (by omega) (by omega)
    have hfits := h.fits
    omega

/-- The cycles that are left are 65536 exactly when `x` lies just above a
multiple of 65536. -/
theorem FirstFit.full_iff (h : FirstFit x q) :
    x / (q + 1) = 65536 ↔ x % 65536 < x / 65536 := by
  have hlt := h.lt
  have hupper : x < 65537 * (q + 1) :=
    (Nat.div_lt_iff_lt_mul (by omega)).mp (Nat.lt_succ_of_le h.fits)
  have hlower : 0 < q → 65537 * q ≤ x := by
    intro hpos
    have hbig := h.first (q - 1) (by omega)
    rw [Nat.sub_add_cancel hpos] at hbig
    exact (Nat.le_div_iff_mul_le hpos).mp hbig
  constructor
  · intro hfull
    have hge : 65536 * (q + 1) ≤ x :=
      (Nat.le_div_iff_mul_le (by omega)).mp (Nat.le_of_eq hfull.symm)
    omega
  · intro hjust
    have hge : 65536 * (q + 1) ≤ x := by omega
    have hle := (Nat.le_div_iff_mul_le (by omega)).mpr hge
    exact Nat.le_antisymm h.fits hle

end FirstFit

/-- A period above 10 ns gets the fast clock up to 334 ns, and the slow one
above. -/
theorem clockRate_cases (hp : 10 < periodNs) :
    clockRate periodNs = 100000000 ∧ periodNs ≤ 334 ∨
      clockRate periodNs = 24000000 ∧ 334 < periodNs := by
  unfold clockRate
  split_ifs <;> omega

/-- What the search finds for a period. -/
theorem search_spec (hp : 10 < periodNs) (hlt : periodNs < 2 ^ 31) :
    ∃ q, FirstFit (clockCycles periodNs / 2 ^ clockDivider periodNs) q ∧
      searchDividers (clockRate periodNs) periodNs
        = ⟨clockCycles periodNs / 2 ^ clockDivider periodNs / (q + 1), q,
            clockDivider periodNs⟩ := by
  have hrate := clockRate_cases hp
  have hcycles : clockRate periodNs * u64OfInt periodNs % 2 ^ 64 / 1000000000
      = clockCycles periodNs :=
    cycles_eq (by omega) hlt (by omega)
  have hfew : clockCycles periodNs < 67372036 := by
    unfold clockCycles
    rcases hrate with ⟨hr, hle⟩ | ⟨hr, hge⟩ <;> rw [hr] <;> omega
  have hdiv : cyclesDivider (clockCycles periodNs) = clockDivider periodNs := by
    unfold cyclesDivider clockDivider clockCycles
    rcases hrate with ⟨hr, hle⟩ | ⟨hr, hge⟩ <;> rw [hr] <;> split_ifs <;> omega
  obtain ⟨q, hfit, heq⟩ := preScalLoop_preScal hfew
  rw [hdiv] at hfit heq
  refine ⟨q, hfit, ?_⟩
  unfold searchDividers
  rw [hcycles]
  exact heq

/-- The prescaler of 256 as a condition on the period. -/
theorem needsPrescale_iff (hp : 10 < periodNs) (hlt : periodNs < 2 ^ 31) :
    65536 < clockCycles periodNs / 2 ^ clockDivider periodNs / 256 ↔
      NeedsPrescale256 periodNs := by
  unfold NeedsPrescale256 clockCycles clockDivider
  rcases clockRate_cases hp with ⟨hr, hle⟩ | ⟨hr, hge⟩ <;> rw [hr] <;>
    split_ifs <;> omega

/-- A period has at least one cycle. -/
theorem clockCycles_pos (hp : 10 < periodNs) :
    2 ^ clockDivider periodNs ≤ clockCycles periodNs := by
  unfold clockCycles clockDivider
  rcases clockRate_cases hp with ⟨hr, hle⟩ | ⟨hr, hge⟩ <;> rw [hr] <;>
    split_ifs <;> omega

theorem clockDivider_mem (periodNs : Int) :
    (clockDivider periodNs, 2 ^ clockDivider periodNs) ∈ preScal := by
  unfold clockDivider
  split_ifs <;> decide

/-! ## The bits that are kept -/

/-- A write that fits its field keeps the other bits of every register. -/
theorem writeField_keeps {offset shift width i : Nat} {val : BitVec 32}
    (hw : shift + width ≤ 32) (hv : val.toNat < 2 ^ width) (hi : i < 32)
    (hout : i < shift ∨ shift + width ≤ i) (o : Nat) :
    (writeField regs offset shift width val o).getLsbD i
      = (regs o).getLsbD i := by
  by_cases ho : o = offset
  · subst ho
    rw [writeField_self]
    exact BitField.getLsbD_set_of_lt hw hv hi hout
  · rw [writeField_of_ne _ _ _ _ ho]

/-- Above 10 ns the configuration selects a clock and writes the result of
the search. -/
theorem configSingle_eq (cfg : SunxiPwmConfig) (sel : Channel) (dutyNs : Int)
    (regs : Regs) (hp : 10 < periodNs) :
    ∃ src : BitVec 32, src.toNat < 4 ∧
      sunxiPwmConfigSingle cfg sel dutyNs periodNs regs
        = writeCycles sel (searchDividers (clockRate periodNs) periodNs)
            (activeCycles (searchDividers (clockRate periodNs)
              periodNs).entireCycles dutyNs periodNs)
            (selectClock cfg sel src regs) := by
  unfold sunxiPwmConfigSingle
  rw [if_neg (by omega)]
  rcases clockRate_cases hp with ⟨hr, hle⟩ | ⟨hr, hge⟩
  · refine ⟨1, by decide, ?_⟩
    rw [if_pos ⟨hp, hle⟩, hr]
  · refine ⟨0, by decide, ?_⟩
    rw [if_neg (by omega), if_pos hge, hr]

theorem selectClock_keeps {src : BitVec 32} (hsrc : src.toNat < 4) {i : Nat}
    (hi : i < 32)
    (hout : ¬ (pwmClkSrcShift ≤ i ∧ i < pwmClkSrcShift + pwmClkSrcWidth))
    (hbypass : i ≠ regBypassShift sel) (o : Nat) :
    (selectClock cfg sel src regs o).getLsbD i = (regs o).getLsbD i := by
  have hs := regBypassShift_cases sel
  unfold selectClock
  rw [writeField_keeps (by decide) hsrc hi (by omega)]
  split_ifs
  · exact writeField_keeps (by omega) (by decide) hi (by omega) o
  · rfl

theorem selectClock_of_ne {src : BitVec 32} {o : Nat}
    (ho : o ≠ getPccrRegOffset sel) :
    selectClock cfg sel src regs o = regs o := by
  unfold selectClock
  rw [writeField_of_ne _ _ _ _ ho]
  split_ifs
  · exact writeField_of_ne _ _ _ _ ho
  · rfl

/-- When the search result fits, no other bit changes. -/
theorem config_keeps (cfg : SunxiPwmConfig) (sel : Channel) (regs : Regs)
    (dutyNs : Int) (hp : 10 < periodNs)
    (hfit : FieldsFit dutyNs periodNs
      (searchDividers (clockRate periodNs) periodNs)) :
    OtherBitsKept sel regs
      (sunxiPwmConfigSingle cfg sel dutyNs periodNs regs) := by
  obtain ⟨src, hsrc, heq⟩ := configSingle_eq cfg sel dutyNs regs hp
  have hdivM : (BitVec.ofNat 32
      (searchDividers (clockRate periodNs) periodNs).divM).toNat
        < 2 ^ pwmDivMWidth :=
    Nat.lt_of_le_of_lt (by rw [BitVec.toNat_ofNat]; exact Nat.mod_le _ _)
      hfit.divM
  have hprescale : (BitVec.ofNat 32
      (searchDividers (clockRate periodNs) periodNs).prescale).toNat
        < 2 ^ pwmPrescalWidth :=
    Nat.lt_of_le_of_lt (by rw [BitVec.toNat_ofNat]; exact Nat.mod_le _ _)
      hfit.prescale
  rw [heq]
  unfold writeCycles
  constructor
  · intro o hpccr hpcr hppr
    rw [writeField_of_ne _ _ _ _ hppr, writeField_of_ne _ _ _ _ hppr,
      writeField_of_ne _ _ _ _ hpcr, writeField_of_ne _ _ _ _ hpccr,
      selectClock_of_ne hpccr]
  · intro i hi hdiv hsource hbypass
    rw [writeField_of_ne _ _ _ _ (pccr_ne_ppr sel sel),
      writeField_of_ne _ _ _ _ (pccr_ne_ppr sel sel),
      writeField_of_ne _ _ _ _ (pccr_ne_pcr sel sel),
      writeField_keeps (by decide) hdivM hi (Or.inr hdiv),
      selectClock_keeps hsrc hi hsource hbypass]
  · intro i hi habove
    rw [writeField_of_ne _ _ _ _ (pcrOffset_ne_ppr sel sel),
      writeField_of_ne _ _ _ _ (pcrOffset_ne_ppr sel sel),
      writeField_keeps (by decide) hprescale hi (Or.inr habove),
      writeField_of_ne _ _ _ _ (pccr_ne_pcr sel sel).symm,
      selectClock_of_ne (pccr_ne_pcr sel sel).symm]

/-! ## The active cycles -/

theorem u32OfInt_of_range {x : Int} (hge : 0 ≤ x) (hlt : x < 2 ^ 31) :
    u32OfInt x = x.toNat := by
  unfold u32OfInt
  rw [BitVec.toNat_ofInt]
  omega

theorem activeCycles_eq {e : Nat} (he : e ≤ 65536) (hd : 0 ≤ dutyNs)
    (hle : dutyNs ≤ periodNs) (hlt : periodNs < 2 ^ 31) :
    activeCycles e dutyNs periodNs = e * dutyNs.toNat / periodNs.toNat := by
  unfold activeCycles
  rw [u64OfInt_of_range hd (by omega), u32OfInt_of_range (by omega) hlt,
    Nat.mod_eq_of_lt]
  calc e * dutyNs.toNat
      ≤ 65536 * 2 ^ 31 := Nat.mul_le_mul he (by omega)
    _ < 2 ^ 64 := by decide

/-- All cycles are active exactly for a duty cycle of the whole period. -/
theorem active_full_iff {e d p : Nat} (he : 0 < e) (hp : 0 < p)
    (hle : d ≤ p) : e * d / p = e ↔ d = p := by
  constructor
  · intro h
    have hge : e * p ≤ e * d := (Nat.le_div_iff_mul_le hp).mp (Nat.le_of_eq h.symm)
    exact Nat.le_antisymm hle (Nat.le_of_mul_le_mul_left hge he)
  · intro h
    rw [h, Nat.mul_div_cancel _ hp]

theorem active_le {e d p : Nat} (hle : d ≤ p) : e * d / p ≤ e := by
  rcases Nat.eq_zero_or_pos p with hzero | hpos
  · rw [hzero, Nat.div_zero]
    exact Nat.zero_le e
  · calc e * d / p ≤ e * p / p :=
          Nat.div_le_div_right (Nat.mul_le_mul_left e hle)
      _ = e := Nat.mul_div_cancel _ hpos

/-! ## The exact condition -/

/-- At least one cycle is left. -/
theorem FirstFit.pos {x q : Nat} (h : FirstFit x q) (hx : 0 < x) :
    0 < x / (q + 1) := by
  apply Nat.div_pos _ (by omega)
  rcases Nat.eq_zero_or_pos q with hzero | hpos
  · omega
  · have hbig := h.first (q - 1) (by omega)
    rw [Nat.sub_add_cancel hpos] at hbig
    have hmul := (Nat.le_div_iff_mul_le hpos).mp hbig
    omega

/-- A number that fits a field is read back from it. -/
theorem get_ofNat_of_lt {width x : Nat} (hw : width ≤ 32)
    (hx : x < 2 ^ width) :
    (BitField.get 0 width (BitVec.ofNat 32 x)).toNat = x := by
  have hx32 : x < 2 ^ 32 :=
    Nat.lt_of_lt_of_le hx (Nat.pow_le_pow_right (by decide) hw)
  have hval : (BitVec.ofNat 32 x).toNat = x := by
    rw [BitVec.toNat_ofNat, Nat.mod_eq_of_lt hx32]
  rw [BitField.get_zero_of_lt hw (by rw [hval]; exact hx), hval]

/-- What the search stores fits exactly when the prescaler and the active
cycles do. -/
theorem fieldsFit_iff (hp : 10 < periodNs) (hlt : periodNs < 2 ^ 31)
    (hd : 0 ≤ dutyNs) (hle : dutyNs ≤ periodNs) :
    FieldsFit dutyNs periodNs
        (searchDividers (clockRate periodNs) periodNs) ↔
      ¬ NeedsPrescale256 periodNs ∧
        ¬ (dutyNs = periodNs ∧ FullPeriod periodNs) := by
  obtain ⟨q, hfit, heq⟩ := search_spec hp hlt
  have hneeds := hfit.needs_iff.trans (needsPrescale_iff hp hlt)
  have hfull := hfit.full_iff
  have hq := hfit.lt
  have hx : 0 < clockCycles periodNs / 2 ^ clockDivider periodNs :=
    Nat.div_pos (clockCycles_pos hp) (Nat.two_pow_pos _)
  have hpos := hfit.pos hx
  have hfits := hfit.fits
  have hduty : dutyNs.toNat ≤ periodNs.toNat := by omega
  have hsame := active_full_iff hpos (show 0 < periodNs.toNat by omega) hduty
  have hactive := active_le
    (e := clockCycles periodNs / 2 ^ clockDivider periodNs / (q + 1)) hduty
  unfold FullPeriod
  rw [heq, ← hneeds, ← hfull]
  constructor
  · intro h
    have hpre : q < 256 := h.prescale
    have hact := h.active
    rw [activeCycles_eq hfits hd hle hlt] at hact
    simp only [pwmActCyclesWidth] at hact
    refine ⟨by omega, fun hedge => ?_⟩
    have hall := hsame.mpr (by omega)
    omega
  · intro h
    refine ⟨hfits, ?_, ?_, ?_, ?_⟩
    · have hdiv : clockDivider periodNs ≤ 2 := by
        unfold clockDivider
        split_ifs <;> decide
      simp only [pwmDivMWidth]
      omega
    · have hne := h.1
      simp only [pwmPrescalWidth]
      omega
    · rw [activeCycles_eq hfits hd hle hlt]
      simp only [pwmActCyclesWidth]
      by_contra hbig
      have hall := hsame.mp (by omega)
      exact h.2 ⟨by omega, by omega⟩
    · simp only [pwmPeriodCyclesWidth]
      rw [if_neg (by omega)]
      omega

/-- Fields that fit decode to the period and the duty cycle. -/
theorem config_decodes (cfg : SunxiPwmConfig) (sel : Channel) (regs : Regs)
    (hp : 10 < periodNs) (hlt : periodNs < 2 ^ 31) (hd : 0 ≤ dutyNs)
    (hle : dutyNs ≤ periodNs)
    (hstore : FieldsFit dutyNs periodNs
      (searchDividers (clockRate periodNs) periodNs)) :
    Decodes dutyNs periodNs
      (waveform (sunxiPwmConfigSingle cfg sel dutyNs periodNs regs) sel) := by
  obtain ⟨q, hfit, heq⟩ := search_spec hp hlt
  have hx : 0 < clockCycles periodNs / 2 ^ clockDivider periodNs :=
    Nat.div_pos (clockCycles_pos hp) (Nat.two_pow_pos _)
  have hpos := hfit.pos hx
  have hfits := hfit.fits
  have hduty : dutyNs.toNat ≤ periodNs.toNat := by omega
  have hsame := active_full_iff hpos (show 0 < periodNs.toNat by omega) hduty
  have hentire : (if clockCycles periodNs / 2 ^ clockDivider periodNs / (q + 1)
        = 0 then 1
      else clockCycles periodNs / 2 ^ clockDivider periodNs / (q + 1)) - 1 + 1
      = clockCycles periodNs / 2 ^ clockDivider periodNs / (q + 1) := by
    rw [if_neg (by omega)]
    omega
  have hdivM : (BitVec.ofNat 32 (clockDivider periodNs)).toNat
      = clockDivider periodNs := by
    rw [BitVec.toNat_ofNat]
    unfold clockDivider
    split_ifs <;> decide
  have hprescale := get_ofNat_of_lt (by decide) hstore.prescale
  have hactive := get_ofNat_of_lt (by decide) hstore.active
  have hperiod := get_ofNat_of_lt (by decide) hstore.entire
  rw [heq] at hprescale hactive hperiod
  rw [activeCycles_eq hfits hd hle hlt] at hactive
  rw [configSingle_own]
  unfold configOwn
  rw [if_neg (by omega), if_pos (by omega), heq]
  dsimp only at hprescale hperiod ⊢
  constructor
  · refine ⟨2 ^ clockDivider periodNs, ?_, ?_⟩
    · rw [hdivM]
      exact clockDivider_mem periodNs
    · dsimp only
      rw [hprescale, hperiod, hentire, Nat.div_div_eq_div_mul]
      have hsum := Nat.div_add_mod' (clockCycles periodNs)
        (2 ^ clockDivider periodNs * (q + 1))
      have hm : 0 < 2 ^ clockDivider periodNs * (q + 1) :=
        Nat.mul_pos (Nat.two_pow_pos _) (Nat.succ_pos q)
      have hmod := Nat.mod_lt (clockCycles periodNs) hm
      constructor
      · exact Nat.div_mul_le_self _ _
      · exact Nat.sub_lt_left_of_lt_add (Nat.div_mul_le_self _ _) (by omega)
  · dsimp only
    rw [activeCycles_eq hfits hd hle hlt, hactive, hperiod, hentire]
  · dsimp only
    rw [activeCycles_eq hfits hd hle hlt, hactive, hperiod, hentire, hsame]
    omega

/-- The encoding holds unless the search needs a prescaler of 256, or the
duty cycle is a period of 65536 cycles. -/
theorem encodes_iff (cfg : SunxiPwmConfig) (sel : Channel) (regs : Regs)
    (hp : 10 < periodNs) (hlt : periodNs ≤ 2 ^ 31 - 1) (hd : 0 ≤ dutyNs)
    (hle : dutyNs ≤ periodNs) :
    Encodes cfg sel regs dutyNs periodNs ↔
      ¬ NeedsPrescale256 periodNs ∧
        ¬ (dutyNs = periodNs ∧ FullPeriod periodNs) := by
  have hlt' : periodNs < 2 ^ 31 := by omega
  rw [← fieldsFit_iff hp hlt' hd hle]
  constructor
  · intro h
    exact h.fits
  · intro h
    exact ⟨h, config_decodes cfg sel regs hp hlt' hd hle h,
      config_keeps cfg sel regs dutyNs hp h⟩

/-- One millisecond, half of it active. -/
theorem encodes_millisecond :
    Encodes plainConfig 0 (fun _ => 0) 500000 1000000 ↔
      ¬ NeedsPrescale256 1000000 ∧
        ¬ ((500000 : Int) = 1000000 ∧ FullPeriod 1000000) :=
  encodes_iff _ _ _ (by decide) (by decide) (by decide) (by decide)

/-- A period of 0.7 s sets the active state bit, and a full duty cycle of
65536 cycles is stored as none. -/
theorem encodes_fails :
    ¬ Encodes plainConfig 0 (fun _ => 0) 0 700000000 ∧
      ¬ Encodes plainConfig 0 (fun _ => 0) 2730667 2730667 := by
  constructor
  · intro h
    have hbit := h.kept.pcr 8 (by decide) (by decide)
    revert hbit
    decide +kernel
  · intro h
    have hfull := h.decodes.full.mpr rfl
    revert hfull
    decide +kernel

end LonganPi.Pwm
