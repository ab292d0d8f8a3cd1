import LonganPi.Pwm.KeptFields

/-!
# Which states a call accepts

`sunxi_pwm_apply` hands the 64-bit period and duty cycle on as `int`.
`sunxi_pwm_config` drops the result of the configuration, and only the
enable can still fail.

* `AcceptsSoundly` says that a call divides by no zero, and that it fails or
  has searched with the whole values and left registers that encode them.
* `configResult_eq` is the result that is dropped, and `divides_iff` says
  when the last division is one by zero.
* `decodes_iff` and `pairProgrammed_iff` say when the registers encode a
  period and a duty cycle, without and with a partner.
* `acceptsSoundly_iff` is the condition on the state and the old registers.
-/

namespace LonganPi.Pwm

variable {cfg : SunxiPwmConfig} {sel bind : Channel} {env : ApplyEnv}
  {old st : PwmState} {regs regs' : Regs} {dutyNs periodNs : Int}
  {uninit : Nat}

/-! ## What a call promises -/

/-- The result of the configuration that `sunxi_pwm_config` drops. -/
def configResult (cfg : SunxiPwmConfig) (sel : Channel) (uninit : Nat)
    (dutyNs periodNs : Int) (regs : Regs) : Int :=
  match cfg.bindPwm with
  | none => 0
  | some bind =>
    (sunxiPwmConfigDual cfg sel bind uninit dutyNs periodNs regs).2

/-- The divisor of `do_div(c, period_ns)`, when the configuration gets there.
The other divisors are constants of the source or a loop counter plus one. -/
def configDivisor (cfg : SunxiPwmConfig) (sel : Channel) (uninit : Nat)
    (dutyNs periodNs : Int) (regs : Regs) : Option Nat :=
  if Bypassed periodNs then none
  else if configResult cfg sel uninit dutyNs periodNs regs < 0 then none
  else some (u32OfInt periodNs)

/-- The duty cycle and the period with which the configuration gets to its
search.  A period of up to 10 ns has none, and neither has a pair whose duty
cycle is shorter than the dead zone. -/
def searchArgs (cfg : SunxiPwmConfig) (dutyNs periodNs : Int) :
    Option (Int × Int) :=
  if Bypassed periodNs then none
  else if cfg.bindPwm ≠ none ∧ u32OfInt dutyNs < cfg.deadTime.toNat then none
  else some (dutyNs, periodNs)

/-- `sunxi_pwm_pin_set_state` returns 0 or a negative error. -/
def PinStatesKnown (env : ApplyEnv) : Prop :=
  env.enableOwn.pinState ≤ 0 ∧ env.enableBound.pinState ≤ 0

/-- The registers of a pair encode the period and the duty cycle.  Channel 8
has no dead zone, so it has none to share. -/
structure PairProgrammed (regs : Regs) (sel bind : Channel)
    (uninit deadTime : Nat) (dutyNs periodNs : Int) : Prop where
  zoned : sel ≠ 8
  holds : HoldsChoice regs sel bind uninit deadTime dutyNs periodNs
  source : ∀ o, o = sel ∨ o = bind →
    sourceField regs o = (clockSource periodNs).toNat

/-- The registers encode the period and the duty cycle. -/
def Programmed (cfg : SunxiPwmConfig) (sel : Channel) (uninit : Nat)
    (dutyNs periodNs : Int) (regs : Regs) : Prop :=
  match cfg.bindPwm with
  | none => Decodes dutyNs periodNs (waveform regs sel) ∧
      sourceField regs sel = (clockSource periodNs).toNat
  | some bind =>
    PairProgrammed regs sel bind uninit cfg.deadTime.toNat dutyNs periodNs

/-- The call has searched with the period and the duty cycle of the state,
and the registers encode them when it returns. -/
structure Configured (cfg : SunxiPwmConfig) (sel : Channel) (env : ApplyEnv)
    (old st : PwmState) (regs : Regs) : Prop where
  result : configResult cfg sel env.uninit (intOfU64 st.dutyCycle)
    (intOfU64 st.period) (applyPolarity cfg sel env old st regs).1 = 0
  searched : searchArgs cfg (intOfU64 st.dutyCycle) (intOfU64 st.period)
    = some ((st.dutyCycle.toNat : Int), (st.period.toNat : Int))
  programmed : Programmed cfg sel env.uninit st.dutyCycle.toNat
    st.period.toNat (sunxiPwmApply cfg sel env old st regs).1

/-- The call divides by no zero, and it returns an error or has configured
the channel from the period and the duty cycle of the state. -/
structure AcceptsSoundly (cfg : SunxiPwmConfig) (sel : Channel)
    (env : ApplyEnv) (old st : PwmState) (regs : Regs) : Prop where
  divides : configDivisor cfg sel env.uninit (intOfU64 st.dutyCycle)
    (intOfU64 st.period) (applyPolarity cfg sel env old st regs).1 ≠ some 0
  accepts : (sunxiPwmApply cfg sel env old st regs).2 < 0 ∨
    (sunxiPwmApply cfg sel env old st regs).2 = 0 ∧
      Configured cfg sel env old st regs

/-! ## The condition -/

/-- The lookups of an enable succeed. -/
def EnableFound (cfg : SunxiPwmConfig) (env : ApplyEnv) : Prop :=
  match cfg.bindPwm with
  | none => env.enableOwn.Found
  | some _ => env.enableOwn.Found ∧ env.enableBound.Found

/-- The period and the duty cycle fit the registers. -/
def ConfigFits (cfg : SunxiPwmConfig) (sel : Channel) (uninit : Nat)
    (st : PwmState) (regs : Regs) : Prop :=
  match cfg.bindPwm with
  | none => ¬ NeedsPrescale256 st.period.toNat ∧
      ¬ ((st.dutyCycle.toNat : Int) = st.period.toNat ∧
        FullPeriod st.period.toNat)
  | some bind => sel ≠ 8 ∧ cfg.deadTime.toNat ≤ st.dutyCycle.toNat ∧
      ∃ m, FoundFits sel bind uninit cfg.deadTime.toNat st.dutyCycle.toNat
        st.period.toNat regs m

/-- No division by zero: the `int` of the period is not 0, or the dead zone
is an error before the division. -/
def NoZeroDivisor (cfg : SunxiPwmConfig) (st : PwmState) : Prop :=
  st.period.toNat % 2 ^ 32 ≠ 0 ∨
    cfg.bindPwm ≠ none ∧ st.dutyCycle.toNat % 2 ^ 32 < cfg.deadTime.toNat

/-! ## The result of the configuration -/

/-- What the configuration returns. -/
theorem configResult_eq (cfg : SunxiPwmConfig) (sel : Channel) (uninit : Nat)
    (dutyNs periodNs : Int) (regs : Regs) :
    configResult cfg sel uninit dutyNs periodNs regs =
      if cfg.bindPwm = none then 0
      else if u32OfInt dutyNs < cfg.deadTime.toNat then eInval
      else if Bypassed periodNs then 0
      else if DualFit (clockRate periodNs)
          (clockRate periodNs * u64OfInt periodNs % 2 ^ 64 / 1000000000)
          cfg.deadTime.toNat 257 then 0
      else eInval := by
  unfold configResult
  cases hbind : cfg.bindPwm with
  | none => rfl
  | some bind =>
    have hzone := deadZone_enabled regs (getPdzcrRegOffset sel uninit)
    simp only [reduceCtorEq, if_false]
    unfold sunxiPwmConfigDual
    simp only [hzone, or_false]
    by_cases hdead : u32OfInt dutyNs < cfg.deadTime.toNat
    · rw [if_pos hdead, if_pos hdead]
    · rw [if_neg hdead, if_neg hdead]
      by_cases hbypass : Bypassed periodNs
      · have hbypass' : 0 < periodNs ∧ periodNs ≤ 10 := hbypass
        rw [if_pos hbypass, if_pos hbypass']
      · have hbypass' : ¬ (0 < periodNs ∧ periodNs ≤ 10) := hbypass
        have hclk : (if 10 < periodNs ∧ periodNs ≤ 334
            then ((100000000, 1) : Nat × BitVec 32)
            else if 334 < periodNs then (24000000, 0) else (0, 0)).1
            = clockRate periodNs := by
          unfold clockRate
          split_ifs <;> rfl
        have hfound := prescaleLoopDual_found (clockRate periodNs)
          (clockRate periodNs * u64OfInt periodNs % 2 ^ 64 / 1000000000)
          cfg.deadTime.toNat (prescaleMax + 1) 0
          (clockRate periodNs * u64OfInt periodNs % 2 ^ 64 / 1000000000) 0
        rw [if_neg hbypass, if_neg hbypass']
        simp only [hclk]
        by_cases hfit : DualFit (clockRate periodNs)
            (clockRate periodNs * u64OfInt periodNs % 2 ^ 64 / 1000000000)
            cfg.deadTime.toNat 257
        · rw [if_pos hfit, if_neg (by
            rw [hfound.mpr ⟨by decide, hfit⟩]
            decide)]
        · rw [if_neg hfit, if_pos (by
            rw [← Bool.not_eq_true, hfound]
            exact fun h => hfit h.2)]

/-! ## What is returned -/

theorem enodev_neg : eNodev < 0 := by decide

theorem enableSingle_ret (l : PinLookups) (sel : Channel) (regs : Regs)
    (hpin : l.pinState ≤ 0) :
    (sunxiPwmEnableSingle l sel regs).2 < 0 ∧ ¬ l.Found ∨
      (sunxiPwmEnableSingle l sel regs).2 = 0 ∧ l.Found := by
  unfold sunxiPwmEnableSingle PinLookups.Found
  split_ifs with hphandle hdevice hstate
  · exact Or.inl ⟨enodev_neg, by simp [hphandle]⟩
  · exact Or.inl ⟨enodev_neg, by simp [hdevice]⟩
  · exact Or.inl ⟨by dsimp only; omega, by simp [hstate]⟩
  · simp only [ne_eq, Decidable.not_not] at hstate
    simp only [Bool.not_eq_false] at hphandle hdevice
    exact Or.inr ⟨rfl, hphandle, hdevice, hstate⟩

theorem enableDual_ret (l0 l1 : PinLookups) (sel bind : Channel)
    (regs : Regs) (h0 : l0.pinState ≤ 0) (h1 : l1.pinState ≤ 0) :
    (sunxiPwmEnableDual l0 l1 sel bind regs).2 < 0 ∧ ¬ (l0.Found ∧ l1.Found) ∨
      (sunxiPwmEnableDual l0 l1 sel bind regs).2 = 0 ∧
        l0.Found ∧ l1.Found := by
  unfold sunxiPwmEnableDual PinLookups.Found
  split_ifs with hown hbound hstate0 hstate1
  · refine Or.inl ⟨enodev_neg, fun h => ?_⟩
    simp [h.1.1, h.1.2.1] at hown
  · refine Or.inl ⟨enodev_neg, fun h => ?_⟩
    simp [h.2.1, h.2.2.1] at hbound
  · exact Or.inl ⟨by dsimp only; omega, fun h => hstate0 h.1.2.2⟩
  · exact Or.inl ⟨by dsimp only; omega, fun h => hstate1 h.2.2.2⟩
  · simp only [not_or, Bool.not_eq_false] at hown hbound
    simp only [ne_eq, Decidable.not_not] at hstate0 hstate1
    exact Or.inr ⟨rfl, ⟨hown.1, hown.2, hstate0⟩,
      ⟨hbound.1, hbound.2, hstate1⟩⟩

/-- An enable fails exactly when a lookup does. -/
theorem enable_ret (cfg : SunxiPwmConfig) (sel : Channel) (regs : Regs)
    (hpin : PinStatesKnown env) :
    (sunxiPwmEnable cfg sel env regs).2 < 0 ∧ ¬ EnableFound cfg env ∨
      (sunxiPwmEnable cfg sel env regs).2 = 0 ∧ EnableFound cfg env := by
  unfold sunxiPwmEnable EnableFound
  cases cfg.bindPwm with
  | none => exact enableSingle_ret _ sel regs hpin.1
  | some bind => exact enableDual_ret _ _ sel bind regs hpin.1 hpin.2

/-- A call that enables the channel fails exactly when its enable does. -/
theorem apply_ret (cfg : SunxiPwmConfig) (sel : Channel) (old : PwmState)
    (regs : Regs) (hpin : PinStatesKnown env) (hon : st.enabled = true) :
    (sunxiPwmApply cfg sel env old st regs).2 < 0 ∧
        ¬ KeepsRunning old st ∧ ¬ EnableFound cfg env ∨
      (sunxiPwmApply cfg sel env old st regs).2 = 0 ∧
        (KeepsRunning old st ∨ EnableFound cfg env) := by
  have hkeeps : (applyPolarity cfg sel env old st regs).2
      = decide (KeepsRunning old st) := applyPolarity_enabled
  unfold sunxiPwmApply
  simp only [hon, Bool.true_eq_false, if_false, hkeeps]
  by_cases hrun : KeepsRunning old st
  · rw [if_neg (by simp [hrun])]
    exact Or.inr ⟨rfl, Or.inl hrun⟩
  · rw [if_pos (by simp [hrun])]
    rcases enable_ret cfg sel _ hpin with ⟨hfail, hnot⟩ | ⟨hok, hfound⟩
    · exact Or.inl ⟨hfail, hrun, hnot⟩
    · exact Or.inr ⟨hok, Or.inr hfound⟩

/-- The last division is one by zero exactly when the `int` of the period is
0 and the configuration gets there. -/
theorem divides_iff (cfg : SunxiPwmConfig) (sel : Channel) (uninit : Nat)
    (st : PwmState) (regs : Regs) :
    configDivisor cfg sel uninit (intOfU64 st.dutyCycle)
        (intOfU64 st.period) regs ≠ some 0 ↔ NoZeroDivisor cfg st := by
  unfold configDivisor NoZeroDivisor
  by_cases hzero : st.period.toNat % 2 ^ 32 = 0
  · have hint : intOfU64 st.period = 0 := by
      rw [intOfU64_eq, if_pos (by omega)]
      omega
    have hbypass : ¬ Bypassed 0 := by decide
    rw [hint, if_neg hbypass, configResult_eq, u32OfInt_intOfU64]
    by_cases hbind : cfg.bindPwm = none
    · rw [if_pos hbind]
      exact iff_of_false (by simp [u32OfInt]) fun h =>
        h.elim (fun h => h hzero) fun h => h.1 hbind
    · by_cases hdead : st.dutyCycle.toNat % 2 ^ 32 < cfg.deadTime.toNat
      · rw [if_neg hbind, if_pos hdead, if_pos (by decide)]
        exact iff_of_true (by simp) (Or.inr ⟨hbind, hdead⟩)
      · have hfit : DualFit (clockRate 0)
            (clockRate 0 * u64OfInt 0 % 2 ^ 64 / 1000000000)
            cfg.deadTime.toNat 257 := by
          have hclk : clockRate 0 = 0 := by decide
          rw [hclk]
          simp [DualFit]
        rw [if_neg hbind, if_neg hdead, if_neg hbypass, if_pos hfit]
        exact iff_of_false (by simp [u32OfInt]) fun h =>
          h.elim (fun h => h hzero) fun h => hdead h.2
  · refine iff_of_true ?_ (Or.inl hzero)
    split_ifs
    · simp
    · simp
    · rw [u32OfInt_intOfU64]
      simpa using hzero

/-! ## What the registers encode -/

theorem divM_eq_field (regs : Regs) (o : Channel) :
    (waveform regs o).divM.toNat = divMField regs o := by
  unfold divMField
  rw [getBits_eq]
  rfl

theorem prescale_eq_field (regs : Regs) (o : Channel) :
    (waveform regs o).prescale.toNat = prescalField regs o := by
  unfold prescalField
  rw [getBits_eq]
  rfl

theorem periodCycles_eq_field (regs : Regs) (o : Channel) :
    (waveform regs o).periodCycles.toNat = periodField regs o := by
  unfold periodField
  rw [getBits_eq]
  rfl

theorem activeCycles_eq_field (regs : Regs) (o : Channel) :
    (waveform regs o).activeCycles.toNat = activeField regs o := by
  unfold activeField
  rw [getBits_eq]
  rfl

theorem source_eq_field (regs : Regs) (o : Channel) :
    (waveform regs o).source.toNat = sourceField regs o := by
  unfold sourceField
  rw [getBits_eq]
  rfl

/-- The encoding is read from the fields of the configuration. -/
theorem KeepsFields.decodes (h : KeepsFields regs regs') :
    Decodes dutyNs periodNs (waveform regs' sel) ↔
      Decodes dutyNs periodNs (waveform regs sel) := by
  have hdivM : (waveform regs' sel).divM.toNat
      = (waveform regs sel).divM.toNat := by
    rw [divM_eq_field, divM_eq_field, h.divM]
  have hprescale : (waveform regs' sel).prescale.toNat
      = (waveform regs sel).prescale.toNat := by
    rw [prescale_eq_field, prescale_eq_field, h.prescal]
  have hperiod : (waveform regs' sel).periodCycles.toNat
      = (waveform regs sel).periodCycles.toNat := by
    rw [periodCycles_eq_field, periodCycles_eq_field, h.period]
  have hactive : (waveform regs' sel).activeCycles.toNat
      = (waveform regs sel).activeCycles.toNat := by
    rw [activeCycles_eq_field, activeCycles_eq_field, h.active]
  constructor
  · rintro ⟨hdivided, hratio, hfull⟩
    rw [hdivM, hprescale, hperiod] at hdivided
    rw [hactive, hperiod] at hratio hfull
    exact ⟨hdivided, hratio, hfull⟩
  · rintro ⟨hdivided, hratio, hfull⟩
    rw [← hdivM, ← hprescale, ← hperiod] at hdivided
    rw [← hactive, ← hperiod] at hratio hfull
    exact ⟨hdivided, hratio, hfull⟩

theorem KeepsFields.decodesChoice {deadTime reg preDiv prescale : Nat}
    {o : Channel} (h : KeepsFields regs regs')
    (hc : DecodesChoice regs o uninit deadTime dutyNs periodNs reg preDiv
      prescale) :
    DecodesChoice regs' o uninit deadTime dutyNs periodNs reg preDiv
      prescale where
  divM := (h.divM o).trans hc.divM
  prescal := (h.prescal o).trans hc.prescal
  period := by
    rw [h.period]
    exact hc.period
  active := (h.active o).trans hc.active
  zone ho := (h.zone o uninit ho).trans (hc.zone ho)

theorem KeepsFields.pairProgrammed {deadTime : Nat}
    (h : KeepsFields regs regs')
    (hp : PairProgrammed regs sel bind uninit deadTime dutyNs periodNs) :
    PairProgrammed regs' sel bind uninit deadTime dutyNs periodNs := by
  obtain ⟨hsel, ⟨reg, preDiv, prescale, hfits, hboth⟩, hsource⟩ := hp
  refine ⟨hsel, ⟨reg, preDiv, prescale, hfits, fun o ho => ?_⟩,
    fun o ho => ?_⟩
  · exact h.decodesChoice (hboth o ho)
  · rw [h.source]
    exact hsource o ho

theorem KeepsFields.programmed (h : KeepsFields regs regs') :
    Programmed cfg sel uninit dutyNs periodNs regs' ↔
      Programmed cfg sel uninit dutyNs periodNs regs := by
  unfold Programmed
  cases cfg.bindPwm with
  | none =>
    dsimp only
    rw [h.decodes, h.source]
  | some bind => exact ⟨h.symm.pairProgrammed, h.pairProgrammed⟩

/-- What the search needs of the old registers is among the fields. -/
theorem KeepsFields.foundFits {deadTime m : Nat} (h : KeepsFields regs regs')
    (hf : FoundFits sel bind uninit deadTime dutyNs periodNs regs m) :
    FoundFits sel bind uninit deadTime dutyNs periodNs regs' m where
  first := hf.first
  prescal := hf.prescal
  zone := hf.zone
  active := hf.active
  divM := by
    rw [h.divM]
    exact hf.divM
  bound := by
    rw [h.divM, h.divM]
    exact hf.bound
  boundZone := by
    by_cases hbind : bind = 8
    · exact Or.inl hbind
    · rw [h.zone bind uninit hbind]
      exact hf.boundZone

/-- Without a partner the registers encode the values unless the search needs
a prescaler of 256, or the duty cycle is a period of 65536 cycles. -/
theorem decodes_iff (cfg : SunxiPwmConfig) (sel : Channel) (regs : Regs)
    (hp : 10 < periodNs) (hlt : periodNs < 2 ^ 31) (hd : 0 ≤ dutyNs)
    (hle : dutyNs ≤ periodNs) :
    Decodes dutyNs periodNs
        (waveform (sunxiPwmConfigSingle cfg sel dutyNs periodNs regs) sel) ↔
      ¬ NeedsPrescale256 periodNs ∧
        ¬ (dutyNs = periodNs ∧ FullPeriod periodNs) := by
  rw [← fieldsFit_iff hp hlt hd hle]
  refine ⟨fun h => ?_, config_decodes cfg sel regs hp hlt hd hle⟩
  obtain ⟨q, hfit, heq⟩ := search_spec hp hlt
  have hx : 0 < clockCycles periodNs / 2 ^ clockDivider periodNs :=
    Nat.div_pos (clockCycles_pos hp) (Nat.two_pow_pos _)
  have hpos := hfit.pos hx
  have hfits := hfit.fits
  have hdivBound : clockDivider periodNs ≤ 2 := by
    unfold clockDivider
    split_ifs <;> decide
  have hentire : (if clockCycles periodNs / 2 ^ clockDivider periodNs / (q + 1)
        = 0 then 1
      else clockCycles periodNs / 2 ^ clockDivider periodNs / (q + 1)) - 1
      = clockCycles periodNs / 2 ^ clockDivider periodNs / (q + 1) - 1 := by
    rw [if_neg (by omega)]
  have hroom : clockCycles periodNs / 2 ^ clockDivider periodNs / (q + 1) - 1
      < 2 ^ pwmPeriodCyclesWidth := by
    simp only [pwmPeriodCyclesWidth]
    omega
  rw [configSingle_own] at h
  unfold configOwn at h
  rw [if_neg (by omega), if_pos (by omega), heq] at h
  obtain ⟨⟨div, hmem, hbelow, habove⟩, hactive, -⟩ := h
  dsimp only at hmem hbelow habove hactive
  have hdivM : (BitVec.ofNat 32 (clockDivider periodNs)).toNat
      = clockDivider periodNs := by
    rw [BitVec.toNat_ofNat, Nat.mod_eq_of_lt (by omega)]
  rw [hdivM] at hmem
  obtain ⟨-, rfl⟩ := mem_preScal_iff.mp hmem
  rw [hentire, get_ofNat_of_lt (by decide) hroom,
    Nat.sub_add_cancel hpos] at hbelow habove hactive
  rw [activeCycles_eq hfits hd hle hlt] at hactive
  rw [heq]
  refine ⟨hfits, ?_, ?_, ?_, ?_⟩
  · simp only [pwmDivMWidth]
    omega
  · -- A prescaler of 256 reads as 0, which leaves too many cycles.
    show q < 2 ^ pwmPrescalWidth
    by_contra hbig
    have hlast := hfit.lt
    simp only [pwmPrescalWidth] at hbig
    obtain rfl : q = 256 := by omega
    have hzero : (BitField.get 0 pwmPrescalWidth (BitVec.ofNat 32 256)).toNat
        = 0 := by decide
    rw [hzero, Nat.zero_add, Nat.mul_one] at habove
    have hmul := Nat.div_add_mod' (clockCycles periodNs)
      (2 ^ clockDivider periodNs)
    have hless : clockCycles periodNs / 2 ^ clockDivider periodNs / (256 + 1)
        < clockCycles periodNs / 2 ^ clockDivider periodNs :=
      Nat.div_lt_self hx (by decide)
    have hnext : (clockCycles periodNs / 2 ^ clockDivider periodNs / (256 + 1)
          + 1) * 2 ^ clockDivider periodNs
        ≤ clockCycles periodNs / 2 ^ clockDivider periodNs
          * 2 ^ clockDivider periodNs := Nat.mul_le_mul_right _ hless
    rw [Nat.add_mul, Nat.one_mul] at hnext
    omega
  · show activeCycles _ dutyNs periodNs < 2 ^ pwmActCyclesWidth
    rw [activeCycles_eq hfits hd hle hlt, ← hactive]
    exact BitField.toNat_get_lt (by decide)
  · show (if _ then _ else _) - 1 < _
    rw [hentire]
    exact hroom

theorem sourceField_configSingle (cfg : SunxiPwmConfig) (sel : Channel)
    (regs : Regs) (dutyNs : Int) (hp : 10 < periodNs) :
    sourceField (sunxiPwmConfigSingle cfg sel dutyNs periodNs regs) sel
      = (clockSource periodNs).toNat := by
  rw [← source_eq_field, configSingle_own]
  unfold configOwn
  rw [if_neg (by omega), if_pos (by omega)]

/-- The writes after the search keep the source that was selected. -/
theorem sourceField_found {o : Channel} (regs : Regs) (uninit deadTime m : Nat)
    (dutyNs periodNs : Int) (hsel : sel ≠ 8) (ho : o = sel ∨ o = bind) :
    sourceField (foundRegs sel bind uninit deadTime dutyNs periodNs m regs) o
      = (clockSource periodNs).toNat := by
  have hzone := (pdzcr_ne hsel uninit o).1.symm
  have hsrc : (clockSource periodNs).toNat < 2 ^ pwmClkSrcWidth := by
    unfold clockSource
    split_ifs <;> decide
  unfold sourceField foundRegs writeDual selectDual
  rw [writeField_of_ne _ _ _ _ hzone,
    writeBoth_of_ne _ _ _ _ (pccr_ne_ppr o sel) (pccr_ne_ppr o bind),
    writeBoth_of_ne _ _ _ _ (pccr_ne_ppr o sel) (pccr_ne_ppr o bind),
    writeBoth_of_ne _ _ _ _ (pccr_ne_pcr o sel) (pccr_ne_pcr o bind),
    writeBoth_self _ _ _ _ (offset_or getPccrRegOffset ho),
    writeBoth_self _ _ _ _ (offset_or getPccrRegOffset ho), getBits_eq,
    BitField.get_set_of_lt (by decide) (by decide) (by decide) (by decide),
    BitField.get_set_self_of_lt (by decide) hsrc]

/-- A pair is programmed when what its search finds fits the fields. -/
theorem pairProgrammed_iff (bind : Channel) (uninit : Nat) (regs : Regs)
    (hsel : sel ≠ 8) (hp : 10 < periodNs) (hlt : periodNs < 2 ^ 31)
    (hle : dutyNs ≤ periodNs) (hdead : (cfg.deadTime.toNat : Int) ≤ dutyNs)
    (hfit : DualFit (clockRate periodNs) (clockCycles periodNs)
      cfg.deadTime.toNat 257) :
    PairProgrammed (sunxiPwmConfigDual cfg sel bind uninit dutyNs periodNs
        regs).1 sel bind uninit cfg.deadTime.toNat dutyNs periodNs ↔
      ∃ m, FoundFits sel bind uninit cfg.deadTime.toNat dutyNs periodNs regs
        m := by
  obtain ⟨m, hm, hfirst, heq⟩ := configDual_found sel bind uninit regs hp hlt
    hle hdead hfit
  rw [heq]
  constructor
  · intro h
    exact ⟨m, foundFits_of_holds uninit regs hsel hp hlt hle hdead hm hfirst
      h.holds⟩
  · rintro ⟨m', hfound⟩
    obtain rfl := hfirst.unique hfound.first
    exact ⟨hsel, holds_of_foundFits uninit regs hsel hp hlt hle hdead hfound,
      fun o ho => sourceField_found regs uninit _ _ _ _ hsel ho⟩

/-- What fits the fields fits the last prescaler that is tried. -/
theorem FoundFits.dualFit {deadTime m : Nat}
    (h : FoundFits sel bind uninit deadTime dutyNs periodNs regs m) :
    DualFit (clockRate periodNs) (clockCycles periodNs) deadTime 257 := by
  have hfew : m ≤ 256 := h.prescal
  exact h.first.fits.mono h.first.pos (by omega)

/-! ## The exact condition -/

section Whole

variable (hp : 10 < st.period.toNat) (hlt : st.period.toNat < 2 ^ 31)
  (hduty : st.dutyCycle.toNat ≤ st.period.toNat)

include hp hlt hduty

/-- The search is given the whole values, unless the dead zone is refused. -/
theorem searchArgs_iff :
    searchArgs cfg (intOfU64 st.dutyCycle) (intOfU64 st.period)
        = some ((st.dutyCycle.toNat : Int), (st.period.toNat : Int)) ↔
      (cfg.bindPwm ≠ none → cfg.deadTime.toNat ≤ st.dutyCycle.toNat) := by
  have hperiod : intOfU64 st.period = st.period.toNat :=
    (intOfU64_eq_self_iff _).mpr hlt
  have hdutyInt : intOfU64 st.dutyCycle = st.dutyCycle.toNat :=
    (intOfU64_eq_self_iff _).mpr (by omega)
  have hsearched : ¬ Bypassed (st.period.toNat : Int) := by
    unfold Bypassed
    omega
  unfold searchArgs
  rw [hperiod, hdutyInt, if_neg hsearched,
    u32OfInt_of_range (by omega) (by omega)]
  simp

/-- Without a partner. -/
theorem configured_single (sel : Channel) (old : PwmState) (regs : Regs)
    (hon : st.enabled = true) (hbind : cfg.bindPwm = none) :
    Configured cfg sel env old st regs ↔
      ConfigFits cfg sel env.uninit st regs := by
  have hkeeps := keepsFields_apply cfg sel env old regs hon
  have hperiod : intOfU64 st.period = st.period.toNat :=
    (intOfU64_eq_self_iff _).mpr hlt
  have hdutyInt : intOfU64 st.dutyCycle = st.dutyCycle.toNat :=
    (intOfU64_eq_self_iff _).mpr (by omega)
  have hprogrammed : Programmed cfg sel env.uninit st.dutyCycle.toNat
      st.period.toNat (sunxiPwmApply cfg sel env old st regs).1 ↔
      ConfigFits cfg sel env.uninit st regs := by
    rw [hkeeps.programmed, hperiod, hdutyInt]
    unfold Programmed ConfigFits sunxiPwmConfig
    rw [hbind]
    dsimp only
    rw [decodes_iff cfg sel _ (by omega) (by omega) (by omega) (by omega),
      sourceField_configSingle cfg sel _ _ (by omega)]
    exact and_iff_left rfl
  constructor
  · intro h
    exact hprogrammed.mp h.programmed
  · intro h
    refine ⟨?_, ?_, hprogrammed.mpr h⟩
    · unfold configResult
      rw [hbind]
    · rw [searchArgs_iff hp hlt hduty]
      exact fun hne => absurd hbind hne

/-- With a partner, whose result counts. -/
theorem configured_dual (sel : Channel) (old : PwmState) (regs : Regs)
    (hon : st.enabled = true) (hbind : cfg.bindPwm = some bind) :
    Configured cfg sel env old st regs ↔
      ConfigFits cfg sel env.uninit st regs := by
  have hkeeps := keepsFields_apply cfg sel env old regs hon
  have hpolarity := fun hsel : sel ≠ 8 =>
    keepsFields_applyPolarity cfg sel env old st regs fun _ => hsel
  have hperiod : intOfU64 st.period = st.period.toNat :=
    (intOfU64_eq_self_iff _).mpr hlt
  have hdutyInt : intOfU64 st.dutyCycle = st.dutyCycle.toNat :=
    (intOfU64_eq_self_iff _).mpr (by omega)
  have hcycles : clockRate st.period.toNat * u64OfInt st.period.toNat % 2 ^ 64
      / 1000000000 = clockCycles st.period.toNat := by
    apply cycles_eq (by omega) (by omega)
    unfold clockRate
    split_ifs <;> omega
  have hsearched : ¬ Bypassed (st.period.toNat : Int) := by
    unfold Bypassed
    omega
  have hresult := configResult_eq cfg sel env.uninit (intOfU64 st.dutyCycle)
    (intOfU64 st.period) (applyPolarity cfg sel env old st regs).1
  rw [if_neg (by simp [hbind]), hperiod, hdutyInt,
    u32OfInt_of_range (by omega) (by omega), if_neg hsearched,
    hcycles] at hresult
  have hregs : Programmed cfg sel env.uninit st.dutyCycle.toNat
      st.period.toNat (sunxiPwmApply cfg sel env old st regs).1 ↔
      PairProgrammed (sunxiPwmConfigDual cfg sel bind env.uninit
        st.dutyCycle.toNat st.period.toNat
        (applyPolarity cfg sel env old st regs).1).1 sel bind env.uninit
        cfg.deadTime.toNat st.dutyCycle.toNat st.period.toNat := by
    rw [hkeeps.programmed, hperiod, hdutyInt]
    unfold Programmed sunxiPwmConfig
    rw [hbind]
  have hfails : ¬ eInval = 0 := by decide
  unfold ConfigFits
  rw [hbind]
  dsimp only
  constructor
  · intro h
    have hdead := (searchArgs_iff hp hlt hduty).mp h.searched (by simp [hbind])
    have hok := h.result
    rw [hperiod, hdutyInt, hresult, if_neg (by omega)] at hok
    have hfit : DualFit (clockRate st.period.toNat)
        (clockCycles st.period.toNat) cfg.deadTime.toNat 257 := by
      by_contra hnot
      rw [if_neg hnot] at hok
      exact hfails hok
    have hpair := hregs.mp h.programmed
    have hsel := hpair.zoned
    obtain ⟨m, hfound⟩ := (pairProgrammed_iff bind env.uninit _ hsel (by omega)
      (by omega) (by omega) (by omega) hfit).mp hpair
    exact ⟨hsel, hdead, m, (hpolarity hsel).symm.foundFits hfound⟩
  · rintro ⟨hsel, hdead, m, hfound⟩
    refine ⟨?_, (searchArgs_iff hp hlt hduty).mpr fun _ => hdead, ?_⟩
    · rw [hperiod, hdutyInt, hresult, if_neg (by omega), if_pos hfound.dualFit]
    · rw [hregs, pairProgrammed_iff bind env.uninit _ hsel (by omega)
        (by omega) (by omega) (by omega) hfound.dualFit]
      exact ⟨m, (hpolarity hsel).foundFits hfound⟩

end Whole

/-- The search gets the whole values only of a period above 10 ns that is an
`int`. -/
theorem Configured.range (hpos : 0 < st.period.toNat)
    (h : Configured cfg sel env old st regs) :
    10 < st.period.toNat ∧ st.period.toNat < 2 ^ 31 := by
  have hargs := h.searched
  unfold searchArgs at hargs
  split_ifs at hargs with hshort hdead
  have hperiod : intOfU64 st.period = st.period.toNat :=
    congrArg Prod.snd (Option.some.inj hargs)
  rw [hperiod] at hshort
  unfold Bypassed at hshort
  exact ⟨by omega, (intOfU64_eq_self_iff _).mp hperiod⟩

/-- What a call with an enabled state accepts. -/
theorem acceptsSoundly_iff (cfg : SunxiPwmConfig) (sel : Channel)
    (old : PwmState) (regs : Regs) (hpin : PinStatesKnown env)
    (hon : st.enabled = true) (hpos : 0 < st.period.toNat)
    (hduty : st.dutyCycle.toNat ≤ st.period.toNat) :
    AcceptsSoundly cfg sel env old st regs ↔
      NoZeroDivisor cfg st ∧
        (¬ KeepsRunning old st ∧ ¬ EnableFound cfg env ∨
          10 < st.period.toNat ∧ st.period.toNat < 2 ^ 31 ∧
            ConfigFits cfg sel env.uninit st regs) := by
  have hret := apply_ret cfg sel old regs hpin hon
  have hdivides := divides_iff cfg sel env.uninit st
    (applyPolarity cfg sel env old st regs).1
  have hconfigured : ∀ hp : 10 < st.period.toNat,
      ∀ hlt : st.period.toNat < 2 ^ 31,
      (Configured cfg sel env old st regs ↔
        ConfigFits cfg sel env.uninit st regs) := by
    intro hp hlt
    cases hbind : cfg.bindPwm with
    | none => exact configured_single hp hlt hduty sel old regs hon hbind
    | some bind => exact configured_dual hp hlt hduty sel old regs hon hbind
  constructor
  · intro h
    refine ⟨hdivides.mp h.divides, ?_⟩
    rcases h.accepts with hfail | ⟨hok, hconfig⟩
    · rcases hret with ⟨-, hnot⟩ | ⟨hzero, -⟩
      · exact Or.inl hnot
      · omega
    · obtain ⟨hp, hlt⟩ := hconfig.range hpos
      exact Or.inr ⟨hp, hlt, (hconfigured hp hlt).mp hconfig⟩
  · intro hcond
    obtain ⟨hdiv, hcase⟩ := hcond
    refine ⟨hdivides.mpr hdiv, ?_⟩
    rcases hret with ⟨hfail, -⟩ | ⟨hok, henabled⟩
    · exact Or.inl hfail
    · rcases hcase with ⟨hnot, hlost⟩ | ⟨hp, hlt, hfits⟩
      · exact absurd henabled (not_or.mpr ⟨hnot, hlost⟩)
      · exact Or.inr ⟨hok, (hconfigured hp hlt).mpr hfits⟩

/-- One millisecond, half of it active. -/
theorem acceptsSoundly_millisecond :
    AcceptsSoundly plainConfig 0 foundEnv probedState
        ⟨1000000, 500000, .normal, true⟩ (fun _ => 0) ↔
      NoZeroDivisor plainConfig ⟨1000000, 500000, .normal, true⟩ ∧
        (¬ KeepsRunning probedState ⟨1000000, 500000, .normal, true⟩ ∧
            ¬ EnableFound plainConfig foundEnv ∨
          10 < (1000000 : BitVec 64).toNat ∧
            (1000000 : BitVec 64).toNat < 2 ^ 31 ∧
            ConfigFits plainConfig 0 foundEnv.uninit
              ⟨1000000, 500000, .normal, true⟩ (fun _ => 0)) :=
  acceptsSoundly_iff _ _ _ _ (by unfold PinStatesKnown; decide) rfl
    (by decide) (by decide)

/-- A period of `2^32` ns divides by zero, one of `2^32 + 20` ns is
configured as 20 ns, the duty cycle of a period of 5 ns is not read, and a
dead zone longer than the duty cycle is dropped. -/
theorem acceptsSoundly_fails :
    ¬ AcceptsSoundly plainConfig 0 foundEnv probedState
        ⟨0x100000000, 0, .normal, true⟩ (fun _ => 0) ∧
      ¬ AcceptsSoundly plainConfig 0 foundEnv probedState
        ⟨0x100000014, 0, .normal, true⟩ (fun _ => 0) ∧
      ¬ AcceptsSoundly plainConfig 0 foundEnv probedState
        ⟨5, 1, .normal, true⟩ (fun _ => 0) ∧
      ¬ AcceptsSoundly ⟨1000, some 1, 0⟩ 0 foundEnv probedState
        ⟨1000000, 500, .normal, true⟩ (fun _ => 0) := by
  refine ⟨fun h => ?_, fun h => ?_, fun h => ?_, fun h => ?_⟩
  · have hdiv := (divides_iff _ _ _ _ _).mp h.divides
    unfold NoZeroDivisor plainConfig at hdiv
    revert hdiv
    decide
  · rcases h.accepts with hfail | ⟨-, hconfig⟩
    · revert hfail
      decide +kernel
    · have hrange := hconfig.range (by decide)
      revert hrange
      decide
  · rcases h.accepts with hfail | ⟨-, hconfig⟩
    · revert hfail
      decide +kernel
    · have hrange := hconfig.range (by decide)
      revert hrange
      decide
  · rcases h.accepts with hfail | ⟨-, hconfig⟩
    · revert hfail
      decide +kernel
    · have hresult := hconfig.result
      revert hresult
      decide +kernel

end LonganPi.Pwm
