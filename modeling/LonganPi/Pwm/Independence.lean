import LonganPi.Pwm.Dividers
import LonganPi.Pwm.Waveform

/-!
# What a call on one channel does to the others

Each function of the driver changes the waveform of a channel with the same
clock control register in one way: the configuration gives it the source and
the divider of the other channel, and the enable opens its gate.
`applyOther` puts the steps of `sunxi_pwm_apply` together, and `apply_other`
says that the registers follow it.

The driver closes the common gate with care for the neighbour, but it writes
the common source and divider without any.  `NeighbourFits` is the condition
on the neighbour under which a call changes no other channel.
-/

namespace LonganPi.Pwm

/-- Two channels with a common clock control register. -/
def Shares (sel o : Channel) : Prop :=
  o ≠ sel ∧ getPccrRegOffset o = getPccrRegOffset sel

/-- The lookups for the pin of a channel succeed. -/
def PinLookups.Found (l : PinLookups) : Prop :=
  l.phandle = true ∧ l.device = true ∧ l.pinState = 0

instance (l : PinLookups) : Decidable l.Found := by
  unfold PinLookups.Found
  infer_instance

/-- The channel is running and keeps its polarity, so that a call does not
enable it again. -/
def KeepsRunning (old st : PwmState) : Prop :=
  old.enabled = true ∧ st.polarity = old.polarity

instance (old st : PwmState) : Decidable (KeepsRunning old st) := by
  unfold KeepsRunning
  infer_instance

/-- The period is output as it is, without dividers. -/
def Bypassed (periodNs : Int) : Prop := 0 < periodNs ∧ periodNs ≤ 10

instance (periodNs : Int) : Decidable (Bypassed periodNs) := by
  unfold Bypassed
  infer_instance

/-- What the configuration does to a channel that shares the clock. -/
def configOther (periodNs : Int) (w : Waveform) : Waveform :=
  let w := if 0 < periodNs then { w with source := clockSource periodNs } else w
  if Bypassed periodNs then w
  else { w with divM := BitVec.ofNat 32 (clockDivider periodNs) }

/-- What a call does to a channel that shares the clock. -/
def applyOther (env : ApplyEnv) (old st : PwmState) (w : Waveform) :
    Waveform :=
  if st.enabled = false then w
  else
    let w := configOther (intOfU64 st.period) w
    if ¬ KeepsRunning old st ∧ env.enableOwn.Found then
      { w with gated := w.enabled }
    else w

variable {cfg : SunxiPwmConfig} {env : ApplyEnv} {old st : PwmState}
  {regs : Regs} {sel o : Channel}

/-! ## One function at a time -/

theorem setPolaritySingle_other {polarity : PwmPolarity} (hne : o ≠ sel) :
    waveform (setPolaritySingle sel polarity regs) o = waveform regs o :=
  waveform_writePcr hne

/-- The two channels of a gate have neighbouring enable bits. -/
theorem shares_half (h : Shares sel o) :
    o.val = sel.val / 2 * 2 ∨ o.val = sel.val / 2 * 2 + 1 := by
  have hall : ∀ a b : Channel, getPccrRegOffset a = getPccrRegOffset b →
      a.val / 2 = b.val / 2 := by decide
  have := hall o sel h.2
  omega

/-- When both enable bits of a gate read 0, the neighbour is off. -/
theorem pair_off {per : BitVec 32} (h : Shares sel o)
    (hlast : getBits (sel / 2 * 2) 2 per = 0) : per.getLsbD o = false := by
  have hread : (BitField.get (sel.val / 2 * 2) 2 per).getLsbD
      (o.val - sel.val / 2 * 2) = (decide (o.val - sel.val / 2 * 2 < 2) &&
        per.getLsbD (sel.val / 2 * 2 + (o.val - sel.val / 2 * 2))) :=
    BitField.getLsbD_get (by decide)
  rw [← getBits_eq, hlast] at hread
  have hhalf := shares_half h
  rw [show sel.val / 2 * 2 + (o.val - sel.val / 2 * 2) = o.val by omega,
    decide_eq_true (by omega), Bool.true_and] at hread
  rw [← hread]
  exact BitVec.getLsbD_zero

/-- The gate of an enabled neighbour stays open. -/
theorem disableSingle_other {l : PinLookups} (hne : o ≠ sel) :
    waveform (sunxiPwmDisableSingle l sel regs) o = waveform regs o := by
  unfold sunxiPwmDisableSingle
  by_cases hlookup : l.phandle = false ∨ l.device = false
  · rw [if_pos hlookup]
  · rw [if_neg hlookup]
    dsimp only
    have hper : waveform (writeField regs pwmPer sel 0x1 0) o = waveform regs o :=
      waveform_writePer (by decide) hne
    by_cases hlast : getBits (sel / 2 * 2) 2
        (writeField regs pwmPer sel 0x1 0 pwmPer) = 0
    · rw [if_pos hlast]
      by_cases hpccr : getPccrRegOffset o = getPccrRegOffset sel
      · have hgate := waveform_writeGate
          (writeField regs pwmPer sel 0x1 0) false hpccr
        rw [Bool.and_false] at hgate
        have hgated : (waveform (writeField regs pwmPer sel 0x1 0) o).gated
            = false := by
          show (_ && _) = false
          rw [pair_off ⟨hne, hpccr⟩ hlast, Bool.false_and]
        refine Eq.trans hgate ?_
        rw [← hgated]
        exact hper
      · rw [waveform_writePccr_of_ne hpccr]
        exact hper
    · rw [if_neg hlast]
      exact hper

theorem enableSingle_other {l : PinLookups} (hne : o ≠ sel) :
    waveform (sunxiPwmEnableSingle l sel regs).1 o =
      if getPccrRegOffset o = getPccrRegOffset sel ∧ l.Found then
        { waveform regs o with gated := (waveform regs o).enabled }
      else waveform regs o := by
  have hfound : l.Found ↔
      ¬ l.phandle = false ∧ ¬ l.device = false ∧ ¬ l.pinState ≠ 0 := by
    unfold PinLookups.Found
    simp
  unfold sunxiPwmEnableSingle
  by_cases hpins : l.Found
  · obtain ⟨hphandle, hdevice, hpin⟩ := hfound.mp hpins
    rw [if_neg hphandle, if_neg hdevice, if_neg hpin]
    dsimp only
    rw [waveform_writePer (by decide) hne]
    by_cases hpccr : getPccrRegOffset o = getPccrRegOffset sel
    · have hboth : getPccrRegOffset o = getPccrRegOffset sel ∧ l.Found :=
        ⟨hpccr, hpins⟩
      rw [if_pos hboth]
      have hgate := waveform_writeGate regs true hpccr
      rw [Bool.and_true] at hgate
      exact hgate
    · have hnot : ¬ (getPccrRegOffset o = getPccrRegOffset sel ∧ l.Found) :=
        fun h => hpccr h.1
      rw [if_neg hnot, waveform_writePccr_of_ne hpccr]
  · have hnot : ¬ (getPccrRegOffset o = getPccrRegOffset sel ∧ l.Found) :=
      fun h => hpins h.2
    rw [if_neg hnot]
    rw [hfound] at hpins
    split_ifs with hphandle hdevice hpin
    · rfl
    · rfl
    · rfl
    · exact absurd ⟨hphandle, hdevice, hpin⟩ hpins

/-- The writes of the search result: only the divider is common. -/
theorem writeCycles_other {d : Dividers} {active : Nat} (hd : d.divM < 16)
    (hne : o ≠ sel) :
    waveform (writeCycles sel d active regs) o =
      if getPccrRegOffset o = getPccrRegOffset sel then
        { waveform regs o with divM := BitVec.ofNat 32 d.divM }
      else waveform regs o := by
  unfold writeCycles
  dsimp only
  rw [waveform_writePpr hne, waveform_writePpr hne, waveform_writePcr hne]
  by_cases hpccr : getPccrRegOffset o = getPccrRegOffset sel
  · have hfits : (BitVec.ofNat 32 d.divM).toNat < 16 := by
      rw [BitVec.toNat_ofNat]
      omega
    rw [if_pos hpccr, waveform_writeDivM hfits hpccr]
  · rw [if_neg hpccr, waveform_writePccr_of_ne hpccr]

/-- The choice of the clock: only the source is common. -/
theorem selectClock_other {src : BitVec 32} (hsrc : src.toNat < 4)
    (hne : o ≠ sel) :
    waveform (selectClock cfg sel src regs) o =
      if getPccrRegOffset o = getPccrRegOffset sel then
        { waveform regs o with source := src }
      else waveform regs o := by
  have hbypass : waveform (if cfg.clkBypassOutput = 1 then
      writeField regs (getPccrRegOffset sel) (regBypassShift sel) 1 1
      else regs) o = waveform regs o := by
    split_ifs with hout
    · exact waveform_writeBypass (by decide) hne
    · rfl
  unfold selectClock
  dsimp only
  by_cases hpccr : getPccrRegOffset o = getPccrRegOffset sel
  · rw [if_pos hpccr, waveform_writeSource hsrc hpccr, hbypass]
  · rw [if_neg hpccr, waveform_writePccr_of_ne hpccr, hbypass]

/-- The choice of the clock and the writes of the search result. -/
theorem dividedConfig_other {clk active : Nat} {src : BitVec 32}
    {periodNs : Int} (hrate : clockRate periodNs = clk)
    (hsource : clockSource periodNs = src) (hpos : 0 < periodNs)
    (hlt : periodNs < 2 ^ 31) (hbypass : ¬ Bypassed periodNs)
    (hne : o ≠ sel) :
    waveform (writeCycles sel (searchDividers clk periodNs) active
        (selectClock cfg sel src regs)) o =
      if getPccrRegOffset o = getPccrRegOffset sel then
        configOther periodNs (waveform regs o)
      else waveform regs o := by
  have hdiv := searchDividers_divM periodNs hlt
  have hfits := searchDividers_divM_lt clk periodNs
  have hsrc : src.toNat < 4 := by
    rw [← hsource]
    unfold clockSource
    split_ifs <;> decide
  rw [hrate] at hdiv
  by_cases hpccr : getPccrRegOffset o = getPccrRegOffset sel
  · rw [if_pos hpccr, writeCycles_other hfits hne, if_pos hpccr,
      selectClock_other hsrc hne, if_pos hpccr, hdiv]
    unfold configOther
    dsimp only
    rw [if_pos hpos, if_neg hbypass, hsource]
  · rw [if_neg hpccr, writeCycles_other hfits hne, if_neg hpccr,
      selectClock_other hsrc hne, if_neg hpccr]

theorem configSingle_other {dutyNs periodNs : Int}
    (hlt : periodNs < 2 ^ 31) (hne : o ≠ sel) :
    waveform (sunxiPwmConfigSingle cfg sel dutyNs periodNs regs) o =
      if getPccrRegOffset o = getPccrRegOffset sel then
        configOther periodNs (waveform regs o)
      else waveform regs o := by
  unfold sunxiPwmConfigSingle
  by_cases hbypass : Bypassed periodNs
  · have hsource : clockSource periodNs = 1 := by
      unfold clockSource
      rw [if_pos (by unfold Bypassed at hbypass; omega)]
    rw [if_pos (show 0 < periodNs ∧ periodNs ≤ 10 from hbypass)]
    dsimp only
    by_cases hpccr : getPccrRegOffset o = getPccrRegOffset sel
    · rw [if_pos hpccr, waveform_writeSource (by decide) hpccr,
        waveform_writeBypass (by decide) hne]
      unfold configOther
      dsimp only
      rw [if_pos hbypass.1, if_pos hbypass, hsource]
    · rw [if_neg hpccr, waveform_writePccr_of_ne hpccr,
        waveform_writePccr_of_ne hpccr]
  · rw [if_neg (show ¬ (0 < periodNs ∧ periodNs ≤ 10) from hbypass)]
    dsimp only
    by_cases hshort : 10 < periodNs ∧ periodNs ≤ 334
    · rw [if_pos hshort]
      refine dividedConfig_other ?_ ?_ (by omega) hlt hbypass hne
      · unfold clockRate
        rw [if_pos hshort]
      · unfold clockSource
        rw [if_pos hshort.2]
    · rw [if_neg hshort]
      by_cases hlong : 334 < periodNs
      · rw [if_pos hlong]
        refine dividedConfig_other ?_ ?_ (by omega) hlt hbypass hne
        · unfold clockRate
          rw [if_neg hshort, if_pos hlong]
        · unfold clockSource
          rw [if_neg (by omega)]
      · -- No branch matched: the source stays, and the divider is 0.
        have hneg : ¬ 0 < periodNs := by
          unfold Bypassed at hbypass
          omega
        have hdiv := searchDividers_divM periodNs hlt
        have hrate : clockRate periodNs = 0 := by
          unfold clockRate
          rw [if_neg hshort, if_neg hlong]
        rw [hrate] at hdiv
        rw [if_neg hlong, writeCycles_other
          (searchDividers_divM_lt 0 periodNs) hne, hdiv]
        unfold configOther
        dsimp only
        rw [if_neg hneg, if_neg hbypass]

/-! ## A whole call -/

theorem disable_other (hcfg : cfg.bindPwm = none) (hne : o ≠ sel) :
    waveform (sunxiPwmDisable cfg sel env regs) o = waveform regs o := by
  unfold sunxiPwmDisable
  rw [hcfg]
  exact disableSingle_other hne

theorem setPolarity_other {polarity : PwmPolarity}
    (hcfg : cfg.bindPwm = none) (hne : o ≠ sel) :
    waveform (sunxiPwmSetPolarity cfg sel polarity regs) o
      = waveform regs o := by
  unfold sunxiPwmSetPolarity
  rw [hcfg]
  exact setPolaritySingle_other hne

theorem enable_other (hcfg : cfg.bindPwm = none) (hne : o ≠ sel) :
    waveform (sunxiPwmEnable cfg sel env regs).1 o =
      if getPccrRegOffset o = getPccrRegOffset sel ∧ env.enableOwn.Found then
        { waveform regs o with gated := (waveform regs o).enabled }
      else waveform regs o := by
  unfold sunxiPwmEnable
  dsimp only
  rw [setPolarity_other hcfg hne, hcfg]
  exact enableSingle_other hne

theorem u32OfInt_intOfU64 (x : BitVec 64) :
    u32OfInt (intOfU64 x) = x.toNat % 2 ^ 32 := by
  unfold u32OfInt intOfU64
  rw [BitVec.ofInt_toInt, BitVec.toNat_setWidth]

theorem intOfU64_eq (x : BitVec 64) :
    intOfU64 x = if x.toNat % 2 ^ 32 < 2 ^ 31 then (x.toNat % 2 ^ 32 : Int)
      else (x.toNat % 2 ^ 32 : Int) - 2 ^ 32 := by
  unfold intOfU64
  rw [BitVec.toInt_eq_toNat_cond, BitVec.toNat_setWidth]
  split_ifs <;> omega

/-- The `int` is the whole value exactly below `2^31`. -/
theorem intOfU64_eq_self_iff (x : BitVec 64) :
    intOfU64 x = x.toNat ↔ x.toNat < 2 ^ 31 := by
  rw [intOfU64_eq]
  split_ifs <;> omega

theorem intOfU64_lt (x : BitVec 64) : intOfU64 x < 2 ^ 31 := by
  unfold intOfU64
  have := BitVec.toInt_lt (x := x.setWidth 32)
  omega

theorem applyPolarity_other (hcfg : cfg.bindPwm = none) (hne : o ≠ sel) :
    waveform (applyPolarity cfg sel env old st regs).1 o
      = waveform regs o := by
  unfold applyPolarity
  by_cases hpolarity : st.polarity ≠ old.polarity
  · rw [if_pos hpolarity]
    dsimp only
    rw [setPolarity_other hcfg hne]
    split_ifs with hrunning
    · exact disable_other hcfg hne
    · rfl
  · rw [if_neg hpolarity]

/-- The channel counts as enabled when it keeps running. -/
theorem applyPolarity_enabled :
    (applyPolarity cfg sel env old st regs).2
      = decide (KeepsRunning old st) := by
  unfold applyPolarity KeepsRunning
  by_cases hpolarity : st.polarity = old.polarity
  · rw [if_neg (fun h => h hpolarity)]
    simp [hpolarity]
  · rw [if_pos hpolarity]
    simp [hpolarity]

/-- The registers follow `applyOther` for a channel that shares the clock, and
stay as they are for the rest. -/
theorem apply_other (hcfg : cfg.bindPwm = none) (hne : o ≠ sel) :
    waveform (sunxiPwmApply cfg sel env old st regs).1 o =
      if getPccrRegOffset o = getPccrRegOffset sel then
        applyOther env old st (waveform regs o)
      else waveform regs o := by
  have hfirst : waveform (applyPolarity cfg sel env old st regs).1 o
      = waveform regs o := applyPolarity_other hcfg hne
  have henabled : (applyPolarity cfg sel env old st regs).2
      = decide (KeepsRunning old st) := applyPolarity_enabled
  unfold sunxiPwmApply applyOther
  generalize applyPolarity cfg sel env old st regs = r at hfirst henabled ⊢
  rcases r with ⟨regs', enabled⟩
  dsimp only at hfirst henabled ⊢
  by_cases hoff : st.enabled = false
  · rw [if_pos hoff, if_pos hoff]
    have hdisable : waveform (if enabled then
        sunxiPwmDisable cfg sel env regs' else regs') o = waveform regs o := by
      split_ifs
      · rw [disable_other hcfg hne, hfirst]
      · exact hfirst
    rw [hdisable]
    split_ifs <;> rfl
  · rw [if_neg hoff, if_neg hoff]
    have hconfig : waveform (sunxiPwmConfig cfg sel env.uninit
        (intOfU64 st.dutyCycle) (intOfU64 st.period) regs') o =
          if getPccrRegOffset o = getPccrRegOffset sel then
            configOther (intOfU64 st.period) (waveform regs o)
          else waveform regs o := by
      unfold sunxiPwmConfig
      rw [hcfg, ← hfirst]
      exact configSingle_other (intOfU64_lt _) hne
    by_cases hkeeps : KeepsRunning old st
    · have hnot : ¬ (¬ KeepsRunning old st ∧ env.enableOwn.Found) :=
        fun h => h.1 hkeeps
      rw [henabled, decide_eq_true hkeeps, if_neg (by decide), if_neg hnot]
      exact hconfig
    · rw [henabled, decide_eq_false hkeeps, if_pos rfl, enable_other hcfg hne,
        hconfig]
      by_cases hpccr : getPccrRegOffset o = getPccrRegOffset sel
      · simp only [hpccr, hkeeps, true_and, if_true, not_false_eq_true]
      · simp only [hpccr, false_and, if_false]

/-! ## Independence -/

/-- The neighbour has what a call gives to both channels: the source and the
divider of the period, and an open gate when the call opens it. -/
structure NeighbourFits (env : ApplyEnv) (old st : PwmState) (w : Waveform) :
    Prop where
  source : 0 < intOfU64 st.period →
    w.source = clockSource (intOfU64 st.period)
  divM : ¬ Bypassed (intOfU64 st.period) →
    w.divM = BitVec.ofNat 32 (clockDivider (intOfU64 st.period))
  gated : ¬ KeepsRunning old st → env.enableOwn.Found → w.gated = w.enabled

theorem configOther_eq (periodNs : Int) (w : Waveform) :
    configOther periodNs w =
      { w with
        source := if 0 < periodNs then clockSource periodNs else w.source
        divM := if Bypassed periodNs then w.divM
          else BitVec.ofNat 32 (clockDivider periodNs) } := by
  unfold configOther
  split_ifs <;> rfl

/-- A call leaves a neighbour alone exactly when it fits. -/
theorem applyOther_fixed (w : Waveform) :
    applyOther env old st w = w ↔
      (st.enabled = true → NeighbourFits env old st w) := by
  have hfields : NeighbourFits env old st w ↔
      (0 < intOfU64 st.period → clockSource (intOfU64 st.period) = w.source) ∧
      (¬ Bypassed (intOfU64 st.period) →
        BitVec.ofNat 32 (clockDivider (intOfU64 st.period)) = w.divM) ∧
      (¬ KeepsRunning old st ∧ env.enableOwn.Found → w.enabled = w.gated) :=
    ⟨fun h => ⟨fun hp => (h.source hp).symm, fun hb => (h.divM hb).symm,
        fun hr => (h.gated hr.1 hr.2).symm⟩,
      fun h => ⟨fun hp => (h.1 hp).symm, fun hb => (h.2.1 hb).symm,
        fun hk hf => (h.2.2 ⟨hk, hf⟩).symm⟩⟩
  unfold applyOther
  by_cases hoff : st.enabled = false
  · rw [if_pos hoff, hoff]
    exact iff_of_true rfl fun h => absurd h Bool.false_ne_true
  · have hon : st.enabled = true := Bool.not_eq_false _ ▸ hoff
    rw [if_neg hoff, hon, hfields, configOther_eq]
    by_cases hopens : ¬ KeepsRunning old st ∧ env.enableOwn.Found
    · rw [if_pos hopens]
      simp [Waveform.ext_iff, hopens]
    · rw [if_neg hopens]
      simp [Waveform.ext_iff, hopens]

/-- A call on a channel without a partner leaves the waveforms of all other
channels as they are exactly when it disables the channel, or the neighbour
that shares its clock fits. -/
theorem apply_independent_iff (hcfg : cfg.bindPwm = none) :
    (∀ o, o ≠ sel → waveform (sunxiPwmApply cfg sel env old st regs).1 o
        = waveform regs o) ↔
      (st.enabled = true →
        ∀ o, Shares sel o → NeighbourFits env old st (waveform regs o)) := by
  constructor
  · intro h hon o hshares
    have hkept := h o hshares.1
    rw [apply_other hcfg hshares.1, if_pos hshares.2] at hkept
    exact (applyOther_fixed _).mp hkept hon
  · intro h o hne
    rw [apply_other hcfg hne]
    split_ifs with hpccr
    · exact (applyOther_fixed _).mpr fun hon => h hon o ⟨hne, hpccr⟩
    · rfl

/-- The lookups of a call that all succeed. -/
def foundEnv : ApplyEnv where
  disableOwn := ⟨true, true, 0⟩
  disableBound := ⟨true, true, 0⟩
  enableOwn := ⟨true, true, 0⟩
  enableBound := ⟨true, true, 0⟩
  uninit := 0

/-- A channel without a partner that is no clock of the chip. -/
def plainConfig : SunxiPwmConfig := ⟨0, none, 0⟩

/-- The state of a channel that was never used. -/
def probedState : PwmState := ⟨0, 0, .normal, false⟩

/-- The channel of the fan with its period of 50 us. -/
theorem apply_independent_fan :
    (∀ o, o ≠ 2 → waveform (sunxiPwmApply plainConfig 2 foundEnv probedState
        ⟨50000, 25000, .normal, true⟩ fun _ => 0).1 o
      = waveform (fun _ => 0) o) ↔
      (true = true → ∀ o, Shares 2 o → NeighbourFits foundEnv probedState
        ⟨50000, 25000, .normal, true⟩ (waveform (fun _ => 0) o)) :=
  apply_independent_iff rfl

/-- A period of 100 ns on channel 2 moves channel 3 from the slow clock to the
fast one. -/
theorem apply_moves_neighbour :
    ¬ ∀ o, o ≠ 2 → waveform (sunxiPwmApply plainConfig 2 foundEnv probedState
        ⟨100, 50, .normal, true⟩ fun _ => 0).1 o
      = waveform (fun _ => 0) o := by
  intro h
  have hsource := congrArg Waveform.source (h 3 (by decide))
  revert hsource
  decide

end LonganPi.Pwm
