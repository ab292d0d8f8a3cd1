import LonganPi.Lib.Transition
import LonganPi.Pwm.Independence
import LonganPi.Pwm.OwnWaveform

/-!
# Polarity and enable over the calls on one channel

The PWM core stores each state that was applied.  `Settled` is what every
sequence of calls keeps: the enable bit follows the stored state, and while
the channel is enabled its gate is open and its active state bit is set.
Nothing else is possible for the active state bit, since `sunxi_pwm_enable`
sets the normal polarity after the one that was asked for.  So an inverted
channel comes out normal, and `follows_iff` says that this is the only way in
which a sequence of calls goes wrong.
-/

namespace LonganPi.Pwm

open Transition

/-- A call of the core whose lookups succeed. -/
def applyStep (cfg : SunxiPwmConfig) (sel : Channel) (d : Device)
    (st : PwmState) : Option Device :=
  some (pwmApplyState cfg sel d foundEnv st)

/-- The channel does what its state says. -/
def Follows (sel : Channel) (d : Device) : Prop :=
  let w := waveform d.regs sel
  if d.state.enabled then
    w.enabled = true ∧ w.gated = true ∧
      w.polarity = decide (d.state.polarity = .normal)
  else w.enabled = false

/-- What every sequence of calls keeps. -/
structure Settled (sel : Channel) (d : Device) : Prop where
  enabled : (waveform d.regs sel).enabled = d.state.enabled
  running : d.state.enabled = true →
    (waveform d.regs sel).gated = true ∧
      (waveform d.regs sel).polarity = true

variable {cfg : SunxiPwmConfig} {sel : Channel} {d d' : Device}
  {old st : PwmState} {regs : Regs}

/-! ## One function at a time -/

theorem disable_off (hcfg : cfg.bindPwm = none) :
    (waveform (sunxiPwmDisable cfg sel foundEnv regs) sel).enabled = false := by
  unfold sunxiPwmDisable
  rw [hcfg]
  exact disableSingle_own (by decide)

/-- An enable ends with the normal polarity. -/
theorem enable_own (sel : Channel) (regs : Regs) (hcfg : cfg.bindPwm = none) :
    (sunxiPwmEnable cfg sel foundEnv regs).2 = 0 ∧
      (waveform (sunxiPwmEnable cfg sel foundEnv regs).1 sel).enabled = true ∧
      (waveform (sunxiPwmEnable cfg sel foundEnv regs).1 sel).gated = true ∧
      (waveform (sunxiPwmEnable cfg sel foundEnv regs).1 sel).polarity
        = true := by
  obtain ⟨hret, hon, hgate⟩ := enableSingle_own sel regs
    (l := foundEnv.enableOwn) rfl rfl rfl
  unfold sunxiPwmEnable
  dsimp only
  rw [hcfg]
  rw [setPolarity_own hcfg]
  exact ⟨hret, hon, hgate, rfl⟩

/-- A change of polarity stops the channel. -/
theorem applyPolarity_off (hcfg : cfg.bindPwm = none)
    (henabled : (waveform regs sel).enabled = old.enabled)
    (hpolarity : st.polarity ≠ old.polarity) :
    (waveform (applyPolarity cfg sel foundEnv old st regs).1 sel).enabled
      = false := by
  unfold applyPolarity
  rw [if_pos hpolarity]
  dsimp only
  rw [setPolarity_own hcfg]
  dsimp only
  cases hold : old.enabled with
  | true =>
    rw [if_pos rfl]
    exact disable_off hcfg
  | false =>
    rw [if_neg Bool.false_ne_true, henabled]
    exact hold

/-! ## Runs -/

/-- A call on a channel without a partner returns 0 and keeps what it
should. -/
theorem apply_settled (st : PwmState) (hcfg : cfg.bindPwm = none)
    (h : Settled sel d) :
    (sunxiPwmApply cfg sel foundEnv d.state st d.regs).2 = 0 ∧
      Settled sel
        ⟨(sunxiPwmApply cfg sel foundEnv d.state st d.regs).1, st⟩ := by
  -- After the change of polarity the channel is enabled as the flag says.
  have hfirst : (waveform
      (applyPolarity cfg sel foundEnv d.state st d.regs).1 sel).enabled
        = (applyPolarity cfg sel foundEnv d.state st d.regs).2 := by
    rw [applyPolarity_enabled]
    by_cases hpolarity : st.polarity = d.state.polarity
    · unfold applyPolarity KeepsRunning
      rw [if_neg (fun hne => hne hpolarity)]
      simp [h.enabled, hpolarity]
    · rw [applyPolarity_off hcfg h.enabled hpolarity]
      unfold KeepsRunning
      simp [hpolarity]
  have hkept : (applyPolarity cfg sel foundEnv d.state st d.regs).2 = true →
      (waveform (applyPolarity cfg sel foundEnv d.state st d.regs).1
          sel).gated = true ∧
        (waveform (applyPolarity cfg sel foundEnv d.state st d.regs).1
          sel).polarity = true := by
    intro hflag
    rw [applyPolarity_enabled] at hflag
    obtain ⟨hon, hpolarity⟩ := of_decide_eq_true hflag
    unfold applyPolarity
    rw [if_neg (fun hne => hne hpolarity)]
    exact h.running hon
  unfold sunxiPwmApply
  generalize applyPolarity cfg sel foundEnv d.state st d.regs = r at *
  rcases r with ⟨regs', enabled⟩
  dsimp only at hfirst hkept ⊢
  cases hst : st.enabled with
  | false =>
    rw [if_pos rfl]
    refine ⟨rfl, ⟨?_, fun hon => ?_⟩⟩
    · dsimp only
      rw [hst]
      cases enabled with
      | true =>
        rw [if_pos rfl]
        exact disable_off hcfg
      | false =>
        rw [if_neg Bool.false_ne_true]
        exact hfirst
    · dsimp only at hon
      rw [hst] at hon
      cases hon
  | true =>
    rw [if_neg (by decide)]
    cases enabled with
    | true =>
      rw [if_neg (by decide)]
      obtain ⟨hgate, hpol⟩ := hkept rfl
      obtain ⟨hkeep, hkeepGate, hkeepPol⟩ := configOwn_keeps cfg
        (intOfU64 st.dutyCycle) (intOfU64 st.period) (waveform regs' sel)
      refine ⟨rfl, ⟨?_, fun _ => ?_⟩⟩
      · dsimp only
        rw [config_own _ hcfg, hkeep, hfirst, hst]
      · dsimp only
        rw [config_own _ hcfg, hkeepGate]
        exact ⟨hgate, hkeepPol hpol⟩
    | false =>
      rw [if_pos rfl]
      obtain ⟨hret, hon, hgate, hpol⟩ := enable_own sel
        (sunxiPwmConfig cfg sel foundEnv.uninit
          (intOfU64 st.dutyCycle) (intOfU64 st.period) regs') hcfg
      exact ⟨hret, ⟨hon.trans hst.symm, fun _ => ⟨hgate, hpol⟩⟩⟩

theorem applyStep_settled (hcfg : cfg.bindPwm = none) (h : Settled sel d)
    (hstep : applyStep cfg sel d st = some d') :
    d'.state = st ∧ Settled sel d' := by
  obtain ⟨hret, hsettled⟩ := apply_settled st hcfg h
  unfold applyStep pwmApplyState at hstep
  dsimp only at hstep
  rw [hret, if_pos rfl] at hstep
  obtain rfl := Option.some.inj hstep
  exact ⟨rfl, hsettled⟩

/-- A settled channel does what its state says, unless that is to be enabled
and inverted. -/
theorem Settled.follows_iff_normal (h : Settled sel d) :
    Follows sel d ↔
      (d.state.enabled = true → d.state.polarity = .normal) := by
  unfold Follows
  dsimp only
  rw [h.enabled]
  cases hon : d.state.enabled with
  | true =>
    obtain ⟨hgate, hpol⟩ := h.running hon
    rw [if_pos rfl, hgate, hpol]
    simp
  | false => simp

/-- A channel without a partner, disabled to begin with, does what its state
says after every call exactly when no call asks for an inverted output. -/
theorem follows_iff (hcfg : cfg.bindPwm = none)
    (hoff : (regs pwmPer).getLsbD sel = false) (sts : List PwmState) :
    Always (applyStep cfg sel) (Follows sel) sts ⟨regs, probedState⟩ ↔
      ∀ st ∈ sts, st.enabled = true → st.polarity = .normal := by
  have hinit : Settled sel ⟨regs, probedState⟩ :=
    ⟨hoff, fun hon => by cases hon⟩
  have hguard : Always (applyStep cfg sel) (Follows sel) sts ⟨regs, probedState⟩ ↔
      Guarded (applyStep cfg sel)
        (fun _ st => st.enabled = true → st.polarity = .normal) sts
        ⟨regs, probedState⟩ := always_iff_guarded (I := Settled sel)
    (fun d st d' h _ hstep => by
      obtain ⟨hstate, hsettled⟩ := applyStep_settled hcfg h hstep
      rw [hsettled.follows_iff_normal, hstate])
    (fun d st d' h _ hstep _ => (applyStep_settled hcfg h hstep).2)
    hinit (hinit.follows_iff_normal.mpr fun hon => by cases hon) sts
  rw [hguard]
  exact guarded_iff_forall fun d st => ⟨_, rfl⟩

/-- A channel that is configured, inverted and disabled again. -/
theorem follows_disable :
    Always (applyStep plainConfig 2) (Follows 2)
        [⟨50000, 25000, .normal, true⟩, ⟨50000, 25000, .inversed, false⟩]
        ⟨fun _ => 0, probedState⟩ ↔
      ∀ st ∈ ([⟨50000, 25000, .normal, true⟩,
        ⟨50000, 25000, .inversed, false⟩] : List PwmState),
        st.enabled = true → st.polarity = .normal :=
  follows_iff rfl (by decide) _

/-- The fan of the board asks for an inverted output and gets a normal one. -/
theorem inversed_comes_out_normal :
    ¬ Always (applyStep plainConfig 2) (Follows 2)
      [⟨50000, 25000, .inversed, true⟩] ⟨fun _ => 0, probedState⟩ := by
  intro h
  have hlast := (h.of_run rfl).2.2
  revert hlast
  decide

end LonganPi.Pwm
