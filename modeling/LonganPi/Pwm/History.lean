import LonganPi.Pwm.Independence
import LonganPi.Pwm.OwnWaveform

/-!
# What the output of a channel depends on

`Output` is what the registers say of the output of a channel: whether it is
bypassed, its source, and its dividers when it is not bypassed.  A call that
enables the channel writes all of it except the bypass bit, which a period of
at most 10 ns sets and which no call clears.  So the last call decides the
output up to that bit (`call_timing`), and `output_eq_iff` says when two
histories with the same last call give the same output.
-/

namespace LonganPi.Pwm

/-- The part of a waveform that the configuration is about. -/
@[ext]
structure Timing where
  source : BitVec 32
  bypass : Bool
  divM : BitVec 32
  prescale : BitVec 32
  periodCycles : BitVec 32
  activeCycles : BitVec 32
  deriving DecidableEq, Repr

def Waveform.timing (w : Waveform) : Timing where
  source := w.source
  bypass := w.bypass
  divM := w.divM
  prescale := w.prescale
  periodCycles := w.periodCycles
  activeCycles := w.activeCycles

/-- The output of a channel.  A bypassed channel puts out its source, whatever
the other fields are. -/
inductive Output where
  | bypassed (source : BitVec 32)
  | divided (source divM prescale periodCycles activeCycles : BitVec 32)
  deriving DecidableEq, Repr

def Timing.output (t : Timing) : Output :=
  if t.bypass then .bypassed t.source
  else .divided t.source t.divM t.prescale t.periodCycles t.activeCycles

/-- The output that the registers describe. -/
def Device.output (d : Device) (sel : Channel) : Output :=
  (waveform d.regs sel).timing.output

/-- The calls of a history, with what each of them finds outside the
registers. -/
def applyAll (cfg : SunxiPwmConfig) (sel : Channel) (d : Device)
    (ops : List (ApplyEnv × PwmState)) : Device :=
  ops.foldl (fun d op => pwmApplyState cfg sel d op.1 op.2) d

/-- A call that sets the bypass bit. -/
def SetsBypass (op : ApplyEnv × PwmState) : Prop :=
  op.2.enabled = true ∧ Bypassed (intOfU64 op.2.period)

instance (op : ApplyEnv × PwmState) : Decidable (SetsBypass op) := by
  unfold SetsBypass
  infer_instance

variable {cfg : SunxiPwmConfig} {env : ApplyEnv} {old st : PwmState}
  {regs : Regs} {sel : Channel} {d : Device}

/-! ## What leaves the timing alone -/

theorem timing_setPolarity {polarity : PwmPolarity}
    (hcfg : cfg.bindPwm = none) :
    (waveform (sunxiPwmSetPolarity cfg sel polarity regs) sel).timing
      = (waveform regs sel).timing := by
  rw [setPolarity_own hcfg]
  rfl

theorem timing_writePer {val : BitVec 32} :
    (waveform (writeField regs pwmPer sel 1 val) sel).timing
      = (waveform regs sel).timing := by
  unfold waveform
  rw [writeField_of_ne _ _ _ _ (pccr_ne_per sel),
    writeField_of_ne _ _ _ _ (pcrOffset_ne_per sel),
    writeField_of_ne _ _ _ _ (pprOffset_ne_per sel)]
  rfl

theorem timing_writeGate (on : Bool) :
    (waveform (writeField regs (getPccrRegOffset sel) pwmClkGatingShift 1
        (if on then 1 else 0)) sel).timing
      = (waveform regs sel).timing := by
  rw [waveform_writeGate regs on rfl]
  rfl

theorem timing_disable (hcfg : cfg.bindPwm = none) :
    (waveform (sunxiPwmDisable cfg sel env regs) sel).timing
      = (waveform regs sel).timing := by
  unfold sunxiPwmDisable sunxiPwmDisableSingle
  rw [hcfg]
  dsimp only
  split_ifs with hlookup hlast
  · rfl
  · exact (timing_writeGate false).trans timing_writePer
  · exact timing_writePer

theorem timing_enable (hcfg : cfg.bindPwm = none) :
    (waveform (sunxiPwmEnable cfg sel env regs).1 sel).timing
      = (waveform regs sel).timing := by
  unfold sunxiPwmEnable sunxiPwmEnableSingle
  dsimp only
  rw [timing_setPolarity hcfg, hcfg]
  dsimp only
  split_ifs with hphandle hdevice hpin
  · rfl
  · rfl
  · rfl
  · exact timing_writePer.trans (timing_writeGate true)

theorem timing_applyPolarity (hcfg : cfg.bindPwm = none) :
    (waveform (applyPolarity cfg sel env old st regs).1 sel).timing
      = (waveform regs sel).timing := by
  unfold applyPolarity
  by_cases hpolarity : st.polarity ≠ old.polarity
  · rw [if_pos hpolarity]
    dsimp only
    rw [timing_setPolarity hcfg]
    split_ifs with hrunning
    · exact timing_disable hcfg
    · rfl
  · rw [if_neg hpolarity]

/-! ## What a call does to the timing -/

/-- A call that disables leaves the timing alone, and one that enables leaves
what the configuration does. -/
theorem call_timing (sel : Channel) (env : ApplyEnv) (st : PwmState)
    (d : Device) (hcfg : cfg.bindPwm = none) :
    ∃ w, w.timing = (waveform d.regs sel).timing ∧
      (waveform (pwmApplyState cfg sel d env st).regs sel).timing =
        if st.enabled = false then (waveform d.regs sel).timing
        else (configOwn cfg (intOfU64 st.dutyCycle) (intOfU64 st.period)
          w).timing := by
  have hfirst : (waveform (applyPolarity cfg sel env d.state st d.regs).1
      sel).timing = (waveform d.regs sel).timing := timing_applyPolarity hcfg
  unfold pwmApplyState sunxiPwmApply
  generalize applyPolarity cfg sel env d.state st d.regs = r at hfirst ⊢
  rcases r with ⟨regs', enabled⟩
  refine ⟨waveform regs' sel, hfirst, ?_⟩
  dsimp only at hfirst ⊢
  by_cases hoff : st.enabled = false
  · rw [if_pos hoff, if_pos hoff, ← hfirst]
    dsimp only
    split_ifs
    · exact timing_disable hcfg
    · rfl
  · rw [if_neg hoff, if_neg hoff]
    rw [← config_own env.uninit hcfg]
    split_ifs
    · exact timing_enable hcfg
    · rfl

theorem configOwn_bypass {dutyNs periodNs : Int} {w : Waveform}
    (hout : cfg.clkBypassOutput = 0) :
    (configOwn cfg dutyNs periodNs w).bypass
      = (w.bypass || decide (Bypassed periodNs)) := by
  unfold configOwn
  by_cases hbypass : 0 < periodNs ∧ periodNs ≤ 10
  · rw [if_pos hbypass, decide_eq_true (show Bypassed periodNs from hbypass),
      Bool.or_true]
  · rw [if_neg hbypass, decide_eq_false (show ¬ Bypassed periodNs from hbypass),
      Bool.or_false]
    dsimp only
    split_ifs with hpos
    · rw [hout, decide_eq_false (by decide), Bool.or_false]
    · rfl

/-- The bypass bit after a call. -/
theorem call_bypass (hcfg : cfg.bindPwm = none)
    (hout : cfg.clkBypassOutput = 0) :
    (waveform (pwmApplyState cfg sel d env st).regs sel).bypass
      = ((waveform d.regs sel).bypass || decide (SetsBypass (env, st))) := by
  obtain ⟨w, hw, hcall⟩ := call_timing sel env st d hcfg
  have hbypass := congrArg Timing.bypass hcall
  have hwb : w.bypass = (waveform d.regs sel).bypass :=
    congrArg Timing.bypass hw
  unfold SetsBypass
  by_cases hoff : st.enabled = false
  · rw [if_pos hoff] at hbypass
    simp only [hoff, Bool.false_eq_true, false_and, decide_false,
      Bool.or_false]
    exact hbypass
  · rw [if_neg hoff] at hbypass
    have hon : st.enabled = true := by simpa using hoff
    simp only [hon, true_and]
    rw [← hwb, ← configOwn_bypass hout]
    exact hbypass

/-- The bypass bit after a history. -/
theorem history_bypass (hcfg : cfg.bindPwm = none)
    (hout : cfg.clkBypassOutput = 0) (ops : List (ApplyEnv × PwmState)) :
    (waveform (applyAll cfg sel d ops).regs sel).bypass = true ↔
      (waveform d.regs sel).bypass = true ∨ ∃ op ∈ ops, SetsBypass op := by
  unfold applyAll
  induction ops generalizing d with
  | nil => simp
  | cons op ops ih =>
    rw [List.foldl_cons, ih, call_bypass hcfg hout, Bool.or_eq_true,
      decide_eq_true_eq, or_assoc]
    simp only [List.mem_cons, exists_eq_or_imp]

/-! ## The output after the last call -/

/-- The output of a call that enables, given the bypass bit before it. -/
def lastOutput (bypass : Bool) (st : PwmState) : Output :=
  let periodNs := intOfU64 st.period
  let d := searchDividers (clockRate periodNs) periodNs
  if Bypassed periodNs then .bypassed 1
  else if bypass then .bypassed (clockSource periodNs)
  else .divided (clockSource periodNs) (BitVec.ofNat 32 d.divM)
    (BitField.get 0 pwmPrescalWidth (BitVec.ofNat 32 d.prescale))
    (BitField.get 0 pwmPeriodCyclesWidth (BitVec.ofNat 32
      ((if d.entireCycles = 0 then 1 else d.entireCycles) - 1)))
    (BitField.get 0 pwmActCyclesWidth (BitVec.ofNat 32
      (activeCycles d.entireCycles (intOfU64 st.dutyCycle) periodNs)))

theorem call_output (hcfg : cfg.bindPwm = none)
    (hout : cfg.clkBypassOutput = 0) (hon : st.enabled = true)
    (hpos : 0 < intOfU64 st.period) :
    (pwmApplyState cfg sel d env st).output sel
      = lastOutput (waveform d.regs sel).bypass st := by
  obtain ⟨w, hw, hcall⟩ := call_timing sel env st d hcfg
  have hwb : w.bypass = (waveform d.regs sel).bypass :=
    congrArg Timing.bypass hw
  rw [if_neg (by simp [hon])] at hcall
  unfold Device.output lastOutput
  rw [hcall, ← hwb]
  unfold configOwn Timing.output
  by_cases hbypass : Bypassed (intOfU64 st.period)
  · rw [if_pos hbypass,
      if_pos (show 0 < intOfU64 st.period ∧ intOfU64 st.period ≤ 10
        from hbypass)]
    rfl
  · rw [if_neg hbypass,
      if_neg (show ¬ (0 < intOfU64 st.period ∧ intOfU64 st.period ≤ 10)
        from hbypass), if_pos hpos]
    dsimp only [Waveform.timing]
    rw [hout, decide_eq_false (by decide), Bool.or_false]
    rfl

/-- Two bypass bits give the same output when the period is bypassed anyway,
or when they are the same. -/
theorem lastOutput_eq_iff (a b : Bool) :
    lastOutput a st = lastOutput b st ↔
      Bypassed (intOfU64 st.period) ∨ a = b := by
  unfold lastOutput
  dsimp only
  by_cases hbypass : Bypassed (intOfU64 st.period)
  · rw [if_pos hbypass, if_pos hbypass]
    exact iff_of_true rfl (Or.inl hbypass)
  · rw [if_neg hbypass, if_neg hbypass]
    cases a <;> cases b <;> simp [hbypass]

/-- Two histories with the same last call give the same output exactly when
the period of that call is bypassed, or the bypass bit was set to begin with,
or either both or neither of them have a call that sets it. -/
theorem output_eq_iff (hcfg : cfg.bindPwm = none)
    (hout : cfg.clkBypassOutput = 0) (d : Device)
    (ops ops' : List (ApplyEnv × PwmState)) (env env' : ApplyEnv)
    (hon : st.enabled = true) (hpos : 0 < intOfU64 st.period) :
    (applyAll cfg sel d (ops ++ [(env, st)])).output sel
        = (applyAll cfg sel d (ops' ++ [(env', st)])).output sel ↔
      Bypassed (intOfU64 st.period) ∨ (waveform d.regs sel).bypass = true ∨
        ((∃ op ∈ ops, SetsBypass op) ↔ ∃ op ∈ ops', SetsBypass op) := by
  have hlast : ∀ (l : List (ApplyEnv × PwmState)) e,
      (applyAll cfg sel d (l ++ [(e, st)])).output sel
        = lastOutput (waveform (applyAll cfg sel d l).regs sel).bypass st := by
    intro l e
    unfold applyAll
    rw [List.foldl_append]
    exact call_output hcfg hout hon hpos
  rw [hlast, hlast, lastOutput_eq_iff, Bool.eq_iff_iff,
    history_bypass hcfg hout, history_bypass hcfg hout]
  by_cases hset : (waveform d.regs sel).bypass = true
  · simp [hset]
  · simp [hset]

/-- A period of a 64-bit state that an `int` holds. -/
theorem intOfU64_of_lt {x : BitVec 64} (hlt : x.toNat < 2 ^ 31) :
    intOfU64 x = x.toNat := by
  unfold intOfU64
  rw [BitVec.toInt_eq_toNat_of_lt]
  · rw [BitVec.toNat_setWidth, Nat.mod_eq_of_lt (by omega)]
  · rw [BitVec.toNat_setWidth, Nat.mod_eq_of_lt (by omega)]
    omega

/-- A history with another period before, and none. -/
theorem output_eq_slow :
    (applyAll plainConfig 2 ⟨fun _ => 0, probedState⟩
        ([(foundEnv, ⟨1000, 500, .normal, true⟩)]
          ++ [(foundEnv, ⟨50000, 25000, .normal, true⟩)])).output 2
      = (applyAll plainConfig 2 ⟨fun _ => 0, probedState⟩
        ([] ++ [(foundEnv, ⟨50000, 25000, .normal, true⟩)])).output 2 ↔
      Bypassed (intOfU64 50000) ∨
        (waveform (fun _ => 0) 2).bypass = true ∨
        ((∃ op ∈ [(foundEnv, (⟨1000, 500, .normal, true⟩ : PwmState))],
            SetsBypass op) ↔
          ∃ op ∈ ([] : List (ApplyEnv × PwmState)), SetsBypass op) :=
  output_eq_iff rfl rfl _ _ _ _ _ rfl
    (by rw [intOfU64_of_lt (by decide)]; decide)

/-- A period of 10 ns before one of 50 us leaves the channel bypassed. -/
theorem short_period_sticks :
    (applyAll plainConfig 2 ⟨fun _ => 0, probedState⟩
        [(foundEnv, ⟨10, 5, .normal, true⟩),
          (foundEnv, ⟨50000, 25000, .normal, true⟩)]).output 2
      ≠ (applyAll plainConfig 2 ⟨fun _ => 0, probedState⟩
        [(foundEnv, ⟨50000, 25000, .normal, true⟩)]).output 2 := by
  decide

end LonganPi.Pwm
