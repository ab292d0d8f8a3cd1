import LonganPi.Pwm.DualSearch

/-!
# What enabling and disabling leave alone

`sunxi_pwm_apply` also disables, enables and sets the polarity, before and
after the configuration.  These write the gate, the enable bits, the active
state and the enable bit of the dead zone.  `KeepsFields` says that the
fields of the configuration stay as they are, for every channel.
-/

namespace LonganPi.Pwm

variable {cfg : SunxiPwmConfig} {env : ApplyEnv} {old st : PwmState}
  {regs regs' : Regs} {sel bind o : Channel} {uninit : Nat}

/-- The clock source of a channel. -/
def sourceField (regs : Regs) (sel : Channel) : Nat :=
  (getBits pwmClkSrcShift pwmClkSrcWidth (regs (getPccrRegOffset sel))).toNat

/-- The fields that a configuration writes are the same. -/
structure KeepsFields (regs regs' : Regs) : Prop where
  source : ∀ o, sourceField regs' o = sourceField regs o
  divM : ∀ o, divMField regs' o = divMField regs o
  prescal : ∀ o, prescalField regs' o = prescalField regs o
  active : ∀ o, activeField regs' o = activeField regs o
  period : ∀ o, periodField regs' o = periodField regs o
  zone : ∀ o uninit, o ≠ 8 → zoneField regs' o uninit = zoneField regs o uninit

namespace KeepsFields

theorem refl (regs : Regs) : KeepsFields regs regs :=
  ⟨fun _ => rfl, fun _ => rfl, fun _ => rfl, fun _ => rfl, fun _ => rfl,
    fun _ _ _ => rfl⟩

theorem symm (h : KeepsFields regs regs') :
    KeepsFields regs' regs where
  source o := (h.source o).symm
  divM o := (h.divM o).symm
  prescal o := (h.prescal o).symm
  active o := (h.active o).symm
  period o := (h.period o).symm
  zone o uninit ho := (h.zone o uninit ho).symm

theorem trans {regs'' : Regs} (h : KeepsFields regs regs')
    (h' : KeepsFields regs' regs'') : KeepsFields regs regs'' where
  source o := (h'.source o).trans (h.source o)
  divM o := (h'.divM o).trans (h.divM o)
  prescal o := (h'.prescal o).trans (h.prescal o)
  active o := (h'.active o).trans (h.active o)
  period o := (h'.period o).trans (h.period o)
  zone o uninit ho := (h'.zone o uninit ho).trans (h.zone o uninit ho)

end KeepsFields

/-! ## Single writes -/

theorem pdzcr_ne_per (ho : o ≠ 8) (uninit : Nat) :
    getPdzcrRegOffset o uninit ≠ pwmPer := by
  rw [pdzcr_uninit ho]
  revert o
  decide

/-- A register that holds no field of a configuration. -/
theorem keepsFields_of_ne {offset : Nat} (v : BitVec 32)
    (hpccr : ∀ o, getPccrRegOffset o ≠ offset)
    (hpcr : ∀ o, pcrOffset o ≠ offset) (hppr : ∀ o, pprOffset o ≠ offset)
    (hzone : ∀ o uninit, o ≠ 8 → getPdzcrRegOffset o uninit ≠ offset) :
    KeepsFields regs (Function.update regs offset v) := by
  constructor
  · intro o
    unfold sourceField
    rw [Function.update_of_ne (hpccr o)]
  · intro o
    unfold divMField
    rw [Function.update_of_ne (hpccr o)]
  · intro o
    unfold prescalField
    rw [Function.update_of_ne (hpcr o)]
  · intro o
    unfold activeField
    rw [Function.update_of_ne (hppr o)]
  · intro o
    unfold periodField
    rw [Function.update_of_ne (hppr o)]
  · intro o uninit ho
    unfold zoneField
    rw [Function.update_of_ne (hzone o uninit ho)]

theorem keepsFields_per (regs : Regs) (shift width : Nat) (val : BitVec 32) :
    KeepsFields regs (writeField regs pwmPer shift width val) :=
  keepsFields_of_ne _ pccr_ne_per pcrOffset_ne_per pprOffset_ne_per
    fun _ uninit ho => pdzcr_ne_per ho uninit

/-- A value that keeps the source and the divider. -/
theorem keepsFields_pccr {v : BitVec 32} (sel : Channel)
    (hsource : getBits pwmClkSrcShift pwmClkSrcWidth v
      = getBits pwmClkSrcShift pwmClkSrcWidth (regs (getPccrRegOffset sel)))
    (hdivM : getBits pwmDivMShift pwmDivMWidth v
      = getBits pwmDivMShift pwmDivMWidth (regs (getPccrRegOffset sel))) :
    KeepsFields regs (Function.update regs (getPccrRegOffset sel) v) := by
  constructor
  · intro o
    unfold sourceField
    by_cases ho : getPccrRegOffset o = getPccrRegOffset sel
    · rw [ho, Function.update_self, hsource]
    · rw [Function.update_of_ne ho]
  · intro o
    unfold divMField
    by_cases ho : getPccrRegOffset o = getPccrRegOffset sel
    · rw [ho, Function.update_self, hdivM]
    · rw [Function.update_of_ne ho]
  · intro o
    unfold prescalField
    rw [Function.update_of_ne (pccr_ne_pcr sel o).symm]
  · intro o
    unfold activeField
    rw [Function.update_of_ne (pccr_ne_ppr sel o).symm]
  · intro o
    unfold periodField
    rw [Function.update_of_ne (pccr_ne_ppr sel o).symm]
  · intro o uninit ho
    unfold zoneField
    rw [Function.update_of_ne (pdzcr_ne ho uninit sel).1]

/-- The gate lies between the divider and the source. -/
theorem keepsFields_gate (regs : Regs) (sel : Channel) {val : BitVec 32}
    (hval : val.toNat < 2 ^ pwmClkGatingWidth) :
    KeepsFields regs (writeField regs (getPccrRegOffset sel) pwmClkGatingShift
      pwmClkGatingWidth val) := by
  apply keepsFields_pccr
  · rw [setBits_eq, getBits_eq, getBits_eq]
    exact BitField.get_set_of_lt (by decide) hval (by decide) (by decide)
  · rw [setBits_eq, getBits_eq, getBits_eq]
    exact BitField.get_set_of_le (by decide) (by decide)

/-- A value that keeps the prescaler. -/
theorem keepsFields_pcr {v : BitVec 32} (sel : Channel)
    (hprescal : getBits pwmPrescalShift pwmPrescalWidth v
      = getBits pwmPrescalShift pwmPrescalWidth (regs (pcrOffset sel))) :
    KeepsFields regs (Function.update regs (pcrOffset sel) v) := by
  constructor
  · intro o
    unfold sourceField
    rw [Function.update_of_ne (pccr_ne_pcr o sel)]
  · intro o
    unfold divMField
    rw [Function.update_of_ne (pccr_ne_pcr o sel)]
  · intro o
    unfold prescalField
    by_cases ho : pcrOffset o = pcrOffset sel
    · rw [ho, Function.update_self, hprescal]
    · rw [Function.update_of_ne ho]
  · intro o
    unfold activeField
    rw [Function.update_of_ne (pcrOffset_ne_ppr sel o).symm]
  · intro o
    unfold periodField
    rw [Function.update_of_ne (pcrOffset_ne_ppr sel o).symm]
  · intro o uninit ho
    unfold zoneField
    rw [Function.update_of_ne (pdzcr_ne ho uninit sel).2.1]

/-- The active state lies above the prescaler. -/
theorem getPrescal_actSta (r v : BitVec 32) :
    getBits pwmPrescalShift pwmPrescalWidth (setBits pwmActStaShift 1 r v)
      = getBits pwmPrescalShift pwmPrescalWidth r := by
  rw [setBits_eq, getBits_eq, getBits_eq]
  exact BitField.get_set_of_le (by decide) (by decide)

/-- The enable bit of the dead zone lies below its length. -/
theorem keepsFields_zoneEnable (regs : Regs) (hsel : sel ≠ 8)
    (uninit : Nat) :
    KeepsFields regs (writeField regs (getPdzcrRegOffset sel uninit)
      pwmDzEnShift pwmDzEnWidth 0) := by
  have hne := fun o => pdzcr_ne hsel uninit o
  constructor
  · intro o
    unfold sourceField
    rw [writeField_of_ne _ _ _ _ (hne o).1.symm]
  · intro o
    unfold divMField
    rw [writeField_of_ne _ _ _ _ (hne o).1.symm]
  · intro o
    unfold prescalField
    rw [writeField_of_ne _ _ _ _ (hne o).2.1.symm]
  · intro o
    unfold activeField
    rw [writeField_of_ne _ _ _ _ (hne o).2.2.symm]
  · intro o
    unfold periodField
    rw [writeField_of_ne _ _ _ _ (hne o).2.2.symm]
  · intro o uninit' ho
    unfold zoneField
    rw [pdzcr_uninit ho, pdzcr_uninit hsel]
    by_cases hsame : getPdzcrRegOffset o 0 = getPdzcrRegOffset sel 0
    · rw [hsame, writeField_self, getBits_eq, getBits_eq,
        BitField.get_set_of_lt (by decide) (by decide) (by decide) (by decide)]
    · rw [writeField_of_ne _ _ _ _ hsame]

/-! ## The functions -/

theorem keepsFields_gates (regs : Regs) (sel bind : Channel) {val : BitVec 32}
    (hval : val.toNat < 2 ^ pwmClkGatingWidth) :
    KeepsFields regs (writeBoth regs (getPccrRegOffset sel)
      (getPccrRegOffset bind) pwmClkGatingShift pwmClkGatingWidth val) :=
  (keepsFields_gate regs sel hval).trans (keepsFields_gate _ bind hval)

theorem keepsFields_setPolarity (cfg : SunxiPwmConfig) (sel : Channel)
    (polarity : PwmPolarity) (regs : Regs) :
    KeepsFields regs (sunxiPwmSetPolarity cfg sel polarity regs) := by
  unfold sunxiPwmSetPolarity
  cases cfg.bindPwm with
  | none => exact keepsFields_pcr sel (getPrescal_actSta _ _)
  | some bind =>
    refine (keepsFields_pcr sel (getPrescal_actSta _ _)).trans
      (keepsFields_pcr bind ?_)
    -- Both registers are read before either is written.
    by_cases hsame : pcrOffset bind = pcrOffset sel
    · rw [hsame, Function.update_self, getPrescal_actSta, getPrescal_actSta]
    · rw [Function.update_of_ne hsame, getPrescal_actSta]

theorem keepsFields_enable (cfg : SunxiPwmConfig) (sel : Channel)
    (env : ApplyEnv) (regs : Regs) :
    KeepsFields regs (sunxiPwmEnable cfg sel env regs).1 := by
  refine KeepsFields.trans ?_ (keepsFields_setPolarity cfg sel .normal _)
  cases cfg.bindPwm with
  | none =>
    dsimp only [sunxiPwmEnableSingle]
    split_ifs
    · exact KeepsFields.refl regs
    · exact KeepsFields.refl regs
    · exact KeepsFields.refl regs
    · exact (keepsFields_gate regs sel (by decide)).trans
        (keepsFields_per _ _ _ _)
  | some bind =>
    dsimp only [sunxiPwmEnableDual]
    split_ifs
    · exact KeepsFields.refl regs
    · exact KeepsFields.refl regs
    · exact KeepsFields.refl regs
    · exact KeepsFields.refl regs
    · exact ((keepsFields_gates regs sel bind (by decide)).trans
        (keepsFields_per _ _ _ _)).trans (keepsFields_per _ _ _ _)

/-- Only a pair writes its dead zone register, which channel 8 lacks. -/
theorem keepsFields_disable (env : ApplyEnv) (regs : Regs)
    (hsel : cfg.bindPwm ≠ none → sel ≠ 8) :
    KeepsFields regs (sunxiPwmDisable cfg sel env regs) := by
  unfold sunxiPwmDisable
  cases hbind : cfg.bindPwm with
  | none =>
    dsimp only [sunxiPwmDisableSingle]
    split_ifs
    · exact KeepsFields.refl regs
    · exact (keepsFields_per regs _ _ _).trans
        (keepsFields_gate _ sel (by decide))
    · exact keepsFields_per regs _ _ _
  | some bind =>
    dsimp only [sunxiPwmDisableDual]
    split_ifs
    · exact KeepsFields.refl regs
    · exact KeepsFields.refl regs
    · exact (((keepsFields_per regs _ _ _).trans (keepsFields_per _ _ _ _)).trans
        (keepsFields_gates _ sel bind (by decide))).trans
          (keepsFields_zoneEnable _ (hsel (by simp [hbind])) _)

theorem keepsFields_applyPolarity (cfg : SunxiPwmConfig) (sel : Channel)
    (env : ApplyEnv) (old st : PwmState) (regs : Regs) (hsel : cfg.bindPwm ≠ none → sel ≠ 8) :
    KeepsFields regs (applyPolarity cfg sel env old st regs).1 := by
  unfold applyPolarity
  split_ifs
  · exact (keepsFields_disable env regs hsel).trans
      (keepsFields_setPolarity cfg sel _ _)
  · exact keepsFields_setPolarity cfg sel _ _
  · exact KeepsFields.refl regs

/-- A call that enables the channel keeps what its configuration writes. -/
theorem keepsFields_apply (cfg : SunxiPwmConfig) (sel : Channel)
    (env : ApplyEnv) (old : PwmState) (regs : Regs) (hon : st.enabled = true) :
    KeepsFields (sunxiPwmConfig cfg sel env.uninit (intOfU64 st.dutyCycle)
        (intOfU64 st.period) (applyPolarity cfg sel env old st regs).1)
      (sunxiPwmApply cfg sel env old st regs).1 := by
  unfold sunxiPwmApply
  simp only [hon, Bool.true_eq_false, if_false]
  split_ifs
  · exact keepsFields_enable cfg sel env _
  · exact KeepsFields.refl _

end LonganPi.Pwm
