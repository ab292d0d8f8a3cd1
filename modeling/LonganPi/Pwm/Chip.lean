import LonganPi.Errno
import LonganPi.Pwm.Registers
import Mathlib.Algebra.Ring.Int.Defs

/-!
# The functions of `pwm-sunxi-enhance.c`

The PWM core hands `sunxi_pwm_apply` a whole state.  The driver compares it
with the state that the core stored last, and calls its own disable,
polarity, configure and enable functions.  A channel without a partner uses
their `single` versions, and a bound pair uses the `dual` ones.

`period` and `duty_cycle` have 64 bits in the core and become an `int` on the
way to the configure functions.  A division by a period of 0 gives 0, as the
machine does; the core lets no period of 0 through.
-/

namespace LonganPi.Pwm

/-! ## State -/

inductive PwmPolarity where
  | normal
  | inversed
  deriving DecidableEq, Repr

/-- `struct pwm_state`. -/
structure PwmState where
  period : BitVec 64
  dutyCycle : BitVec 64
  polarity : PwmPolarity
  enabled : Bool
  deriving DecidableEq, Repr

/-- `struct sunxi_pwm_config`. -/
structure SunxiPwmConfig where
  deadTime : BitVec 32
  /-- The partner of the channel.  `none` is a `bind_pwm` of 255. -/
  bindPwm : Option Channel
  clkBypassOutput : BitVec 32
  deriving DecidableEq, Repr

/-- The results of the lookups for the pin of a channel. -/
structure PinLookups where
  /-- `of_parse_phandle` finds the node. -/
  phandle : Bool
  /-- `of_find_device_by_node` finds the device. -/
  device : Bool
  /-- The result of `sunxi_pwm_pin_set_state`. -/
  pinState : Int
  deriving DecidableEq, Repr

/-- What a call finds outside the registers: the lookups for the channel and
for its partner, when it is disabled and when it is enabled, and the value of
a variable that is not initialised. -/
structure ApplyEnv where
  disableOwn : PinLookups
  disableBound : PinLookups
  enableOwn : PinLookups
  enableBound : PinLookups
  uninit : Nat
  deriving DecidableEq, Repr

/-- An `int` from 64 bits. -/
def intOfU64 (x : BitVec 64) : Int := (x.setWidth 32).toInt

/-- An `int` as an `unsigned int`. -/
def u32OfInt (x : Int) : Nat := (BitVec.ofInt 32 x).toNat

/-- An `int` as an `unsigned long long`. -/
def u64OfInt (x : Int) : Nat := (BitVec.ofInt 64 x).toNat

/-! ## Polarity -/

/-- The active state bit for a polarity. -/
def actSta : PwmPolarity → BitVec 32
  | .normal => 1
  | .inversed => 0

/-- `sunxi_pwm_set_polarity_single`. -/
def setPolaritySingle (sel : Channel) (polarity : PwmPolarity) (regs : Regs) :
    Regs :=
  writeField regs (pcrOffset sel) pwmActStaShift 1 (actSta polarity)

/-- `sunxi_pwm_set_polarity_dual`.  The partner gets the other polarity.  Both
registers are read before either is written. -/
def setPolarityDual (sel bind : Channel) (polarity : PwmPolarity)
    (regs : Regs) : Regs :=
  let temp0 := setBits pwmActStaShift 1 (regs (pcrOffset sel)) (actSta polarity)
  let temp1 := setBits pwmActStaShift 1 (regs (pcrOffset bind))
    (match polarity with
      | .normal => 0
      | .inversed => 1)
  Function.update (Function.update regs (pcrOffset sel) temp0)
    (pcrOffset bind) temp1

/-- `sunxi_pwm_set_polarity`. -/
def sunxiPwmSetPolarity (cfg : SunxiPwmConfig) (sel : Channel)
    (polarity : PwmPolarity) (regs : Regs) : Regs :=
  match cfg.bindPwm with
  | none => setPolaritySingle sel polarity regs
  | some bind => setPolarityDual sel bind polarity regs

/-! ## Period and duty cycle -/

/-- `PRESCALE_MAX`. -/
def prescaleMax : Nat := 256

/-- `pre_scal`: the value of the divider field, and the divider. -/
def preScal : List (Nat × Nat) :=
  [(0, 1), (1, 2), (2, 4), (3, 8), (4, 16), (5, 32), (6, 64), (7, 128),
    (8, 256)]

/-- What the search for the dividers has found so far. -/
structure Dividers where
  entireCycles : Nat
  prescale : Nat
  divM : Nat
  deriving DecidableEq, Repr

/-- The inner loop of `sunxi_pwm_config_single` from `prescale` on, with
`fuel` iterations left: the cycles, the prescaler, and whether they fit. -/
def prescaleLoop (c preDiv : Nat) :
    (fuel prescale entireCycles : Nat) → Nat × Nat × Bool
  | 0, prescale, entireCycles => (entireCycles, prescale, false)
  | fuel + 1, prescale, _ =>
    let entireCycles := c / preDiv / (prescale + 1)
    if entireCycles ≤ 65536 then (entireCycles, prescale, true)
    else prescaleLoop c preDiv fuel (prescale + 1) entireCycles

/-- The outer loop of `sunxi_pwm_config_single`. -/
def preScalLoop (c : Nat) : List (Nat × Nat) → Dividers → Dividers
  | [], d => d
  | (reg, preDiv) :: rest, d =>
    if d.entireCycles ≤ 65536 then d
    else
      let r := prescaleLoop c preDiv (prescaleMax + 1) 0 d.entireCycles
      preScalLoop c rest
        { entireCycles := r.1
          prescale := r.2.1
          divM := if r.2.2 then reg else d.divM }

/-- The clock source, and the bypass when the channel is a clock of the
chip. -/
def selectClock (cfg : SunxiPwmConfig) (sel : Channel) (src : BitVec 32)
    (regs : Regs) : Regs :=
  let regs :=
    if cfg.clkBypassOutput = 1 then
      writeField regs (getPccrRegOffset sel) (regBypassShift sel) 1 1
    else regs
  writeField regs (getPccrRegOffset sel) pwmClkSrcShift pwmClkSrcWidth src

/-- The writes of `sunxi_pwm_config_single` after its search. -/
def writeCycles (sel : Channel) (d : Dividers) (activeCycles : Nat)
    (regs : Regs) : Regs :=
  let entireCycles := if d.entireCycles = 0 then 1 else d.entireCycles
  let regs := writeField regs (getPccrRegOffset sel) pwmDivMShift pwmDivMWidth
    (BitVec.ofNat 32 d.divM)
  let regs := writeField regs (pcrOffset sel) pwmPrescalShift pwmPrescalWidth
    (BitVec.ofNat 32 d.prescale)
  let regs := writeField regs (pprOffset sel) pwmActCyclesShift
    pwmActCyclesWidth (BitVec.ofNat 32 activeCycles)
  writeField regs (pprOffset sel) pwmPeriodCyclesShift pwmPeriodCyclesWidth
    (BitVec.ofNat 32 (entireCycles - 1))

/-- The dividers for a clock of `clk` Hz. -/
def searchDividers (clk : Nat) (periodNs : Int) : Dividers :=
  let c := clk * u64OfInt periodNs % 2 ^ 64 / 1000000000
  preScalLoop c preScal { entireCycles := c, prescale := 0, divM := 0 }

/-- The active cycles of a period of `entireCycles`. -/
def activeCycles (entireCycles : Nat) (dutyNs periodNs : Int) : Nat :=
  entireCycles * u64OfInt dutyNs % 2 ^ 64 / u32OfInt periodNs

/-- `sunxi_pwm_config_single`. -/
def sunxiPwmConfigSingle (cfg : SunxiPwmConfig) (sel : Channel)
    (dutyNs periodNs : Int) (regs : Regs) : Regs :=
  if 0 < periodNs ∧ periodNs ≤ 10 then
    let regs := writeField regs (getPccrRegOffset sel) (regBypassShift sel) 1 1
    writeField regs (getPccrRegOffset sel) pwmClkSrcShift pwmClkSrcWidth 1
  else
    let (regs, clk) :=
      if 10 < periodNs ∧ periodNs ≤ 334 then
        (selectClock cfg sel 1 regs, 100000000)
      else if 334 < periodNs then (selectClock cfg sel 0 regs, 24000000)
      else (regs, 0)
    let d := searchDividers clk periodNs
    writeCycles sel d (activeCycles d.entireCycles dutyNs periodNs) regs

/-- The inner loop of `sunxi_pwm_config_dual`: the cycles, the dead zone, the
prescaler, and whether they fit. -/
def prescaleLoopDual (clk c deadTime preDiv : Nat) :
    (fuel prescale entireCycles clkTemp : Nat) → Nat × Nat × Nat × Bool
  | 0, prescale, entireCycles, clkTemp =>
    (entireCycles, clkTemp, prescale, false)
  | fuel + 1, prescale, _, _ =>
    let entireCycles := c / preDiv / (prescale + 1)
    let clkTemp := clk / (preDiv * (prescale + 1)) * deadTime / 1000000000
    if entireCycles ≤ 65536 ∧ clkTemp ≤ 256 then
      (entireCycles, clkTemp, prescale, true)
    else prescaleLoopDual clk c deadTime preDiv fuel (prescale + 1)
      entireCycles clkTemp

/-- A field of both clock control registers, or of both registers of another
kind. -/
def writeBoth (regs : Regs) (offset0 offset1 shift width : Nat)
    (val : BitVec 32) : Regs :=
  writeField (writeField regs offset0 shift width val) offset1 shift width val

/-- `sunxi_pwm_config_dual`.  The outer loop ends in its first iteration,
with a result or with an error. -/
def sunxiPwmConfigDual (cfg : SunxiPwmConfig) (sel bind : Channel)
    (uninit : Nat) (dutyNs periodNs : Int) (regs : Regs) : Regs × Int :=
  let pdzcr := getPdzcrRegOffset sel uninit
  let regs := writeField regs pdzcr pwmDzEnShift pwmDzEnWidth 1
  if u32OfInt dutyNs < cfg.deadTime.toNat
      ∨ regs pdzcr &&& (1 <<< pwmDzEnShift) = 0 then (regs, eInval)
  else
    let pccr0 := getPccrRegOffset sel
    let pccr1 := getPccrRegOffset bind
    if 0 < periodNs ∧ periodNs ≤ 10 then
      let regs := writeField regs pccr0 0x5 pwmBypassWidth 1
      let regs := writeField regs pccr0 pwmClkSrcShift pwmClkSrcWidth 1
      let regs := writeField regs pccr1 0x6 pwmBypassWidth 1
      (writeField regs pccr1 pwmClkSrcShift pwmClkSrcWidth 1, 0)
    else
      let (clk, src) : Nat × BitVec 32 :=
        if 10 < periodNs ∧ periodNs ≤ 334 then (100000000, 1)
        else if 334 < periodNs then (24000000, 0)
        else (0, 0)
      let regs := writeBoth regs pccr0 pccr1 pwmClkSrcShift pwmClkSrcWidth src
      let c := clk * u64OfInt periodNs % 2 ^ 64 / 1000000000
      let r := prescaleLoopDual clk c cfg.deadTime.toNat 1 (prescaleMax + 1)
        0 c 0
      if r.2.2.2 = false then (regs, eInval)
      else
        let active := activeCycles r.1 dutyNs periodNs
        let entireCycles := if r.1 = 0 then 1 else r.1
        -- The width is the shift here, so the old divider is not cleared.
        let regs := writeBoth regs pccr0 pccr1 pwmDivMShift pwmDivMShift 0
        let regs := writeBoth regs (pcrOffset sel) (pcrOffset bind)
          pwmPrescalShift pwmPrescalWidth (BitVec.ofNat 32 r.2.2.1)
        let regs := writeBoth regs (pprOffset sel) (pprOffset bind)
          pwmActCyclesShift pwmActCyclesWidth (BitVec.ofNat 32 active)
        let regs := writeBoth regs (pprOffset sel) (pprOffset bind)
          pwmPeriodCyclesShift pwmPeriodCyclesWidth
          (BitVec.ofNat 32 (entireCycles - 1))
        (writeField regs pdzcr pwmPdzintvShift pwmPdzintvWidth
          (BitVec.ofNat 32 r.2.1), 0)

/-- `sunxi_pwm_config`.  It returns 0 whatever the dual version returns. -/
def sunxiPwmConfig (cfg : SunxiPwmConfig) (sel : Channel) (uninit : Nat)
    (dutyNs periodNs : Int) (regs : Regs) : Regs :=
  match cfg.bindPwm with
  | none => sunxiPwmConfigSingle cfg sel dutyNs periodNs regs
  | some bind =>
    (sunxiPwmConfigDual cfg sel bind uninit dutyNs periodNs regs).1

/-! ## Enable and disable -/

/-- `sunxi_pwm_enable_single`. -/
def sunxiPwmEnableSingle (l : PinLookups) (sel : Channel) (regs : Regs) :
    Regs × Int :=
  if l.phandle = false then (regs, eNodev)
  else if l.device = false then (regs, eNodev)
  else if l.pinState ≠ 0 then (regs, l.pinState)
  else
    let regs := writeField regs (getPccrRegOffset sel) pwmClkGatingShift 1 1
    (writeField regs pwmPer sel 1 1, 0)

/-- `sunxi_pwm_enable_dual`. -/
def sunxiPwmEnableDual (l0 l1 : PinLookups) (sel bind : Channel)
    (regs : Regs) : Regs × Int :=
  if l0.phandle = false ∨ l0.device = false then (regs, eNodev)
  else if l1.phandle = false ∨ l1.device = false then (regs, eNodev)
  else if l0.pinState ≠ 0 then (regs, l0.pinState)
  else if l1.pinState ≠ 0 then (regs, l1.pinState)
  else
    let regs := writeBoth regs (getPccrRegOffset sel) (getPccrRegOffset bind)
      pwmClkGatingShift pwmClkGatingWidth 1
    let regs := writeField regs pwmPer sel 0x1 1
    (writeField regs pwmPer bind 0x1 1, 0)

/-- `sunxi_pwm_enable`.  It sets the normal polarity in the end, also when the
channel was not enabled. -/
def sunxiPwmEnable (cfg : SunxiPwmConfig) (sel : Channel) (env : ApplyEnv)
    (regs : Regs) : Regs × Int :=
  let r :=
    match cfg.bindPwm with
    | none => sunxiPwmEnableSingle env.enableOwn sel regs
    | some bind => sunxiPwmEnableDual env.enableOwn env.enableBound sel bind regs
  (sunxiPwmSetPolarity cfg sel .normal r.1, r.2)

/-- `sunxi_pwm_disable_single`.  The gate goes off with the last of the two
channels that share it. -/
def sunxiPwmDisableSingle (l : PinLookups) (sel : Channel) (regs : Regs) :
    Regs :=
  if l.phandle = false ∨ l.device = false then regs
  else
    let regs := writeField regs pwmPer sel 0x1 0
    if getBits (sel / 2 * 2) 2 (regs pwmPer) = 0 then
      writeField regs (getPccrRegOffset sel) pwmClkGatingShift 0x1 0
    else regs

/-- `sunxi_pwm_disable_dual`. -/
def sunxiPwmDisableDual (l0 l1 : PinLookups) (sel bind : Channel)
    (uninit : Nat) (regs : Regs) : Regs :=
  if l0.phandle = false ∨ l0.device = false then regs
  else if l1.phandle = false ∨ l1.device = false then regs
  else
    let regs := writeField regs pwmPer sel 0x1 0
    let regs := writeField regs pwmPer bind 0x1 0
    let regs := writeBoth regs (getPccrRegOffset sel) (getPccrRegOffset bind)
      pwmClkGatingShift 0x1 0
    writeField regs (getPdzcrRegOffset sel uninit) pwmDzEnShift pwmDzEnWidth 0

/-- `sunxi_pwm_disable`. -/
def sunxiPwmDisable (cfg : SunxiPwmConfig) (sel : Channel) (env : ApplyEnv)
    (regs : Regs) : Regs :=
  match cfg.bindPwm with
  | none => sunxiPwmDisableSingle env.disableOwn sel regs
  | some bind =>
    sunxiPwmDisableDual env.disableOwn env.disableBound sel bind env.uninit regs

/-! ## Apply -/

/-- The first part of `sunxi_pwm_apply`: a change of polarity stops the
channel.  The second component is `enabled`. -/
def applyPolarity (cfg : SunxiPwmConfig) (sel : Channel) (env : ApplyEnv)
    (old state : PwmState) (regs : Regs) : Regs × Bool :=
  if state.polarity ≠ old.polarity then
    let regs := if old.enabled then sunxiPwmDisable cfg sel env regs else regs
    (sunxiPwmSetPolarity cfg sel state.polarity regs, false)
  else (regs, old.enabled)

/-- `sunxi_pwm_apply`.  `old` is `pwm->state`. -/
def sunxiPwmApply (cfg : SunxiPwmConfig) (sel : Channel) (env : ApplyEnv)
    (old state : PwmState) (regs : Regs) : Regs × Int :=
  let (regs, enabled) := applyPolarity cfg sel env old state regs
  if state.enabled = false then
    (if enabled then sunxiPwmDisable cfg sel env regs else regs, 0)
  else
    let regs := sunxiPwmConfig cfg sel env.uninit (intOfU64 state.dutyCycle)
      (intOfU64 state.period) regs
    if enabled = false then sunxiPwmEnable cfg sel env regs else (regs, 0)

/-- A channel: the registers, and the state that the core has stored. -/
structure Device where
  regs : Regs
  state : PwmState

/-- A call of the core, which stores the state when the call returns 0. -/
def pwmApplyState (cfg : SunxiPwmConfig) (sel : Channel) (d : Device)
    (env : ApplyEnv) (st : PwmState) : Device :=
  let r := sunxiPwmApply cfg sel env d.state st d.regs
  { regs := r.1, state := if r.2 = 0 then st else d.state }

end LonganPi.Pwm
