import LonganPi.Errno
import Mathlib.Algebra.Ring.Int.Defs
import Mathlib.Algebra.Ring.Nat
import Mathlib.Logic.Function.Basic

/-!
# The engine clocks of `cedar_ve.c`

`IOCTL_ENGINE_REQ` and `IOCTL_ENGINE_REL` count the users of the video
engine in `ref_count` and switch its clocks with the first and the last one.
Suspend switches the clocks off, and resume switches them on again.

The model is the build without `USE_CEDAR_ENGINE`.  Both ioctls run under
one semaphore, so each is one step.  The outcome of each
`clk_prepare_enable` and of `down_interruptible` is part of the label of a
step.  `ref_count` is a C `int`, which wraps in the kernel.
-/

namespace LonganPi.Ve

/-! ## State -/

/-- The builds that differ in their clocks and resets. -/
inductive Soc where
  /-- `CONFIG_ARCH_SUN50IW12P1`. -/
  | sun50iw12p1
  | other
  deriving DecidableEq, Repr

/-- The clocks of the engine. -/
inductive Clk where
  | bus
  | mbus
  | ve
  | busVe
  | busVe3
  | mbusVe3
  deriving DecidableEq, Repr

/-- The clocks of a build, in the order in which they are enabled. -/
def engineClks : Soc → List Clk
  | .sun50iw12p1 => [.busVe, .busVe3, .mbusVe3, .ve]
  | .other => [.bus, .mbus, .ve]

/-- What the engine ioctls change. -/
structure Engine where
  /-- `bInitEndFlag` is 1. -/
  bInitEndFlag : Bool
  refCount : Int
  /-- `clk_status` is 1. -/
  clkStatus : Bool
  /-- The enable count of each clock. -/
  enableCount : Clk → Int
  /-- The reset lines are deasserted. -/
  resetDeasserted : Bool
  /-- The calls of `pm_runtime_get_sync` less those of
  `pm_runtime_put_sync`. -/
  pmBalance : Int
  /-- Not between a suspend and the next resume. -/
  awake : Bool

/-- The engine after `cedardev_init`. -/
def Engine.init : Engine where
  bInitEndFlag := true
  refCount := 0
  clkStatus := false
  enableCount := fun _ => 0
  resetDeasserted := false
  pmBalance := 0
  awake := true

/-- The value that an `int` keeps. -/
def cInt (x : Int) : Int := Int.bmod x (2 ^ 32)

/-! ## Switching the clocks -/

/-- `clk_prepare_enable` for the clocks of a list, up to the first failure. -/
def clkPrepareEnable (ok : Clk → Bool) : List Clk → Engine → Engine × Int
  | [], s => (s, 0)
  | c :: cs, s =>
    if ok c then
      clkPrepareEnable ok cs { s with
        enableCount := Function.update s.enableCount c (s.enableCount c + 1) }
    else (s, eInval)

/-- `clk_disable_unprepare` for the clocks of a list. -/
def clkDisableUnprepare : List Clk → Engine → Engine
  | [], s => s
  | c :: cs, s =>
    clkDisableUnprepare cs { s with
      enableCount := Function.update s.enableCount c (s.enableCount c - 1) }

/-- `enable_cedar_hw_clk`.  A clock that fails leaves what was done before
it. -/
def enableCedarHwClk (soc : Soc) (ok : Clk → Bool) (s : Engine) :
    Engine × Int :=
  if s.bInitEndFlag = false then (s, eInval)
  else if s.clkStatus = true then (s, 0)
  else
    let s := { s with clkStatus := true }
    let s := { s with pmBalance := s.pmBalance + 1 }
    let s := { s with resetDeasserted := true }
    clkPrepareEnable ok (engineClks soc) s

/-- `disable_cedar_hw_clk`.  Its result is always 0. -/
def disableCedarHwClk (soc : Soc) (s : Engine) : Engine :=
  if s.clkStatus = false then s
  else
    let s := { s with clkStatus := false }
    let s := clkDisableUnprepare (engineClks soc).reverse s
    let s := { s with resetDeasserted := false }
    { s with pmBalance := s.pmBalance - 1 }

/-! ## Entry points -/

/-- `IOCTL_ENGINE_REQ`. -/
def ioctlEngineReq (soc : Soc) (ok : Clk → Bool) (interrupted : Bool)
    (s : Engine) : Engine × Int :=
  if interrupted then (s, eRestartsys)
  else if s.refCount < 0 then (s, eFault)
  else
    let s := { s with refCount := cInt (s.refCount + 1) }
    if s.refCount = 1 then
      let r := enableCedarHwClk soc ok s
      if r.2 < 0 then
        ({ r.1 with refCount := cInt (r.1.refCount - 1) }, eFault)
      else (r.1, r.2)
    else (s, 0)

/-- `IOCTL_ENGINE_REL`.  The count is lowered before it is checked. -/
def ioctlEngineRel (soc : Soc) (interrupted : Bool) (s : Engine) :
    Engine × Int :=
  if interrupted then (s, eRestartsys)
  else
    let s := { s with refCount := cInt (s.refCount - 1) }
    if s.refCount < 0 then (s, eFault)
    else if s.refCount = 0 then (disableCedarHwClk soc s, 0)
    else (s, 0)

/-- `sunxi_cedar_suspend`. -/
def sunxiCedarSuspend (soc : Soc) (s : Engine) : Engine × Int :=
  (disableCedarHwClk soc s, 0)

/-- `sunxi_cedar_resume`. -/
def sunxiCedarResume (soc : Soc) (ok : Clk → Bool) (s : Engine) :
    Engine × Int :=
  if s.refCount = 0 then (s, 0)
  else
    let r := enableCedarHwClk soc ok s
    if r.2 < 0 then (r.1, eFault) else (r.1, 0)

/-- A call of a client or of the power management. -/
inductive EngineOp where
  | req (interrupted : Bool)
  | rel (interrupted : Bool)
  | suspend
  | resume
  deriving DecidableEq, Repr

/-- One call, with the outcomes of its clock calls.  No ioctl runs between a
suspend and the next resume. -/
def engineStep (soc : Soc) (ok : Clk → Bool) (s : Engine) :
    EngineOp → Option (Engine × Int)
  | .req interrupted =>
    if s.awake then some (ioctlEngineReq soc ok interrupted s) else none
  | .rel interrupted =>
    if s.awake then some (ioctlEngineRel soc interrupted s) else none
  | .suspend =>
    if s.awake then
      let r := sunxiCedarSuspend soc s
      some ({ r.1 with awake := false }, r.2)
    else none
  | .resume =>
    if s.awake then none
    else
      let r := sunxiCedarResume soc ok s
      some ({ r.1 with awake := true }, r.2)

/-- The enabled calls, each with its result. -/
inductive EngineRan (soc : Soc) (ok : Clk → Bool) (s : Engine) :
    EngineOp → Engine × Int → Prop
  | req {interrupted : Bool} : s.awake = true →
      EngineRan soc ok s (.req interrupted) (ioctlEngineReq soc ok interrupted s)
  | rel {interrupted : Bool} : s.awake = true →
      EngineRan soc ok s (.rel interrupted) (ioctlEngineRel soc interrupted s)
  | suspend : s.awake = true →
      EngineRan soc ok s .suspend
        ({ (sunxiCedarSuspend soc s).1 with awake := false },
          (sunxiCedarSuspend soc s).2)
  | resume : s.awake = false →
      EngineRan soc ok s .resume
        ({ (sunxiCedarResume soc ok s).1 with awake := true },
          (sunxiCedarResume soc ok s).2)

theorem engineStep_ran {soc : Soc} {ok : Clk → Bool} {s : Engine}
    {op : EngineOp} {r : Engine × Int} (hstep : engineStep soc ok s op = some r) :
    EngineRan soc ok s op r := by
  unfold engineStep at hstep
  cases hawake : s.awake with
  | true =>
    cases op with
    | req interrupted =>
      simp only [hawake, if_true, Option.some.injEq] at hstep
      rw [← hstep]
      exact .req hawake
    | rel interrupted =>
      simp only [hawake, if_true, Option.some.injEq] at hstep
      rw [← hstep]
      exact .rel hawake
    | suspend =>
      simp only [hawake, if_true, Option.some.injEq] at hstep
      rw [← hstep]
      exact .suspend hawake
    | resume => simp [hawake] at hstep
  | false =>
    cases op with
    | resume =>
      simp only [hawake, Bool.false_eq_true, if_false, Option.some.injEq] at hstep
      rw [← hstep]
      exact .resume hawake
    | req interrupted => simp [hawake] at hstep
    | rel interrupted => simp [hawake] at hstep
    | suspend => simp [hawake] at hstep

end LonganPi.Ve
