import LonganPi.Ve.Engine

/-!
# Waiting for the interrupts of the codecs

Each codec has a flag and a value.  The interrupt handler sets both.  A wait
clears the value, looks at the flag, sleeps until the flag is set or the time
is over, clears the flag and returns the value.  `cedardev_open` and
`cedardev_release` write the flags of all codecs while `ref_count` is 0.

A wait is five steps here, and the steps of other files and the interrupts
fall between them.  The lock of the codec admits one wait at a time.  Two
counts and `unreported` are kept for the theorems and read by no function.
-/

namespace LonganPi.Ve

/-! ## State -/

/-- The codecs that have an interrupt to wait for. -/
inductive Codec where
  | de
  | en
  | jpeg
  deriving DecidableEq, Repr

/-- How far a wait has come. -/
inductive WaitPhase where
  /-- The value has been cleared. -/
  | started
  /-- The flag has been looked at. -/
  | sampled
  /-- `wait_event_timeout` has returned. -/
  | ended
  /-- The flag has been cleared. -/
  | cleared
  deriving DecidableEq, Repr

/-- The interrupt state of a codec. -/
structure IrqChannel where
  /-- `de_irq_flag`, `en_irq_flag` or `jpeg_irq_flag`. -/
  irqFlag : Bool
  /-- `de_irq_value`, `en_irq_value` or `jpeg_irq_value`. -/
  irqValue : Bool
  /-- The file that waits, and how far it has come. -/
  wait : Option (Nat × WaitPhase)
  /-- The interrupts so far. -/
  interrupts : Nat
  /-- The waits so far that returned 1. -/
  completions : Nat
  /-- The flag stands for an interrupt that no wait returns for. -/
  unreported : Bool
  deriving DecidableEq, Repr

/-- The part of the cedar device that the waits depend on. -/
structure VeIrq where
  /-- `ref_count` and the clocks. -/
  engine : Engine
  files : Nat → Bool
  chan : Codec → IrqChannel

namespace IrqChannel

/-- The zeroed channel of `cedardev_init`. -/
def init : IrqChannel where
  irqFlag := false
  irqValue := false
  wait := none
  interrupts := 0
  completions := 0
  unreported := false

/-- `irq_flag = 0` of an open or of a wait. -/
def clearFlag (ch : IrqChannel) : IrqChannel :=
  { ch with irqFlag := false, unreported := false }

/-- `irq_flag = 1` of a close.  An interrupt that set the flag before stays
behind it. -/
def setFlag (ch : IrqChannel) : IrqChannel := { ch with irqFlag := true }

/-- The wait is about to return the value, and the value is 0. -/
def lateInterrupt (ch : IrqChannel) : Bool :=
  match ch.wait with
  | some (_, .cleared) => !ch.irqValue
  | _ => false

/-- What `VideoEngineInterupt` writes.  An interrupt between the last two
steps of a wait is the one that the wait returns for. -/
def videoEngineInterupt (ch : IrqChannel) : IrqChannel :=
  { ch with
    irqValue := true
    irqFlag := true
    interrupts := ch.interrupts + 1
    unreported := if ch.lateInterrupt then ch.unreported else true }

/-- A step of `IOCTL_WAIT_VE_DE`, `IOCTL_WAIT_VE_EN` or
`IOCTL_WAIT_JPEG_DEC` of file `f`.  `timedOut` says how the wait ends. -/
def waitStep (ch : IrqChannel) (f : Nat) (timedOut : Bool) :
    Option IrqChannel :=
  match ch.wait with
  | none => some { ch with irqValue := false, wait := some (f, .started) }
  | some (g, phase) =>
    if g ≠ f then none
    else match phase with
      | .started =>
        some { ch with
          irqValue := if ch.irqFlag then true else ch.irqValue
          wait := some (f, .sampled) }
      | .sampled =>
        if ch.irqFlag || timedOut then some { ch with wait := some (f, .ended) }
        else none
      | .ended => some { ch.clearFlag with wait := some (f, .cleared) }
      | .cleared =>
        some { ch with
          wait := none
          completions := ch.completions + ch.irqValue.toNat }

end IrqChannel

namespace VeIrq

/-- The device after `cedardev_init`. -/
def init : VeIrq where
  engine := Engine.init
  files := fun _ => false
  chan := fun _ => IrqChannel.init

/-- File `f` waits for a codec. -/
def waiting (s : VeIrq) (f : Nat) : Bool :=
  [Codec.de, .en, .jpeg].any fun c => (s.chan c).wait.any fun w => w.1 = f

/-! ## The calls -/

/-- `cedardev_open`. -/
def cedardevOpen (s : VeIrq) (f : Nat) (kmallocOk interrupted : Bool) :
    VeIrq × Int :=
  if s.engine.bInitEndFlag = false then (s, -1)
  else if kmallocOk = false then (s, eNomem)
  else if interrupted then (s, eRestartsys)
  else
    let s := if s.engine.refCount = 0 then
        { s with chan := fun c => (s.chan c).clearFlag }
      else s
    ({ s with files := Function.update s.files f true }, 0)

/-- `cedardev_release`.  The file is gone also when it was interrupted. -/
def cedardevRelease (s : VeIrq) (f : Nat) (interrupted : Bool) :
    VeIrq × Int :=
  let s := { s with files := Function.update s.files f false }
  if interrupted then (s, eRestartsys)
  else if s.engine.refCount = 0 then
    ({ s with chan := fun c => (s.chan c).setFlag }, 0)
  else (s, 0)

end VeIrq

/-- A call, a step of a wait, or an interrupt. -/
inductive IrqOp where
  | openFile (f : Nat) (kmallocOk interrupted : Bool)
  | closeFile (f : Nat) (interrupted : Bool)
  /-- `IOCTL_ENGINE_REQ`, with the outcome of each clock call. -/
  | req (f : Nat) (ok : Clk → Bool) (interrupted : Bool)
  /-- `IOCTL_ENGINE_REL`. -/
  | rel (f : Nat) (interrupted : Bool)
  | wait (f : Nat) (c : Codec) (timedOut : Bool)
  | interrupt (c : Codec)

/-- One step.  A file that waits is not closed. -/
def irqStep (soc : Soc) (s : VeIrq) : IrqOp → Option VeIrq
  | .openFile f kmallocOk interrupted =>
    if s.files f then none else some (s.cedardevOpen f kmallocOk interrupted).1
  | .closeFile f interrupted =>
    if s.files f && !s.waiting f then some (s.cedardevRelease f interrupted).1
    else none
  | .req f ok interrupted =>
    if s.files f then
      some { s with engine := (ioctlEngineReq soc ok interrupted s.engine).1 }
    else none
  | .rel f interrupted =>
    if s.files f then
      some { s with engine := (ioctlEngineRel soc interrupted s.engine).1 }
    else none
  | .wait f c timedOut =>
    if s.files f then do
      let ch ← (s.chan c).waitStep f timedOut
      some { s with chan := Function.update s.chan c ch }
    else none
  | .interrupt c =>
    some { s with
      chan := Function.update s.chan c (s.chan c).videoEngineInterupt }

end LonganPi.Ve
