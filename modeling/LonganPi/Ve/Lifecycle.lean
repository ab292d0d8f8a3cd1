import LonganPi.Lib.Ledger
import LonganPi.Ve.Engine

/-!
# Init and exit of `cedar_ve.c`

`cedardev_init` and `cedardev_exit`, as what they acquire and release, and
what they do with the one pointer `cedar_devp`.

A block that `kmalloc` returns is named by a number that is used once, so the
pointer can dangle: `.devp n` is in the ledger as long as block `n` is not
freed.  An access through `cedar_devp` when its block is not in the ledger is
counted in `badAccess`.  The clocks and resets are managed by the driver core
and belong to the device, not to an attempt.  They can fail, and are not in
the ledger.
-/

namespace LonganPi.Ve.Lifecycle

/-- The options of a build that `cedardev_init` looks at. -/
structure VeBuild where
  soc : Soc
  /-- `CONFIG_ARCH_SUN8IW19P1`, which sets the parent of the clock. -/
  sun8iw19p1 : Bool
  /-- `VE_POWER_MANAGE_VALID`, which maps a fourth region. -/
  powerManage : Bool
  /-- `CONFIG_DEBUG_FS`. -/
  debugFs : Bool
  /-- `CONFIG_SUNXI_MPP`: the directory is one of another module. -/
  sunxiMpp : Bool
  deriving DecidableEq, Repr

/-- What stands between mapping the registers and writing them. -/
inductive ClkStep
  | devmClkGet (c : Clk)
  | clkGetParent
  | clkSetParent
  | resetControlGet
  | resetControlGetShared
  deriving DecidableEq, Repr

/-- The clock and reset steps of a build, in order. -/
def clkSteps (b : VeBuild) : List ClkStep :=
  let clks := match b.soc with
    | .sun50iw12p1 => [.devmClkGet .ve, .devmClkGet .busVe, .devmClkGet .busVe3,
        .devmClkGet .mbusVe3]
    | .other => [.devmClkGet .ve, .devmClkGet .bus, .devmClkGet .mbus]
  let resets := match b.soc with
    | .sun50iw12p1 => [.resetControlGet, .resetControlGetShared]
    | .other => [.resetControlGet]
  clks ++ [.clkGetParent] ++ (if b.sun8iw19p1 then [.clkSetParent] else []) ++ resets

/-- What the kernel answers to the steps of one attempt.  The numbers are
return values. -/
structure InitOutcome where
  kmalloc : Bool
  /-- `register_chrdev_region` or `alloc_chrdev_region`. -/
  region : Int
  /-- The major number that `alloc_chrdev_region` finds. -/
  allocMajor : Nat
  cdevAdd : Int
  classCreate : Bool
  deviceCreate : Bool
  requestIrq : Int
  /-- `of_iomap`, by the index of the region. -/
  ofIomap : Nat → Bool
  clkStep : ClkStep → Bool
  sysfsCreateGroup : Int
  /-- The directory of debugfs is there, or is created. -/
  debugRoot : Bool
  debugfsCreateFile : Bool
  /-- `kmalloc` of `ve_debug_proc_info.data`. -/
  procBuf : Bool
  regulatorGet : Bool

/-- What an attempt acquires. -/
inductive VeResource
  | devp (n : Nat)
  | region (major minor : Nat)
  /-- The `cdev` lies in the block. -/
  | cdev (n : Nat)
  | deviceClass
  | device
  | irq
  | mapping (i : Nat)
  | sysfsGroup
  | debugDir
  | debugFile
  | procBuf
  | pmRuntime
  | regulator
  deriving DecidableEq, Repr

/-- The module: its globals, what it holds, and the fields of `*cedar_devp`
that `cedardev_exit` looks at. -/
structure VeDriver where
  cedarDevp : Option Nat
  ledger : Ledger VeResource
  badAccess : Nat
  nextBlock : Nat
  gDevMajor : Nat
  gDevMinor : Nat
  /-- `debug_root` is not `NULL`. -/
  debugRoot : Bool
  /-- `regulator` is not `NULL`. -/
  regulator : Bool
  bInitEndFlag : Bool

namespace VeDriver

/-- The module when it is loaded, with its two parameters. -/
def load (major minor : Nat) : VeDriver where
  cedarDevp := none
  ledger := .empty
  badAccess := 0
  nextBlock := 0
  gDevMajor := major
  gDevMinor := minor
  debugRoot := false
  regulator := false
  bInitEndFlag := false

def acquire (s : VeDriver) (r : VeResource) : VeDriver :=
  { s with ledger := s.ledger.acquire r }

def release (s : VeDriver) (r : VeResource) : VeDriver :=
  { s with ledger := s.ledger.release r }

/-- `cedar_devp` points to a block that is not freed. -/
def Live (s : VeDriver) : Prop :=
  ∃ n ∈ s.cedarDevp, .devp n ∈ s.ledger.held

instance (s : VeDriver) : Decidable s.Live :=
  inferInstanceAs (Decidable (∃ n ∈ s.cedarDevp, .devp n ∈ s.ledger.held))

/-- An access through `cedar_devp`. -/
def access (s : VeDriver) : VeDriver :=
  if s.Live then s else { s with badAccess := s.badAccess + 1 }

/-- `kmalloc` and `memset` of `*cedar_devp`. -/
def kmallocDevp (s : VeDriver) : VeDriver :=
  { s with
    cedarDevp := some s.nextBlock
    ledger := s.ledger.acquire (.devp s.nextBlock)
    nextBlock := s.nextBlock + 1
    debugRoot := false
    regulator := false
    bInitEndFlag := false }

/-- `kfree(cedar_devp)`.  The pointer stays. -/
def kfreeDevp (s : VeDriver) : VeDriver :=
  match s.cedarDevp with
  | none => s
  | some n => s.release (.devp n)

end VeDriver

/-! ## `cedardev_init` -/

/-- The device number of `create_char_device`, and what the call returned. -/
def chrdevRegion (o : InitOutcome) (s : VeDriver) : VeDriver :=
  if s.gDevMajor ≠ 0 then s
  else if o.region < 0 then { s with gDevMajor := 0, gDevMinor := 0 }
  else { s with gDevMajor := o.allocMajor }

/-- `create_char_device`.  It undoes its own steps when it fails. -/
def createCharDevice (o : InitOutcome) (s : VeDriver) : VeDriver × Int :=
  let s := chrdevRegion o s
  let region := VeResource.region s.gDevMajor s.gDevMinor
  if o.region < 0 then (s, o.region)
  else
    let s := (s.acquire region).access
    let cdev := VeResource.cdev (s.cedarDevp.getD 0)
    if o.cdevAdd ≠ 0 then (s.release region, o.cdevAdd)
    else
      let s := s.acquire cdev
      if o.classCreate = false then ((s.release cdev).release region, eInval)
      else
        let s := s.acquire .deviceClass
        if o.deviceCreate = false then
          (((s.release .deviceClass).release cdev).release region, eInval)
        else (s.acquire .device, 0)

/-- The regions that may be missing. -/
def optionalRegions (b : VeBuild) : List Nat :=
  if b.powerManage then [1, 2, 3] else [1, 2]

/-- `of_iomap` of the regions that may be missing. -/
def mapOptional (o : InitOutcome) (is : List Nat) (s : VeDriver) : VeDriver :=
  is.foldl (fun s i => if o.ofIomap i then s.acquire (.mapping i) else s) s

/-- `deal_with_resouce`.  It undoes nothing. -/
def dealWithResouce (b : VeBuild) (o : InitOutcome) (s : VeDriver) :
    VeDriver × Int :=
  let s := s.access
  if o.requestIrq < 0 then (s, -1)
  else
    let s := s.acquire .irq
    if o.ofIomap 0 = false then (s, -1)
    else
      let s := mapOptional o (optionalRegions b) (s.acquire (.mapping 0))
      if (clkSteps b).all o.clkStep then (s, 0) else (s, -1)

/-- `debugfs_remove_recursive` of `debug_root`. -/
def debugfsRemoveRecursive (s : VeDriver) : VeDriver :=
  { s with
    ledger := (s.ledger.release .debugDir).releaseWhere (· = .debugFile)
    debugRoot := false }

/-- `sunxi_ve_debug_register_driver`. -/
def sunxiVeDebugRegisterDriver (b : VeBuild) (o : InitOutcome) (s : VeDriver) :
    VeDriver × Int :=
  let s := s.access
  if o.debugRoot = false then (s, eNoent)
  else
    let s := { (if b.sunxiMpp then s else s.acquire .debugDir) with debugRoot := true }
    if o.debugfsCreateFile = false then (debugfsRemoveRecursive s, eNodev)
    else (s.acquire .debugFile, 0)

/-- The label `free_devp`. -/
def freeDevp (s : VeDriver) (ret : Int) : VeDriver × Int :=
  (s.kfreeDevp, ret)

/-- `cedardev_init` from the runtime power management on.  A missing
regulator is no error. -/
def finishInit (o : InitOutcome) (s : VeDriver) : VeDriver × Int :=
  let s := (s.acquire .pmRuntime).access
  let s := if o.regulatorGet then s.acquire .regulator else s
  ({ s with regulator := o.regulatorGet, bInitEndFlag := true }, 0)

/-- `cedardev_init` from the debugfs file on. -/
def registerDebug (b : VeBuild) (o : InitOutcome) (s : VeDriver) :
    VeDriver × Int :=
  if b.debugFs then
    let r := sunxiVeDebugRegisterDriver b o s
    if r.2 ≠ 0 then freeDevp r.1 eInval
    else if o.procBuf = false then freeDevp r.1 eNomem
    else finishInit o (r.1.acquire .procBuf)
  else finishInit o s

/-- `cedardev_init` from the char device on. -/
def registerDevice (b : VeBuild) (o : InitOutcome) (s : VeDriver) :
    VeDriver × Int :=
  let r := createCharDevice o s
  if r.2 ≠ 0 then freeDevp r.1 eInval
  else
    let r := dealWithResouce b o r.1.access
    if r.2 ≠ 0 then freeDevp r.1 eInval
    else
      let s := r.1.access
      if o.sysfsCreateGroup ≠ 0 then freeDevp s eInval
      else registerDebug b o (s.acquire .sysfsGroup)

/-- The start of `cedardev_init`: a pointer from before is freed. -/
def freeOldDevp (s : VeDriver) : VeDriver :=
  if s.cedarDevp = none then s else { s.kfreeDevp with cedarDevp := none }

/-- `cedardev_init`. -/
def cedardevInit (b : VeBuild) (o : InitOutcome) (s : VeDriver) :
    VeDriver × Int :=
  let s := freeOldDevp s
  if o.kmalloc = false then (s, eNomem)
  else registerDevice b o s.kmallocDevp

/-! ## `cedardev_exit` -/

/-- `device_destroy`, which takes the sysfs group with it. -/
def deviceDestroy (s : VeDriver) : VeDriver :=
  { s with ledger := (s.ledger.release .device).releaseWhere (· = .sysfsGroup) }

/-- `sunxi_ve_debug_unregister_driver`. -/
def sunxiVeDebugUnregisterDriver (s : VeDriver) : VeDriver :=
  if s.debugRoot then debugfsRemoveRecursive s else s

/-- `regulator_put`, when there is a regulator. -/
def regulatorPut (s : VeDriver) : VeDriver :=
  if s.regulator then { s.release .regulator with regulator := false } else s

/-- The part of `cedardev_exit` before `kfree(cedar_devp)`. -/
def unregisterAll (b : VeBuild) (s : VeDriver) : VeDriver :=
  let s := (s.access.release .irq).release (.mapping 0)
  let s := deviceDestroy (s.release (.cdev (s.cedarDevp.getD 0)))
  let s := (s.release .deviceClass).release (.region s.gDevMajor s.gDevMinor)
  let s := s.release .pmRuntime
  let s := if b.debugFs then
      (sunxiVeDebugUnregisterDriver s).release .procBuf
    else s
  regulatorPut s

/-- `cedardev_exit`.  The flag is cleared in a block that is freed. -/
def cedardevExit (b : VeBuild) (s : VeDriver) : VeDriver :=
  { (unregisterAll b s).kfreeDevp.access with bInitEndFlag := false }

end LonganPi.Ve.Lifecycle
