import LonganPi.Errno
import LonganPi.Iommu.IovaTrace
import LonganPi.Lib.Ledger

/-!
# The probe functions of the IOMMU drivers

`sunxi_iommu_probe` of `sunxi-iommu-v1.c`, `sunxi-iommu-v2.c` and
`sunxi-iommu-v3.c`, as what they acquire and release.  The three share their
steps, so a step is one function, and a probe is its steps in order, each with
the label it jumps to when it fails.

A ledger holds what was acquired.  Some of it is managed: the driver core
releases it after a probe that returned an error (`driverCore`).
-/

namespace LonganPi.Iommu

/-! ## Outcomes -/

/-- A negative error code. -/
abbrev ErrorCode := {e : Int // e < 0}

/-- What `devm_ioremap_resource` returns. -/
inductive Ioremap
  | mapped | null | errPtr
  deriving DecidableEq, Repr

/-- `platform_get_irq` and `devm_request_irq`. -/
inductive IrqOutcome
  | missing
  | refused (e : ErrorCode)
  | granted
  deriving DecidableEq

/-- The lookup of a clock, and `clk_prepare_enable` of it. -/
structure ClkOutcome where
  found : Bool
  enabled : Bool
  deriving DecidableEq, Repr

/-- The outcome of every step of a probe. -/
structure ProbeOutcome where
  cache : Bool
  /-- `devm_kzalloc` of `struct sunxi_iommu_dev`. -/
  device : Bool
  resource : Bool
  ioremap : Ioremap
  irq : Nat → IrqOutcome
  /-- The clock `"iommu"` of `v1` and `v3`. -/
  clk : ClkOutcome
  /-- The clocks that `clock-names` lists, for `v2`.  A missing property lists
  none. -/
  clks : List ClkOutcome
  /-- `kzalloc` of the array of clocks of `v2`. -/
  clkArray : Bool
  /-- The allocation of the platform data, of `v2` and `v3`. -/
  platData : Bool
  /-- The strings of `masters`, and whether each gets its buffer. -/
  masters : List Bool
  versionMatch : Bool
  parent : Bool
  /-- The files of `sunxi_iommu_sysfs_create`, and whether each is created. -/
  files : Nat → Bool
  /-- `iommu_device_sysfs_add`, and `iommu_device_register`. -/
  sysfsAdd : Option ErrorCode
  register : Option ErrorCode

/-- What a probe acquires. -/
inductive Resource
  | iopteCache
  | device
  | mapping
  | irq (i : Nat)
  | clkArray
  | clk (i : Nat)
  | clkEnable (i : Nat)
  | platData
  | master (i : Nat)
  | pmRuntime
  | sysfsFile (i : Nat)
  | iommuSysfs
  | iommuDevice
  deriving DecidableEq, Repr

/-- The resources that come from a `devm_` function. -/
def Resource.managed (v : DriverVersion) : Resource → Bool
  | .device | .mapping | .irq _ => true
  | .clk _ => v == .v2
  | .platData | .master _ => v == .v3
  | _ => false

/-- The resources and the two globals.  A device is named by the number of
its attempt. -/
structure ProbeState where
  ledger : Ledger Resource
  globalIommuDev : Option Nat
  drvdata : Option Nat
  attempts : Nat

/-- How a probe ends.  It does not return after a bad access. -/
inductive ProbeEnd
  | returned (ret : Int)
  | oops
  deriving DecidableEq, Repr

/-- The state at the end, and how it ended. -/
abbrev ProbeExit := ProbeState × ProbeEnd

namespace ProbeState

/-- Before the first attempt. -/
def init : ProbeState := ⟨.empty, none, none, 0⟩

def acquire (s : ProbeState) (r : Resource) : ProbeState :=
  { s with ledger := s.ledger.acquire r }

def releaseAll (s : ProbeState) (rs : List Resource) : ProbeState :=
  { s with ledger := s.ledger.releaseAll rs }

/-- `platform_set_drvdata` and the store to `global_iommu_dev`. -/
def publish (s : ProbeState) : ProbeState :=
  { s with globalIommuDev := some s.attempts, drvdata := some s.attempts }

end ProbeState

/-! ## The labels -/

/-- `err_res`. -/
def errRes (s : ProbeState) (ret : Int) : ProbeExit :=
  (s.releaseAll [.iopteCache], .returned ret)

/-- `err_irq`. -/
def errIrq (s : ProbeState) (ret : Int) : ProbeExit :=
  (s.releaseAll [.mapping, .iopteCache], .returned ret)

/-- `err_clk`, which frees the interrupts `irqs` first. -/
def errClk (irqs : List Nat) (s : ProbeState) (ret : Int) : ProbeExit :=
  (s.releaseAll (irqs.map Resource.irq ++ [.mapping, .iopteCache]),
    .returned ret)

/-- `err_plat` of `v2`, when `plat_data` has its first `n` strings. -/
def errPlat (n : Nat) (s : ProbeState) (ret : Int) : ProbeExit :=
  errClk [1, 0] (s.releaseAll ((List.range n).map Resource.master ++ [.platData]))
    ret

/-! ## The steps -/

/-- The cache, the device, and its registers.  An error pointer passes the
test of `base`. -/
def acquireRegisters (o : ProbeOutcome) (s : ProbeState)
    (next : ProbeState → ProbeExit) : ProbeExit :=
  if o.cache = false then (s, .returned eNomem)
  else
    let s := s.acquire .iopteCache
    if o.device = false then (s, .returned eNomem)
    else
      let s := s.acquire .device
      if o.resource = false then errRes s eNoent
      else
        match o.ioremap with
        | .null => errRes s eNoent
        | .errPtr => next s
        | .mapped => next (s.acquire .mapping)

/-- The interrupts, in order. -/
def requestIrqs (o : ProbeOutcome) :
    List Nat → ProbeState → (ProbeState → ProbeExit) → ProbeExit
  | [], s, next => next s
  | i :: is, s, next =>
    match o.irq i with
    | .missing => errIrq s eNoent
    | .refused e => errIrq s e.val
    | .granted => requestIrqs o is (s.acquire (.irq i)) next

/-- The one clock of `v1` and `v3`.  Nothing looks at the result of
`clk_prepare_enable`. -/
def getClk (o : ProbeOutcome) (s : ProbeState)
    (next : ProbeState → ProbeExit) : ProbeExit :=
  if o.clk.found = false then errClk [0] s eNoent
  else
    let s := s.acquire (.clk 0)
    next (if o.clk.enabled then s.acquire (.clkEnable 0) else s)

/-- The lookups of `v2`, from clock `i` on. -/
def lookupClks : List ClkOutcome → Nat → ProbeState →
    (ProbeState → ProbeExit) → ProbeExit
  | [], _, s, next => next s
  | c :: cs, i, s, next =>
    if c.found = false then errClk [1, 0] s eNoent
    else lookupClks cs (i + 1) (s.acquire (.clk i)) next

/-- The `while` loop of `v2`, from clock `i` on. -/
def enableClks : List ClkOutcome → Nat → ProbeState → ProbeState
  | [], _, s => s
  | c :: cs, i, s =>
    enableClks cs (i + 1) (if c.enabled then s.acquire (.clkEnable i) else s)

/-- The clocks of `v2`.  When none is listed, `ret` is what the last
`devm_request_irq` returned, 0.  The array is not checked, and the first
lookup is stored in it. -/
def getClks (o : ProbeOutcome) (s : ProbeState)
    (next : ProbeState → ProbeExit) : ProbeExit :=
  if o.clks = [] then errClk [1, 0] s 0
  else if o.clkArray = false then (s, .oops)
  else
    lookupClks o.clks 0 (s.acquire .clkArray) fun s => next (enableClks o.clks 0 s)

/-- The loop of `__init_plat_data_from_ofnode`, from string `n` on. -/
def copyMasters : List Bool → Nat → ProbeState →
    (Nat → ProbeState → Int → ProbeExit) → (Nat → ProbeState → ProbeExit) →
    ProbeExit
  | [], n, s, _, next => next n s
  | m :: ms, n, s, err, next =>
    if m = false then err n s eNomem
    else copyMasters ms (n + 1) (s.acquire (.master n)) err next

/-- The platform data and `__init_plat_data_from_ofnode`, with room for
`limit` strings: two sets of 6 in `v2`, and 8 in `v3`.  `err` is the label for a
failure after `n` strings. -/
def initPlatData (o : ProbeOutcome) (limit : Nat) (s : ProbeState)
    (noMem : ProbeState → Int → ProbeExit)
    (err : Nat → ProbeState → Int → ProbeExit)
    (next : Nat → ProbeState → ProbeExit) : ProbeExit :=
  if o.platData = false then noMem s eNomem
  else
    let s := s.acquire .platData
    if o.masters = [] then err 0 s eNodata
    else copyMasters (o.masters.take limit) 0 s err next

/-- `sunxi_iommu_sysfs_create`: three files and the `debugfs` directory. -/
def sunxiIommuSysfsCreate (o : ProbeOutcome) (s : ProbeState) : ProbeState :=
  (List.range 4).foldl
    (fun s i => if o.files i then s.acquire (.sysfsFile i) else s) s

/-- From the version check on.  On a mismatch `ret` is still 0. -/
def registerDevice (o : ProbeOutcome) (s : ProbeState)
    (err : ProbeState → Int → ProbeExit) : ProbeExit :=
  -- the version is read through `base`
  if o.ioremap = .errPtr then (s, .oops)
  else if o.versionMatch = false then err s 0
  else
    let s := if o.parent then s.acquire .pmRuntime else s
    let s := sunxiIommuSysfsCreate o s
    match o.sysfsAdd with
    | some e => err s e.val
    | none =>
      let s := s.acquire .iommuSysfs
      match o.register with
      | some e => err s e.val
      | none => (s.acquire .iommuDevice, .returned 0)

/-! ## The three probes -/

/-- `sunxi_iommu_probe` of `sunxi-iommu-v1.c`. -/
def sunxiIommuProbeV1 (o : ProbeOutcome) (s : ProbeState) : ProbeExit :=
  acquireRegisters o s fun s =>
  requestIrqs o [0] s fun s =>
  getClk o s fun s =>
  registerDevice o s.publish (errClk [0])

/-- `sunxi_iommu_probe` of `sunxi-iommu-v2.c`. -/
def sunxiIommuProbeV2 (o : ProbeOutcome) (s : ProbeState) : ProbeExit :=
  acquireRegisters o s fun s =>
  requestIrqs o [0, 1] s fun s =>
  getClks o s fun s =>
  initPlatData o 12 s.publish (errClk [1, 0]) errPlat fun n s =>
  registerDevice o s (errPlat n)

/-- `sunxi_iommu_probe` of `sunxi-iommu-v3.c`. -/
def sunxiIommuProbeV3 (o : ProbeOutcome) (s : ProbeState) : ProbeExit :=
  acquireRegisters o s fun s =>
  requestIrqs o [0] s fun s =>
  getClk o s fun s =>
  initPlatData o 8 s.publish (errClk [0]) (fun _ => errClk [0]) fun _ s =>
  registerDevice o s (errClk [0])

/-- The probe of a driver. -/
def sunxiIommuProbe (v : DriverVersion) (o : ProbeOutcome) (s : ProbeState) :
    ProbeExit :=
  match v with
  | .v1 => sunxiIommuProbeV1 o s
  | .v2 => sunxiIommuProbeV2 o s
  | .v3 => sunxiIommuProbeV3 o s

/-- What the driver core does after a probe.  When the probe returned an error
it releases what is managed, and it may clear the drvdata. -/
def driverCore (v : DriverVersion) (clearsDrvdata : Bool) (r : ProbeExit) :
    ProbeExit :=
  match r.2 with
  | .returned ret =>
    if ret = 0 then r
    else
      ({ r.1 with
        ledger := r.1.ledger.releaseWhere fun x => x.managed v = true
        drvdata := if clearsDrvdata then none else r.1.drvdata }, r.2)
  | .oops => r

end LonganPi.Iommu
