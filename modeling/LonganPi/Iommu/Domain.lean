import LonganPi.Iommu.Driver

/-!
# The domain of `sunxi-iommu-v1.c`

The driver has one domain.  `sunxi_iommu_domain_alloc` keeps a pointer to it
and gives the same domain to every caller.  `sunxi_iommu_hw_init` writes the
address of its page directory to the hardware, once after the domain was
made and again in every resume.

* `domains` and `pages` are the live blocks of `kzalloc` and of
  `__get_free_pages`.  An outcome of an allocation that is not fresh, or a
  page outside the physical window, is none that the kernel can have; the
  model reads it as a failure.
* The answers of the hardware are part of the label of a step, and so are
  the registers that a resume finds: the device may have lost its power.
* `held` and `useAfterFree` are kept for the theorems and read by no
  function.
-/

namespace LonganPi.Iommu

/-! ## State -/

/-- The registers that the driver writes here. -/
inductive IommuReg where
  | enable
  | bypass
  | autoGating
  | ttb
  | tlbPrefetch
  | tlbFlushEnable
  | tlbIvldModeSel
  | pcIvldModeSel
  | intEnable
  deriving DecidableEq, Repr

/-- The `sunxi_iommu_plat_data` of the device, its bypass mask, and how the
driver was built. -/
structure IommuConfig where
  version : Nat
  tlbPrefetch : Nat
  tlbInvalidMode : Nat
  ptwInvalidMode : Nat
  bypass : Nat
  /-- `COOKIE_HANDLE_BY_CORE` is defined. -/
  cookieHandleByCore : Bool
  deriving DecidableEq, Repr

/-- `struct sunxi_iommu_domain`. -/
structure SunxiIommuDomain where
  pgtable : Option Nat
  sgBuffer : Option Nat
  deriving DecidableEq, Repr

/-- What a block of pages is used for. -/
inductive PageBlock where
  | directory (t : Pgtable)
  | sgBuffer

/-- The state of the driver and of the device. -/
structure IommuDriver where
  /-- `global_sunxi_iommu_domain`. -/
  globalSunxiIommuDomain : Option Nat
  /-- `global_iommu_domain`, which other modules read. -/
  globalIommuDomain : Option Nat
  iommuHwInitFlag : Bool
  domains : Nat → Option SunxiIommuDomain
  pages : Nat → Option PageBlock
  regs : IommuReg → Nat
  /-- The enable count of the clock. -/
  clk : Int
  /-- The domain was returned by an alloc and has not been freed since. -/
  held : Nat → Bool
  /-- A domain was read that is not live. -/
  useAfterFree : Bool

/-- The driver after its probe. -/
def IommuDriver.init (regs : IommuReg → Nat) : IommuDriver where
  globalSunxiIommuDomain := none
  globalIommuDomain := none
  iommuHwInitFlag := false
  domains := fun _ => none
  pages := fun _ => none
  regs := regs
  clk := 1
  held := fun _ => false
  useAfterFree := false

namespace IommuDriver

/-! ## Memory -/

/-- The answer of `kzalloc` for a domain. -/
def kzallocResult (s : IommuDriver) (outcome : Option Nat) : Option Nat :=
  match outcome with
  | some d => if s.domains d = none then some d else none
  | none => none

/-- The answer of `__get_free_pages`. -/
def getFreePages (s : IommuDriver) (outcome : Option Nat) : Option Nat :=
  match outcome with
  | some pa =>
    if (s.pages pa).isNone ∧ InPhysWindow .v1 pa then some pa else none
  | none => none

/-- `*sunxi_domain = dom`. -/
def setDomain (s : IommuDriver) (d : Nat) (dom : SunxiIommuDomain) :
    IommuDriver :=
  { s with domains := Function.update s.domains d (some dom) }

/-- `kfree(sunxi_domain)`. -/
def kfree (s : IommuDriver) (d : Nat) : IommuDriver :=
  { s with domains := Function.update s.domains d none }

/-- The pages at `pa` hold `b`. -/
def setPages (s : IommuDriver) (pa : Nat) (b : PageBlock) : IommuDriver :=
  { s with pages := Function.update s.pages pa (some b) }

/-- `free_pages`, which ignores a null pointer. -/
def freePages (s : IommuDriver) (pa : Option Nat) : IommuDriver :=
  match pa with
  | some pa => { s with pages := Function.update s.pages pa none }
  | none => s

/-! ## The hardware -/

/-- `sunxi_iommu_write`. -/
def sunxiIommuWrite (s : IommuDriver) (reg : IommuReg) (value : Nat) :
    IommuDriver :=
  { s with regs := Function.update s.regs reg (u32 value) }

/-- What the hardware answers to `sunxi_iommu_hw_init`. -/
structure HwAnswer where
  /-- The flush ends in time. -/
  flushed : Bool
  /-- The two reads of `IOMMU_ENABLE_REG`. -/
  enable : Nat × Nat
  /-- The `pgtable` that is read from a domain that is not live. -/
  junk : Nat
  deriving DecidableEq, Repr

/-- `sunxi_tlb_flush`. -/
def sunxiTlbFlush (s : IommuDriver) (flushed : Bool) : IommuDriver × Int :=
  (s.sunxiIommuWrite .tlbFlushEnable 0x0003007f,
    if flushed then 0 else eTimedout)

/-- `sunxi_domain->pgtable`. -/
def readPgtable (s : IommuDriver) (d junk : Nat) : IommuDriver × Nat :=
  match s.domains d with
  | some dom => (s, dom.pgtable.getD 0)
  | none => ({ s with useAfterFree := true }, junk)

/-- The registers that `sunxi_iommu_hw_init` writes before the flush. -/
def hwInitRegs (cfg : IommuConfig) (s : IommuDriver) (dteAddr : Nat) :
    IommuDriver :=
  let s := s.sunxiIommuWrite .ttb dteAddr
  let s := s.sunxiIommuWrite .tlbPrefetch cfg.tlbPrefetch
  let s := if cfg.version ≥ iommuVersionV12
    then s.sunxiIommuWrite .tlbIvldModeSel cfg.tlbInvalidMode else s
  let s := if cfg.version ≥ iommuVersionV14
    then s.sunxiIommuWrite .pcIvldModeSel cfg.ptwInvalidMode else s
  let s := s.sunxiIommuWrite .intEnable 0x3003f
  s.sunxiIommuWrite .bypass cfg.bypass

/-- `sunxi_iommu_hw_init`. -/
def sunxiIommuHwInit (cfg : IommuConfig) (s : IommuDriver) (d : Nat)
    (hw : HwAnswer) : IommuDriver × Int :=
  let (s, dteAddr) := s.readPgtable d hw.junk
  let s := s.hwInitRegs cfg dteAddr
  let (s, ret) := s.sunxiTlbFlush hw.flushed
  if ret ≠ 0 then (s, ret)
  else
    let s := s.sunxiIommuWrite .autoGating 0x1
    let s := s.sunxiIommuWrite .enable 0x1
    if hw.enable.1 ≠ 0x1 ∧ hw.enable.2 ≠ 0x1 then (s, eNodev)
    else ({ s with iommuHwInitFlag := true }, 0)

/-! ## The callbacks -/

/-- `IOMMU_DOMAIN_UNMANAGED`. -/
def iommuDomainUnmanaged : Nat := 1

/-- `IOMMU_DOMAIN_DMA`. -/
def iommuDomainDma : Nat := 3

/-- The outcomes of the allocations of `sunxi_iommu_domain_alloc`, and the
answer of the hardware. -/
structure AllocOutcome where
  domain : Option Nat
  pgtable : Option Nat
  /-- What the slab cache will answer for the new page table. -/
  slab : List (Option Nat)
  sgBuffer : Option Nat
  /-- `iommu_get_dma_cookie` succeeds. -/
  cookie : Bool
  hw : HwAnswer
  deriving DecidableEq, Repr

/-- The label `err_sg_buffer` of `sunxi_iommu_domain_alloc`.  The label
`err_dma_cookie` is the same place. -/
def errSgBuffer (s : IommuDriver) (d pgtable : Nat) :
    IommuDriver × Option Nat :=
  let s := s.freePages (some pgtable)
  (s.kfree d, none)

/-- `sunxi_iommu_domain_alloc`. -/
def sunxiIommuDomainAlloc (cfg : IommuConfig) (s : IommuDriver) (type : Nat)
    (o : AllocOutcome) : IommuDriver × Option Nat :=
  if type ≠ iommuDomainDma ∧ type ≠ iommuDomainUnmanaged then (s, none)
  else match s.globalSunxiIommuDomain with
  | some d => (s, some d)
  | none =>
    match s.kzallocResult o.domain with
    | none => (s, none)
    | some d =>
      let s := s.setDomain d ⟨none, none⟩
      match s.getFreePages o.pgtable with
      | none => (s.kfree d, none)
      | some pgtable =>
        let s := s.setPages pgtable (.directory (sunxiPgtableAlloc o.slab))
        let s := s.setDomain d ⟨some pgtable, none⟩
        match s.getFreePages o.sgBuffer with
        | none => s.errSgBuffer d pgtable
        | some sgBuffer =>
          let s := s.setPages sgBuffer .sgBuffer
          let s := s.setDomain d ⟨some pgtable, some sgBuffer⟩
          if cfg.cookieHandleByCore = false ∧ type = iommuDomainDma
              ∧ o.cookie = false then s.errSgBuffer d pgtable
          else
            let s := { s with globalSunxiIommuDomain := some d }
            let s := { s with globalIommuDomain := some d }
            if s.iommuHwInitFlag then (s, some d)
            else ((s.sunxiIommuHwInit cfg d o.hw).1, some d)

/-- Run a function of the page table of a domain that is live. -/
def onPgtable (s : IommuDriver) (d : Nat)
    (f : Pgtable → Except Fault Pgtable) : Option IommuDriver :=
  match s.domains d with
  | some ⟨some pgtable, _⟩ =>
    match s.pages pgtable with
    | some (.directory t) =>
      match f t with
      | .ok t => some (s.setPages pgtable (.directory t))
      | .error _ => none
    | _ => none
  | _ => none

/-- `sunxi_iommu_domain_free`. -/
def sunxiIommuDomainFree (s : IommuDriver) (d : Nat) (flushed : Bool) :
    Option IommuDriver :=
  match s.domains d with
  | none => none
  | some dom => do
    let s ← s.onPgtable d (sunxiPgtableClear .v1)
    let s := (s.sunxiTlbFlush flushed).1
    let s := s.freePages dom.pgtable
    let s := s.freePages dom.sgBuffer
    some (s.kfree d)

/-- `sunxi_iommu_suspend`. -/
def sunxiIommuSuspend (s : IommuDriver) : IommuDriver × Int :=
  ({ s with clk := s.clk - 1 }, 0)

/-- `sunxi_iommu_resume`. -/
def sunxiIommuResume (cfg : IommuConfig) (s : IommuDriver) (hw : HwAnswer) :
    IommuDriver × Int :=
  let s := { s with clk := s.clk + 1 }
  match s.globalSunxiIommuDomain with
  | none => (s, 0)
  | some d => s.sunxiIommuHwInit cfg d hw

end IommuDriver

/-! ## Steps -/

/-- A call of the IOMMU core or of the power management. -/
inductive DomainOp where
  | alloc (type : Nat) (o : IommuDriver.AllocOutcome)
  | free (d : Nat) (flushed : Bool)
  | map (d iova paddr size prot : Nat)
  | unmap (d iova size : Nat)
  | suspend
  /-- A resume that finds `regs` in the registers. -/
  | resume (regs : IommuReg → Nat) (hw : IommuDriver.HwAnswer)

/-- One call.  A domain is passed to a call only while it is held, and the
core maps and unmaps chunks. -/
def domainStep (cfg : IommuConfig) (s : IommuDriver) :
    DomainOp → Option IommuDriver
  | .alloc type o =>
    match s.sunxiIommuDomainAlloc cfg type o with
    | (s, none) => some s
    | (s, some d) => some { s with held := Function.update s.held d true }
  | .free d flushed =>
    if s.held d then do
      let s ← s.sunxiIommuDomainFree d flushed
      some { s with held := Function.update s.held d false }
    else none
  | .map d iova paddr size prot =>
    if s.held d ∧ Chunk .v1 iova size then
      s.onPgtable d fun t => do
        let (t, _) ← sunxiIommuMap .v1 t iova paddr size prot
        .ok t
    else none
  | .unmap d iova size =>
    if s.held d ∧ Chunk .v1 iova size then
      s.onPgtable d fun t => do
        let (t, _) ← sunxiIommuUnmap .v1 cfg.version t iova size Gather.init
        .ok t
    else none
  | .suspend => some s.sunxiIommuSuspend.1
  | .resume regs hw => some (IommuDriver.sunxiIommuResume cfg { s with regs } hw).1

end LonganPi.Iommu
