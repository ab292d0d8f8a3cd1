import LonganPi.Iommu.InvalidationRanges
import LonganPi.Lib.Priority

/-!
# The fault handlers of the IOMMU

A fault sets a bit of the interrupt status: one of the micro TLBs, or one of
the two levels of the page table.  A fault in the page table also sets the bit
of its master in a register of that level.  The handler takes the address and
the data of the fault from the registers of the first bit of the status in a
chain of tests, and the master from the lowest bit of all three registers.

* `faultIrq` is the handler of the three files, as a list of what it does.
* `Attributes` says that the two choices are about one fault, and that no
  index is out of its table.
* `attributes_iff` is the condition on the three registers.
-/

namespace LonganPi.Iommu

open Priority

/-! ## Registers -/

/-- What a fault comes from. -/
inductive FaultCause
  | microTlb (i : Nat)
  | l1Pagetable
  | l2Pagetable
  deriving DecidableEq, Repr

/-- The bit of a cause in the interrupt status. -/
def FaultCause.bit : FaultCause → Nat
  | .microTlb i => i
  | .l1Pagetable => 16
  | .l2Pagetable => 17

/-- The causes in the order of the tests. -/
def faultChain : List FaultCause :=
  [.microTlb 0, .microTlb 1, .microTlb 2, .microTlb 3, .microTlb 4,
    .microTlb 5, .microTlb 6, .l1Pagetable, .l2Pagetable]

/-- `MICRO_TLB0_INVALID_INTER_MASK` and the others. -/
def FaultCause.interMask (c : FaultCause) : BitVec 32 :=
  BitVec.twoPow 32 c.bit

/-- The error registers of a cause.  The addresses of `sunxi-iommu-v1.c` have
no upper half. -/
structure ErrRegs where
  lowAddr : Nat
  highAddr : Option Nat
  data : Nat
  deriving DecidableEq, Repr

/-- The registers that are read for a cause.  For the first level of the page
table `sunxi-iommu-v3.c` reads the data before the upper half. -/
def ErrRegs.offsets (e : ErrRegs) : List Nat :=
  e.lowAddr :: e.highAddr.toList ++ [e.data]

/-- `IOMMU_INT_ERR_ADDR_REG0` and the others of the three files. -/
def DriverVersion.errRegs : DriverVersion → FaultCause → ErrRegs
  | .v1, .microTlb i => ⟨0x0110 + 4 * i, none, 0x0150 + 4 * i⟩
  | .v1, .l1Pagetable => ⟨0x0130, none, 0x0170⟩
  | .v1, .l2Pagetable => ⟨0x0134, none, 0x0174⟩
  | .v2, .microTlb i =>
    ⟨0x200 * i + 0x003c + 0x400, some (0x200 * i + 0x0040 + 0x400),
      0x200 * i + 0x0044 + 0x400⟩
  | .v2, .l1Pagetable => ⟨0x008c, some 0x0090, 0x009c⟩
  | .v2, .l2Pagetable => ⟨0x0094, some 0x0098, 0x00a0⟩
  | .v3, .microTlb i => ⟨0x0110 + 8 * i, some (0x0114 + 8 * i), 0x0160 + 4 * i⟩
  | .v3, .l1Pagetable => ⟨0x0148, some 0x014c, 0x017c⟩
  | .v3, .l2Pagetable => ⟨0x0150, some 0x0154, 0x0180⟩

/-- The other registers of a handler. -/
structure IrqRegs where
  intClr : Nat
  intSta : Nat
  l1pgInt : Nat
  l2pgInt : Nat
  tlbIvldStartAddr : Nat
  tlbIvldEndAddr : Nat
  tlbIvldAddr : Nat
  tlbIvldAddrMask : Nat
  tlbIvldEnable : Nat
  pcIvldAddr : Nat
  pcIvldStartAddr : Nat
  pcIvldEnable : Nat
  pcIvldEndAddr : Nat

def DriverVersion.irqRegs : DriverVersion → IrqRegs
  | .v1 => ⟨0x0104, 0x0108, 0x0180, 0x0184, 0x0088, 0x008c, 0x0090, 0x0094,
      0x0098, 0x00a0, 0x00a4, 0x00a8, 0x00ac⟩
  | .v2 => ⟨0x0084, 0x0088, 0x00b0, 0x00b4, 0x0044, 0x0048, 0x004c, 0x0050,
      0x0054, 0x0064, 0x0068, 0x006c, 0x0070⟩
  | .v3 => ⟨0x0104, 0x0108, 0x01b0, 0x01b4, 0x0088, 0x008c, 0x0090, 0x0094,
      0x0098, 0x00a0, 0x00a4, 0x00a8, 0x00ac⟩

/-- `IOMMU_RESET_REG`. -/
def iommuResetReg : Nat := 0x0010

/-- `IOMMU_PER_SET_ADDR_SIZE`. -/
def iommuPerSetAddrSize : Nat := 0x10000

/-- `IOMMU_MIC_MAX_MASTER` of `sunxi-iommu-v2.c`. -/
def iommuMicMaxMaster : Nat := 6

/-- The entries of `plat_data->master`. -/
def DriverVersion.masters : DriverVersion → Nat
  | .v1 => 8
  | .v2 => iommuMicMaxMaster * 2
  | .v3 => 8

/-- The entries of `sunxi_iommu_fault_notify_cbs`. -/
def DriverVersion.faultNotifyCbs : DriverVersion → Nat
  | .v1 => 7
  | .v2 => 2 * iommuMicMaxMaster
  | .v3 => 7

/-- The first master of an instance.  Only `sunxi-iommu-v2.c` has more than
one instance. -/
def DriverVersion.masterBase (d : DriverVersion) (index : Nat) : Nat :=
  match d with
  | .v2 => index * iommuMicMaxMaster
  | _ => 0

/-! ## The handler -/

/-- What a handler does. -/
inductive IrqEvent
  /-- `sunxi_iommu_read`. -/
  | read (offset : Nat)
  /-- `sunxi_iommu_write`. -/
  | write (offset val : Nat)
  /-- The loop that waits until the lowest bit of a register is 0. -/
  | waitClear (offset : Nat)
  /-- `"%s Invalid Authority\n"` with `plat_data->master[master]`. -/
  | invalidAuthority (master : Nat)
  /-- `"L1 PageTable Invalid\n"` or `"L2 PageTable Invalid\n"`. -/
  | pageTableInvalid (level : Nat)
  /-- `"sunxi iommu int error!!!\n"`. -/
  | intError
  /-- `sunxi_iova_invalid_helper`. -/
  | iovaInvalidHelper (iova : Nat)
  /-- `__ffs`. -/
  | ffs (x : BitVec 32)
  /-- `"Bug is in %s module, invalid address: 0x%x, data:0x%x, id:0x%x\n"`. -/
  | bugIsIn (master addr : Nat) (data id : BitVec 32)
  /-- `iova_show_on_irq`. -/
  | iovaShowOnIrq
  /-- The use of `sunxi_iommu_fault_notify_cbs[master]`. -/
  | faultNotify (master : Nat)
  deriving DecidableEq, Repr

/-- The chain of tests of the interrupt status. -/
def faultCause (interStatus : BitVec 32) : Option FaultCause :=
  faultChain.find? fun c => interStatus &&& c.interMask != 0

/-- `addr_reg` from the error registers of a cause. -/
def DriverVersion.errAddr (d : DriverVersion) (offset : Nat)
    (regs : Nat → BitVec 32) (c : FaultCause) : Nat :=
  let e := d.errRegs c
  let low := (regs (offset + e.lowAddr)).toNat
  match e.highAddr with
  | none => low
  | some high => low ||| (regs (offset + high)).toNat <<< 32

/-- `data_reg` from the error registers of a cause. -/
def DriverVersion.errData (d : DriverVersion) (offset : Nat)
    (regs : Nat → BitVec 32) (c : FaultCause) : BitVec 32 :=
  regs (offset + (d.errRegs c).data)

/-- The invalidation of the TLB and of the PTW cache at an address. -/
def DriverVersion.ivldEvents (d : DriverVersion) (version offset addrReg : Nat) :
    List IrqEvent :=
  let r := d.irqRegs
  (if version ≤ iommuVersionV11 then
    [.write (offset + r.tlbIvldAddr) (u32 addrReg),
      .write (offset + r.tlbIvldAddrMask) (u32 iommuPtMask),
      .write (offset + r.tlbIvldEnable) 0x1,
      .waitClear (offset + r.tlbIvldEnable),
      .write (offset + r.tlbIvldAddr) (u32 (addrReg + 0x2000)),
      .write (offset + r.tlbIvldAddrMask) (u32 iommuPtMask)]
  else
    [.write (offset + r.tlbIvldStartAddr) (d.tlbReg addrReg),
      .write (offset + r.tlbIvldEndAddr) (d.tlbReg (addrReg + 4 * spageSize))]) ++
  [.write (offset + r.tlbIvldEnable) 0x1,
    .waitClear (offset + r.tlbIvldEnable)] ++
  (if version ≤ iommuVersionV13 then
    [.write (offset + r.pcIvldAddr) (u32 addrReg),
      .write (offset + r.pcIvldEnable) 0x1,
      .waitClear (offset + r.pcIvldEnable),
      .write (offset + r.pcIvldAddr) (u32 (addrReg + 0x200000))]
  else
    [.write (offset + r.pcIvldStartAddr) (d.pcReg addrReg),
      .write (offset + r.pcIvldEndAddr) (d.pcReg (addrReg + 2 * spdSize d.layout))]) ++
  [.write (offset + r.pcIvldEnable) 0x1,
    .waitClear (offset + r.pcIvldEnable)]

/-- The error registers of a cause, in the order in which they are read.  For the L1
page table `sunxi-iommu-v3.c` reads the data before the high half of the address. -/
def DriverVersion.errReads (d : DriverVersion) (c : FaultCause) : List Nat :=
  match d, c with
  | .v3, .l1Pagetable =>
    [(d.errRegs c).lowAddr, (d.errRegs c).data] ++ (d.errRegs c).highAddr.toList
  | _, _ => (d.errRegs c).offsets

theorem DriverVersion.mem_errReads {d : DriverVersion} {c : FaultCause} {r : Nat} :
    r ∈ d.errReads c ↔ r ∈ (d.errRegs c).offsets := by
  unfold errReads
  split
  · unfold ErrRegs.offsets
    simp only [List.mem_append, List.mem_cons, List.not_mem_nil, or_false]
    tauto
  · rfl

/-- A branch of the chain: what is printed, and the registers that are
read. -/
def DriverVersion.causeEvents (d : DriverVersion) (index offset : Nat)
    (prefetch : Bool) : Option FaultCause → List IrqEvent
  | none => [.intError]
  | some c =>
    (match c with
    | .microTlb i => [.invalidAuthority (d.masterBase index + i)]
    | .l1Pagetable => if prefetch then [] else [.pageTableInvalid 1]
    | .l2Pagetable => if prefetch then [] else [.pageTableInvalid 2]) ++
    (d.errReads c).map fun r => .read (offset + r)

section Registers

variable (d : DriverVersion) (index : Nat) (regs : Nat → BitVec 32)

/-- Where the registers of an instance are. -/
def instanceOffset : Nat := index * iommuPerSetAddrSize

/-- `inter_status_reg`. -/
def DriverVersion.interStatusReg : BitVec 32 :=
  regs (instanceOffset index + d.irqRegs.intSta) &&& 0x3ffff

/-- `l1_pgint_reg`. -/
def DriverVersion.l1PgintReg : BitVec 32 :=
  regs (instanceOffset index + d.irqRegs.l1pgInt)

/-- `l2_pgint_reg`. -/
def DriverVersion.l2PgintReg : BitVec 32 :=
  regs (instanceOffset index + d.irqRegs.l2pgInt)

/-- `int_masterid_bitmap`. -/
def DriverVersion.intMasteridBitmap : BitVec 32 :=
  d.interStatusReg index regs ||| d.l1PgintReg index regs |||
    d.l2PgintReg index regs

end Registers

/-- The handlers of the three files, for the instance `index`. -/
def faultIrq (d : DriverVersion) (version index : Nat)
    (regs : Nat → BitVec 32) : List IrqEvent :=
  let offset := instanceOffset index
  let interStatusReg := d.interStatusReg index regs
  let bitmap := d.intMasteridBitmap index regs
  -- a prefetch of an invalid page is no fault
  let prefetch := bitmap &&& BitVec.twoPow 32 31 != 0
  let cause := faultCause interStatusReg
  let addrReg := (cause.map (d.errAddr offset regs)).getD 0
  let dataReg := (cause.map (d.errData offset regs)).getD 0
  let low := bitmap &&& 0xffff
  let master := d.masterBase index + low.ctz.toNat
  [.read (offset + d.irqRegs.intSta), .read (offset + d.irqRegs.l1pgInt),
    .read (offset + d.irqRegs.l2pgInt)] ++
  d.causeEvents index offset prefetch cause ++
  (if prefetch then []
  else [.iovaInvalidHelper addrReg, .ffs low,
    .bugIsIn master addrReg dataReg low, .iovaShowOnIrq,
    .faultNotify master]) ++
  d.ivldEvents version offset addrReg ++
  [.write (offset + d.irqRegs.intClr) interStatusReg.toNat,
    .write (offset + iommuResetReg) (~~~(bitmap &&& 0xffff)).toNat,
    .write (offset + iommuResetReg) 0xffffffff]

/-- `sunxi_iommu_irq` of `sunxi-iommu-v1.c`. -/
def sunxiIommuIrqV1 (version : Nat) (regs : Nat → BitVec 32) : List IrqEvent :=
  faultIrq .v1 version 0 regs

/-- `__dump_int_from_one_instance` of `sunxi-iommu-v2.c`. -/
def dumpIntFromOneInstance (version : Nat) (index : Fin 2)
    (regs : Nat → BitVec 32) : List IrqEvent :=
  faultIrq .v2 version index regs

/-- `sunxi_iommu_irq` of `sunxi-iommu-v3.c`. -/
def sunxiIommuIrqV3 (version : Nat) (regs : Nat → BitVec 32) : List IrqEvent :=
  faultIrq .v3 version 0 regs

/-! ## Attribution -/

/-- The micro TLBs of an instance, which have error registers each. -/
def DriverVersion.microTlbs : DriverVersion → Nat
  | .v1 => 7
  | .v2 => iommuMicMaxMaster
  | .v3 => 7

/-- The cause is one of the master behind the micro TLB `i`: its own micro
TLB, or a level of the page table whose register has its bit. -/
def DriverVersion.CausedBy (d : DriverVersion) (index : Nat)
    (regs : Nat → BitVec 32) (c : FaultCause) (i : Nat) : Prop :=
  i < d.microTlbs ∧
    match c with
    | .microTlb j => j = i
    | .l1Pagetable => (d.l1PgintReg index regs).getLsbD i = true
    | .l2Pagetable => (d.l2PgintReg index regs).getLsbD i = true

/-- The event names a master, or runs its callback. -/
def IrqEvent.Names (master : Nat) : IrqEvent → Prop
  | .invalidAuthority m => m = master
  | .bugIsIn m _ _ _ => m = master
  | .faultNotify m => m = master
  | _ => False

/-- The address and the data that the events report and invalidate are those
of the cause, and its registers were read. -/
structure ReadFrom (d : DriverVersion) (version offset : Nat)
    (regs : Nat → BitVec 32) (events : List IrqEvent) (c : FaultCause) :
    Prop where
  read : ∀ r ∈ (d.errRegs c).offsets, .read (offset + r) ∈ events
  reported : ∀ master addr data id, .bugIsIn master addr data id ∈ events →
    addr = d.errAddr offset regs c ∧ data = d.errData offset regs c
  invalidated :
    d.ivldEvents version offset (d.errAddr offset regs c) <:+: events

/-- `__ffs` gets no 0, every index is in its table, and each master that is
named has the fault. -/
structure Attributes (d : DriverVersion) (version index : Nat)
    (regs : Nat → BitVec 32) (events : List IrqEvent) : Prop where
  ffs : ∀ x, .ffs x ∈ events → x ≠ 0
  masters : ∀ e ∈ events, ∀ master, e.Names master → master < d.masters
  callbacks : ∀ master, .faultNotify master ∈ events →
    master < d.faultNotifyCbs
  attributed : ∀ e ∈ events, ∀ master, e.Names master →
    ∃ i c, master = d.masterBase index + i ∧ d.CausedBy index regs c i ∧
      ReadFrom d version (instanceOffset index) regs events c

/-- The condition on the three registers.  For a prefetch: the fault of a
micro TLB is that of one that exists.  Else the lowest bit is that of a micro
TLB that exists, and it is set in the status, or in the register of the level
of the page table whose bit comes first in the status when that has no bit of
a micro TLB. -/
def Attributable (d : DriverVersion) (interStatus l1 l2 : BitVec 32) : Prop :=
  if (interStatus ||| l1 ||| l2).getLsbD 31 = true then
    ∀ i < 7, IsLowest interStatus i → i < d.microTlbs
  else
    ∃ i < d.microTlbs, IsLowest (interStatus ||| l1 ||| l2) i ∧
      (interStatus.getLsbD i = true ∨
        (∀ j < 7, interStatus.getLsbD j = false) ∧
          if interStatus.getLsbD 16 = true then l1.getLsbD i = true
          else interStatus.getLsbD 17 = true ∧ l2.getLsbD i = true)

instance (d : DriverVersion) (interStatus l1 l2 : BitVec 32) :
    Decidable (Attributable d interStatus l1 l2) :=
  inferInstanceAs (Decidable (ite _ _ _))

variable {d : DriverVersion} {version index : Nat} {regs : Nat → BitVec 32}
  {c : FaultCause} {x : BitVec 32}

/-! ## The chain -/

theorem and_twoPow_ne_zero {i : Nat} (hi : i < 32) :
    (x &&& BitVec.twoPow 32 i != 0) = x.getLsbD i := by
  rw [BitVec.and_twoPow]
  cases hbit : x.getLsbD i with
  | false => rfl
  | true =>
    rw [if_pos rfl, bne_iff_ne]
    intro hzero
    have hone := congrArg (fun y => y.getLsbD i) hzero
    simp [hi] at hone

theorem bit_lt (hc : c ∈ faultChain) : c.bit < 32 := by
  revert c
  decide

/-- The chain takes the cause with the lowest bit. -/
theorem faultCause_eq_some_iff :
    faultCause x = some c ↔ c ∈ faultChain ∧ x.getLsbD c.bit = true ∧
      ∀ c' ∈ faultChain, c'.bit < c.bit → x.getLsbD c'.bit = false := by
  have hsorted : faultChain.Pairwise fun a b => a.bit < b.bit := by decide
  unfold faultCause FaultCause.interMask
  rw [Priority.find?_eq_some_iff hsorted]
  constructor
  · intro hall
    obtain ⟨hmem, hbit, hfirst⟩ := hall
    rw [and_twoPow_ne_zero (bit_lt hmem)] at hbit
    refine ⟨hmem, hbit, fun c' hc' hlt => ?_⟩
    rw [← and_twoPow_ne_zero (bit_lt hc')]
    exact hfirst c' hc' hlt
  · intro hall
    obtain ⟨hmem, hbit, hfirst⟩ := hall
    refine ⟨hmem, ?_, fun c' hc' hlt => ?_⟩
    · rw [and_twoPow_ne_zero (bit_lt hmem), hbit]
    · rw [and_twoPow_ne_zero (bit_lt hc')]
      exact hfirst c' hc' hlt

/-! ## What a handler does -/

/-- The events that matter, for the registers that the handler finds. -/
def IrqEvent.Expected (d : DriverVersion) (index : Nat)
    (regs : Nat → BitVec 32) : IrqEvent → Prop
  | .read r =>
    (∃ s ∈ [d.irqRegs.intSta, d.irqRegs.l1pgInt, d.irqRegs.l2pgInt],
      r = instanceOffset index + s) ∨
    ∃ c, faultCause (d.interStatusReg index regs) = some c ∧
      ∃ s ∈ (d.errRegs c).offsets, r = instanceOffset index + s
  | .invalidAuthority m =>
    ∃ i, faultCause (d.interStatusReg index regs) = some (.microTlb i) ∧
      m = d.masterBase index + i
  | .ffs x =>
    (d.intMasteridBitmap index regs).getLsbD 31 = false ∧
      x = d.intMasteridBitmap index regs &&& 0xffff
  | .bugIsIn m addr data _ =>
    (d.intMasteridBitmap index regs).getLsbD 31 = false ∧
      m = d.masterBase index +
        (d.intMasteridBitmap index regs &&& 0xffff).ctz.toNat ∧
      ∀ c, faultCause (d.interStatusReg index regs) = some c →
        addr = d.errAddr (instanceOffset index) regs c ∧
          data = d.errData (instanceOffset index) regs c
  | .faultNotify m =>
    (d.intMasteridBitmap index regs).getLsbD 31 = false ∧
      m = d.masterBase index +
        (d.intMasteridBitmap index regs &&& 0xffff).ctz.toNat
  | _ => True

theorem expected_ivldEvents {offset addrReg : Nat} {e : IrqEvent}
    (h : e ∈ d.ivldEvents version offset addrReg) : e.Expected d index regs := by
  have hwrites : ∀ e ∈ d.ivldEvents version offset addrReg,
      (∃ r v, e = .write r v) ∨ ∃ r, e = .waitClear r := by
    unfold DriverVersion.ivldEvents
    split_ifs <;> simp
  rcases hwrites e h with hwrite | hwait
  · obtain ⟨r, v, rfl⟩ := hwrite
    trivial
  · obtain ⟨r, rfl⟩ := hwait
    trivial

theorem expected_causeEvents {prefetch : Bool} {e : IrqEvent}
    (h : e ∈ d.causeEvents index (instanceOffset index) prefetch
      (faultCause (d.interStatusReg index regs))) :
    e.Expected d index regs := by
  cases hcause : faultCause (d.interStatusReg index regs) with
  | none =>
    rw [hcause] at h
    obtain rfl := List.mem_singleton.mp h
    trivial
  | some c =>
    rw [hcause] at h
    rcases List.mem_append.mp h with hprint | hread
    · cases c with
      | microTlb i =>
        obtain rfl := List.mem_singleton.mp hprint
        exact ⟨i, hcause, rfl⟩
      | l1Pagetable =>
        cases prefetch with
        | true => cases hprint
        | false =>
          obtain rfl := List.mem_singleton.mp hprint
          trivial
      | l2Pagetable =>
        cases prefetch with
        | true => cases hprint
        | false =>
          obtain rfl := List.mem_singleton.mp hprint
          trivial
    · obtain ⟨r, hr, rfl⟩ := List.mem_map.mp hread
      exact Or.inr ⟨c, hcause, r, DriverVersion.mem_errReads.mp hr, rfl⟩

/-- The handler does nothing else. -/
theorem expected_of_mem {e : IrqEvent} (h : e ∈ faultIrq d version index regs) :
    e.Expected d index regs := by
  unfold faultIrq at h
  simp only [List.mem_append] at h
  rw [and_twoPow_ne_zero (by decide)] at h
  rcases h with (((hstatus | hcause) | hreport) | hivld) | hclear
  · rcases List.mem_cons.mp hstatus with rfl | hstatus
    · exact Or.inl ⟨_, by simp, rfl⟩
    rcases List.mem_cons.mp hstatus with rfl | hstatus
    · exact Or.inl ⟨_, by simp, rfl⟩
    · obtain rfl := List.mem_singleton.mp hstatus
      exact Or.inl ⟨_, by simp, rfl⟩
  · exact expected_causeEvents hcause
  · split_ifs at hreport with hprefetch
    · cases hreport
    · have hclear := Bool.not_eq_true _ |>.mp hprefetch
      simp only [List.mem_cons, List.not_mem_nil, or_false] at hreport
      rcases hreport with rfl | rfl | rfl | rfl | rfl
      · trivial
      · exact ⟨hclear, rfl⟩
      · refine ⟨hclear, rfl, fun c hc => ?_⟩
        rw [hc]
        exact ⟨rfl, rfl⟩
      · trivial
      · exact ⟨hclear, rfl⟩
  · exact expected_ivldEvents hivld
  · simp only [List.mem_cons, List.not_mem_nil, or_false] at hclear
    rcases hclear with rfl | rfl | rfl <;> trivial

/-- The registers of the cause that the chain takes are read and used. -/
theorem readFrom_of_faultCause
    (h : faultCause (d.interStatusReg index regs) = some c) :
    ReadFrom d version (instanceOffset index) regs
      (faultIrq d version index regs) c where
  read r hr := by
    unfold faultIrq
    simp only [List.mem_append]
    refine Or.inl (Or.inl (Or.inl (Or.inr ?_)))
    rw [h]
    exact List.mem_append_right _ (List.mem_map_of_mem (DriverVersion.mem_errReads.mpr hr))
  reported _ _ _ _ hbug := (expected_of_mem hbug).2.2 c h
  invalidated := by
    unfold faultIrq
    simp only [h]
    exact List.infix_append _ _ _

theorem invalidAuthority_mem {i : Nat}
    (h : faultCause (d.interStatusReg index regs) = some (.microTlb i)) :
    .invalidAuthority (d.masterBase index + i)
      ∈ faultIrq d version index regs := by
  unfold faultIrq
  simp only [List.mem_append]
  refine Or.inl (Or.inl (Or.inl (Or.inr ?_)))
  rw [h]
  exact List.mem_append_left _ (.head _)

/-- What is reported when no prefetch is to blame. -/
theorem report_mem
    (h : (d.intMasteridBitmap index regs).getLsbD 31 = false) :
    .ffs (d.intMasteridBitmap index regs &&& 0xffff)
        ∈ faultIrq d version index regs ∧
      .faultNotify (d.masterBase index +
        (d.intMasteridBitmap index regs &&& 0xffff).ctz.toNat)
        ∈ faultIrq d version index regs := by
  unfold faultIrq
  simp only [and_twoPow_ne_zero (show 31 < 32 by decide), h, List.mem_append]
  constructor
  · refine Or.inl (Or.inl (Or.inr ?_))
    simp
  · refine Or.inl (Or.inl (Or.inr ?_))
    simp

/-- No two causes have a register in common. -/
theorem lowAddr_unique : ∀ c ∈ faultChain, ∀ c' ∈ faultChain,
    (d.errRegs c).lowAddr ∈ (d.errRegs c').offsets → c = c' := by
  cases d <;> decide

theorem lowAddr_not_status : ∀ c ∈ faultChain, (d.errRegs c).lowAddr
    ∉ [d.irqRegs.intSta, d.irqRegs.l1pgInt, d.irqRegs.l2pgInt] := by
  cases d <;> decide

theorem microTlb_mem_iff {j : Nat} :
    FaultCause.microTlb j ∈ faultChain ↔ j < 7 := by
  have hchain : ∀ k < 7, FaultCause.microTlb k ∈ faultChain := by decide
  constructor
  · intro hmem
    have hcases : j = 0 ∨ j = 1 ∨ j = 2 ∨ j = 3 ∨ j = 4 ∨ j = 5 ∨ j = 6 := by
      simpa [faultChain] using hmem
    omega
  · exact hchain j

theorem mem_faultChain_of_causedBy {i : Nat} (h : d.CausedBy index regs c i) :
    c ∈ faultChain := by
  cases c with
  | microTlb j =>
    obtain ⟨hlt, rfl⟩ := h
    have hseven : d.microTlbs ≤ 7 := by cases d <;> decide
    exact microTlb_mem_iff.mpr (by omega)
  | l1Pagetable => simp [faultChain]
  | l2Pagetable => simp [faultChain]

/-- Only the registers of the cause that the chain takes are read. -/
theorem faultCause_of_readFrom (hc : c ∈ faultChain)
    (h : ReadFrom d version (instanceOffset index) regs
      (faultIrq d version index regs) c) :
    faultCause (d.interStatusReg index regs) = some c := by
  have hread := expected_of_mem (h.read (d.errRegs c).lowAddr (.head _))
  rcases hread with hstatus | hcause
  · obtain ⟨s, hs, heq⟩ := hstatus
    exact absurd (Nat.add_left_cancel heq ▸ hs) (lowAddr_not_status c hc)
  · obtain ⟨c', hc', s, hs, heq⟩ := hcause
    have hmem := (faultCause_eq_some_iff.mp hc').1
    rw [lowAddr_unique c hc c' hmem (Nat.add_left_cancel heq ▸ hs)]
    exact hc'

/-! ## The masters that are named -/

/-- The handler names the master behind the micro TLB `i`. -/
def DriverVersion.NamesTlb (d : DriverVersion) (index : Nat)
    (regs : Nat → BitVec 32) (i : Nat) : Prop :=
  faultCause (d.interStatusReg index regs) = some (.microTlb i) ∨
    (d.intMasteridBitmap index regs).getLsbD 31 = false ∧
      i = (d.intMasteridBitmap index regs &&& 0xffff).ctz.toNat

theorem names_iff {master : Nat} :
    (∃ e ∈ faultIrq d version index regs, e.Names master) ↔
      ∃ i, master = d.masterBase index + i ∧ d.NamesTlb index regs i := by
  constructor
  · intro hnamed
    obtain ⟨e, he, hname⟩ := hnamed
    have hexp := expected_of_mem he
    cases e with
    | invalidAuthority m =>
      obtain rfl : m = master := hname
      obtain ⟨i, hcause, rfl⟩ := hexp
      exact ⟨i, rfl, Or.inl hcause⟩
    | bugIsIn m addr data id =>
      obtain rfl : m = master := hname
      exact ⟨_, hexp.2.1, Or.inr ⟨hexp.1, rfl⟩⟩
    | faultNotify m =>
      obtain rfl : m = master := hname
      exact ⟨_, hexp.2, Or.inr ⟨hexp.1, rfl⟩⟩
    | _ => cases hname
  · intro hnamed
    obtain ⟨i, rfl, hcause | ⟨hclear, rfl⟩⟩ := hnamed
    · exact ⟨_, invalidAuthority_mem hcause, rfl⟩
    · exact ⟨_, (report_mem hclear).2, rfl⟩

/-- Every master that is named has the fault that the chain takes. -/
theorem attributes_iff_named
    (hmasters : d.masterBase index + d.microTlbs ≤ d.masters)
    (hcbs : d.masterBase index + d.microTlbs ≤ d.faultNotifyCbs) :
    Attributes d version index regs (faultIrq d version index regs) ↔
      ((d.intMasteridBitmap index regs).getLsbD 31 = false →
        d.intMasteridBitmap index regs &&& 0xffff ≠ 0) ∧
      ∀ i, d.NamesTlb index regs i →
        ∃ c, faultCause (d.interStatusReg index regs) = some c ∧
          d.CausedBy index regs c i := by
  constructor
  · intro h
    refine ⟨fun hclear => h.ffs _ (report_mem hclear).1, fun i hi => ?_⟩
    obtain ⟨e, he, hname⟩ := names_iff.mpr ⟨i, rfl, hi⟩
    obtain ⟨i', c, heq, hcaused, hread⟩ := h.attributed e he _ hname
    obtain rfl := Nat.add_left_cancel heq
    exact ⟨c, faultCause_of_readFrom (mem_faultChain_of_causedBy hcaused) hread,
      hcaused⟩
  · intro h
    obtain ⟨hffs, hnamed⟩ := h
    have hcaused : ∀ e ∈ faultIrq d version index regs, ∀ master,
        e.Names master → ∃ i c, master = d.masterBase index + i ∧
          faultCause (d.interStatusReg index regs) = some c ∧
          d.CausedBy index regs c i := by
      intro e he master hname
      obtain ⟨i, heq, hi⟩ := names_iff.mp ⟨e, he, hname⟩
      obtain ⟨c, hc, hby⟩ := hnamed i hi
      exact ⟨i, c, heq, hc, hby⟩
    refine ⟨fun x hx => ?_, fun e he master hname => ?_, fun master hm => ?_,
      fun e he master hname => ?_⟩
    · obtain ⟨hclear, rfl⟩ := expected_of_mem hx
      exact hffs hclear
    · obtain ⟨i, c, rfl, -, hlt, -⟩ := hcaused e he master hname
      omega
    · obtain ⟨i, c, rfl, -, hlt, -⟩ := hcaused _ hm master rfl
      omega
    · obtain ⟨i, c, heq, hc, hby⟩ := hcaused e he master hname
      exact ⟨i, c, heq, hby, readFrom_of_faultCause hc⟩

/-! ## The condition -/

theorem faultCause_microTlb_iff {i : Nat} :
    faultCause x = some (.microTlb i) ↔ i < 7 ∧ IsLowest x i := by
  rw [faultCause_eq_some_iff]
  constructor
  · intro hall
    obtain ⟨hmem, hbit, hfirst⟩ := hall
    have hlt := microTlb_mem_iff.mp hmem
    exact ⟨hlt, hbit, fun j hj =>
      hfirst (.microTlb j) (microTlb_mem_iff.mpr (by omega)) hj⟩
  · intro hall
    obtain ⟨hlt, hbit, hfirst⟩ := hall
    exact ⟨microTlb_mem_iff.mpr hlt, hbit, fun c' _ hc' => hfirst c'.bit hc'⟩

theorem faultCause_l1Pagetable_iff :
    faultCause x = some .l1Pagetable ↔
      (∀ j < 7, x.getLsbD j = false) ∧ x.getLsbD 16 = true := by
  rw [faultCause_eq_some_iff]
  constructor
  · intro hall
    obtain ⟨-, hbit, hfirst⟩ := hall
    refine ⟨fun j hj => hfirst (.microTlb j) (microTlb_mem_iff.mpr hj) ?_, hbit⟩
    show j < 16
    omega
  · intro hall
    obtain ⟨hmicro, hbit⟩ := hall
    refine ⟨by decide, hbit, fun c' hc' hlt => ?_⟩
    cases c' with
    | microTlb j => exact hmicro j (microTlb_mem_iff.mp hc')
    | l1Pagetable => exact absurd hlt (Nat.lt_irrefl _)
    | l2Pagetable => exact absurd hlt (by decide)

theorem faultCause_l2Pagetable_iff :
    faultCause x = some .l2Pagetable ↔ (∀ j < 7, x.getLsbD j = false) ∧
      x.getLsbD 16 = false ∧ x.getLsbD 17 = true := by
  rw [faultCause_eq_some_iff]
  constructor
  · intro hall
    obtain ⟨-, hbit, hfirst⟩ := hall
    refine ⟨fun j hj => hfirst (.microTlb j) (microTlb_mem_iff.mpr hj) ?_,
      hfirst .l1Pagetable (by decide) (by decide), hbit⟩
    show j < 17
    omega
  · intro hall
    obtain ⟨hmicro, hl1, hbit⟩ := hall
    refine ⟨by decide, hbit, fun c' hc' hlt => ?_⟩
    cases c' with
    | microTlb j => exact hmicro j (microTlb_mem_iff.mp hc')
    | l1Pagetable => exact hl1
    | l2Pagetable => exact absurd hlt (Nat.lt_irrefl _)

/-- The lowest bit of the low half is the lowest bit of all. -/
theorem isLowest_low_iff {i : Nat} :
    IsLowest (x &&& 0xffff) i ↔ i < 16 ∧ IsLowest x i := by
  have hmask : ∀ j, (0xffff : BitVec 32).getLsbD j = decide (j < 16) := by
    intro j
    rw [show (0xffff : BitVec 32) = BitVec.ofNat 32 (2 ^ 16 - 1) from rfl,
      BitVec.getLsbD_ofNat, Nat.testBit_two_pow_sub_one, Bool.eq_iff_iff]
    simp only [Bool.and_eq_true, decide_eq_true_eq]
    omega
  unfold IsLowest
  simp only [BitVec.getLsbD_and, hmask, Bool.and_eq_true, decide_eq_true_eq]
  constructor
  · intro hall
    obtain ⟨⟨hbit, hlt⟩, hfirst⟩ := hall
    refine ⟨hlt, hbit, fun j hj => ?_⟩
    have hj16 : j < 16 := by omega
    simpa [hj16] using hfirst j hj
  · intro hall
    obtain ⟨hlt, hbit, hfirst⟩ := hall
    exact ⟨⟨hbit, hlt⟩, fun j hj => by rw [hfirst j hj, Bool.false_and]⟩

/-- The lowest bit of the three registers, when the status has it, is the
lowest bit of the status. -/
theorem isLowest_status {l1 l2 : BitVec 32} {i : Nat}
    (hlow : IsLowest (x ||| l1 ||| l2) i) (hbit : x.getLsbD i = true) :
    IsLowest x i := by
  refine ⟨hbit, fun j hj => ?_⟩
  have hzero := hlow.2 j hj
  rw [BitVec.getLsbD_or, BitVec.getLsbD_or, Bool.or_eq_false_iff,
    Bool.or_eq_false_iff] at hzero
  exact hzero.1.1

/-- The master with the lowest bit has the fault that the chain takes. -/
theorem causedBy_iff {i : Nat}
    (hlow : IsLowest (d.intMasteridBitmap index regs) i) :
    (∃ c, faultCause (d.interStatusReg index regs) = some c ∧
        d.CausedBy index regs c i) ↔
      i < d.microTlbs ∧
        ((d.interStatusReg index regs).getLsbD i = true ∨
          (∀ j < 7, (d.interStatusReg index regs).getLsbD j = false) ∧
            if (d.interStatusReg index regs).getLsbD 16 = true then
              (d.l1PgintReg index regs).getLsbD i = true
            else (d.interStatusReg index regs).getLsbD 17 = true ∧
              (d.l2PgintReg index regs).getLsbD i = true) := by
  constructor
  · intro hcause
    obtain ⟨c, hc, hlt, hby⟩ := hcause
    refine ⟨hlt, ?_⟩
    cases c with
    | microTlb j =>
      obtain rfl : j = i := hby
      exact Or.inl (faultCause_microTlb_iff.mp hc).2.1
    | l1Pagetable =>
      obtain ⟨hmicro, hbit⟩ := faultCause_l1Pagetable_iff.mp hc
      refine Or.inr ⟨hmicro, ?_⟩
      rw [if_pos hbit]
      exact hby
    | l2Pagetable =>
      obtain ⟨hmicro, hl1, hbit⟩ := faultCause_l2Pagetable_iff.mp hc
      refine Or.inr ⟨hmicro, ?_⟩
      rw [if_neg (by rw [hl1]; decide)]
      exact ⟨hbit, hby⟩
  · intro hcond
    obtain ⟨hlt, hbit | ⟨hmicro, hlevel⟩⟩ := hcond
    · have hseven : d.microTlbs ≤ 7 := by cases d <;> decide
      exact ⟨.microTlb i, faultCause_microTlb_iff.mpr
        ⟨by omega, isLowest_status hlow hbit⟩, hlt, rfl⟩
    · split_ifs at hlevel with hl1
      · exact ⟨.l1Pagetable, faultCause_l1Pagetable_iff.mpr ⟨hmicro, hl1⟩,
          hlt, hlevel⟩
      · have hclear := Bool.not_eq_true _ |>.mp hl1
        exact ⟨.l2Pagetable, faultCause_l2Pagetable_iff.mpr
          ⟨hmicro, hclear, hlevel.1⟩, hlt, hlevel.2⟩

/-- A prefetch: only the message of a micro TLB names a master. -/
theorem named_prefetch_iff
    (hprefetch : (d.intMasteridBitmap index regs).getLsbD 31 = true) :
    (∀ i, d.NamesTlb index regs i →
        ∃ c, faultCause (d.interStatusReg index regs) = some c ∧
          d.CausedBy index regs c i) ↔
      ∀ i < 7, IsLowest (d.interStatusReg index regs) i → i < d.microTlbs := by
  constructor
  · intro hnamed i hi hlow
    have hcause := faultCause_microTlb_iff.mpr ⟨hi, hlow⟩
    obtain ⟨c, hc, hlt, -⟩ := hnamed i (Or.inl hcause)
    exact hlt
  · intro hexists i hi
    rcases hi with hcause | ⟨hclear, -⟩
    · obtain ⟨hlt, hlow⟩ := faultCause_microTlb_iff.mp hcause
      exact ⟨_, hcause, hexists i hlt hlow, rfl⟩
    · rw [hprefetch] at hclear
      cases hclear

/-- A fault: the lowest bit names the master, and the message of a micro TLB
names the same one. -/
theorem named_fault_iff
    (hfault : (d.intMasteridBitmap index regs).getLsbD 31 = false) :
    (d.intMasteridBitmap index regs &&& 0xffff ≠ 0 ∧
        ∀ i, d.NamesTlb index regs i →
          ∃ c, faultCause (d.interStatusReg index regs) = some c ∧
            d.CausedBy index regs c i) ↔
      ∃ i, IsLowest (d.intMasteridBitmap index regs) i ∧
        ∃ c, faultCause (d.interStatusReg index regs) = some c ∧
          d.CausedBy index regs c i := by
  constructor
  · intro hall
    obtain ⟨hne, hnamed⟩ := hall
    exact ⟨_, (isLowest_low_iff.mp (isLowest_ctz hne)).2,
      hnamed _ (Or.inr ⟨hfault, rfl⟩)⟩
  · intro hall
    obtain ⟨i, hlow, c, hc, hby⟩ := hall
    have hseven : d.microTlbs ≤ 7 := by cases d <;> decide
    have hlt := hby.1
    have hhalf := isLowest_low_iff.mpr ⟨by omega, hlow⟩
    refine ⟨hhalf.ne_zero, fun j hj => ⟨c, hc, ?_⟩⟩
    rcases hj with hcause | ⟨-, rfl⟩
    · obtain rfl := Option.some.inj (hc.symm.trans hcause)
      obtain rfl : j = i := hby.2
      exact hby
    · rw [← (isLowest_iff_ctz hhalf.ne_zero).mp hhalf]
      exact hby

theorem faultIrq_attributes_iff
    (hmasters : d.masterBase index + d.microTlbs ≤ d.masters)
    (hcbs : d.masterBase index + d.microTlbs ≤ d.faultNotifyCbs) :
    Attributes d version index regs (faultIrq d version index regs) ↔
      Attributable d (d.interStatusReg index regs) (d.l1PgintReg index regs)
        (d.l2PgintReg index regs) := by
  rw [attributes_iff_named hmasters hcbs]
  unfold Attributable
  show _ ↔ if (d.intMasteridBitmap index regs).getLsbD 31 = true then _
    else ∃ i < d.microTlbs, IsLowest (d.intMasteridBitmap index regs) i ∧ _
  cases hbit : (d.intMasteridBitmap index regs).getLsbD 31 with
  | true =>
    rw [if_pos rfl, named_prefetch_iff hbit]
    exact and_iff_right fun hclear => absurd hclear (by decide)
  | false =>
    rw [if_neg (by decide), show (false = false) = True from eq_self _,
      true_imp_iff, named_fault_iff hbit]
    constructor
    · intro hall
      obtain ⟨i, hlow, hcause⟩ := hall
      obtain ⟨hlt, hcond⟩ := (causedBy_iff hlow).mp hcause
      exact ⟨i, hlt, hlow, hcond⟩
    · intro hall
      obtain ⟨i, hlt, hlow, hcond⟩ := hall
      exact ⟨i, hlow, (causedBy_iff hlow).mpr ⟨hlt, hcond⟩⟩

/-- The handlers of the three files attribute a fault exactly under the
condition. -/
theorem attributes_iff (version : Nat) (regs : Nat → BitVec 32) :
    (Attributes .v1 version 0 regs (sunxiIommuIrqV1 version regs) ↔
      Attributable .v1 (DriverVersion.v1.interStatusReg 0 regs)
        (DriverVersion.v1.l1PgintReg 0 regs)
        (DriverVersion.v1.l2PgintReg 0 regs)) ∧
    (∀ index : Fin 2,
      Attributes .v2 version index regs
          (dumpIntFromOneInstance version index regs) ↔
        Attributable .v2 (DriverVersion.v2.interStatusReg index regs)
          (DriverVersion.v2.l1PgintReg index regs)
          (DriverVersion.v2.l2PgintReg index regs)) ∧
    (Attributes .v3 version 0 regs (sunxiIommuIrqV3 version regs) ↔
      Attributable .v3 (DriverVersion.v3.interStatusReg 0 regs)
        (DriverVersion.v3.l1PgintReg 0 regs)
        (DriverVersion.v3.l2PgintReg 0 regs)) := by
  refine ⟨faultIrq_attributes_iff (by decide) (by decide), fun index => ?_,
    faultIrq_attributes_iff (by decide) (by decide)⟩
  apply faultIrq_attributes_iff
  · revert index
    decide
  · revert index
    decide

/-- An interrupt without a cause, where the search for a bit gets 0, and two
faults at once, where the address is that of micro TLB 3 and the master is the
one with bit 1 in the register of the first level. -/
theorem faults_not_attributed :
    ¬ Attributes .v1 iommuVersionV14 0 (fun _ => 0)
        (sunxiIommuIrqV1 iommuVersionV14 fun _ => 0) ∧
      ¬ Attributes .v3 iommuVersionV14 0
        (fun r => if r = 0x0108 then 0x8 else if r = 0x01b0 then 0x2 else 0)
        (sunxiIommuIrqV3 iommuVersionV14
          fun r => if r = 0x0108 then 0x8 else if r = 0x01b0 then 0x2 else 0) := by
  constructor
  · intro h
    exact h.ffs 0 (by decide) rfl
  · unfold sunxiIommuIrqV3
    rw [faultIrq_attributes_iff (by decide) (by decide)]
    decide

end LonganPi.Iommu
