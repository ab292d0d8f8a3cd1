import LonganPi.Errno
import LonganPi.Iommu.Entry
import Mathlib.Logic.Function.Basic

/-!
# The two-level page table of `sunxi-iommu-pgtable.c`

`Pgtable` is the memory that the functions of the file work on: the
directory of `u32` words, the L2 tables that are allocated from the slab
cache, and the outcomes that the slab still has in store.  The functions
below are those of the file under their own names.

Three points of the model:

* **Memory faults.**  A leaf access goes through `leafPtr`, which faults on
  an invalid directory entry, and through `readLeaf` or `writeLeaf`, which
  fault on a table that is not allocated.  Freeing a table that is not
  allocated is a fault as well.  The source makes none of these checks.  A
  function that returns `.ok` therefore made no bad access.
* **The slab.**  `kmem_cache_zalloc` takes the next outcome of `slab`.  A
  successful outcome must be a fresh address, aligned to `PT_SIZE` and
  inside the physical window, which is what the slab cache guarantees.
* **The trace.**  Every store, allocation and invalidation is an `Event`
  that is also appended to `trace`, in program order.  `Event.apply` is the
  effect of one event, so a run can be replayed one step at a time.

Loops carry a fuel count.  Running out of it is a fault too, so the
theorems that rule out faults also prove that the loops end.
-/

namespace LonganPi.Iommu

/-! ## State -/

/-- What can go wrong in a memory access of the driver. -/
inductive Fault where
  /-- A leaf was accessed through a directory entry that is not valid. -/
  | invalidEntry
  /-- A leaf of a table that is not allocated was accessed. -/
  | useAfterFree
  /-- A table that is not allocated was freed. -/
  | doubleFree
  /-- A loop did not end within its fuel. -/
  | fuel
  deriving DecidableEq, Repr

/-- One visible step of the driver. -/
inductive Event where
  /-- `*pent = val` for the leaf at physical address `addr`. -/
  | storeLeaf (addr val : Nat)
  /-- `pgtable[i] = val`. -/
  | storeDent (i val : Nat)
  /-- A table was allocated and zeroed at physical address `pa`. -/
  | allocTable (pa : Nat)
  /-- The table at physical address `pa` was freed. -/
  | freeTable (pa : Nat)
  /-- `sunxi_tlb_invalid(start, stop)`. -/
  | tlbInvalid (start stop : Nat)
  /-- `sunxi_ptw_cache_invalid(start, stop)`. -/
  | ptwInvalid (start stop : Nat)
  deriving DecidableEq, Repr

/-- The page directory, the L2 tables and the slab that serves them. -/
structure Pgtable where
  /-- The words of the directory, by index. -/
  pgtable : Nat → Nat
  /-- The allocated L2 tables, by physical address; their words by index. -/
  tables : Nat → Option (Nat → Nat)
  /-- The outcomes of the next calls of `kmem_cache_zalloc`. -/
  slab : List (Option Nat)
  /-- The events so far, in program order. -/
  trace : List Event

/-- The table that the leaf at physical address `addr` lies in.  Tables are
aligned to their size. -/
def leafTable (L : PgtableLayout) (addr : Nat) : Nat :=
  addr / ptSize L * ptSize L

/-- The position of the leaf at physical address `addr` in its table. -/
def leafSlot (L : PgtableLayout) (addr : Nat) : Nat := addr % ptSize L / 4

/-- The effect of one event on the memory. -/
def Event.apply (L : PgtableLayout) (s : Pgtable) : Event → Pgtable
  | .storeLeaf addr val =>
    { s with
      tables := Function.update s.tables (leafTable L addr)
        ((s.tables (leafTable L addr)).map fun t =>
          Function.update t (leafSlot L addr) val) }
  | .storeDent i val => { s with pgtable := Function.update s.pgtable i val }
  | .allocTable pa =>
    { s with tables := Function.update s.tables pa (some fun _ => 0) }
  | .freeTable pa => { s with tables := Function.update s.tables pa none }
  | .tlbInvalid _ _ => s
  | .ptwInvalid _ _ => s

/-- Do one event and record it. -/
def Pgtable.perform (L : PgtableLayout) (s : Pgtable) (e : Event) : Pgtable :=
  { e.apply L s with trace := s.trace ++ [e] }

/-! ## Memory accesses -/

/-- `pent = iopte_offset(dent, iova)` for an access to `*pent`. -/
def Pgtable.leafPtr (L : PgtableLayout) (s : Pgtable) (iova : Nat) :
    Except Fault Nat :=
  if IsValid (s.pgtable (iopdeIndex L iova)) then
    .ok (iopteOffset L (s.pgtable (iopdeIndex L iova)) iova)
  else .error .invalidEntry

/-- The value of `*pent`. -/
def Pgtable.readLeaf (L : PgtableLayout) (s : Pgtable) (pent : Nat) :
    Except Fault Nat :=
  match s.tables (leafTable L pent) with
  | some t => .ok (t (leafSlot L pent))
  | none => .error .useAfterFree

/-- `*pent = val`. -/
def Pgtable.writeLeaf (L : PgtableLayout) (s : Pgtable) (pent val : Nat) :
    Except Fault Pgtable :=
  match s.tables (leafTable L pent) with
  | some _ => .ok (s.perform L (.storeLeaf pent (u32 val)))
  | none => .error .useAfterFree

/-- `kmem_cache_zalloc(iopte_cache)`.  An outcome that is not fresh, not
aligned or outside the window is none that the slab can have; the model
reads it as a failure. -/
def kmemCacheZalloc (L : PgtableLayout) (s : Pgtable) :
    Pgtable × Option Nat :=
  match s.slab with
  | [] => (s, none)
  | none :: slab => ({ s with slab }, none)
  | some pa :: slab =>
    if s.tables pa = none ∧ pa % ptSize L = 0 ∧ InPhysWindow L pa then
      (Pgtable.perform L { s with slab } (.allocTable pa), some pa)
    else ({ s with slab }, none)

/-- `sunxi_free_iopte`. -/
def sunxiFreeIopte (L : PgtableLayout) (s : Pgtable) (pent : Nat) :
    Except Fault Pgtable :=
  match s.tables pent with
  | some _ => .ok (s.perform L (.freeTable pent))
  | none => .error .doubleFree

/-! ## The functions of the file -/

/-- `sunxi_alloc_iopte` on the directory entry `i`; `true` is the result 1.
The source also computes access bits from `prot`, which it never stores. -/
def sunxiAllocIopte (L : PgtableLayout) (s : Pgtable) (i : Nat) :
    Pgtable × Bool :=
  match kmemCacheZalloc L s with
  | (s, none) => (s, false)
  | (s, some pent) => (s.perform L (.storeDent i (iopteEntry L pent)), true)

/-- The loop of `sunxi_pgtable_prepare_l1_tables`. -/
def prepareL1Loop (L : PgtableLayout) (iovaEnd : Nat) :
    Nat → Nat → Pgtable → Except Fault (Pgtable × Int)
  | 0, iovaStart, s =>
    if iovaStart ≤ iovaEnd then .error .fuel else .ok (s, 0)
  | n + 1, iovaStart, s =>
    if iovaStart ≤ iovaEnd then
      if IsValid (s.pgtable (iopdeIndex L iovaStart)) then
        prepareL1Loop L iovaEnd n (iovaStart + spdSize L) s
      else
        match sunxiAllocIopte L s (iopdeIndex L iovaStart) with
        | (s, true) => prepareL1Loop L iovaEnd n (iovaStart + spdSize L) s
        | (s, false) => .ok (s, eNomem)
    else .ok (s, 0)

/-- Enough fuel for a loop over the directory entries of a range. -/
def spanFuel (L : PgtableLayout) (iovaStart iovaEnd : Nat) : Nat :=
  (iovaEnd - iovaStart) / spdSize L + 2

/-- `sunxi_pgtable_prepare_l1_tables`. -/
def sunxiPgtablePrepareL1Tables (L : PgtableLayout) (s : Pgtable)
    (iovaStart iovaEnd : Nat) : Except Fault (Pgtable × Int) :=
  prepareL1Loop L iovaEnd (spanFuel L iovaStart iovaEnd) iovaStart s

/-- `iova_tail_count` and `iova_tail_size`: the part of the range that the
directory entry of `iovaStart` covers.  Both `prepare_l2_tables` and
`delete_l2_tables` compute it this way. -/
def iovaTail (L : PgtableLayout) (iovaStart iovaEnd : Nat) : Nat × Nat :=
  let iovaTailCount := u32 (numEntriesPte L - iopteIndex L iovaStart)
  let iovaTailSize := u32 (iovaTailCount * spageSize)
  if iovaStart + iovaTailSize > iovaEnd then
    let iovaTailSize := u32 (iovaEnd - iovaStart)
    (iovaTailSize / spageSize, iovaTailSize)
  else (iovaTailCount, iovaTailSize)

/-- `for (i = 0; i < count; i++) *pent++ = f(i)`, starting at index `i` with
`count` rounds left. -/
def storeLeaves (L : PgtableLayout) (f : Nat → Nat) :
    Nat → Nat → Nat → Pgtable → Except Fault Pgtable
  | 0, _, _, s => .ok s
  | count + 1, i, pent, s => do
    let s ← s.writeLeaf L pent (f i)
    storeLeaves L f count (i + 1) (pent + 4) s

/-- The loop of `sunxi_pgtable_prepare_l2_tables`. -/
def prepareL2Loop (L : PgtableLayout) (iovaEnd prot : Nat) :
    Nat → Nat → Nat → Pgtable → Except Fault Pgtable
  | 0, iovaStart, _, s =>
    if iovaStart < iovaEnd then .error .fuel else .ok s
  | n + 1, iovaStart, paddrStart, s =>
    if iovaStart < iovaEnd then do
      let iovaTailCount := (iovaTail L iovaStart iovaEnd).1
      let iovaTailSize := (iovaTail L iovaStart iovaEnd).2
      let pent ← s.leafPtr L iovaStart
      let pentVal := sunxiMkPte L paddrStart prot
      let s ← storeLeaves L (fun i => pentVal + spageSize * i)
        iovaTailCount 0 pent s
      prepareL2Loop L iovaEnd prot n (iovaStart + iovaTailSize)
        (paddrStart + iovaTailSize) s
    else .ok s

/-- `sunxi_pgtable_prepare_l2_tables`.  Its result is always 0. -/
def sunxiPgtablePrepareL2Tables (L : PgtableLayout) (s : Pgtable)
    (iovaStart iovaEnd paddr prot : Nat) : Except Fault Pgtable :=
  prepareL2Loop L iovaEnd prot (spanFuel L iovaStart iovaEnd) iovaStart
    (cpuPhyToIommuPhy L paddr &&& iommuPtMask) s

/-- `sunxi_pgtable_delete_l2_tables`. -/
def sunxiPgtableDeleteL2Tables (L : PgtableLayout) (s : Pgtable)
    (iovaStart iovaEnd : Nat) : Except Fault (Pgtable × Int) :=
  let iovaTailCount := (iovaTail L iovaStart iovaEnd).1
  let iovaTailSize := (iovaTail L iovaStart iovaEnd).2
  let dent := iopdeIndex L iovaStart
  if IsValid (s.pgtable dent) then do
    let pent ← s.leafPtr L iovaStart
    let s ← storeLeaves L (fun _ => 0) iovaTailCount 0 pent s
    if iovaTailSize = spdSize L then
      let s := s.perform L (.storeDent dent 0)
      let s ← sunxiFreeIopte L s pent
      .ok (s, iovaTailSize)
    else .ok (s, iovaTailSize)
  else .ok (s, eInval)

/-- `sunxi_pgtable_iova_to_phys`. -/
def sunxiPgtableIovaToPhys (L : PgtableLayout) (s : Pgtable) (iova : Nat) :
    Except Fault Nat :=
  if IsValid (s.pgtable (iopdeIndex L iova)) then do
    let pent ← s.leafPtr L iova
    let ent ← s.readLeaf L pent
    if ent ≠ 0 then
      .ok (iommuPhyToCpuPhy L (iopteToPfn L ent + iovaPageOft iova))
    else .ok 0
  else .ok 0

/-- One round of `sunxi_pgtable_clear`. -/
def clearDent (L : PgtableLayout) (s : Pgtable) (i : Nat) :
    Except Fault Pgtable :=
  let iova := i <<< iommuPdShift L
  if IsValid (s.pgtable i) then do
    let pent ← s.leafPtr L iova
    let s ← storeLeaves L (fun _ => 0) (numEntriesPte L) 0 pent s
    let s := s.perform L (.storeDent i 0)
    sunxiFreeIopte L s pent
  else .ok s

/-- The loop of `sunxi_pgtable_clear`, with `n` rounds left. -/
def clearLoop (L : PgtableLayout) : Nat → Nat → Pgtable → Except Fault Pgtable
  | 0, _, s => .ok s
  | n + 1, i, s => do
    let s ← clearDent L s i
    clearLoop L n (i + 1) s

/-- `sunxi_pgtable_clear`. -/
def sunxiPgtableClear (L : PgtableLayout) (s : Pgtable) :
    Except Fault Pgtable :=
  clearLoop L (numEntriesPde L) 0 s

/-- `sunxi_pgtable_alloc`: a zeroed directory.  `slab` is what the slab
cache will answer from here on. -/
def sunxiPgtableAlloc (slab : List (Option Nat)) : Pgtable where
  pgtable := fun _ => 0
  tables := fun _ => none
  slab := slab
  trace := []

end LonganPi.Iommu
