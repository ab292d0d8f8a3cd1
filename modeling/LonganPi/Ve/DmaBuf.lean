import LonganPi.Errno
import LonganPi.Lib.Ledger
import LonganPi.Lib.Transition
import Mathlib.Data.BitVec

/-!
# The DMA buffers of the VE driver

`cedar_devp->list` and the ioctls that fill and empty it, with the dma-buf
references, attachments and mappings that its entries stand for.

An entry is created through a file and matched by the address of its `struct
file`, the process and the fd.  The kernel reuses that address, so the model
numbers the opens: the number of an open file is its serial, and the ledger
says through which serial each resource was taken.

Every step here is a call that returns, so `lock_mem` is free between two
steps and the list is a list.
-/

namespace LonganPi.Ve

/-- What `map_dma_buf_addr` takes from a dma-buf. -/
inductive DmaGrant
  | ref (dmaBuf : Nat)
  | attachment (attachment : Nat)
  | mapping (attachment sgt : Nat)
  deriving DecidableEq, Repr

/-- `struct dma_buf_info`.  `owner` is the serial of the file that the entry
was created through, which the source does not store. -/
structure DmaBufInfo where
  fd : Int
  addr : BitVec 64
  dmaBuf : Option Nat
  attachment : Option Nat
  sgt : Option Nat
  pId : Int
  filp : Nat
  owner : Nat
  deriving DecidableEq, Repr

/-- The part of `struct cedar_dev` that the list is in, the resources, and
the open files. -/
structure DmaBufs where
  list : List DmaBufInfo
  bMemDevAttachFlag : Bool
  /-- What was taken, and through which serial. -/
  ledger : Ledger (Nat × DmaGrant)
  /-- The serial of the open file at an address. -/
  files : Nat → Option Nat
  /-- The opens so far. -/
  opened : Nat

namespace DmaBufs

/-- After `cedardev_init`. -/
def init : DmaBufs where
  list := []
  bMemDevAttachFlag := false
  ledger := .empty
  files := fun _ => none
  opened := 0

end DmaBufs

/-! ## The two helpers -/

/-- How far `map_dma_buf_addr` gets, with the pointers it is given. -/
inductive MapOutcome
  | noMem
  | noBuf
  | noAttachment (dmaBuf : Nat)
  | noTable (dmaBuf attachment : Nat)
  | mapped (dmaBuf attachment sgt : Nat) (dmaAddress : BitVec 64)
  deriving DecidableEq, Repr

/-- `map_dma_buf_addr`, its result and what it stores in `*addr`.  The labels
`BUF_DETATCH` and `BUF_PUT` give back what was taken before the failure. -/
def mapDmaBufAddr (s : DmaBufs) (o : MapOutcome) (fd tgid : Int)
    (filp owner : Nat) : DmaBufs × Int × Option (BitVec 32) :=
  match o with
  | .noMem => (s, -1, none)
  | .noBuf => (s, -1, none)
  | .noAttachment b =>
    let L := s.ledger.acquire (owner, .ref b)
    ({ s with ledger := L.release (owner, .ref b) }, -1, none)
  | .noTable b a =>
    let L := (s.ledger.acquire (owner, .ref b)).acquire (owner, .attachment a)
    let L := L.release (owner, .attachment a)
    ({ s with ledger := L.release (owner, .ref b) }, -1, none)
  | .mapped b a t dmaAddress =>
    let L := (s.ledger.acquire (owner, .ref b)).acquire (owner, .attachment a)
    let L := L.acquire (owner, .mapping a t)
    let bufInfo : DmaBufInfo :=
      { fd := fd, addr := dmaAddress, dmaBuf := some b, attachment := some a
        sgt := some t, pId := tgid, filp := filp, owner := owner }
    ({ s with list := s.list ++ [bufInfo], ledger := L }, 0,
      some (dmaAddress.setWidth 32))

/-- The three nested `if`s before an entry is deleted. -/
def DmaBufInfo.put (e : DmaBufInfo) (L : Ledger (Nat × DmaGrant)) :
    Ledger (Nat × DmaGrant) :=
  match e.dmaBuf with
  | none => L
  | some b =>
    let L := match e.attachment with
      | none => L
      | some a =>
        let L := match e.sgt with
          | none => L
          | some t => L.release (e.owner, .mapping a t)
        L.release (e.owner, .attachment a)
    L.release (e.owner, .ref b)

/-- The test of the loop of `unmap_dma_buf_addr`. -/
def DmaBufInfo.fits (unmapAll : Bool) (fd tgid : Int) (filp : Nat)
    (e : DmaBufInfo) : Bool :=
  let tmpFd := if unmapAll then e.fd else fd
  e.fd == tmpFd && e.pId == tgid && filp == e.filp

/-- The loop of `unmap_dma_buf_addr`.  It stops at the first entry that fits
unless `unmap_all` is set. -/
def unmapEntries (unmapAll : Bool) (fd tgid : Int) (filp : Nat) :
    List DmaBufInfo → Ledger (Nat × DmaGrant) →
      List DmaBufInfo × Ledger (Nat × DmaGrant)
  | [], L => ([], L)
  | e :: es, L =>
    if e.fits unmapAll fd tgid filp then
      if unmapAll then unmapEntries unmapAll fd tgid filp es (e.put L)
      else (es, e.put L)
    else
      let rest := unmapEntries unmapAll fd tgid filp es L
      (e :: rest.1, rest.2)

/-- `unmap_dma_buf_addr`. -/
def unmapDmaBufAddr (s : DmaBufs) (unmapAll : Bool) (fd tgid : Int)
    (filp : Nat) : DmaBufs :=
  if s.bMemDevAttachFlag then
    let rest := unmapEntries unmapAll fd tgid filp s.list s.ledger
    { s with list := rest.1, ledger := rest.2 }
  else s

/-! ## The ioctls and the file operations -/

/-- `IOCTL_MAP_DMA_BUF`, and `IOCTL_GET_IOMMU_ADDR` with its own parameter
type.  `parm` is the fd that `copy_from_user` reads, unless it fails. -/
def ioctlMapDmaBuf (s : DmaBufs) (filp owner : Nat) (tgid : Int)
    (parm : Option Int) (o : MapOutcome) (copiedOut : Bool) : DmaBufs × Int :=
  let s := { s with bMemDevAttachFlag := true }
  match parm with
  | none => (s, eFault)
  | some fd =>
    let r := mapDmaBufAddr s o fd tgid filp owner
    if r.2.1 ≠ 0 then (r.1, eFault)
    else if copiedOut = false then (r.1, eFault)
    else (r.1, 0)

/-- `IOCTL_UNMAP_DMA_BUF` and `IOCTL_FREE_IOMMU_ADDR`. -/
def ioctlUnmapDmaBuf (s : DmaBufs) (filp : Nat) (tgid : Int)
    (parm : Option Int) : DmaBufs × Int :=
  match parm with
  | none => (s, eFault)
  | some fd => (unmapDmaBufAddr s false fd tgid filp, 0)

/-- `cedardev_open`, for a file at the address `filp`. -/
def openDmaFile (s : DmaBufs) (filp : Nat) : DmaBufs :=
  { s with
    files := Function.update s.files filp (some s.opened)
    opened := s.opened + 1 }

/-- `cedardev_release`.  The call `unmap_dma_buf_addr(1, 0, filp)` stands in a
comment, so the list is not looked at.  The file is gone also when the wait
for `sem` was interrupted. -/
def releaseDmaFile (s : DmaBufs) (filp : Nat) (interrupted : Bool) :
    DmaBufs × Int :=
  let s := { s with files := Function.update s.files filp none }
  if interrupted then (s, eRestartsys) else (s, 0)

end LonganPi.Ve
