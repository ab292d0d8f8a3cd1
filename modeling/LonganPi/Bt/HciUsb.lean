import LonganPi.Errno
import LonganPi.Lib.BoundedRing

/-!
# The receive path of the Bluetooth driver

The controller sends HCI packets over three USB endpoints: events over the
interrupt endpoint, ACL data over the bulk endpoint and SCO data over the
isochronous one.  A transfer need not end where a packet ends, so
`hci_reassembly` collects the packets, one buffer for each type.  A packet that is
complete goes, behind its type, into a ring of 500 buffers, from which a
process reads the bytes through a character device.

The completions of the transfers, the reader and those that open and close the
device run at the same time.  Opening it takes several steps: the flags are set before
the transfers are submitted, and cleared again when that fails.  The result of a step is
`none` where the kernel would oops.
-/

namespace LonganPi.Bt

/-- `HCI_ACLDATA_PKT`, `HCI_SCODATA_PKT` and `HCI_EVENT_PKT`. -/
inductive PktType where
  | aclData
  | scoData
  | event
  deriving DecidableEq, Repr

namespace PktType

def code : PktType → UInt8
  | .aclData => 2
  | .scoData => 3
  | .event => 4

/-- `HCI_ACL_HDR_SIZE`, `HCI_SCO_HDR_SIZE` and `HCI_EVENT_HDR_SIZE`. -/
def hdrSize : PktType → Nat
  | .aclData => 4
  | .scoData => 3
  | .event => 2

/-- `HCI_MAX_FRAME_SIZE`, `HCI_MAX_SCO_SIZE` and `HCI_MAX_EVENT_SIZE`. -/
def maxSize : PktType → Nat
  | .aclData => 1028
  | .scoData => 255
  | .event => 260

/-- `dlen` of `struct hci_acl_hdr` and `struct hci_sco_hdr`, `plen` of
`struct hci_event_hdr`. -/
def dlen (t : PktType) (hdr : List UInt8) : Nat :=
  match t with
  | .aclData => (hdr.getD 2 0).toNat + 256 * (hdr.getD 3 0).toNat
  | .scoData => (hdr.getD 2 0).toNat
  | .event => (hdr.getD 1 0).toNat

end PktType

/-- A buffer that is filled: `room` bytes fit from `skb->data` on, and `expect` is
that of `struct bt_skb_cb`. -/
structure SkBuff where
  data : List UInt8
  room : Nat
  expect : Nat
  deriving DecidableEq, Repr

/-- What the memory allocations return: for `alloc_skb` the room in the buffer, and
for `pskb_copy` whether there is a copy.  The first argument numbers the calls. -/
structure Allocator where
  alloc : Nat → Nat → Option Nat
  copy : Nat → Bool
  le_room : ∀ k len room, alloc k len = some room → len ≤ room

/-- Where `btusb_open` is: it has set `HCI_RUNNING`, it submits the transfers with both
flags set, it has cleared that of the interrupt endpoint again, or it has returned. -/
inductive OpenStage where
  | marked
  | submitting
  | failing (err : Int)
  | returned (ret : Int)
  deriving DecidableEq, Repr

/-- The parts of `struct hci_dev`, the flag `BTUSB_INTR_RUNNING` and the queue.
`HCI_INIT` is left out: nothing sets it.  `reassembly[type - 1]` is
`reassembly type`.  `opens` are the calls of `btchr_ioctl` that are under way, each with
whether it is for `DOWN_FW_CFG` and where its `btusb_open` is.

The other fields say what happened: how many allocations were tried, how many
buffers were allocated, freed, and dropped without being freed, the frames that
`hci_recv_frame` got, the packets that came into the queue after it was last cleared
and the bytes that were read after that. -/
structure HciDev where
  up : Bool
  running : Bool
  intrRunning : Bool
  promisc : Nat
  opens : List (Bool × OpenStage)
  reassembly : PktType → Option SkBuff
  queue : BoundedRing (List UInt8)
  calls : Nat
  allocated : Nat
  freed : Nat
  dropped : Nat
  received : List (PktType × List UInt8)
  queued : List (List UInt8)
  read : List UInt8

/-- `QUEUE_SIZE`. -/
def queueSize : Nat := 500

/-- After `hci_register_dev`. -/
def hciRegisterDev : HciDev where
  up := false
  running := false
  intrRunning := false
  promisc := 0
  opens := []
  reassembly := fun _ => none
  queue := ⟨fun _ => none, 0, 0⟩
  calls := 0
  allocated := 0
  freed := 0
  dropped := 0
  received := []
  queued := []
  read := []

namespace HciDev

/-- `kfree_skb`. -/
def kfreeSkb (d : HciDev) : HciDev := { d with freed := d.freed + 1 }

def setReassembly (d : HciDev) (t : PktType) (skb : Option SkBuff) : HciDev :=
  { d with reassembly := Function.update d.reassembly t skb }

/-- `is_queue_empty`. -/
def isQueueEmpty (d : HciDev) : Bool := d.queue.front == d.queue.rear

/-- `aic_enqueue`: on a full queue nobody frees the packet. -/
def aicEnqueue (d : HciDev) (pkt : List UInt8) : HciDev :=
  if d.queue.front == (d.queue.rear + 1) % queueSize then { d with dropped := d.dropped + 1 }
  else { d with
    queue := ⟨Function.update d.queue.cells d.queue.rear (some pkt), d.queue.front,
      (d.queue.rear + 1) % queueSize⟩
    queued := d.queued ++ [pkt] }

/-- The loop of `aic_clear_queue`. -/
def clearLoop : Nat → HciDev → HciDev
  | 0, d => d
  | n + 1, d =>
    if d.isQueueEmpty then d
    else
      let d' := { d with queue :=
        ⟨Function.update d.queue.cells d.queue.front none, (d.queue.front + 1) % queueSize,
          d.queue.rear⟩ }
      clearLoop n (if (d.queue.cells d.queue.front).isSome then d'.kfreeSkb else d')

/-- `aic_clear_queue`. -/
def aicClearQueue (d : HciDev) : HciDev :=
  { clearLoop queueSize d with queued := [], read := [] }

variable (A : Allocator)

/-- `hci_send_to_stack`. -/
def hciSendToStack (d : HciDev) (t : PktType) (frame : List UInt8) : HciDev :=
  if d.running then
    if A.copy d.calls then
      { d with calls := d.calls + 1, allocated := d.allocated + 1 }.aicEnqueue (t.code :: frame)
    else { d with calls := d.calls + 1 }
  else d

/-- `hci_recv_frame`. -/
def hciRecvFrame (d : HciDev) (t : PktType) (frame : List UInt8) : HciDev :=
  let d := { d with received := d.received ++ [(t, frame)] }
  if d.up && d.promisc != 0 then (d.hciSendToStack A t frame).kfreeSkb else d.kfreeSkb

end HciDev

/-- `skb_put` and the copy into it: too much is `skb_over_panic`. -/
def skbPut (skb : SkBuff) (bytes : List UInt8) : Option SkBuff :=
  if skb.data.length + bytes.length ≤ skb.room then
    some { skb with data := skb.data ++ bytes }
  else none

/-- The `switch` in the loop of `hci_reassembly`: when the header is complete, it
says what follows, unless that is too much. -/
def readHeader (t : PktType) (skb : SkBuff) : Option SkBuff :=
  if skb.data.length = t.hdrSize then
    if skb.room - skb.data.length < t.dlen skb.data then none
    else some { skb with expect := t.dlen skb.data }
  else some skb

namespace HciDev

variable (A : Allocator)

/-- The loop of `hci_reassembly`, with what remains of `data`. -/
def reassemblyLoop (t : PktType) :
    Nat → HciDev → SkBuff → List UInt8 → Option (HciDev × Except Int (List UInt8))
  | 0, d, skb, data => some (d.setReassembly t (some skb), .ok data)
  | n + 1, d, skb, data =>
    if data = [] then some (d.setReassembly t (some skb), .ok data)
    else
      let len := min skb.expect data.length
      match skbPut skb (data.take len) with
      | none => none
      | some skb =>
        match readHeader t { skb with expect := skb.expect - len } with
        | none => some (d.kfreeSkb.setReassembly t none, .error eNomem)
        | some skb =>
          if skb.expect = 0 then
            some ((d.hciRecvFrame A t skb.data).setReassembly t none, .ok (data.drop len))
          else reassemblyLoop t n d skb (data.drop len)

/-- `hci_reassembly`. -/
def hciReassembly (d : HciDev) (t : PktType) (data : List UInt8) :
    Option (HciDev × Except Int (List UInt8)) :=
  match d.reassembly t with
  | some skb => reassemblyLoop A t data.length d skb data
  | none =>
    match A.alloc d.calls t.maxSize with
    | none => some ({ d with calls := d.calls + 1 }, .error eNomem)
    | some room =>
      let skb : SkBuff := ⟨[], room, t.hdrSize⟩
      let d := { d with calls := d.calls + 1, allocated := d.allocated + 1 }
      reassemblyLoop A t data.length (d.setReassembly t (some skb)) skb data

/-- The loop of `hci_recv_fragment`. -/
def recvLoop (t : PktType) : Nat → HciDev → List UInt8 → Option (HciDev × Int)
  | 0, d, _ => some (d, 0)
  | n + 1, d, data =>
    if data = [] then some (d, 0)
    else
      match d.hciReassembly A t data with
      | none => none
      | some (d, .error e) => some (d, e)
      | some (d, .ok data) => recvLoop t n d data

/-- `hci_recv_fragment`. -/
def hciRecvFragment (d : HciDev) (t : PktType) (data : List UInt8) : Option (HciDev × Int) :=
  recvLoop A t data.length d data

/-- `btusb_intr_complete` and `btusb_bulk_complete` for a transfer without an error,
up to the call that submits it again. -/
def urbComplete (t : PktType) (d : HciDev) (data : List UInt8) : Option HciDev :=
  if d.running then (d.hciRecvFragment A t data).map Prod.fst else some d

/-- `btusb_intr_complete`. -/
def btusbIntrComplete (d : HciDev) (data : List UInt8) : Option HciDev :=
  urbComplete A .event d data

/-- `btusb_bulk_complete`. -/
def btusbBulkComplete (d : HciDev) (data : List UInt8) : Option HciDev :=
  urbComplete A .aclData d data

/-- The loop of `btusb_isoc_complete` over the packets of a transfer, each with its
status. -/
def isocLoop (actualLength : Nat) :
    List (Int × List UInt8) → Nat → HciDev → Option HciDev
  | [], _, d => some d
  | (status, data) :: packets, total, d =>
    if actualLength ≤ total then some d
    else if status ≠ 0 ∨ data = [] then isocLoop actualLength packets (total + data.length) d
    else
      match d.hciRecvFragment A .scoData data with
      | none => none
      | some (d, _) => isocLoop actualLength packets (total + data.length) d

/-- `btusb_isoc_complete`. -/
def btusbIsocComplete (d : HciDev) (actualLength : Nat) (packets : List (Int × List UInt8)) :
    Option HciDev :=
  if d.running then isocLoop A actualLength packets 0 d else some d

/-- `aic_dequeue_try`: a longer packet stays, without its first `count` bytes. -/
def aicDequeueTry (d : HciDev) (count : Nat) : Option (HciDev × Option (List UInt8)) :=
  if d.isQueueEmpty then some (d, none)
  else
    match d.queue.cells d.queue.front with
    | none => none
    | some pkt =>
      if pkt.length ≤ count then
        some ({ d with queue :=
          ⟨d.queue.cells, (d.queue.front + 1) % queueSize, d.queue.rear⟩ }, some pkt)
      else
        let d' := { d with
          calls := d.calls + 1
          queue := ⟨Function.update d.queue.cells d.queue.front (some (pkt.drop count)),
            d.queue.front, d.queue.rear⟩ }
        if A.copy d.calls then some ({ d' with allocated := d.allocated + 1 }, some pkt)
        else some (d', none)

/-- One round of `btchr_read`, with `usb_put_user`.  `fault` says that the bytes
cannot be copied to the reader. -/
def btchrRead (d : HciDev) (count : Nat) (fault : Bool) : Option HciDev :=
  if count = 0 then some d
  else
    match d.aicDequeueTry A count with
    | none => none
    | some (d, none) => some d
    | some (d, some pkt) =>
      if fault then some d.kfreeSkb
      else some { d with read := d.read ++ pkt.take count }.kfreeSkb

/-- `hci_hardware_error`.  Of the four bytes of the event it queues three. -/
def hciHardwareError (d : HciDev) : HciDev :=
  match A.alloc d.calls 3 with
  | none => { d with calls := d.calls + 1 }
  | some _ =>
    { d with calls := d.calls + 1, allocated := d.allocated + 1 }.aicEnqueue [4, 0x10, 0x01]

/-- `btusb_open` up to its first flag: `getErr` is what taking the interface returns. -/
def btusbOpen (d : HciDev) (getErr : Int) : HciDev × OpenStage :=
  if getErr < 0 then (d, .returned getErr)
  else if d.running then (d, .returned 0)
  else ({ d with running := true }, .marked)

/-- What `btusb_open` does next: `submitErr` is what submitting the transfers returns.
On the way out after an error it clears the two flags one after the other. -/
def btusbOpenNext (d : HciDev) (submitErr : Int) : OpenStage → HciDev × OpenStage
  | .marked =>
    if d.intrRunning then (d, .returned 0) else ({ d with intrRunning := true }, .submitting)
  | .submitting =>
    if submitErr < 0 then ({ d with intrRunning := false }, .failing submitErr)
    else (d, .returned 0)
  | .failing err => ({ d with running := false }, .returned err)
  | .returned ret => (d, .returned ret)

/-- `btchr_ioctl` begins to open the device. -/
def btchrIoctl (d : HciDev) (downFw : Bool) (getErr : Int) : HciDev :=
  let (d, stage) := d.btusbOpen getErr
  { d with opens := d.opens ++ [(downFw, stage)] }

/-- The `i`-th call of `btchr_ioctl` goes on.  With `DOWN_FW_CFG` the device is up when it
could be opened, with `DWFW_CMPLT`, `SET_ISO_CFG` and `GET_USB_INFO` also when not. -/
def btchrIoctlNext (d : HciDev) (i : Nat) (submitErr : Int) : HciDev :=
  match d.opens[i]? with
  | none => d
  | some (downFw, .returned ret) =>
    { d with up := d.up || !(downFw && ret < 0), opens := d.opens.eraseIdx i }
  | some (downFw, stage) =>
    let (d, stage) := d.btusbOpenNext submitErr stage
    { d with opens := d.opens.set i (downFw, stage) }

/-- Frees the buffer of one type. -/
def freeReassembly (d : HciDev) (t : PktType) : HciDev :=
  match d.reassembly t with
  | none => d
  | some _ => d.kfreeSkb.setReassembly t none

/-- `btusb_close`. -/
def btusbClose (d : HciDev) : HciDev :=
  if d.running then
    let d := { d with running := false }
    if d.intrRunning then
      (({ d with intrRunning := false }.freeReassembly .aclData).freeReassembly
        .scoData).freeReassembly .event
    else d
  else d

/-- `btchr_close`, with `hci_dev_do_close`. -/
def btchrClose (d : HciDev) : HciDev :=
  { { d with promisc := 0 }.btusbClose with up := false, running := false }

/-- `btchr_open`. -/
def btchrOpen (d : HciDev) : HciDev :=
  { d with promisc := d.promisc + 1 }.aicClearQueue

end HciDev

/-- What happens to the device. -/
inductive BtEvent where
  | intr (data : List UInt8)
  | bulk (data : List UInt8)
  | isoc (actualLength : Nat) (packets : List (Int × List UInt8))
  | read (count : Nat) (fault : Bool)
  | hardwareError
  | ioctl (downFw : Bool) (getErr : Int)
  | ioctlNext (i : Nat) (submitErr : Int)
  | chrOpen
  | chrClose
  /-- `btusb_resume` cannot submit the transfer of the interrupt endpoint. -/
  | resumeFails
  deriving DecidableEq, Repr

/-- One step. -/
def btStep (A : Allocator) (d : HciDev) : BtEvent → Option HciDev
  | .intr data => d.btusbIntrComplete A data
  | .bulk data => d.btusbBulkComplete A data
  | .isoc actualLength packets => d.btusbIsocComplete A actualLength packets
  | .read count fault => d.btchrRead A count fault
  | .hardwareError => some (d.hciHardwareError A)
  | .ioctl downFw getErr => some (d.btchrIoctl downFw getErr)
  | .ioctlNext i submitErr => some (d.btchrIoctlNext i submitErr)
  | .chrOpen => some d.btchrOpen
  | .chrClose => some d.btchrClose
  | .resumeFails => some { d with intrRunning := false }

end LonganPi.Bt
