import Mathlib.Logic.Function.Basic
import Mathlib.Data.List.Basic

/-!
# The transmit path of the wireless driver over USB

`rwnx_tx_push` hands frames to the bus one at a time, under `tx_lock`.
`aicwf_usb_bus_txdata` takes one of 200 buffers, fills it, posts it and wakes a
thread, which submits what is posted.  The completion of a transfer frees the
buffer.  When few buffers are left the queues of the network interface are
stopped, and the completion that makes enough of them free wakes them.  A frame
that the firmware shall confirm stays in a table of 64 places until then.

The sender, the thread, the completions, the confirmations and the callbacks
for power management run at the same time.  A step is what one of them does up
to the next use of something that is shared.  The buffers are built without
`CONFIG_USB_TX_AGGR` and with `CONFIG_USB_ALIGN_DATA`.

Other parts of the driver stop and wake the queues of the interfaces too: they do when
a station or an interface comes and goes, and when one of the queues of the driver is
full.  This is not in the model, where only the flow control of the bus does it.
-/

namespace LonganPi.Wifi

/-- `enum aicwf_usb_state`. -/
inductive UsbState where
  | down
  | up
  | sleep
  deriving DecidableEq, Repr

/-- What an address belongs to: an `sk_buff`, with or without its `sw_txhdr`, or
memory from `kmalloc`. -/
inductive Block where
  | skb (swHdr : Bool)
  | kmalloc
  deriving DecidableEq, Repr

/-- A frame that is being sent, the one that `rwnx_tx_push` got as number `num`. -/
structure TxFrame where
  num : Nat
  skb : Nat
  needCfm : Bool
  deriving DecidableEq, Repr

/-- `struct aicwf_usb_buf`.  With `cfm` its `skb` is not an `sk_buff` but a copy of
the data.  `frame` is the number of the frame in it. -/
structure UsbBuf where
  skb : Option Nat
  cfm : Bool
  usbAlignData : Option Nat
  frame : Nat
  deriving DecidableEq, Repr

/-- A list of buffers and its counter. -/
structure TxQueue where
  list : List Nat
  count : Int
  deriving DecidableEq, Repr

/-- `aicwf_usb_tx_dequeue`. -/
def aicwfUsbTxDequeue (q : TxQueue) : Option (Nat × TxQueue) :=
  match q.list with
  | [] => none
  | b :: l => some (b, ⟨l, q.count - 1⟩)

/-- `aicwf_usb_tx_queue`. -/
def aicwfUsbTxQueue (q : TxQueue) (b : Nat) : TxQueue := ⟨q.list ++ [b], q.count + 1⟩

/-- Where the sender is in `aicwf_usb_bus_txdata`. -/
inductive Pusher where
  | idle
  | entered (f : TxFrame)
  /-- It has seen that the device is up. -/
  | accepted (f : TxFrame)
  | filling (f : TxFrame) (b : Nat)
  | posted
  /-- At `flow_ctrl`. -/
  | flow
  deriving DecidableEq, Repr

/-- Where `usb_bustx_thread` is. -/
inductive Bustx where
  | waiting
  | woken
  /-- At the top of the loop of `aicwf_usb_tx_process`. -/
  | looping
  | dequeuing
  | holding (b : Nat)
  | stopped
  deriving DecidableEq, Repr

/-- Where the callbacks for power management are: between the two halves of
`aicwf_usb_suspend`, or in `aicwf_usb_tx_prepare`. -/
inductive Pm where
  | idle
  | suspending
  | looping
  | dequeuing
  | holding (b : Nat)
  deriving DecidableEq, Repr

/-- The parts of `struct aic_usb_dev` and `struct usb_host_env_tag` that sending
uses.  `netStopped` says that the queues of an interface that is up are stopped.

`oops` says that a null pointer was used, and `wild` counts what was done to memory
that the path does not have.  `inFlight` are the buffers that are submitted, and
`checks` are the completions that have not looked at `tbusy` yet.  `posted` and `sent`
have the numbers of the frames in the order in which they were posted and
submitted. -/
structure UsbTx where
  oops : Bool
  state : UsbState
  busUp : Bool
  txFree : TxQueue
  txPost : TxQueue
  usbTxBuf : Nat → UsbBuf
  bustxTrgg : Nat
  tbusy : Bool
  netStopped : Bool
  txdescFreeIdx : Nat
  txHostId : Nat → Option Nat
  pusher : Pusher
  bustx : Bustx
  pm : Pm
  inFlight : List Nat
  checks : Nat
  heap : Nat → Option Block
  wild : Nat
  pushed : Nat
  posted : List Nat
  sent : List Nat

/-- `AICWF_USB_TX_URBS`. -/
def aicwfUsbTxUrbs : Nat := 200

/-- `AICWF_USB_TX_LOW_WATER`. -/
def aicwfUsbTxLowWater : Int := 50

/-- `AICWF_USB_TX_HIGH_WATER`. -/
def aicwfUsbTxHighWater : Int := 150

/-- `USB_TXDESC_CNT`. -/
def usbTxdescCnt : Nat := 64

/-- After `aicwf_usb_init`, with all buffers of `aicwf_usb_alloc_tx_urb`. -/
def aicwfUsbInit : UsbTx where
  oops := false
  state := .down
  busUp := false
  txFree := ⟨List.range aicwfUsbTxUrbs, aicwfUsbTxUrbs⟩
  txPost := ⟨[], 0⟩
  usbTxBuf := fun _ => ⟨none, false, none, 0⟩
  bustxTrgg := 0
  tbusy := false
  netStopped := false
  txdescFreeIdx := 0
  txHostId := fun _ => none
  pusher := .idle
  bustx := .waiting
  pm := .idle
  inFlight := []
  checks := 0
  heap := fun _ => none
  wild := 0
  pushed := 0
  posted := []
  sent := []

namespace UsbTx

def setHeap (s : UsbTx) (p : Nat) (o : Option Block) : UsbTx :=
  { s with heap := Function.update s.heap p o }

def setBuf (s : UsbTx) (b : Nat) (buf : UsbBuf) : UsbTx :=
  { s with usbTxBuf := Function.update s.usbTxBuf b buf }

/-- Memory is used that the path does not have. -/
def stray (s : UsbTx) : UsbTx := { s with wild := s.wild + 1 }

/-- The frame is read. -/
def touch (s : UsbTx) (p : Nat) : UsbTx := if (s.heap p).isSome then s else s.stray

/-- `kmem_cache_free` of the `sw_txhdr` of a frame. -/
def freeSwHdr (s : UsbTx) (p : Nat) : UsbTx :=
  if s.heap p = some (.skb true) then s.setHeap p (some (.skb false)) else s.stray

/-- The `sw_txhdr` of a frame is read. -/
def touchSwHdr (s : UsbTx) (p : Nat) : UsbTx :=
  if s.heap p = some (.skb true) then s else s.stray

/-- `dev_kfree_skb`. -/
def devKfreeSkb (s : UsbTx) (p : Nat) : UsbTx :=
  if s.heap p = some (.skb true) ∨ s.heap p = some (.skb false) then s.setHeap p none
  else s.stray

/-- `kfree`. -/
def kfree (s : UsbTx) (p : Nat) : UsbTx :=
  if s.heap p = some .kmalloc then s.setHeap p none else s.stray

/-- A frame is freed with its `sw_txhdr`. -/
def dropFrame (s : UsbTx) (p : Nat) : UsbTx := (s.freeSwHdr p).devKfreeSkb p

/-- `aicwf_usb_tx_flowctrl`. -/
def aicwfUsbTxFlowctrl (s : UsbTx) (state : Bool) : UsbTx := { s with netStopped := state }

/-- `aicwf_usb_host_txdesc_push`. -/
def aicwfUsbHostTxdescPush (s : UsbTx) (hostId : Nat) : UsbTx :=
  { s with
    txHostId := Function.update s.txHostId (s.txdescFreeIdx % usbTxdescCnt) (some hostId)
    txdescFreeIdx := if s.txdescFreeIdx + 1 = 0x40000000 then 0 else s.txdescFreeIdx + 1 }

/-- `aicwf_frame_tx`, up to the call of `aicwf_usb_bus_txdata`. -/
def aicwfFrameTx (s : UsbTx) (f : TxFrame) : UsbTx :=
  if s.state = .down then
    (if s.tbusy then s else s.aicwfUsbTxFlowctrl true).dropFrame f.skb
  else { s with pusher := .entered f }

/-- `rwnx_tx_push` of a new frame, with the condition that asks for a confirmation as
`needCfm`. -/
def rwnxTxPush (s : UsbTx) (skb : Nat) (needCfm : Bool) : UsbTx :=
  let f : TxFrame := ⟨s.pushed, skb, needCfm⟩
  let s := { s.setHeap skb (some (.skb true)) with pushed := s.pushed + 1 }
  (if needCfm then s.aicwfUsbHostTxdescPush skb else s).aicwfFrameTx f

/-- `aicwf_usb_bus_txdata` copies a frame that shall be confirmed, and frees the
`sw_txhdr` of another one: what the buffer then points to. -/
def usbData (s : UsbTx) (f : TxFrame) (buf : Option Nat) : Option (Nat × UsbTx) :=
  if f.needCfm then buf.map fun p => (p, s.setHeap p (some .kmalloc))
  else some (f.skb, s.freeSwHdr f.skb)

/-- The buffer `b` is posted, with `p` as its data and the aligned copy of that at
`q`. -/
def postBuf (s : UsbTx) (f : TxFrame) (b p q : Nat) : UsbTx :=
  { s.setBuf b ⟨some p, f.needCfm, some q, f.num⟩ with
    txPost := aicwfUsbTxQueue s.txPost b
    posted := s.posted ++ [f.num]
    pusher := .posted }

/-- `aicwf_usb_bus_txdata` fills the buffer and posts it.  `buf` and `align` are what
the two calls of `kmalloc` return, which are used without a check. -/
def fillAndPost (s : UsbTx) (f : TxFrame) (b : Nat) (buf align : Option Nat) : UsbTx :=
  match (s.touch f.skb).usbData f buf, align with
  | some (p, s), some q => (s.setHeap q (some .kmalloc)).postBuf f b p q
  | _, _ => { s with oops := true }

/-- The end of `aicwf_usb_bus_txdata`. -/
def flowCtrl (s : UsbTx) : UsbTx :=
  if s.txFree.count < aicwfUsbTxLowWater then { s with tbusy := true }.aicwfUsbTxFlowctrl true
  else s

/-- The aligned copy of the data is freed. -/
def freeAlign (s : UsbTx) (b : Nat) : UsbTx :=
  match (s.usbTxBuf b).usbAlignData with
  | some q => s.kfree q
  | none => s

/-- `aicwf_usb_tx_complete` frees the data of a buffer as what it is. -/
def freeData (s : UsbTx) (b : Nat) : UsbTx :=
  match (s.usbTxBuf b).skb with
  | some p => if (s.usbTxBuf b).cfm then s.kfree p else s.devKfreeSkb p
  | none => s

/-- `aicwf_usb_tx_process` and `aicwf_usb_tx_prepare` free it as an `sk_buff`. -/
def freeSkb (s : UsbTx) (b : Nat) : UsbTx :=
  match (s.usbTxBuf b).skb with
  | some p => s.devKfreeSkb p
  | none => s

/-- The buffer goes back to the free list. -/
def release (s : UsbTx) (b : Nat) : UsbTx :=
  { s.setBuf b { s.usbTxBuf b with skb := none } with txFree := aicwfUsbTxQueue s.txFree b }

/-- `aicwf_usb_tx_complete` up to its use of `tx_flow_lock`. -/
def aicwfUsbTxComplete (s : UsbTx) (b : Nat) : UsbTx :=
  let s := ((s.freeAlign b).freeData b).release b
  { s with inFlight := s.inFlight.erase b, checks := s.checks + 1 }

/-- The end of `aicwf_usb_tx_complete`. -/
def wakeQueues (s : UsbTx) : UsbTx :=
  if aicwfUsbTxHighWater < s.txFree.count ∧ s.tbusy = true then
    { s with tbusy := false }.aicwfUsbTxFlowctrl false
  else s

end UsbTx

/-- What the status of a confirmation says: nothing, that the frame goes back to its
queue, or that it is done. -/
inductive CfmStatus where
  | null
  | retry
  | done
  deriving DecidableEq, Repr

/-- `rwnx_txdatacfm` for a frame with a status.  One that goes back to its queue leaves
this path.  While the device is not down, the `headroom` that `skb_pull` needs is read
after the `sw_txhdr` that has it was freed. -/
def UsbTx.rwnxTxdatacfm (s : UsbTx) (p : Nat) (retry : Bool) : UsbTx :=
  if s.state = .down then s.dropFrame p
  else if retry then s.setHeap p none
  else ((s.freeSwHdr p).touchSwHdr p).devKfreeSkb p

/-- `aicwf_usb_host_tx_cfm_handler`.  Without a status the frame keeps its place. -/
def UsbTx.aicwfUsbHostTxCfmHandler (s : UsbTx) (usedIdx : Nat) (status : CfmStatus) : UsbTx :=
  match s.txHostId (usedIdx % usbTxdescCnt) with
  | none => s
  | some p =>
    if status = .null then s.touch p
    else { (s.touch p).rwnxTxdatacfm p (status == .retry) with
      txHostId := Function.update s.txHostId (usedIdx % usbTxdescCnt) none }

/-- What one of them does. -/
inductive TxEvent where
  | push (skb : Nat) (needCfm : Bool)
  | enter
  | take
  | post (buf align : Option Nat)
  | trigger
  | flow
  | wake
  | look
  | loop
  | dequeue
  | submit (ok : Bool)
  | complete (b : Nat)
  | check
  | cfm (usedIdx : Nat) (status : CfmStatus)
  /-- The two halves of `aicwf_usb_suspend`. -/
  | suspend
  | stop
  /-- `aicwf_usb_bus_start`. -/
  | start
  | prepare
  | prepareDequeue
  | prepareFree
  deriving DecidableEq, Repr

open UsbTx in
/-- One step, while there was no oops. -/
def txMove (s : UsbTx) : TxEvent → Option UsbTx
  | .push skb needCfm =>
    if s.pusher = .idle ∧ s.heap skb = none then some (s.rwnxTxPush skb needCfm) else none
  | .enter =>
    match s.pusher with
    | .entered f =>
      if s.state = .up then some { s with pusher := .accepted f }
      else some { s.dropFrame f.skb with pusher := .idle }
    | _ => none
  | .take =>
    match s.pusher with
    | .accepted f =>
      match aicwfUsbTxDequeue s.txFree with
      | none => some { s.dropFrame f.skb with pusher := .flow }
      | some (b, q) => some { s with txFree := q, pusher := .filling f b }
    | _ => none
  | .post buf align =>
    match s.pusher with
    | .filling f b =>
      if (∀ p ∈ buf, s.heap p = none) ∧ (∀ q ∈ align, s.heap q = none ∧ buf ≠ some q) then
        some (s.fillAndPost f b buf align)
      else none
    | _ => none
  | .trigger =>
    match s.pusher with
    | .posted => some { s with bustxTrgg := s.bustxTrgg + 1, pusher := .flow }
    | _ => none
  | .flow =>
    match s.pusher with
    | .flow => some { s.flowCtrl with pusher := .idle }
    | _ => none
  | .wake =>
    if s.bustx = .waiting ∧ 0 < s.bustxTrgg then
      some { s with bustxTrgg := s.bustxTrgg - 1, bustx := .woken }
    else none
  | .look =>
    match s.bustx with
    | .woken =>
      if s.busUp then
        some { s with bustx := if 0 < s.txPost.count then .looping else .waiting }
      else some { s with bustx := .stopped }
    | _ => none
  | .loop =>
    match s.bustx with
    | .looping =>
      some { s with bustx := if s.txPost.list = [] ∨ s.state ≠ .up then .waiting else .dequeuing }
    | _ => none
  | .dequeue =>
    match s.bustx with
    | .dequeuing =>
      match aicwfUsbTxDequeue s.txPost with
      | none => some { s with bustx := .waiting }
      | some (b, q) =>
        if (s.usbTxBuf b).skb = none then some { s with txPost := q, oops := true }
        else some { s with txPost := q, bustx := .holding b }
    | _ => none
  | .submit ok =>
    match s.bustx with
    | .holding b =>
      if ok then
        some { s with
          inFlight := s.inFlight ++ [b]
          sent := s.sent ++ [(s.usbTxBuf b).frame]
          bustx := .looping }
      else some { (s.freeSkb b).release b with bustx := .looping }
    | _ => none
  | .complete b => if b ∈ s.inFlight then some (s.aicwfUsbTxComplete b) else none
  | .check =>
    if 0 < s.checks then some { s.wakeQueues with checks := s.checks - 1 } else none
  | .cfm usedIdx status => some (s.aicwfUsbHostTxCfmHandler usedIdx status)
  | .suspend => if s.pm = .idle then some { s with state := .sleep, pm := .suspending } else none
  | .stop =>
    if s.pm = .suspending then some { s with state := .down, busUp := false, pm := .idle }
    else none
  | .start =>
    if s.pm = .idle then
      if s.state = .up then some s
      else some { s with state := .up, busUp := true, pm := .looping }
    else none
  | .prepare =>
    if s.pm = .looping then
      some { s with pm := if s.txPost.list = [] then .idle else .dequeuing }
    else none
  | .prepareDequeue =>
    if s.pm = .dequeuing then
      match aicwfUsbTxDequeue s.txPost with
      | none => some { s with oops := true }
      | some (b, q) => some { s with txPost := q, pm := .holding b }
    else none
  | .prepareFree =>
    match s.pm with
    | .holding b => some { (s.freeSkb b).release b with pm := .looping }
    | _ => none

/-- One step. -/
def txStep (s : UsbTx) (e : TxEvent) : Option UsbTx := if s.oops then none else txMove s e

end LonganPi.Wifi
