import LonganPi.Errno
import Mathlib.Data.BitVec
import Mathlib.Data.List.Basic

/-!
# The receive reorder buffer of the wireless driver

The firmware passes on the frames of a block acknowledgement session as they
come.  The driver puts them back in order: it keeps one list of frames for each
station and each of the 8 traffic classes, sorted by the 12-bit sequence number
of the frames, and passes a frame on when no frame before it is missing.  The
runs are those on frames of these 8 classes.

A frame that waits holds one of 250 `recv_msdu` entries.  The entries that are
free are on a list of their own.
-/

namespace LonganPi.Wifi

/-! ## The data -/

/-- A station's address. -/
abbrev MacAddr := List (BitVec 8)

/-- A packet of the network stack, which starts with an Ethernet header. -/
structure Skb where
  data : List (BitVec 8)
  deriving DecidableEq, Repr

def Skb.len (skb : Skb) : Nat := skb.data.length

/-- `h_dest` of the Ethernet header. -/
def Skb.hDest (skb : Skb) : MacAddr := skb.data.take 6

/-- `h_source` of the Ethernet header. -/
def Skb.hSource (skb : Skb) : MacAddr := (skb.data.drop 6).take 6

/-- `wdev.iftype`.  The driver does not tell the others apart. -/
inductive Iftype where
  | station
  | p2pClient
  | ap
  | p2pGo
  | other
  deriving DecidableEq, Repr

/-- The address that the station is looked up by. -/
def Iftype.mac (iftype : Iftype) (skb : Skb) : Option MacAddr :=
  match iftype with
  | .station | .p2pClient => some skb.hDest
  | .ap | .p2pGo => some skb.hSource
  | .other => none

/-- `struct recv_msdu`.  `slot` is its place in the array `recv_frames`.  The
fields `rx_data` and `len` repeat those of the packet. -/
structure RecvMsdu where
  slot : Nat
  pkt : Skb
  tid : Nat
  forward : Bool
  seqNum : BitVec 16
  deriving DecidableEq, Repr

/-- `struct reord_ctrl`.  `timerPending` and `workPending` are the state of
`reord_timer` and of `reord_timer_work`. -/
structure ReordCtrl where
  enable : Bool
  indSn : BitVec 16
  wsizeB : BitVec 8
  reordList : List RecvMsdu
  timerPending : Bool
  workPending : Bool
  deriving DecidableEq, Repr

/-- `struct reord_ctrl_info`. -/
structure ReordCtrlInfo where
  macAddr : MacAddr
  preorderCtrl : Fin 8 → ReordCtrl

/-- `rxframes_freequeue`, and where the packets go: `indicated` to
`netif_receive_skb` and `freed` to `dev_kfree_skb`. -/
structure RxQueues where
  rxframesFreequeue : List Nat
  indicated : List Skb
  freed : List Skb
  deriving DecidableEq, Repr

/-- `struct aicwf_rx_priv`, and whether the bus is up. -/
structure AicwfRxPriv where
  busUp : Bool
  stasReordList : List ReordCtrlInfo
  queues : RxQueues

/-- `MAX_REORD_RXFRAME`. -/
def maxReordRxframe : Nat := 250

/-- `AICWF_REORDER_WINSIZE`. -/
def aicwfReorderWinsize : BitVec 8 := 64

/-- `SN_LESS`. -/
def snLess (a b : BitVec 16) : Bool :=
  BitVec.ofInt 32 (a.toNat - b.toNat) &&& 0x800#32 != 0#32

/-- What `reord_init_sta` and a new session give a `reord_ctrl`. -/
def ReordCtrl.fresh : ReordCtrl :=
  ⟨true, 0xffff#16, aicwfReorderWinsize, [], false, false⟩

/-- `aicwf_rxframe_queue_init`: each entry goes to the front. -/
def aicwfRxframeQueueInit (qsize : Nat) : List Nat := (List.range qsize).reverse

/-- The part of `aicwf_rx_init` for the reorder buffer. -/
def aicwfRxInit : AicwfRxPriv where
  busUp := true
  stasReordList := []
  queues := ⟨aicwfRxframeQueueInit maxReordRxframe, [], []⟩

/-! ## One traffic class -/

/-- `dev_kfree_skb`. -/
def RxQueues.devKfreeSkb (q : RxQueues) (skb : Skb) : RxQueues :=
  { q with freed := q.freed ++ [skb] }

/-- `reord_rxframe_free`. -/
def RxQueues.reordRxframeFree (q : RxQueues) (slot : Nat) : RxQueues :=
  { q with rxframesFreequeue := slot :: q.rxframesFreequeue }

/-- `reord_single_frame_ind`.  The packet of a frame on a list is never null. -/
def reordSingleFrameInd (q : RxQueues) (prframe : RecvMsdu) : RxQueues :=
  if prframe.forward then
    { q with indicated := q.indicated ++ [prframe.pkt] }.reordRxframeFree prframe.slot
  else (q.devKfreeSkb prframe.pkt).reordRxframeFree prframe.slot

/-- `reord_need_check`: whether the frame is passed on without the list. -/
def reordNeedCheck (c : ReordCtrl) (seqNum : BitVec 16) : Bool × ReordCtrl :=
  let wsize : Int := c.wsizeB.toNat
  let wend := BitVec.ofInt 16 (c.indSn.toNat + wsize - 1) &&& 0xFFF#16
  let c := if c.indSn = 0xFFFF#16 then { c with indSn := seqNum } else c
  if snLess seqNum c.indSn then (true, c)
  else if seqNum = c.indSn then
    (false, { c with indSn := (c.indSn + 1) &&& 0xFFF#16 })
  else if snLess wend seqNum then
    if seqNum.toNat ≥ wsize - 1 then
      (false, { c with indSn := BitVec.ofInt 16 (seqNum.toNat - (wsize - 1)) })
    else
      (false, { c with
        indSn := BitVec.ofInt 16 (0xFFF - (wsize - (seqNum.toNat + 1)) + 1) })
  else (false, c)

/-- `reord_rxframe_enqueue`: the list with the frame, or `none` when there is
one with its number. -/
def reordRxframeEnqueue (prframe : RecvMsdu) : List RecvMsdu → Option (List RecvMsdu)
  | [] => some [prframe]
  | pnextrframe :: plist =>
    if snLess pnextrframe.seqNum prframe.seqNum then
      (reordRxframeEnqueue prframe plist).map (pnextrframe :: ·)
    else if pnextrframe.seqNum = prframe.seqNum then none
    else some (prframe :: pnextrframe :: plist)

/-- The loop of `reord_rxframes_process`: `bPktInBuf`, and `ind_sn` after it. -/
def processLoop : BitVec 16 → List RecvMsdu → Bool × BitVec 16
  | indSn, [] => (false, indSn)
  | indSn, prframe :: l =>
    if !snLess indSn prframe.seqNum then
      processLoop (if indSn = prframe.seqNum then (indSn + 1) &&& 0xFFF#16 else indSn) l
    else (true, indSn)

/-- `reord_rxframes_process`. -/
def reordRxframesProcess (c : ReordCtrl) (bforced : Bool) : Bool × ReordCtrl :=
  match c.reordList with
  | [] => (false, c)
  | prframe :: l =>
    let indSn := if bforced then prframe.seqNum else c.indSn
    let (bPktInBuf, indSn) := processLoop indSn (prframe :: l)
    (bPktInBuf, { c with indSn := indSn })

/-- The loop of `reord_rxframes_ind`. -/
def indLoop (indSn : BitVec 16) : List RecvMsdu → RxQueues → List RecvMsdu × RxQueues
  | [], q => ([], q)
  | prframe :: l, q =>
    if !snLess indSn prframe.seqNum then indLoop indSn l (reordSingleFrameInd q prframe)
    else (prframe :: l, q)

/-- `reord_rxframes_ind`. -/
def reordRxframesInd (c : ReordCtrl) (q : RxQueues) : ReordCtrl × RxQueues :=
  let (l, q) := indLoop c.indSn c.reordList q
  ({ c with reordList := l }, q)

/-- `reord_timeout_handler`, when the timer expires. -/
def reordTimeoutHandler (busUp : Bool) (c : ReordCtrl) : ReordCtrl :=
  let c := { c with timerPending := false }
  if busUp then { c with workPending := true } else c

/-- `reord_timeout_worker`, when the work is run. -/
def reordTimeoutWorker (c : ReordCtrl) (q : RxQueues) : ReordCtrl × RxQueues :=
  let c := { c with workPending := false }
  let (bPktInBuf, c) := reordRxframesProcess c true
  let c := if bPktInBuf then { c with timerPending := true } else c
  reordRxframesInd c q

/-- The part of `reord_process_unit` after the lookup of the station. -/
def reordFrame (c : ReordCtrl) (q : RxQueues) (pframe : RecvMsdu) :
    ReordCtrl × RxQueues :=
  if c.enable = false then
    ({ c with indSn := BitVec.ofNat 16 ((pframe.seqNum.toNat + 1) % 4096) },
      reordSingleFrameInd q pframe)
  else
    let (direct, c) := reordNeedCheck c pframe.seqNum
    if direct then (c, reordSingleFrameInd q pframe)
    else
      match reordRxframeEnqueue pframe c.reordList with
      | none => (c, (q.devKfreeSkb pframe.pkt).reordRxframeFree pframe.slot)
      | some l =>
        let (bPktInBuf, c) := reordRxframesProcess { c with reordList := l } false
        reordRxframesInd { c with timerPending := bPktInBuf } q

/-- The part of `reord_flush_tid` after the lookup of the station. -/
def reordFlush (c : ReordCtrl) (q : RxQueues) : ReordCtrl × RxQueues :=
  if c.enable = false then (c, q)
  else
    ({ c with
        enable := false, reordList := [], timerPending := false, workPending := false },
      c.reordList.foldl reordSingleFrameInd q)

/-- What `reord_deinit_sta` does for one traffic class. -/
def reordDeinitTid (q : RxQueues) (c : ReordCtrl) : RxQueues :=
  c.reordList.foldl (fun q req => (q.devKfreeSkb req.pkt).reordRxframeFree req.slot) q

/-! ## The stations -/

/-- `reord_init_sta`.  `alloc` says whether `kmalloc` succeeds. -/
def reordInitSta (alloc busUp : Bool) (mac : MacAddr) : Option ReordCtrlInfo :=
  if busUp && alloc then some ⟨mac, fun _ => .fresh⟩ else none

/-- The search for a station: the stations before it, it, and the ones behind
it. -/
def findSta (mac : MacAddr) :
    List ReordCtrlInfo → Option (List ReordCtrlInfo × ReordCtrlInfo × List ReordCtrlInfo)
  | [] => none
  | info :: stas =>
    if mac = info.macAddr then some ([], info, stas)
    else (findSta mac stas).map fun r => (info :: r.1, r.2)

/-- A station with a new session, when the last one has ended. -/
def ReordCtrl.reenable (c : ReordCtrl) : ReordCtrl :=
  if c.enable = false then
    { c with enable := true, indSn := 0xffff#16, wsizeB := aicwfReorderWinsize }
  else c

/-- A station whose traffic class `tid` has changed. -/
def ReordCtrlInfo.set (info : ReordCtrlInfo) (tid : Fin 8) (c : ReordCtrl) :
    ReordCtrlInfo :=
  { info with preorderCtrl := Function.update info.preorderCtrl tid c }

/-- `reord_process_unit`.  `none` is an access behind the 8 traffic classes. -/
def reordProcessUnit (alloc : Bool) (iftype : Iftype) (rx : AicwfRxPriv) (skb : Skb)
    (seqNum : BitVec 16) (tid : Nat) (forward : Bool) : Option (AicwfRxPriv × Int) :=
  if skb.len ≤ 14 then some ({ rx with queues := rx.queues.devKfreeSkb skb }, -1)
  else
    match rx.queues.rxframesFreequeue with
    | [] => some ({ rx with queues := rx.queues.devKfreeSkb skb }, -1)
    | slot :: freequeue =>
      let q := { rx.queues with rxframesFreequeue := freequeue }
      match iftype.mac skb with
      | none => some ({ rx with queues := q.devKfreeSkb skb }, -1)
      | some mac =>
        let pframe : RecvMsdu := ⟨slot, skb, tid, forward, seqNum⟩
        match findSta mac rx.stasReordList with
        | none =>
          match reordInitSta alloc rx.busUp mac with
          | none => some ({ rx with queues := q.devKfreeSkb skb }, -1)
          | some info =>
            if h : tid < 8 then
              let (c, q) := reordFrame (info.preorderCtrl ⟨tid, h⟩) q pframe
              some ({ rx with
                stasReordList := rx.stasReordList ++ [info.set ⟨tid, h⟩ c], queues := q }, 0)
            else none
        | some (stas₁, info, stas₂) =>
          if h : tid < 8 then
            let (c, q) := reordFrame (info.preorderCtrl ⟨tid, h⟩).reenable q pframe
            some ({ rx with
              stasReordList := stas₁ ++ info.set ⟨tid, h⟩ c :: stas₂, queues := q }, 0)
          else none

/-- `reord_flush_tid`.  `none` is an access behind the 8 traffic classes. -/
def reordFlushTid (iftype : Iftype) (rx : AicwfRxPriv) (skb : Skb) (tid : Nat) :
    Option (AicwfRxPriv × Int) :=
  match iftype.mac skb with
  | none => some ({ rx with queues := rx.queues.devKfreeSkb skb }, -1)
  | some mac =>
    match findSta mac rx.stasReordList with
    | none => some (rx, 0)
    | some (stas₁, info, stas₂) =>
      if h : tid < 8 then
        let (c, q) := reordFlush (info.preorderCtrl ⟨tid, h⟩) rx.queues
        some ({ rx with
          stasReordList := stas₁ ++ info.set ⟨tid, h⟩ c :: stas₂, queues := q }, 0)
      else none

/-- `reord_deinit_sta` of the station with the address `mac`. -/
def reordDeinitSta (rx : AicwfRxPriv) (mac : MacAddr) : AicwfRxPriv :=
  match findSta mac rx.stasReordList with
  | none => rx
  | some (stas₁, info, stas₂) =>
    { rx with
      stasReordList := stas₁ ++ stas₂
      queues := (List.ofFn info.preorderCtrl).foldl reordDeinitTid rx.queues }

/-! ## The steps -/

/-- What happens to the receive path. -/
inductive RxEvent where
  /-- A frame of a session, with a 12-bit sequence number. -/
  | unit (alloc : Bool) (iftype : Iftype) (skb : Skb) (seqNum : BitVec 12) (tid : Nat)
    (forward : Bool)
  /-- A frame outside of a session. -/
  | flush (iftype : Iftype) (skb : Skb) (tid : Nat)
  | expire (mac : MacAddr) (tid : Fin 8)
  | work (mac : MacAddr) (tid : Fin 8)
  | deinit (mac : MacAddr)
  | bus (up : Bool)
  deriving Repr

/-- One step.  A timer expires and a work is run only when it is pending.  A
frame of a traffic class of 8 or more has no step: the source does not check
the class, and reads behind `preorder_ctrl`. -/
def rxStep (rx : AicwfRxPriv) : RxEvent → Option AicwfRxPriv
  | .unit alloc iftype skb seqNum tid forward =>
    (reordProcessUnit alloc iftype rx skb (seqNum.setWidth 16) tid forward).map Prod.fst
  | .flush iftype skb tid => (reordFlushTid iftype rx skb tid).map Prod.fst
  | .expire mac tid =>
    match findSta mac rx.stasReordList with
    | none => none
    | some (stas₁, info, stas₂) =>
      if (info.preorderCtrl tid).timerPending then
        let c := reordTimeoutHandler rx.busUp (info.preorderCtrl tid)
        some { rx with stasReordList := stas₁ ++ info.set tid c :: stas₂ }
      else none
  | .work mac tid =>
    match findSta mac rx.stasReordList with
    | none => none
    | some (stas₁, info, stas₂) =>
      if (info.preorderCtrl tid).workPending then
        let (c, q) := reordTimeoutWorker (info.preorderCtrl tid) rx.queues
        some { rx with
          stasReordList := stas₁ ++ info.set tid c :: stas₂, queues := q }
      else none
  | .deinit mac => some (reordDeinitSta rx mac)
  | .bus up => some { rx with busUp := up }

end LonganPi.Wifi
