import LonganPi.Errno
import Mathlib.Data.BitVec
import Mathlib.Logic.Function.Basic

/-!
# The command manager of the wireless driver

A thread that sends a request to the firmware takes one of 20 `rwnx_cmd` and
puts it on a queue.  On an empty queue it sends the request itself and waits
for the confirmation.  Otherwise it leaves the request to a worker and returns.
The worker sends the first request of the queue and waits for its
confirmation, until there is no more.  A message without a confirmation is not
queued: its thread sends it past the queue.

The threads, the worker and the firmware run at the same time.  A step is what
one of them does under the lock, or between two uses of the lock.  A message
counts as sent when `aicwf_set_cmd_tx` is called for it while the device is up:
the transfer, and the one buffer that concurrent calls share, are not modelled.
Neither is `cmd_mgr_drain`, which is called when the driver is removed.
-/

namespace LonganPi.Wifi

/-- `struct rwnx_cmd`, with its place `slot` in `cmd_array` as its name.  Of the
flags, `RWNX_CMD_FLAG_REQ_CFM` is set in every command that is queued, and
`RWNX_CMD_FLAG_NONBLOCK` and `RWNX_CMD_FLAG_WAIT_ACK` never are.  `msgId` is
`a2e_msg->id`, `e2aMsg` says that there is a buffer for the confirmation, and
`complete` that the completion was signalled. -/
structure RwnxCmd where
  used : Bool
  msgId : Nat
  reqid : Nat
  e2aMsg : Bool
  tkn : BitVec 32
  waitPush : Bool
  waitCfm : Bool
  done : Bool
  result : Int
  complete : Bool
  deriving DecidableEq, Repr

/-- What a thread calls. -/
inductive SendCall where
  | sendMsg (reqcfm : Bool)
  | sendMsg1 (reqcfm defer : Bool)
  deriving DecidableEq, Repr

namespace SendCall

def reqcfm : SendCall → Bool
  | .sendMsg reqcfm => reqcfm
  | .sendMsg1 reqcfm _ => reqcfm

/-- The command is always left to the worker. -/
def defer : SendCall → Bool
  | .sendMsg _ => false
  | .sendMsg1 _ defer => defer

/-- Only `rwnx_send_msg` waits for an empty queue. -/
def waits : SendCall → Bool
  | .sendMsg _ => true
  | .sendMsg1 _ _ => false

/-- `rwnx_send_msg1` returns 0 whatever it has in `ret`. -/
def result (call : SendCall) (ret : Int) : Int :=
  match call with
  | .sendMsg _ => ret
  | .sendMsg1 _ _ => 0

end SendCall

/-- Where a thread is in `rwnx_send_msg` or `rwnx_send_msg1`. -/
inductive Caller where
  | idle
  /-- It has a command, and looks whether the queue is empty. -/
  | allocated (slot : Nat)
  /-- It is about to queue the command, or without `reqcfm` to send it. -/
  | ready (slot : Nat)
  /-- It has not queued the command and frees it. -/
  | passed (slot : Nat)
  /-- It has queued the command and will send it. -/
  | pushing (slot : Nat)
  /-- It has left the command to the worker, and looks at `queue_sz`. -/
  | deferring
  | waiting (slot : Nat)
  deriving DecidableEq, Repr

/-- Where the worker is in `cmd_mgr_task_process`. -/
inductive Worker where
  | idle
  | looping
  /-- It has found a first command that waits to be sent. -/
  | chosen (slot : Nat)
  | waiting (slot : Nat)
  deriving DecidableEq, Repr

/-- `struct rwnx_cmd_mgr`, the commands and the threads.  `usbUp` is the state of the
device, `USB_UP_ST` or `USB_DOWN_ST`.  `calls` has what a thread called last and
`returned` what it got, and `sent` the messages in the order in which they were
sent, each with its `reqcfm`. -/
structure CmdMgr where
  crashed : Bool
  usbUp : Bool
  nextTkn : BitVec 32
  queueSz : BitVec 32
  cmds : List Nat
  cmdArray : Nat → RwnxCmd
  callers : Nat → Caller
  calls : Nat → SendCall
  returned : Nat → Int
  worker : Worker
  workPending : Bool
  sent : List (Nat × Bool)

/-- `RWNX_CMD_ARRAY_SIZE`. -/
def rwnxCmdArraySize : Nat := 20

/-- `RWNX_CMD_MAX_QUEUED`, which is `max_queue_sz`. -/
def rwnxCmdMaxQueued : BitVec 32 := 16

/-- After `rwnx_init_cmd_array` and `rwnx_cmd_mgr_init`. -/
def rwnxCmdMgrInit : CmdMgr where
  crashed := false
  usbUp := true
  nextTkn := 0
  queueSz := 0
  cmds := []
  cmdArray := fun _ => ⟨false, 0, 0, false, 0, false, false, false, 0, false⟩
  callers := fun _ => .idle
  calls := fun _ => .sendMsg true
  returned := fun _ => 0
  worker := .idle
  workPending := false
  sent := []

namespace CmdMgr

/-- Changes one command. -/
def modifyCmd (m : CmdMgr) (slot : Nat) (f : RwnxCmd → RwnxCmd) : CmdMgr :=
  { m with cmdArray := Function.update m.cmdArray slot (f (m.cmdArray slot)) }

def setCaller (m : CmdMgr) (t : Nat) (c : Caller) : CmdMgr :=
  { m with callers := Function.update m.callers t c }

/-- A thread calls `rwnx_send_msg` or `rwnx_send_msg1`. -/
def setCall (m : CmdMgr) (t : Nat) (call : SendCall) : CmdMgr :=
  { m with calls := Function.update m.calls t call }

/-- The call returns with `ret`. -/
def returnTo (m : CmdMgr) (t : Nat) (ret : Int) : CmdMgr :=
  { m.setCaller t .idle with
    returned := Function.update m.returned t ((m.calls t).result ret) }

/-- `WAKE_CMD_WORK`. -/
def wakeCmdWork (m : CmdMgr) : CmdMgr := { m with workPending := true }

/-- `rwnx_cmd_malloc`: the first command that is not used. -/
def rwnxCmdMalloc (m : CmdMgr) : Option Nat :=
  (List.range rwnxCmdArraySize).find? fun slot => !(m.cmdArray slot).used

/-- The call fills the command that it has taken. -/
def take (m : CmdMgr) (slot msgId reqid : Nat) (e2aMsg : Bool) : CmdMgr :=
  m.modifyCmd slot fun cmd => { cmd with
    used := true, result := eIntr, msgId := msgId, reqid := reqid, e2aMsg := e2aMsg }

/-- `rwnx_cmd_free`. -/
def rwnxCmdFree (m : CmdMgr) (slot : Nat) : CmdMgr :=
  m.modifyCmd slot fun cmd => { cmd with used := false }

/-- `cmd_complete`.  The completion is signalled only when no confirmation is
waited for. -/
def cmdComplete (m : CmdMgr) (slot : Nat) : CmdMgr :=
  let m := { m with cmds := m.cmds.erase slot, queueSz := m.queueSz - 1 }
  let m := m.modifyCmd slot fun cmd => { cmd with done := true }
  if (m.cmdArray slot).waitCfm then m
  else m.modifyCmd slot fun cmd => { cmd with result := 0, complete := true }

/-- `aicwf_set_cmd_tx`: nothing is sent while the device is down. -/
def aicwfSetCmdTx (m : CmdMgr) (slot : Nat) (reqcfm : Bool) : CmdMgr :=
  if m.usbUp then { m with sent := m.sent ++ [((m.cmdArray slot).msgId, reqcfm)] } else m

/-- The requests that `cmd_mgr_queue` always leaves to the worker:
`ME_TRAFFIC_IND_REQ` and `MM_SET_ARPOFFLOAD_REQ`, given as `forced`. -/
def defersAlways (forced : Nat → Bool) (m : CmdMgr) (slot : Nat) : Bool :=
  forced (m.cmdArray slot).msgId

/-- The last command of the queue is not through yet. -/
def lastWaits (m : CmdMgr) : Bool :=
  match m.cmds.getLast? with
  | none => false
  | some last => (m.cmdArray last).waitPush || (m.cmdArray last).waitCfm

/-- The part of both queue functions that puts the command on the queue. -/
def enqueue (m : CmdMgr) (slot : Nat) (defer : Bool) : CmdMgr :=
  let m := m.modifyCmd slot fun cmd => { cmd with
    waitPush := cmd.waitPush || defer, waitCfm := true, tkn := m.nextTkn
    result := eIntr, complete := false }
  { m with nextTkn := m.nextTkn + 1, cmds := m.cmds ++ [slot], queueSz := m.queueSz + 1 }

/-- The queue takes no command after a crash, and not more than 16. -/
def refuses (m : CmdMgr) : Bool :=
  m.crashed || (!m.cmds.isEmpty && m.queueSz == rwnxCmdMaxQueued)

/-- The error of a refused command. -/
def refusal (m : CmdMgr) : Int := if m.crashed then ePipe else eNomem

/-- A command that is not queued is freed. -/
def refuse (m : CmdMgr) (t slot : Nat) : CmdMgr :=
  ((m.modifyCmd slot fun cmd => { cmd with result := m.refusal }).rwnxCmdFree slot).returnTo t
    m.refusal

/-- `cmd_mgr_queue_force_defer`, and what its caller does with an error. -/
def cmdMgrQueueForceDefer (m : CmdMgr) (t slot : Nat) : CmdMgr :=
  if m.refuses then m.refuse t slot
  else ((m.enqueue slot true).returnTo t 0).wakeCmdWork

/-- `cmd_mgr_queue` up to the first unlock, and what its caller does with an error. -/
def cmdMgrQueue (forced : Nat → Bool) (m : CmdMgr) (t slot : Nat) : CmdMgr :=
  if m.refuses then m.refuse t slot
  else if m.lastWaits || m.defersAlways forced slot then
    (m.enqueue slot true).setCaller t .deferring
  else (m.enqueue slot false).setCaller t (.pushing slot)

/-- What a call does with its command.  Without `reqcfm`, `rwnx_send_msg` sends it
past the queue, and `rwnx_send_msg1` does not send it. -/
def submit (forced : Nat → Bool) (m : CmdMgr) (t slot : Nat) : CmdMgr :=
  match m.calls t with
  | .sendMsg true => m.cmdMgrQueue forced t slot
  | .sendMsg false => (m.aicwfSetCmdTx slot false).setCaller t (.passed slot)
  | .sendMsg1 true false => m.cmdMgrQueue forced t slot
  | .sendMsg1 true true => m.cmdMgrQueueForceDefer t slot
  | .sendMsg1 false _ => m.setCaller t (.passed slot)

/-- The command that a confirmation belongs to. -/
def findCfm (m : CmdMgr) (msgId : Nat) (accepts : Nat → Bool) : Option Nat :=
  m.cmds.find? fun slot => (m.cmdArray slot).reqid == msgId &&
    (m.cmdArray slot).waitCfm && accepts slot

/-- `cmd_mgr_msgind`.  `accepts` says for which commands the callback returns 0. -/
def cmdMgrMsgind (m : CmdMgr) (msgId : Nat) (accepts : Nat → Bool) : CmdMgr :=
  match m.findCfm msgId accepts with
  | none => m
  | some slot =>
    (m.modifyCmd slot fun cmd => { cmd with waitCfm := false }).cmdComplete slot

/-- What a timeout does to the command: only one that is not done is taken off
the queue. -/
def cmdTimeout (m : CmdMgr) (slot : Nat) : CmdMgr :=
  let m := { m with crashed := true }
  if (m.cmdArray slot).done then m
  else (m.modifyCmd slot fun cmd => { cmd with result := eTimedout }).cmdComplete slot

end CmdMgr

/-- What a thread, the worker or the firmware does. -/
inductive CmdEvent where
  /-- The thread calls `call`, which takes a command. -/
  | alloc (t msgId reqid : Nat) (e2aMsg : Bool) (call : SendCall)
  /-- The thread goes on after the loop that waits for an empty queue. -/
  | check (t : Nat)
  | submit (t : Nat)
  /-- The thread frees the command that it has not queued. -/
  | release (t : Nat)
  | wake (t : Nat)
  | push (t : Nat)
  /-- The thread has seen its completion. -/
  | finish (t : Nat)
  /-- The thread is killed while it waits. -/
  | kill (t : Nat)
  | timeout (t : Nat)
  | cfm (msgId : Nat) (accepts : Nat → Bool)
  | work
  | choose
  | workPush
  | workFinish
  | workTimeout
  | usb (up : Bool)

open CmdMgr in
/-- One step.  `forced` picks the requests that are always left to the
worker.  Without a free command the source writes through a null pointer, and
there is no step. -/
def cmdStep (forced : Nat → Bool) (m : CmdMgr) : CmdEvent → Option CmdMgr
  | .alloc t msgId reqid e2aMsg call =>
    match m.callers t with
    | .idle =>
      if m.usbUp then
        m.rwnxCmdMalloc.map fun slot =>
          ((m.take slot msgId reqid e2aMsg).setCall t call).setCaller t (.allocated slot)
      else some ((m.setCall t call).returnTo t 0)
    | _ => none
  | .check t =>
    match m.callers t with
    | .allocated slot =>
      if !(m.calls t).waits || !(m.cmdArray slot).e2aMsg || m.crashed || m.cmds.isEmpty then
        some (m.setCaller t (.ready slot))
      else none
    | _ => none
  | .submit t =>
    match m.callers t with
    | .ready slot => some (m.submit forced t slot)
    | _ => none
  | .release t =>
    match m.callers t with
    | .passed slot => some ((m.rwnxCmdFree slot).returnTo t 0)
    | _ => none
  | .wake t =>
    match m.callers t with
    | .deferring =>
      let m := m.returnTo t 0
      some (if m.queueSz ≤ 1 then m.wakeCmdWork else m)
    | _ => none
  | .push t =>
    match m.callers t with
    | .pushing slot => some ((m.aicwfSetCmdTx slot true).setCaller t (.waiting slot))
    | _ => none
  | .finish t =>
    match m.callers t with
    | .waiting slot =>
      if (m.cmdArray slot).complete then
        let m := (m.rwnxCmdFree slot).returnTo t 0
        some (if !m.cmds.isEmpty && m.usbUp then m.wakeCmdWork else m)
      else none
    | _ => none
  | .kill t =>
    match m.callers t with
    | .waiting slot =>
      let m := (m.rwnxCmdFree slot).returnTo t 0
      some (if !m.cmds.isEmpty && m.usbUp then m.wakeCmdWork else m)
    | _ => none
  | .timeout t =>
    match m.callers t with
    | .waiting slot => some (((m.cmdTimeout slot).rwnxCmdFree slot).returnTo t eTimedout)
    | _ => none
  | .cfm msgId accepts => some (m.cmdMgrMsgind msgId accepts)
  | .work =>
    if m.workPending && m.worker == .idle then
      some { m with workPending := false, worker := .looping }
    else none
  | .choose =>
    if m.worker == .looping then
      match m.cmds.head? with
      | none => some { m with worker := .idle }
      | some cur =>
        if (m.cmdArray cur).waitPush then some { m with worker := .chosen cur }
        else some { m with worker := .idle }
    else none
  | .workPush =>
    match m.worker with
    | .chosen slot =>
      let m := m.modifyCmd slot fun cmd => { cmd with waitPush := false }
      some { m.aicwfSetCmdTx slot true with worker := .waiting slot }
    | _ => none
  | .workFinish =>
    match m.worker with
    | .waiting slot =>
      if (m.cmdArray slot).complete then
        some { m.rwnxCmdFree slot with worker := .looping }
      else none
    | _ => none
  | .workTimeout =>
    match m.worker with
    | .waiting slot => some { m.cmdTimeout slot with worker := .looping }
    | _ => none
  | .usb up => some { m with usbUp := up }

end LonganPi.Wifi
