import LonganPi.Errno
import Mathlib.Data.BitVec
import Mathlib.Data.List.FinRange
import Mathlib.Logic.Function.Basic

/-!
# The debug-info table of `cedar_ve.c`

Sixteen slots, each with a key of a process and a thread id, a length and a
pointer to a buffer.  `IOCTL_PROC_INFO_COPY` fills the slot of a key,
`IOCTL_PROC_INFO_STOP` empties it, the sysfs attribute `ve_info` shows the
buffers, and `cedardev_exit` frees what is left.

`heap` holds the live buffers of `vmalloc` with their sizes.  A `vfree` of a
buffer that is not live and a read that is not inside a live buffer are
recorded.  The source makes no such checks.
-/

namespace LonganPi.Ve

/-! ## State -/

/-- `MAX_VE_DEBUG_INFO_NUM`. -/
def maxVeDebugInfoNum : Nat := 16

/-- An index of the table. -/
abbrev Slot := Fin maxVeDebugInfoNum

/-- `PAGE_SIZE`. -/
def pageSize : Nat := 4096

/-- `struct debug_head_info`. -/
structure DebugHeadInfo where
  pid : BitVec 32
  tid : BitVec 32
  length : BitVec 32
  deriving DecidableEq, Repr

/-- `struct ve_debug_info`. -/
structure VeDebugInfo where
  headInfo : DebugHeadInfo
  data : Option Nat
  deriving DecidableEq, Repr

/-- The table and the buffers. -/
structure DebugTable where
  debugInfo : Slot → VeDebugInfo
  /-- The live buffers, by address, and their sizes. -/
  heap : Nat → Option Nat
  /-- A buffer was freed that was not live. -/
  doubleFree : Bool
  /-- A slot was read whose buffer was not live or too short. -/
  badRead : Bool
  /-- `cedardev_exit` has run, and the table is gone. -/
  exited : Bool

/-- The zeroed table of `cedardev_init`. -/
def DebugTable.init : DebugTable where
  debugInfo := fun _ => ⟨⟨0, 0, 0⟩, none⟩
  heap := fun _ => none
  doubleFree := false
  badRead := false
  exited := false

namespace DebugTable

/-- `debug_info[i] = d`. -/
def setSlot (s : DebugTable) (i : Slot) (d : VeDebugInfo) : DebugTable :=
  { s with debugInfo := Function.update s.debugInfo i d }

/-- `if (data) vfree(data)`. -/
def vfree (s : DebugTable) (data : Option Nat) : DebugTable :=
  match data with
  | none => s
  | some a =>
    match s.heap a with
    | some _ => { s with heap := Function.update s.heap a none }
    | none => { s with doubleFree := true }

/-- The answer of `vmalloc(length)`.  It has no buffer for a length of 0,
and a buffer that it gives is not in use. -/
def vmallocResult (s : DebugTable) (length : BitVec 32)
    (outcome : Option Nat) : Option Nat :=
  match outcome with
  | some a => if length ≠ 0 ∧ s.heap a = none then some a else none
  | none => none

/-- The first slot with a key. -/
def findSlot (s : DebugTable) (pid tid : BitVec 32) : Option Slot :=
  (List.finRange maxVeDebugInfoNum).find? fun i =>
    (s.debugInfo i).headInfo.pid = pid ∧ (s.debugInfo i).headInfo.tid = tid

/-- The slot that a copy uses, and its head after the two searches. -/
def curIndex (s : DebugTable) (head : DebugHeadInfo) :
    Option (Slot × DebugHeadInfo) :=
  match s.findSlot head.pid head.tid with
  | some i => some (i, { (s.debugInfo i).headInfo with length := head.length })
  | none =>
    -- a free slot is one whose ids are both 0
    match s.findSlot 0 0 with
    | some i => some (i, head)
    | none => none

end DebugTable

/-! ## The calls -/

/-- `IOCTL_PROC_INFO_COPY`, with the head that the user gives (`none` when
it cannot be read), the outcome of `vmalloc`, and whether the payload can be
read.  A payload that cannot be read leaves the pointer to the freed
buffer. -/
def ioctlProcInfoCopy (s : DebugTable) (head : Option DebugHeadInfo)
    (outcome : Option Nat) (payloadOk : Bool) : DebugTable × Int :=
  match head with
  | none => (s, eFault)
  | some head =>
    match s.curIndex head with
    | none => (s, eFault)
    | some (i, headInfo) =>
      let data := (s.debugInfo i).data
      let s := s.vfree data
      match s.vmallocResult headInfo.length outcome with
      | none => (s.setSlot i ⟨headInfo, none⟩, eFault)
      | some a =>
        let s := { s with
          heap := Function.update s.heap a (some headInfo.length.toNat) }
        let s := s.setSlot i ⟨headInfo, some a⟩
        if payloadOk then (s, 0) else (s.vfree (some a), eFault)

/-- `IOCTL_PROC_INFO_STOP`. -/
def ioctlProcInfoStop (s : DebugTable) (head : Option DebugHeadInfo) :
    DebugTable × Int :=
  match head with
  | none => (s, eFault)
  | some head =>
    match s.findSlot head.pid head.tid with
    | none => (s, 0)
    | some i =>
      let s := s.vfree (s.debugInfo i).data
      (s.setSlot i ⟨⟨0, 0, 0⟩, none⟩, 0)

/-- The copy of slot `i` reads a buffer that is not live or too short. -/
def DebugTable.badSlot (s : DebugTable) (i : Slot) : Bool :=
  match (s.debugInfo i).data with
  | none => true
  | some a =>
    match s.heap a with
    | none => true
    | some size => size < (s.debugInfo i).headInfo.length.toNat

/-- The loop of `ve_info_show` over the slots: whether a copy is bad.
`nTotalSize` is an `int` that is compared with an `unsigned long`, so a sum
that turns negative is larger than a page too. -/
def showLoop (s : DebugTable) : List Slot → Nat → Bool
  | [], _ => false
  | i :: is, nTotalSize =>
    let h := (s.debugInfo i).headInfo
    if h.pid ≠ 0 ∧ h.tid ≠ 0 then
      let nTotalSize := (nTotalSize + h.length.toNat) % 2 ^ 32
      if nTotalSize > pageSize then false
      else s.badSlot i || showLoop s is nTotalSize
    else showLoop s is nTotalSize

/-- `ve_info_show`. -/
def veInfoShow (s : DebugTable) : DebugTable :=
  { s with
    badRead := s.badRead || showLoop s (List.finRange maxVeDebugInfoNum) 0 }

/-- The loop of `cedardev_exit` over the slots.  The pointers stay. -/
def exitLoop : List Slot → DebugTable → DebugTable
  | [], s => s
  | i :: is, s => exitLoop is (s.vfree (s.debugInfo i).data)

/-- What `cedardev_exit` does to the table. -/
def cedardevExit (s : DebugTable) : DebugTable :=
  { exitLoop (List.finRange maxVeDebugInfoNum) s with exited := true }

/-- A call on the table. -/
inductive DebugOp where
  | copy (head : Option DebugHeadInfo) (outcome : Option Nat)
      (payloadOk : Bool)
  | stop (head : Option DebugHeadInfo)
  | infoShow
  | exit
  deriving DecidableEq, Repr

/-- One call.  Nothing can be called after the exit. -/
def debugStep (s : DebugTable) (op : DebugOp) : Option DebugTable :=
  if s.exited then none
  else match op with
    | .copy head outcome payloadOk =>
      some (ioctlProcInfoCopy s head outcome payloadOk).1
    | .stop head => some (ioctlProcInfoStop s head).1
    | .infoShow => some (veInfoShow s)
    | .exit => some (cedardevExit s)

end LonganPi.Ve
