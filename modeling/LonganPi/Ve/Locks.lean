import Mathlib.Data.BitVec
import Mathlib.Logic.Function.Basic

/-!
# The locks and the process information of `cedar_ve.c`

The open files of the cedar device, the mutexes that their ioctls take, and
the debugfs buffers that one of the mutexes protects.

* A file keeps a word `lock_flags`.  Each bit stands for one mutex, and the
  ioctls set and clear the bits with an argument of the user.
* `IOCTL_GET_LOCK` and `IOCTL_RELEASE_LOCK` compare the argument with each
  lock type to select the mutex, but they change the flags with the whole
  argument.
* `IOCTL_SET_PROC_INFO` takes `lock_proc` and keeps it, and
  `IOCTL_COPY_PROC_INFO` gives it back.

`step` is one call of one file.  A call that would block on a mutex is not
enabled, and `step_call` says what an enabled one does.  Three records are
kept for the theorems and read by no function: who holds a mutex, whether a
mutex was ever unlocked by a file that did not hold it, and which accesses the
buffers saw.
-/

namespace LonganPi.Ve

/-! ## Lock types -/

/-- The mutexes that a bit of `lock_flags` stands for. -/
inductive VeLock where
  | vdec
  | venc
  | jdec
  | reg00
  | reg04
  | procInfo
  deriving DecidableEq, Repr

/-- `VE_LOCK_VDEC`, `VE_LOCK_VENC`, `VE_LOCK_JDEC`, `VE_LOCK_00_REG`,
`VE_LOCK_04_REG` and `VE_LOCK_PROC_INFO`. -/
def VeLock.type : VeLock → BitVec 32
  | .vdec => 0x01
  | .venc => 0x02
  | .jdec => 0x04
  | .reg00 => 0x08
  | .reg04 => 0x10
  | .procInfo => 0x1000

/-- The locks of the codecs: all but `lock_proc`. -/
def codecLocks : List VeLock := [.vdec, .venc, .jdec, .reg00, .reg04]

/-- The mutex that an ioctl argument selects.  Any other value selects
none. -/
def selectLock (lockType : BitVec 32) : Option VeLock :=
  if lockType = VeLock.type .vdec then some .vdec
  else if lockType = VeLock.type .venc then some .venc
  else if lockType = VeLock.type .jdec then some .jdec
  else if lockType = VeLock.type .reg00 then some .reg00
  else if lockType = VeLock.type .reg04 then some .reg04
  else none

/-! ## State -/

/-- `VE_DEBUGFS_MAX_CHANNEL`. -/
def veDebugfsMaxChannel : Nat := 16

/-- `VE_DEBUGFS_BUF_SIZE`. -/
def veDebugfsBufSize : Nat := 1024

/-- `struct ve_debugfs_buffer`.  A pointer into `data` is its offset. -/
structure VeDebugfsBuffer where
  curChannelId : Nat
  procLen : Nat → Nat
  procBuf : Nat → Option Nat

/-- An access to the process information. -/
inductive Access where
  /-- An element of `proc_len[]` or `proc_buf[]`. -/
  | element (i : Nat)
  /-- A copy of `len` bytes from the user to `buf`, for channel `i`. -/
  | fromUser (i : Nat) (buf : Option Nat) (len : Nat)
  /-- A copy of `len` bytes from offset `src` of channel `i` to offset `dst`
  of a `struct ve_debugfs_proc`. -/
  | toProc (i : Nat) (src dst len : Nat)
  /-- `pVeProc->len` when the file was opened. -/
  | procLength (len : Nat)
  deriving DecidableEq, Repr

/-- The cedar device. -/
structure Cedar where
  /-- `debug_root` is not `NULL`. -/
  debugRoot : Bool
  /-- `lock_flags` of the open files. -/
  files : Nat → Option (BitVec 32)
  /-- The file that holds a mutex. -/
  holder : VeLock → Option Nat
  /-- A file unlocked the mutex that did not hold it. -/
  wildUnlock : VeLock → Bool
  /-- `ve_debug_proc_info`. -/
  procInfo : VeDebugfsBuffer
  /-- The accesses so far. -/
  accesses : List Access

/-- The device after `cedardev_init`, with no file open. -/
def Cedar.init (debugRoot : Bool) : Cedar where
  debugRoot := debugRoot
  files := fun _ => none
  holder := fun _ => none
  wildUnlock := fun _ => false
  procInfo := ⟨0, fun _ => 0, fun _ => none⟩
  accesses := []

namespace Cedar

/-- `vi->lock_flags = flags`. -/
def setFlags (s : Cedar) (f : Nat) (flags : BitVec 32) : Cedar :=
  { s with files := Function.update s.files f (some flags) }

/-- `mutex_lock`, which waits for a mutex that is held. -/
def mutexLock (s : Cedar) (f : Nat) (l : VeLock) : Option Cedar :=
  match s.holder l with
  | none => some { s with holder := Function.update s.holder l (some f) }
  | some _ => none

/-- `mutex_unlock`. -/
def mutexUnlock (s : Cedar) (f : Nat) (l : VeLock) : Cedar :=
  { s with
    holder := Function.update s.holder l none
    wildUnlock := Function.update s.wildUnlock l
      (s.wildUnlock l || decide (s.holder l ≠ some f)) }

/-- Record accesses. -/
def access (s : Cedar) (as : List Access) : Cedar :=
  { s with accesses := s.accesses ++ as }

end Cedar

/-! ## The calls -/

/-- A call of a file, with what the user and the allocator contribute. -/
inductive Op where
  /-- `cedardev_open`. -/
  | openFile (f : Nat)
  /-- `IOCTL_GET_LOCK`. -/
  | getLock (f : Nat) (arg : BitVec 32)
  /-- `IOCTL_RELEASE_LOCK`. -/
  | releaseLock (f : Nat) (arg : BitVec 32)
  /-- `IOCTL_SET_PROC_INFO`: `channel_id` and `proc_info_len` of the user,
  or a failed copy. -/
  | setProcInfo (f : Nat) (user : Option (BitVec 8 × BitVec 32))
  /-- `IOCTL_COPY_PROC_INFO`, and whether the user's bytes can be read. -/
  | copyProcInfo (f : Nat) (copyOk : Bool)
  /-- `IOCTL_STOP_PROC_INFO`. -/
  | stopProcInfo (f : Nat) (arg : BitVec 64)
  /-- `cedardev_release`. -/
  | closeFile (f : Nat)
  /-- `ve_debugfs_open`, and whether `kmalloc` succeeds. -/
  | debugfsOpen (f : Nat) (kmallocOk : Bool)
  deriving DecidableEq, Repr

/-- `IOCTL_GET_LOCK` of a file whose flags are `flags`. -/
def ioctlGetLock (s : Cedar) (f : Nat) (flags lockType : BitVec 32) :
    Option Cedar :=
  match selectLock lockType with
  | some l => do
    let s ← s.mutexLock f l
    some (s.setFlags f (flags ||| lockType))
  | none => some (s.setFlags f (flags ||| lockType))

/-- `IOCTL_RELEASE_LOCK`.  Its result is -1 when no bit of the argument is
set. -/
def ioctlReleaseLock (s : Cedar) (f : Nat) (flags lockType : BitVec 32) :
    Cedar :=
  if flags &&& lockType = 0 then s
  else
    let s := s.setFlags f (flags &&& ~~~lockType)
    match selectLock lockType with
    | some l => s.mutexUnlock f l
    | none => s

/-- `IOCTL_SET_PROC_INFO`. -/
def ioctlSetProcInfo (s : Cedar) (f : Nat) (flags : BitVec 32)
    (user : Option (BitVec 8 × BitVec 32)) : Option Cedar :=
  if s.debugRoot = false then some s
  else do
    let s ← s.mutexLock f .procInfo
    match user with
    | none => some (s.mutexUnlock f .procInfo)
    | some (channelId, procInfoLen) =>
      if channelId.toNat ≥ veDebugfsMaxChannel then
        some (s.mutexUnlock f .procInfo)
      else
        let s := s.setFlags f (flags ||| VeLock.type .procInfo)
        let s := s.access [.element channelId.toNat, .element channelId.toNat]
        some { s with procInfo :=
          { curChannelId := channelId.toNat
            procLen := Function.update s.procInfo.procLen channelId.toNat
              procInfoLen.toNat
            procBuf := Function.update s.procInfo.procBuf channelId.toNat
              (some (channelId.toNat * veDebugfsBufSize)) } }

/-- `IOCTL_COPY_PROC_INFO`.  A copy that fails writes the whole length as
well: `copy_from_user` fills the rest with zeros.  Both outcomes unlock. -/
def ioctlCopyProcInfo (s : Cedar) (f : Nat) (flags : BitVec 32)
    (copyOk : Bool) : Cedar :=
  if s.debugRoot = false then s
  else
    let s := s.setFlags f (flags &&& ~~~VeLock.type .procInfo)
    let channelId := s.procInfo.curChannelId
    let s := s.access [.element channelId, .element channelId,
      .fromUser channelId (s.procInfo.procBuf channelId)
        (s.procInfo.procLen channelId)]
    if copyOk then s.mutexUnlock f .procInfo
    else s.mutexUnlock f .procInfo

/-- `IOCTL_STOP_PROC_INFO`.  The argument is cut to an `unsigned char`. -/
def ioctlStopProcInfo (s : Cedar) (arg : BitVec 64) : Cedar :=
  if s.debugRoot = false then s
  else
    let channelId := arg.toNat % 256
    let s := s.access [.element channelId]
    { s with procInfo := { s.procInfo with
        procBuf := Function.update s.procInfo.procBuf channelId none } }

/-- The mutexes that `cedardev_release` unlocks, in its order. -/
def releaseOrder : List VeLock := codecLocks ++ [.procInfo]

/-- `cedardev_release` for a file whose flags are `flags`: every mutex whose
bit is set is unlocked.  The `if` around the six is the one on
`lock_flags`. -/
def cedardevRelease (s : Cedar) (f : Nat) (flags : BitVec 32) : Cedar :=
  let s := releaseOrder.foldl (fun s l =>
    if flags &&& l.type ≠ 0 then s.mutexUnlock f l else s) s
  { s with files := Function.update s.files f none }

/-- The loop of `ve_debugfs_open` from channel `i` on: the accesses it makes
and the final `pVeProc->len`.  `pData` is an offset into `pVeProc->data`. -/
def debugfsCopies (p : VeDebugfsBuffer) :
    Nat → Nat → Nat → Nat → List Access × Nat
  | 0, _, _, len => ([], len)
  | n + 1, i, pData, len =>
    match p.procBuf i with
    | some buf =>
      let rest := debugfsCopies p n (i + 1) (pData + p.procLen i)
        ((len + p.procLen i) % 2 ^ 32)
      ([.element i, .element i, .toProc i buf pData (p.procLen i)]
        ++ rest.1, rest.2)
    | none =>
      let rest := debugfsCopies p n (i + 1) pData len
      (.element i :: rest.1, rest.2)

/-- `ve_debugfs_open`.  It takes `lock_proc` for the copies and gives it
back. -/
def veDebugfsOpen (s : Cedar) (f : Nat) (kmallocOk : Bool) : Option Cedar :=
  if kmallocOk = false then some s
  else do
    let s ← s.mutexLock f .procInfo
    let copies := debugfsCopies s.procInfo veDebugfsMaxChannel 0 0 0
    let s := s.access (copies.1 ++ [.procLength copies.2])
    some (s.mutexUnlock f .procInfo)

/-- One call.  Every ioctl needs an open file, and a call that waits for a
mutex is not enabled. -/
def step (s : Cedar) : Op → Option Cedar
  | .openFile f =>
    match s.files f with
    | none => some (s.setFlags f 0)
    | some _ => none
  | .getLock f arg => do ioctlGetLock s f (← s.files f) arg
  | .releaseLock f arg => do some (ioctlReleaseLock s f (← s.files f) arg)
  | .setProcInfo f user => do ioctlSetProcInfo s f (← s.files f) user
  | .copyProcInfo f copyOk =>
    do some (ioctlCopyProcInfo s f (← s.files f) copyOk)
  | .stopProcInfo f arg => do
    let _ ← s.files f
    some (ioctlStopProcInfo s arg)
  | .closeFile f => do some (cedardevRelease s f (← s.files f))
  | .debugfsOpen f kmallocOk => veDebugfsOpen s f kmallocOk

/-- The enabled calls, each with the state after it. -/
inductive Call (s : Cedar) : Op → Cedar → Prop
  | openFile {f : Nat} : s.files f = none → Call s (.openFile f) (s.setFlags f 0)
  | getLock {f : Nat} {flags arg : BitVec 32} {s' : Cedar} :
      s.files f = some flags → ioctlGetLock s f flags arg = some s' →
      Call s (.getLock f arg) s'
  | releaseLock {f : Nat} {flags arg : BitVec 32} : s.files f = some flags →
      Call s (.releaseLock f arg) (ioctlReleaseLock s f flags arg)
  | setProcInfo {f : Nat} {flags : BitVec 32}
      {user : Option (BitVec 8 × BitVec 32)} {s' : Cedar} :
      s.files f = some flags → ioctlSetProcInfo s f flags user = some s' →
      Call s (.setProcInfo f user) s'
  | copyProcInfo {f : Nat} {flags : BitVec 32} {copyOk : Bool} :
      s.files f = some flags →
      Call s (.copyProcInfo f copyOk) (ioctlCopyProcInfo s f flags copyOk)
  | stopProcInfo {f : Nat} {flags : BitVec 32} {arg : BitVec 64} :
      s.files f = some flags →
      Call s (.stopProcInfo f arg) (ioctlStopProcInfo s arg)
  | closeFile {f : Nat} {flags : BitVec 32} : s.files f = some flags →
      Call s (.closeFile f) (cedardevRelease s f flags)
  | debugfsOpen {f : Nat} {kmallocOk : Bool} {s' : Cedar} :
      veDebugfsOpen s f kmallocOk = some s' →
      Call s (.debugfsOpen f kmallocOk) s'

theorem step_call {s s' : Cedar} {op : Op} (hstep : step s op = some s') :
    Call s op s' := by
  cases op with
  | openFile f =>
    unfold step at hstep
    cases hf : s.files f with
    | some flags =>
      simp only [hf] at hstep
      cases hstep
    | none =>
      simp only [hf] at hstep
      obtain rfl := Option.some.inj hstep
      exact .openFile hf
  | getLock f arg =>
    obtain ⟨flags, hf, hcall⟩ := Option.bind_eq_some_iff.mp hstep
    exact .getLock hf hcall
  | releaseLock f arg =>
    obtain ⟨flags, hf, hcall⟩ := Option.bind_eq_some_iff.mp hstep
    obtain rfl := Option.some.inj hcall
    exact .releaseLock hf
  | setProcInfo f user =>
    obtain ⟨flags, hf, hcall⟩ := Option.bind_eq_some_iff.mp hstep
    exact .setProcInfo hf hcall
  | copyProcInfo f copyOk =>
    obtain ⟨flags, hf, hcall⟩ := Option.bind_eq_some_iff.mp hstep
    obtain rfl := Option.some.inj hcall
    exact .copyProcInfo hf
  | stopProcInfo f arg =>
    obtain ⟨flags, hf, hcall⟩ := Option.bind_eq_some_iff.mp hstep
    obtain rfl := Option.some.inj hcall
    exact .stopProcInfo hf
  | closeFile f =>
    obtain ⟨flags, hf, hcall⟩ := Option.bind_eq_some_iff.mp hstep
    obtain rfl := Option.some.inj hcall
    exact .closeFile hf
  | debugfsOpen f kmallocOk => exact .debugfsOpen hstep

end LonganPi.Ve
