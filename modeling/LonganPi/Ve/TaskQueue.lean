import LonganPi.Lib.StableQueue
import Mathlib.Algebra.Order.Ring.Int
import Mathlib.Tactic.SplitIfs

/-!
# The engine tasks of `cedar_ve.c`

With `USE_CEDAR_ENGINE`, a request for the engine is a task on
`run_task_list`.  A release marks a task, and `cedar_engine_for_events`, which
a timer runs, takes the marked tasks and those whose time is over off the
list, sends their signals and starts the task at the head.

Each function here is what it does while it holds `cedar_devp->lock`.
`jiffies` is read anew each time, and the readings of one call are given by a
function of their number.  The values of the timers are the times of their
last `mod_timer`; a timer may run at any time.
-/

namespace LonganPi.Ve

/-! ## State -/

/-- The values of `status`, and of `si_errno` in a signal. -/
inductive TaskStatus where
  /-- `TASK_INIT`. -/
  | init
  /-- `TASK_TIMEOUT`. -/
  | timeout
  /-- `TASK_RELEASE`. -/
  | release
  deriving DecidableEq, Repr

/-- `struct __cedarv_task`. -/
structure CedarvTask where
  taskPrio : Int
  id : Int
  /-- In jiffies. -/
  timeout : BitVec 64
  frametime : BitVec 32
  blockMode : BitVec 32
  deriving DecidableEq, Repr

/-- `struct cedarv_engine_task`. -/
structure CedarvEngineTask where
  t : CedarvTask
  taskHandle : Nat
  status : TaskStatus
  running : Bool
  isFirstTask : Bool
  /-- How many tasks were inserted before this one. -/
  serial : Nat
  deriving DecidableEq, Repr

/-- A `SIG_CEDAR` for a task. -/
structure EngineSignal where
  taskHandle : Nat
  siCode : Int
  siErrno : TaskStatus
  /-- The serial of the task. -/
  serial : Nat
  deriving DecidableEq, Repr

/-- The two lists, the two timers, and what was inserted and sent so far. -/
structure TaskQueue where
  runTaskList : List CedarvEngineTask
  delTaskList : List CedarvEngineTask
  cedarEngineTimer : Option (BitVec 64)
  cedarEngineTimerRel : Option (BitVec 64)
  signals : List EngineSignal
  inserted : Nat
  deriving DecidableEq, Repr

/-- The lists before the first request. -/
def TaskQueue.init : TaskQueue := ⟨[], [], none, none, [], 0⟩

/-- `CLK_REL_TIME`, in milliseconds. -/
def clkRelTime : Nat := 10000

/-- `TIMER_CIRCLE`, in milliseconds. -/
def timerCircle : Nat := 50

/-- `time_after`. -/
def timeAfter (a b : BitVec 64) : Bool := (b - a).slt 0

/-! ## Insert and delete -/

/-- The task that `IOCTL_ENGINE_REQ` allocates. -/
def newEngineTask (t : CedarvTask) (taskHandle serial : Nat) :
    CedarvEngineTask where
  t := t
  taskHandle := taskHandle
  status := .init
  running := false
  isFirstTask := false
  serial := serial

/-- `cedardev_insert_task` stops at `task_entry`. -/
def stopsAt (newTask taskEntry : CedarvEngineTask) : Bool :=
  !taskEntry.isFirstTask && !taskEntry.running
    && decide (taskEntry.t.taskPrio < newTask.t.taskPrio)

/-- `cedardev_insert_task`. -/
def cedardevInsertTask (newTask : CedarvEngineTask) (jiffies : BitVec 64)
    (s : TaskQueue) : TaskQueue :=
  let newTask :=
    if s.runTaskList = [] then { newTask with isFirstTask := true } else newTask
  { s with
    runTaskList :=
      StableQueue.insertBefore (stopsAt newTask) newTask s.runTaskList
    cedarEngineTimer := some (jiffies + 0)
    inserted := s.inserted + 1 }

/-- The loop of `cedardev_del_task`. -/
def markRelease (taskId : Int) :
    List CedarvEngineTask → Option (List CedarvEngineTask)
  | [] => none
  | e :: es =>
    if e.t.id = taskId ∧ e.status ≠ .release then
      some ({ e with status := .release } :: es)
    else (markRelease taskId es).map (e :: ·)

/-- `cedardev_del_task`. -/
def cedardevDelTask (taskId : Int) (jiffies : BitVec 64) (s : TaskQueue) :
    TaskQueue × Int :=
  match markRelease taskId s.runTaskList with
  | some tasks =>
    ({ s with runTaskList := tasks, cedarEngineTimer := some (jiffies + 0) }, 0)
  | none => (s, -1)

/-! ## The timer -/

/-- A task that is moved to `del_task_list`. -/
def expired (e : CedarvEngineTask) : CedarvEngineTask :=
  if e.status = .init then { e with status := .timeout } else e

/-- The first loop of `cedar_engine_for_events`, from the entry number `i` on.
The results are what stays on `run_task_list`, `del_task_list`, and the time
of the other timer. -/
def sweepRunList (clkRel : BitVec 64) (now : Nat → BitVec 64) :
    Nat → List CedarvEngineTask → List CedarvEngineTask → Option (BitVec 64) →
      List CedarvEngineTask × List CedarvEngineTask × Option (BitVec 64)
  | _, [], del, rel => ([], del, rel)
  | i, e :: es, del, _ =>
    let rel := some (now (2 * i) + clkRel)
    if e.status = .release ∨ timeAfter (now (2 * i + 1)) e.t.timeout then
      sweepRunList clkRel now (i + 1) es (expired e :: del) rel
    else
      let r := sweepRunList clkRel now (i + 1) es del rel
      (e :: r.1, r.2)

/-- The signal of a task on `del_task_list`. -/
def delSignal (e : CedarvEngineTask) : List EngineSignal :=
  match e.status with
  | .timeout => [⟨e.taskHandle, e.t.id, .timeout, e.serial⟩]
  | .release => [⟨e.taskHandle, e.t.id, .release, e.serial⟩]
  | .init => []

/-- The end of `cedar_engine_for_events`: the task at the head starts. -/
def startHead (circle : BitVec 64) (s : TaskQueue) : TaskQueue :=
  match s.runTaskList with
  | [] => s
  | e :: es =>
    let s :=
      if e.running = false then
        { s with
          runTaskList := { e with running := true } :: es
          signals := s.signals ++ [⟨e.taskHandle, e.t.id, .init, e.serial⟩] }
      else s
    { s with cedarEngineTimer := some circle }

/-- `cedar_engine_for_events`.  The second loop empties `del_task_list`. -/
def cedarEngineForEvents (msecsToJiffies : Nat → BitVec 64)
    (now : Nat → BitVec 64) (s : TaskQueue) : TaskQueue :=
  let r := sweepRunList (msecsToJiffies clkRelTime) now 0 s.runTaskList
    s.delTaskList s.cedarEngineTimerRel
  startHead (now (2 * s.runTaskList.length) + msecsToJiffies timerCircle)
    { s with
      runTaskList := r.1
      delTaskList := []
      cedarEngineTimerRel := r.2.2
      signals := s.signals ++ r.2.1.flatMap delSignal }

/-! ## A call -/

/-- A call of one of the three functions. -/
inductive QueueOp where
  | insert (t : CedarvTask) (taskHandle : Nat) (jiffies : BitVec 64)
  | del (taskId : Int) (jiffies : BitVec 64)
  | events (now : Nat → BitVec 64)

/-- One call. -/
def queueStep (msecsToJiffies : Nat → BitVec 64) (s : TaskQueue) :
    QueueOp → Option TaskQueue
  | .insert t taskHandle jiffies =>
    some (cedardevInsertTask (newEngineTask t taskHandle s.inserted) jiffies s)
  | .del taskId jiffies => some (cedardevDelTask taskId jiffies s).1
  | .events now => some (cedarEngineForEvents msecsToJiffies now s)

/-! ## What the loops do -/

@[simp] theorem expired_serial (e : CedarvEngineTask) :
    (expired e).serial = e.serial := by
  unfold expired
  split_ifs <;> rfl

theorem expired_status (e : CedarvEngineTask) : (expired e).status ≠ .init := by
  unfold expired
  split_ifs with h
  · simp
  · exact h

/-- Every task either stays in its place or is moved. -/
theorem sweepRunList_spec (clkRel : BitVec 64) (now : Nat → BitVec 64) (i : Nat)
    (tasks del : List CedarvEngineTask) (rel : Option (BitVec 64)) :
    ∃ gone : List CedarvEngineTask,
      (sweepRunList clkRel now i tasks del rel).1.Sublist tasks ∧
      ((sweepRunList clkRel now i tasks del rel).1 ++ gone).Perm tasks ∧
      (sweepRunList clkRel now i tasks del rel).2.1
        = (gone.map expired).reverse ++ del := by
  induction tasks generalizing i del rel with
  | nil => exact ⟨[], List.Sublist.refl _, List.Perm.refl _, rfl⟩
  | cons e es ih =>
    unfold sweepRunList
    dsimp only
    by_cases hmoved : e.status = .release ∨
        timeAfter (now (2 * i + 1)) e.t.timeout = true
    · rw [if_pos hmoved]
      obtain ⟨gone, hsub, hperm, hdel⟩ := ih (i + 1) (expired e :: del)
        (some (now (2 * i) + clkRel))
      refine ⟨e :: gone, hsub.cons e, ?_, ?_⟩
      · exact List.perm_middle.trans (hperm.cons e)
      · rw [List.map_cons, List.reverse_cons, List.append_assoc]
        exact hdel
    · rw [if_neg hmoved]
      obtain ⟨gone, hsub, hperm, hdel⟩ := ih (i + 1) del
        (some (now (2 * i) + clkRel))
      exact ⟨gone, hsub.cons_cons e, hperm.cons e, hdel⟩

/-- What a task is besides its status. -/
def apartStatus (e : CedarvEngineTask) : CedarvEngineTask :=
  { e with status := .init }

/-- A release changes nothing but the status of tasks. -/
theorem markRelease_spec {taskId : Int} {tasks tasks' : List CedarvEngineTask}
    (h : markRelease taskId tasks = some tasks') :
    tasks'.map apartStatus = tasks.map apartStatus := by
  induction tasks generalizing tasks' with
  | nil => cases h
  | cons e es ih =>
    unfold markRelease at h
    split_ifs at h with hmatch
    · obtain rfl := Option.some.inj h
      rfl
    · obtain ⟨rest, hrest, rfl⟩ := Option.map_eq_some_iff.mp h
      rw [List.map_cons, List.map_cons, ih hrest]

end LonganPi.Ve
