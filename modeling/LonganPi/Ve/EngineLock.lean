import LonganPi.Lib.SpinLock
import LonganPi.Lib.Transition
import LonganPi.Ve.EngineClocks
import LonganPi.Ve.QueueOrder

/-!
# The lock of the engine

With `USE_CEDAR_ENGINE`, the engine calls and the two timers take
`cedar_devp->lock` for the lists and for `clk_status`.  The timer that switches
the clocks off calls `disable_cedar_hw_clk` while it holds the lock.

* The functions of `EngineDev` are those of the source with their lock.  The
  result `none` is a call that waits for a lock that it holds itself.
* `lockStep_free` says that every other call returns with the lock free, and
  what it does to the lists and the clocks.
* `locksOnce_iff` is the condition of a run.
-/

namespace LonganPi.Ve

open SpinLock Transition

/-! ## The calls and their lock -/

/-- What the lock protects. -/
structure EngineState where
  queue : TaskQueue
  engine : Engine

abbrev EngineDev := Guarded EngineState

/-- `struct cedarv_engine_task_info`. -/
structure CedarvEngineTaskInfo where
  taskPrio : Int
  frametime : BitVec 32
  totalTime : BitVec 32
  deriving DecidableEq, Repr

/-- `CEDAR_NONBLOCK_TASK`. -/
def cedarNonblockTask : BitVec 32 := 0

/-- `CEDAR_RUN_LIST_NONULL`. -/
def cedarRunListNonull : Int := -1

def setQueue (q : TaskQueue) (v : EngineState) : EngineState :=
  { v with queue := q }

def setEngine (e : Engine) (v : EngineState) : EngineState :=
  { v with engine := e }

@[simp] theorem setQueue_engine (q : TaskQueue) (v : EngineState) :
    (setQueue q v).engine = v.engine := rfl

/-- The loop of `cedardev_check_delay`. -/
def checkDelay (checkPrio : Int) : List CedarvEngineTask → BitVec 32
  | [] => 0
  | e :: es =>
    if e.t.taskPrio ≥ checkPrio ∨ e.running = true ∨ e.isFirstTask = true then
      e.t.frametime + checkDelay checkPrio es
    else checkDelay checkPrio es

namespace EngineDev

/-- `enable_cedar_hw_clk`. -/
def enableCedarHwClk (soc : Soc) (ok : Clk → Bool) (s : EngineDev) :
    Option (EngineDev × Int) :=
  if s.val.engine.bInitEndFlag = false then some (s, eInval)
  else do
    let s ← acquire s
    if s.val.engine.clkStatus = true then return (release s, 0)
    else
      let s := modify (setEngine { s.val.engine with clkStatus := true }) s
      let s := release s
      let e := { s.val.engine with pmBalance := s.val.engine.pmBalance + 1 }
      let e := { e with resetDeasserted := true }
      let r := clkPrepareEnable ok (engineClks soc) e
      return (modify (setEngine r.1) s, r.2)

/-- `disable_cedar_hw_clk`. -/
def disableCedarHwClk (soc : Soc) (s : EngineDev) :
    Option (EngineDev × Int) := do
  let s ← acquire s
  if s.val.engine.clkStatus = false then return (release s, 0)
  else
    let s := modify (setEngine { s.val.engine with clkStatus := false }) s
    let s := release s
    let e := clkDisableUnprepare (engineClks soc).reverse s.val.engine
    let e := { e with resetDeasserted := false }
    let e := { e with pmBalance := e.pmBalance - 1 }
    return (modify (setEngine e) s, 0)

/-- `cedardev_insert_task`. -/
def cedardevInsertTask (newTask : CedarvEngineTask) (jiffies : BitVec 64)
    (s : EngineDev) : Option EngineDev := do
  let s ← acquire s
  let q := Ve.cedardevInsertTask newTask jiffies s.val.queue
  return release (modify (setQueue q) s)

/-- `cedardev_del_task`. -/
def cedardevDelTask (taskId : Int) (jiffies : BitVec 64) (s : EngineDev) :
    Option (EngineDev × Int) := do
  let s ← acquire s
  let r := Ve.cedardevDelTask taskId jiffies s.val.queue
  return (release (modify (setQueue r.1) s), r.2)

/-- `cedardev_check_delay`. -/
def cedardevCheckDelay (checkPrio : Int) (s : EngineDev) :
    Option (EngineDev × BitVec 32) := do
  let s ← acquire s
  return (release s, checkDelay checkPrio s.val.queue.runTaskList)

/-- `cedar_engine_for_timer_rel`. -/
def cedarEngineForTimerRel (soc : Soc) (msecsToJiffies : Nat → BitVec 64)
    (jiffies : BitVec 64) (s : EngineDev) : Option EngineDev := do
  let s ← acquire s
  if s.val.queue.runTaskList = [] then
    let r ← disableCedarHwClk soc s
    return release r.1
  else
    let timer := some (jiffies + msecsToJiffies timerCircle)
    let q := { s.val.queue with cedarEngineTimer := timer }
    return release (modify (setQueue q) s)

/-- `cedar_engine_for_events`. -/
def cedarEngineForEvents (msecsToJiffies now : Nat → BitVec 64)
    (s : EngineDev) : Option EngineDev := do
  let s ← acquire s
  let q := Ve.cedarEngineForEvents msecsToJiffies now s.val.queue
  return release (modify (setQueue q) s)

/-- `IOCTL_ENGINE_REQ`.  The pointer that was not allocated is returned as
0. -/
def ioctlEngineReq (soc : Soc) (msecsToJiffies : Nat → BitVec 64)
    (copied allocated : Bool) (t : CedarvTask) (current : Nat)
    (jiffies jiffies' : BitVec 64) (ok : Clk → Bool) (s : EngineDev) :
    Option (EngineDev × Int) :=
  if copied = false then some (s, eFault)
  else do
    let s ← acquire s
    let busy := s.val.queue.runTaskList ≠ [] ∧ t.blockMode = cedarNonblockTask
    let s := release s
    if busy then return (s, cedarRunListNonull)
    else if allocated = false then return (s, 0)
    else
      let msecs := ((1000 * t.timeout).setWidth 32).toNat
      let t := { t with timeout := jiffies + msecsToJiffies msecs }
      let task := newEngineTask t current s.val.queue.inserted
      let s ← cedardevInsertTask task jiffies' s
      let r ← enableCedarHwClk soc ok s
      if r.2 < 0 then return (r.1, eFault) else return (r.1, 0)

/-- `IOCTL_ENGINE_REL`. -/
def ioctlEngineRel (relTaskid : Int) (jiffies : BitVec 64) (s : EngineDev) :
    Option (EngineDev × Int) :=
  cedardevDelTask relTaskid jiffies s

/-- `IOCTL_ENGINE_CHECK_DELAY`. -/
def ioctlEngineCheckDelay (copiedIn copiedOut : Bool) (taskPrio : Int)
    (s : EngineDev) : Option (EngineDev × Option CedarvEngineTaskInfo × Int) :=
  if copiedIn = false then some (s, none, eFault)
  else do
    let r ← cedardevCheckDelay taskPrio s
    let s ← acquire r.1
    let frametime :=
      match s.val.queue.runTaskList with
      | [] => 0
      | e :: _ => if e.running = true then e.t.frametime else 0
    let s := release s
    if copiedOut = false then return (s, none, eFault)
    else return (s, some ⟨taskPrio, frametime, r.2⟩, 0)

end EngineDev

/-- A call, or a run of a timer.  The switches of the clocks are calls of their
own as well: other calls may come before the last step of a request, and a
suspend switches the clocks off. -/
inductive EngineLockOp where
  | insert (t : CedarvTask) (taskHandle : Nat) (jiffies : BitVec 64)
  | del (taskId : Int) (jiffies : BitVec 64)
  | checkDelay (checkPrio : Int)
  | enable (ok : Clk → Bool)
  | disable
  | req (copied allocated : Bool) (t : CedarvTask) (current : Nat)
      (jiffies jiffies' : BitVec 64) (ok : Clk → Bool)
  | rel (relTaskid : Int) (jiffies : BitVec 64)
  | checkDelayReq (copiedIn copiedOut : Bool) (taskPrio : Int)
  | events (now : Nat → BitVec 64)
  | timerRel (jiffies : BitVec 64)

/-- The state after a call that returns. -/
def lockStep (soc : Soc) (msecsToJiffies : Nat → BitVec 64) (s : EngineDev) :
    EngineLockOp → Option EngineDev
  | .insert t taskHandle jiffies =>
    EngineDev.cedardevInsertTask
      (newEngineTask t taskHandle s.val.queue.inserted) jiffies s
  | .del taskId jiffies =>
    (EngineDev.cedardevDelTask taskId jiffies s).map Prod.fst
  | .checkDelay checkPrio =>
    (EngineDev.cedardevCheckDelay checkPrio s).map Prod.fst
  | .enable ok => (EngineDev.enableCedarHwClk soc ok s).map Prod.fst
  | .disable => (EngineDev.disableCedarHwClk soc s).map Prod.fst
  | .req copied allocated t current jiffies jiffies' ok =>
    (EngineDev.ioctlEngineReq soc msecsToJiffies copied allocated t current
      jiffies jiffies' ok s).map Prod.fst
  | .rel relTaskid jiffies =>
    (EngineDev.ioctlEngineRel relTaskid jiffies s).map Prod.fst
  | .checkDelayReq copiedIn copiedOut taskPrio =>
    (EngineDev.ioctlEngineCheckDelay copiedIn copiedOut taskPrio s).map Prod.fst
  | .events now => EngineDev.cedarEngineForEvents msecsToJiffies now s
  | .timerRel jiffies =>
    EngineDev.cedarEngineForTimerRel soc msecsToJiffies jiffies s

/-! ## What a call promises -/

/-- The clocks are switched off once. -/
structure SwitchedOff (soc : Soc) (e e' : Engine) : Prop where
  clkStatus : e'.clkStatus = false
  enableCount : ∀ c ∈ engineClks soc, e'.enableCount c
    = e.enableCount c - if e.clkStatus then 1 else 0

/-- The lock is free at the end of a call, and the timer switches the clocks
off exactly when no task is left. -/
structure ReturnsUnlocked (soc : Soc) (s : EngineDev) (op : EngineLockOp)
    (s' : EngineDev) : Prop where
  unlocked : s'.held = false
  off : ∀ jiffies, op = .timerRel jiffies → s.val.queue.runTaskList = [] →
    SwitchedOff soc s.val.engine s'.val.engine
  kept : ∀ jiffies, op = .timerRel jiffies → s.val.queue.runTaskList ≠ [] →
    s'.val.engine = s.val.engine

/-- The timer does not find an empty list. -/
def TaskLeft (s : EngineDev) (op : EngineLockOp) : Prop :=
  ∀ jiffies, op = .timerRel jiffies → s.val.queue.runTaskList ≠ []

variable {soc : Soc} {msecsToJiffies : Nat → BitVec 64} {v : EngineState}

/-! ## Calls that find the lock free -/

/-- With the lock free, the switches are those of the other build. -/
theorem enableCedarHwClk_free (soc : Soc) (ok : Clk → Bool) (v : EngineState) :
    EngineDev.enableCedarHwClk soc ok (free v)
      = some (free (setEngine (enableCedarHwClk soc ok v.engine).1 v),
          (enableCedarHwClk soc ok v.engine).2) := by
  unfold EngineDev.enableCedarHwClk enableCedarHwClk
  by_cases hinit : v.engine.bInitEndFlag = false
  · simp [hinit, setEngine]
  · by_cases hon : v.engine.clkStatus = true
    · simp [hinit, hon, setEngine]
    · simp [hinit, hon, setEngine]

theorem disableCedarHwClk_free (soc : Soc) (v : EngineState) :
    EngineDev.disableCedarHwClk soc (free v)
      = some (free (setEngine (disableCedarHwClk soc v.engine) v), 0) := by
  unfold EngineDev.disableCedarHwClk disableCedarHwClk
  by_cases hoff : v.engine.clkStatus = false
  · simp [hoff, setEngine]
  · simp [hoff, setEngine]

/-- A switch to off waits for a lock that is held. -/
theorem disableCedarHwClk_held (soc : Soc) (v : EngineState) :
    EngineDev.disableCedarHwClk soc ⟨true, v⟩ = none := rfl

theorem cedardevInsertTask_free (newTask : CedarvEngineTask)
    (jiffies : BitVec 64) (v : EngineState) :
    EngineDev.cedardevInsertTask newTask jiffies (free v)
      = some (free (setQueue (cedardevInsertTask newTask jiffies v.queue) v)) :=
  rfl

theorem cedardevDelTask_free (taskId : Int) (jiffies : BitVec 64)
    (v : EngineState) :
    EngineDev.cedardevDelTask taskId jiffies (free v)
      = some (free (setQueue (cedardevDelTask taskId jiffies v.queue).1 v),
          (cedardevDelTask taskId jiffies v.queue).2) := rfl

theorem cedarEngineForEvents_free (now : Nat → BitVec 64) (v : EngineState) :
    EngineDev.cedarEngineForEvents msecsToJiffies now (free v)
      = some (free (setQueue
          (cedarEngineForEvents msecsToJiffies now v.queue) v)) := rfl

/-- The timer switches the clocks off while it holds the lock. -/
theorem cedarEngineForTimerRel_empty (jiffies : BitVec 64)
    (h : v.queue.runTaskList = []) :
    EngineDev.cedarEngineForTimerRel soc msecsToJiffies jiffies (free v)
      = none := by
  unfold EngineDev.cedarEngineForTimerRel
  simp [h, disableCedarHwClk_held]

theorem cedarEngineForTimerRel_left (jiffies : BitVec 64)
    (h : v.queue.runTaskList ≠ []) :
    EngineDev.cedarEngineForTimerRel soc msecsToJiffies jiffies (free v)
      = some (free (setQueue { v.queue with
          cedarEngineTimer := some (jiffies + msecsToJiffies timerCircle) } v)) := by
  unfold EngineDev.cedarEngineForTimerRel
  simp [h]

/-- What a call can do to the lists. -/
def QueueCall (msecsToJiffies : Nat → BitVec 64) (q q' : TaskQueue) : Prop :=
  (∃ timer, q' = { q with cedarEngineTimer := timer }) ∨
    ∃ op, queueStep msecsToJiffies q op = some q'

theorem QueueCall.refl (q : TaskQueue) : QueueCall msecsToJiffies q q :=
  Or.inl ⟨q.cedarEngineTimer, rfl⟩

theorem QueueCall.inv {q q' : TaskQueue} (h : QueueCall msecsToJiffies q q')
    (hinv : QueueInv q) : QueueInv q' := by
  rcases h with ⟨timer, rfl⟩ | ⟨op, hstep⟩
  · exact hinv.of_apartStatus rfl
  · exact queueStep_inv hinv hstep

theorem ioctlEngineReq_free (copied allocated : Bool) (t : CedarvTask)
    (current : Nat) (jiffies jiffies' : BitVec 64) (ok : Clk → Bool)
    (v : EngineState) :
    ∃ v' ret, EngineDev.ioctlEngineReq soc msecsToJiffies copied allocated t
        current jiffies jiffies' ok (free v) = some (free v', ret) ∧
      QueueCall msecsToJiffies v.queue v'.queue := by
  unfold EngineDev.ioctlEngineReq
  by_cases hcopied : copied = false
  · rw [if_pos hcopied]
    exact ⟨v, eFault, rfl, .refl _⟩
  · rw [if_neg hcopied]
    by_cases hbusy : v.queue.runTaskList ≠ [] ∧ t.blockMode = cedarNonblockTask
    · exact ⟨v, cedarRunListNonull, by simp [hbusy], .refl _⟩
    · by_cases hnone : allocated = false
      · exact ⟨v, 0, by simp [hbusy, hnone], .refl _⟩
      · have henable := fun v' => enableCedarHwClk_free soc ok v'
        simp only [acquire_free, Option.bind_eq_bind, Option.bind_some,
          release_held, free_val, if_neg hbusy, if_neg hnone,
          cedardevInsertTask_free, henable, setQueue_engine]
        refine ⟨setEngine (enableCedarHwClk soc ok v.engine).1
            (setQueue (cedardevInsertTask (newEngineTask { t with
              timeout := jiffies + msecsToJiffies
                ((1000 * t.timeout).setWidth 32).toNat }
              current v.queue.inserted) jiffies' v.queue) v),
          if (enableCedarHwClk soc ok v.engine).2 < 0 then eFault else 0, ?_,
          Or.inr ⟨.insert _ current jiffies', rfl⟩⟩
        split_ifs <;> rfl

/-- A call that finds the lock free returns with the lock free, and the lists
see one of their own calls. -/
theorem lockStep_free (op : EngineLockOp) (v : EngineState)
    (hleft : TaskLeft (free v) op) :
    ∃ v', lockStep soc msecsToJiffies (free v) op = some (free v') ∧
      QueueCall msecsToJiffies v.queue v'.queue := by
  cases op with
  | insert t taskHandle jiffies =>
    exact ⟨_, cedardevInsertTask_free _ jiffies v,
      Or.inr ⟨.insert t taskHandle jiffies, rfl⟩⟩
  | del taskId jiffies =>
    exact ⟨_, congrArg (Option.map Prod.fst)
      (cedardevDelTask_free taskId jiffies v), Or.inr ⟨.del taskId jiffies, rfl⟩⟩
  | checkDelay checkPrio => exact ⟨v, rfl, .refl _⟩
  | enable ok =>
    exact ⟨_, congrArg (Option.map Prod.fst) (enableCedarHwClk_free soc ok v),
      .refl _⟩
  | disable =>
    exact ⟨_, congrArg (Option.map Prod.fst) (disableCedarHwClk_free soc v),
      .refl _⟩
  | req copied allocated t current jiffies jiffies' ok =>
    obtain ⟨v', ret, heq, hqueue⟩ := ioctlEngineReq_free copied allocated t
      current jiffies jiffies' ok v
    exact ⟨v', congrArg (Option.map Prod.fst) heq, hqueue⟩
  | rel relTaskid jiffies =>
    exact ⟨_, congrArg (Option.map Prod.fst)
      (cedardevDelTask_free relTaskid jiffies v),
      Or.inr ⟨.del relTaskid jiffies, rfl⟩⟩
  | checkDelayReq copiedIn copiedOut taskPrio =>
    refine ⟨v, ?_, .refl _⟩
    cases copiedIn
    · rfl
    · cases copiedOut
      · rfl
      · rfl
  | events now =>
    exact ⟨_, cedarEngineForEvents_free now v, Or.inr ⟨.events now, rfl⟩⟩
  | timerRel jiffies =>
    exact ⟨_, cedarEngineForTimerRel_left jiffies (hleft jiffies rfl),
      Or.inl ⟨_, rfl⟩⟩

/-- A call that returns has found a task or is not the timer. -/
theorem taskLeft_of_returns {op : EngineLockOp} {s' : EngineDev}
    (hstep : lockStep soc msecsToJiffies (free v) op = some s') :
    TaskLeft (free v) op := by
  intro jiffies hop hnone
  have hwaits : lockStep soc msecsToJiffies (free v) (.timerRel jiffies) = none :=
    cedarEngineForTimerRel_empty jiffies hnone
  rw [hop, hwaits] at hstep
  cases hstep

/-! ## Runs -/

/-- In a run whose calls return, the lists are in order. -/
theorem lock_queue_runs (ops : List EngineLockOp) (e : Engine) :
    Always (lockStep soc msecsToJiffies)
      (fun s => s.held = false ∧ QueueInv s.val.queue) ops
      (free ⟨TaskQueue.init, e⟩) := by
  apply always_of_step _ ops ⟨rfl, queueInv_init⟩
  intro s op s' hs hstep
  obtain ⟨hfree, hinv⟩ := hs
  rw [eq_free hfree] at hstep
  obtain ⟨v', hv', hqueue⟩ := lockStep_free op s.val (taskLeft_of_returns hstep)
  obtain rfl := Option.some.inj (hv'.symm.trans hstep)
  exact ⟨rfl, hqueue.inv hinv⟩

/-- A run takes the lock once at a time exactly when the timer that switches
the clocks off always finds a task. -/
theorem locksOnce_iff (soc : Soc) (msecsToJiffies : Nat → BitVec 64)
    (v : EngineState) (ops : List EngineLockOp) :
    Completes (lockStep soc msecsToJiffies) (ReturnsUnlocked soc) ops (free v) ↔
      Meets (lockStep soc msecsToJiffies) TaskLeft ops (free v) := by
  apply completes_iff_meets (I := fun s => s.held = false) _ _ rfl
  · intro s op hfree
    rw [eq_free hfree]
    constructor
    · intro hreturns
      obtain ⟨s', hstep, -⟩ := hreturns
      exact taskLeft_of_returns hstep
    · intro hleft
      obtain ⟨v', hstep, -⟩ := lockStep_free op s.val hleft
      refine ⟨free v', hstep, rfl, fun jiffies hop hnone => ?_,
        fun jiffies hop hleft' => ?_⟩
      · exact absurd hnone (hleft jiffies hop)
      · rw [hop] at hstep
        rw [← Option.some.inj
          ((cedarEngineForTimerRel_left jiffies hleft').symm.trans hstep)]
        rfl
  · intro s op s' hfree hstep
    rw [eq_free hfree] at hstep
    obtain ⟨v', hv', -⟩ := lockStep_free op s.val (taskLeft_of_returns hstep)
    rw [← Option.some.inj (hv'.symm.trans hstep)]
    rfl

/-- One task is requested and released, and the timer deletes it.  When the
other timer runs, it waits for the lock that it holds. -/
theorem idleShutdown_hangs :
    (∃ s, run (lockStep .other (BitVec.ofNat 64))
        [.req true true ⟨0, 1, 5, 10, 0⟩ 7 0 0 fun _ => true, .rel 1 20,
          .events fun _ => 20] (free ⟨TaskQueue.init, Engine.init⟩) = some s ∧
      s.held = false ∧ s.val.queue.runTaskList = [] ∧
      s.val.queue.cedarEngineTimerRel = some 10020 ∧
      s.val.engine.clkStatus = true) ∧
    ¬ Completes (lockStep .other (BitVec.ofNat 64)) (ReturnsUnlocked .other)
        [.req true true ⟨0, 1, 5, 10, 0⟩ 7 0 0 fun _ => true, .rel 1 20,
          .events fun _ => 20, .timerRel 10020]
        (free ⟨TaskQueue.init, Engine.init⟩) := by
  constructor
  · exact ⟨_, rfl, rfl, rfl, rfl, rfl⟩
  · intro h
    obtain ⟨s', hrun⟩ := h.run
    cases hrun

end LonganPi.Ve
