import LonganPi.Lib.Transition
import LonganPi.Ve.TaskQueue

/-!
# The order of the engine tasks and their signals

The task at the head of `run_task_list` runs or is the first one of an empty
list.  The tasks behind it wait in the order of their priorities.

* `QueueInOrder` and `SignalsInOrder` are the two properties, about the list
  and about the signals that were sent for each task.
* `insert_inv`, `del_inv` and `events_inv` say what the three calls keep.
* `queue_runs` is the result for every sequence of calls.
-/

namespace LonganPi.Ve

open Transition StableQueue

variable {s : TaskQueue} {tasks tasks' : List CedarvEngineTask}

/-! ## What a sequence of calls keeps -/

/-- The tasks wait: none runs, none is a first task, and the one with the
higher priority or, with equal priorities, the older one is in front. -/
structure Waiting (tasks : List CedarvEngineTask) : Prop where
  idle : ∀ e ∈ tasks, e.running = false ∧ e.isFirstTask = false
  ordered : Ordered (fun e : CedarvEngineTask => e.t.taskPrio)
    CedarvEngineTask.serial tasks

/-- The lists between two calls. -/
structure QueueInOrder (s : TaskQueue) : Prop where
  head : ∀ e ∈ s.runTaskList.head?, e.running = true ∨ e.isFirstTask = true
  waiting : Waiting s.runTaskList.tail
  oneRunning : (s.runTaskList.filter (·.running)).length ≤ 1
  deleted : s.delTaskList = []

/-- The signals for one task, the oldest first. -/
def signalsOf (signals : List EngineSignal) (serial : Nat) : List TaskStatus :=
  (signals.filter fun sig => sig.serial == serial).map (·.siErrno)

/-- A task on the list has had one signal when it runs, and none when it does
not.  A task that has left the list has had one more, the last one, which is
not `TASK_INIT`. -/
structure SignalsInOrder (s : TaskQueue) : Prop where
  queued : ∀ e ∈ s.runTaskList,
    signalsOf s.signals e.serial = if e.running then [.init] else []
  left : ∀ n < s.inserted, (∀ e ∈ s.runTaskList, e.serial ≠ n) →
    ∃ final, final ≠ .init ∧ (signalsOf s.signals n = [final] ∨
      signalsOf s.signals n = [.init, final])

/-- The serials tell the tasks apart. -/
structure SerialsKnown (s : TaskQueue) : Prop where
  nodup : (s.runTaskList.map CedarvEngineTask.serial).Nodup
  lt : ∀ e ∈ s.runTaskList, e.serial < s.inserted
  future : ∀ n, s.inserted ≤ n → signalsOf s.signals n = []

/-- What every call keeps. -/
structure QueueInv (s : TaskQueue) : Prop where
  order : QueueInOrder s
  signals : SignalsInOrder s
  serials : SerialsKnown s

/-! ## Lists -/

theorem Waiting.sublist (h : Waiting tasks) (hsub : tasks'.Sublist tasks) :
    Waiting tasks' where
  idle e he := h.idle e (hsub.subset he)
  ordered := h.ordered.sublist hsub

/-- At most the head runs. -/
theorem Waiting.oneRunning (h : Waiting tasks.tail) :
    (tasks.filter (·.running)).length ≤ 1 := by
  cases tasks with
  | nil => exact Nat.zero_le 1
  | cons e es =>
    have hnone : es.filter (·.running) = [] := by
      rw [List.filter_eq_nil_iff]
      intro t ht
      rw [(h.idle t ht).1]
      decide
    rw [List.filter_cons, hnone]
    split_ifs
    · exact Nat.le_refl 1
    · exact Nat.zero_le 1

/-- Tasks that are equal apart from their status. -/
theorem apartStatus_eq {e e' : CedarvEngineTask}
    (h : apartStatus e' = apartStatus e) :
    e'.running = e.running ∧ e'.isFirstTask = e.isFirstTask ∧
      e'.serial = e.serial := by
  have hrunning : (apartStatus e').running = (apartStatus e).running := by rw [h]
  have hfirst : (apartStatus e').isFirstTask = (apartStatus e).isFirstTask := by
    rw [h]
  have hserial : (apartStatus e').serial = (apartStatus e).serial := by rw [h]
  exact ⟨hrunning, hfirst, hserial⟩

theorem mem_of_apartStatus {e : CedarvEngineTask}
    (h : tasks'.map apartStatus = tasks.map apartStatus) (he : e ∈ tasks') :
    ∃ e' ∈ tasks, e'.running = e.running ∧ e'.isFirstTask = e.isFirstTask ∧
      e'.serial = e.serial := by
  have hin : apartStatus e ∈ tasks.map apartStatus := by
    rw [← h]
    exact List.mem_map_of_mem he
  obtain ⟨e', he', hsame⟩ := List.mem_map.mp hin
  exact ⟨e', he', apartStatus_eq hsame⟩

/-- A status does not matter to the order. -/
theorem Waiting.congr (hq : Waiting tasks)
    (h : tasks'.map apartStatus = tasks.map apartStatus) : Waiting tasks' where
  idle e he := by
    obtain ⟨e', he', hrunning, hfirst, -⟩ := mem_of_apartStatus h he
    rw [← hrunning, ← hfirst]
    exact hq.idle e' he'
  ordered := by
    have hmap : ∀ q : List CedarvEngineTask,
        Ordered (fun e : CedarvEngineTask => e.t.taskPrio)
            CedarvEngineTask.serial (q.map apartStatus) ↔
          Ordered (fun e : CedarvEngineTask => e.t.taskPrio)
            CedarvEngineTask.serial q := fun q => List.pairwise_map
    rw [← hmap, h, hmap]
    exact hq.ordered

/-! ## Signals -/

theorem signalsOf_append (sent sent' : List EngineSignal) (n : Nat) :
    signalsOf (sent ++ sent') n = signalsOf sent n ++ signalsOf sent' n := by
  unfold signalsOf
  rw [List.filter_append, List.map_append]

theorem signalsOf_of_ne {sent : List EngineSignal} {n : Nat}
    (h : ∀ sig ∈ sent, sig.serial ≠ n) : signalsOf sent n = [] := by
  unfold signalsOf
  rw [List.map_eq_nil_iff, List.filter_eq_nil_iff]
  intro sig hsig
  rw [beq_iff_eq]
  exact h sig hsig

theorem signalsOf_one (sig : EngineSignal) (n : Nat) :
    signalsOf [sig] n = if sig.serial = n then [sig.siErrno] else [] := by
  unfold signalsOf
  by_cases h : sig.serial = n
  · simp [h]
  · simp [h]

/-- The signals for tasks that expire. -/
theorem flatMap_delSignal (del : List CedarvEngineTask)
    (h : ∀ e ∈ del, e.status ≠ .init) :
    del.flatMap delSignal
      = del.map fun e => ⟨e.taskHandle, e.t.id, e.status, e.serial⟩ := by
  induction del with
  | nil => rfl
  | cons e es ih =>
    have hone : delSignal e = [⟨e.taskHandle, e.t.id, e.status, e.serial⟩] := by
      have hstatus := h e List.mem_cons_self
      unfold delSignal
      cases hcase : e.status with
      | init => exact absurd hcase hstatus
      | timeout => rfl
      | release => rfl
    rw [List.flatMap_cons, hone, List.map_cons,
      ih fun t ht => h t (List.mem_cons_of_mem _ ht)]
    rfl

/-- A task that is deleted gets one signal. -/
theorem signalsOf_deleted {gone : List CedarvEngineTask} {e : CedarvEngineTask}
    (hnd : (gone.map CedarvEngineTask.serial).Nodup) (he : e ∈ gone) :
    signalsOf ((gone.map expired).reverse.flatMap delSignal) e.serial
      = [(expired e).status] := by
  have hstatus : ∀ t ∈ (gone.map expired).reverse, t.status ≠ .init := by
    intro t ht
    obtain ⟨t', -, rfl⟩ := List.mem_map.mp (List.mem_reverse.mp ht)
    exact expired_status t'
  have hserials : ((gone.map expired).reverse.map
      CedarvEngineTask.serial).Nodup := by
    rw [List.map_reverse, List.nodup_reverse, List.map_map,
      show CedarvEngineTask.serial ∘ expired = CedarvEngineTask.serial from
        funext expired_serial]
    exact hnd
  have hin : expired e ∈ (gone.map expired).reverse :=
    List.mem_reverse.mpr (List.mem_map_of_mem he)
  have hkey := filter_key hserials hin
  rw [expired_serial] at hkey
  unfold signalsOf
  rw [flatMap_delSignal _ hstatus, List.filter_map]
  simp only [Function.comp_def, hkey, List.map_cons, List.map_nil]

theorem signalsOf_not_deleted {gone : List CedarvEngineTask} {n : Nat}
    (h : ∀ e ∈ gone, e.serial ≠ n) :
    signalsOf ((gone.map expired).reverse.flatMap delSignal) n = [] := by
  apply signalsOf_of_ne
  intro sig hsig
  obtain ⟨t, ht, hsig'⟩ := List.mem_flatMap.mp hsig
  obtain ⟨e, he, rfl⟩ := List.mem_map.mp (List.mem_reverse.mp ht)
  have hserial : sig.serial = e.serial := by
    unfold delSignal at hsig'
    split at hsig'
    · rw [List.mem_singleton.mp hsig']
      exact expired_serial e
    · rw [List.mem_singleton.mp hsig']
      exact expired_serial e
    · cases hsig'
  rw [hserial]
  exact h e he

/-! ## Insert -/

/-- The new task is the only one, or it waits behind the head. -/
theorem insert_order (t : CedarvTask) (taskHandle : Nat) (jiffies : BitVec 64)
    (hinv : QueueInv s) :
    QueueInOrder (cedardevInsertTask (newEngineTask t taskHandle s.inserted)
      jiffies s) := by
  have hhead := hinv.order.head
  have hwaiting := hinv.order.waiting
  have hlt := hinv.serials.lt
  unfold cedardevInsertTask
  cases htasks : s.runTaskList with
  | nil =>
    simp only [if_true, insertBefore_nil]
    have hnone : Waiting [] := ⟨by simp, List.Pairwise.nil⟩
    exact ⟨fun e he => Or.inr (by rw [← Option.some.inj he]), hnone,
      Waiting.oneRunning hnone, hinv.order.deleted⟩
  | cons e es =>
    rw [htasks] at hhead hwaiting hlt
    have hfront := hhead e rfl
    rw [List.tail_cons] at hwaiting
    simp only [reduceCtorEq, if_false]
    generalize hnew : newEngineTask t taskHandle s.inserted = new
    have hskip : stopsAt new e = false := by
      unfold stopsAt
      rcases hfront with hrunning | hfirst
      · simp [hrunning]
      · simp [hfirst]
    have hpick : ∀ y ∈ es,
        stopsAt new y = true ↔ y.t.taskPrio < new.t.taskPrio := by
      intro y hy
      unfold stopsAt
      simp [(hwaiting.idle y hy).1, (hwaiting.idle y hy).2]
    have hage : ∀ y ∈ es, y.serial < new.serial := by
      intro y hy
      rw [← hnew]
      exact hlt y (List.mem_cons_of_mem _ hy)
    have hwaiting' : Waiting (insertBefore (stopsAt new) new es) := by
      refine ⟨fun y hy => ?_, hwaiting.ordered.insertBefore hpick hage⟩
      rcases mem_insertBefore.mp hy with rfl | hin
      · rw [← hnew]
        exact ⟨rfl, rfl⟩
      · exact hwaiting.idle y hin
    rw [insertBefore_cons_of_not _ _ hskip]
    refine ⟨fun y hy => ?_, hwaiting', Waiting.oneRunning hwaiting',
      hinv.order.deleted⟩
    rw [← Option.some.inj hy]
    exact hfront

theorem insert_inv (t : CedarvTask) (taskHandle : Nat) (jiffies : BitVec 64)
    (hinv : QueueInv s) :
    QueueInv (cedardevInsertTask (newEngineTask t taskHandle s.inserted)
      jiffies s) := by
  refine ⟨insert_order t taskHandle jiffies hinv, ?_, ?_⟩
  all_goals
    unfold cedardevInsertTask
    generalize hnew : (if s.runTaskList = []
      then { newEngineTask t taskHandle s.inserted with isFirstTask := true }
      else newEngineTask t taskHandle s.inserted) = new
    have hserial : new.serial = s.inserted ∧ new.running = false := by
      rw [← hnew]
      split_ifs <;> exact ⟨rfl, rfl⟩
    dsimp only
  · constructor
    · intro e he
      rcases mem_insertBefore.mp he with rfl | hin
      · rw [hserial.1, hserial.2, hinv.serials.future _ (Nat.le_refl _)]
        rfl
      · exact hinv.signals.queued e hin
    · intro n hn hnot
      have hother : n ≠ s.inserted := by
        intro hsame
        exact hnot new (mem_insertBefore.mpr (Or.inl rfl))
          (hserial.1.trans hsame.symm)
      exact hinv.signals.left n (by dsimp only at hn; omega)
        fun e he => hnot e (mem_insertBefore.mpr (Or.inr he))
  · constructor
    · rw [((insertBefore_perm _ _ _).map _).nodup_iff, List.map_cons,
        List.nodup_cons]
      refine ⟨fun hin => ?_, hinv.serials.nodup⟩
      obtain ⟨e, he, hsame⟩ := List.mem_map.mp hin
      have hlt := hinv.serials.lt e he
      rw [hsame, hserial.1] at hlt
      exact Nat.lt_irrefl _ hlt
    · intro e he
      rcases mem_insertBefore.mp he with rfl | hin
      · rw [hserial.1]
        exact Nat.lt_succ_self _
      · exact Nat.lt_succ_of_lt (hinv.serials.lt e hin)
    · intro n hn
      exact hinv.serials.future n (by dsimp only at hn; omega)

/-! ## Delete -/

/-- A call that changes nothing but the status of tasks. -/
theorem QueueInv.of_apartStatus {timer : Option (BitVec 64)}
    (hinv : QueueInv s)
    (h : tasks'.map apartStatus = s.runTaskList.map apartStatus) :
    QueueInv { s with runTaskList := tasks', cedarEngineTimer := timer } := by
  have htail : tasks'.tail.map apartStatus
      = s.runTaskList.tail.map apartStatus := by
    rw [List.map_tail, List.map_tail, h]
  have hwaiting : Waiting tasks'.tail := hinv.order.waiting.congr htail
  have hserials : tasks'.map CedarvEngineTask.serial
      = s.runTaskList.map CedarvEngineTask.serial := by
    have hmap := congrArg (List.map CedarvEngineTask.serial) h
    rw [List.map_map, List.map_map] at hmap
    exact hmap
  refine ⟨⟨?_, hwaiting, hwaiting.oneRunning, hinv.order.deleted⟩,
    ⟨?_, ?_⟩, ⟨?_, ?_, hinv.serials.future⟩⟩
  · intro e he
    have hhead := congrArg List.head? h
    rw [List.head?_map, List.head?_map] at hhead
    dsimp only at he
    rw [Option.mem_def.mp he, Option.map_some] at hhead
    obtain ⟨e', he', hsame⟩ := Option.map_eq_some_iff.mp hhead.symm
    obtain ⟨hrunning, hfirst, -⟩ := apartStatus_eq hsame
    rw [← hrunning, ← hfirst]
    exact hinv.order.head e' he'
  · intro e he
    obtain ⟨e', he', hrunning, -, hserial⟩ := mem_of_apartStatus h he
    rw [← hserial, ← hrunning]
    exact hinv.signals.queued e' he'
  · intro n hn hnot
    refine hinv.signals.left n hn fun e he => ?_
    obtain ⟨e', he', -, -, hserial⟩ := mem_of_apartStatus h.symm he
    rw [← hserial]
    exact hnot e' he'
  · rw [hserials]
    exact hinv.serials.nodup
  · intro e he
    obtain ⟨e', he', -, -, hserial⟩ := mem_of_apartStatus h he
    rw [← hserial]
    exact hinv.serials.lt e' he'

theorem del_inv (taskId : Int) (jiffies : BitVec 64) (hinv : QueueInv s) :
    QueueInv (cedardevDelTask taskId jiffies s).1 := by
  unfold cedardevDelTask
  cases hmark : markRelease taskId s.runTaskList with
  | none => exact hinv
  | some tasks => exact hinv.of_apartStatus (markRelease_spec hmark)

/-! ## The timer -/

/-- The lists when the tasks of `gone` have been deleted. -/
def leaveQueue (tasks gone : List CedarvEngineTask)
    (timerRel : Option (BitVec 64)) (s : TaskQueue) : TaskQueue :=
  { s with
    runTaskList := tasks
    delTaskList := []
    cedarEngineTimerRel := timerRel
    signals := s.signals ++ (gone.map expired).reverse.flatMap delSignal }

section Leave

variable {gone : List CedarvEngineTask} {timerRel : Option (BitVec 64)}

/-- A task that stays gets no signal, and one that leaves gets its last one. -/
theorem leave_signals (hinv : QueueInv s)
    (hperm : (tasks ++ gone).Perm s.runTaskList) :
    SignalsInOrder (leaveQueue tasks gone timerRel s) := by
  have hnd := hinv.serials.nodup
  rw [← (hperm.map _).nodup_iff, List.map_append, List.nodup_append] at hnd
  obtain ⟨-, hleave, hapart⟩ := hnd
  constructor
  · intro e he
    have hnone : ∀ e' ∈ gone, e'.serial ≠ e.serial := fun e' he' hsame =>
      hapart e.serial (List.mem_map_of_mem he) e'.serial
        (List.mem_map_of_mem he') hsame.symm
    unfold leaveQueue
    rw [signalsOf_append, signalsOf_not_deleted hnone, List.append_nil]
    exact hinv.signals.queued e
      (hperm.mem_iff.mp (List.mem_append.mpr (Or.inl he)))
  · intro n hn hnot
    unfold leaveQueue
    rw [signalsOf_append]
    by_cases hleft : ∃ e ∈ gone, e.serial = n
    · obtain ⟨e, he, rfl⟩ := hleft
      have hold := hinv.signals.queued e
        (hperm.mem_iff.mp (List.mem_append.mpr (Or.inr he)))
      refine ⟨(expired e).status, expired_status e, ?_⟩
      rw [signalsOf_deleted hleave he, hold]
      by_cases hrunning : e.running = true
      · rw [if_pos hrunning]
        exact Or.inr rfl
      · rw [if_neg hrunning]
        exact Or.inl rfl
    · have hnone : ∀ e ∈ gone, e.serial ≠ n := fun e he hsame =>
        hleft ⟨e, he, hsame⟩
      rw [signalsOf_not_deleted hnone, List.append_nil]
      refine hinv.signals.left n hn fun e he => ?_
      rcases List.mem_append.mp (hperm.mem_iff.mpr he) with hstay | hmoved
      · exact hnot e hstay
      · exact hnone e hmoved

theorem leave_serials (hinv : QueueInv s)
    (hperm : (tasks ++ gone).Perm s.runTaskList) :
    SerialsKnown (leaveQueue tasks gone timerRel s) where
  nodup := by
    have hnd := hinv.serials.nodup
    rw [← (hperm.map _).nodup_iff, List.map_append, List.nodup_append] at hnd
    exact hnd.1
  lt e he := hinv.serials.lt e
    (hperm.mem_iff.mp (List.mem_append.mpr (Or.inl he)))
  future n hn := by
    have hnone : ∀ e ∈ gone, e.serial ≠ n := by
      intro e he hsame
      have hlt := hinv.serials.lt e
        (hperm.mem_iff.mp (List.mem_append.mpr (Or.inr he)))
      have hge : s.inserted ≤ n := hn
      omega
    unfold leaveQueue
    rw [signalsOf_append, hinv.serials.future n hn,
      signalsOf_not_deleted hnone]
    rfl

end Leave

/-- The head starts, and has its first signal then. -/
theorem start_inv {e : CedarvEngineTask} {es : List CedarvEngineTask}
    {timer : Option (BitVec 64)} (htasks : s.runTaskList = e :: es)
    (hrunning : e.running = false) (hwaiting : Waiting es)
    (hdel : s.delTaskList = []) (hsignals : SignalsInOrder s)
    (hserials : SerialsKnown s) :
    QueueInv { s with
      runTaskList := { e with running := true } :: es
      signals := s.signals ++ [⟨e.taskHandle, e.t.id, .init, e.serial⟩]
      cedarEngineTimer := timer } := by
  have hqueued := hsignals.queued
  have hleft := hsignals.left
  have hnd := hserials.nodup
  have hlt := hserials.lt
  rw [htasks] at hqueued hleft hnd hlt
  have hold : signalsOf s.signals e.serial = [] := by
    rw [hqueued e List.mem_cons_self, if_neg (by rw [hrunning]; decide)]
  have hother : ∀ y ∈ es, e.serial ≠ y.serial := by
    intro y hy hsame
    rw [List.map_cons, List.nodup_cons, hsame] at hnd
    exact hnd.1 (List.mem_map_of_mem hy)
  refine ⟨⟨?_, hwaiting, Waiting.oneRunning hwaiting, hdel⟩, ⟨?_, ?_⟩,
    ⟨hnd, ?_, ?_⟩⟩
  · intro y hy
    rw [← Option.some.inj hy]
    exact Or.inl rfl
  · intro y hy
    dsimp only at hy ⊢
    rw [signalsOf_append, signalsOf_one]
    rcases List.mem_cons.mp hy with rfl | hin
    · dsimp only
      rw [hold, if_pos rfl]
      rfl
    · rw [if_neg (hother y hin), List.append_nil]
      exact hqueued y (List.mem_cons_of_mem _ hin)
  · intro n hn hnot
    have hne : e.serial ≠ n :=
      hnot { e with running := true } List.mem_cons_self
    dsimp only
    rw [signalsOf_append, signalsOf_one, if_neg hne, List.append_nil]
    refine hleft n hn fun y hy => ?_
    rcases List.mem_cons.mp hy with rfl | hin
    · exact hne
    · exact hnot y (List.mem_cons_of_mem _ hin)
  · intro y hy
    rcases List.mem_cons.mp hy with rfl | hin
    · exact hlt e List.mem_cons_self
    · exact hlt y (List.mem_cons_of_mem _ hin)
  · intro n hn
    have hne : e.serial ≠ n := by
      have hlt' := hlt e List.mem_cons_self
      dsimp only at hn
      omega
    dsimp only
    rw [signalsOf_append, signalsOf_one, if_neg hne, hserials.future n hn]
    rfl

theorem startHead_inv (circle : BitVec 64)
    (hwaiting : Waiting s.runTaskList.tail) (hdel : s.delTaskList = [])
    (hsignals : SignalsInOrder s) (hserials : SerialsKnown s) :
    QueueInv (startHead circle s) := by
  unfold startHead
  cases htasks : s.runTaskList with
  | nil =>
    refine ⟨⟨?_, hwaiting, hwaiting.oneRunning, hdel⟩, hsignals, hserials⟩
    rw [htasks]
    simp
  | cons e es =>
    dsimp only
    by_cases hrunning : e.running = false
    · rw [htasks, List.tail_cons] at hwaiting
      rw [if_pos hrunning]
      exact start_inv htasks hrunning hwaiting hdel hsignals hserials
    · rw [if_neg hrunning]
      refine ⟨⟨?_, hwaiting, hwaiting.oneRunning, hdel⟩,
        ⟨hsignals.queued, hsignals.left⟩,
        ⟨hserials.nodup, hserials.lt, hserials.future⟩⟩
      dsimp only
      rw [htasks]
      intro y hy
      rw [← Option.some.inj hy]
      exact Or.inl (Bool.not_eq_false _ ▸ hrunning)

theorem events_inv (msecsToJiffies now : Nat → BitVec 64) (hinv : QueueInv s) :
    QueueInv (cedarEngineForEvents msecsToJiffies now s) := by
  obtain ⟨gone, hsub, hperm, hdel⟩ := sweepRunList_spec
    (msecsToJiffies clkRelTime) now 0 s.runTaskList [] s.cedarEngineTimerRel
  unfold cedarEngineForEvents
  dsimp only
  rw [hinv.order.deleted, hdel, List.append_nil]
  exact startHead_inv _ (hinv.order.waiting.sublist hsub.tail) rfl
    (leave_signals hinv hperm) (leave_serials hinv hperm)

/-! ## Every sequence of calls -/

theorem queueInv_init : QueueInv TaskQueue.init where
  order := ⟨by simp [TaskQueue.init], ⟨by simp [TaskQueue.init],
    List.Pairwise.nil⟩, Nat.zero_le 1, rfl⟩
  signals := ⟨by simp [TaskQueue.init], by simp [TaskQueue.init]⟩
  serials := ⟨List.nodup_nil, by simp [TaskQueue.init], fun _ _ => rfl⟩

theorem queueStep_inv {msecsToJiffies : Nat → BitVec 64} {op : QueueOp}
    {s' : TaskQueue} (hinv : QueueInv s)
    (hstep : queueStep msecsToJiffies s op = some s') : QueueInv s' := by
  cases op with
  | insert t taskHandle jiffies =>
    obtain rfl := Option.some.inj hstep
    exact insert_inv t taskHandle jiffies hinv
  | del taskId jiffies =>
    obtain rfl := Option.some.inj hstep
    exact del_inv taskId jiffies hinv
  | events now =>
    obtain rfl := Option.some.inj hstep
    exact events_inv msecsToJiffies now hinv

/-- In every sequence of calls the lists are in order, and every task has its
signals. -/
theorem queue_runs (msecsToJiffies : Nat → BitVec 64) (ops : List QueueOp) :
    Always (queueStep msecsToJiffies)
      (fun s => QueueInOrder s ∧ SignalsInOrder s) ops TaskQueue.init :=
  (always_of_step (fun _ _ _ hinv hstep => queueStep_inv hinv hstep) ops
    queueInv_init).mono fun _ hinv => ⟨hinv.order, hinv.signals⟩

end LonganPi.Ve
