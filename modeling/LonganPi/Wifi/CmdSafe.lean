import LonganPi.Wifi.CmdHold

/-!
# One request at a time

* `cmds_one_outstanding`: in every run in which no thread is killed and the
  firmware confirms only what was sent, at most one command of the queue was
  sent, and until a crash somebody waits for it.  The count of the queue is
  right, and no command is on it twice.  What is sent past the queue changes
  none of this.
-/

namespace LonganPi.Wifi

open CmdMgr

variable {forced : Nat → Bool} {m m' : CmdMgr} {slot s t : Nat}

/-- A confirmation for the command can come: it was sent. -/
def CmdMgr.Sent (m : CmdMgr) (slot : Nat) : Prop :=
  (m.cmdArray slot).waitPush = false ∧ ∀ t, m.callers t ≠ .pushing slot

/-- No thread is killed, and the firmware confirms only what was sent. -/
def Orderly (m : CmdMgr) : CmdEvent → Prop
  | .kill _ => False
  | .cfm msgId accepts => ∀ slot, m.findCfm msgId accepts = some slot → m.Sent slot
  | _ => True

/-! ## What a confirmation and a timeout change -/

/-- What a confirmation leaves in the command. -/
def RwnxCmd.confirmed (cmd : RwnxCmd) : RwnxCmd :=
  { cmd with waitCfm := false, done := true, result := 0, complete := true }

/-- What a timeout leaves in the command.  The completion is not signalled, as the
command still waits for its confirmation. -/
def RwnxCmd.timedOut (cmd : RwnxCmd) : RwnxCmd :=
  { cmd with result := eTimedout, done := true }

theorem confirm_eq (m : CmdMgr) (s : Nat) :
    m.confirm s = { m with
      cmds := m.cmds.erase s, queueSz := m.queueSz - 1
      cmdArray := Function.update m.cmdArray s (m.cmdArray s).confirmed } := by
  simp only [confirm, cmdComplete, modifyCmd, Function.update_self, Function.update_idem,
    Bool.false_eq_true, if_false]
  rfl

theorem cmdTimeout_crashed (m : CmdMgr) (s : Nat) : (m.cmdTimeout s).crashed = true := by
  unfold cmdTimeout cmdComplete
  simp only
  split_ifs <;> rfl

theorem cmdTimeout_of_done (hdone : (m.cmdArray s).done = true) :
    m.cmdTimeout s = { m with crashed := true } := if_pos hdone

theorem cmdTimeout_eq (hdone : (m.cmdArray s).done = false)
    (hcfm : (m.cmdArray s).waitCfm = true) :
    m.cmdTimeout s = { m with
      crashed := true, cmds := m.cmds.erase s, queueSz := m.queueSz - 1
      cmdArray := Function.update m.cmdArray s (m.cmdArray s).timedOut } := by
  simp only [cmdTimeout, hdone, cmdComplete, modifyCmd, Function.update_self,
    Function.update_idem, Bool.false_eq_true, if_false, hcfm, if_true, RwnxCmd.timedOut]

/-- Sending changes only what was sent. -/
theorem aicwfSetCmdTx_eq (m : CmdMgr) (s : Nat) (reqcfm : Bool) :
    m.aicwfSetCmdTx s reqcfm = { m with
      sent := if m.usbUp then m.sent ++ [((m.cmdArray s).msgId, reqcfm)] else m.sent } := by
  unfold aicwfSetCmdTx
  split_ifs <;> rfl

theorem findCfm_mem {msgId : Nat} {accepts : Nat → Bool}
    (h : m.findCfm msgId accepts = some slot) : slot ∈ m.cmds :=
  List.mem_of_find?_eq_some h

theorem rwnxCmdMalloc_unused (h : m.rwnxCmdMalloc = some slot) :
    (m.cmdArray slot).used = false := by
  have hfound := List.find?_some h
  simpa only [Bool.not_eq_true'] using hfound

/-- A queue that takes a command has not crashed and has room. -/
theorem QueueOk.room (h : QueueOk m) (hfull : m.refuses = false) :
    m.crashed = false ∧ m.cmds.length < 16 := by
  unfold refuses at hfull
  rw [Bool.or_eq_false_iff, Bool.and_eq_false_iff] at hfull
  refine ⟨hfull.1, Nat.lt_of_le_of_ne h.bound fun hlen => ?_⟩
  rcases hfull.2 with hempty | hsz
  · rw [Bool.not_eq_false', List.isEmpty_iff] at hempty
    rw [hempty] at hlen
    cases hlen
  · rw [h.size, hlen] at hsz
    cases hsz

/-- Every command of the queue waits for its confirmation, so only an empty queue
takes a command without deferring it. -/
theorem QueueOk.lastWaits_eq_false (h : QueueOk m) (hlast : m.lastWaits = false) :
    m.cmds = [] := by
  unfold lastWaits at hlast
  split at hlast
  · next hnone => exact List.getLast?_eq_none_iff.mp hnone
  · next last hsome =>
    rw [h.waitCfm last (List.mem_of_getLast? hsome), Bool.or_true] at hlast
    cases hlast

theorem mem_append_singleton_of_ne {l : List Nat} (h : s ≠ slot) :
    s ∈ l ++ [slot] ↔ s ∈ l := by
  rw [List.mem_append, List.mem_singleton]
  exact or_iff_left h

theorem head?_append_of_head? {l l' : List Nat} (h : l.head? = some s) :
    (l ++ l').head? = some s := by
  rw [List.head?_append, h]
  rfl

theorem head?_erase_of_head? {l : List Nat} (hne : s ≠ slot) (h : l.head? = some s) :
    (l.erase slot).head? = some s := by
  cases l with
  | nil => cases h
  | cons a l =>
    have ha : a = s := Option.some.inj h
    rw [List.erase_cons_tail (by rw [beq_iff_eq, ha]; exact hne), ha]
    rfl

/-! ## Each move -/

/-- The queue and the holds are in order. -/
structure CmdMgrOk (m : CmdMgr) : Prop where
  queue : QueueOk m
  holds : HoldOk m

theorem cmdMgrOk_init : CmdMgrOk rwnxCmdMgrInit := ⟨queueOk_init, holdOk_init⟩

namespace CmdMgrOk

theorem congr (h : CmdMgrOk m) (hhold : m'.hold = m.hold) (hcmds : m'.cmds = m.cmds)
    (hsz : m'.queueSz = m.queueSz) (harr : m'.cmdArray = m.cmdArray)
    (hcr : m'.crashed = m.crashed) : CmdMgrOk m' :=
  ⟨h.queue.congr hcmds hsz harr, h.holds.congr hhold hcmds harr hcr⟩

/-- The worker is woken. -/
theorem wakeIf (h : CmdMgrOk m) (c : Bool) : CmdMgrOk (m.wakeIf c) := by
  cases c with
  | false => exact h
  | true => exact h.congr rfl rfl rfl rfl rfl

/-- A hold that stays what it is. -/
theorem hold_congr {x y : Caller} (hcaller : m.callers t = x)
    (hcallers : m'.callers = Function.update m.callers t y) (hxy : x.hold = y.hold)
    (hworker : m'.worker = m.worker) : m'.hold = m.hold := by
  funext j
  cases j with
  | none => exact congrArg Worker.hold hworker
  | some t' =>
    show (m'.callers t').hold = (m.callers t').hold
    rw [hcallers]
    by_cases ht : t' = t
    · rw [ht, Function.update_self, hcaller, hxy]
    · rw [Function.update_of_ne ht]

theorem alloc (h : CmdMgrOk m) {msgId reqid : Nat} {e2aMsg : Bool} {call : SendCall}
    (hcaller : m.callers t = .idle) (hslot : m.rwnxCmdMalloc = some slot) :
    CmdMgrOk (((m.take slot msgId reqid e2aMsg).setCall t call).setCaller t
      (.allocated slot)) := by
  have hunused := rwnxCmdMalloc_unused hslot
  have hpush : (m.cmdArray slot).waitPush = false := by
    cases hp : (m.cmdArray slot).waitPush with
    | false => rfl
    | true =>
      rw [(h.queue.unsent slot hp).2] at hunused
      cases hunused
  have hcmds : m.crashed = false → slot ∉ m.cmds := by
    intro hcr hmem
    rw [h.holds.used hcr slot hmem] at hunused
    cases hunused
  have hsole : Sole m (some t) slot := by
    constructor
    · intro j hj
      rw [(h.holds.fits j).used hj] at hunused
      cases hunused
    · intro s hs
      rw [hold_some hcaller] at hs
      cases hs
  constructor
  · exact h.queue.update slot rfl rfl rfl rfl rfl rfl rfl fun _ => rfl
  · refine h.holds.caller t slot rfl rfl rfl (fun _ _ => Iff.rfl)
      (fun _ _ hs => hs) id hsole ?_ ?_ ?_ ?_
    · intro s hs
      exact (Option.some.inj hs).symm
    · intro hc
      refine ⟨?_, ?_, hcmds⟩
      · rw [hc]
      · rw [hc]
        exact hpush
    · intro hcr hmem
      exact absurd hmem (hcmds hcr)
    · intro _ _
      rfl

/-- A thread that moves on without a change of the commands. -/
theorem moveOn (h : CmdMgrOk m) {x y : Caller} (hcaller : m.callers t = x)
    (hcallers : m'.callers = Function.update m.callers t y) (hxy : x.hold = y.hold)
    (hworker : m'.worker = m.worker) (hcmds : m'.cmds = m.cmds) (hsz : m'.queueSz = m.queueSz)
    (harr : m'.cmdArray = m.cmdArray) (hcr : m'.crashed = m.crashed) : CmdMgrOk m' :=
  h.congr (hold_congr hcaller hcallers hxy hworker) hcmds hsz harr hcr

/-- A command that was changed is freed. -/
theorem free_cmdArray {m₁ : CmdMgr} {c : RwnxCmd}
    (harr : m₁.cmdArray = Function.update m.cmdArray slot c) :
    (m₁.rwnxCmdFree slot).cmdArray = Function.update m.cmdArray slot { c with used := false } := by
  simp only [rwnxCmdFree, modifyCmd, harr, Function.update_self, Function.update_idem]

theorem refuse_cmdArray (m : CmdMgr) (t slot : Nat) :
    (m.refuse t slot).cmdArray = Function.update m.cmdArray slot
      { m.cmdArray slot with used := false, result := m.refusal } := by
  simp only [CmdMgr.refuse, returnTo, setCaller, rwnxCmdFree, modifyCmd, Function.update_self,
    Function.update_idem]

/-- A thread frees a command that it has not queued. -/
theorem freed (h : CmdMgrOk m) {x : Caller} {c : RwnxCmd} (hcaller : m.callers t = x)
    (hx : x.hold = .fresh slot) (hcallers : m'.callers = Function.update m.callers t .idle)
    (hworker : m'.worker = m.worker) (hcmds : m'.cmds = m.cmds) (hsz : m'.queueSz = m.queueSz)
    (harr : m'.cmdArray = Function.update m.cmdArray slot c) (hcr : m'.crashed = m.crashed)
    (hpush : c.waitPush = (m.cmdArray slot).waitPush)
    (hcfm : c.waitCfm = (m.cmdArray slot).waitCfm)
    (hcomplete : c.complete = (m.cmdArray slot).complete)
    (hdone : c.done = (m.cmdArray slot).done) : CmdMgrOk m' := by
  have hfits := h.holds.fits (some t)
  rw [hold_some hcaller, hx] at hfits
  have hsole := h.holds.sole_of_caller hcaller (by rw [hx]; rfl)
  have hmem : ∀ s, s ≠ slot → (s ∈ m'.cmds ↔ s ∈ m.cmds) := fun s _ => by rw [hcmds]
  have hhead : ∀ s, s ≠ slot → m.cmds.head? = some s → m'.cmds.head? = some s :=
    fun s _ hs => by rw [hcmds]; exact hs
  have hnot : m'.crashed = false → slot ∉ m'.cmds := by
    intro hcr'
    rw [hcmds]
    exact hfits.2.2 (hcr ▸ hcr')
  constructor
  · refine h.queue.update slot hcmds hsz harr hpush hcfm hcomplete hdone fun hwait => ?_
    rw [hfits.2.1] at hwait
    cases hwait
  · refine h.holds.caller t slot hcallers hworker harr hmem hhead (fun hcr' => hcr ▸ hcr') hsole
      ?_ ?_ ?_ ?_
    · intro s hs
      cases hs
    · intro _
      trivial
    · intro hcr' hin
      exact absurd hin (hnot hcr')
    · intro hcr' hin
      exact absurd hin (hnot hcr')

theorem refuse (h : CmdMgrOk m) (hcaller : m.callers t = .ready slot) :
    CmdMgrOk (m.refuse t slot) :=
  h.freed hcaller rfl rfl rfl rfl rfl (refuse_cmdArray m t slot) rfl rfl rfl rfl rfl

theorem release (h : CmdMgrOk m) (hcaller : m.callers t = .passed slot) :
    CmdMgrOk ((m.rwnxCmdFree slot).returnTo t 0) :=
  h.freed hcaller rfl rfl rfl rfl rfl rfl rfl rfl rfl rfl rfl

/-- The command is put on the queue, and is left to the worker. -/
theorem defer (h : CmdMgrOk m) {x : Caller}
    (hcaller : m.callers t = .ready slot) (hfull : m.refuses = false)
    (hx : x.hold = .nothing) : CmdMgrOk ((m.enqueue slot true).setCaller t x) := by
  have hroom := h.queue.room hfull
  have hfits := h.holds.fits (some t)
  rw [hold_some hcaller] at hfits
  have hnew := hfits.2.2 hroom.1
  have hsole := h.holds.sole_of_caller hcaller rfl
  constructor
  · exact (h.queue.enqueue hnew hfits.1 hroom.2 (Or.inl rfl)).congr rfl rfl rfl
  · refine h.holds.caller t slot rfl rfl (cmdArray_enqueue m slot true)
      (fun _ hs => mem_append_singleton_of_ne hs) (fun _ _ hs => head?_append_of_head? hs) id
      hsole ?_ ?_ ?_ ?_
    · intro s hs
      rw [hx] at hs
      cases hs
    · intro _
      rw [hx]
      trivial
    · intro _ _ hpush
      have htrue : ((m.cmdArray slot).waitPush || true) = false := hpush
      rw [Bool.or_true] at htrue
      cases htrue
    · intro _ _
      exact hfits.1

/-- The command is put on an empty queue, and is sent by the thread. -/
theorem direct (h : CmdMgrOk m) (hcaller : m.callers t = .ready slot)
    (hfull : m.refuses = false) (hlast : m.lastWaits = false) :
    CmdMgrOk ((m.enqueue slot false).setCaller t (.pushing slot)) := by
  have hroom := h.queue.room hfull
  have hfits := h.holds.fits (some t)
  rw [hold_some hcaller] at hfits
  have hnew := hfits.2.2 hroom.1
  have hsole := h.holds.sole_of_caller hcaller rfl
  have hempty := h.queue.lastWaits_eq_false hlast
  constructor
  · exact (h.queue.enqueue hnew hfits.1 hroom.2 (Or.inr hempty)).congr rfl rfl rfl
  · refine h.holds.caller t slot rfl rfl (cmdArray_enqueue m slot false)
      (fun _ hs => mem_append_singleton_of_ne hs) (fun _ _ hs => head?_append_of_head? hs) id
      hsole ?_ ?_ ?_ ?_
    · intro s hs
      exact (Option.some.inj hs).symm
    · intro hc
      refine ⟨?_, ?_, List.mem_append.mpr (Or.inr (List.mem_singleton.mpr rfl))⟩
      · rw [hc]
        exact hfits.1
      · rw [hc]
        show ((m.cmdArray slot).waitPush || false) = false
        rw [hfits.2.1]
        rfl
    · intro _ _ _
      exact Or.inl rfl
    · intro _ _
      exact hfits.1

theorem wake (h : CmdMgrOk m) (hcaller : m.callers t = .deferring) (c : Bool) :
    CmdMgrOk ((m.returnTo t 0).wakeIf c) := by
  apply CmdMgrOk.wakeIf
  exact h.moveOn hcaller rfl rfl rfl rfl rfl rfl rfl

theorem push (h : CmdMgrOk m) (hcaller : m.callers t = .pushing slot) :
    CmdMgrOk ((m.aicwfSetCmdTx slot true).setCaller t (.waiting slot)) := by
  have hfits := h.holds.fits (some t)
  rw [hold_some hcaller] at hfits
  have hsole := h.holds.sole_of_caller hcaller rfl
  rw [aicwfSetCmdTx_eq]
  constructor
  · exact h.queue.congr rfl rfl rfl
  · refine h.holds.caller t slot rfl rfl (Function.update_eq_self slot m.cmdArray).symm
      (fun _ _ => Iff.rfl) (fun _ _ hs => hs) id hsole ?_ ?_ ?_ ?_
    · intro s hs
      exact (Option.some.inj hs).symm
    · intro _
      exact ⟨hfits.1, hfits.2.1, Or.inl hfits.2.2⟩
    · intro _ _ _
      exact Or.inr rfl
    · intro _ _
      exact hfits.1

/-- A command that is through is not on the queue. -/
theorem notMem_of_complete (h : CmdMgrOk m) (hcomplete : (m.cmdArray slot).complete = true) :
    slot ∉ m.cmds := by
  intro hmem
  rw [h.queue.pending slot hmem] at hcomplete
  cases hcomplete

theorem finish (h : CmdMgrOk m) (hcaller : m.callers t = .waiting slot)
    (hcomplete : (m.cmdArray slot).complete = true) (c : Bool) :
    CmdMgrOk (((m.rwnxCmdFree slot).returnTo t 0).wakeIf c) := by
  have hfits := h.holds.fits (some t)
  rw [hold_some hcaller] at hfits
  have hsole := h.holds.sole_of_caller hcaller rfl
  have hnot := h.notMem_of_complete hcomplete
  apply CmdMgrOk.wakeIf
  constructor
  · refine h.queue.update slot rfl rfl rfl rfl rfl rfl rfl fun hpush => ?_
    rw [hfits.2.1] at hpush
    cases hpush
  · refine h.holds.caller t slot rfl rfl rfl (fun _ _ => Iff.rfl)
      (fun _ _ hs => hs) id hsole ?_ ?_ ?_ ?_
    · intro s hs
      cases hs
    · intro _
      trivial
    · intro _ hmem
      exact absurd hmem hnot
    · intro _ hmem
      exact absurd hmem hnot

/-- The thread gives up, or the worker: the command leaves the queue if it is not
done. -/
theorem cmdTimeout_cases (h : CmdMgrOk m) (hfits : Fits m (.waiting slot)) :
    ((m.cmdArray slot).done = true ∧ m.cmdTimeout slot = { m with crashed := true }) ∨
    ((m.cmdArray slot).done = false ∧ slot ∈ m.cmds ∧
      m.cmdTimeout slot = { m with
        crashed := true, cmds := m.cmds.erase slot, queueSz := m.queueSz - 1
        cmdArray := Function.update m.cmdArray slot (m.cmdArray slot).timedOut }) := by
  cases hdone : (m.cmdArray slot).done with
  | true => exact Or.inl ⟨rfl, cmdTimeout_of_done hdone⟩
  | false =>
    have hmem : slot ∈ m.cmds := by
      rcases hfits.2.2 with hmem | hcomplete
      · exact hmem
      · rw [h.queue.done slot hcomplete] at hdone
        cases hdone
    exact Or.inr ⟨rfl, hmem, cmdTimeout_eq hdone (h.queue.waitCfm slot hmem)⟩

theorem timeout (h : CmdMgrOk m) (hcaller : m.callers t = .waiting slot) :
    CmdMgrOk (((m.cmdTimeout slot).rwnxCmdFree slot).returnTo t eTimedout) := by
  have hfits := h.holds.fits (some t)
  rw [hold_some hcaller] at hfits
  have hsole := h.holds.sole_of_caller hcaller rfl
  rcases h.cmdTimeout_cases hfits with ⟨_, heq⟩ | ⟨_, hmem, heq⟩
  · rw [heq]
    constructor
    · refine h.queue.update slot rfl rfl rfl rfl rfl rfl rfl fun hpush => ?_
      rw [hfits.2.1] at hpush
      cases hpush
    · exact h.holds.caller t slot rfl rfl rfl (fun _ _ => Iff.rfl)
        (fun _ _ hs => hs) nofun hsole nofun (fun _ => trivial) nofun nofun
  · rw [heq]
    constructor
    · exact h.queue.remove hmem hfits.2.1 rfl rfl (free_cmdArray rfl) hfits.2.1 rfl
    · exact h.holds.caller t slot rfl rfl (free_cmdArray rfl)
        (fun s hs => List.mem_erase_of_ne hs) (fun s hs hhead => head?_erase_of_head? hs hhead)
        nofun hsole nofun (fun _ => trivial) nofun nofun

/-- A confirmation for a command that was sent. -/
theorem confirm (h : CmdMgrOk m) (hmem : slot ∈ m.cmds) (hsent : m.Sent slot) :
    CmdMgrOk (m.confirm slot) := by
  rw [confirm_eq]
  have hnot : ∀ s, s ∈ m.cmds.erase slot → s ≠ slot := by
    rintro s hs rfl
    exact h.queue.nodup.not_mem_erase hs
  constructor
  · exact h.queue.remove hmem hsent.1 rfl rfl rfl hsent.1 rfl
  · have hf : Frame m { m with
        cmds := m.cmds.erase slot, queueSz := m.queueSz - 1
        cmdArray := Function.update m.cmdArray slot (m.cmdArray slot).confirmed } none slot :=
      { hold := fun _ _ => rfl
        cmd := fun s hs => Function.update_of_ne hs ..
        mem := fun s hs => List.mem_erase_of_ne hs
        head := fun s hs hhead => head?_erase_of_head? hs hhead
        crashed := id }
    have hself : Function.update m.cmdArray slot (m.cmdArray slot).confirmed slot
        = (m.cmdArray slot).confirmed := Function.update_self ..
    constructor
    · intro j
      have hfits := h.holds.fits j
      show Fits _ (m.hold j)
      by_cases hj : (m.hold j).slot? = some slot
      · cases hhold : m.hold j with
        | nothing => trivial
        | fresh s =>
          rw [hhold] at hj hfits
          rw [Option.some.inj hj] at hfits ⊢
          refine ⟨?_, ?_, fun hcr => absurd hmem (hfits.2.2 hcr)⟩
          · show (Function.update m.cmdArray slot _ slot).used = true
            rw [hself]
            exact hfits.1
          · show (Function.update m.cmdArray slot _ slot).waitPush = false
            rw [hself]
            exact hfits.2.1
        | chosen s =>
          rw [hhold] at hj hfits
          have hpush := hfits.2.1
          rw [Option.some.inj hj, hsent.1] at hpush
          cases hpush
        | pushing s =>
          rw [hhold] at hj
          obtain ⟨t, ht⟩ := hold_pushing hhold
          rw [Option.some.inj hj] at ht
          exact absurd ht (hsent.2 t)
        | waiting s =>
          rw [hhold] at hj hfits
          rw [Option.some.inj hj] at hfits ⊢
          refine ⟨?_, ?_, Or.inr ?_⟩
          · show (Function.update m.cmdArray slot _ slot).used = true
            rw [hself]
            exact hfits.1
          · show (Function.update m.cmdArray slot _ slot).waitPush = false
            rw [hself]
            exact hfits.2.1
          · show (Function.update m.cmdArray slot _ slot).complete = true
            rw [hself]
            rfl
      · exact hfits.of_frame hf hj
    · intro i j s hi hj
      exact h.holds.unique hi hj
    · intro hcr s hs hpush
      rw [hf.cmd s (hnot s hs)] at hpush
      exact h.holds.owner hcr s (List.mem_of_mem_erase hs) hpush
    · intro hcr s hs
      rw [hf.cmd s (hnot s hs)]
      exact h.holds.used hcr s (List.mem_of_mem_erase hs)

/-- The worker has no command before and after. -/
theorem hold_congr_worker (hcallers : m'.callers = m.callers)
    (hworker : m'.worker.hold = m.worker.hold) : m'.hold = m.hold := by
  funext j
  cases j with
  | none => exact hworker
  | some t => exact congrArg (fun c => (c t).hold) hcallers

/-- The worker takes up its work or stops. -/
theorem idleWorker (h : CmdMgrOk m) {w : Worker} (hw : w.hold = m.worker.hold) (b : Bool) :
    CmdMgrOk { m with workPending := b, worker := w } :=
  h.congr (hold_congr_worker rfl hw) rfl rfl rfl rfl

/-- A thread has no command that waits to be sent. -/
theorem waitPush_of_caller (h : CmdMgrOk m) (ht : (m.hold (some t)).slot? = some s) :
    (m.cmdArray s).waitPush = false := by
  have hfits := h.holds.fits (some t)
  cases hcaller : m.callers t with
  | idle =>
    rw [hold_some hcaller] at ht
    cases ht
  | allocated a =>
    rw [hold_some hcaller] at ht hfits
    exact Option.some.inj ht ▸ hfits.2.1
  | ready a =>
    rw [hold_some hcaller] at ht hfits
    exact Option.some.inj ht ▸ hfits.2.1
  | passed a =>
    rw [hold_some hcaller] at ht hfits
    exact Option.some.inj ht ▸ hfits.2.1
  | pushing a =>
    rw [hold_some hcaller] at ht hfits
    exact Option.some.inj ht ▸ hfits.2.1
  | deferring =>
    rw [hold_some hcaller] at ht
    cases ht
  | waiting a =>
    rw [hold_some hcaller] at ht hfits
    exact Option.some.inj ht ▸ hfits.2.1

theorem choose (h : CmdMgrOk m) (hworker : m.worker = .looping)
    (hhead : m.cmds.head? = some slot) (hpush : (m.cmdArray slot).waitPush = true) :
    CmdMgrOk { m with worker := .chosen slot } := by
  have hsole : Sole m none slot := by
    constructor
    · intro j hj
      cases j with
      | none => rfl
      | some t =>
        rw [h.waitPush_of_caller hj] at hpush
        cases hpush
    · intro s hs
      rw [hold_none hworker] at hs
      cases hs
  have hused := (h.queue.unsent slot hpush).2
  constructor
  · exact h.queue.congr rfl rfl rfl
  · refine h.holds.worker slot rfl rfl (Function.update_eq_self slot m.cmdArray).symm
      (fun _ _ => Iff.rfl) (fun _ _ hs => hs) id hsole ?_ ?_ ?_ ?_
    · intro s hs
      exact (Option.some.inj hs).symm
    · intro _
      exact ⟨hused, hpush, hhead⟩
    · intro _ _ hno
      rw [hpush] at hno
      cases hno
    · intro _ _
      exact hused

theorem workPush (h : CmdMgrOk m) (hworker : m.worker = .chosen slot) :
    CmdMgrOk
      { (m.modifyCmd slot fun cmd => { cmd with waitPush := false }).aicwfSetCmdTx slot true with
        worker := .waiting slot } := by
  have hfits := h.holds.fits none
  rw [hold_none hworker] at hfits
  have hsole := h.holds.sole_of_worker hworker rfl
  rw [aicwfSetCmdTx_eq]
  constructor
  · exact h.queue.push hfits.2.2 rfl rfl rfl rfl rfl rfl rfl
  · refine h.holds.worker slot rfl rfl rfl (fun _ _ => Iff.rfl) (fun _ _ hs => hs) id
      hsole ?_ ?_ ?_ ?_
    · intro s hs
      exact (Option.some.inj hs).symm
    · intro hc
      refine ⟨?_, ?_, Or.inl (List.mem_of_head? hfits.2.2)⟩
      · rw [hc]
        exact hfits.1
      · rw [hc]
    · intro _ _ _
      exact Or.inr rfl
    · intro _ _
      exact hfits.1

theorem workFinish (h : CmdMgrOk m) (hworker : m.worker = .waiting slot)
    (hcomplete : (m.cmdArray slot).complete = true) :
    CmdMgrOk { m.rwnxCmdFree slot with worker := .looping } := by
  have hfits := h.holds.fits none
  rw [hold_none hworker] at hfits
  have hsole := h.holds.sole_of_worker hworker rfl
  have hnot := h.notMem_of_complete hcomplete
  constructor
  · refine h.queue.update slot rfl rfl rfl rfl rfl rfl rfl fun hpush => ?_
    rw [hfits.2.1] at hpush
    cases hpush
  · refine h.holds.worker slot rfl rfl rfl (fun _ _ => Iff.rfl) (fun _ _ hs => hs) id
      hsole ?_ ?_ ?_ ?_
    · intro s hs
      cases hs
    · intro _
      trivial
    · intro _ hmem
      exact absurd hmem hnot
    · intro _ hmem
      exact absurd hmem hnot

theorem workTimeout (h : CmdMgrOk m) (hworker : m.worker = .waiting slot) :
    CmdMgrOk { m.cmdTimeout slot with worker := .looping } := by
  have hfits := h.holds.fits none
  rw [hold_none hworker] at hfits
  have hsole := h.holds.sole_of_worker hworker rfl
  rcases h.cmdTimeout_cases hfits with ⟨_, heq⟩ | ⟨_, hmem, heq⟩
  · rw [heq]
    constructor
    · exact h.queue.congr rfl rfl rfl
    · exact h.holds.worker slot rfl rfl (Function.update_eq_self slot m.cmdArray).symm
        (fun _ _ => Iff.rfl) (fun _ _ hs => hs) nofun hsole nofun (fun _ => trivial) nofun nofun
  · rw [heq]
    constructor
    · exact h.queue.remove hmem hfits.2.1 rfl rfl rfl hfits.2.1 rfl
    · exact h.holds.worker slot rfl rfl rfl (fun s hs => List.mem_erase_of_ne hs)
        (fun s hs hhead => head?_erase_of_head? hs hhead) nofun hsole nofun
        (fun _ => trivial) nofun nofun

/-- An orderly step keeps the queue and the holds in order. -/
theorem step (h : CmdMgrOk m) {e : CmdEvent} (horderly : Orderly m e)
    (hstep : cmdStep forced m e = some m') : CmdMgrOk m' := by
  cases cmdMove_of_step hstep with
  | alloc _ hcaller hslot => exact h.alloc hcaller hslot
  | down _ hcaller => exact h.moveOn hcaller rfl rfl rfl rfl rfl rfl rfl
  | check hcaller _ => exact h.moveOn hcaller rfl rfl rfl rfl rfl rfl rfl
  | refuse hcaller _ _ => exact h.refuse hcaller
  | force hcaller _ _ hfull =>
    exact (h.defer (x := .idle) hcaller hfull rfl).congr rfl rfl rfl rfl rfl
  | defer hcaller _ _ hfull _ => exact h.defer hcaller hfull rfl
  | direct hcaller _ _ hfull hlast _ => exact h.direct hcaller hfull hlast
  | pass hcaller _ =>
    rw [aicwfSetCmdTx_eq]
    exact h.moveOn hcaller rfl rfl rfl rfl rfl rfl rfl
  | drop hcaller _ => exact h.moveOn hcaller rfl rfl rfl rfl rfl rfl rfl
  | release hcaller => exact h.release hcaller
  | wake hcaller => exact h.wake hcaller _
  | push hcaller => exact h.push hcaller
  | finish hcaller hcomplete => exact h.finish hcaller hcomplete _
  | kill _ => exact horderly.elim
  | timeout hcaller => exact h.timeout hcaller
  | noCfm _ => exact h
  | cfm hcfm => exact h.confirm (findCfm_mem hcfm) (horderly _ hcfm)
  | work _ hworker => exact h.idleWorker (by rw [hworker]; rfl) false
  | stop hworker _ => exact h.idleWorker (by rw [hworker]; rfl) m.workPending
  | choose hworker hhead hpush => exact h.choose hworker hhead hpush
  | workPush hworker => exact h.workPush hworker
  | workFinish hworker hcomplete => exact h.workFinish hworker hcomplete
  | workTimeout hworker => exact h.workTimeout hworker
  | usb => exact h.congr rfl rfl rfl rfl rfl

end CmdMgrOk

/-- What is promised of every state. -/
structure OneAtATime (m : CmdMgr) : Prop where
  nodup : m.cmds.Nodup
  size : m.queueSz.toNat = m.cmds.length
  bound : m.cmds.length ≤ 16
  /-- Only the first command may have been sent. -/
  outstanding : ∀ s ∈ m.cmds, (m.cmdArray s).waitPush = false → m.cmds.head? = some s
  /-- Exactly one thread, or the worker, sends it and waits for it. -/
  awaited : m.crashed = false → ∀ s ∈ m.cmds, (m.cmdArray s).waitPush = false →
    ∃! i, m.hold i = .pushing s ∨ m.hold i = .waiting s
  /-- A timeout takes a command off the queue only when it is on it. -/
  onQueue : ∀ i s, m.hold i = .waiting s → (m.cmdArray s).done = false → s ∈ m.cmds

theorem CmdMgrOk.oneAtATime (h : CmdMgrOk m) : OneAtATime m where
  nodup := h.queue.nodup
  size := by
    have hbound := h.queue.bound
    rw [h.queue.size, BitVec.toNat_ofNat, Nat.mod_eq_of_lt (by omega)]
  bound := h.queue.bound
  outstanding s hs hpush := by
    rw [h.queue.cmds_eq hs hpush]
    rfl
  awaited hcr s hs hpush := by
    obtain ⟨i, hi⟩ := h.holds.owner hcr s hs hpush
    have hslot : ∀ j, m.hold j = .pushing s ∨ m.hold j = .waiting s →
        (m.hold j).slot? = some s := by
      rintro j (hj | hj)
      · rw [hj]
        rfl
      · rw [hj]
        rfl
    exact ⟨i, hi, fun j hj => h.holds.unique (hslot j hj) (hslot i hi)⟩
  onQueue i s hi hdone := by
    have hfits := h.holds.fits i
    rw [hi] at hfits
    rcases hfits.2.2 with hmem | hcomplete
    · exact hmem
    · rw [h.queue.done s hcomplete] at hdone
      cases hdone

/-- Of the commands that are queued at most one is with the firmware, in every state of
every run. -/
theorem cmds_one_outstanding (forced : Nat → Bool) (es : List CmdEvent)
    (h : Transition.Guarded (cmdStep forced) Orderly es rwnxCmdMgrInit) :
    Transition.Always (cmdStep forced) OneAtATime es rwnxCmdMgrInit := by
  have hok : Transition.Always (cmdStep forced) CmdMgrOk es rwnxCmdMgrInit :=
    Transition.always_of_guarded (fun _ _ _ hm hG hstep => hm.step hG hstep) cmdMgrOk_init h
  exact hok.mono fun _ hm => hm.oneAtATime

/-- A request that waits while another one is confirmed, and is then sent by the
worker.  A message without a confirmation is sent while it is outstanding. -/
def twoRequests : List CmdEvent :=
  [.alloc 0 5 6 false (.sendMsg true), .check 0, .submit 0, .push 0,
    .alloc 1 7 8 false (.sendMsg true), .check 1, .submit 1, .wake 1, .cfm 6 fun _ => true,
    .finish 0, .work, .choose, .workPush, .alloc 2 9 0 false (.sendMsg false), .check 2,
    .submit 2, .release 2]

theorem twoRequests_orderly :
    Transition.Guarded (cmdStep fun _ => false) Orderly twoRequests rwnxCmdMgrInit := by
  iterate 8 refine Transition.Guarded.cons rfl trivial ?_
  refine Transition.Guarded.cons rfl (fun slot hslot => ?_) ?_
  · have h0 : slot = 0 := (Option.some.inj hslot).symm
    subst h0
    refine ⟨rfl, fun t ht => ?_⟩
    rcases t with _ | _ | t
    · cases ht
    · cases ht
    · cases ht
  · iterate 8 refine Transition.Guarded.cons rfl trivial ?_
    trivial

theorem cmds_one_outstanding_two :
    Transition.Always (cmdStep fun _ => false) OneAtATime twoRequests rwnxCmdMgrInit :=
  cmds_one_outstanding _ _ twoRequests_orderly

end LonganPi.Wifi
