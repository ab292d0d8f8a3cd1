import LonganPi.Lib.StopAndWait
import LonganPi.Wifi.CmdSafe
import Mathlib.Data.List.Basic

/-!
# The requests reach the firmware in order

The command manager is a stop-and-wait line: a request that the queue takes is
submitted, and is settled by its confirmation or by the timeout that takes it
off the queue.

* `cmds_sent_in_order`: while the device is up, every request that the queue
  takes is sent once, in the order in which the queue took them, and the next one
  only when the one before it is settled.  The messages without a confirmation
  are sent past the line at any time.
-/

namespace LonganPi.Wifi

open CmdMgr StopAndWait

variable {forced : Nat → Bool} {m m' : CmdMgr} {slot s t : Nat}

/-! ## The abstract line -/

/-- The message of a command. -/
def CmdMgr.msg (m : CmdMgr) (s : Nat) : Nat := (m.cmdArray s).msgId

/-- The messages that were sent and are confirmed, in their order. -/
def CmdMgr.requests (m : CmdMgr) : List Nat := (m.sent.filter (·.2)).map (·.1)

open Classical in
/-- The queue as a line. -/
noncomputable def CmdMgr.line (m : CmdMgr) : Line Nat where
  waiting := (m.cmds.filter fun s => ¬ m.Sent s).map m.msg
  outstanding := decide (∃ s ∈ m.cmds, m.Sent s)
  sent := m.requests

/-- The requests that a step puts on the queue. -/
def newRequests (m : CmdMgr) : CmdEvent → List Nat
  | .submit t =>
    match m.callers t with
    | .ready slot => if (m.calls t).reqcfm && !m.refuses then [m.msg slot] else []
    | _ => []
  | _ => []

/-- A timeout takes the command off the queue if it is not done. -/
def timeoutActs (m : CmdMgr) (slot : Nat) : List (Act Nat) :=
  if (m.cmdArray slot).done then [] else [.settle]

/-- What a step is for the line. -/
def lineActs (m : CmdMgr) : CmdEvent → List (Act Nat)
  | .submit t => (newRequests m (.submit t)).map .submit
  | .push _ => [.send]
  | .workPush => [.send]
  | .cfm msgId accepts => if (m.findCfm msgId accepts).isSome then [.settle] else []
  | .timeout t =>
    match m.callers t with
    | .waiting slot => timeoutActs m slot
    | _ => []
  | .workTimeout =>
    match m.worker with
    | .waiting slot => timeoutActs m slot
    | _ => []
  | _ => []

/-- An orderly step, and the device stays up. -/
def Steady (m : CmdMgr) (e : CmdEvent) : Prop := Orderly m e ∧ e ≠ .usb false

/-- The states of a steady run. -/
structure SteadyOk (m : CmdMgr) : Prop extends CmdMgrOk m where
  up : m.usbUp = true

theorem steadyOk_init : SteadyOk rwnxCmdMgrInit := ⟨cmdMgrOk_init, rfl⟩

theorem cmdTimeout_usbUp (m : CmdMgr) (s : Nat) : (m.cmdTimeout s).usbUp = m.usbUp := by
  unfold cmdTimeout cmdComplete
  simp only
  split_ifs <;> rfl

theorem usbUp_of_step {e : CmdEvent} (hdown : e ≠ .usb false)
    (hstep : cmdStep forced m e = some m') (hup : m.usbUp = true) : m'.usbUp = true := by
  cases cmdMove_of_step hstep with
  | wake _ =>
    rw [wakeIf_usbUp]
    exact hup
  | pass _ _ =>
    rw [aicwfSetCmdTx_eq]
    exact hup
  | push _ =>
    rw [aicwfSetCmdTx_eq]
    exact hup
  | finish _ _ =>
    rw [wakeIf_usbUp]
    exact hup
  | kill _ =>
    rw [wakeIf_usbUp]
    exact hup
  | timeout _ =>
    show (m.cmdTimeout _).usbUp = true
    rw [cmdTimeout_usbUp]
    exact hup
  | cfm _ =>
    rw [confirm_eq]
    exact hup
  | workPush _ =>
    rw [aicwfSetCmdTx_eq]
    exact hup
  | workTimeout _ =>
    show (m.cmdTimeout _).usbUp = true
    rw [cmdTimeout_usbUp]
    exact hup
  | @usb up =>
    cases up with
    | true => rfl
    | false => exact absurd rfl hdown
  | _ => exact hup

theorem SteadyOk.step (h : SteadyOk m) {e : CmdEvent} (hsteady : Steady m e)
    (hstep : cmdStep forced m e = some m') : SteadyOk m' :=
  ⟨h.toCmdMgrOk.step hsteady.1 hstep, usbUp_of_step hsteady.2 hstep h.up⟩

/-! ## Steps that the line does not see -/

/-- A command that is not sent is in use. -/
theorem CmdMgrOk.used_of_not_sent (h : CmdMgrOk m) (hsent : ¬ m.Sent s) :
    (m.cmdArray s).used = true := by
  cases hpush : (m.cmdArray s).waitPush with
  | true => exact (h.queue.unsent s hpush).2
  | false =>
    by_contra hunused
    refine hsent ⟨hpush, fun t ht => hunused ?_⟩
    have hhold := hold_some ht
    exact (h.holds.fits (some t)).used (by rw [hhold]; rfl)

open Classical in
theorem line_congr (hcmds : m'.cmds = m.cmds) (hiff : ∀ s, m'.Sent s ↔ m.Sent s)
    (hmsg : ∀ s, ¬ m.Sent s → m'.msg s = m.msg s) (hlog : m'.requests = m.requests) :
    m'.line = m.line := by
  have hwaiting : m'.line.waiting = m.line.waiting := by
    show (m'.cmds.filter fun s => decide (¬ m'.Sent s)).map m'.msg
      = (m.cmds.filter fun s => decide (¬ m.Sent s)).map m.msg
    simp only [hcmds, hiff]
    apply List.map_congr_left
    intro s hs
    exact hmsg s (of_decide_eq_true (List.mem_filter.mp hs).2)
  have hout : m'.line.outstanding = m.line.outstanding := by
    show decide (∃ s ∈ m'.cmds, m'.Sent s) = decide (∃ s ∈ m.cmds, m.Sent s)
    simp only [hcmds, hiff]
  show (⟨m'.line.waiting, m'.line.outstanding, m'.requests⟩ : Line Nat) = _
  rw [hwaiting, hout, hlog]
  rfl

/-- A thread that does not send and will not send is not seen. -/
theorem sent_of_caller {x y : Caller} (hcaller : m.callers t = x)
    (hcallers : m'.callers = Function.update m.callers t y) (hx : ∀ a, x ≠ .pushing a)
    (hy : ∀ a, y ≠ .pushing a)
    (hpush : (m'.cmdArray s).waitPush = (m.cmdArray s).waitPush) : m'.Sent s ↔ m.Sent s := by
  unfold CmdMgr.Sent
  rw [hpush, hcallers]
  apply and_congr Iff.rfl
  constructor
  · intro h t'
    by_cases ht : t' = t
    · rw [ht, hcaller]
      exact hx s
    · have hne := h t'
      rw [Function.update_of_ne ht] at hne
      exact hne
  · intro h t'
    by_cases ht : t' = t
    · rw [ht, Function.update_self]
      exact hy s
    · rw [Function.update_of_ne ht]
      exact h t'

theorem line_wakeIf (m : CmdMgr) (c : Bool) : (m.wakeIf c).line = m.line := by
  cases c <;> rfl

/-- A thread that moves on without a change of the commands. -/
theorem line_caller {x y : Caller} (hcaller : m.callers t = x)
    (hcallers : m'.callers = Function.update m.callers t y) (hx : ∀ a, x ≠ .pushing a)
    (hy : ∀ a, y ≠ .pushing a) (harr : m'.cmdArray = m.cmdArray) (hcmds : m'.cmds = m.cmds)
    (hlog : m'.requests = m.requests) : m'.line = m.line :=
  line_congr hcmds (fun _ => sent_of_caller hcaller hcallers hx hy (by rw [harr]))
    (fun s _ => congrArg (fun arr => (arr s).msgId) harr) hlog

/-- A thread that takes or frees its command. -/
theorem line_update (slot : Nat) {x y : Caller} {c : RwnxCmd} (hcaller : m.callers t = x)
    (hcallers : m'.callers = Function.update m.callers t y) (hx : ∀ a, x ≠ .pushing a)
    (hy : ∀ a, y ≠ .pushing a) (harr : m'.cmdArray = Function.update m.cmdArray slot c) (hcmds : m'.cmds = m.cmds)
    (hlog : m'.requests = m.requests) (hpush : c.waitPush = (m.cmdArray slot).waitPush)
    (hmsg : ¬ m.Sent slot → c.msgId = (m.cmdArray slot).msgId) : m'.line = m.line := by
  refine line_congr hcmds (fun s => ?_) (fun s hs => ?_) hlog
  · refine sent_of_caller hcaller hcallers hx hy ?_
    by_cases hne : s = slot
    · rw [harr, hne, Function.update_self, hpush]
    · rw [harr, Function.update_of_ne hne]
  · show (m'.cmdArray s).msgId = (m.cmdArray s).msgId
    by_cases hne : s = slot
    · rw [harr, hne, Function.update_self]
      exact hmsg (hne ▸ hs)
    · rw [harr, Function.update_of_ne hne]

theorem line_alloc (h : CmdMgrOk m) {msgId reqid : Nat} {e2aMsg : Bool} {call : SendCall}
    (hcaller : m.callers t = .idle) (hslot : m.rwnxCmdMalloc = some slot) :
    (((m.take slot msgId reqid e2aMsg).setCall t call).setCaller t (.allocated slot)).line
      = m.line := by
  refine line_update slot hcaller rfl nofun nofun rfl rfl rfl rfl fun hs => ?_
  have hused := h.used_of_not_sent hs
  rw [rwnxCmdMalloc_unused hslot] at hused
  cases hused

/-! ## Steps that the line sees -/

open Classical in
/-- Nothing was sent. -/
theorem line_eq_waiting (hall : ∀ s ∈ m.cmds, ¬ m.Sent s) :
    m.line = ⟨m.cmds.map m.msg, false, m.requests⟩ := by
  have hfilter : m.cmds.filter (fun s => decide (¬ m.Sent s)) = m.cmds :=
    List.filter_eq_self.mpr fun s hs => decide_eq_true (hall s hs)
  have hout : decide (∃ s ∈ m.cmds, m.Sent s) = false := by
    apply decide_eq_false
    rintro ⟨s, hs, hsent⟩
    exact hall s hs hsent
  show (⟨(m.cmds.filter fun s => decide (¬ m.Sent s)).map m.msg,
    decide (∃ s ∈ m.cmds, m.Sent s), m.requests⟩ : Line Nat) = _
  rw [hfilter, hout]

open Classical in
/-- The first command was sent. -/
theorem line_eq_sent {rest : List Nat} (hcons : m.cmds = slot :: rest) (hsent : m.Sent slot)
    (hrest : ∀ s ∈ rest, ¬ m.Sent s) : m.line = ⟨rest.map m.msg, true, m.requests⟩ := by
  have hfilter : m.cmds.filter (fun s => decide (¬ m.Sent s)) = rest := by
    rw [hcons, List.filter_cons_of_neg (by rw [decide_eq_true_eq]; exact not_not_intro hsent)]
    exact List.filter_eq_self.mpr fun s hs => decide_eq_true (hrest s hs)
  have hout : decide (∃ s ∈ m.cmds, m.Sent s) = true := by
    apply decide_eq_true
    exact ⟨slot, hcons ▸ List.mem_cons_self, hsent⟩
  show (⟨(m.cmds.filter fun s => decide (¬ m.Sent s)).map m.msg,
    decide (∃ s ∈ m.cmds, m.Sent s), m.requests⟩ : Line Nat) = _
  rw [hfilter, hout]

theorem not_sent_of_waitPush (hpush : (m.cmdArray s).waitPush = true) : ¬ m.Sent s := by
  intro hsent
  rw [hsent.1] at hpush
  cases hpush

/-- The commands behind the first one are not sent. -/
theorem QueueOk.not_sent_of_tail (h : QueueOk m) (hs : s ∈ m.cmds.tail) : ¬ m.Sent s :=
  not_sent_of_waitPush (h.later s hs)

open Classical in
/-- A command that is not sent comes to the end of the queue. -/
theorem line_enqueue {x y : Caller} {c : RwnxCmd} (hcaller : m.callers t = x)
    (hcallers : m'.callers = Function.update m.callers t y) (hx : ∀ a, x ≠ .pushing a)
    (hy : ∀ a, y = .pushing a → a = slot)
    (harr : m'.cmdArray = Function.update m.cmdArray slot c)
    (hcmds : m'.cmds = m.cmds ++ [slot]) (hlog : m'.requests = m.requests) (hnew : slot ∉ m.cmds)
    (hmsg : c.msgId = (m.cmdArray slot).msgId) (hunsent : ¬ m'.Sent slot) :
    act m.line (.submit (m.msg slot)) = some m'.line := by
  have hiff : ∀ s ∈ m.cmds, (m'.Sent s ↔ m.Sent s) := by
    intro s hs
    have hne : s ≠ slot := fun heq => hnew (heq ▸ hs)
    unfold CmdMgr.Sent
    rw [harr, Function.update_of_ne hne, hcallers]
    apply and_congr Iff.rfl
    constructor
    · intro h t'
      by_cases ht : t' = t
      · rw [ht, hcaller]
        exact hx s
      · have hne' := h t'
        rw [Function.update_of_ne ht] at hne'
        exact hne'
    · intro h t'
      by_cases ht : t' = t
      · rw [ht, Function.update_self]
        exact fun heq => hne (hy s heq)
      · rw [Function.update_of_ne ht]
        exact h t'
  have hmsgs : ∀ s, m'.msg s = m.msg s := by
    intro s
    show (m'.cmdArray s).msgId = (m.cmdArray s).msgId
    by_cases hne : s = slot
    · rw [harr, hne, Function.update_self, hmsg]
    · rw [harr, Function.update_of_ne hne]
  have hfilter : m'.cmds.filter (fun s => decide (¬ m'.Sent s))
      = m.cmds.filter (fun s => decide (¬ m.Sent s)) ++ [slot] := by
    rw [hcmds, List.filter_append]
    congr 1
    · apply List.filter_congr
      intro s hs
      rw [hiff s hs]
    · exact List.filter_eq_self.mpr fun s hs => by
        rw [List.mem_singleton.mp hs]
        exact decide_eq_true hunsent
  have hout : (∃ s ∈ m'.cmds, m'.Sent s) ↔ ∃ s ∈ m.cmds, m.Sent s := by
    rw [hcmds]
    constructor
    · rintro ⟨s, hs, hsent⟩
      rcases List.mem_append.mp hs with hold | hold
      · exact ⟨s, hold, (hiff s hold).mp hsent⟩
      · rw [List.mem_singleton.mp hold] at hsent
        exact absurd hsent hunsent
    · rintro ⟨s, hs, hsent⟩
      exact ⟨s, List.mem_append.mpr (Or.inl hs), (hiff s hs).mpr hsent⟩
  show some { m.line with waiting := m.line.waiting ++ [m.msg slot] } = some m'.line
  congr 1
  show (⟨(m.cmds.filter fun s => decide (¬ m.Sent s)).map m.msg ++ [m.msg slot],
      decide (∃ s ∈ m.cmds, m.Sent s), m.requests⟩ : Line Nat)
    = ⟨(m'.cmds.filter fun s => decide (¬ m'.Sent s)).map m'.msg,
      decide (∃ s ∈ m'.cmds, m'.Sent s), m'.requests⟩
  rw [hfilter, hlog, List.map_append, List.map_congr_left (fun s _ => hmsgs s)]
  simp only [hout, List.map_singleton, hmsgs]

/-- The first command is sent. -/
theorem line_send {rest : List Nat} (hcons : m.cmds = slot :: rest) (hcmds : m'.cmds = m.cmds)
    (hmsg : ∀ s, m'.msg s = m.msg s) (hunsent : ¬ m.Sent slot) (hsent : m'.Sent slot)
    (hrest : ∀ s ∈ rest, ¬ m.Sent s) (hrest' : ∀ s ∈ rest, ¬ m'.Sent s)
    (hlog : m'.requests = m.requests ++ [m.msg slot]) : act m.line .send = some m'.line := by
  have hall : ∀ s ∈ m.cmds, ¬ m.Sent s := by
    intro s hs
    rw [hcons] at hs
    rcases List.mem_cons.mp hs with heq | hs
    · exact heq ▸ hunsent
    · exact hrest s hs
  rw [line_eq_waiting hall, line_eq_sent (hcmds.trans hcons) hsent hrest', hcons, hlog,
    List.map_congr_left fun s _ => hmsg s]
  rfl

/-- The first command is settled. -/
theorem line_settle {rest : List Nat} (hcons : m.cmds = slot :: rest) (hcmds : m'.cmds = rest)
    (hmsg : ∀ s, m'.msg s = m.msg s) (hsent : m.Sent slot) (hrest : ∀ s ∈ rest, ¬ m.Sent s)
    (hrest' : ∀ s ∈ rest, ¬ m'.Sent s) (hlog : m'.requests = m.requests) :
    act m.line .settle = some m'.line := by
  rw [line_eq_sent hcons hsent hrest, line_eq_waiting (hcmds ▸ hrest'), hcmds, hlog,
    List.map_congr_left fun s _ => hmsg s]
  rfl

/-! ## The simulation -/

theorem run_one {l l' : Line Nat} {a : Act Nat} (h : act l a = some l') :
    Transition.run act [a] l = some l' :=
  Transition.run_cons.mpr ⟨l', h, rfl⟩

theorem msg_update {c : RwnxCmd} (harr : m'.cmdArray = Function.update m.cmdArray slot c)
    (hmsg : c.msgId = (m.cmdArray slot).msgId) (s : Nat) : m'.msg s = m.msg s := by
  show (m'.cmdArray s).msgId = (m.cmdArray s).msgId
  by_cases hne : s = slot
  · rw [harr, hne, Function.update_self, hmsg]
  · rw [harr, Function.update_of_ne hne]

/-- The commands behind the first one are not sent by a step on the first one. -/
theorem CmdMgrOk.not_sent_of_update (h : CmdMgrOk m) {c : RwnxCmd}
    (harr : m'.cmdArray = Function.update m.cmdArray slot c) (hnot : slot ∉ m.cmds.tail)
    (hs : s ∈ m.cmds.tail) : ¬ m'.Sent s := by
  have hne : s ≠ slot := fun heq => hnot (heq ▸ hs)
  apply not_sent_of_waitPush
  rw [harr, Function.update_of_ne hne]
  exact h.queue.later s hs

/-- Nobody sends the command of another. -/
theorem CmdMgrOk.not_pushing (h : CmdMgrOk m) {i : Option Nat} (hi : (m.hold i).slot? = some slot)
    (hne : some t ≠ i) : m.callers t ≠ .pushing slot := by
  intro ht
  exact hne (h.holds.unique (by rw [hold_some ht]; rfl) hi)

/-- Who waits for a command has it sent. -/
theorem CmdMgrOk.sent_of_waiting (h : CmdMgrOk m) {i : Option Nat} (hi : m.hold i = .waiting slot) :
    m.Sent slot := by
  have hfits := h.holds.fits i
  rw [hi] at hfits
  refine ⟨hfits.2.1, fun t ht => ?_⟩
  have hslot : (m.hold i).slot? = some slot := by
    rw [hi]
    rfl
  have hti : some t = i := h.holds.unique (by rw [hold_some ht]; rfl) hslot
  rw [← hti, hold_some ht] at hi
  cases hi

/-- A command that was sent leaves the queue. -/
theorem CmdMgrOk.line_remove (h : CmdMgrOk m) {c : RwnxCmd} (hmem : slot ∈ m.cmds)
    (hsent : m.Sent slot) (hcmds : m'.cmds = m.cmds.erase slot)
    (harr : m'.cmdArray = Function.update m.cmdArray slot c)
    (hmsg : c.msgId = (m.cmdArray slot).msgId) (hlog : m'.requests = m.requests) :
    act m.line .settle = some m'.line := by
  have hcons := h.queue.cmds_eq hmem hsent.1
  have hnot := h.queue.notMem_tail hsent.1
  have htail : m'.cmds = m.cmds.tail := by
    rw [hcmds]
    conv_lhs => rw [hcons]
    exact List.erase_cons_head slot m.cmds.tail
  exact line_settle hcons htail (msg_update harr hmsg) hsent
    (fun s hs => h.queue.not_sent_of_tail hs) (fun s hs => h.not_sent_of_update harr hnot hs) hlog

theorem aicwfSetCmdTx_of_up (h : m.usbUp = true) (reqcfm : Bool) :
    m.aicwfSetCmdTx s reqcfm
      = { m with sent := m.sent ++ [((m.cmdArray s).msgId, reqcfm)] } := if_pos h

theorem requests_append_true (h : m'.sent = m.sent ++ [(s, true)]) :
    m'.requests = m.requests ++ [s] := by
  unfold requests
  rw [h, List.filter_append, List.map_append]
  rfl

/-- A message without a confirmation is not one of the requests. -/
theorem requests_append_false (h : m'.sent = m.sent ++ [(s, false)]) :
    m'.requests = m.requests := by
  unfold requests
  rw [h, List.filter_append]
  exact congrArg _ (List.append_nil _)

/-- What is sent past the queue is not seen. -/
theorem line_pass (hup : m.usbUp = true) (hcaller : m.callers t = .ready slot) :
    ((m.aicwfSetCmdTx slot false).setCaller t (.passed slot)).line = m.line := by
  rw [aicwfSetCmdTx_of_up hup]
  exact line_caller hcaller rfl nofun nofun rfl rfl (requests_append_false rfl)

theorem line_push (h : SteadyOk m) (hcaller : m.callers t = .pushing slot) :
    act m.line .send = some ((m.aicwfSetCmdTx slot true).setCaller t (.waiting slot)).line := by
  have hfits := h.holds.fits (some t)
  rw [hold_some hcaller] at hfits
  have hslot : (m.hold (some t)).slot? = some slot := by
    rw [hold_some hcaller]
    rfl
  have hcons := h.queue.cmds_eq hfits.2.2 hfits.2.1
  rw [aicwfSetCmdTx_of_up h.up]
  refine line_send hcons rfl (fun _ => rfl) ?_ ?_ (fun s hs => h.queue.not_sent_of_tail hs)
    (fun s hs => not_sent_of_waitPush (h.queue.later s hs)) (requests_append_true rfl)
  · intro hsent
    exact hsent.2 t hcaller
  · refine ⟨hfits.2.1, fun t' ht' => ?_⟩
    by_cases ht : t' = t
    · rw [ht] at ht'
      have hself := callers_setCaller_self m t (.waiting slot)
      exact Caller.noConfusion (hself.symm.trans ht')
    · have hother := callers_setCaller_of_ne ht m (.waiting slot)
      exact h.not_pushing hslot (fun heq => ht (Option.some.inj heq)) (hother.symm.trans ht')

theorem line_workPush (h : SteadyOk m) (hworker : m.worker = .chosen slot) :
    act m.line .send = some
      ({ (m.modifyCmd slot fun cmd => { cmd with waitPush := false }).aicwfSetCmdTx slot true with
        worker := .waiting slot } : CmdMgr).line := by
  have hfits := h.holds.fits none
  rw [hold_none hworker] at hfits
  have hslot : (m.hold none).slot? = some slot := by
    rw [hold_none hworker]
    rfl
  have hcons : m.cmds = slot :: m.cmds.tail := (List.cons_head?_tail hfits.2.2).symm
  have hnot : slot ∉ m.cmds.tail := by
    have hnodup := h.queue.nodup
    rw [hcons] at hnodup
    exact (List.nodup_cons.mp hnodup).1
  rw [aicwfSetCmdTx_of_up (show (m.modifyCmd slot _).usbUp = true from h.up)]
  refine line_send hcons rfl (msg_update rfl rfl) (not_sent_of_waitPush hfits.2.1) ?_
    (fun s hs => h.queue.not_sent_of_tail hs) (fun s hs => h.not_sent_of_update rfl hnot hs) ?_
  · constructor
    · show (Function.update m.cmdArray slot _ slot).waitPush = false
      rw [Function.update_self]
    · intro t
      exact h.not_pushing hslot nofun
  · apply requests_append_true
    show m.sent ++ [((Function.update m.cmdArray slot _ slot).msgId, true)] = _
    rw [Function.update_self]
    rfl

theorem lineActs_submit (hcaller : m.callers t = .ready slot) (hcfm : (m.calls t).reqcfm = true)
    (hfull : m.refuses = false) : lineActs m (.submit t) = [.submit (m.msg slot)] := by
  simp only [lineActs, newRequests, hcaller, hcfm, hfull, Bool.not_false, Bool.and_true, if_true,
    List.map_cons, List.map_nil]

/-- The queue does not take the command. -/
theorem lineActs_submit_nil (hcaller : m.callers t = .ready slot)
    (hno : (m.calls t).reqcfm = false ∨ m.refuses = true) : lineActs m (.submit t) = [] := by
  have hcond : ((m.calls t).reqcfm && !m.refuses) = false := by
    rcases hno with hcfm | hfull
    · rw [hcfm, Bool.false_and]
    · rw [hfull, Bool.not_true, Bool.and_false]
  simp only [lineActs, newRequests, hcaller, hcond, Bool.false_eq_true, if_false, List.map_nil]

/-- A command that the queue takes was not on it. -/
theorem CmdMgrOk.fresh_notMem (h : CmdMgrOk m) (hcaller : m.callers t = .ready slot)
    (hfull : m.refuses = false) : slot ∉ m.cmds := by
  have hfits := h.holds.fits (some t)
  rw [hold_some hcaller] at hfits
  exact hfits.2.2 (h.queue.room hfull).1

/-- A command that is left to the worker is submitted. -/
theorem CmdMgrOk.line_deferred (h : CmdMgrOk m) {x : Caller}
    (hcaller : m.callers t = .ready slot) (hfull : m.refuses = false) (hx : x.hold = .nothing) :
    act m.line (.submit (m.msg slot)) = some ((m.enqueue slot true).setCaller t x).line := by
  refine line_enqueue hcaller rfl nofun (fun a heq => ?_) (cmdArray_enqueue m slot true) rfl rfl
    (h.fresh_notMem hcaller hfull) rfl (not_sent_of_waitPush ?_)
  · rw [heq] at hx
    cases hx
  · show ((m.enqueue slot true).cmdArray slot).waitPush = true
    rw [cmdArray_enqueue_self]
    exact Bool.or_true _

/-- A step of the command manager is one of the line, or none. -/
theorem line_step (h : SteadyOk m) {e : CmdEvent} (hsteady : Steady m e)
    (hstep : cmdStep forced m e = some m') :
    Transition.run act (lineActs m e) m.line = some m'.line := by
  have hstill : ∀ {m' : CmdMgr}, m'.line = m.line → Transition.run act [] m.line = some m'.line :=
    fun heq => congrArg some heq.symm
  cases cmdMove_of_step hstep with
  | alloc _ hcaller hslot => exact hstill (line_alloc h.toCmdMgrOk hcaller hslot)
  | down hdown _ =>
    rw [h.up] at hdown
    cases hdown
  | check hcaller _ => exact hstill (line_caller hcaller rfl nofun nofun rfl rfl rfl)
  | @refuse t slot hcaller _ hfull =>
    rw [lineActs_submit_nil hcaller (Or.inr hfull)]
    exact hstill (line_update slot hcaller rfl nofun nofun (CmdMgrOk.refuse_cmdArray m t slot) rfl
      rfl rfl fun _ => rfl)
  | force hcaller hcfm _ hfull =>
    rw [lineActs_submit hcaller hcfm hfull]
    exact run_one (h.line_deferred hcaller hfull rfl)
  | defer hcaller hcfm _ hfull _ =>
    rw [lineActs_submit hcaller hcfm hfull]
    exact run_one (h.line_deferred hcaller hfull rfl)
  | @direct t slot hcaller hcfm _ hfull _ _ =>
    rw [lineActs_submit hcaller hcfm hfull]
    refine run_one (line_enqueue hcaller rfl nofun (fun a heq => ?_)
      (cmdArray_enqueue m slot false) rfl rfl (h.fresh_notMem hcaller hfull) rfl ?_)
    · cases heq
      rfl
    · intro hsent
      exact hsent.2 t (callers_setCaller_self ..)
  | pass hcaller hcall =>
    rw [lineActs_submit_nil hcaller (Or.inl (by rw [hcall]; rfl))]
    exact hstill (line_pass h.up hcaller)
  | drop hcaller hcall =>
    rw [lineActs_submit_nil hcaller (Or.inl (by rw [hcall]; rfl))]
    exact hstill (line_caller hcaller rfl nofun nofun rfl rfl rfl)
  | @release t slot hcaller =>
    exact hstill (line_update slot hcaller rfl nofun nofun rfl rfl rfl rfl fun _ => rfl)
  | wake hcaller =>
    exact hstill ((line_wakeIf _ _).trans (line_caller hcaller rfl nofun nofun rfl rfl rfl))
  | push hcaller => exact run_one (line_push h hcaller)
  | @finish t slot hcaller _ =>
    exact hstill ((line_wakeIf _ _).trans
      (line_update slot hcaller rfl nofun nofun rfl rfl rfl rfl fun _ => rfl))
  | kill _ => exact hsteady.1.elim
  | @timeout t slot hcaller =>
    have hacts : lineActs m (.timeout t) = timeoutActs m slot := by
      simp only [lineActs, hcaller]
    have hwait : m.hold (some t) = .waiting slot := hold_some hcaller
    have hfits := h.holds.fits (some t)
    rw [hwait] at hfits
    rcases h.cmdTimeout_cases hfits with ⟨hdone, heq⟩ | ⟨hdone, hmem, heq⟩
    · rw [hacts, timeoutActs, if_pos hdone, heq]
      exact hstill (line_update slot hcaller rfl nofun nofun rfl rfl rfl rfl fun _ => rfl)
    · rw [hacts, timeoutActs, if_neg (by rw [hdone]; exact Bool.false_ne_true), heq]
      exact run_one (h.line_remove hmem (h.sent_of_waiting hwait) rfl
        (CmdMgrOk.free_cmdArray rfl) rfl rfl)
  | @noCfm msgId accepts hcfm =>
    have hnone : lineActs m (.cfm msgId accepts) = [] := by
      simp only [lineActs, hcfm, Option.isSome_none, Bool.false_eq_true, if_false]
    rw [hnone]
    exact hstill rfl
  | @cfm msgId slot accepts hcfm =>
    have hone : lineActs m (.cfm msgId accepts) = [.settle] := by
      simp only [lineActs, hcfm, Option.isSome_some, if_true]
    rw [hone, confirm_eq]
    exact run_one (h.line_remove (findCfm_mem hcfm) (hsteady.1 slot hcfm) rfl rfl rfl rfl)
  | work _ _ => exact hstill rfl
  | stop _ _ => exact hstill rfl
  | choose _ _ _ => exact hstill rfl
  | workPush hworker => exact run_one (line_workPush h hworker)
  | @workFinish slot _ _ =>
    refine hstill (line_congr rfl (fun s => ?_) (fun s _ =>
      msg_update (c := { m.cmdArray slot with used := false }) rfl rfl s) rfl)
    apply and_congr_left
    intro _
    show (Function.update m.cmdArray slot _ s).waitPush = false ↔ _
    by_cases hne : s = slot
    · rw [hne, Function.update_self]
    · rw [Function.update_of_ne hne]
  | @workTimeout slot hworker =>
    have hacts : lineActs m .workTimeout = timeoutActs m slot := by
      simp only [lineActs, hworker]
    have hwait : m.hold none = .waiting slot := hold_none hworker
    have hfits := h.holds.fits none
    rw [hwait] at hfits
    rcases h.cmdTimeout_cases hfits with ⟨hdone, heq⟩ | ⟨hdone, hmem, heq⟩
    · rw [hacts, timeoutActs, if_pos hdone, heq]
      exact hstill rfl
    · rw [hacts, timeoutActs, if_neg (by rw [hdone]; exact Bool.false_ne_true), heq]
      exact run_one (h.line_remove hmem (h.sent_of_waiting hwait) rfl rfl rfl rfl)
  | usb => exact hstill rfl

/-- The line is submitted what the queue takes. -/
theorem submitted_lineActs (m : CmdMgr) (e : CmdEvent) :
    submitted (lineActs m e) = newRequests m e := by
  have htimeout : ∀ slot, submitted (timeoutActs m slot) = [] := by
    intro slot
    unfold timeoutActs
    split_ifs <;> rfl
  cases e with
  | submit t => exact submitted_map_submit _
  | cfm msgId accepts =>
    simp only [lineActs]
    split_ifs <;> rfl
  | timeout t =>
    simp only [lineActs]
    split
    · exact htimeout _
    · rfl
  | workTimeout =>
    simp only [lineActs]
    split
    · exact htimeout _
    · rfl
  | _ => rfl

theorem submitted_trace (es : List CmdEvent) (m : CmdMgr) :
    submitted (Transition.trace (cmdStep forced) lineActs es m)
      = Transition.trace (cmdStep forced) newRequests es m := by
  induction es generalizing m with
  | nil => rfl
  | cons e es ih =>
    cases hstep : cmdStep forced m e with
    | none =>
      simp only [Transition.trace, hstep]
      rfl
    | some m₁ =>
      rw [Transition.trace_cons hstep, Transition.trace_cons hstep, submitted_append,
        submitted_lineActs, ih]

/-- The command manager does what the line does. -/
theorem line_run {es : List CmdEvent}
    (hsteady : Transition.Guarded (cmdStep forced) Steady es rwnxCmdMgrInit)
    (hrun : Transition.run (cmdStep forced) es rwnxCmdMgrInit = some m) :
    Transition.run act (Transition.trace (cmdStep forced) lineActs es rwnxCmdMgrInit) idle
      = some m.line := by
  have hidle : rwnxCmdMgrInit.line = idle := line_eq_waiting fun s hs => absurd hs List.not_mem_nil
  rw [← hidle]
  exact Transition.run_trace (fun _ _ _ h hG hstep => h.step hG hstep)
    (fun _ _ _ h hG hstep => line_step h hG hstep) steadyOk_init hsteady hrun

/-- Every request that the queue takes is sent once and in order, and not before the
one in front of it is settled. -/
theorem cmds_sent_in_order (forced : Nat → Bool) (es : List CmdEvent) (m : CmdMgr)
    (hsteady : Transition.Guarded (cmdStep forced) Steady es rwnxCmdMgrInit)
    (hrun : Transition.run (cmdStep forced) es rwnxCmdMgrInit = some m) :
    m.requests ++ m.line.waiting
      = Transition.trace (cmdStep forced) newRequests es rwnxCmdMgrInit ∧
    m.requests.length = settled (Transition.trace (cmdStep forced) lineActs es rwnxCmdMgrInit)
      + m.line.outstanding.toNat := by
  have hline := line_run hsteady hrun
  have hsent := run_sent hline
  have hsettled := run_settled hline
  constructor
  · rw [submitted_trace] at hsent
    exact hsent
  · have hlen : m.line.sent.length = m.requests.length := rfl
    have h0 : (idle : Line Nat).sent.length = 0 := rfl
    have h1 : (idle : Line Nat).outstanding.toNat = 0 := rfl
    omega

theorem twoRequests_steady :
    Transition.Guarded (cmdStep fun _ => false) Steady twoRequests rwnxCmdMgrInit := by
  iterate 8 refine Transition.Guarded.cons rfl ⟨trivial, nofun⟩ ?_
  refine Transition.Guarded.cons rfl ⟨fun slot hslot => ?_, nofun⟩ ?_
  · have h0 : slot = 0 := (Option.some.inj hslot).symm
    subst h0
    refine ⟨rfl, fun t ht => ?_⟩
    rcases t with _ | _ | t
    · cases ht
    · cases ht
    · cases ht
  · iterate 8 refine Transition.Guarded.cons rfl ⟨trivial, nofun⟩ ?_
    trivial

theorem cmds_sent_in_order_two : ∃ m,
    Transition.run (cmdStep fun _ => false) twoRequests rwnxCmdMgrInit = some m ∧
    m.sent = [(5, true), (7, true), (9, false)] ∧ m.requests ++ m.line.waiting = [5, 7] :=
  ⟨_, rfl, rfl, (cmds_sent_in_order _ _ _ twoRequests_steady rfl).1⟩

end LonganPi.Wifi
