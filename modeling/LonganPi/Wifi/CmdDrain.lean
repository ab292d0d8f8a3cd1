import LonganPi.Wifi.CmdOrder
import Mathlib.Algebra.BigOperators.Group.Finset.Basic
import Mathlib.Algebra.Order.BigOperators.Group.Finset

/-!
# The queue does not stall

The first command of the queue waits for the worker.  Somebody has to wake it:
the thread that queued the command, or the one whose command was there before.

* `cmds_drained`: what is left to be done takes a bounded number of steps, and then
  the queue is empty and every call has returned.
-/

namespace LonganPi.Wifi

open CmdMgr

variable {forced : Nat → Bool} {m m' n : CmdMgr} {slot s t : Nat}

/-- A thread that has left its command to the worker looks at `queue_sz` after the
unlock.  No other thread calls `cmd_mgr_queue` in between. -/
def Undisturbed (m : CmdMgr) : CmdEvent → Prop
  | .submit t => (∃ t', m.callers t' = .deferring) → (m.calls t).reqcfm = true →
    (m.calls t).defer = true
  | _ => True

/-- Two threads leave their commands to the worker, and each sees two of them. -/
def lostWakeUp : List CmdEvent :=
  [.alloc 0 5 6 false (.sendMsg true), .check 0, .alloc 1 7 8 false (.sendMsg true), .check 1,
    .submit 0, .submit 1, .wake 0, .wake 1]

-- Without the condition nothing is left to be done and two commands wait.
example : (Transition.run (cmdStep fun msgId => msgId == 5) lostWakeUp rwnxCmdMgrInit).map
    (fun m => (m.cmds, m.workPending, m.worker, m.callers 0, m.callers 1))
    = some ([0, 1], false, .idle, .idle, .idle) := by decide

/-! ## Who wakes the worker -/

/-- The worker is at work or will be woken. -/
def Drive (m : CmdMgr) : Prop :=
  m.workPending = true ∨ m.worker ≠ .idle ∨ (∃ t, m.callers t = .deferring ∧ m.queueSz ≤ 1) ∨
    ∃ t a, m.callers t = .waiting a ∧ (m.cmdArray a).complete = true

/-- A first command that waits for the worker does not wait in vain. -/
def Driven (m : CmdMgr) : Prop :=
  m.crashed = false → ∀ s, m.cmds.head? = some s → (m.cmdArray s).waitPush = true → Drive m

theorem driven_init : Driven rwnxCmdMgrInit := fun _ _ hs _ => by cases hs

/-- A step of a thread that does not wake the worker. -/
theorem Drive.of_caller (h : Drive m) (hpending : m'.workPending = m.workPending)
    (hworker : m'.worker = m.worker) {x y : Caller} (hcaller : m.callers t = x)
    (hcallers : m'.callers = Function.update m.callers t y)
    (hdeferring : x ≠ .deferring) (hwaiting : ∀ a, x ≠ .waiting a)
    (hsz : ∀ t', m.callers t' = .deferring → m.queueSz ≤ 1 → m'.queueSz ≤ 1)
    (hcomplete : ∀ t' a, m.callers t' = .waiting a → (m.cmdArray a).complete = true →
      (m'.cmdArray a).complete = true) : Drive m' := by
  have hother : ∀ t', t' ≠ t → m'.callers t' = m.callers t' := fun t' ht => by
    rw [hcallers, Function.update_of_ne ht]
  rcases h with h | h | ⟨t', ht', hle⟩ | ⟨t', a, ht', ha⟩
  · exact Or.inl (hpending.trans h)
  · exact Or.inr (Or.inl (hworker ▸ h))
  · have hne : t' ≠ t := fun heq => hdeferring (hcaller.symm.trans (heq ▸ ht'))
    exact Or.inr (Or.inr (Or.inl ⟨t', (hother t' hne).trans ht', hsz t' ht' hle⟩))
  · have hne : t' ≠ t := fun heq => hwaiting a (hcaller.symm.trans (heq ▸ ht'))
    exact Or.inr (Or.inr (Or.inr ⟨t', a, (hother t' hne).trans ht', hcomplete t' a ht' ha⟩))

theorem wakeIf_true (m : CmdMgr) {c : Bool} (hc : c = true) : (m.wakeIf c).workPending = true := by
  rw [hc]
  rfl

/-- A thread takes, moves on with or frees a command that is not through. -/
theorem Driven.of_update (h : Driven m) {x y : Caller} {c : RwnxCmd} (hcaller : m.callers t = x)
    (hpending : m'.workPending = m.workPending) (hworker : m'.worker = m.worker)
    (hcallers : m'.callers = Function.update m.callers t y)
    (harr : m'.cmdArray = Function.update m.cmdArray slot c) (hcmds : m'.cmds = m.cmds)
    (hsz : m'.queueSz = m.queueSz) (hcr : m'.crashed = m.crashed)
    (hdeferring : x ≠ .deferring) (hwaiting : ∀ a, x ≠ .waiting a)
    (hpush : c.waitPush = (m.cmdArray slot).waitPush)
    (hcomplete : c.complete = (m.cmdArray slot).complete) : Driven m' := by
  intro hcr' s hs hwait
  rw [hcr] at hcr'
  rw [hcmds] at hs
  have hwait₀ : (m.cmdArray s).waitPush = true := by
    by_cases hne : s = slot
    · rw [harr, hne, Function.update_self, hpush] at hwait
      rw [hne]
      exact hwait
    · rw [harr, Function.update_of_ne hne] at hwait
      exact hwait
  refine (h hcr' s hs hwait₀).of_caller hpending hworker hcaller hcallers hdeferring hwaiting
    (fun _ _ hle => by rw [hsz]; exact hle) fun _ a _ ha => ?_
  by_cases hne : a = slot
  · rw [harr, hne, Function.update_self, hcomplete]
    rw [hne] at ha
    exact ha
  · rw [harr, Function.update_of_ne hne]
    exact ha

/-- A thread moves on without a change of the commands. -/
theorem Driven.of_caller (h : Driven m) {x y : Caller} (hcaller : m.callers t = x)
    (hpending : m'.workPending = m.workPending) (hworker : m'.worker = m.worker)
    (hcallers : m'.callers = Function.update m.callers t y) (harr : m'.cmdArray = m.cmdArray)
    (hcmds : m'.cmds = m.cmds) (hsz : m'.queueSz = m.queueSz) (hcr : m'.crashed = m.crashed)
    (hdeferring : x ≠ .deferring) (hwaiting : ∀ a, x ≠ .waiting a) : Driven m' :=
  h.of_update hcaller hpending hworker hcallers
    (harr.trans (Function.update_eq_self 0 m.cmdArray).symm) hcmds hsz hcr hdeferring hwaiting
    rfl rfl

/-- A command that is put on the queue and left to the worker. -/
theorem Driven.of_defer (hok : CmdMgrOk m) (h : Driven m)
    (hcaller : m.callers t = .ready slot) (hfull : m.refuses = false)
    (hquiet : ∀ t', m.callers t' ≠ .deferring) :
    Driven ((m.enqueue slot true).setCaller t .deferring) := by
  intro _ s hs hwait
  have hroom := hok.queue.room hfull
  have hnew := hok.fresh_notMem hcaller hfull
  have hsz : ((m.enqueue slot true).setCaller t .deferring).queueSz = m.queueSz + 1 := rfl
  cases hcmds : m.cmds with
  | nil =>
    refine Or.inr (Or.inr (Or.inl ⟨t, callers_setCaller_self .., ?_⟩))
    rw [hsz, hok.queue.size, hcmds]
    decide
  | cons a l =>
    have ha : a = s := by
      have hhead : (m.cmds ++ [slot]).head? = some s := hs
      rw [hcmds] at hhead
      exact Option.some.inj hhead
    have hne : s ≠ slot := by
      rintro rfl
      exact hnew (by rw [hcmds, ha]; exact List.mem_cons_self)
    have hwait₀ : (m.cmdArray s).waitPush = true := by
      have harr : ((m.enqueue slot true).setCaller t .deferring).cmdArray s = m.cmdArray s :=
        cmdArray_enqueue_of_ne hne m true
      rw [harr] at hwait
      exact hwait
    refine (h hroom.1 s (by rw [hcmds, ha]; rfl) hwait₀).of_caller rfl rfl hcaller rfl nofun
      nofun (fun t' ht' => absurd ht' (hquiet t')) fun t' b ht' hb => ?_
    have hbs : b ≠ slot := by
      rintro rfl
      have htt : some t' = some t := hok.holds.unique (by rw [hold_some ht']; rfl)
        (by rw [hold_some hcaller]; rfl)
      rw [Option.some.inj htt, hcaller] at ht'
      cases ht'
    have harr : ((m.enqueue slot true).setCaller t .deferring).cmdArray b = m.cmdArray b :=
      cmdArray_enqueue_of_ne hbs m true
    rw [harr]
    exact hb

/-- The command that was sent is confirmed: who waits for it will wake the worker, or
is the worker. -/
theorem Driven.of_confirm (hok : CmdMgrOk m) (hmem : slot ∈ m.cmds) (hsent : m.Sent slot) :
    Driven (m.confirm slot) := by
  rw [confirm_eq]
  intro hcr _ _ _
  obtain ⟨i, hi⟩ := hok.holds.owner hcr slot hmem hsent.1
  rcases hi with hi | hi
  · obtain ⟨t, ht⟩ := hold_pushing hi
    exact absurd ht (hsent.2 t)
  · cases i with
    | none =>
      refine Or.inr (Or.inl fun hidle => ?_)
      rw [hold_none (show m.worker = .idle from hidle)] at hi
      cases hi
    | some t =>
      refine Or.inr (Or.inr (Or.inr ⟨t, slot, hold_waiting hi, ?_⟩))
      show (Function.update m.cmdArray slot _ slot).complete = true
      rw [Function.update_self]
      rfl

/-- A thread that leaves its command to the worker looks at the count. -/
theorem Driven.of_wake (h : Driven m) (hcaller : m.callers t = .deferring) :
    Driven ((m.returnTo t 0).wakeIf (m.queueSz ≤ 1)) := by
  by_cases hle : m.queueSz ≤ 1
  · intro _ _ _ _
    exact Or.inl (wakeIf_true _ (decide_eq_true hle))
  · rw [decide_eq_false hle]
    intro hcr s hs hwait
    rcases h hcr s hs hwait with hd | hd | ⟨_, _, hsz⟩ | ⟨t', a, ht', ha⟩
    · exact Or.inl hd
    · exact Or.inr (Or.inl hd)
    · exact absurd hsz hle
    · refine Or.inr (Or.inr (Or.inr ⟨t', a, ?_, ha⟩))
      have hne : t' ≠ t := by
        rintro rfl
        rw [hcaller] at ht'
        cases ht'
      show (Function.update m.callers t .idle) t' = .waiting a
      rw [Function.update_of_ne hne]
      exact ht'

theorem driven_step (hok : SteadyOk m) (h : Driven m) {e : CmdEvent} (hsteady : Steady m e)
    (hquiet : Undisturbed m e) (hstep : cmdStep forced m e = some m') : Driven m' := by
  cases cmdMove_of_step hstep with
  | alloc _ hcaller _ =>
    exact h.of_update hcaller rfl rfl rfl rfl rfl rfl rfl nofun nofun rfl rfl
  | down _ hcaller => exact h.of_caller hcaller rfl rfl rfl rfl rfl rfl rfl nofun nofun
  | check hcaller _ => exact h.of_caller hcaller rfl rfl rfl rfl rfl rfl rfl nofun nofun
  | @refuse t slot hcaller _ _ =>
    exact h.of_update hcaller rfl rfl rfl (CmdMgrOk.refuse_cmdArray m t slot) rfl rfl rfl nofun
      nofun rfl rfl
  | force _ _ _ _ => exact fun _ _ _ _ => Or.inl rfl
  | @defer t slot hcaller hcfm hcall hfull _ =>
    refine h.of_defer hok.toCmdMgrOk hcaller hfull fun t' ht' => ?_
    have hforce := hquiet ⟨t', ht'⟩ hcfm
    rw [hcall] at hforce
    cases hforce
  | pass hcaller _ =>
    rw [aicwfSetCmdTx_eq]
    exact h.of_caller hcaller rfl rfl rfl rfl rfl rfl rfl nofun nofun
  | drop hcaller _ => exact h.of_caller hcaller rfl rfl rfl rfl rfl rfl rfl nofun nofun
  | release hcaller =>
    exact h.of_update hcaller rfl rfl rfl rfl rfl rfl rfl nofun nofun rfl rfl
  | @direct t slot hcaller _ _ _ hlast _ =>
    intro _ s hs hwait
    have hhead : (m.cmds ++ [slot]).head? = some s := hs
    rw [hok.queue.lastWaits_eq_false hlast] at hhead
    rw [← Option.some.inj hhead] at hwait
    have hself : ((m.enqueue slot false).setCaller t (.pushing slot)).cmdArray slot
        = (m.cmdArray slot).enqueued m.nextTkn false := cmdArray_enqueue_self m slot false
    have hpush : (m.cmdArray slot).waitPush = false :=
      hok.waitPush_of_caller (by rw [hold_some hcaller]; rfl)
    rw [hself] at hwait
    have hwait₀ : ((m.cmdArray slot).waitPush || false) = true := hwait
    rw [hpush] at hwait₀
    cases hwait₀
  | wake hcaller => exact h.of_wake hcaller
  | push hcaller =>
    rw [aicwfSetCmdTx_eq]
    exact h.of_caller hcaller rfl rfl rfl rfl rfl rfl rfl nofun nofun
  | @finish t slot hcaller _ =>
    intro _ s hs _
    refine Or.inl (wakeIf_true _ ?_)
    rw [hok.up, Bool.and_true, Bool.not_eq_true', List.isEmpty_eq_false_iff]
    intro hnil
    rw [wakeIf_cmds] at hs
    have hhead : m.cmds.head? = some s := hs
    rw [hnil] at hhead
    cases hhead
  | kill _ => exact hsteady.1.elim
  | timeout _ =>
    intro hcr
    have hcrashed : (m.cmdTimeout _).crashed = false := hcr
    rw [cmdTimeout_crashed] at hcrashed
    cases hcrashed
  | noCfm _ => exact h
  | cfm hcfm =>
    exact Driven.of_confirm hok.toCmdMgrOk (findCfm_mem hcfm) (hsteady.1 _ hcfm)
  | work _ _ => exact fun _ _ _ _ => Or.inr (Or.inl nofun)
  | stop _ hhead =>
    intro _ s hs hwait
    have hno : (m.cmdArray s).waitPush = false := hhead s hs
    rw [hno] at hwait
    cases hwait
  | choose _ _ _ => exact fun _ _ _ _ => Or.inr (Or.inl nofun)
  | workPush _ => exact fun _ _ _ _ => Or.inr (Or.inl nofun)
  | workFinish _ _ => exact fun _ _ _ _ => Or.inr (Or.inl nofun)
  | workTimeout _ => exact fun _ _ _ _ => Or.inr (Or.inl nofun)
  | usb => exact h

/-! ## Every step brings the queue forward -/

/-- No thread begins a call or is killed, nothing times out, and the device stays as it
is.  The firmware confirms what was sent. -/
def Drains (m : CmdMgr) : CmdEvent → Prop
  | .check _ => True
  | .submit t => Undisturbed m (.submit t)
  | .release _ => True
  | .wake _ => True
  | .push _ => True
  | .finish _ => True
  | .cfm msgId accepts => ∃ slot, m.findCfm msgId accepts = some slot ∧ m.Sent slot
  | .work => True
  | .choose => True
  | .workPush => True
  | .workFinish => True
  | _ => False

theorem Drains.steady {e : CmdEvent} (h : Drains m e) : Steady m e := by
  cases e with
  | check t => exact ⟨trivial, nofun⟩
  | submit t => exact ⟨trivial, nofun⟩
  | release t => exact ⟨trivial, nofun⟩
  | wake t => exact ⟨trivial, nofun⟩
  | push t => exact ⟨trivial, nofun⟩
  | finish t => exact ⟨trivial, nofun⟩
  | cfm msgId accepts =>
    refine ⟨fun slot hslot => ?_, nofun⟩
    obtain ⟨a, ha, hsent⟩ := h
    rw [ha] at hslot
    exact Option.some.inj hslot ▸ hsent
  | work => exact ⟨trivial, nofun⟩
  | choose => exact ⟨trivial, nofun⟩
  | workPush => exact ⟨trivial, nofun⟩
  | workFinish => exact ⟨trivial, nofun⟩
  | _ => exact h.elim

theorem Drains.undisturbed {e : CmdEvent} (h : Drains m e) : Undisturbed m e := by
  cases e with
  | submit t => exact h
  | _ => trivial

def Caller.weight : Caller → Nat
  | .idle => 0
  | .allocated _ => 10
  | .ready _ => 9
  | .passed _ => 1
  | .pushing _ => 5
  | .deferring => 4
  | .waiting _ => 4

def Worker.weight : Worker → Nat
  | .idle => 0
  | .looping => 2
  | .chosen _ => 1
  | .waiting _ => 3

def RwnxCmd.weight (cmd : RwnxCmd) : Nat := if cmd.waitPush then 4 else 1

/-- What the commands of the queue still need. -/
def CmdMgr.queueWeight (m : CmdMgr) : Nat := (m.cmds.map fun s => (m.cmdArray s).weight).sum

/-- How many steps are left at most, when only the threads `T` are in a call. -/
def CmdMgr.weight (T : Finset Nat) (m : CmdMgr) : Nat :=
  ∑ t ∈ T, (m.callers t).weight + m.worker.weight + 3 * m.workPending.toNat + m.queueWeight

theorem sum_weight_update {T : Finset Nat} {x : Caller} (ht : t ∈ T)
    (hcallers : m'.callers = Function.update m.callers t x) :
    ∑ t' ∈ T, (m'.callers t').weight + (m.callers t).weight
      = ∑ t' ∈ T, (m.callers t').weight + x.weight := by
  have hrest : ∑ t' ∈ T.erase t, (m'.callers t').weight
      = ∑ t' ∈ T.erase t, (m.callers t').weight := by
    apply Finset.sum_congr rfl
    intro t' ht'
    rw [hcallers, Function.update_of_ne (Finset.ne_of_mem_erase ht')]
  have hself : (m'.callers t).weight = x.weight := by
    rw [hcallers, Function.update_self]
  rw [← Finset.add_sum_erase T _ ht, ← Finset.add_sum_erase T (fun t' => (m.callers t').weight) ht,
    hrest, hself]
  omega

theorem queueWeight_congr (hcmds : m'.cmds = m.cmds)
    (hpush : ∀ s, (m'.cmdArray s).waitPush = (m.cmdArray s).waitPush) :
    m'.queueWeight = m.queueWeight := by
  unfold queueWeight RwnxCmd.weight
  simp only [hcmds, hpush]

/-- A change of one command that leaves it sent or not sent. -/
theorem queueWeight_update (slot : Nat) {c : RwnxCmd} (hcmds : n.cmds = m.cmds)
    (harr : n.cmdArray = Function.update m.cmdArray slot c)
    (hpush : c.waitPush = (m.cmdArray slot).waitPush) : n.queueWeight = m.queueWeight := by
  refine queueWeight_congr hcmds fun s => ?_
  by_cases hne : s = slot
  · rw [harr, hne, Function.update_self, hpush]
  · rw [harr, Function.update_of_ne hne]

/-- The commands behind the first one are what they were. -/
theorem sum_weight_tail {l : List Nat} {c : RwnxCmd}
    (harr : n.cmdArray = Function.update m.cmdArray slot c) (hnot : slot ∉ l) :
    (l.map fun s => (n.cmdArray s).weight).sum = (l.map fun s => (m.cmdArray s).weight).sum := by
  congr 1
  apply List.map_congr_left
  intro s hs
  have hne : s ≠ slot := fun heq => hnot (heq ▸ hs)
  rw [harr, Function.update_of_ne hne]

theorem queueWeight_cons {l : List Nat} (hcons : m.cmds = slot :: l) :
    m.queueWeight = (m.cmdArray slot).weight + (l.map fun s => (m.cmdArray s).weight).sum := by
  unfold queueWeight
  rw [hcons, List.map_cons, List.sum_cons]

theorem weight_wakeIf_le (T : Finset Nat) (m : CmdMgr) (c : Bool) :
    (m.wakeIf c).weight T ≤ m.weight T + 3 := by
  cases c with
  | false => exact Nat.le_add_right _ _
  | true =>
    show ∑ t ∈ T, (m.callers t).weight + m.worker.weight + 3 * 1 + m.queueWeight
      ≤ ∑ t ∈ T, (m.callers t).weight + m.worker.weight + 3 * m.workPending.toNat
        + m.queueWeight + 3
    omega

/-- What a step of a thread takes from the weight and adds to it. -/
theorem weight_caller_queue {T : Finset Nat} {x y : Caller} (ht : t ∈ T)
    (hcaller : m.callers t = x) (hcallers : n.callers = Function.update m.callers t y)
    (hworker : n.worker = m.worker) :
    n.weight T + x.weight + 3 * m.workPending.toNat + m.queueWeight
      = m.weight T + y.weight + 3 * n.workPending.toNat + n.queueWeight := by
  have hsum := sum_weight_update ht hcallers
  rw [hcaller] at hsum
  unfold CmdMgr.weight
  rw [hworker]
  omega

/-- A step of a thread that leaves the queue as it is. -/
theorem weight_caller {T : Finset Nat} {x y : Caller} (ht : t ∈ T) (hcaller : m.callers t = x)
    (hcallers : n.callers = Function.update m.callers t y) (hworker : n.worker = m.worker)
    (hpending : n.workPending = m.workPending) (hqueue : n.queueWeight = m.queueWeight) :
    n.weight T + x.weight = m.weight T + y.weight := by
  have heq := weight_caller_queue ht hcaller hcallers hworker
  rw [hpending, hqueue] at heq
  omega

theorem weight_lt_of_caller {T : Finset Nat} {x y : Caller} (ht : t ∈ T)
    (hcaller : m.callers t = x) (hcallers : n.callers = Function.update m.callers t y)
    (hworker : n.worker = m.worker) (hpending : n.workPending = m.workPending)
    (hqueue : n.queueWeight = m.queueWeight) (hlt : y.weight < x.weight) :
    n.weight T < m.weight T := by
  have heq := weight_caller ht hcaller hcallers hworker hpending hqueue
  omega

theorem weight_worker {T : Finset Nat} {x : Worker} (hcallers : n.callers = m.callers)
    (hworker : n.worker = x) :
    n.weight T + m.worker.weight + 3 * m.workPending.toNat + m.queueWeight
      = m.weight T + x.weight + 3 * n.workPending.toNat + n.queueWeight := by
  unfold CmdMgr.weight
  rw [hworker, hcallers]
  omega

/-- A command comes to the end of the queue. -/
theorem queueWeight_enqueue (hnew : slot ∉ m.cmds) (defer : Bool) :
    (m.enqueue slot defer).queueWeight
      = m.queueWeight + ((m.cmdArray slot).enqueued m.nextTkn defer).weight := by
  have hcmds : (m.enqueue slot defer).cmds = m.cmds ++ [slot] := rfl
  have hrest := sum_weight_tail (cmdArray_enqueue m slot defer) hnew
  unfold queueWeight
  rw [hcmds, List.map_append, List.sum_append, hrest, List.map_singleton, List.sum_singleton,
    cmdArray_enqueue_self]

/-- The first command leaves the queue. -/
theorem weight_confirm (h : CmdMgrOk m) (T : Finset Nat) (hmem : slot ∈ m.cmds)
    (hsent : m.Sent slot) : (m.confirm slot).weight T < m.weight T := by
  have hcons := h.queue.cmds_eq hmem hsent.1
  have hnot := h.queue.notMem_tail hsent.1
  rw [confirm_eq]
  have hqueue : ({ m with
      cmds := m.cmds.erase slot, queueSz := m.queueSz - 1
      cmdArray := Function.update m.cmdArray slot (m.cmdArray slot).confirmed } :
        CmdMgr).queueWeight = (m.cmds.tail.map fun s => (m.cmdArray s).weight).sum := by
    have htail : m.cmds.erase slot = m.cmds.tail := by
      conv_lhs => rw [hcons]
      exact List.erase_cons_head slot m.cmds.tail
    unfold queueWeight
    rw [htail]
    exact sum_weight_tail rfl hnot
  have hpos : 0 < (m.cmdArray slot).weight := by
    unfold RwnxCmd.weight
    split_ifs <;> omega
  have hbefore := queueWeight_cons hcons
  show ∑ t ∈ T, (m.callers t).weight + m.worker.weight + 3 * m.workPending.toNat + _
    < ∑ t ∈ T, (m.callers t).weight + m.worker.weight + 3 * m.workPending.toNat + _
  rw [hqueue, hbefore]
  omega

theorem weight_workPush (h : CmdMgrOk m) (T : Finset Nat) (hworker : m.worker = .chosen slot) :
    ({ (m.modifyCmd slot fun cmd => { cmd with waitPush := false }).aicwfSetCmdTx slot true with
      worker := .waiting slot } : CmdMgr).weight T < m.weight T := by
  have hfits := h.holds.fits none
  rw [hold_none hworker] at hfits
  have hcons : m.cmds = slot :: m.cmds.tail := (List.cons_head?_tail hfits.2.2).symm
  have hnot : slot ∉ m.cmds.tail := by
    have hnodup := h.queue.nodup
    rw [hcons] at hnodup
    exact (List.nodup_cons.mp hnodup).1
  rw [aicwfSetCmdTx_eq]
  have hfour : (m.cmdArray slot).weight = 4 := if_pos hfits.2.1
  have hbefore := queueWeight_cons hcons
  have hone : (Function.update m.cmdArray slot { m.cmdArray slot with waitPush := false }
      slot).weight = 1 := by
    rw [Function.update_self]
    rfl
  have hafter := queueWeight_cons (m := m.modifyCmd slot fun cmd => { cmd with waitPush := false })
    hcons
  have htail := sum_weight_tail (m := m)
    (n := m.modifyCmd slot fun cmd => { cmd with waitPush := false }) rfl hnot
  have hself : ((m.modifyCmd slot fun cmd => { cmd with waitPush := false }).cmdArray slot).weight
      = 1 := hone
  show ∑ t ∈ T, (m.callers t).weight + 3 + 3 * m.workPending.toNat
      + (m.modifyCmd slot fun cmd => { cmd with waitPush := false }).queueWeight
    < ∑ t ∈ T, (m.callers t).weight + m.worker.weight + 3 * m.workPending.toNat + m.queueWeight
  rw [hafter, hbefore, htail, hself, hfour, hworker]
  show _ < _ + 1 + _ + _
  omega

/-- The command that a thread queues is marked if it is left to the worker. -/
theorem CmdMgrOk.queueWeight_queue (h : CmdMgrOk m) (hcaller : m.callers t = .ready slot)
    (hfull : m.refuses = false) (defer : Bool) :
    (m.enqueue slot defer).queueWeight = m.queueWeight + if defer then 4 else 1 := by
  have hpush : (m.cmdArray slot).waitPush = false :=
    h.waitPush_of_caller (by rw [hold_some hcaller]; rfl)
  rw [queueWeight_enqueue (h.fresh_notMem hcaller hfull)]
  show _ + (if (m.cmdArray slot).waitPush || defer then 4 else 1) = _
  rw [hpush, Bool.false_or]

/-- Every draining step makes the weight smaller. -/
theorem weight_lt_of_drains (h : CmdMgrOk m) {T : Finset Nat}
    (hT : ∀ t, t ∉ T → m.callers t = .idle) {e : CmdEvent} (hdrains : Drains m e)
    (hstep : cmdStep forced m e = some m') : m'.weight T < m.weight T := by
  have hin : ∀ {t : Nat} {x : Caller}, m.callers t = x → x ≠ .idle → t ∈ T := by
    intro t x hcaller hx
    by_contra hnot
    exact hx (hcaller.symm.trans (hT t hnot))
  cases cmdMove_of_step hstep with
  | check hcaller _ =>
    exact weight_lt_of_caller (hin hcaller nofun) hcaller rfl rfl rfl rfl (show 9 < 10 by omega)
  | @refuse t slot hcaller _ _ =>
    exact weight_lt_of_caller (hin hcaller nofun) hcaller rfl rfl rfl
      (queueWeight_update slot rfl (CmdMgrOk.refuse_cmdArray m t slot) rfl) (show 0 < 9 by omega)
  | @force t slot hcaller _ _ hfull =>
    have heq := weight_caller_queue (n := ((m.enqueue slot true).returnTo t 0).wakeCmdWork)
      (hin hcaller nofun) hcaller rfl rfl
    have hqueue : (((m.enqueue slot true).returnTo t 0).wakeCmdWork).queueWeight
        = m.queueWeight + 4 := h.queueWeight_queue hcaller hfull true
    rw [hqueue] at heq
    change _ + 9 + _ + _ = _ + 0 + 3 * 1 + _ at heq
    omega
  | @defer t slot hcaller _ _ hfull _ =>
    have heq := weight_caller_queue (n := (m.enqueue slot true).setCaller t .deferring)
      (hin hcaller nofun) hcaller rfl rfl
    have hqueue : ((m.enqueue slot true).setCaller t .deferring).queueWeight
        = m.queueWeight + 4 := h.queueWeight_queue hcaller hfull true
    rw [hqueue] at heq
    change _ + 9 + 3 * m.workPending.toNat + _ = _ + 4 + 3 * m.workPending.toNat + _ at heq
    omega
  | @direct t slot hcaller _ _ hfull _ _ =>
    have heq := weight_caller_queue (n := (m.enqueue slot false).setCaller t (.pushing slot))
      (hin hcaller nofun) hcaller rfl rfl
    have hqueue : ((m.enqueue slot false).setCaller t (.pushing slot)).queueWeight
        = m.queueWeight + 1 := h.queueWeight_queue hcaller hfull false
    rw [hqueue] at heq
    change _ + 9 + 3 * m.workPending.toNat + _ = _ + 5 + 3 * m.workPending.toNat + _ at heq
    omega
  | pass hcaller _ =>
    rw [aicwfSetCmdTx_eq]
    exact weight_lt_of_caller (hin hcaller nofun) hcaller rfl rfl rfl rfl (show 1 < 9 by omega)
  | drop hcaller _ =>
    exact weight_lt_of_caller (hin hcaller nofun) hcaller rfl rfl rfl rfl (show 1 < 9 by omega)
  | @release t slot hcaller =>
    exact weight_lt_of_caller (hin hcaller nofun) hcaller rfl rfl rfl
      (queueWeight_update slot rfl rfl rfl) (show 0 < 1 by omega)
  | @wake t hcaller =>
    have hle := weight_wakeIf_le T (m.returnTo t 0) (m.queueSz ≤ 1)
    have heq := weight_caller (n := m.returnTo t 0) (hin hcaller nofun) hcaller rfl rfl rfl rfl
    change _ + 4 = _ + 0 at heq
    omega
  | push hcaller =>
    rw [aicwfSetCmdTx_eq]
    exact weight_lt_of_caller (hin hcaller nofun) hcaller rfl rfl rfl rfl (show 4 < 5 by omega)
  | @finish t slot hcaller _ =>
    have hle := weight_wakeIf_le T ((m.rwnxCmdFree slot).returnTo t 0)
      (!m.cmds.isEmpty && m.usbUp)
    have heq := weight_caller (n := (m.rwnxCmdFree slot).returnTo t 0) (hin hcaller nofun) hcaller
      rfl rfl rfl (queueWeight_update slot rfl rfl rfl)
    change _ + 4 = _ + 0 at heq
    omega
  | noCfm hcfm =>
    obtain ⟨a, ha, _⟩ := hdrains
    rw [hcfm] at ha
    cases ha
  | cfm hcfm =>
    obtain ⟨a, ha, hsent⟩ := hdrains
    rw [hcfm] at ha
    exact weight_confirm h T (findCfm_mem hcfm) (Option.some.inj ha ▸ hsent)
  | work hpending hworker =>
    have heq := weight_worker (m := m) (n := { m with workPending := false, worker := .looping })
      (T := T) rfl rfl
    rw [hworker, hpending] at heq
    change _ + 0 + 3 * 1 + m.queueWeight = _ + 2 + 3 * 0 + m.queueWeight at heq
    omega
  | stop hworker _ =>
    have heq := weight_worker (m := m) (n := { m with worker := .idle }) (T := T) rfl rfl
    rw [hworker] at heq
    change _ + 2 + 3 * m.workPending.toNat + m.queueWeight
      = _ + 0 + 3 * m.workPending.toNat + m.queueWeight at heq
    omega
  | @choose slot hworker _ _ =>
    have heq := weight_worker (m := m) (n := { m with worker := .chosen slot }) (T := T) rfl rfl
    rw [hworker] at heq
    change _ + 2 + 3 * m.workPending.toNat + m.queueWeight
      = _ + 1 + 3 * m.workPending.toNat + m.queueWeight at heq
    omega
  | workPush hworker => exact weight_workPush h T hworker
  | @workFinish slot hworker _ =>
    have heq := weight_worker (m := m) (n := { m.rwnxCmdFree slot with worker := .looping })
      (T := T) rfl rfl
    have hqueue : ({ m.rwnxCmdFree slot with worker := .looping } : CmdMgr).queueWeight
        = m.queueWeight := queueWeight_update slot rfl rfl rfl
    rw [hworker, hqueue] at heq
    change _ + 3 + 3 * m.workPending.toNat + m.queueWeight
      = _ + 2 + 3 * m.workPending.toNat + m.queueWeight at heq
    omega
  | _ => exact hdrains.elim

/-! ## When nothing is left to be done -/

/-- The states of a run that only drains, with the threads `T`. -/
structure Draining (T : Finset Nat) (m : CmdMgr) : Prop where
  steady : SteadyOk m
  driven : Driven m
  running : m.crashed = false
  within : ∀ t, t ∉ T → m.callers t = .idle

theorem crashed_of_drains {e : CmdEvent} (hdrains : Drains m e)
    (hstep : cmdStep forced m e = some m') : m'.crashed = m.crashed := by
  cases cmdMove_of_step hstep with
  | check _ _ => rfl
  | refuse _ _ _ => rfl
  | force _ _ _ _ => rfl
  | defer _ _ _ _ _ => rfl
  | direct _ _ _ _ _ _ => rfl
  | pass _ _ =>
    rw [aicwfSetCmdTx_eq]
    rfl
  | drop _ _ => rfl
  | release _ => rfl
  | wake _ =>
    rw [wakeIf_crashed]
    rfl
  | push _ =>
    rw [aicwfSetCmdTx_eq]
    rfl
  | finish _ _ =>
    rw [wakeIf_crashed]
    rfl
  | cfm _ => rw [confirm_eq]
  | noCfm _ => rfl
  | work _ _ => rfl
  | stop _ _ => rfl
  | choose _ _ _ => rfl
  | workPush _ =>
    rw [aicwfSetCmdTx_eq]
    rfl
  | workFinish _ _ => rfl
  | _ => exact hdrains.elim

/-- No thread begins a call. -/
theorem callers_of_drains {e : CmdEvent} (hdrains : Drains m e)
    (hstep : cmdStep forced m e = some m') (hidle : m.callers t = .idle) :
    m'.callers t = .idle := by
  -- Only a thread that is in a call moves.
  have hother : ∀ {t' : Nat} {x y : Caller}, m.callers t' = y → y ≠ .idle →
      Function.update m.callers t' x t = .idle := by
    intro t' x y hcaller hy
    have hne : t ≠ t' := by
      rintro rfl
      exact hy (hcaller.symm.trans hidle)
    rw [Function.update_of_ne hne, hidle]
  cases cmdMove_of_step hstep with
  | check hcaller _ => exact hother hcaller nofun
  | refuse hcaller _ _ => exact hother hcaller nofun
  | force hcaller _ _ _ => exact hother hcaller nofun
  | defer hcaller _ _ _ _ => exact hother hcaller nofun
  | direct hcaller _ _ _ _ _ => exact hother hcaller nofun
  | pass hcaller _ =>
    rw [aicwfSetCmdTx_eq]
    exact hother hcaller nofun
  | drop hcaller _ => exact hother hcaller nofun
  | release hcaller => exact hother hcaller nofun
  | wake hcaller =>
    rw [wakeIf_callers]
    exact hother hcaller nofun
  | push hcaller =>
    rw [aicwfSetCmdTx_eq]
    exact hother hcaller nofun
  | finish hcaller _ =>
    rw [wakeIf_callers]
    exact hother hcaller nofun
  | cfm _ =>
    rw [confirm_eq]
    exact hidle
  | noCfm _ => exact hidle
  | work _ _ => exact hidle
  | stop _ _ => exact hidle
  | choose _ _ _ => exact hidle
  | workPush _ =>
    rw [aicwfSetCmdTx_eq]
    exact hidle
  | workFinish _ _ => exact hidle
  | _ => exact hdrains.elim

theorem Draining.step {T : Finset Nat} (h : Draining T m) {e : CmdEvent} (hdrains : Drains m e)
    (hstep : cmdStep forced m e = some m') : Draining T m' where
  steady := h.steady.step hdrains.steady hstep
  driven := driven_step h.steady h.driven hdrains.steady hdrains.undisturbed hstep
  running := (crashed_of_drains hdrains hstep).trans h.running
  within t ht := callers_of_drains hdrains hstep (h.within t ht)

/-- Nothing is on the queue, and every call has returned. -/
structure Drained (m : CmdMgr) : Prop where
  cmds : m.cmds = []
  worker : m.worker = .idle
  pending : m.workPending = false
  callers : ∀ t, m.callers t = .idle

/-- Who waits for a command that was sent will see its confirmation. -/
theorem cfm_enabled (h : CmdMgrOk m) {i : Option Nat} (hi : m.hold i = .waiting slot)
    (hmem : slot ∈ m.cmds) : Drains m (.cfm (m.cmdArray slot).reqid fun _ => true) := by
  have hsent := h.sent_of_waiting hi
  have hcons := h.queue.cmds_eq hmem hsent.1
  refine ⟨slot, ?_, hsent⟩
  unfold findCfm
  rw [hcons, List.find?_cons_of_pos]
  rw [h.queue.waitCfm slot hmem, beq_self_eq_true]
  rfl

theorem not_waiting_of_stuck (h : CmdMgrOk m)
    (hstuck : ∀ e, Drains m e → cmdStep forced m e = none) {i : Option Nat}
    (hi : m.hold i = .waiting slot) : (m.cmdArray slot).complete = true := by
  have hfits := h.holds.fits i
  rw [hi] at hfits
  rcases hfits.2.2 with hmem | hcomplete
  · have hnone := hstuck _ (cfm_enabled h hi hmem)
    cases hnone
  · exact hcomplete

/-- Nobody is between putting a command on the queue and the end of the call. -/
theorem not_queued_of_stuck (h : CmdMgrOk m)
    (hstuck : ∀ e, Drains m e → cmdStep forced m e = none) (t : Nat) :
    m.callers t ≠ .deferring ∧ ∀ a, m.callers t ≠ .pushing a ∧ m.callers t ≠ .waiting a := by
  refine ⟨fun hcaller => ?_, fun a => ⟨fun hcaller => ?_, fun hcaller => ?_⟩⟩
  · have hnone := hstuck (.wake t) trivial
    simp only [cmdStep, hcaller] at hnone
    cases hnone
  · have hnone := hstuck (.push t) trivial
    simp only [cmdStep, hcaller] at hnone
    cases hnone
  · have hcomplete := not_waiting_of_stuck h hstuck (hold_some hcaller)
    have hnone := hstuck (.finish t) trivial
    simp only [cmdStep, hcaller, hcomplete, if_true] at hnone
    cases hnone

theorem worker_idle_of_stuck (h : CmdMgrOk m)
    (hstuck : ∀ e, Drains m e → cmdStep forced m e = none) :
    m.worker = .idle ∧ m.workPending = false := by
  have hworker : m.worker = .idle := by
    cases hw : m.worker with
    | idle => rfl
    | looping =>
      have hnone := hstuck .choose trivial
      simp only [cmdStep, hw, beq_self_eq_true, if_true] at hnone
      split at hnone
      · cases hnone
      · split_ifs at hnone
    | chosen slot =>
      have hnone := hstuck .workPush trivial
      simp only [cmdStep, hw] at hnone
      cases hnone
    | waiting slot =>
      have hcomplete := not_waiting_of_stuck h hstuck (hold_none hw)
      have hnone := hstuck .workFinish trivial
      simp only [cmdStep, hw, hcomplete, if_true] at hnone
      cases hnone
  refine ⟨hworker, ?_⟩
  cases hp : m.workPending with
  | false => rfl
  | true =>
    have hnone := hstuck .work trivial
    simp only [cmdStep, hp, hworker, beq_self_eq_true, Bool.and_true, if_true] at hnone
    cases hnone

/-- A queue that nobody works on is empty. -/
theorem cmds_nil_of_stuck {T : Finset Nat} (h : Draining T m)
    (hstuck : ∀ e, Drains m e → cmdStep forced m e = none) : m.cmds = [] := by
  have hok := h.steady.toCmdMgrOk
  have hcalls := not_queued_of_stuck hok hstuck
  obtain ⟨hworker, hpending⟩ := worker_idle_of_stuck hok hstuck
  cases hcmds : m.cmds with
  | nil => rfl
  | cons s l =>
    have hhead : m.cmds.head? = some s := by
      rw [hcmds]
      rfl
    cases hpush : (m.cmdArray s).waitPush with
    | true =>
      rcases h.driven h.running s hhead hpush with hd | hd | ⟨t, ht, _⟩ | ⟨t, a, ht, _⟩
      · rw [hpending] at hd
        cases hd
      · exact absurd hworker hd
      · exact absurd ht (hcalls t).1
      · exact absurd ht ((hcalls t).2 a).2
    | false =>
      obtain ⟨i, hi⟩ := hok.holds.owner h.running s (List.mem_of_head? hhead) hpush
      rcases hi with hi | hi
      · obtain ⟨t, ht⟩ := hold_pushing hi
        exact absurd ht ((hcalls t).2 s).1
      · cases i with
        | none =>
          rw [hold_none hworker] at hi
          cases hi
        | some t => exact absurd (hold_waiting hi) ((hcalls t).2 s).2

theorem drained_of_stuck {T : Finset Nat} (h : Draining T m)
    (hstuck : ∀ e, Drains m e → cmdStep forced m e = none) : Drained m := by
  have hok := h.steady.toCmdMgrOk
  have hcalls := not_queued_of_stuck hok hstuck
  obtain ⟨hworker, hpending⟩ := worker_idle_of_stuck hok hstuck
  have hcmds := cmds_nil_of_stuck h hstuck
  refine ⟨hcmds, hworker, hpending, fun t => ?_⟩
  cases hcaller : m.callers t with
  | idle => rfl
  | allocated slot =>
    have hnone := hstuck (.check t) trivial
    simp only [cmdStep, hcaller, hcmds, List.isEmpty_nil, Bool.or_true, if_true] at hnone
    cases hnone
  | ready slot =>
    have hquiet : Undisturbed m (.submit t) := by
      rintro ⟨t', ht'⟩
      exact absurd ht' (hcalls t').1
    have hnone := hstuck (.submit t) hquiet
    simp only [cmdStep, hcaller] at hnone
    cases hnone
  | passed slot =>
    have hnone := hstuck (.release t) trivial
    simp only [cmdStep, hcaller] at hnone
    cases hnone
  | deferring => exact absurd hcaller (hcalls t).1
  | pushing slot => exact absurd hcaller ((hcalls t).2 slot).1
  | waiting slot => exact absurd hcaller ((hcalls t).2 slot).2

theorem weight_le (h : CmdMgrOk m) (T : Finset Nat) : m.weight T ≤ 10 * T.card + 70 := by
  have hcallers : ∑ t ∈ T, (m.callers t).weight ≤ T.card * 10 := by
    refine Finset.sum_le_card_nsmul T _ 10 fun t _ => ?_
    unfold Caller.weight
    split <;> omega
  have hworker : m.worker.weight ≤ 3 := by
    unfold Worker.weight
    split <;> omega
  have hqueue : m.queueWeight ≤ m.cmds.length * 4 := by
    have hle := List.sum_le_card_nsmul (m.cmds.map fun s => (m.cmdArray s).weight) 4
      fun x hx => by
        obtain ⟨s, _, rfl⟩ := List.mem_map.mp hx
        unfold RwnxCmd.weight
        split_ifs <;> omega
    rw [List.length_map] at hle
    exact hle
  have hpending := Bool.toNat_le m.workPending
  have hbound := h.queue.bound
  unfold CmdMgr.weight
  omega

/-- From every state that the command manager gets to without a crash, what is left to
be done takes a bounded number of steps, and when nothing is left the queue is
empty, the worker idle and every call has returned. -/
theorem cmds_drained (forced : Nat → Bool) (es fs : List CmdEvent) (m m' : CmdMgr)
    (T : Finset Nat)
    (hes : Transition.Guarded (cmdStep forced) (fun m e => Steady m e ∧ Undisturbed m e) es
      rwnxCmdMgrInit)
    (hrun : Transition.run (cmdStep forced) es rwnxCmdMgrInit = some m)
    (hcr : m.crashed = false) (hT : ∀ t, t ∉ T → m.callers t = .idle)
    (hfs : Transition.Guarded (cmdStep forced) Drains fs m)
    (hdrain : Transition.run (cmdStep forced) fs m = some m') :
    fs.length ≤ 10 * T.card + 70 ∧
    ((∀ e, Drains m' e → cmdStep forced m' e = none) → Drained m') := by
  have hreach : Transition.Always (cmdStep forced) (fun m => SteadyOk m ∧ Driven m) es
      rwnxCmdMgrInit :=
    Transition.always_of_guarded
      (fun _ _ _ h hG hstep => ⟨h.1.step hG.1 hstep, driven_step h.1 h.2 hG.1 hG.2 hstep⟩)
      ⟨steadyOk_init, driven_init⟩ hes
  have hm := hreach.of_run hrun
  have hstart : Draining T m := ⟨hm.1, hm.2, hcr, hT⟩
  have hend : Draining T m' :=
    (Transition.always_of_guarded (fun _ _ _ h hG hstep => h.step hG hstep) hstart hfs).of_run
      hdrain
  have hlen := Transition.length_le_of_run (μ := CmdMgr.weight T)
    (fun _ _ _ (h : Draining T _) hG hstep => h.step hG hstep)
    (fun _ _ _ h hG hstep => weight_lt_of_drains h.steady.toCmdMgrOk h.within hG hstep)
    hstart hfs hdrain
  have hbound := weight_le hm.1.toCmdMgrOk T
  exact ⟨by omega, drained_of_stuck hend⟩

/-- What is left to be done when both requests are on the queue. -/
def twoDrained : List CmdEvent :=
  [.cfm 6 fun _ => true, .finish 0, .work, .choose, .workPush, .cfm 8 fun _ => true, .workFinish,
    .choose]

theorem twoQueued_undisturbed : Transition.Guarded (cmdStep fun _ => false)
    (fun m e => Steady m e ∧ Undisturbed m e) (twoRequests.take 8) rwnxCmdMgrInit := by
  have hquiet : ∀ {m : CmdMgr}, (∀ t, m.callers (t + 2) = .idle) → m.callers 0 ≠ .deferring →
      m.callers 1 ≠ .deferring → ∀ t, m.callers t ≠ .deferring := by
    intro m h h0 h1 t
    rcases t with _ | _ | t
    · exact h0
    · exact h1
    · rw [h t]
      exact nofun
  iterate 2 refine Transition.Guarded.cons rfl ⟨⟨trivial, nofun⟩, trivial⟩ ?_
  refine Transition.Guarded.cons rfl ⟨⟨trivial, nofun⟩, fun ⟨t, ht⟩ =>
    absurd ht (hquiet (fun _ => rfl) (fun h => by cases h) (fun h => by cases h) t)⟩ ?_
  iterate 3 refine Transition.Guarded.cons rfl ⟨⟨trivial, nofun⟩, trivial⟩ ?_
  refine Transition.Guarded.cons rfl ⟨⟨trivial, nofun⟩, fun ⟨t, ht⟩ =>
    absurd ht (hquiet (fun _ => rfl) (fun h => by cases h) (fun h => by cases h) t)⟩ ?_
  refine Transition.Guarded.cons rfl ⟨⟨trivial, nofun⟩, trivial⟩ ?_
  trivial

theorem cmds_drained_two : ∃ m m',
    Transition.run (cmdStep fun _ => false) (twoRequests.take 8) rwnxCmdMgrInit = some m ∧
    m.cmds = [0, 1] ∧ Transition.run (cmdStep fun _ => false) twoDrained m = some m' ∧
    ((∀ e, Drains m' e → cmdStep (fun _ => false) m' e = none) → Drained m') := by
  refine ⟨_, _, rfl, rfl, rfl, (cmds_drained (fun _ => false) _ twoDrained _ _ {0, 1}
    twoQueued_undisturbed rfl rfl (fun t ht => ?_) ?_ rfl).2⟩
  · rcases t with _ | _ | t
    · exact absurd (Finset.mem_insert_self 0 {1}) ht
    · exact absurd (Finset.mem_insert_of_mem (Finset.mem_singleton_self 1)) ht
    · rfl
  · refine Transition.Guarded.cons rfl ⟨0, rfl, rfl, fun t ht => ?_⟩ ?_
    · rcases t with _ | _ | t
      · cases ht
      · cases ht
      · cases ht
    · iterate 4 refine Transition.Guarded.cons rfl trivial ?_
      refine Transition.Guarded.cons rfl ⟨1, rfl, rfl, fun t ht => ?_⟩ ?_
      · rcases t with _ | _ | t
        · cases ht
        · cases ht
        · cases ht
      · iterate 2 refine Transition.Guarded.cons rfl trivial ?_
        trivial

end LonganPi.Wifi
