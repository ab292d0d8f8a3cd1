import LonganPi.Wifi.CmdMgr

/-!
# The moves of the command manager

`CmdMove` has one case for each thing that a step does, with what the step has
found.  `cmdMove_of_step` says that there is no other.  Every property of the
runs is proved from the moves.
-/

namespace LonganPi.Wifi

open CmdMgr

/-- The command of the confirmation is through. -/
def CmdMgr.confirm (m : CmdMgr) (slot : Nat) : CmdMgr :=
  (m.modifyCmd slot fun cmd => { cmd with waitCfm := false }).cmdComplete slot

/-- The worker is woken if `c`. -/
def CmdMgr.wakeIf (m : CmdMgr) (c : Bool) : CmdMgr := if c then m.wakeCmdWork else m

theorem wakeIf_cmds (m : CmdMgr) (c : Bool) : (m.wakeIf c).cmds = m.cmds := by
  cases c <;> rfl

theorem wakeIf_cmdArray (m : CmdMgr) (c : Bool) : (m.wakeIf c).cmdArray = m.cmdArray := by
  cases c <;> rfl

theorem wakeIf_callers (m : CmdMgr) (c : Bool) : (m.wakeIf c).callers = m.callers := by
  cases c <;> rfl

theorem wakeIf_crashed (m : CmdMgr) (c : Bool) : (m.wakeIf c).crashed = m.crashed := by
  cases c <;> rfl

theorem wakeIf_usbUp (m : CmdMgr) (c : Bool) : (m.wakeIf c).usbUp = m.usbUp := by
  cases c <;> rfl

/-- What a step does. -/
inductive CmdMove (forced : Nat → Bool) (m : CmdMgr) : CmdEvent → CmdMgr → Prop where
  | alloc {t msgId reqid slot : Nat} {e2aMsg : Bool} {call : SendCall} (husb : m.usbUp = true)
      (hcaller : m.callers t = .idle) (hslot : m.rwnxCmdMalloc = some slot) :
      CmdMove forced m (.alloc t msgId reqid e2aMsg call)
        (((m.take slot msgId reqid e2aMsg).setCall t call).setCaller t (.allocated slot))
  | down {t msgId reqid : Nat} {e2aMsg : Bool} {call : SendCall} (husb : m.usbUp = false)
      (hcaller : m.callers t = .idle) :
      CmdMove forced m (.alloc t msgId reqid e2aMsg call) ((m.setCall t call).returnTo t 0)
  | check {t slot : Nat} (hcaller : m.callers t = .allocated slot)
      (hgo : (m.calls t).waits = false ∨ (m.cmdArray slot).e2aMsg = false ∨ m.crashed = true ∨
        m.cmds = []) :
      CmdMove forced m (.check t) (m.setCaller t (.ready slot))
  | refuse {t slot : Nat} (hcaller : m.callers t = .ready slot)
      (hcfm : (m.calls t).reqcfm = true) (hfull : m.refuses = true) :
      CmdMove forced m (.submit t) (m.refuse t slot)
  | force {t slot : Nat} (hcaller : m.callers t = .ready slot)
      (hcfm : (m.calls t).reqcfm = true) (hcall : (m.calls t).defer = true)
      (hfull : m.refuses = false) :
      CmdMove forced m (.submit t) (((m.enqueue slot true).returnTo t 0).wakeCmdWork)
  | defer {t slot : Nat} (hcaller : m.callers t = .ready slot)
      (hcfm : (m.calls t).reqcfm = true) (hcall : (m.calls t).defer = false)
      (hfull : m.refuses = false)
      (hdefer : (m.lastWaits || m.defersAlways forced slot) = true) :
      CmdMove forced m (.submit t) ((m.enqueue slot true).setCaller t .deferring)
  | direct {t slot : Nat} (hcaller : m.callers t = .ready slot)
      (hcfm : (m.calls t).reqcfm = true) (hcall : (m.calls t).defer = false)
      (hfull : m.refuses = false) (hlast : m.lastWaits = false)
      (hforced : m.defersAlways forced slot = false) :
      CmdMove forced m (.submit t) ((m.enqueue slot false).setCaller t (.pushing slot))
  | pass {t slot : Nat} (hcaller : m.callers t = .ready slot)
      (hcall : m.calls t = .sendMsg false) :
      CmdMove forced m (.submit t) ((m.aicwfSetCmdTx slot false).setCaller t (.passed slot))
  | drop {t slot : Nat} {defer : Bool} (hcaller : m.callers t = .ready slot)
      (hcall : m.calls t = .sendMsg1 false defer) :
      CmdMove forced m (.submit t) (m.setCaller t (.passed slot))
  | release {t slot : Nat} (hcaller : m.callers t = .passed slot) :
      CmdMove forced m (.release t) ((m.rwnxCmdFree slot).returnTo t 0)
  | wake {t : Nat} (hcaller : m.callers t = .deferring) :
      CmdMove forced m (.wake t) ((m.returnTo t 0).wakeIf (m.queueSz ≤ 1))
  | push {t slot : Nat} (hcaller : m.callers t = .pushing slot) :
      CmdMove forced m (.push t) ((m.aicwfSetCmdTx slot true).setCaller t (.waiting slot))
  | finish {t slot : Nat} (hcaller : m.callers t = .waiting slot)
      (hcomplete : (m.cmdArray slot).complete = true) :
      CmdMove forced m (.finish t)
        (((m.rwnxCmdFree slot).returnTo t 0).wakeIf (!m.cmds.isEmpty && m.usbUp))
  | kill {t slot : Nat} (hcaller : m.callers t = .waiting slot) :
      CmdMove forced m (.kill t)
        (((m.rwnxCmdFree slot).returnTo t 0).wakeIf (!m.cmds.isEmpty && m.usbUp))
  | timeout {t slot : Nat} (hcaller : m.callers t = .waiting slot) :
      CmdMove forced m (.timeout t)
        (((m.cmdTimeout slot).rwnxCmdFree slot).returnTo t eTimedout)
  | noCfm {msgId : Nat} {accepts : Nat → Bool} (hcfm : m.findCfm msgId accepts = none) :
      CmdMove forced m (.cfm msgId accepts) m
  | cfm {msgId slot : Nat} {accepts : Nat → Bool} (hcfm : m.findCfm msgId accepts = some slot) :
      CmdMove forced m (.cfm msgId accepts) (m.confirm slot)
  | work (hpending : m.workPending = true) (hworker : m.worker = .idle) :
      CmdMove forced m .work { m with workPending := false, worker := .looping }
  | stop (hworker : m.worker = .looping)
      (hhead : ∀ slot, m.cmds.head? = some slot → (m.cmdArray slot).waitPush = false) :
      CmdMove forced m .choose { m with worker := .idle }
  | choose {slot : Nat} (hworker : m.worker = .looping) (hhead : m.cmds.head? = some slot)
      (hpush : (m.cmdArray slot).waitPush = true) :
      CmdMove forced m .choose { m with worker := .chosen slot }
  | workPush {slot : Nat} (hworker : m.worker = .chosen slot) :
      CmdMove forced m .workPush
        { (m.modifyCmd slot fun cmd => { cmd with waitPush := false }).aicwfSetCmdTx slot true with
          worker := .waiting slot }
  | workFinish {slot : Nat} (hworker : m.worker = .waiting slot)
      (hcomplete : (m.cmdArray slot).complete = true) :
      CmdMove forced m .workFinish { m.rwnxCmdFree slot with worker := .looping }
  | workTimeout {slot : Nat} (hworker : m.worker = .waiting slot) :
      CmdMove forced m .workTimeout { m.cmdTimeout slot with worker := .looping }
  | usb {up : Bool} : CmdMove forced m (.usb up) { m with usbUp := up }

variable {forced : Nat → Bool} {m m' : CmdMgr}

/-- What `cmd_mgr_queue` does. -/
theorem cmdMove_queue {t slot : Nat} (hcaller : m.callers t = .ready slot)
    (hcfm : (m.calls t).reqcfm = true) (hcall : (m.calls t).defer = false) :
    CmdMove forced m (.submit t) (m.cmdMgrQueue forced t slot) := by
  unfold cmdMgrQueue
  cases hfull : m.refuses with
  | true => exact CmdMove.refuse hcaller hcfm hfull
  | false =>
    cases hlast : m.lastWaits with
    | true => exact CmdMove.defer hcaller hcfm hcall hfull (by rw [hlast]; rfl)
    | false =>
      cases hforced : m.defersAlways forced slot with
      | true => exact CmdMove.defer hcaller hcfm hcall hfull (by rw [hforced, Bool.or_true])
      | false => exact CmdMove.direct hcaller hcfm hcall hfull hlast hforced

/-- What `cmd_mgr_queue_force_defer` does. -/
theorem cmdMove_forceDefer {t slot : Nat} (hcaller : m.callers t = .ready slot)
    (hcfm : (m.calls t).reqcfm = true) (hcall : (m.calls t).defer = true) :
    CmdMove forced m (.submit t) (m.cmdMgrQueueForceDefer t slot) := by
  unfold cmdMgrQueueForceDefer
  cases hfull : m.refuses with
  | true => exact CmdMove.refuse hcaller hcfm hfull
  | false => exact CmdMove.force hcaller hcfm hcall hfull

/-- Without `reqcfm` the command is not queued. -/
theorem cmdMove_submit {t slot : Nat} (hcaller : m.callers t = .ready slot) :
    CmdMove forced m (.submit t) (m.submit forced t slot) := by
  unfold submit
  split
  · next hcall => exact cmdMove_queue hcaller (by rw [hcall]; rfl) (by rw [hcall]; rfl)
  · next hcall => exact CmdMove.pass hcaller hcall
  · next hcall => exact cmdMove_queue hcaller (by rw [hcall]; rfl) (by rw [hcall]; rfl)
  · next hcall => exact cmdMove_forceDefer hcaller (by rw [hcall]; rfl) (by rw [hcall]; rfl)
  · next hcall => exact CmdMove.drop hcaller hcall

/-- Every step is a move. -/
theorem cmdMove_of_step {e : CmdEvent} (h : cmdStep forced m e = some m') :
    CmdMove forced m e m' := by
  cases e with
  | alloc t msgId reqid e2aMsg call =>
    simp only [cmdStep] at h
    split at h
    · next hcaller =>
      split at h
      · next husb =>
        obtain ⟨slot, hslot, heq⟩ := Option.map_eq_some_iff.mp h
        rw [← heq]
        exact CmdMove.alloc husb hcaller hslot
      · next husb =>
        rw [← Option.some.inj h]
        exact CmdMove.down (Bool.eq_false_of_not_eq_true husb) hcaller
    · cases h
  | check t =>
    simp only [cmdStep] at h
    split at h
    · next slot hcaller =>
      split at h
      · next hgo =>
        rw [← Option.some.inj h]
        refine CmdMove.check hcaller ?_
        simpa only [Bool.or_eq_true, Bool.not_eq_true', List.isEmpty_iff, or_assoc] using hgo
      · cases h
    · cases h
  | submit t =>
    simp only [cmdStep] at h
    split at h
    · next slot hcaller =>
      rw [← Option.some.inj h]
      exact cmdMove_submit hcaller
    · cases h
  | release t =>
    simp only [cmdStep] at h
    split at h
    · next slot hcaller =>
      rw [← Option.some.inj h]
      exact CmdMove.release hcaller
    · cases h
  | wake t =>
    simp only [cmdStep] at h
    split at h
    · next hcaller =>
      rw [← Option.some.inj h]
      have hmove : CmdMove forced m _ _ := CmdMove.wake hcaller
      simp only [wakeIf, decide_eq_true_eq] at hmove
      exact hmove
    · cases h
  | push t =>
    simp only [cmdStep] at h
    split at h
    · next slot hcaller =>
      rw [← Option.some.inj h]
      exact CmdMove.push hcaller
    · cases h
  | finish t =>
    simp only [cmdStep] at h
    split at h
    · next slot hcaller =>
      split at h
      · next hcomplete =>
        rw [← Option.some.inj h]
        exact CmdMove.finish hcaller hcomplete
      · cases h
    · cases h
  | kill t =>
    simp only [cmdStep] at h
    split at h
    · next slot hcaller =>
      rw [← Option.some.inj h]
      exact CmdMove.kill hcaller
    · cases h
  | timeout t =>
    simp only [cmdStep] at h
    split at h
    · next slot hcaller =>
      rw [← Option.some.inj h]
      exact CmdMove.timeout hcaller
    · cases h
  | cfm msgId accepts =>
    rw [← Option.some.inj h]
    unfold cmdMgrMsgind
    cases hcfm : m.findCfm msgId accepts with
    | none => exact CmdMove.noCfm hcfm
    | some slot => exact CmdMove.cfm hcfm
  | work =>
    simp only [cmdStep] at h
    split at h
    · next hgo =>
      rw [Bool.and_eq_true, beq_iff_eq] at hgo
      rw [← Option.some.inj h]
      exact CmdMove.work hgo.1 hgo.2
    · cases h
  | choose =>
    simp only [cmdStep] at h
    split at h
    · next hgo =>
      have hworker := eq_of_beq hgo
      split at h
      · next hhead =>
        rw [← Option.some.inj h]
        refine CmdMove.stop hworker fun slot hslot => ?_
        rw [hhead] at hslot
        cases hslot
      · next cur hhead =>
        split at h
        · next hpush =>
          rw [← Option.some.inj h]
          exact CmdMove.choose hworker hhead hpush
        · next hpush =>
          rw [← Option.some.inj h]
          refine CmdMove.stop hworker fun slot hslot => ?_
          rw [hhead] at hslot
          rw [← Option.some.inj hslot]
          exact Bool.eq_false_of_not_eq_true hpush
    · cases h
  | workPush =>
    simp only [cmdStep] at h
    split at h
    · next slot hworker =>
      rw [← Option.some.inj h]
      exact CmdMove.workPush hworker
    · cases h
  | workFinish =>
    simp only [cmdStep] at h
    split at h
    · next slot hworker =>
      split at h
      · next hcomplete =>
        rw [← Option.some.inj h]
        exact CmdMove.workFinish hworker hcomplete
      · cases h
    · cases h
  | workTimeout =>
    simp only [cmdStep] at h
    split at h
    · next slot hworker =>
      rw [← Option.some.inj h]
      exact CmdMove.workTimeout hworker
    · cases h
  | usb up =>
    rw [← Option.some.inj h]
    exact CmdMove.usb

end LonganPi.Wifi
