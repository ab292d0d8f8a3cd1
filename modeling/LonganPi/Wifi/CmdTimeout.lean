import LonganPi.Wifi.CmdSafe

/-!
# Commands that are used again

`rwnx_cmd_malloc` does not clear the flags of a command, so `RWNX_CMD_FLAG_DONE` stays
set when the command is used again.

* `timeout_stays_queued`: a command that times out is freed, and leaves the queue
  only when it was never through before.
* `buffers_live_iff`: the exact condition under which a confirmation is copied only
  to the buffer of a thread that waits for it.
-/

namespace LonganPi.Wifi

open CmdMgr

variable {forced : Nat → Bool} {m m' n : CmdMgr} {slot s t : Nat}

/-! ## Commands that were through -/

/-- The command that `cmd_complete` is called for by a timeout. -/
def timedOutOf (m : CmdMgr) (slot : Nat) : List Nat :=
  if (m.cmdArray slot).done then [] else [slot]

/-- The commands that `cmd_complete` is called for. -/
def completions (m : CmdMgr) : CmdEvent → List Nat
  | .cfm msgId accepts => (m.findCfm msgId accepts).toList
  | .timeout t =>
    match m.callers t with
    | .waiting slot => timedOutOf m slot
    | _ => []
  | .workTimeout =>
    match m.worker with
    | .waiting slot => timedOutOf m slot
    | _ => []
  | _ => []

/-- A change of a command that is not its completion. -/
theorem done_update (slot : Nat) {c : RwnxCmd}
    (harr : n.cmdArray = Function.update m.cmdArray slot c)
    (hdone : c.done = (m.cmdArray slot).done) : (n.cmdArray s).done = (m.cmdArray s).done := by
  by_cases hne : s = slot
  · rw [harr, hne, Function.update_self, hdone]
  · rw [harr, Function.update_of_ne hne]

/-- A command that is through. -/
theorem done_complete (slot : Nat) {c : RwnxCmd}
    (harr : m'.cmdArray = Function.update m.cmdArray slot c) (hdone : c.done = true) :
    (m'.cmdArray s).done = true ↔ (m.cmdArray s).done = true ∨ s ∈ [slot] := by
  rw [List.mem_singleton]
  by_cases hne : s = slot
  · rw [harr, hne, Function.update_self]
    exact ⟨fun _ => Or.inr rfl, fun _ => hdone⟩
  · rw [harr, Function.update_of_ne hne]
    exact (or_iff_left hne).symm

/-- What a step completes is done, and nothing else changes. -/
theorem done_step (h : CmdMgrOk m) {e : CmdEvent} (horderly : Orderly m e)
    (hstep : cmdStep forced m e = some m') (s : Nat) :
    (m'.cmdArray s).done = true ↔ (m.cmdArray s).done = true ∨ s ∈ completions m e := by
  have hstill : ∀ {m' : CmdMgr}, (m'.cmdArray s).done = (m.cmdArray s).done →
      ((m'.cmdArray s).done = true ↔ (m.cmdArray s).done = true ∨ s ∈ ([] : List Nat)) := by
    intro m' heq
    rw [heq]
    exact (or_iff_left List.not_mem_nil).symm
  cases cmdMove_of_step hstep with
  | @alloc t _ _ slot _ _ _ _ _ =>
    apply hstill
    exact done_update slot rfl rfl
  | down _ _ => exact hstill rfl
  | check _ _ => exact hstill rfl
  | @refuse t slot _ _ _ =>
    apply hstill
    exact done_update slot (CmdMgrOk.refuse_cmdArray m t slot) rfl
  | @force t slot _ _ _ _ =>
    apply hstill
    exact done_update slot (cmdArray_enqueue m slot true) rfl
  | @defer t slot _ _ _ _ _ =>
    apply hstill
    exact done_update slot (cmdArray_enqueue m slot true) rfl
  | @direct t slot _ _ _ _ _ _ =>
    apply hstill
    exact done_update slot (cmdArray_enqueue m slot false) rfl
  | pass _ _ =>
    apply hstill
    rw [aicwfSetCmdTx_eq]
    rfl
  | drop _ _ => exact hstill rfl
  | @release t slot _ =>
    apply hstill
    exact done_update slot rfl rfl
  | wake _ =>
    apply hstill
    rw [wakeIf_cmdArray]
    rfl
  | push _ =>
    apply hstill
    rw [aicwfSetCmdTx_eq]
    rfl
  | @finish t slot _ _ =>
    apply hstill
    rw [wakeIf_cmdArray]
    exact done_update (n := (m.rwnxCmdFree slot).returnTo t 0) slot rfl rfl
  | kill _ => exact horderly.elim
  | @timeout t slot hcaller =>
    have hacts : completions m (.timeout t) = timedOutOf m slot := by
      simp only [completions, hcaller]
    have hfits := h.holds.fits (some t)
    rw [hold_some hcaller] at hfits
    rcases h.cmdTimeout_cases hfits with ⟨hdone, heq⟩ | ⟨hdone, _, heq⟩
    · rw [hacts, timedOutOf, if_pos hdone, heq]
      apply hstill
      exact done_update slot rfl rfl
    · rw [hacts, timedOutOf, if_neg (by rw [hdone]; exact Bool.false_ne_true), heq]
      exact done_complete slot (CmdMgrOk.free_cmdArray rfl) rfl
  | @noCfm msgId accepts hcfm =>
    have hacts : completions m (.cfm msgId accepts) = [] := by
      simp only [completions, hcfm, Option.toList_none]
    rw [hacts]
    exact hstill rfl
  | @cfm msgId slot accepts hcfm =>
    have hacts : completions m (.cfm msgId accepts) = [slot] := by
      simp only [completions, hcfm, Option.toList_some]
    rw [hacts, confirm_eq]
    exact done_complete slot rfl rfl
  | work _ _ => exact hstill rfl
  | stop _ _ => exact hstill rfl
  | choose _ _ _ => exact hstill rfl
  | @workPush slot _ =>
    rw [aicwfSetCmdTx_eq]
    apply hstill
    exact done_update slot rfl rfl
  | @workFinish slot _ _ =>
    apply hstill
    exact done_update slot rfl rfl
  | @workTimeout slot hworker =>
    have hacts : completions m .workTimeout = timedOutOf m slot := by
      simp only [completions, hworker]
    have hfits := h.holds.fits none
    rw [hold_none hworker] at hfits
    rcases h.cmdTimeout_cases hfits with ⟨hdone, heq⟩ | ⟨hdone, _, heq⟩
    · rw [hacts, timedOutOf, if_pos hdone, heq]
      exact hstill rfl
    · rw [hacts, timedOutOf, if_neg (by rw [hdone]; exact Bool.false_ne_true), heq]
      exact done_complete slot rfl rfl
  | usb => exact hstill rfl

/-- A command is done when it was completed before. -/
theorem done_run {es : List CmdEvent} (h : CmdMgrOk m)
    (hes : Transition.Guarded (cmdStep forced) Orderly es m)
    (hrun : Transition.run (cmdStep forced) es m = some m') (s : Nat) :
    (m'.cmdArray s).done = true ↔
      (m.cmdArray s).done = true ∨ s ∈ Transition.trace (cmdStep forced) completions es m := by
  induction es generalizing m with
  | nil =>
    rw [Option.some.inj hrun]
    exact (or_iff_left List.not_mem_nil).symm
  | cons e es ih =>
    obtain ⟨m₁, hstep, hrest⟩ := Transition.run_cons.mp hrun
    obtain ⟨horderly, hguard⟩ := hes m₁ hstep
    rw [Transition.trace_cons hstep, List.mem_append, ← or_assoc, ← done_step h horderly hstep s]
    exact ih (h.step horderly hstep) hguard hrest

/-- A command that times out without a confirmation is freed.  It is still on the queue
exactly when this entry of `cmd_array` was through before. -/
theorem timeout_stays_queued (forced : Nat → Bool) (es : List CmdEvent) (m m' : CmdMgr)
    (t slot : Nat) (hes : Transition.Guarded (cmdStep forced) Orderly es rwnxCmdMgrInit)
    (hrun : Transition.run (cmdStep forced) es rwnxCmdMgrInit = some m)
    (hcaller : m.callers t = .waiting slot) (hpending : (m.cmdArray slot).complete = false)
    (hstep : cmdStep forced m (.timeout t) = some m') :
    m'.crashed = true ∧ m'.returned t = (m.calls t).result eTimedout ∧
    (m'.cmdArray slot).used = false ∧
    (slot ∈ m'.cmds ↔
      slot ∈ Transition.trace (cmdStep forced) completions es rwnxCmdMgrInit) := by
  have h : CmdMgrOk m :=
    (Transition.always_of_guarded (fun _ _ _ hm hG hstep => CmdMgrOk.step hm hG hstep)
      cmdMgrOk_init hes).of_run hrun
  have hhistory := done_run cmdMgrOk_init hes hrun slot
  rw [or_iff_right (show ¬ (rwnxCmdMgrInit.cmdArray slot).done = true from Bool.false_ne_true)]
    at hhistory
  have hfits := h.holds.fits (some t)
  rw [hold_some hcaller] at hfits
  have hmem : slot ∈ m.cmds := by
    rcases hfits.2.2 with hmem | hcomplete
    · exact hmem
    · rw [hpending] at hcomplete
      cases hcomplete
  simp only [cmdStep, hcaller] at hstep
  rw [← Option.some.inj hstep, ← hhistory]
  rcases h.cmdTimeout_cases hfits with ⟨hdone, heq⟩ | ⟨hdone, _, heq⟩
  · rw [heq]
    refine ⟨rfl, Function.update_self .., ?_, ?_⟩
    · show (Function.update m.cmdArray slot _ slot).used = false
      rw [Function.update_self]
    · exact ⟨fun _ => hdone, fun _ => hmem⟩
  · rw [heq]
    refine ⟨rfl, Function.update_self .., ?_, ?_⟩
    · rw [show (((_ : CmdMgr).rwnxCmdFree slot).returnTo t eTimedout).cmdArray
        = Function.update m.cmdArray slot _ from CmdMgrOk.free_cmdArray rfl, Function.update_self]
    · constructor
      · intro hin
        exact absurd hin h.queue.nodup.not_mem_erase
      · intro hyes
        rw [hdone] at hyes
        cases hyes

/-- A command that is used a second time. -/
def usedAgain : List CmdEvent :=
  [.alloc 0 5 6 false (.sendMsg true), .check 0, .submit 0, .push 0, .cfm 6 fun _ => true,
    .finish 0, .alloc 0 5 6 false (.sendMsg true), .check 0, .submit 0, .push 0]

theorem usedAgain_orderly :
    Transition.Guarded (cmdStep fun _ => false) Orderly usedAgain rwnxCmdMgrInit := by
  iterate 4 refine Transition.Guarded.cons rfl trivial ?_
  refine Transition.Guarded.cons rfl (fun slot hslot => ?_) ?_
  · have h0 : slot = 0 := (Option.some.inj hslot).symm
    subst h0
    refine ⟨rfl, fun t ht => ?_⟩
    rcases t with _ | t
    · cases ht
    · cases ht
  · iterate 5 refine Transition.Guarded.cons rfl trivial ?_
    trivial

theorem timeout_stays_queued_again : ∃ m m',
    Transition.run (cmdStep fun _ => false) usedAgain rwnxCmdMgrInit = some m ∧
    cmdStep (fun _ => false) m (.timeout 0) = some m' ∧ (m'.cmdArray 0).used = false ∧
    0 ∈ m'.cmds := by
  refine ⟨_, _, rfl, rfl, ?_⟩
  have h := timeout_stays_queued (fun _ => false) usedAgain _ _ 0 0 usedAgain_orderly rfl rfl rfl
    rfl
  exact ⟨h.2.2.1, h.2.2.2.mpr (by decide)⟩

/-! ## The buffers of the confirmations -/

/-- `e2a_msg` points to the stack of the thread that waits for the command. -/
def BuffersLive (m : CmdMgr) : Prop :=
  ∀ s ∈ m.cmds, (m.cmdArray s).e2aMsg = true →
    ∃ t, m.callers t = .pushing s ∨ m.callers t = .waiting s

/-- A command with a buffer is not left to the worker, a timeout takes it off the
queue, and no entry that is still on the queue is given a buffer. -/
def BufferGuard (forced : Nat → Bool) (m : CmdMgr) : CmdEvent → Prop
  | .alloc _ _ _ e2aMsg _ =>
    m.usbUp = true → e2aMsg = true → ∀ slot, m.rwnxCmdMalloc = some slot → slot ∉ m.cmds
  | .submit t => ∀ slot, m.callers t = .ready slot → (m.calls t).reqcfm = true →
    (m.cmdArray slot).e2aMsg = true → m.refuses = false →
    (m.calls t).defer = false ∧ m.lastWaits = false ∧ m.defersAlways forced slot = false
  | .timeout t => ∀ slot, m.callers t = .waiting slot → (m.cmdArray slot).e2aMsg = true →
    (m.cmdArray slot).done = true → slot ∉ m.cmds
  | _ => True

theorem buffersLive_init : BuffersLive rwnxCmdMgrInit := fun _ hs => absurd hs List.not_mem_nil

/-- Nobody stops waiting for a command that stays on the queue. -/
theorem BuffersLive.mono (h : BuffersLive m) (hcmds : ∀ s ∈ m'.cmds, s ∈ m.cmds)
    (he2a : ∀ s ∈ m'.cmds, (m'.cmdArray s).e2aMsg = true → (m.cmdArray s).e2aMsg = true)
    (hcallers : ∀ s ∈ m'.cmds, ∀ t, m.callers t = .pushing s ∨ m.callers t = .waiting s →
      m'.callers t = .pushing s ∨ m'.callers t = .waiting s) : BuffersLive m' := by
  intro s hs hbuf
  obtain ⟨t, ht⟩ := h s (hcmds s hs) (he2a s hs hbuf)
  exact ⟨t, hcallers s hs t ht⟩

theorem BuffersLive.wakeIf (h : BuffersLive m) (c : Bool) : BuffersLive (m.wakeIf c) := by
  cases c with
  | false => exact h
  | true => exact h

/-- A change of a command that leaves its buffer. -/
theorem e2aMsg_update (slot : Nat) {c : RwnxCmd} (hbuf : (m'.cmdArray s).e2aMsg = true)
    (harr : m'.cmdArray = Function.update m.cmdArray slot c)
    (he2a : c.e2aMsg = (m.cmdArray slot).e2aMsg) :
    (m.cmdArray s).e2aMsg = true := by
  by_cases hne : s = slot
  · rw [harr, hne, Function.update_self, he2a] at hbuf
    rw [hne]
    exact hbuf
  · rw [harr, Function.update_of_ne hne] at hbuf
    exact hbuf

/-- Another thread waits as before. -/
theorem awaits_update {x y : Caller} (hcaller : m.callers t = x)
    (hcallers : m'.callers = Function.update m.callers t y)
    (hx : x ≠ .pushing s ∧ x ≠ .waiting s) {t' : Nat}
    (ht' : m.callers t' = .pushing s ∨ m.callers t' = .waiting s) :
    m'.callers t' = .pushing s ∨ m'.callers t' = .waiting s := by
  have hne : t' ≠ t := by
    rintro rfl
    rw [hcaller] at ht'
    rcases ht' with h | h
    · exact hx.1 h
    · exact hx.2 h
  rw [hcallers, Function.update_of_ne hne]
  exact ht'

/-- A thread that does not wait for a command moves on. -/
theorem BuffersLive.of_caller (h : BuffersLive m) {x y : Caller} (hcaller : m.callers t = x)
    (hcallers : m'.callers = Function.update m.callers t y)
    (hx : ∀ s, x ≠ .pushing s ∧ x ≠ .waiting s) (hcmds : m'.cmds = m.cmds)
    (he2a : ∀ s, (m'.cmdArray s).e2aMsg = true → (m.cmdArray s).e2aMsg = true) :
    BuffersLive m' :=
  h.mono (fun _ hs => hcmds ▸ hs) (fun s _ => he2a s)
    fun s _ _ ht' => awaits_update hcaller hcallers (hx s) ht'

/-- A thread whose command is on the queue goes, and nobody else waits for it. -/
theorem buffersLive_iff_of_leave (h : CmdMgrOk m) (slot : Nat) (hlive : ∀ s ∈ m'.cmds, s ≠ slot →
      (m'.cmdArray s).e2aMsg = true → ∃ t, m'.callers t = .pushing s ∨ m'.callers t = .waiting s)
    {x : Caller} (hcallers : m'.callers = Function.update m.callers t x)
    (hx : x.hold.slot? ≠ some slot) (hhold : (m.hold (some t)).slot? = some slot) :
    BuffersLive m' ↔ (slot ∈ m'.cmds → (m'.cmdArray slot).e2aMsg = false) := by
  have hnone : ¬ ∃ t', m'.callers t' = .pushing slot ∨ m'.callers t' = .waiting slot := by
    rintro ⟨t', ht'⟩
    rw [hcallers] at ht'
    by_cases ht : t' = t
    · rw [ht, Function.update_self] at ht'
      rcases ht' with hpush | hwait
      · exact hx (by rw [hpush]; rfl)
      · exact hx (by rw [hwait]; rfl)
    · rw [Function.update_of_ne ht] at ht'
      have hslot : (m.hold (some t')).slot? = some slot := by
        rcases ht' with hpush | hwait
        · rw [hold_some hpush]
          rfl
        · rw [hold_some hwait]
          rfl
      exact ht (Option.some.inj (h.holds.unique hslot hhold))
  constructor
  · intro hbuf hmem
    cases he : (m'.cmdArray slot).e2aMsg with
    | false => rfl
    | true => exact absurd (hbuf slot hmem he) hnone
  · intro himp s hs he
    by_cases hne : s = slot
    · rw [hne] at hs he
      rw [himp hs] at he
      cases he
    · exact hlive s hs hne he

theorem buffersLive_alloc (h : CmdMgrOk m) (hlive : BuffersLive m) {msgId reqid : Nat}
    {e2aMsg : Bool} {call : SendCall} (husb : m.usbUp = true) (hcaller : m.callers t = .idle)
    (hslot : m.rwnxCmdMalloc = some slot) :
    BuffersLive (((m.take slot msgId reqid e2aMsg).setCall t call).setCaller t
      (.allocated slot)) ↔ BufferGuard forced m (.alloc t msgId reqid e2aMsg call) := by
  have hself : (((m.take slot msgId reqid e2aMsg).setCall t call).setCaller t
      (.allocated slot)).cmdArray slot = { m.cmdArray slot with
          used := true, result := eIntr, msgId := msgId, reqid := reqid, e2aMsg := e2aMsg } := by
    show Function.update m.cmdArray slot _ slot = _
    rw [Function.update_self]
  constructor
  · intro hbuf _ he a ha hmem
    rw [hslot] at ha
    rw [← Option.some.inj ha] at hmem
    obtain ⟨t', ht'⟩ := hbuf slot hmem (by rw [hself]; exact he)
    have hunused := rwnxCmdMalloc_unused hslot
    have hslot' : (m.hold (some t')).slot? = some slot := by
      have hne : t' ≠ t := by
        rintro rfl
        rw [callers_setCaller_self] at ht'
        rcases ht' with h' | h'
        · cases h'
        · cases h'
      rw [callers_setCaller_of_ne hne] at ht'
      rcases ht' with h' | h'
      · rw [hold_some (show m.callers t' = .pushing slot from h')]
        rfl
      · rw [hold_some (show m.callers t' = .waiting slot from h')]
        rfl
    rw [(h.holds.fits (some t')).used hslot'] at hunused
    cases hunused
  · intro hG s hs he
    have hne : s ≠ slot := by
      rintro rfl
      rw [hself] at he
      exact hG husb he s hslot hs
    have harr : (((m.take slot msgId reqid e2aMsg).setCall t call).setCaller t
        (.allocated slot)).cmdArray s = m.cmdArray s := by
      show Function.update m.cmdArray slot _ s = _
      rw [Function.update_of_ne hne]
    rw [harr] at he
    obtain ⟨t', ht'⟩ := hlive s hs he
    exact ⟨t', awaits_update hcaller rfl ⟨nofun, nofun⟩ ht'⟩

/-- A command that is left to the worker must not have a buffer. -/
theorem buffersLive_defer (h : CmdMgrOk m) (hlive : BuffersLive m) {x : Caller}
    (hcaller : m.callers t = .ready slot) (hx : x.hold = .nothing) :
    BuffersLive ((m.enqueue slot true).setCaller t x) ↔ (m.cmdArray slot).e2aMsg = false := by
  have hself : ((m.enqueue slot true).setCaller t x).cmdArray slot
      = (m.cmdArray slot).enqueued m.nextTkn true := cmdArray_enqueue_self m slot true
  have hmem : slot ∈ ((m.enqueue slot true).setCaller t x).cmds :=
    List.mem_append_right _ (List.mem_singleton_self slot)
  refine (buffersLive_iff_of_leave h slot (fun s hs hne he => ?_) rfl ?_ ?_).trans ?_
  · have harr : ((m.enqueue slot true).setCaller t x).cmdArray s = m.cmdArray s :=
      cmdArray_enqueue_of_ne hne m true
    rw [harr] at he
    obtain ⟨t', ht'⟩ := hlive s ((mem_append_singleton_of_ne hne).mp hs) he
    exact ⟨t', awaits_update hcaller rfl ⟨nofun, nofun⟩ ht'⟩
  · rw [hx]
    exact nofun
  · rw [hold_some hcaller]
    rfl
  · rw [hself]
    exact ⟨fun himp => himp hmem, fun he _ => he⟩

/-- A timeout of a command that is done leaves it on the queue. -/
theorem buffersLive_timeout (h : CmdMgrOk m) (hlive : BuffersLive m)
    (hcaller : m.callers t = .waiting slot) :
    BuffersLive (((m.cmdTimeout slot).rwnxCmdFree slot).returnTo t eTimedout) ↔
      BufferGuard forced m (.timeout t) := by
  have hguard : BufferGuard forced m (.timeout t) ↔
      ((m.cmdArray slot).e2aMsg = true → (m.cmdArray slot).done = true → slot ∉ m.cmds) := by
    constructor
    · intro hG
      exact hG slot hcaller
    · intro hG a ha
      rw [hcaller] at ha
      cases ha
      exact hG
  have hslot : (m.hold (some t)).slot? = some slot := by
    rw [hold_some hcaller]
    rfl
  have hother : ∀ s, s ≠ slot → Caller.waiting slot ≠ .pushing s ∧
      Caller.waiting slot ≠ .waiting s :=
    fun s hne => ⟨nofun, fun heq => hne (Caller.waiting.inj heq).symm⟩
  have hfits := h.holds.fits (some t)
  rw [hold_some hcaller] at hfits
  rw [hguard]
  rcases h.cmdTimeout_cases hfits with ⟨hdone, heq⟩ | ⟨hdone, _, heq⟩
  · rw [heq]
    refine (buffersLive_iff_of_leave h slot (fun s hs hne he => ?_) rfl
      (fun hx => by cases hx) hslot).trans ?_
    · obtain ⟨t', ht'⟩ := hlive s hs (e2aMsg_update slot he rfl rfl)
      exact ⟨t', awaits_update hcaller rfl (hother s hne) ht'⟩
    · have hself : (((({ m with crashed := true } : CmdMgr).rwnxCmdFree slot).returnTo t
          eTimedout).cmdArray slot).e2aMsg = (m.cmdArray slot).e2aMsg := by
        show (Function.update m.cmdArray slot _ slot).e2aMsg = _
        rw [Function.update_self]
      rw [hself]
      constructor
      · intro himp he _ hmem
        rw [himp hmem] at he
        cases he
      · intro himp hmem
        cases he : (m.cmdArray slot).e2aMsg with
        | false => rfl
        | true => exact absurd hmem (himp he hdone)
  · rw [heq]
    apply iff_of_true
    · refine hlive.mono (fun s hs => List.mem_of_mem_erase hs)
        (fun s _ he => e2aMsg_update slot he (CmdMgrOk.free_cmdArray rfl) rfl)
        fun s hs t' ht' => awaits_update hcaller rfl (hother s ?_) ht'
      rintro rfl
      exact h.queue.nodup.not_mem_erase hs
    · intro _ hyes
      rw [hdone] at hyes
      cases hyes

/-- The condition for a command that the queue takes. -/
theorem bufferGuard_submit (hcaller : m.callers t = .ready slot)
    (hcfm : (m.calls t).reqcfm = true) (hfull : m.refuses = false) :
    BufferGuard forced m (.submit t) ↔ ((m.cmdArray slot).e2aMsg = true →
      (m.calls t).defer = false ∧ m.lastWaits = false ∧ m.defersAlways forced slot = false) := by
  constructor
  · intro hG he
    exact hG slot hcaller hcfm he hfull
  · intro hG a ha _ he _
    rw [hcaller] at ha
    cases ha
    exact hG he

/-- Without a confirmation the condition asks for nothing. -/
theorem bufferGuard_of_reqcfm (hno : (m.calls t).reqcfm = false) :
    BufferGuard forced m (.submit t) := by
  intro slot _ hcfm
  rw [hno] at hcfm
  cases hcfm

/-- The thread that sends the command waits for it. -/
theorem BuffersLive.direct (h : BuffersLive m) (hcaller : m.callers t = .ready slot) :
    BuffersLive ((m.enqueue slot false).setCaller t (.pushing slot)) := by
  intro s hs he
  by_cases hne : s = slot
  · rw [hne]
    exact ⟨t, Or.inl (callers_setCaller_self ..)⟩
  · have harr : ((m.enqueue slot false).setCaller t (.pushing slot)).cmdArray s = m.cmdArray s :=
      cmdArray_enqueue_of_ne hne m false
    rw [harr] at he
    obtain ⟨t', ht'⟩ := h s ((mem_append_singleton_of_ne hne).mp hs) he
    exact ⟨t', awaits_update hcaller rfl ⟨nofun, nofun⟩ ht'⟩

theorem BuffersLive.push (h : BuffersLive m) (hcaller : m.callers t = .pushing slot) :
    BuffersLive ((m.aicwfSetCmdTx slot true).setCaller t (.waiting slot)) := by
  rw [aicwfSetCmdTx_eq]
  refine h.mono (fun _ hs => hs) (fun _ _ he => he) fun s _ t' ht' => ?_
  by_cases ht : t' = t
  · rw [ht, hcaller] at ht'
    rw [ht, callers_setCaller_self]
    rcases ht' with heq | heq
    · rw [Caller.pushing.inj heq]
      exact Or.inr rfl
    · cases heq
  · rw [callers_setCaller_of_ne ht]
    exact ht'

/-- A command that is through is not on the queue. -/
theorem BuffersLive.finish (h : BuffersLive m) (hok : CmdMgrOk m)
    (hcaller : m.callers t = .waiting slot) (hcomplete : (m.cmdArray slot).complete = true) :
    BuffersLive ((m.rwnxCmdFree slot).returnTo t 0) := by
  refine h.mono (fun _ hs => hs) (fun _ _ he => e2aMsg_update slot he rfl rfl)
    fun s hs t' ht' => awaits_update hcaller rfl ?_ ht'
  refine ⟨nofun, fun heq => ?_⟩
  have hs' : s ∈ m.cmds := hs
  rw [← Caller.waiting.inj heq] at hs'
  exact hok.notMem_of_complete hcomplete hs'

/-- A step keeps the buffers live exactly under the condition. -/
theorem buffersLive_step_iff (h : CmdMgrOk m) (hlive : BuffersLive m) {e : CmdEvent}
    (horderly : Orderly m e) (hstep : cmdStep forced m e = some m') :
    BuffersLive m' ↔ BufferGuard forced m e := by
  cases cmdMove_of_step hstep with
  | alloc husb hcaller hslot => exact buffersLive_alloc h hlive husb hcaller hslot
  | down hdown hcaller =>
    refine iff_of_true (hlive.of_caller hcaller rfl (fun _ => ⟨nofun, nofun⟩) rfl fun _ he => he)
      fun husb => ?_
    rw [hdown] at husb
    cases husb
  | check hcaller _ =>
    exact iff_of_true (hlive.of_caller hcaller rfl (fun _ => ⟨nofun, nofun⟩) rfl fun _ he => he)
      trivial
  | @refuse t slot hcaller _ hfull =>
    refine iff_of_true (hlive.of_caller hcaller rfl (fun _ => ⟨nofun, nofun⟩) rfl fun _ he =>
      e2aMsg_update slot he (CmdMgrOk.refuse_cmdArray m t slot) rfl) fun _ _ _ _ hno => ?_
    rw [hfull] at hno
    cases hno
  | force hcaller hcfm hcall hfull =>
    refine (buffersLive_defer h hlive (x := .idle) hcaller rfl).trans ?_
    rw [bufferGuard_submit hcaller hcfm hfull, hcall]
    exact Bool.eq_false_iff.trans (imp_iff_not fun hG => Bool.noConfusion hG.1).symm
  | defer hcaller hcfm _ hfull hdefer =>
    refine (buffersLive_defer h hlive hcaller rfl).trans ?_
    rw [bufferGuard_submit hcaller hcfm hfull]
    refine Bool.eq_false_iff.trans (imp_iff_not fun hG => ?_).symm
    rw [hG.2.1, hG.2.2] at hdefer
    cases hdefer
  | direct hcaller hcfm hcall hfull hlast hforced =>
    rw [bufferGuard_submit hcaller hcfm hfull]
    exact iff_of_true (hlive.direct hcaller) fun _ => ⟨hcall, hlast, hforced⟩
  | pass hcaller hcall =>
    rw [aicwfSetCmdTx_eq]
    exact iff_of_true (hlive.of_caller hcaller rfl (fun _ => ⟨nofun, nofun⟩) rfl fun _ he => he)
      (bufferGuard_of_reqcfm (by rw [hcall]; rfl))
  | drop hcaller hcall =>
    exact iff_of_true (hlive.of_caller hcaller rfl (fun _ => ⟨nofun, nofun⟩) rfl fun _ he => he)
      (bufferGuard_of_reqcfm (by rw [hcall]; rfl))
  | @release t slot hcaller =>
    exact iff_of_true (hlive.of_caller hcaller rfl (fun _ => ⟨nofun, nofun⟩) rfl fun _ he =>
      e2aMsg_update slot he rfl rfl) trivial
  | wake hcaller =>
    refine iff_of_true (BuffersLive.wakeIf ?_ _) trivial
    exact hlive.of_caller hcaller rfl (fun _ => ⟨nofun, nofun⟩) rfl fun _ he => he
  | push hcaller => exact iff_of_true (hlive.push hcaller) trivial
  | finish hcaller hcomplete =>
    exact iff_of_true ((hlive.finish h hcaller hcomplete).wakeIf _) trivial
  | kill _ => exact horderly.elim
  | timeout hcaller => exact buffersLive_timeout h hlive hcaller
  | noCfm _ => exact iff_of_true hlive trivial
  | @cfm msgId slot accepts hcfm =>
    rw [confirm_eq]
    exact iff_of_true (hlive.mono (fun _ hs => List.mem_of_mem_erase hs)
      (fun _ _ he => e2aMsg_update slot he rfl rfl) fun _ _ _ ht' => ht') trivial
  | work _ _ => exact iff_of_true hlive trivial
  | stop _ _ => exact iff_of_true hlive trivial
  | choose _ _ _ => exact iff_of_true hlive trivial
  | @workPush slot _ =>
    rw [aicwfSetCmdTx_eq]
    exact iff_of_true (hlive.mono (fun _ hs => hs) (fun _ _ he => e2aMsg_update slot he rfl rfl)
      fun _ _ _ ht' => ht') trivial
  | @workFinish slot _ _ =>
    exact iff_of_true (hlive.mono (fun _ hs => hs) (fun _ _ he => e2aMsg_update slot he rfl rfl)
      fun _ _ _ ht' => ht') trivial
  | @workTimeout slot hworker =>
    have hfits := h.holds.fits none
    rw [hold_none hworker] at hfits
    rcases h.cmdTimeout_cases hfits with ⟨_, heq⟩ | ⟨_, _, heq⟩
    · rw [heq]
      exact iff_of_true hlive trivial
    · rw [heq]
      exact iff_of_true (hlive.mono (fun _ hs => List.mem_of_mem_erase hs)
        (fun _ _ he => e2aMsg_update slot he rfl rfl) fun _ _ _ ht' => ht') trivial
  | usb => exact iff_of_true hlive trivial

/-- In an orderly run every confirmation is copied to the buffer of a thread that waits for
it, if and only if every step meets the condition. -/
theorem buffers_live_iff (forced : Nat → Bool) (es : List CmdEvent)
    (h : Transition.Guarded (cmdStep forced) Orderly es rwnxCmdMgrInit) :
    Transition.Always (cmdStep forced) BuffersLive es rwnxCmdMgrInit ↔
      Transition.Guarded (cmdStep forced) (BufferGuard forced) es rwnxCmdMgrInit :=
  Transition.always_iff_guarded_of
    (fun _ _ _ hok hlive horderly hstep => buffersLive_step_iff hok hlive horderly hstep)
    (fun _ _ _ hok horderly hstep => CmdMgrOk.step hok horderly hstep)
    cmdMgrOk_init buffersLive_init h

/-- The same command with a buffer, and no confirmation the second time. -/
def bufferUsedAgain : List CmdEvent :=
  [.alloc 0 5 6 true (.sendMsg true), .check 0, .submit 0, .push 0, .cfm 6 fun _ => true,
    .finish 0, .alloc 0 5 6 true (.sendMsg true), .check 0, .submit 0, .push 0, .timeout 0]

theorem bufferUsedAgain_orderly :
    Transition.Guarded (cmdStep fun _ => false) Orderly bufferUsedAgain rwnxCmdMgrInit := by
  iterate 4 refine Transition.Guarded.cons rfl trivial ?_
  refine Transition.Guarded.cons rfl (fun slot hslot => ?_) ?_
  · have h0 : slot = 0 := (Option.some.inj hslot).symm
    subst h0
    refine ⟨rfl, fun t ht => ?_⟩
    rcases t with _ | t
    · cases ht
    · cases ht
  · iterate 6 refine Transition.Guarded.cons rfl trivial ?_
    trivial

/-- The late confirmation finds the command, and its buffer is gone. -/
theorem buffers_live_iff_again :
    (Transition.Always (cmdStep fun _ => false) BuffersLive bufferUsedAgain rwnxCmdMgrInit ↔
      Transition.Guarded (cmdStep fun _ => false) (BufferGuard fun _ => false) bufferUsedAgain
        rwnxCmdMgrInit) ∧
    ∃ m, Transition.run (cmdStep fun _ => false) bufferUsedAgain rwnxCmdMgrInit = some m ∧
      m.findCfm 6 (fun _ => true) = some 0 ∧ (m.cmdArray 0).e2aMsg = true ∧
      m.callers 0 = .idle :=
  ⟨buffers_live_iff _ _ bufferUsedAgain_orderly, _, rfl, rfl, rfl, rfl⟩

end LonganPi.Wifi
