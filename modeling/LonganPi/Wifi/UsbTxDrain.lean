import LonganPi.Lib.Transition
import LonganPi.Wifi.UsbTxFlow

/-!
# Sending what is left

What the sender, the thread and the device still have to do becomes less with every
step that takes no new frame, but for the confirmations (`UsbTx.weight`).

* `tx_drained`: it is done after a bounded number of steps, and then every buffer is
  free and the queues are open.
-/

namespace LonganPi.Wifi

open UsbTx

variable {s s' : UsbTx} {e : TxEvent}

/-- No new frame comes, and the device is left up.  There is memory, and the device takes
what is submitted. -/
def TxDrains : TxEvent → Prop
  | .post buf align => buf.isSome = true ∧ align.isSome = true
  | .submit ok => ok = true
  | .enter | .take | .trigger | .flow | .wake | .look | .loop | .dequeue => True
  | .complete _ | .check | .cfm _ _ => True
  | _ => False

/-- A step of the sender, the thread or a completion. -/
def TxEvent.isWork : TxEvent → Bool
  | .cfm _ _ => false
  | _ => true

/-- How many steps are left at most. -/
def Pusher.weight : Pusher → Nat
  | .entered _ => 14
  | .accepted _ => 13
  | .filling _ _ => 12
  | .posted => 6
  | .flow => 1
  | .idle => 0

def Bustx.weight : Bustx → Nat
  | .holding _ => 5
  | .woken => 3
  | .looping => 2
  | .dequeuing => 1
  | .waiting | .stopped => 0

/-- A buffer that is posted is still to be taken, submitted, completed and checked, and
the thread goes once more through its loop for it. -/
def UsbTx.weight (s : UsbTx) : Nat :=
  5 * s.txPost.list.length + 2 * s.inFlight.length + s.checks + 4 * s.bustxTrgg +
    s.pusher.weight + s.bustx.weight

/-- The states of a run that only drains. -/
structure TxDraining (s : UsbTx) : Prop where
  pool : TxPoolOk s
  flow : FlowOk s
  attend : AttendOk s
  running : s.oops = false
  up : s.state = .up
  idle : s.pm = .idle

/-- Everything is sent, the buffers are free, and the queues are open. -/
structure TxDrained (s : UsbTx) : Prop where
  pusher : s.pusher = .idle
  bustx : s.bustx = .waiting
  posted : s.txPost.list = []
  inFlight : s.inFlight = []
  free : s.txFree.list.Perm (List.range aicwfUsbTxUrbs)
  opened : s.netStopped = false

/-- The sender, the thread and the completions have nothing to do. -/
def TxStuck (s : UsbTx) : Prop := ∀ e, TxDrains e → e.isWork = true → txStep s e = none

namespace TxDraining

/-- Each step leaves the device up, and one that is no confirmation leaves less to do. -/
theorem progress (h : TxDraining s) (hdrains : TxDrains e)
    (hstep : txStep s e = some s') :
    s'.oops = false ∧ s'.state = .up ∧ s'.pm = .idle ∧
      s'.weight + e.isWork.toNat ≤ s.weight := by
  obtain ⟨hoops, hmove⟩ := txMove_of_step hstep
  have hwork : e.isWork.toNat ≤ 1 := Bool.toNat_le e.isWork
  cases hmove with
  | enter hpusher hstate =>
    refine ⟨hoops, h.up, h.idle, ?_⟩
    simp only [UsbTx.weight, hpusher, Pusher.weight]
    omega
  | enterDown hpusher hstate => exact absurd h.up hstate
  | take hpusher hfree =>
    refine ⟨hoops, h.up, h.idle, ?_⟩
    simp only [UsbTx.weight, hpusher, Pusher.weight]
    omega
  | @takeNone f hpusher hfree =>
    obtain ⟨heap, wild, heq⟩ := s.dropFrame_memoryOnly f.skb
    rw [heq]
    refine ⟨hoops, h.up, h.idle, ?_⟩
    simp only [UsbTx.weight, hpusher, Pusher.weight]
    omega
  | @post f b p q buf hpusher hbuf halign hne =>
    obtain ⟨heap, wild, heq⟩ :=
      (s.dataAt_memoryOnly f p).trans (setHeap_memoryOnly _ q (some .kmalloc))
    rw [heq]
    refine ⟨hoops, h.up, h.idle, ?_⟩
    simp only [UsbTx.weight, UsbTx.postBuf, UsbTx.setBuf, aicwfUsbTxQueue, hpusher,
      Pusher.weight, List.length_append, List.length_singleton]
    omega
  | postOops hpusher hnull =>
    rcases hnull with ⟨-, hnull⟩ | hnull
    · rw [hnull] at hdrains
      cases hdrains.1
    · rw [hnull] at hdrains
      cases hdrains.2
  | trigger hpusher =>
    refine ⟨hoops, h.up, h.idle, ?_⟩
    simp only [UsbTx.weight, hpusher, Pusher.weight]
    omega
  | flow hpusher =>
    unfold UsbTx.flowCtrl
    split_ifs
    · refine ⟨hoops, h.up, h.idle, ?_⟩
      simp only [UsbTx.weight, UsbTx.aicwfUsbTxFlowctrl, hpusher, Pusher.weight]
      omega
    · refine ⟨hoops, h.up, h.idle, ?_⟩
      simp only [UsbTx.weight, hpusher, Pusher.weight]
      omega
  | wake hbustx htrgg =>
    refine ⟨hoops, h.up, h.idle, ?_⟩
    simp only [UsbTx.weight, hbustx, Bustx.weight]
    omega
  | look hbustx hbus hcount =>
    refine ⟨hoops, h.up, h.idle, ?_⟩
    simp only [UsbTx.weight, hbustx, Bustx.weight]
    omega
  | lookNone hbustx hbus hcount =>
    refine ⟨hoops, h.up, h.idle, ?_⟩
    simp only [UsbTx.weight, hbustx, Bustx.weight]
    omega
  | lookStop hbustx hbus =>
    refine ⟨hoops, h.up, h.idle, ?_⟩
    simp only [UsbTx.weight, hbustx, Bustx.weight]
    omega
  | loop hbustx hgo =>
    refine ⟨hoops, h.up, h.idle, ?_⟩
    simp only [UsbTx.weight, hbustx, Bustx.weight]
    omega
  | loopDone hbustx hdone =>
    refine ⟨hoops, h.up, h.idle, ?_⟩
    simp only [UsbTx.weight, hbustx, Bustx.weight]
    omega
  | dequeue hbustx hpost hskb =>
    refine ⟨hoops, h.up, h.idle, ?_⟩
    simp only [UsbTx.weight, hbustx, hpost, Bustx.weight, List.length_cons]
    omega
  | dequeueOops hbustx hpost hskb => exact absurd hskb (h.pool.posted_skb hpost)
  | dequeueNone hbustx hpost =>
    refine ⟨hoops, h.up, h.idle, ?_⟩
    simp only [UsbTx.weight, hbustx, Bustx.weight]
    omega
  | submit hbustx =>
    refine ⟨hoops, h.up, h.idle, ?_⟩
    simp only [UsbTx.weight, hbustx, Bustx.weight, List.length_append, List.length_singleton]
    omega
  | submitFail hbustx => cases hdrains
  | @complete b hmem =>
    obtain ⟨heap, wild, heq⟩ := (s.freeAlign_memoryOnly b).trans (freeData_memoryOnly _ b)
    unfold aicwfUsbTxComplete
    rw [heq]
    refine ⟨hoops, h.up, h.idle, ?_⟩
    have hpos : 0 < s.inFlight.length := List.length_pos_of_mem hmem
    have herase : (s.inFlight.erase b).length = s.inFlight.length - 1 :=
      List.length_erase_of_mem hmem
    simp only [UsbTx.weight, UsbTx.release, UsbTx.setBuf, herase]
    omega
  | check hchecks =>
    unfold UsbTx.wakeQueues
    split_ifs
    · refine ⟨hoops, h.up, h.idle, ?_⟩
      simp only [UsbTx.weight, UsbTx.aicwfUsbTxFlowctrl]
      omega
    · refine ⟨hoops, h.up, h.idle, ?_⟩
      simp only [UsbTx.weight]
      omega
  | cfmNone hid => exact ⟨hoops, h.up, h.idle, Nat.le_refl _⟩
  | @cfmNull usedIdx p hid =>
    obtain ⟨heap, wild, heq⟩ := s.touch_memoryOnly p
    rw [heq]
    exact ⟨hoops, h.up, h.idle, Nat.le_refl _⟩
  | @cfm usedIdx p status hid hstatus =>
    obtain ⟨heap, wild, heq⟩ :=
      (s.touch_memoryOnly p).trans (rwnxTxdatacfm_memoryOnly _ p (status == .retry))
    rw [heq]
    exact ⟨hoops, h.up, h.idle, Nat.le_refl _⟩
  | _ => exact hdrains.elim

theorem flowStep (hdrains : TxDrains e) : FlowStep s e := by
  cases e with
  | submit ok =>
    intro hfail
    have hok : ok = true := hdrains
    rw [hok] at hfail
    cases hfail
  | push skb needCfm => exact hdrains.elim
  | prepareFree => exact hdrains.elim
  | _ => trivial

theorem attendStep (h : TxDraining s) (e : TxEvent) : AttendStep s e := by
  cases e with
  | look => exact h.pool.bus h.up
  | _ => trivial

theorem orderStep (hdrains : TxDrains e) : OrderStep s e := by
  cases e with
  | submit ok => exact hdrains
  | prepareDequeue => exact hdrains.elim
  | _ => trivial

theorem step (h : TxDraining s) (hdrains : TxDrains e) (hstep : txStep s e = some s') :
    TxDraining s' := by
  obtain ⟨hoops, hup, hidle, -⟩ := h.progress hdrains hstep
  exact {
    pool := h.pool.step hstep
    flow := (h.flow.step_iff hstep).mpr (flowStep hdrains)
    attend := (h.attend.step_iff h.pool hstep).mpr (h.attendStep e)
    running := hoops
    up := hup
    idle := hidle }

/-- There was no oops, so a step that cannot be done is a move that cannot be done. -/
theorem disabled (h : TxDraining s) (hstuck : TxStuck s) (hdrains : TxDrains e)
    (hwork : e.isWork = true) : txMove s e = none := by
  have hnone := hstuck e hdrains hwork
  unfold txStep at hnone
  rw [h.running] at hnone
  exact hnone

/-- The sender never waits for another party. -/
theorem pusher_idle (h : TxDraining s) (hstuck : TxStuck s)
    (hmem : ∃ p q, p ≠ q ∧ s.heap p = none ∧ s.heap q = none) : s.pusher = .idle := by
  cases hpusher : s.pusher with
  | idle => rfl
  | entered f =>
    have hnone := h.disabled hstuck (e := .enter) trivial rfl
    simp only [txMove, hpusher, h.up, if_true] at hnone
    cases hnone
  | accepted f =>
    have hnone := h.disabled hstuck (e := .take) trivial rfl
    simp only [txMove, hpusher] at hnone
    split at hnone
    · cases hnone
    · cases hnone
  | filling f b =>
    obtain ⟨p, q, hne, hp, hq⟩ := hmem
    have hnone := h.disabled hstuck (e := .post (some p) (some q)) ⟨rfl, rfl⟩ rfl
    have hfresh : (∀ x ∈ some p, s.heap x = none) ∧
        ∀ y ∈ some q, s.heap y = none ∧ some p ≠ some y := by
      refine ⟨fun x hx => ?_, fun y hy => ?_⟩
      · rw [← Option.some.inj hx]
        exact hp
      · rw [← Option.some.inj hy]
        exact ⟨hq, fun heq => hne (Option.some.inj heq)⟩
    simp only [txMove, hpusher] at hnone
    rw [if_pos hfresh] at hnone
    cases hnone
  | posted =>
    have hnone := h.disabled hstuck (e := .trigger) trivial rfl
    simp only [txMove, hpusher] at hnone
    cases hnone
  | flow =>
    have hnone := h.disabled hstuck (e := .flow) trivial rfl
    simp only [txMove, hpusher] at hnone
    cases hnone

/-- The thread waits only when it is not needed. -/
theorem bustx_waiting (h : TxDraining s) (hstuck : TxStuck s) :
    s.bustx = .waiting := by
  cases hbustx : s.bustx with
  | waiting => rfl
  | woken =>
    have hnone := h.disabled hstuck (e := .look) trivial rfl
    simp only [txMove, hbustx, h.pool.bus h.up, if_true] at hnone
    cases hnone
  | looping =>
    have hnone := h.disabled hstuck (e := .loop) trivial rfl
    simp only [txMove, hbustx] at hnone
    cases hnone
  | dequeuing =>
    have hnone := h.disabled hstuck (e := .dequeue) trivial rfl
    simp only [txMove, hbustx] at hnone
    split at hnone
    · cases hnone
    · split at hnone
      · cases hnone
      · cases hnone
  | holding b =>
    have hnone := h.disabled hstuck (e := .submit true) rfl rfl
    simp only [txMove, hbustx, if_true] at hnone
    cases hnone
  | stopped => exact absurd hbustx h.attend.running

/-- When no party has anything to do, everything is done. -/
theorem drained (h : TxDraining s) (hstuck : TxStuck s)
    (hmem : ∃ p q, p ≠ q ∧ s.heap p = none ∧ s.heap q = none) : TxDrained s := by
  have hpusher := h.pusher_idle hstuck hmem
  have hbustx := h.bustx_waiting hstuck
  have htrgg : ¬ 0 < s.bustxTrgg := by
    intro hpos
    have hnone := h.disabled hstuck (e := .wake) trivial rfl
    simp only [txMove] at hnone
    rw [if_pos ⟨hbustx, hpos⟩] at hnone
    cases hnone
  have hchecks : ¬ 0 < s.checks := by
    intro hpos
    have hnone := h.disabled hstuck (e := .check) trivial rfl
    simp only [txMove] at hnone
    rw [if_pos hpos] at hnone
    cases hnone
  have hflight : s.inFlight = [] := by
    refine List.eq_nil_iff_forall_not_mem.mpr fun b hmem => ?_
    have hnone := h.disabled hstuck (e := .complete b) trivial rfl
    simp only [txMove] at hnone
    rw [if_pos hmem] at hnone
    cases hnone
  have hposted : s.txPost.list = [] := by
    by_contra hne
    rcases h.attend.attended hne h.up with hb | ht | hp | hm
    · exact hb hbustx
    · exact htrgg ht
    · rw [hpusher] at hp
      cases hp
    · exact hm h.idle
  have hfree : s.txFree.list.Perm (List.range aicwfUsbTxUrbs) := by
    have hplaces := h.pool.places
    unfold UsbTx.places UsbTx.inUse at hplaces
    rw [hpusher, hposted, hflight, hbustx, h.idle] at hplaces
    simpa [Pusher.bufs, Bustx.bufs, Pm.bufs] using hplaces
  refine ⟨hpusher, hbustx, hposted, hflight, hfree, ?_⟩
  -- All 200 buffers are free, so no completion is left that could open the queues.
  rw [h.flow.stopped]
  by_contra hbusy
  have hcount : s.txFree.count = (aicwfUsbTxUrbs : Int) := by
    rw [h.pool.freeCount, hfree.length_eq, List.length_range]
  rcases h.flow.checked ((Bool.not_eq_false _).mp hbusy) with hle | hpos
  · rw [hcount] at hle
    exact absurd hle (by decide)
  · exact hchecks hpos

theorem weight_le (h : TxDraining s) :
    s.weight ≤ 5 * aicwfUsbTxUrbs + 4 * s.bustxTrgg + s.checks + 19 := by
  have hlen : s.txPost.list.length + s.inFlight.length ≤ aicwfUsbTxUrbs := by
    have hplaces := h.pool.places.length_eq
    unfold UsbTx.places UsbTx.inUse at hplaces
    rw [List.length_range] at hplaces
    simp only [List.length_append] at hplaces
    omega
  have hpusher : s.pusher.weight ≤ 14 := by
    unfold Pusher.weight
    split <;> omega
  have hbustx : s.bustx.weight ≤ 5 := by
    unfold Bustx.weight
    split <;> omega
  unfold UsbTx.weight
  omega

end TxDraining

/-- The frames that were posted are submitted in their order, if they were so far. -/
theorem InOrder.drained (h : InOrder s) (hdrained : TxDrained s) : s.sent = s.posted := by
  unfold InOrder at h
  rw [hdrained.bustx, hdrained.posted] at h
  rw [h]
  exact (List.append_nil _).trans (List.append_nil _) |>.symm

/-- While the device is up and no frame comes, what is left to be sent takes a bounded
number of steps, however many confirmations come in between.  When nothing is left and
there is memory, every buffer is free and the queues are open, and what was posted in its
order is submitted. -/
theorem tx_drained (es fs : List TxEvent) (s s' : UsbTx)
    (hes : Transition.Guarded txStep (fun s e => FlowStep s e ∧ AttendStep s e) es aicwfUsbInit)
    (hrun : Transition.run txStep es aicwfUsbInit = some s)
    (hoops : s.oops = false) (hup : s.state = .up) (hidle : s.pm = .idle)
    (hfs : Transition.Guarded txStep (fun _ e => TxDrains e) fs s)
    (hdrain : Transition.run txStep fs s = some s')
    (hmem : ∃ p q, p ≠ q ∧ s'.heap p = none ∧ s'.heap q = none) :
    fs.countP TxEvent.isWork ≤ 5 * aicwfUsbTxUrbs + 4 * s.bustxTrgg + s.checks + 19 ∧
    (TxStuck s' → TxDrained s' ∧ (InOrder s → s'.sent = s'.posted)) := by
  have hreach : Transition.Always txStep (fun s => TxPoolOk s ∧ FlowOk s ∧ AttendOk s) es
      aicwfUsbInit :=
    Transition.always_of_guarded
      (fun _ _ _ h hG hstep => ⟨h.1.step hstep, (h.2.1.step_iff hstep).mpr hG.1,
        (h.2.2.step_iff h.1 hstep).mpr hG.2⟩)
      ⟨txPoolOk_init, flowOk_init, attendOk_init⟩ hes
  obtain ⟨hpool, hflow, hattend⟩ := hreach.of_run hrun
  have hstart : TxDraining s := ⟨hpool, hflow, hattend, hoops, hup, hidle⟩
  have hend : TxDraining s' :=
    (Transition.always_of_guarded (fun _ _ _ h hG hstep => h.step hG hstep) hstart hfs).of_run
      hdrain
  have horder : InOrder s → InOrder s' := fun h =>
    ((Transition.always_of_guarded
      (fun _ _ _ (h : TxDraining _ ∧ InOrder _) hG hstep => ⟨h.1.step hG hstep,
        (h.2.step_iff h.1.pool hstep).mpr (TxDraining.orderStep hG)⟩)
      ⟨hstart, h⟩ hfs).of_run hdrain).2
  have hlen := Transition.countP_le_of_run (μ := UsbTx.weight) TxEvent.isWork
    (fun _ _ _ (h : TxDraining _) hG hstep => h.step hG hstep)
    (fun _ _ _ h hG hstep => (h.progress hG hstep).2.2.2) hstart hfs hdrain
  have hbound := hstart.weight_le
  refine ⟨by omega, fun hstuck => ?_⟩
  have hdrained := hend.drained hstuck hmem
  exact ⟨hdrained, fun h => (horder h).drained hdrained⟩

/-- A frame that is posted when the device is up. -/
def oneFrame : List TxEvent :=
  [.start, .prepare, .push 0 false, .enter, .take, .post none (some 1), .trigger, .flow]

/-- What is then left to be done. -/
def oneDrained : List TxEvent :=
  [.wake, .look, .loop, .dequeue, .submit true, .loop, .complete 0, .check]

theorem tx_drained_one : ∃ s s',
    Transition.run txStep oneFrame aicwfUsbInit = some s ∧ s.txPost.list = [0] ∧
    Transition.run txStep oneDrained s = some s' ∧ TxDrained s' ∧
    (InOrder s → s'.sent = s'.posted) := by
  refine ⟨_, _, rfl, rfl, rfl, (tx_drained oneFrame oneDrained _ _ ?_ rfl rfl rfl rfl ?_ rfl
    ⟨2, 3, by decide, rfl, rfl⟩).2 fun e hdrains hwork => ?_⟩
  · iterate 2 refine Transition.Guarded.cons rfl ⟨trivial, trivial⟩ ?_
    refine Transition.Guarded.cons rfl ⟨fun h => (by cases h), trivial⟩ ?_
    iterate 5 refine Transition.Guarded.cons rfl ⟨trivial, trivial⟩ ?_
    trivial
  · iterate 4 refine Transition.Guarded.cons rfl trivial ?_
    refine Transition.Guarded.cons rfl rfl ?_
    iterate 3 refine Transition.Guarded.cons rfl trivial ?_
    trivial
  · cases e with
    | post buf align => rfl
    | submit ok => rfl
    | complete b => rfl
    | enter => rfl
    | take => rfl
    | trigger => rfl
    | flow => rfl
    | wake => rfl
    | look => rfl
    | loop => rfl
    | dequeue => rfl
    | check => rfl
    | cfm usedIdx status => cases hwork
    | _ => exact hdrains.elim

end LonganPi.Wifi
