import LonganPi.Wifi.UsbTxPool

/-!
# Flow control, order and attention

Three properties of the transmit path, each with the exact condition on the steps
of a run under which it holds in every state.

* `tx_woken_iff`: queues that are stopped will be woken.
* `tx_in_order_iff`: the frames are submitted in order, and none is lost.
* `tx_attended_iff`: somebody will submit what is posted.
-/

namespace LonganPi.Wifi

open UsbTx

variable {s s' : UsbTx} {e : TxEvent}

/-! ## Flow control -/

/-- The queues are stopped exactly while `tbusy` is set, and then a completion is still
to come that will find enough free buffers. -/
structure FlowOk (s : UsbTx) : Prop where
  stopped : s.netStopped = s.tbusy
  checked : s.tbusy = true → s.txFree.count ≤ aicwfUsbTxHighWater ∨ 0 < s.checks

/-- The condition: a frame comes while the device is down only when the queues are
stopped anyway, and the buffer that makes enough of them free is not one that goes
back without a completion. -/
def FlowStep (s : UsbTx) : TxEvent → Prop
  | .push _ _ => s.state = .down → s.tbusy = true
  | .submit ok => ok = false → s.tbusy = true →
      s.txFree.count < aicwfUsbTxHighWater ∨ 0 < s.checks
  | .prepareFree => s.tbusy = true → s.txFree.count < aicwfUsbTxHighWater ∨ 0 < s.checks
  | _ => True

theorem flowOk_init : FlowOk aicwfUsbInit := ⟨rfl, fun h => by cases h⟩

namespace FlowOk

theorem frame (h : FlowOk s) (hnet : s'.netStopped = s.netStopped) (hbusy : s'.tbusy = s.tbusy)
    (hfree : s'.txFree.count ≤ s.txFree.count) (hchecks : s'.checks = s.checks) : FlowOk s' where
  stopped := by rw [hnet, hbusy, h.stopped]
  checked := by
    intro hb
    rw [hbusy] at hb
    rw [hchecks]
    exact (h.checked hb).imp_left (Int.le_trans hfree)

/-- A buffer goes back to the free list without a completion. -/
theorem release_iff (h : FlowOk s) (hnet : s'.netStopped = s.netStopped)
    (hbusy : s'.tbusy = s.tbusy) (hfree : s'.txFree.count = s.txFree.count + 1)
    (hchecks : s'.checks = s.checks) :
    FlowOk s' ↔ (s.tbusy = true → s.txFree.count < aicwfUsbTxHighWater ∨ 0 < s.checks) := by
  constructor
  · intro h' hb
    have hor := h'.checked (hbusy.trans hb)
    rw [hfree, hchecks] at hor
    exact hor.imp_left Int.lt_of_add_one_le
  · intro hor
    refine ⟨by rw [hnet, hbusy, h.stopped], fun hb => ?_⟩
    rw [hfree, hchecks]
    exact (hor (hbusy ▸ hb)).imp_left Int.add_one_le_of_lt

theorem flowCtrl (h : FlowOk s) : FlowOk s.flowCtrl := by
  unfold UsbTx.flowCtrl
  split_ifs with hlow
  · refine ⟨rfl, fun _ => Or.inl ?_⟩
    show s.txFree.count ≤ aicwfUsbTxHighWater
    have hwater : aicwfUsbTxLowWater ≤ aicwfUsbTxHighWater := by decide
    exact Int.le_trans (Int.le_of_lt hlow) hwater
  · exact h

/-- When the last completion has looked, either the queues are woken or there are not
enough free buffers. -/
theorem wakeQueues (h : FlowOk s) (n : Nat) : FlowOk { s.wakeQueues with checks := n } := by
  unfold UsbTx.wakeQueues
  split_ifs with hhigh
  · exact ⟨rfl, fun hb => by cases hb⟩
  · refine ⟨h.stopped, fun hb => Or.inl ?_⟩
    exact Int.not_lt.mp fun hlt => hhigh ⟨hlt, hb⟩

/-- Queues that are stopped without `tbusy` are not woken. -/
theorem refuse_iff (h : FlowOk s) (f : TxFrame) : FlowOk (s.refuse f) ↔ s.tbusy = true := by
  obtain ⟨heap, wild, heq⟩ := s.refuse_eq f
  rw [heq]
  constructor
  · intro h'
    have hstopped : (s.netStopped || !s.tbusy) = s.tbusy := h'.stopped
    by_contra hb
    rw [Bool.not_eq_true] at hb
    rw [hb, Bool.not_false, Bool.or_true] at hstopped
    cases hstopped
  · intro hb
    refine h.frame ?_ rfl (Int.le_refl _) rfl
    show (s.netStopped || !s.tbusy) = s.netStopped
    rw [hb, Bool.not_true, Bool.or_false]

theorem accept (h : FlowOk s) (skb : Nat) (needCfm : Bool) : FlowOk (s.accept skb needCfm) := by
  obtain ⟨txHostId, txdescFreeIdx, heq⟩ := s.accept_eq skb needCfm
  rw [heq]
  exact h.frame rfl rfl (Int.le_refl _) rfl

theorem accept_tbusy (s : UsbTx) (skb : Nat) (needCfm : Bool) :
    (s.accept skb needCfm).tbusy = s.tbusy := by
  obtain ⟨txHostId, txdescFreeIdx, heq⟩ := s.accept_eq skb needCfm
  rw [heq]

theorem memoryOnly (h : FlowOk s) (hmem : MemoryOnly s s') : FlowOk s' := by
  obtain ⟨heap, wild, rfl⟩ := hmem
  exact ⟨h.stopped, h.checked⟩

/-- A step keeps it exactly under the condition. -/
theorem step_iff (h : FlowOk s) (hstep : txStep s e = some s') : FlowOk s' ↔ FlowStep s e := by
  have hle := Int.le_refl s.txFree.count
  obtain ⟨-, hmove⟩ := txMove_of_step hstep
  cases hmove with
  | @push skb needCfm hpusher hskb hstate =>
    exact iff_of_true ((h.accept skb needCfm).frame rfl rfl (Int.le_refl _) rfl)
      fun hdown => absurd hdown hstate
  | @pushDown skb needCfm hpusher hskb hstate =>
    rw [(h.accept skb needCfm).refuse_iff, accept_tbusy]
    exact ⟨fun hb _ => hb, fun hb => hb hstate⟩
  | @enterDown f hpusher hstate =>
    exact iff_of_true ((h.memoryOnly (s.dropFrame_memoryOnly f.skb)).frame rfl rfl
      (Int.le_refl _) rfl) trivial
  | @take f b l hpusher hfree =>
    refine iff_of_true (h.frame rfl rfl ?_ rfl) trivial
    exact Int.sub_le_self _ (by decide)
  | @takeNone f hpusher hfree =>
    exact iff_of_true ((h.memoryOnly (s.dropFrame_memoryOnly f.skb)).frame rfl rfl
      (Int.le_refl _) rfl) trivial
  | @post f b p q buf hpusher hbuf halign hne =>
    exact iff_of_true ((h.memoryOnly ((s.dataAt_memoryOnly f p).trans
      (setHeap_memoryOnly _ q (some .kmalloc)))).frame rfl rfl (Int.le_refl _) rfl) trivial
  | flow hpusher => exact iff_of_true (h.flowCtrl.frame rfl rfl (Int.le_refl _) rfl) trivial
  | submit hbustx => exact iff_of_true (h.frame rfl rfl hle rfl) fun hok => by cases hok
  | @submitFail b hbustx =>
    obtain ⟨heap, wild, heq⟩ := s.freeSkb_memoryOnly b
    rw [heq]
    exact Iff.trans (h.release_iff rfl rfl rfl rfl) ⟨fun hor _ => hor, fun hor => hor rfl⟩
  | @complete b hmem =>
    obtain ⟨heap, wild, heq⟩ := (s.freeAlign_memoryOnly b).trans (freeData_memoryOnly _ b)
    unfold aicwfUsbTxComplete
    rw [heq]
    exact iff_of_true ⟨h.stopped, fun _ => Or.inr (Nat.succ_pos s.checks)⟩ trivial
  | check hchecks => exact iff_of_true (h.wakeQueues _) trivial
  | cfmNone hid => exact iff_of_true h trivial
  | @cfmNull usedIdx p hid => exact iff_of_true (h.memoryOnly (s.touch_memoryOnly p)) trivial
  | @cfm usedIdx p status hid hstatus =>
    exact iff_of_true ((h.memoryOnly ((s.touch_memoryOnly p).trans
      (rwnxTxdatacfm_memoryOnly _ p _))).frame rfl rfl (Int.le_refl _) rfl) trivial
  | @prepareFree b hpm =>
    obtain ⟨heap, wild, heq⟩ := s.freeSkb_memoryOnly b
    rw [heq]
    exact h.release_iff rfl rfl rfl rfl
  | startUp hpm hstate => exact iff_of_true h trivial
  | _ => exact iff_of_true (h.frame rfl rfl hle rfl) trivial

end FlowOk

/-- The queues that are stopped will be woken, in every state, exactly when no step
breaks the condition. -/
theorem tx_woken_iff (es : List TxEvent) :
    Transition.Always txStep FlowOk es aicwfUsbInit ↔
      Transition.Guarded txStep FlowStep es aicwfUsbInit :=
  Transition.always_iff_guarded (I := fun _ => True) (fun _ _ _ _ h hstep => h.step_iff hstep)
    (fun _ _ _ _ _ _ _ => trivial) trivial flowOk_init es

/-! ## Order -/

/-- The frames in some buffers. -/
def UsbTx.frames (s : UsbTx) (l : List Nat) : List Nat := l.map fun b => (s.usbTxBuf b).frame

theorem frames_append (s : UsbTx) (l l' : List Nat) :
    s.frames (l ++ l') = s.frames l ++ s.frames l' := List.map_append

/-- Other buffers keep their frames. -/
theorem frames_setBuf {b : Nat} {l : List Nat} (hnot : b ∉ l) (buf : UsbBuf) :
    (s.setBuf b buf).frames l = s.frames l := by
  refine List.map_congr_left fun c hc => ?_
  have hne : c ≠ b := fun hcb => hnot (hcb ▸ hc)
  show (Function.update s.usbTxBuf b buf c).frame = _
  rw [Function.update_of_ne hne]

theorem frames_setBuf_self (s : UsbTx) (b : Nat) (buf : UsbBuf) :
    (s.setBuf b buf).frames [b] = [buf.frame] := by
  show [(Function.update s.usbTxBuf b buf b).frame] = _
  rw [Function.update_self]

/-- The frames that were posted are those that were submitted, the one that the thread
has, and those that are still posted, in this order. -/
def InOrder (s : UsbTx) : Prop :=
  s.posted = s.sent ++ s.frames s.bustx.bufs ++ s.frames s.txPost.list

/-- The condition: a frame can be submitted, and `aicwf_usb_tx_prepare` finds nothing
posted. -/
def OrderStep (s : UsbTx) : TxEvent → Prop
  | .submit ok => ok = true
  | .prepareDequeue => s.txPost.list = []
  | _ => True

theorem inOrder_init : InOrder aicwfUsbInit := rfl

namespace InOrder

theorem frame (h : InOrder s) (hposted : s'.posted = s.posted) (hsent : s'.sent = s.sent)
    (hpost : s'.txPost = s.txPost) (hbustx : s'.bustx.bufs = s.bustx.bufs)
    (hbufs : ∀ b, (s'.usbTxBuf b).frame = (s.usbTxBuf b).frame) : InOrder s' := by
  unfold InOrder UsbTx.frames
  simp only [hbufs]
  rw [hposted, hsent, hpost, hbustx]
  exact h

theorem memoryOnly (h : InOrder s) (hmem : MemoryOnly s s') : InOrder s' := by
  obtain ⟨heap, wild, rfl⟩ := hmem
  exact h

/-- A buffer that is free again keeps the number of its frame. -/
theorem release_frame (s : UsbTx) (b c : Nat) :
    ((s.release b).usbTxBuf c).frame = (s.usbTxBuf c).frame := by
  show (Function.update s.usbTxBuf b { s.usbTxBuf b with skb := none } c).frame = _
  by_cases hc : c = b
  · rw [hc, Function.update_self]
  · rw [Function.update_of_ne hc]

/-- A frame that is lost is missing. -/
theorem not_of_length (h : InOrder s) (hposted : s'.posted = s.posted)
    (hlen : s'.sent.length + s'.bustx.bufs.length + s'.txPost.list.length <
      s.sent.length + s.bustx.bufs.length + s.txPost.list.length) : ¬ InOrder s' := by
  intro h'
  have hsame := congrArg List.length (h.symm.trans (hposted.symm.trans h'))
  simp only [UsbTx.frames, List.length_append, List.length_map] at hsame
  omega

/-- A step keeps the order exactly under the condition. -/
theorem step_iff (hpool : TxPoolOk s) (h : InOrder s) (hstep : txStep s e = some s') :
    InOrder s' ↔ OrderStep s e := by
  obtain ⟨-, hmove⟩ := txMove_of_step hstep
  cases hmove with
  | @push skb needCfm hpusher hskb hstate =>
    obtain ⟨txHostId, txdescFreeIdx, heq⟩ := s.accept_eq skb needCfm
    rw [heq]
    exact iff_of_true (h.frame rfl rfl rfl rfl fun _ => rfl) trivial
  | @pushDown skb needCfm hpusher hskb hstate =>
    obtain ⟨txHostId, txdescFreeIdx, heq⟩ := s.accept_eq skb needCfm
    obtain ⟨heap, wild, heq'⟩ := (s.accept skb needCfm).refuse_eq ⟨s.pushed, skb, needCfm⟩
    rw [heq', heq]
    exact iff_of_true (h.frame rfl rfl rfl rfl fun _ => rfl) trivial
  | @enterDown f hpusher hstate =>
    exact iff_of_true ((h.memoryOnly (s.dropFrame_memoryOnly f.skb)).frame rfl rfl rfl rfl
      fun _ => rfl) trivial
  | @takeNone f hpusher hfree =>
    exact iff_of_true ((h.memoryOnly (s.dropFrame_memoryOnly f.skb)).frame rfl rfl rfl rfl
      fun _ => rfl) trivial
  | @post f b p q buf hpusher hbuf halign hne =>
    obtain ⟨heap, wild, heq⟩ :=
      (s.dataAt_memoryOnly f p).trans (setHeap_memoryOnly _ q (some .kmalloc))
    rw [heq]
    refine iff_of_true ?_ trivial
    have hnot := hpool.filling_notMem hpusher
    have hbustx : b ∉ s.bustx.bufs := fun hmem => hnot
      (List.mem_append_left _ (List.mem_append_right _ hmem))
    have hpost : b ∉ s.txPost.list := fun hmem => hnot
      (List.mem_append_left _ (List.mem_append_left _ (List.mem_append_left _ hmem)))
    unfold InOrder at h ⊢
    show s.posted ++ [f.num] = s.sent ++
      (s.setBuf b ⟨some p, f.needCfm, some q, f.num⟩).frames s.bustx.bufs ++
      (s.setBuf b ⟨some p, f.needCfm, some q, f.num⟩).frames (s.txPost.list ++ [b])
    rw [frames_append, frames_setBuf hbustx, frames_setBuf hpost, frames_setBuf_self, h,
      ← List.append_assoc]
  | flow hpusher =>
    unfold UsbTx.flowCtrl
    split_ifs
    · exact iff_of_true (h.frame rfl rfl rfl rfl fun _ => rfl) trivial
    · exact iff_of_true (h.frame rfl rfl rfl rfl fun _ => rfl) trivial
  | wake hbustx htrgg =>
    exact iff_of_true (h.frame rfl rfl rfl (by rw [hbustx]; rfl) fun _ => rfl) trivial
  | look hbustx hbus hcount =>
    exact iff_of_true (h.frame rfl rfl rfl (by rw [hbustx]; rfl) fun _ => rfl) trivial
  | lookNone hbustx hbus hcount =>
    exact iff_of_true (h.frame rfl rfl rfl (by rw [hbustx]; rfl) fun _ => rfl) trivial
  | lookStop hbustx hbus =>
    exact iff_of_true (h.frame rfl rfl rfl (by rw [hbustx]; rfl) fun _ => rfl) trivial
  | loop hbustx hgo =>
    exact iff_of_true (h.frame rfl rfl rfl (by rw [hbustx]; rfl) fun _ => rfl) trivial
  | loopDone hbustx hdone =>
    exact iff_of_true (h.frame rfl rfl rfl (by rw [hbustx]; rfl) fun _ => rfl) trivial
  | @dequeue b l hbustx hpost hskb =>
    refine iff_of_true ?_ trivial
    unfold InOrder at h ⊢
    rw [hbustx, hpost] at h
    show s.posted = s.sent ++ [(s.usbTxBuf b).frame] ++ s.frames l
    rw [h, List.append_assoc, List.append_assoc]
    rfl
  | @dequeueOops b l hbustx hpost hskb => exact absurd hskb (hpool.posted_skb hpost)
  | dequeueNone hbustx hpost =>
    exact iff_of_true (h.frame rfl rfl rfl (by rw [hbustx]; rfl) fun _ => rfl) trivial
  | @submit b hbustx =>
    refine iff_of_true ?_ rfl
    unfold InOrder at h ⊢
    rw [hbustx] at h
    show s.posted = s.sent ++ [(s.usbTxBuf b).frame] ++ [] ++ s.frames s.txPost.list
    rw [List.append_nil]
    exact h
  | @submitFail b hbustx =>
    refine iff_of_false (h.not_of_length ?_ ?_) (fun hok => by cases hok)
    · obtain ⟨heap, wild, heq⟩ := s.freeSkb_memoryOnly b
      rw [heq]
      rfl
    · obtain ⟨heap, wild, heq⟩ := s.freeSkb_memoryOnly b
      rw [heq, hbustx]
      show s.sent.length + 0 + s.txPost.list.length < s.sent.length + 1 + s.txPost.list.length
      omega
  | @complete b hmem =>
    obtain ⟨heap, wild, heq⟩ := (s.freeAlign_memoryOnly b).trans (freeData_memoryOnly _ b)
    unfold aicwfUsbTxComplete
    rw [heq]
    exact iff_of_true (h.frame rfl rfl rfl rfl fun c => release_frame s b c) trivial
  | check hchecks =>
    unfold UsbTx.wakeQueues
    split_ifs
    · exact iff_of_true (h.frame rfl rfl rfl rfl fun _ => rfl) trivial
    · exact iff_of_true (h.frame rfl rfl rfl rfl fun _ => rfl) trivial
  | cfmNone hid => exact iff_of_true h trivial
  | @cfmNull usedIdx p hid => exact iff_of_true (h.memoryOnly (s.touch_memoryOnly p)) trivial
  | @cfm usedIdx p status hid hstatus =>
    exact iff_of_true ((h.memoryOnly ((s.touch_memoryOnly p).trans
      (rwnxTxdatacfm_memoryOnly _ p _))).frame rfl rfl rfl rfl fun _ => rfl) trivial
  | @prepareDequeue b l hpm hpost =>
    refine iff_of_false (h.not_of_length rfl ?_) fun hnil => ?_
    · show s.sent.length + s.bustx.bufs.length + l.length < _
      rw [hpost, List.length_cons]
      omega
    · have hnil' : s.txPost.list = [] := hnil
      rw [hpost] at hnil'
      cases hnil'
  | prepareOops hpm hpost => exact iff_of_true (h.frame rfl rfl rfl rfl fun _ => rfl) hpost
  | @prepareFree b hpm =>
    obtain ⟨heap, wild, heq⟩ := s.freeSkb_memoryOnly b
    rw [heq]
    exact iff_of_true (h.frame rfl rfl rfl rfl fun c => release_frame s b c) trivial
  | startUp hpm hstate => exact iff_of_true h trivial
  | _ => exact iff_of_true (h.frame rfl rfl rfl rfl fun _ => rfl) trivial

end InOrder

/-- The frames that are posted are submitted in order without a loss, in every state,
exactly when no step breaks the condition. -/
theorem tx_in_order_iff (es : List TxEvent) :
    Transition.Always txStep InOrder es aicwfUsbInit ↔
      Transition.Guarded txStep OrderStep es aicwfUsbInit :=
  Transition.always_iff_guarded (fun _ _ _ hpool h hstep => h.step_iff hpool hstep)
    (fun _ _ _ hpool _ hstep _ => hpool.step hstep) txPoolOk_init inOrder_init es

/-! ## Attention -/

/-- Somebody is at the list of what is posted, or will be. -/
def Attended (s : UsbTx) : Prop :=
  s.bustx ≠ .waiting ∨ 0 < s.bustxTrgg ∨ s.pusher = .posted ∨ s.pm ≠ .idle

/-- The thread runs, and what is posted while the device is up is attended to. -/
structure AttendOk (s : UsbTx) : Prop where
  running : s.bustx ≠ .stopped
  attended : s.txPost.list ≠ [] → s.state = .up → Attended s

/-- The condition: when the thread is woken, the bus is up. -/
def AttendStep (s : UsbTx) : TxEvent → Prop
  | .look => s.busUp = true
  | _ => True

theorem attendOk_init : AttendOk aicwfUsbInit := ⟨fun h => (by cases h), fun h => absurd rfl h⟩

namespace AttendOk

theorem frame (h : AttendOk s) (hpost : s'.txPost = s.txPost) (hstate : s'.state = s.state)
    (hbustx : s'.bustx = s.bustx) (htrgg : s'.bustxTrgg = s.bustxTrgg)
    (hpusher : s.pusher = .posted → s'.pusher = .posted)
    (hpm : s.pm ≠ .idle → s'.pm ≠ .idle) : AttendOk s' := by
  refine ⟨hbustx ▸ h.running, fun hne hup => ?_⟩
  rw [hpost] at hne
  rw [hstate] at hup
  unfold Attended
  rw [hbustx, htrgg]
  rcases h.attended hne hup with hb | ht | hp | hm
  · exact Or.inl hb
  · exact Or.inr (Or.inl ht)
  · exact Or.inr (Or.inr (Or.inl (hpusher hp)))
  · exact Or.inr (Or.inr (Or.inr (hpm hm)))

theorem memoryOnly (h : AttendOk s) (hmem : MemoryOnly s s') : AttendOk s' := by
  obtain ⟨heap, wild, rfl⟩ := hmem
  exact ⟨h.running, h.attended⟩

/-- The thread is at work. -/
theorem of_active (hwaiting : s.bustx ≠ .waiting) (hstopped : s.bustx ≠ .stopped) : AttendOk s :=
  ⟨hstopped, fun _ _ => Or.inl hwaiting⟩

/-- `aicwf_usb_tx_prepare` or a suspend is under way. -/
theorem of_pm (hrunning : s.bustx ≠ .stopped) (hpm : s.pm ≠ .idle) : AttendOk s :=
  ⟨hrunning, fun _ _ => Or.inr (Or.inr (Or.inr hpm))⟩

/-- Nothing is posted, or it cannot be submitted. -/
theorem of_done (hrunning : s.bustx ≠ .stopped)
    (hdone : s.txPost.list = [] ∨ s.state ≠ .up) : AttendOk s := by
  refine ⟨hrunning, fun hne hup => ?_⟩
  rcases hdone with hnil | hdown
  · exact absurd hnil hne
  · exact absurd hup hdown

/-- A step keeps it exactly under the condition. -/
theorem step_iff (hpool : TxPoolOk s) (h : AttendOk s) (hstep : txStep s e = some s') :
    AttendOk s' ↔ AttendStep s e := by
  obtain ⟨-, hmove⟩ := txMove_of_step hstep
  cases hmove with
  | @push skb needCfm hpusher hskb hstate =>
    obtain ⟨txHostId, txdescFreeIdx, heq⟩ := s.accept_eq skb needCfm
    rw [heq]
    exact iff_of_true (h.frame rfl rfl rfl rfl (by simp [hpusher]) id) trivial
  | @pushDown skb needCfm hpusher hskb hstate =>
    obtain ⟨txHostId, txdescFreeIdx, heq⟩ := s.accept_eq skb needCfm
    obtain ⟨heap, wild, heq'⟩ := (s.accept skb needCfm).refuse_eq ⟨s.pushed, skb, needCfm⟩
    rw [heq', heq]
    exact iff_of_true (h.frame rfl rfl rfl rfl id id) trivial
  | enter hpusher hstate =>
    exact iff_of_true (h.frame rfl rfl rfl rfl (by simp [hpusher]) id) trivial
  | @enterDown f hpusher hstate =>
    obtain ⟨heap, wild, heq⟩ := s.dropFrame_memoryOnly f.skb
    rw [heq]
    exact iff_of_true (h.frame rfl rfl rfl rfl (by simp [hpusher]) id) trivial
  | take hpusher hfree =>
    exact iff_of_true (h.frame rfl rfl rfl rfl (by simp [hpusher]) id) trivial
  | @takeNone f hpusher hfree =>
    obtain ⟨heap, wild, heq⟩ := s.dropFrame_memoryOnly f.skb
    rw [heq]
    exact iff_of_true (h.frame rfl rfl rfl rfl (by simp [hpusher]) id) trivial
  | @post f b p q buf hpusher hbuf halign hne =>
    obtain ⟨heap, wild, heq⟩ :=
      (s.dataAt_memoryOnly f p).trans (setHeap_memoryOnly _ q (some .kmalloc))
    rw [heq]
    exact iff_of_true ⟨h.running, fun _ _ => Or.inr (Or.inr (Or.inl rfl))⟩ trivial
  | trigger hpusher =>
    exact iff_of_true ⟨h.running, fun _ _ => Or.inr (Or.inl (Nat.succ_pos _))⟩ trivial
  | flow hpusher =>
    unfold UsbTx.flowCtrl
    split_ifs
    · exact iff_of_true (h.frame rfl rfl rfl rfl (by simp [hpusher]) id) trivial
    · exact iff_of_true (h.frame rfl rfl rfl rfl (by simp [hpusher]) id) trivial
  | wake hbustx htrgg =>
    exact iff_of_true (of_active (fun hb => by cases hb) fun hb => by cases hb) trivial
  | look hbustx hbus hcount =>
    exact iff_of_true (of_active (fun hb => by cases hb) fun hb => by cases hb) hbus
  | lookNone hbustx hbus hcount =>
    refine iff_of_true (of_done (fun hb => by cases hb) (Or.inl ?_)) hbus
    show s.txPost.list = []
    rw [hpool.postCount] at hcount
    exact List.length_eq_zero_iff.mp (by omega)
  | lookStop hbustx hbus =>
    refine iff_of_false (fun h' => h'.running rfl) fun hup => ?_
    have hup' : s.busUp = true := hup
    rw [hbus] at hup'
    cases hup'
  | loop hbustx hgo =>
    exact iff_of_true (of_active (fun hb => by cases hb) fun hb => by cases hb) trivial
  | loopDone hbustx hdone => exact iff_of_true (of_done (fun hb => by cases hb) hdone) trivial
  | dequeue hbustx hpost hskb =>
    exact iff_of_true (of_active (fun hb => by cases hb) fun hb => by cases hb) trivial
  | @dequeueOops b l hbustx hpost hskb => exact absurd hskb (hpool.posted_skb hpost)
  | dequeueNone hbustx hpost =>
    exact iff_of_true (of_done (fun hb => by cases hb) (Or.inl hpost)) trivial
  | submit hbustx =>
    exact iff_of_true (of_active (fun hb => by cases hb) fun hb => by cases hb) trivial
  | submitFail hbustx =>
    exact iff_of_true (of_active (fun hb => by cases hb) fun hb => by cases hb) trivial
  | @complete b hmem =>
    obtain ⟨heap, wild, heq⟩ := (s.freeAlign_memoryOnly b).trans (freeData_memoryOnly _ b)
    unfold aicwfUsbTxComplete
    rw [heq]
    exact iff_of_true (h.frame rfl rfl rfl rfl id id) trivial
  | check hchecks =>
    unfold UsbTx.wakeQueues
    split_ifs
    · exact iff_of_true (h.frame rfl rfl rfl rfl id id) trivial
    · exact iff_of_true (h.frame rfl rfl rfl rfl id id) trivial
  | cfmNone hid => exact iff_of_true h trivial
  | @cfmNull usedIdx p hid => exact iff_of_true (h.memoryOnly (s.touch_memoryOnly p)) trivial
  | @cfm usedIdx p status hid hstatus =>
    exact iff_of_true ((h.memoryOnly ((s.touch_memoryOnly p).trans
      (rwnxTxdatacfm_memoryOnly _ p _))).frame rfl rfl rfl rfl id id) trivial
  | suspend hpm => exact iff_of_true (of_done h.running (Or.inr fun hup => by cases hup)) trivial
  | stop hpm => exact iff_of_true (of_done h.running (Or.inr fun hup => by cases hup)) trivial
  | startUp hpm hstate => exact iff_of_true h trivial
  | start hpm hstate => exact iff_of_true (of_pm h.running fun hp => by cases hp) trivial
  | prepare hpm hpost => exact iff_of_true (of_pm h.running fun hp => by cases hp) trivial
  | prepareDone hpm hpost => exact iff_of_true (of_done h.running (Or.inl hpost)) trivial
  | prepareDequeue hpm hpost => exact iff_of_true (of_pm h.running fun hp => by cases hp) trivial
  | @prepareFree b hpm =>
    obtain ⟨heap, wild, heq⟩ := s.freeSkb_memoryOnly b
    rw [heq]
    exact iff_of_true (of_pm h.running fun hp => by cases hp) trivial
  | postOops hpusher hnull => exact iff_of_true (h.frame rfl rfl rfl rfl id id) trivial
  | prepareOops hpm hpost => exact iff_of_true (h.frame rfl rfl rfl rfl id id) trivial

end AttendOk

/-- While the device is up somebody will submit what is posted, in every state, exactly
when the thread is never woken while the bus is down, which ends it. -/
theorem tx_attended_iff (es : List TxEvent) :
    Transition.Always txStep AttendOk es aicwfUsbInit ↔
      Transition.Guarded txStep AttendStep es aicwfUsbInit :=
  Transition.always_iff_guarded (fun _ _ _ hpool h hstep => h.step_iff hpool hstep)
    (fun _ _ _ hpool _ hstep _ => hpool.step hstep) txPoolOk_init attendOk_init es

end LonganPi.Wifi
