import LonganPi.Wifi.UsbTx

/-!
# The moves of the transmit path

`TxMove` has one case for each thing that a step does, with what the step has
found.  `txMove_of_step` says that there is no other.  What frees memory or reads
it changes nothing else (`MemoryOnly`).
-/

namespace LonganPi.Wifi

namespace UsbTx

/-- Nothing but the memory differs. -/
def MemoryOnly (s s' : UsbTx) : Prop := ∃ heap wild, s' = { s with heap := heap, wild := wild }

namespace MemoryOnly

variable {s s' s'' : UsbTx}

theorem refl (s : UsbTx) : MemoryOnly s s := ⟨s.heap, s.wild, rfl⟩

theorem trans (h : MemoryOnly s s') (h' : MemoryOnly s' s'') : MemoryOnly s s'' := by
  obtain ⟨heap, wild, rfl⟩ := h
  obtain ⟨heap', wild', rfl⟩ := h'
  exact ⟨heap', wild', rfl⟩

end MemoryOnly

theorem setHeap_memoryOnly (s : UsbTx) (p : Nat) (o : Option Block) :
    MemoryOnly s (s.setHeap p o) := ⟨_, _, rfl⟩

theorem stray_memoryOnly (s : UsbTx) : MemoryOnly s s.stray := ⟨_, _, rfl⟩

theorem touch_memoryOnly (s : UsbTx) (p : Nat) : MemoryOnly s (s.touch p) := by
  unfold touch
  split_ifs
  · exact MemoryOnly.refl s
  · exact s.stray_memoryOnly

theorem freeSwHdr_memoryOnly (s : UsbTx) (p : Nat) : MemoryOnly s (s.freeSwHdr p) := by
  unfold freeSwHdr
  split_ifs
  · exact s.setHeap_memoryOnly p _
  · exact s.stray_memoryOnly

theorem touchSwHdr_memoryOnly (s : UsbTx) (p : Nat) : MemoryOnly s (s.touchSwHdr p) := by
  unfold touchSwHdr
  split_ifs
  · exact MemoryOnly.refl s
  · exact s.stray_memoryOnly

theorem devKfreeSkb_memoryOnly (s : UsbTx) (p : Nat) : MemoryOnly s (s.devKfreeSkb p) := by
  unfold devKfreeSkb
  split_ifs
  · exact s.setHeap_memoryOnly p _
  · exact s.stray_memoryOnly

theorem kfree_memoryOnly (s : UsbTx) (p : Nat) : MemoryOnly s (s.kfree p) := by
  unfold kfree
  split_ifs
  · exact s.setHeap_memoryOnly p _
  · exact s.stray_memoryOnly

theorem dropFrame_memoryOnly (s : UsbTx) (p : Nat) : MemoryOnly s (s.dropFrame p) :=
  (s.freeSwHdr_memoryOnly p).trans (devKfreeSkb_memoryOnly _ p)

theorem rwnxTxdatacfm_memoryOnly (s : UsbTx) (p : Nat) (retry : Bool) :
    MemoryOnly s (s.rwnxTxdatacfm p retry) := by
  unfold rwnxTxdatacfm
  split_ifs
  · exact s.dropFrame_memoryOnly p
  · exact s.setHeap_memoryOnly p none
  · exact ((s.freeSwHdr_memoryOnly p).trans (touchSwHdr_memoryOnly _ p)).trans
      (devKfreeSkb_memoryOnly _ p)

theorem freeAlign_memoryOnly (s : UsbTx) (b : Nat) : MemoryOnly s (s.freeAlign b) := by
  unfold freeAlign
  cases (s.usbTxBuf b).usbAlignData with
  | none => exact MemoryOnly.refl s
  | some q => exact s.kfree_memoryOnly q

theorem freeData_memoryOnly (s : UsbTx) (b : Nat) : MemoryOnly s (s.freeData b) := by
  unfold freeData
  cases (s.usbTxBuf b).skb with
  | none => exact MemoryOnly.refl s
  | some p =>
    cases (s.usbTxBuf b).cfm with
    | true => exact s.kfree_memoryOnly p
    | false => exact s.devKfreeSkb_memoryOnly p

theorem freeSkb_memoryOnly (s : UsbTx) (b : Nat) : MemoryOnly s (s.freeSkb b) := by
  unfold freeSkb
  cases (s.usbTxBuf b).skb with
  | none => exact MemoryOnly.refl s
  | some p => exact s.devKfreeSkb_memoryOnly p

/-- The frame is read and its data goes to `p`: the buffer that is posted has that of
a copy, or the frame itself. -/
def dataAt (s : UsbTx) (f : TxFrame) (p : Nat) : UsbTx :=
  if f.needCfm then (s.touch f.skb).setHeap p (some .kmalloc) else (s.touch f.skb).freeSwHdr f.skb

theorem dataAt_memoryOnly (s : UsbTx) (f : TxFrame) (p : Nat) : MemoryOnly s (s.dataAt f p) := by
  unfold dataAt
  split_ifs
  · exact (s.touch_memoryOnly f.skb).trans (setHeap_memoryOnly _ p _)
  · exact (s.touch_memoryOnly f.skb).trans (freeSwHdr_memoryOnly _ f.skb)

/-- A frame comes while the device is down. -/
def refuse (s : UsbTx) (f : TxFrame) : UsbTx :=
  (if s.tbusy then s else s.aicwfUsbTxFlowctrl true).dropFrame f.skb

theorem refuse_eq (s : UsbTx) (f : TxFrame) : ∃ heap wild,
    s.refuse f = { s with netStopped := s.netStopped || !s.tbusy, heap := heap, wild := wild } := by
  have hstop : (if s.tbusy then s else s.aicwfUsbTxFlowctrl true) =
      { s with netStopped := s.netStopped || !s.tbusy } := by
    by_cases hbusy : s.tbusy = true
    · have hsame : (s.netStopped || !s.tbusy) = s.netStopped := by simp [hbusy]
      rw [if_pos hbusy, hsame]
    · have htrue : (s.netStopped || !s.tbusy) = true := by simp [hbusy]
      rw [if_neg hbusy, htrue]
      rfl
  unfold refuse
  rw [hstop]
  obtain ⟨heap, wild, heq⟩ :=
    dropFrame_memoryOnly { s with netStopped := s.netStopped || !s.tbusy } f.skb
  exact ⟨heap, wild, heq⟩

/-- A frame is taken over, with its place in the table when it needs one. -/
def accept (s : UsbTx) (skb : Nat) (needCfm : Bool) : UsbTx :=
  let s := { s.setHeap skb (some (.skb true)) with pushed := s.pushed + 1 }
  if needCfm then s.aicwfUsbHostTxdescPush skb else s

theorem accept_eq (s : UsbTx) (skb : Nat) (needCfm : Bool) : ∃ txHostId txdescFreeIdx,
    s.accept skb needCfm = { s with
      heap := Function.update s.heap skb (some (.skb true)), pushed := s.pushed + 1
      txHostId := txHostId, txdescFreeIdx := txdescFreeIdx } := by
  unfold accept
  cases needCfm with
  | true => exact ⟨_, _, rfl⟩
  | false => exact ⟨_, _, rfl⟩

end UsbTx

open UsbTx

/-- What a step does. -/
inductive TxMove (s : UsbTx) : TxEvent → UsbTx → Prop where
  | push {skb : Nat} {needCfm : Bool} (hpusher : s.pusher = .idle) (hskb : s.heap skb = none)
      (hstate : s.state ≠ .down) :
      TxMove s (.push skb needCfm)
        { s.accept skb needCfm with pusher := .entered ⟨s.pushed, skb, needCfm⟩ }
  | pushDown {skb : Nat} {needCfm : Bool} (hpusher : s.pusher = .idle) (hskb : s.heap skb = none)
      (hstate : s.state = .down) :
      TxMove s (.push skb needCfm)
        ((s.accept skb needCfm).refuse ⟨s.pushed, skb, needCfm⟩)
  | enter {f : TxFrame} (hpusher : s.pusher = .entered f) (hstate : s.state = .up) :
      TxMove s .enter { s with pusher := .accepted f }
  | enterDown {f : TxFrame} (hpusher : s.pusher = .entered f) (hstate : s.state ≠ .up) :
      TxMove s .enter { s.dropFrame f.skb with pusher := .idle }
  | take {f : TxFrame} {b : Nat} {l : List Nat} (hpusher : s.pusher = .accepted f)
      (hfree : s.txFree.list = b :: l) :
      TxMove s .take { s with txFree := ⟨l, s.txFree.count - 1⟩, pusher := .filling f b }
  | takeNone {f : TxFrame} (hpusher : s.pusher = .accepted f) (hfree : s.txFree.list = []) :
      TxMove s .take { s.dropFrame f.skb with pusher := .flow }
  | post {f : TxFrame} {b p q : Nat} {buf : Option Nat} (hpusher : s.pusher = .filling f b)
      (hbuf : if f.needCfm then buf = some p ∧ s.heap p = none else p = f.skb)
      (halign : s.heap q = none) (hne : f.needCfm = true → p ≠ q) :
      TxMove s (.post buf (some q))
        (((s.dataAt f p).setHeap q (some .kmalloc)).postBuf f b p q)
  | postOops {f : TxFrame} {b : Nat} {buf align : Option Nat} (hpusher : s.pusher = .filling f b)
      (hnull : f.needCfm = true ∧ buf = none ∨ align = none) :
      TxMove s (.post buf align) { s with oops := true }
  | trigger (hpusher : s.pusher = .posted) :
      TxMove s .trigger { s with bustxTrgg := s.bustxTrgg + 1, pusher := .flow }
  | flow (hpusher : s.pusher = .flow) : TxMove s .flow { s.flowCtrl with pusher := .idle }
  | wake (hbustx : s.bustx = .waiting) (htrgg : 0 < s.bustxTrgg) :
      TxMove s .wake { s with bustxTrgg := s.bustxTrgg - 1, bustx := .woken }
  | look (hbustx : s.bustx = .woken) (hbus : s.busUp = true) (hcount : 0 < s.txPost.count) :
      TxMove s .look { s with bustx := .looping }
  | lookNone (hbustx : s.bustx = .woken) (hbus : s.busUp = true) (hcount : ¬ 0 < s.txPost.count) :
      TxMove s .look { s with bustx := .waiting }
  | lookStop (hbustx : s.bustx = .woken) (hbus : s.busUp = false) :
      TxMove s .look { s with bustx := .stopped }
  | loop (hbustx : s.bustx = .looping) (hgo : ¬ (s.txPost.list = [] ∨ s.state ≠ .up)) :
      TxMove s .loop { s with bustx := .dequeuing }
  | loopDone (hbustx : s.bustx = .looping) (hdone : s.txPost.list = [] ∨ s.state ≠ .up) :
      TxMove s .loop { s with bustx := .waiting }
  | dequeue {b : Nat} {l : List Nat} (hbustx : s.bustx = .dequeuing)
      (hpost : s.txPost.list = b :: l) (hskb : (s.usbTxBuf b).skb ≠ none) :
      TxMove s .dequeue { s with txPost := ⟨l, s.txPost.count - 1⟩, bustx := .holding b }
  | dequeueOops {b : Nat} {l : List Nat} (hbustx : s.bustx = .dequeuing)
      (hpost : s.txPost.list = b :: l) (hskb : (s.usbTxBuf b).skb = none) :
      TxMove s .dequeue { s with txPost := ⟨l, s.txPost.count - 1⟩, oops := true }
  | dequeueNone (hbustx : s.bustx = .dequeuing) (hpost : s.txPost.list = []) :
      TxMove s .dequeue { s with bustx := .waiting }
  | submit {b : Nat} (hbustx : s.bustx = .holding b) :
      TxMove s (.submit true) { s with
        inFlight := s.inFlight ++ [b], sent := s.sent ++ [(s.usbTxBuf b).frame]
        bustx := .looping }
  | submitFail {b : Nat} (hbustx : s.bustx = .holding b) :
      TxMove s (.submit false) { (s.freeSkb b).release b with bustx := .looping }
  | complete {b : Nat} (hmem : b ∈ s.inFlight) : TxMove s (.complete b) (s.aicwfUsbTxComplete b)
  | check (hchecks : 0 < s.checks) :
      TxMove s .check { s.wakeQueues with checks := s.checks - 1 }
  | cfmNone {usedIdx : Nat} {status : CfmStatus}
      (hid : s.txHostId (usedIdx % usbTxdescCnt) = none) : TxMove s (.cfm usedIdx status) s
  | cfmNull {usedIdx p : Nat} (hid : s.txHostId (usedIdx % usbTxdescCnt) = some p) :
      TxMove s (.cfm usedIdx .null) (s.touch p)
  | cfm {usedIdx p : Nat} {status : CfmStatus}
      (hid : s.txHostId (usedIdx % usbTxdescCnt) = some p) (hstatus : status ≠ .null) :
      TxMove s (.cfm usedIdx status) { (s.touch p).rwnxTxdatacfm p (status == .retry) with
        txHostId := Function.update s.txHostId (usedIdx % usbTxdescCnt) none }
  | suspend (hpm : s.pm = .idle) :
      TxMove s .suspend { s with state := .sleep, pm := .suspending }
  | stop (hpm : s.pm = .suspending) :
      TxMove s .stop { s with state := .down, busUp := false, pm := .idle }
  | startUp (hpm : s.pm = .idle) (hstate : s.state = .up) : TxMove s .start s
  | start (hpm : s.pm = .idle) (hstate : s.state ≠ .up) :
      TxMove s .start { s with state := .up, busUp := true, pm := .looping }
  | prepare (hpm : s.pm = .looping) (hpost : s.txPost.list ≠ []) :
      TxMove s .prepare { s with pm := .dequeuing }
  | prepareDone (hpm : s.pm = .looping) (hpost : s.txPost.list = []) :
      TxMove s .prepare { s with pm := .idle }
  | prepareDequeue {b : Nat} {l : List Nat} (hpm : s.pm = .dequeuing)
      (hpost : s.txPost.list = b :: l) :
      TxMove s .prepareDequeue { s with txPost := ⟨l, s.txPost.count - 1⟩, pm := .holding b }
  | prepareOops (hpm : s.pm = .dequeuing) (hpost : s.txPost.list = []) :
      TxMove s .prepareDequeue { s with oops := true }
  | prepareFree {b : Nat} (hpm : s.pm = .holding b) :
      TxMove s .prepareFree { (s.freeSkb b).release b with pm := .looping }

variable {s s' : UsbTx}

theorem txMove_post {f : TxFrame} {b : Nat} {buf align : Option Nat}
    (hpusher : s.pusher = .filling f b)
    (hfresh : (∀ p ∈ buf, s.heap p = none) ∧ ∀ q ∈ align, s.heap q = none ∧ buf ≠ some q) :
    TxMove s (.post buf align) (s.fillAndPost f b buf align) := by
  unfold fillAndPost usbData
  cases halign : align with
  | none =>
    split
    · next h => cases h
    · exact TxMove.postOops hpusher (Or.inr rfl)
  | some q =>
    obtain ⟨hq, hne⟩ := hfresh.2 q halign
    cases hcfm : f.needCfm with
    | false =>
      have hmove : TxMove s (.post buf (some q)) _ := TxMove.post (p := f.skb) hpusher
        (by rw [hcfm]; rfl) hq (fun h => by rw [hcfm] at h; cases h)
      unfold dataAt at hmove
      rw [hcfm] at hmove
      exact hmove
    | true =>
      cases hbuf : buf with
      | none =>
        exact TxMove.postOops hpusher (Or.inl ⟨hcfm, rfl⟩)
      | some p =>
        have hmove : TxMove s (.post (some p) (some q)) _ := TxMove.post (p := p) hpusher
          (by rw [hcfm]; exact ⟨rfl, hfresh.1 p hbuf⟩) hq
          (fun _ heq => hne (by rw [hbuf, heq]))
        unfold dataAt at hmove
        rw [hcfm] at hmove
        exact hmove

/-- Every step is a move. -/
theorem txMove_of_step {e : TxEvent} (h : txStep s e = some s') :
    s.oops = false ∧ TxMove s e s' := by
  unfold txStep at h
  cases hoops : s.oops with
  | true =>
    rw [hoops] at h
    cases h
  | false =>
  rw [hoops] at h
  replace h : txMove s e = some s' := h
  refine ⟨rfl, ?_⟩
  cases e with
  | push skb needCfm =>
    simp only [txMove] at h
    split_ifs at h with hcond
    rw [← Option.some.inj h]
    by_cases hstate : s.state = .down
    · have heq : s.rwnxTxPush skb needCfm =
          (s.accept skb needCfm).refuse ⟨s.pushed, skb, needCfm⟩ := by
        cases needCfm <;> exact if_pos hstate
      rw [heq]
      exact TxMove.pushDown hcond.1 hcond.2 hstate
    · have heq : s.rwnxTxPush skb needCfm =
          { s.accept skb needCfm with pusher := .entered ⟨s.pushed, skb, needCfm⟩ } := by
        cases needCfm <;> exact if_neg hstate
      rw [heq]
      exact TxMove.push hcond.1 hcond.2 hstate
  | enter =>
    simp only [txMove] at h
    split at h
    · next f hpusher =>
      split_ifs at h with hstate
      · rw [← Option.some.inj h]
        exact TxMove.enter hpusher hstate
      · rw [← Option.some.inj h]
        exact TxMove.enterDown hpusher hstate
    · cases h
  | take =>
    simp only [txMove, aicwfUsbTxDequeue] at h
    split at h
    · next f hpusher =>
      cases hfree : s.txFree.list with
      | nil =>
        rw [hfree] at h
        rw [← Option.some.inj h]
        exact TxMove.takeNone hpusher hfree
      | cons b l =>
        rw [hfree] at h
        rw [← Option.some.inj h]
        exact TxMove.take hpusher hfree
    · cases h
  | post buf align =>
    simp only [txMove] at h
    split at h
    · next f b hpusher =>
      split_ifs at h with hfresh
      rw [← Option.some.inj h]
      exact txMove_post hpusher hfresh
    · cases h
  | trigger =>
    simp only [txMove] at h
    split at h
    · next hpusher =>
      rw [← Option.some.inj h]
      exact TxMove.trigger hpusher
    · cases h
  | flow =>
    simp only [txMove] at h
    split at h
    · next hpusher =>
      rw [← Option.some.inj h]
      exact TxMove.flow hpusher
    · cases h
  | wake =>
    simp only [txMove] at h
    split_ifs at h with hcond
    rw [← Option.some.inj h]
    exact TxMove.wake hcond.1 hcond.2
  | look =>
    simp only [txMove] at h
    split at h
    · next hbustx =>
      split_ifs at h with hbus hcount
      · rw [← Option.some.inj h]
        exact TxMove.look hbustx hbus hcount
      · rw [← Option.some.inj h]
        exact TxMove.lookNone hbustx hbus hcount
      · rw [← Option.some.inj h]
        exact TxMove.lookStop hbustx (Bool.eq_false_iff.mpr hbus)
    · cases h
  | loop =>
    simp only [txMove] at h
    split at h
    · next hbustx =>
      split_ifs at h with hdone
      · rw [← Option.some.inj h]
        exact TxMove.loopDone hbustx hdone
      · rw [← Option.some.inj h]
        exact TxMove.loop hbustx hdone
    · cases h
  | dequeue =>
    simp only [txMove, aicwfUsbTxDequeue] at h
    split at h
    · next hbustx =>
      cases hpost : s.txPost.list with
      | nil =>
        rw [hpost] at h
        rw [← Option.some.inj h]
        exact TxMove.dequeueNone hbustx hpost
      | cons b l =>
        simp only [hpost] at h
        split_ifs at h with hskb
        · rw [← Option.some.inj h]
          exact TxMove.dequeueOops hbustx hpost hskb
        · rw [← Option.some.inj h]
          exact TxMove.dequeue hbustx hpost hskb
    · cases h
  | submit ok =>
    simp only [txMove] at h
    split at h
    · next b hbustx =>
      cases ok with
      | true =>
        rw [← Option.some.inj h]
        exact TxMove.submit hbustx
      | false =>
        rw [← Option.some.inj h]
        exact TxMove.submitFail hbustx
    · cases h
  | complete b =>
    simp only [txMove] at h
    split_ifs at h with hmem
    rw [← Option.some.inj h]
    exact TxMove.complete hmem
  | check =>
    simp only [txMove] at h
    split_ifs at h with hchecks
    rw [← Option.some.inj h]
    exact TxMove.check hchecks
  | cfm usedIdx status =>
    simp only [txMove, aicwfUsbHostTxCfmHandler] at h
    rw [← Option.some.inj h]
    cases hid : s.txHostId (usedIdx % usbTxdescCnt) with
    | none => exact TxMove.cfmNone hid
    | some p =>
      by_cases hstatus : status = .null
      · simp only [hstatus, if_true]
        exact TxMove.cfmNull hid
      · simp only [hstatus, if_false]
        exact TxMove.cfm hid hstatus
  | suspend =>
    simp only [txMove] at h
    split_ifs at h with hpm
    rw [← Option.some.inj h]
    exact TxMove.suspend hpm
  | stop =>
    simp only [txMove] at h
    split_ifs at h with hpm
    rw [← Option.some.inj h]
    exact TxMove.stop hpm
  | start =>
    simp only [txMove] at h
    split_ifs at h with hpm hstate
    · rw [← Option.some.inj h]
      exact TxMove.startUp hpm hstate
    · rw [← Option.some.inj h]
      exact TxMove.start hpm hstate
  | prepare =>
    simp only [txMove] at h
    split_ifs at h with hpm hpost
    · rw [← Option.some.inj h]
      exact TxMove.prepareDone hpm hpost
    · rw [← Option.some.inj h]
      exact TxMove.prepare hpm hpost
  | prepareDequeue =>
    simp only [txMove, aicwfUsbTxDequeue] at h
    split_ifs at h with hpm
    cases hpost : s.txPost.list with
    | nil =>
      rw [hpost] at h
      rw [← Option.some.inj h]
      exact TxMove.prepareOops hpm hpost
    | cons b l =>
      rw [hpost] at h
      rw [← Option.some.inj h]
      exact TxMove.prepareDequeue hpm hpost
  | prepareFree =>
    simp only [txMove] at h
    split at h
    · next b hpm =>
      rw [← Option.some.inj h]
      exact TxMove.prepareFree hpm
    · cases h

end LonganPi.Wifi
