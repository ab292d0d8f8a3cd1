import LonganPi.Lib.Transition
import LonganPi.Wifi.UsbTxMove
import Mathlib.Data.List.Perm.Basic

/-!
# The transmit buffers

Each of the 200 buffers is on the free list, on the list of what is posted, in
flight, or in the hands of the sender, of the thread or of
`aicwf_usb_tx_prepare`.

* `tx_bufs_conserved`: in every run.
-/

namespace LonganPi.Wifi

open UsbTx

/-- The buffer that the sender fills. -/
def Pusher.bufs : Pusher → List Nat
  | .filling _ b => [b]
  | _ => []

/-- The buffer that the thread submits. -/
def Bustx.bufs : Bustx → List Nat
  | .holding b => [b]
  | _ => []

/-- The buffer that `aicwf_usb_tx_prepare` clears. -/
def Pm.bufs : Pm → List Nat
  | .holding b => [b]
  | _ => []

namespace UsbTx

/-- The buffers that are posted and not free again. -/
def inUse (s : UsbTx) : List Nat := s.txPost.list ++ s.inFlight ++ s.bustx.bufs ++ s.pm.bufs

/-- All places where a buffer can be. -/
def places (s : UsbTx) : List Nat := s.txFree.list ++ s.pusher.bufs ++ s.inUse

end UsbTx

/-- The buffers with data are those of `l`. -/
def Filled (bufs : Nat → UsbBuf) (l : List Nat) : Prop :=
  ∀ b, (bufs b).skb.isSome = true ↔ b ∈ l

namespace Filled

variable {bufs : Nat → UsbBuf} {l l' : List Nat} {b : Nat}

theorem perm (h : Filled bufs l) (hperm : l'.Perm l) : Filled bufs l' := fun c =>
  (h c).trans hperm.mem_iff.symm

/-- A buffer gets its data. -/
theorem fill (h : Filled bufs l) {buf : UsbBuf} (hbuf : buf.skb.isSome = true) :
    Filled (Function.update bufs b buf) (b :: l) := by
  intro c
  by_cases hc : c = b
  · rw [hc, Function.update_self]
    exact ⟨fun _ => List.mem_cons_self, fun _ => hbuf⟩
  · rw [Function.update_of_ne hc, h c, List.mem_cons]
    exact ⟨Or.inr, fun hmem => hmem.resolve_left hc⟩

/-- A buffer loses its data. -/
theorem clear (h : Filled bufs (b :: l)) (hnot : b ∉ l) {buf : UsbBuf} (hbuf : buf.skb = none) :
    Filled (Function.update bufs b buf) l := by
  intro c
  by_cases hc : c = b
  · rw [hc, Function.update_self, hbuf]
    exact ⟨fun hsome => (by cases hsome), fun hmem => absurd hmem hnot⟩
  · rw [Function.update_of_ne hc, h c, List.mem_cons]
    exact ⟨fun hmem => hmem.resolve_left hc, Or.inr⟩

end Filled

/-- Every buffer is in one place, the counters are right, and the buffers that are in
use have data. -/
structure TxPoolOk (s : UsbTx) : Prop where
  places : s.places.Perm (List.range aicwfUsbTxUrbs)
  freeCount : s.txFree.count = s.txFree.list.length
  postCount : s.txPost.count = s.txPost.list.length
  filled : Filled s.usbTxBuf s.inUse
  bus : s.state = .up → s.busUp = true

theorem txPoolOk_init : TxPoolOk aicwfUsbInit where
  places := by
    show (List.range aicwfUsbTxUrbs ++ [] ++ []).Perm _
    rw [List.append_nil, List.append_nil]
  freeCount := by
    show ((aicwfUsbTxUrbs : Nat) : Int) = ((List.range aicwfUsbTxUrbs).length : Int)
    rw [List.length_range]
  postCount := rfl
  filled := fun b => ⟨fun h => (by cases h), fun h => (by cases h)⟩
  bus := fun h => by cases h

namespace TxPoolOk

variable {s s' : UsbTx} {b : Nat} {l : List Nat}

theorem nodup (h : TxPoolOk s) : s.places.Nodup := h.places.nodup_iff.mpr List.nodup_range

/-- A buffer that is posted has data. -/
theorem posted_skb (h : TxPoolOk s) (hpost : s.txPost.list = b :: l) :
    (s.usbTxBuf b).skb ≠ none := by
  have hmem : b ∈ s.inUse := by
    unfold UsbTx.inUse
    rw [hpost]
    exact List.mem_cons_self
  exact Option.isSome_iff_ne_none.mp ((h.filled b).mpr hmem)

/-- The buffer that the sender fills is neither posted nor in flight. -/
theorem filling_notMem (h : TxPoolOk s) {f : TxFrame} (hpusher : s.pusher = .filling f b) :
    b ∉ s.inUse := by
  have hnd := h.nodup
  unfold UsbTx.places at hnd
  rw [hpusher] at hnd
  have hdisj := (List.nodup_append.mp hnd).2.2
  exact fun hmem => hdisj b (List.mem_append_right _ (List.mem_singleton_self b)) b hmem rfl

theorem filling_skb (h : TxPoolOk s) {f : TxFrame} (hpusher : s.pusher = .filling f b) :
    (s.usbTxBuf b).skb = none := by
  by_contra hne
  exact h.filling_notMem hpusher ((h.filled b).mp (Option.isSome_iff_ne_none.mpr hne))

/-- The buffers stay where they are. -/
theorem frame (h : TxPoolOk s) (hfree : s'.txFree = s.txFree) (hpost : s'.txPost = s.txPost)
    (hbufs : s'.usbTxBuf = s.usbTxBuf) (hflight : s'.inFlight = s.inFlight)
    (hpusher : s'.pusher.bufs = s.pusher.bufs) (hbustx : s'.bustx.bufs = s.bustx.bufs)
    (hpm : s'.pm.bufs = s.pm.bufs) (hbus : s'.state = .up → s'.busUp = true) :
    TxPoolOk s' := by
  have hinUse : s'.inUse = s.inUse := by
    unfold UsbTx.inUse
    rw [hpost, hflight, hbustx, hpm]
  refine ⟨?_, hfree ▸ h.freeCount, hpost ▸ h.postCount, ?_, hbus⟩
  · unfold UsbTx.places
    rw [hinUse, hfree, hpusher]
    exact h.places
  · rw [hinUse, hbufs]
    exact h.filled

/-- Only the memory differs. -/
theorem memoryOnly (h : TxPoolOk s) (hmem : MemoryOnly s s') : TxPoolOk s' := by
  obtain ⟨heap, wild, rfl⟩ := hmem
  exact ⟨h.places, h.freeCount, h.postCount, h.filled, h.bus⟩

/-- A buffer that is not in use any more goes to the free list. -/
theorem toFree (h : TxPoolOk s) (hinUse : s.inUse.Perm (b :: s'.inUse))
    (hfree : s'.txFree = aicwfUsbTxQueue s.txFree b) (hpost : s'.txPost = s.txPost)
    (hbufs : s'.usbTxBuf = Function.update s.usbTxBuf b { s.usbTxBuf b with skb := none })
    (hpusher : s'.pusher = s.pusher) (hbus : s'.state = .up → s'.busUp = true) :
    TxPoolOk s' := by
  have hperm : s'.places.Perm s.places := by
    unfold UsbTx.places
    rw [hfree, hpusher]
    show (s.txFree.list ++ [b] ++ s.pusher.bufs ++ s'.inUse).Perm _
    rw [List.append_assoc, List.append_assoc, List.append_assoc]
    refine List.Perm.append_left _ ?_
    refine List.Perm.trans ?_ (hinUse.symm.append_left _)
    show (b :: (s.pusher.bufs ++ s'.inUse)).Perm _
    exact List.perm_middle.symm
  have hnd : (b :: s'.inUse).Nodup := by
    refine hinUse.nodup_iff.mp ?_
    exact (List.nodup_append.mp h.nodup).2.1
  refine ⟨hperm.trans h.places, ?_, hpost ▸ h.postCount, ?_, hbus⟩
  · rw [hfree]
    show s.txFree.count + 1 = ((s.txFree.list ++ [b]).length : Int)
    rw [h.freeCount, List.length_append]
    rfl
  · rw [hbufs]
    exact (h.filled.perm hinUse.symm).clear (List.nodup_cons.mp hnd).1 rfl

/-- A buffer that is in use is somewhere else. -/
theorem moved (h : TxPoolOk s) (hinUse : s'.inUse.Perm s.inUse) (hfree : s'.txFree = s.txFree)
    (hcount : s'.txPost.count = s'.txPost.list.length) (hbufs : s'.usbTxBuf = s.usbTxBuf)
    (hpusher : s'.pusher = s.pusher) (hbus : s'.state = .up → s'.busUp = true) :
    TxPoolOk s' := by
  refine ⟨?_, hfree ▸ h.freeCount, hcount, ?_, hbus⟩
  · unfold UsbTx.places
    rw [hfree, hpusher]
    exact (hinUse.append_left _).trans h.places
  · rw [hbufs]
    exact h.filled.perm hinUse

/-- The counter of a queue whose first buffer is taken. -/
theorem count_tail (hcount : s.txPost.count = s.txPost.list.length)
    (hpost : s.txPost.list = b :: l) : s.txPost.count - 1 = (l.length : Int) := by
  rw [hcount, hpost, List.length_cons]
  omega

/-- A step keeps the buffers. -/
theorem step (h : TxPoolOk s) {e : TxEvent} (hstep : txStep s e = some s') : TxPoolOk s' := by
  obtain ⟨-, hmove⟩ := txMove_of_step hstep
  cases hmove with
  | @push skb needCfm hpusher hskb hstate =>
    obtain ⟨txHostId, txdescFreeIdx, heq⟩ := s.accept_eq skb needCfm
    rw [heq]
    exact h.frame rfl rfl rfl rfl (by rw [hpusher]; rfl) rfl rfl h.bus
  | @pushDown skb needCfm hpusher hskb hstate =>
    obtain ⟨txHostId, txdescFreeIdx, heq⟩ := s.accept_eq skb needCfm
    obtain ⟨heap, wild, heq'⟩ := (s.accept skb needCfm).refuse_eq ⟨s.pushed, skb, needCfm⟩
    rw [heq', heq]
    exact h.frame rfl rfl rfl rfl rfl rfl rfl h.bus
  | enter hpusher hstate =>
    exact h.frame rfl rfl rfl rfl (by rw [hpusher]; rfl) rfl rfl h.bus
  | @enterDown f hpusher hstate =>
    obtain ⟨heap, wild, heq⟩ := s.dropFrame_memoryOnly f.skb
    rw [heq]
    exact h.frame rfl rfl rfl rfl (by rw [hpusher]; rfl) rfl rfl h.bus
  | @take f b l hpusher hfree =>
    refine ⟨?_, ?_, h.postCount, h.filled, h.bus⟩
    · refine List.Perm.trans ?_ h.places
      unfold UsbTx.places
      rw [hfree, hpusher]
      show (l ++ [b] ++ s.inUse).Perm (b :: l ++ [] ++ s.inUse)
      rw [List.append_nil]
      exact (List.perm_append_singleton b l).append_right _
    · show s.txFree.count - 1 = (l.length : Int)
      rw [h.freeCount, hfree, List.length_cons]
      omega
  | @takeNone f hpusher hfree =>
    obtain ⟨heap, wild, heq⟩ := s.dropFrame_memoryOnly f.skb
    rw [heq]
    exact h.frame rfl rfl rfl rfl (by rw [hpusher]; rfl) rfl rfl h.bus
  | @post f b p q buf hpusher hbuf halign hne =>
    obtain ⟨heap, wild, heq⟩ :=
      (s.dataAt_memoryOnly f p).trans (setHeap_memoryOnly _ q (some .kmalloc))
    rw [heq]
    refine ⟨?_, h.freeCount, ?_, ?_, h.bus⟩
    · refine List.Perm.trans ?_ h.places
      unfold UsbTx.places UsbTx.inUse
      rw [hpusher]
      show (s.txFree.list ++ [] ++ (s.txPost.list ++ [b] ++ s.inFlight ++ s.bustx.bufs ++
        s.pm.bufs)).Perm (s.txFree.list ++ [b] ++ (s.txPost.list ++ s.inFlight ++ s.bustx.bufs ++
        s.pm.bufs))
      rw [List.append_nil, List.append_assoc s.txFree.list]
      refine List.Perm.append_left _ ?_
      rw [← List.append_assoc [b], ← List.append_assoc [b], ← List.append_assoc [b]]
      exact (((List.perm_append_singleton b _).append_right _).append_right _).append_right _
    · show s.txPost.count + 1 = ((s.txPost.list ++ [b]).length : Int)
      rw [h.postCount, List.length_append]
      rfl
    · have hfill : Filled (Function.update s.usbTxBuf b ⟨some p, f.needCfm, some q, f.num⟩)
          (b :: s.inUse) := h.filled.fill rfl
      refine hfill.perm ?_
      show (s.txPost.list ++ [b] ++ s.inFlight ++ s.bustx.bufs ++ s.pm.bufs).Perm
        (b :: (s.txPost.list ++ s.inFlight ++ s.bustx.bufs ++ s.pm.bufs))
      exact (((List.perm_append_singleton b _).append_right _).append_right _).append_right _
  | postOops hpusher hnull => exact h.frame rfl rfl rfl rfl rfl rfl rfl h.bus
  | trigger hpusher => exact h.frame rfl rfl rfl rfl (by rw [hpusher]; rfl) rfl rfl h.bus
  | flow hpusher =>
    unfold flowCtrl
    split_ifs
    · exact h.frame rfl rfl rfl rfl (by rw [hpusher]; rfl) rfl rfl h.bus
    · exact h.frame rfl rfl rfl rfl (by rw [hpusher]; rfl) rfl rfl h.bus
  | wake hbustx htrgg => exact h.frame rfl rfl rfl rfl rfl (by rw [hbustx]; rfl) rfl h.bus
  | look hbustx hbus hcount => exact h.frame rfl rfl rfl rfl rfl (by rw [hbustx]; rfl) rfl h.bus
  | lookNone hbustx hbus hcount =>
    exact h.frame rfl rfl rfl rfl rfl (by rw [hbustx]; rfl) rfl h.bus
  | lookStop hbustx hbus => exact h.frame rfl rfl rfl rfl rfl (by rw [hbustx]; rfl) rfl h.bus
  | loop hbustx hgo => exact h.frame rfl rfl rfl rfl rfl (by rw [hbustx]; rfl) rfl h.bus
  | loopDone hbustx hdone => exact h.frame rfl rfl rfl rfl rfl (by rw [hbustx]; rfl) rfl h.bus
  | @dequeue b l hbustx hpost hskb =>
    refine h.moved ?_ rfl (count_tail h.postCount hpost) rfl rfl h.bus
    unfold UsbTx.inUse
    rw [hpost, hbustx]
    show (l ++ s.inFlight ++ [b] ++ s.pm.bufs).Perm (b :: (l ++ s.inFlight) ++ [] ++ s.pm.bufs)
    rw [List.append_nil]
    exact (List.perm_append_singleton b _).append_right _
  | @dequeueOops b l hbustx hpost hskb => exact absurd hskb (h.posted_skb hpost)
  | dequeueNone hbustx hpost => exact h.frame rfl rfl rfl rfl rfl (by rw [hbustx]; rfl) rfl h.bus
  | @submit b hbustx =>
    refine h.moved ?_ rfl h.postCount rfl rfl h.bus
    unfold UsbTx.inUse
    rw [hbustx]
    show (s.txPost.list ++ (s.inFlight ++ [b]) ++ [] ++ s.pm.bufs).Perm
      (s.txPost.list ++ s.inFlight ++ [b] ++ s.pm.bufs)
    rw [List.append_nil, List.append_assoc s.txPost.list s.inFlight]
  | @submitFail b hbustx =>
    obtain ⟨heap, wild, heq⟩ := s.freeSkb_memoryOnly b
    rw [heq]
    refine h.toFree ?_ rfl rfl rfl rfl h.bus
    unfold UsbTx.inUse
    rw [hbustx]
    show (s.txPost.list ++ s.inFlight ++ [b] ++ s.pm.bufs).Perm
      (b :: (s.txPost.list ++ s.inFlight ++ [] ++ s.pm.bufs))
    rw [List.append_nil]
    exact (List.perm_append_singleton b _).append_right _
  | @complete b hmem =>
    obtain ⟨heap, wild, heq⟩ := (s.freeAlign_memoryOnly b).trans (freeData_memoryOnly _ b)
    unfold aicwfUsbTxComplete
    rw [heq]
    refine h.toFree ?_ rfl rfl rfl rfl h.bus
    show (s.txPost.list ++ s.inFlight ++ s.bustx.bufs ++ s.pm.bufs).Perm
      (b :: (s.txPost.list ++ s.inFlight.erase b ++ s.bustx.bufs ++ s.pm.bufs))
    have hperm : (s.txPost.list ++ s.inFlight).Perm
        (b :: (s.txPost.list ++ s.inFlight.erase b)) :=
      ((List.perm_cons_erase hmem).append_left _).trans List.perm_middle
    exact (hperm.append_right _).append_right _
  | check hchecks =>
    unfold wakeQueues
    split_ifs
    · exact h.frame rfl rfl rfl rfl rfl rfl rfl h.bus
    · exact h.frame rfl rfl rfl rfl rfl rfl rfl h.bus
  | cfmNone hid => exact h
  | @cfmNull usedIdx p hid => exact h.memoryOnly (s.touch_memoryOnly p)
  | @cfm usedIdx p status hid hstatus =>
    obtain ⟨heap, wild, heq⟩ := (s.touch_memoryOnly p).trans
      (rwnxTxdatacfm_memoryOnly _ p (status == .retry))
    rw [heq]
    exact h.frame rfl rfl rfl rfl rfl rfl rfl h.bus
  | suspend hpm => exact h.frame rfl rfl rfl rfl rfl rfl (by rw [hpm]; rfl) (fun hup => by cases hup)
  | stop hpm => exact h.frame rfl rfl rfl rfl rfl rfl (by rw [hpm]; rfl) (fun hup => by cases hup)
  | startUp hpm hstate => exact h
  | start hpm hstate => exact h.frame rfl rfl rfl rfl rfl rfl (by rw [hpm]; rfl) (fun _ => rfl)
  | prepare hpm hpost => exact h.frame rfl rfl rfl rfl rfl rfl (by rw [hpm]; rfl) h.bus
  | prepareDone hpm hpost => exact h.frame rfl rfl rfl rfl rfl rfl (by rw [hpm]; rfl) h.bus
  | @prepareDequeue b l hpm hpost =>
    refine h.moved ?_ rfl (count_tail h.postCount hpost) rfl rfl h.bus
    unfold UsbTx.inUse
    rw [hpost, hpm]
    show (l ++ s.inFlight ++ s.bustx.bufs ++ [b]).Perm
      (b :: (l ++ s.inFlight ++ s.bustx.bufs) ++ [])
    rw [List.append_nil]
    exact List.perm_append_singleton b _
  | prepareOops hpm hpost => exact h.frame rfl rfl rfl rfl rfl rfl rfl h.bus
  | @prepareFree b hpm =>
    obtain ⟨heap, wild, heq⟩ := s.freeSkb_memoryOnly b
    rw [heq]
    refine h.toFree ?_ rfl rfl rfl rfl h.bus
    unfold UsbTx.inUse
    rw [hpm]
    show (s.txPost.list ++ s.inFlight ++ s.bustx.bufs ++ [b]).Perm
      (b :: (s.txPost.list ++ s.inFlight ++ s.bustx.bufs ++ []))
    rw [List.append_nil]
    exact List.perm_append_singleton b _

end TxPoolOk

/-- In every run each of the buffers is in one place. -/
theorem tx_bufs_conserved (es : List TxEvent) :
    Transition.Always txStep TxPoolOk es aicwfUsbInit :=
  Transition.always_of_step (fun _ _ _ h hstep => h.step hstep) es txPoolOk_init

end LonganPi.Wifi
