import LonganPi.Lib.OwnedBlocks
import LonganPi.Wifi.UsbTxPool

/-!
# The memory of the transmit path

A frame belongs to the sender until it is posted, and then to its buffer.  A frame
that shall be confirmed belongs to its place in the table instead, and the buffer has
a copy.  Each buffer in use has an aligned copy of the data.

* `tx_memory_iff`: exactly when nothing is lost, freed twice, freed as what it is not,
  or used after it was freed.
-/

namespace LonganPi.Wifi

open UsbTx Ownership

/-- Who can own a block. -/
inductive TxPlace where
  | ring (i : Nat)
  | sender
  | data (b : Nat)
  | align (b : Nat)
  deriving DecidableEq, Repr

/-- The frame that the sender is about to send. -/
def Pusher.frame? : Pusher → Option TxFrame
  | .entered f => some f
  | .accepted f => some f
  | .filling f _ => some f
  | _ => none

/-- The sender owns a frame that is not in the table. -/
def TxFrame.owned (f : TxFrame) : Option (Nat × Block) :=
  if f.needCfm then none else some (f.skb, .skb true)

/-- The data of a buffer. -/
def UsbBuf.data (buf : UsbBuf) : Option (Nat × Block) :=
  buf.skb.map fun p => (p, if buf.cfm then .kmalloc else .skb false)

/-- The aligned copy, while the buffer has data. -/
def UsbBuf.align (buf : UsbBuf) : Option (Nat × Block) :=
  buf.skb.bind fun _ => buf.usbAlignData.map fun q => (q, .kmalloc)

/-- What each of them owns. -/
def UsbTx.own (s : UsbTx) : TxPlace → Option (Nat × Block)
  | .ring i => (s.txHostId i).map fun p => (p, .skb true)
  | .sender => s.pusher.frame?.bind TxFrame.owned
  | .data b => (s.usbTxBuf b).data
  | .align b => (s.usbTxBuf b).align

/-- The memory is in order: nothing went wrong so far, each block has one owner, and the
sender's frame that shall be confirmed is in the table. -/
structure MemOk (s : UsbTx) : Prop where
  oops : s.oops = false
  wild : s.wild = 0
  owns : OwnsAs s.own s.heap
  aligned : ∀ b, (s.usbTxBuf b).skb.isSome = true → (s.usbTxBuf b).usbAlignData.isSome = true
  pending : ∀ f, s.pusher.frame? = some f → f.needCfm = true → ∃ i, s.txHostId i = some f.skb

/-- The condition.  For a frame that shall be confirmed its place in the table is free,
the device is up and there is a buffer, and it is not confirmed before it is posted.
That a frame is done is confirmed only while the device is down.  `kmalloc` and
`usb_submit_urb` succeed, and `aicwf_usb_tx_prepare` finds nothing posted. -/
def MemStep (s : UsbTx) : TxEvent → Prop
  | .push _ needCfm => needCfm = true →
      s.state ≠ .down ∧ s.txHostId (s.txdescFreeIdx % usbTxdescCnt) = none
  | .enter => s.state ≠ .up → ∀ f, s.pusher.frame? = some f → f.needCfm = false
  | .take => s.txFree.list = [] → ∀ f, s.pusher.frame? = some f → f.needCfm = false
  | .post buf align => align ≠ none ∧
      ∀ f, s.pusher.frame? = some f → f.needCfm = true → buf ≠ none
  | .submit ok => ok = true
  | .cfm usedIdx status =>
      (status = .done → s.state ≠ .down → s.txHostId (usedIdx % usbTxdescCnt) = none) ∧
        (status ≠ .null → ∀ f, s.pusher.frame? = some f → f.needCfm = true →
          s.txHostId (usedIdx % usbTxdescCnt) ≠ some f.skb)
  | .prepareDequeue => s.txPost.list ≠ []
  | .prepareFree => False
  | _ => True

variable {s s' : UsbTx} {e : TxEvent} {b p q : Nat} {f : TxFrame}

/-! ## What is done to a block that is there -/

theorem touch_eq {blk : Block} (hp : s.heap p = some blk) : s.touch p = s :=
  if_pos (by rw [hp]; rfl)

theorem freeSwHdr_eq (hp : s.heap p = some (.skb true)) :
    s.freeSwHdr p = s.setHeap p (some (.skb false)) := if_pos hp

theorem devKfreeSkb_eq (hp : s.heap p = some (.skb false)) : s.devKfreeSkb p = s.setHeap p none :=
  if_pos (Or.inr hp)

theorem kfree_eq (hp : s.heap p = some .kmalloc) : s.kfree p = s.setHeap p none := if_pos hp

theorem freeData_eq (hskb : (s.usbTxBuf b).skb = some p)
    (hp : s.heap p = some (if (s.usbTxBuf b).cfm then .kmalloc else .skb false)) :
    s.freeData b = s.setHeap p none := by
  unfold freeData
  rw [hskb]
  cases hcfm : (s.usbTxBuf b).cfm with
  | true =>
    rw [hcfm] at hp
    exact kfree_eq hp
  | false =>
    rw [hcfm] at hp
    exact devKfreeSkb_eq hp

theorem dropFrame_eq (hp : s.heap p = some (.skb true)) : s.dropFrame p = s.setHeap p none := by
  unfold dropFrame
  rw [freeSwHdr_eq hp, devKfreeSkb_eq (Function.update_self ..)]
  show { s with heap := Function.update (Function.update s.heap p _) p none } = _
  rw [Function.update_idem]
  rfl

/-- A frame that comes while the device is down. -/
theorem refuse_of_live (f : TxFrame) (hp : s.heap f.skb = some (.skb true)) : ∃ netStopped,
    s.refuse f = { s with
      netStopped := netStopped, heap := Function.update s.heap f.skb none } := by
  unfold refuse
  split_ifs
  · exact ⟨s.netStopped, dropFrame_eq hp⟩
  · exact ⟨true, dropFrame_eq (s := s.aicwfUsbTxFlowctrl true) hp⟩

/-! ## Who owns what after a step -/

theorem own_congr (hid : s'.txHostId = s.txHostId) (hpusher : s'.pusher.frame? = s.pusher.frame?)
    (hbufs : s'.usbTxBuf = s.usbTxBuf) : s'.own = s.own := by
  funext pl
  cases pl with
  | ring i => show (s'.txHostId i).map _ = _; rw [hid]; rfl
  | sender => show s'.pusher.frame?.bind _ = _; rw [hpusher]; rfl
  | data b => show (s'.usbTxBuf b).data = _; rw [hbufs]; rfl
  | align b => show (s'.usbTxBuf b).align = _; rw [hbufs]; rfl

theorem own_pusher (s : UsbTx) (x : Pusher) : { s with pusher := x }.own =
    Function.update s.own .sender (x.frame?.bind TxFrame.owned) := by
  funext pl
  cases pl with
  | sender => rw [Function.update_self]; rfl
  | ring i => rw [Function.update_of_ne (by simp)]; rfl
  | data b => rw [Function.update_of_ne (by simp)]; rfl
  | align b => rw [Function.update_of_ne (by simp)]; rfl

theorem own_ring (s : UsbTx) (i : Nat) (o : Option Nat) :
    { s with txHostId := Function.update s.txHostId i o }.own =
      Function.update s.own (.ring i) (o.map fun p => (p, .skb true)) := by
  funext pl
  cases pl with
  | ring j =>
    show (Function.update s.txHostId i o j).map _ = _
    by_cases hj : j = i
    · rw [hj, Function.update_self, Function.update_self]
    · rw [Function.update_of_ne hj, Function.update_of_ne (by simpa using hj)]
      rfl
  | sender => rw [Function.update_of_ne (by simp)]; rfl
  | data b => rw [Function.update_of_ne (by simp)]; rfl
  | align b => rw [Function.update_of_ne (by simp)]; rfl

theorem own_setBuf (s : UsbTx) (b : Nat) (buf : UsbBuf) : (s.setBuf b buf).own =
    Function.update (Function.update s.own (.data b) buf.data) (.align b) buf.align := by
  funext pl
  cases pl with
  | ring i => rw [Function.update_of_ne (by simp), Function.update_of_ne (by simp)]; rfl
  | sender => rw [Function.update_of_ne (by simp), Function.update_of_ne (by simp)]; rfl
  | data c =>
    rw [Function.update_of_ne (by simp)]
    show (Function.update s.usbTxBuf b buf c).data = _
    by_cases hc : c = b
    · rw [hc, Function.update_self, Function.update_self]
    · rw [Function.update_of_ne hc, Function.update_of_ne (by simpa using hc)]
      rfl
  | align c =>
    show (Function.update s.usbTxBuf b buf c).align = _
    by_cases hc : c = b
    · rw [hc, Function.update_self, Function.update_self]
    · rw [Function.update_of_ne hc, Function.update_of_ne (by simpa using hc),
        Function.update_of_ne (by simp)]
      rfl

theorem memOk_init : MemOk aicwfUsbInit where
  oops := rfl
  wild := rfl
  owns := by
    have hnone : aicwfUsbInit.own = fun _ => none := by
      funext pl
      cases pl <;> rfl
    rw [hnone]
    exact OwnsAs.empty
  aligned := fun b h => by cases h
  pending := fun f h => by cases h

namespace MemOk

theorem ring_heap (h : MemOk s) {i : Nat} (hid : s.txHostId i = some p) :
    s.own (.ring i) = some (p, .skb true) ∧ s.heap p = some (.skb true) := by
  have hown : s.own (.ring i) = some (p, .skb true) := by
    show (s.txHostId i).map _ = _
    rw [hid]
    rfl
  exact ⟨hown, h.owns.holds hown⟩

theorem sender_own (hf : s.pusher.frame? = some f) (hcfm : f.needCfm = false) :
    s.own .sender = some (f.skb, .skb true) := by
  show s.pusher.frame?.bind _ = _
  rw [hf]
  show f.owned = _
  unfold TxFrame.owned
  rw [hcfm]
  rfl

/-- The frame of the sender is there, wherever it belongs. -/
theorem sender_heap (h : MemOk s) (hf : s.pusher.frame? = some f) :
    s.heap f.skb = some (.skb true) := by
  cases hcfm : f.needCfm with
  | false => exact h.owns.holds (sender_own hf hcfm)
  | true =>
    obtain ⟨i, hi⟩ := h.pending f hf hcfm
    exact (h.ring_heap hi).2

theorem frame (h : MemOk s) (hoops : s'.oops = s.oops) (hwild : s'.wild = s.wild)
    (hheap : s'.heap = s.heap) (hid : s'.txHostId = s.txHostId)
    (hpusher : s'.pusher.frame? = s.pusher.frame?) (hbufs : s'.usbTxBuf = s.usbTxBuf) :
    MemOk s' where
  oops := hoops.trans h.oops
  wild := hwild.trans h.wild
  owns := by
    rw [own_congr hid hpusher hbufs, hheap]
    exact h.owns
  aligned := by
    rw [hbufs]
    exact h.aligned
  pending := by
    rw [hpusher, hid]
    exact h.pending

/-- The sender does not send its frame.  One in the table is freed there. -/
theorem drop_iff (h : MemOk s) (hf : s.pusher.frame? = some f) {x : Pusher}
    (hx : x.frame? = none) :
    MemOk { s.dropFrame f.skb with pusher := x } ↔ f.needCfm = false := by
  have hskb := h.sender_heap hf
  rw [dropFrame_eq hskb]
  constructor
  · intro h'
    by_contra hcfm
    obtain ⟨i, hi⟩ := h.pending f hf (by simpa using hcfm)
    exact OwnsAs.not_of_freed (i := .ring i) (b := .skb true) (h.ring_heap hi).1
      (Function.update_self ..) h'.owns
  · intro hcfm
    refine ⟨h.oops, h.wild, ?_, h.aligned, fun g hg => ?_⟩
    · have hown := own_pusher (s.setHeap f.skb none) x
      rw [hx] at hown
      rw [hown]
      exact h.owns.release (sender_own hf hcfm)
    · have hg' : x.frame? = some g := hg
      rw [hx] at hg'
      cases hg'

/-- A frame that shall be confirmed needs its place in the table. -/
theorem push_iff (h : MemOk s) (hpusher : s.pusher = .idle) (hp : s.heap p = none) (n : Nat)
    (needCfm : Bool) : MemOk { s.accept p needCfm with pusher := .entered ⟨n, p, needCfm⟩ } ↔
      (needCfm = true → s.txHostId (s.txdescFreeIdx % usbTxdescCnt) = none) := by
  have hsender : s.own .sender = none := by
    show s.pusher.frame?.bind _ = none
    rw [hpusher]
    rfl
  cases needCfm with
  | false =>
    refine iff_of_true ⟨h.oops, h.wild, ?_, h.aligned, fun g hg hcfm => ?_⟩
      (fun hcfm => by cases hcfm)
    · have hown := own_pusher s (.entered ⟨n, p, false⟩)
      have hsame : { s.accept p false with pusher := .entered ⟨n, p, false⟩ }.own =
          { s with pusher := .entered ⟨n, p, false⟩ }.own := own_congr rfl rfl rfl
      rw [hsame, hown]
      exact h.owns.acquire _ hsender hp
    · cases hg
      cases hcfm
  | true =>
    have hown : { s.accept p true with pusher := .entered ⟨n, p, true⟩ }.own =
        Function.update s.own (.ring (s.txdescFreeIdx % usbTxdescCnt)) (some (p, .skb true)) := by
      have hring := own_ring { s with pusher := .entered ⟨n, p, true⟩ }
        (s.txdescFreeIdx % usbTxdescCnt) (some p)
      have hkeep : { s with pusher := .entered ⟨n, p, true⟩ }.own = s.own := by
        rw [own_pusher]
        have hself := Function.update_eq_self TxPlace.sender s.own
        rw [hsender] at hself
        exact hself
      rw [hkeep] at hring
      exact Eq.trans (own_congr rfl rfl rfl) hring
    constructor
    · intro h' _
      by_contra hused
      obtain ⟨q, hq⟩ := Option.ne_none_iff_exists'.mp hused
      obtain ⟨hring, hheap⟩ := h.ring_heap hq
      have hne : q ≠ p := by
        rintro rfl
        rw [hp] at hheap
        cases hheap
      have howns := h'.owns
      rw [hown] at howns
      refine OwnsAs.not_of_lost (c := .skb true) h.owns hring (fun j hj => ?_) ?_ howns
      · by_cases hji : j = .ring (s.txdescFreeIdx % usbTxdescCnt)
        · rw [hji, Function.update_self] at hj
          cases hj
          exact absurd rfl hne
        · rw [Function.update_of_ne hji] at hj
          exact ⟨hji, hj⟩
      · show Function.update s.heap p _ q = some (.skb true)
        rw [Function.update_of_ne hne]
        exact hheap
    · intro hfree
      refine ⟨h.oops, h.wild, ?_, h.aligned, fun g hg _ => ?_⟩
      · rw [hown]
        refine h.owns.acquire _ ?_ hp
        show (s.txHostId _).map _ = none
        rw [hfree rfl]
        rfl
      · cases hg
        exact ⟨_, Function.update_self ..⟩

/-- A frame that comes while the device is down is freed at once. -/
theorem pushDown_iff (h : MemOk s) (hp : s.heap p = none) (n : Nat) (needCfm : Bool) :
    MemOk ((s.accept p needCfm).refuse ⟨n, p, needCfm⟩) ↔ needCfm = false := by
  obtain ⟨net, hrefuse⟩ := refuse_of_live (s := s.accept p needCfm) ⟨n, p, needCfm⟩ (by
    obtain ⟨txHostId, txdescFreeIdx, heq⟩ := s.accept_eq p needCfm
    rw [heq]
    exact Function.update_self ..)
  rw [hrefuse]
  cases needCfm with
  | false =>
    refine iff_of_true (h.frame rfl rfl ?_ rfl rfl rfl) rfl
    show Function.update (Function.update s.heap p _) p none = s.heap
    rw [Function.update_idem, ← hp, Function.update_eq_self]
  | true =>
    refine iff_of_false (fun h' => ?_) (fun hcfm => by cases hcfm)
    refine OwnsAs.not_of_freed (i := .ring (s.txdescFreeIdx % usbTxdescCnt)) (a := p)
      (b := .skb true) ?_ (Function.update_self ..) h'.owns
    show (Function.update s.txHostId (s.txdescFreeIdx % usbTxdescCnt) (some p)
      (s.txdescFreeIdx % usbTxdescCnt)).map _ = _
    rw [Function.update_self]
    rfl

/-- The sender's buffer is filled: it has the frame, or a copy, and an aligned copy. -/
theorem post (h : MemOk s) (hpool : TxPoolOk s) (hpusher : s.pusher = .filling f b)
    (hbuf : if f.needCfm then s.heap p = none else p = f.skb)
    (hq : s.heap q = none) (hne : f.needCfm = true → p ≠ q) :
    MemOk (((s.dataAt f p).setHeap q (some .kmalloc)).postBuf f b p q) := by
  have hf : s.pusher.frame? = some f := by rw [hpusher]; rfl
  have hskb := h.sender_heap hf
  have hnone : (s.usbTxBuf b).skb = none := hpool.filling_skb hpusher
  have hdata : s.own (.data b) = none := by
    show (s.usbTxBuf b).data = none
    unfold UsbBuf.data
    rw [hnone]
    rfl
  have halign : s.own (.align b) = none := by
    show (s.usbTxBuf b).align = none
    unfold UsbBuf.align
    rw [hnone]
    rfl
  -- what the places own, however the data got there
  have hown : ∀ heap wild, ({ s with heap := heap, wild := wild }.postBuf f b p q).own =
      Function.update (Function.update (Function.update s.own .sender none) (.data b)
        (some (p, if f.needCfm then .kmalloc else .skb false))) (.align b)
        (some (q, .kmalloc)) := by
    intro heap wild
    have hset := own_setBuf { s with pusher := .posted } b ⟨some p, f.needCfm, some q, f.num⟩
    rw [own_pusher s .posted] at hset
    exact Eq.trans (own_congr rfl rfl rfl) hset
  have haligned : ∀ c, (Function.update s.usbTxBuf b ⟨some p, f.needCfm, some q, f.num⟩
      c).skb.isSome = true → (Function.update s.usbTxBuf b ⟨some p, f.needCfm, some q, f.num⟩
      c).usbAlignData.isSome = true := by
    intro c hc
    by_cases hcb : c = b
    · rw [hcb, Function.update_self]
      rfl
    · rw [Function.update_of_ne hcb] at hc ⊢
      exact h.aligned c hc
  cases hcfm : f.needCfm with
  | false =>
    rw [hcfm] at hbuf
    have hpskb : p = f.skb := hbuf
    have heq : s.dataAt f p = s.setHeap f.skb (some (.skb false)) := by
      unfold dataAt
      rw [hcfm, touch_eq hskb]
      exact freeSwHdr_eq hskb
    rw [heq]
    refine ⟨h.oops, h.wild, ?_, haligned, fun g hg => by cases hg⟩
    have howns := (h.owns.pass (.skb false) (sender_own hf hcfm) hdata).acquire (a := q)
      (i := .align b) .kmalloc ?_ ?_
    · have hown' := hown (Function.update (Function.update s.heap f.skb (some (.skb false))) q
        (some .kmalloc)) s.wild
      rw [hcfm, hpskb] at hown'
      rw [hpskb]
      exact hown'.symm ▸ howns
    · rw [Function.update_of_ne (by simp), Function.update_of_ne (by simp)]
      exact halign
    · rw [Function.update_of_ne ?_]
      · exact hq
      · rintro rfl
        rw [hq] at hskb
        cases hskb
  | true =>
    rw [hcfm] at hbuf
    have hp : s.heap p = none := hbuf
    have heq : s.dataAt f p = s.setHeap p (some .kmalloc) := by
      unfold dataAt
      rw [hcfm, touch_eq hskb]
      rfl
    rw [heq]
    refine ⟨h.oops, h.wild, ?_, haligned, fun g hg => by cases hg⟩
    have hsender : Function.update s.own .sender none = s.own := by
      have hown₁ : s.own .sender = none := by
        show s.pusher.frame?.bind _ = none
        rw [hf]
        show f.owned = none
        unfold TxFrame.owned
        rw [hcfm]
        rfl
      have hself := Function.update_eq_self TxPlace.sender s.own
      rwa [hown₁] at hself
    have howns := (h.owns.acquire (i := .data b) (a := p) .kmalloc hdata hp).acquire (a := q)
      (i := .align b) .kmalloc ?_ ?_
    · have hown' := hown (Function.update (Function.update s.heap p (some .kmalloc)) q
        (some .kmalloc)) s.wild
      rw [hcfm, hsender] at hown'
      exact hown'.symm ▸ howns
    · rw [Function.update_of_ne (by simp)]
      exact halign
    · rw [Function.update_of_ne (hne hcfm).symm]
      exact hq

/-- The two blocks of a buffer with data. -/
theorem buf_own (h : MemOk s) (hp : (s.usbTxBuf b).skb = some p) : ∃ q,
    (s.usbTxBuf b).usbAlignData = some q ∧
    s.own (.data b) = some (p, if (s.usbTxBuf b).cfm then .kmalloc else .skb false) ∧
    s.own (.align b) = some (q, .kmalloc) := by
  obtain ⟨q, hq⟩ := Option.isSome_iff_exists.mp (h.aligned b (by rw [hp]; rfl))
  refine ⟨q, hq, ?_, ?_⟩
  · show (s.usbTxBuf b).data = _
    unfold UsbBuf.data
    rw [hp]
    rfl
  · show (s.usbTxBuf b).align = _
    unfold UsbBuf.align
    rw [hp, hq]
    rfl

theorem own_release (s : UsbTx) (b : Nat) : (s.release b).own =
    Function.update (Function.update s.own (.data b) none) (.align b) none :=
  Eq.trans (own_congr rfl rfl rfl) (own_setBuf s b { s.usbTxBuf b with skb := none })

theorem aligned_release (h : MemOk s) (b : Nat) : ∀ c,
    ((s.release b).usbTxBuf c).skb.isSome = true →
      ((s.release b).usbTxBuf c).usbAlignData.isSome = true := by
  intro c
  show (Function.update s.usbTxBuf b { s.usbTxBuf b with skb := none } c).skb.isSome = true →
    (Function.update s.usbTxBuf b { s.usbTxBuf b with skb := none } c).usbAlignData.isSome = true
  by_cases hcb : c = b
  · rw [hcb, Function.update_self]
    intro hc
    cases hc
  · rw [Function.update_of_ne hcb]
    exact h.aligned c

/-- When only the data of a buffer is freed, its aligned copy is lost. -/
theorem freeSkb_not (h : MemOk s) (hp : (s.usbTxBuf b).skb = some p) (x : Bustx) (y : Pm) :
    ¬ MemOk { (s.freeSkb b).release b with bustx := x, pm := y } := by
  intro h'
  obtain ⟨q, -, hdata, halign⟩ := h.buf_own hp
  have hqp : q ≠ p := h.owns.ne_addr (by simp) halign hdata
  have hown : { (s.freeSkb b).release b with bustx := x, pm := y }.own =
      Function.update (Function.update s.own (.data b) none) (.align b) none := by
    obtain ⟨heap, wild, heq⟩ := s.freeSkb_memoryOnly b
    rw [heq]
    exact Eq.trans (own_congr rfl rfl rfl) (own_release s b)
  have hheap : (s.freeSkb b).heap q = some .kmalloc := by
    unfold freeSkb
    rw [hp]
    show (s.devKfreeSkb p).heap q = _
    unfold devKfreeSkb
    split_ifs
    · show Function.update s.heap p none q = _
      rw [Function.update_of_ne hqp]
      exact h.owns.holds halign
    · exact h.owns.holds halign
  have howns := h'.owns
  rw [hown] at howns
  refine OwnsAs.not_of_lost (c := .kmalloc) h.owns halign (fun j hj => ?_) hheap howns
  by_cases hja : j = .align b
  · rw [hja, Function.update_self] at hj
    cases hj
  · rw [Function.update_of_ne hja] at hj
    by_cases hjd : j = .data b
    · rw [hjd, Function.update_self] at hj
      cases hj
    · rw [Function.update_of_ne hjd] at hj
      exact ⟨hja, hj⟩

/-- A completion frees both blocks of its buffer, as what they are. -/
theorem complete (h : MemOk s) (hp : (s.usbTxBuf b).skb = some p) :
    MemOk (s.aicwfUsbTxComplete b) := by
  obtain ⟨q, hq, hdata, halign⟩ := h.buf_own hp
  have hqp : q ≠ p := h.owns.ne_addr (by simp) halign hdata
  have hfreeAlign : s.freeAlign b = s.setHeap q none := by
    unfold freeAlign
    rw [hq]
    exact kfree_eq (h.owns.holds halign)
  have hfreeData : (s.setHeap q none).freeData b = (s.setHeap q none).setHeap p none := by
    refine freeData_eq hp ?_
    show Function.update s.heap q none p = some _
    rw [Function.update_of_ne hqp.symm]
    exact h.owns.holds hdata
  unfold aicwfUsbTxComplete
  rw [hfreeAlign, hfreeData]
  refine ⟨h.oops, h.wild, ?_, h.aligned_release b, h.pending⟩
  have howns := (h.owns.release hdata).release (i := .align b) (a := q) (b := .kmalloc) (by
    rw [Function.update_of_ne (by simp)]
    exact halign)
  rw [Function.update_comm hqp.symm, ← own_release s b] at howns
  exact howns

/-- The `sw_txhdr` of a frame that is done is read after it was freed. -/
theorem rwnxTxdatacfm_stray (hp : s.heap p = some (.skb true)) (hup : s.state ≠ .down) :
    (s.rwnxTxdatacfm p false).wild = s.wild + 1 := by
  have hread : (s.setHeap p (some (.skb false))).touchSwHdr p =
      (s.setHeap p (some (.skb false))).stray := by
    refine if_neg fun htrue => ?_
    have hsame : Function.update s.heap p (some (.skb false)) p = some (.skb true) := htrue
    rw [Function.update_self] at hsame
    cases hsame
  have hfree : ((s.setHeap p (some (.skb false))).stray).heap p = some (.skb false) :=
    Function.update_self ..
  unfold rwnxTxdatacfm
  rw [if_neg hup, if_neg Bool.false_ne_true, freeSwHdr_eq hp, hread, devKfreeSkb_eq hfree]
  rfl

/-- A confirmation frees the frame of its place, or hands it back. -/
theorem cfm_iff (h : MemOk s) {i : Nat} (hid : s.txHostId i = some p) {retry : Bool}
    (hquiet : s.state = .down ∨ retry = true) :
    MemOk { (s.touch p).rwnxTxdatacfm p retry with
      txHostId := Function.update s.txHostId i none } ↔
      ∀ g, s.pusher.frame? = some g → g.needCfm = true → s.txHostId i ≠ some g.skb := by
  obtain ⟨hring, hheap⟩ := h.ring_heap hid
  have hfreed : (s.touch p).rwnxTxdatacfm p retry = s.setHeap p none := by
    rw [touch_eq hheap]
    unfold rwnxTxdatacfm
    split_ifs with hdown hretry
    · exact dropFrame_eq hheap
    · rfl
    · exact absurd (hquiet.resolve_left hdown) hretry
  rw [hfreed]
  constructor
  · intro h' g hg hcfm hsame
    -- the frame of the sender had one place only
    obtain ⟨j, hj⟩ := h'.pending g hg hcfm
    have hj' : Function.update s.txHostId i none j = some g.skb := hj
    by_cases hji : j = i
    · rw [hji, Function.update_self] at hj'
      cases hj'
    · rw [Function.update_of_ne hji] at hj'
      have hplace := h.owns.unique (h.ring_heap hj').1 (h.ring_heap hsame).1
      exact hji (TxPlace.ring.inj hplace)
  · intro hother
    refine ⟨h.oops, h.wild, ?_, h.aligned, fun g hg hcfm => ?_⟩
    · have hown := own_ring (s.setHeap p none) i none
      have howns := h.owns.release hring
      exact hown.symm ▸ howns
    · obtain ⟨j, hj⟩ := h.pending g hg hcfm
      refine ⟨j, ?_⟩
      have hji : j ≠ i := by
        rintro rfl
        exact hother g hg hcfm hj
      show Function.update s.txHostId i none j = some g.skb
      rw [Function.update_of_ne hji]
      exact hj

/-- A step keeps the memory in order exactly under the condition. -/
theorem step_iff (hpool : TxPoolOk s) (h : MemOk s) (hstep : txStep s e = some s') :
    MemOk s' ↔ MemStep s e := by
  obtain ⟨-, hmove⟩ := txMove_of_step hstep
  cases hmove with
  | @push skb needCfm hpusher hskb hstate =>
    refine Iff.trans (h.push_iff hpusher hskb s.pushed needCfm) ?_
    exact ⟨fun hfree hcfm => ⟨hstate, hfree hcfm⟩, fun hguard hcfm => (hguard hcfm).2⟩
  | @pushDown skb needCfm hpusher hskb hstate =>
    rw [h.pushDown_iff hskb s.pushed needCfm]
    constructor
    · intro hno hcfm
      rw [hno] at hcfm
      cases hcfm
    · intro hguard
      by_contra hcfm
      exact (hguard (by simpa using hcfm)).1 hstate
  | @enter f hpusher hstate =>
    exact iff_of_true (h.frame rfl rfl rfl rfl (by rw [hpusher]; rfl) rfl)
      fun hdown => absurd hstate hdown
  | @enterDown f hpusher hstate =>
    have hf : s.pusher.frame? = some f := by rw [hpusher]; rfl
    rw [h.drop_iff hf rfl]
    exact ⟨fun hno _ g hg => Option.some.inj (hf.symm.trans hg) ▸ hno,
      fun hguard => hguard hstate f hf⟩
  | @take f b l hpusher hfree =>
    refine iff_of_true (h.frame rfl rfl rfl rfl (by rw [hpusher]; rfl) rfl) fun hnil => ?_
    rw [hfree] at hnil
    cases hnil
  | @takeNone f hpusher hfree =>
    have hf : s.pusher.frame? = some f := by rw [hpusher]; rfl
    rw [h.drop_iff hf rfl]
    exact ⟨fun hno _ g hg => Option.some.inj (hf.symm.trans hg) ▸ hno,
      fun hguard => hguard hfree f hf⟩
  | @post f b p q buf hpusher hbuf halign hne =>
    have hf : s.pusher.frame? = some f := by rw [hpusher]; rfl
    cases hcfm : f.needCfm with
    | false =>
      rw [hcfm] at hbuf
      refine iff_of_true (h.post hpool hpusher (by rw [hcfm]; exact hbuf) halign hne)
        ⟨by simp, fun g hg hg' => ?_⟩
      rw [← Option.some.inj (hf.symm.trans hg), hcfm] at hg'
      cases hg'
    | true =>
      rw [hcfm] at hbuf
      obtain ⟨hsome, hp⟩ : buf = some p ∧ s.heap p = none := hbuf
      refine iff_of_true (h.post hpool hpusher (by rw [hcfm]; exact hp) halign hne)
        ⟨by simp, fun g hg hg' => ?_⟩
      rw [hsome]
      simp
  | @postOops f b buf align hpusher hnull =>
    have hf : s.pusher.frame? = some f := by rw [hpusher]; rfl
    refine iff_of_false (fun h' => by cases h'.oops) fun hguard => ?_
    rcases hnull with ⟨hcfm, hnone⟩ | hnone
    · exact hguard.2 f hf hcfm hnone
    · exact hguard.1 hnone
  | trigger hpusher =>
    exact iff_of_true (h.frame rfl rfl rfl rfl (by rw [hpusher]; rfl) rfl) trivial
  | flow hpusher =>
    unfold UsbTx.flowCtrl
    split_ifs
    · exact iff_of_true (h.frame rfl rfl rfl rfl (by rw [hpusher]; rfl) rfl) trivial
    · exact iff_of_true (h.frame rfl rfl rfl rfl (by rw [hpusher]; rfl) rfl) trivial
  | @dequeueOops b l hbustx hpost hskb => exact absurd hskb (hpool.posted_skb hpost)
  | submit hbustx => exact iff_of_true (h.frame rfl rfl rfl rfl rfl rfl) rfl
  | @submitFail b hbustx =>
    have hmem : b ∈ s.inUse := by
      unfold UsbTx.inUse
      rw [hbustx]
      exact List.mem_append_left _ (List.mem_append_right _ (List.mem_singleton_self b))
    obtain ⟨p, hp⟩ := Option.isSome_iff_exists.mp ((hpool.filled b).mpr hmem)
    exact iff_of_false (h.freeSkb_not hp .looping _) fun hok => by cases hok
  | @complete b hmem =>
    have hin : b ∈ s.inUse := List.mem_append_left _ (List.mem_append_left _
      (List.mem_append_right _ hmem))
    obtain ⟨p, hp⟩ := Option.isSome_iff_exists.mp ((hpool.filled b).mpr hin)
    exact iff_of_true (h.complete hp) trivial
  | check hchecks =>
    unfold UsbTx.wakeQueues
    split_ifs
    · exact iff_of_true (h.frame rfl rfl rfl rfl rfl rfl) trivial
    · exact iff_of_true (h.frame rfl rfl rfl rfl rfl rfl) trivial
  | @cfmNone usedIdx status hid =>
    refine iff_of_true h ⟨fun _ _ => hid, fun _ g _ _ hsame => ?_⟩
    rw [hid] at hsame
    cases hsame
  | @cfmNull usedIdx p hid =>
    rw [touch_eq (h.ring_heap hid).2]
    refine iff_of_true h ⟨?_, fun hnull => absurd rfl hnull⟩
    intro hdone
    cases hdone
  | @cfm usedIdx p status hid hstatus =>
    have hheap := (h.ring_heap hid).2
    by_cases hdone : status = .done ∧ s.state ≠ .down
    · obtain ⟨rfl, hup⟩ := hdone
      refine iff_of_false (fun h' => ?_) fun hguard => ?_
      · have hwild := h'.wild
        rw [touch_eq hheap] at hwild
        exact absurd ((rwnxTxdatacfm_stray hheap hup).symm.trans hwild) (Nat.succ_ne_zero _)
      · rw [hguard.1 rfl hup] at hid
        cases hid
    · have hquiet : s.state = .down ∨ (status == .retry) = true := by
        cases status with
        | null => exact absurd rfl hstatus
        | retry => exact Or.inr rfl
        | done => exact Or.inl (by simpa using hdone)
      refine Iff.trans (h.cfm_iff hid hquiet) ?_
      exact ⟨fun hother => ⟨fun hd hup => absurd ⟨hd, hup⟩ hdone, fun _ => hother⟩,
        fun hguard => hguard.2 hstatus⟩
  | startUp hpm hstate => exact iff_of_true h trivial
  | @prepareDequeue b l hpm hpost =>
    refine iff_of_true (h.frame rfl rfl rfl rfl rfl rfl) fun hnil => ?_
    rw [hpost] at hnil
    cases hnil
  | prepareOops hpm hpost => exact iff_of_false (fun h' => by cases h'.oops) fun hne => hne hpost
  | @prepareFree b hpm =>
    have hmem : b ∈ s.inUse := by
      unfold UsbTx.inUse
      rw [hpm]
      exact List.mem_append_right _ (List.mem_singleton_self b)
    obtain ⟨p, hp⟩ := Option.isSome_iff_exists.mp ((hpool.filled b).mpr hmem)
    exact iff_of_false (h.freeSkb_not hp _ .looping) id
  | _ => exact iff_of_true (h.frame rfl rfl rfl rfl rfl rfl) trivial

end MemOk

/-- The memory is in order in every state of a run, exactly when no step breaks the
condition. -/
theorem tx_memory_iff (es : List TxEvent) :
    Transition.Always txStep MemOk es aicwfUsbInit ↔
      Transition.Guarded txStep MemStep es aicwfUsbInit :=
  Transition.always_iff_guarded (fun _ _ _ hpool h hstep => h.step_iff hpool hstep)
    (fun _ _ _ hpool _ hstep _ => hpool.step hstep) txPoolOk_init memOk_init es

end LonganPi.Wifi
