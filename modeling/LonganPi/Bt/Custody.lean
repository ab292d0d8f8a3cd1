import LonganPi.Bt.Reassembly

/-!
# Where the buffers are

Each buffer that was allocated is filled in `hci_reassembly`, lies in the queue, was
freed, or was dropped by `aic_enqueue` (`Custody`).  The operations on the buffers
keep this, and a transfer does (`DevOk`).
-/

namespace LonganPi.Bt

namespace HciDev

/-- How many buffers are filled. -/
def buffers (d : HciDev) : Nat :=
  (d.reassembly .aclData).isSome.toNat + (d.reassembly .scoData).isSome.toNat +
    (d.reassembly .event).isSome.toNat

/-- The copy for the queue does not depend on what is being filled. -/
theorem hciRecvFrame_setReassembly (A : Allocator) (d : HciDev) (t u : PktType)
    (f : List UInt8) (o : Option SkBuff) :
    (d.hciRecvFrame A t f).setReassembly u o = (d.setReassembly u o).hciRecvFrame A t f := by
  unfold hciRecvFrame hciSendToStack aicEnqueue setReassembly kfreeSkb
  simp only
  split_ifs <;> rfl

@[simp] theorem hciRecvFrame_received (A : Allocator) (d : HciDev) (t : PktType)
    (f : List UInt8) : (d.hciRecvFrame A t f).received = d.received ++ [(t, f)] := by
  unfold hciRecvFrame hciSendToStack aicEnqueue kfreeSkb
  simp only
  split_ifs <;> rfl

/-- A failing open clears `HCI_RUNNING` next. -/
def stopsOpen (d : HciDev) (i : Nat) : Prop :=
  ∃ downFw err, d.opens[i]? = some (downFw, .failing err)

theorem btchrIoctl_eq (d : HciDev) (downFw : Bool) (getErr : Int) :
    ∃ running opens, (d.running = true → running = true) ∧
      d.btchrIoctl downFw getErr = { d with running := running, opens := opens } := by
  unfold btchrIoctl btusbOpen
  split_ifs
  · exact ⟨d.running, _, id, rfl⟩
  · exact ⟨d.running, _, id, rfl⟩
  · exact ⟨true, _, fun _ => rfl, rfl⟩

/-- An `ioctl` changes the flags only, and stops the device only after a failed open. -/
theorem btchrIoctlNext_eq (d : HciDev) (i : Nat) (submitErr : Int) :
    ∃ up running intrRunning opens, (¬ d.stopsOpen i → running = d.running) ∧
      (d.stopsOpen i → running = false) ∧
      d.btchrIoctlNext i submitErr =
        { d with up := up, running := running, intrRunning := intrRunning, opens := opens } := by
  unfold btchrIoctlNext stopsOpen
  cases hi : d.opens[i]? with
  | none => exact ⟨d.up, d.running, d.intrRunning, d.opens, fun _ => rfl, by simp, rfl⟩
  | some entry =>
    obtain ⟨downFw, stage⟩ := entry
    cases stage with
    | marked =>
      simp only [btusbOpenNext]
      split_ifs <;> exact ⟨d.up, d.running, _, _, fun _ => rfl, by simp, rfl⟩
    | submitting =>
      simp only [btusbOpenNext]
      split_ifs <;> exact ⟨d.up, d.running, _, _, fun _ => rfl, by simp, rfl⟩
    | failing err =>
      exact ⟨d.up, false, d.intrRunning, _, fun h => absurd ⟨downFw, err, rfl⟩ h, fun _ => rfl, rfl⟩
    | returned ret => exact ⟨_, d.running, d.intrRunning, _, fun _ => rfl, by simp, rfl⟩

theorem aicEnqueue_eq (d : HciDev) (pkt : List UInt8) : ∃ queue dropped queued,
    d.aicEnqueue pkt = { d with queue := queue, dropped := dropped, queued := queued } := by
  unfold aicEnqueue
  split_ifs <;> exact ⟨_, _, _, rfl⟩

theorem hciHardwareError_eq (A : Allocator) (d : HciDev) :
    ∃ queue calls allocated dropped queued, d.hciHardwareError A = { d with
      queue := queue, calls := calls, allocated := allocated, dropped := dropped
      queued := queued } := by
  unfold hciHardwareError
  cases A.alloc d.calls 3 with
  | none => exact ⟨_, _, _, _, _, rfl⟩
  | some room =>
    obtain ⟨queue, dropped, queued, heq⟩ := aicEnqueue_eq
      { d with calls := d.calls + 1, allocated := d.allocated + 1 } [4, 0x10, 0x01]
    simp only [heq]
    exact ⟨_, _, _, _, _, rfl⟩

theorem clearLoop_eq (n : Nat) (d : HciDev) : ∃ queue freed,
    clearLoop n d = { d with queue := queue, freed := freed } := by
  induction n generalizing d with
  | zero => exact ⟨_, _, rfl⟩
  | succ n ih =>
    unfold clearLoop
    split_ifs
    · exact ⟨_, _, rfl⟩
    · obtain ⟨queue, freed, heq⟩ := ih (kfreeSkb { d with queue :=
        ⟨Function.update d.queue.cells d.queue.front none, (d.queue.front + 1) % queueSize,
          d.queue.rear⟩ })
      exact ⟨queue, freed, heq⟩
    · obtain ⟨queue, freed, heq⟩ := ih { d with queue :=
        ⟨Function.update d.queue.cells d.queue.front none, (d.queue.front + 1) % queueSize,
          d.queue.rear⟩ }
      exact ⟨queue, freed, heq⟩

/-- A read changes the queue, but not what came into it. -/
theorem btchrRead_eq {A : Allocator} {d d' : HciDev} {count : Nat} {fault : Bool}
    (h : d.btchrRead A count fault = some d') : ∃ queue calls allocated freed read,
      d' = { d with queue := queue, calls := calls, allocated := allocated, freed := freed
                    read := read } := by
  unfold btchrRead aicDequeueTry at h
  by_cases hcount : count = 0
  · rw [if_pos hcount] at h
    exact ⟨_, _, _, _, _, (Option.some.inj h).symm⟩
  rw [if_neg hcount] at h
  by_cases hempty : d.isQueueEmpty = true
  · simp only [if_pos hempty] at h
    exact ⟨_, _, _, _, _, (Option.some.inj h).symm⟩
  simp only [if_neg hempty] at h
  cases hcell : d.queue.cells d.queue.front with
  | none => simp [hcell] at h
  | some pkt =>
    simp only [hcell] at h
    by_cases hlen : pkt.length ≤ count
    · simp only [if_pos hlen] at h
      split_ifs at h <;> exact ⟨_, _, _, _, _, (Option.some.inj h).symm⟩
    · simp only [if_neg hlen] at h
      by_cases hcopy : A.copy d.calls = true
      · simp only [if_pos hcopy] at h
        split_ifs at h <;> exact ⟨_, _, _, _, _, (Option.some.inj h).symm⟩
      · simp only [if_neg hcopy] at h
        exact ⟨_, _, _, _, _, (Option.some.inj h).symm⟩

theorem buffers_set (d : HciDev) (t : PktType) (o : Option SkBuff) :
    (d.setReassembly t o).buffers + (d.reassembly t).isSome.toNat =
      d.buffers + o.isSome.toNat := by
  unfold buffers setReassembly
  cases t <;> simp <;> omega

end HciDev

section Custody

variable {A : Allocator} {exact : Prop} {d d' : HciDev} {k : Nat} {l : List (List UInt8)}
  {t : PktType} {o : Option SkBuff} {pkt f : List UInt8}

/-- The queue has the packets `l`, and of the buffers that were allocated `k` are in
hand.  With `exact` the packets that came into the queue are what was read of
them, and `l`. -/
structure Custody (exact : Prop) (d : HciDev) (k : Nat) (l : List (List UInt8)) : Prop where
  ring : d.queue.Holds queueSize l
  nonempty : [] ∉ l
  stream : exact → d.read ++ l.flatten = d.queued.flatten
  account : d.allocated = d.freed + d.dropped + d.buffers + l.length + k

namespace Custody

theorem kfreeSkb (h : Custody exact d (k + 1) l) : Custody exact d.kfreeSkb k l where
  ring := h.ring
  nonempty := h.nonempty
  stream := h.stream
  account := by
    have hacc := h.account
    show d.allocated = d.freed + 1 + d.dropped + d.buffers + l.length + k
    omega

/-- A call that allocates nothing. -/
theorem call (h : Custody exact d k l) : Custody exact { d with calls := d.calls + 1 } k l :=
  ⟨h.ring, h.nonempty, h.stream, h.account⟩

theorem alloc (h : Custody exact d k l) :
    Custody exact { d with calls := d.calls + 1, allocated := d.allocated + 1 } (k + 1) l where
  ring := h.ring
  nonempty := h.nonempty
  stream := h.stream
  account := congrArg (· + 1) h.account

/-- A buffer is put into the place of another one. -/
theorem replace (h : Custody exact d k l) (ho : o.isSome = (d.reassembly t).isSome) :
    Custody exact (d.setReassembly t o) k l where
  ring := h.ring
  nonempty := h.nonempty
  stream := h.stream
  account := by
    have hset := d.buffers_set t o
    have hacc := h.account
    rw [ho] at hset
    show d.allocated = d.freed + d.dropped + (d.setReassembly t o).buffers + l.length + k
    omega

theorem put (h : Custody exact d (k + 1) l) (hd : d.reassembly t = none) (skb : SkBuff) :
    Custody exact (d.setReassembly t (some skb)) k l where
  ring := h.ring
  nonempty := h.nonempty
  stream := h.stream
  account := by
    have hset := d.buffers_set t (some skb)
    have hacc := h.account
    rw [hd, Option.isSome_none, Option.isSome_some, Bool.toNat_false, Bool.toNat_true] at hset
    show d.allocated = d.freed + d.dropped + (d.setReassembly t (some skb)).buffers + l.length + k
    omega

theorem take (h : Custody exact d k l) {skb : SkBuff} (hd : d.reassembly t = some skb) :
    Custody exact (d.setReassembly t none) (k + 1) l where
  ring := h.ring
  nonempty := h.nonempty
  stream := h.stream
  account := by
    have hset := d.buffers_set t none
    have hacc := h.account
    rw [hd, Option.isSome_none, Option.isSome_some, Bool.toNat_false, Bool.toNat_true] at hset
    show d.allocated = d.freed + d.dropped + (d.setReassembly t none).buffers + l.length + (k + 1)
    omega

/-- One cell of the queue always stays free. -/
theorem isFull_iff (h : Custody exact d k l) :
    (d.queue.front == (d.queue.rear + 1) % queueSize) = true ↔ l.length + 1 = queueSize := by
  rw [beq_iff_eq]
  exact h.ring.full_iff

theorem isQueueEmpty_iff (h : Custody exact d k l) : d.isQueueEmpty = true ↔ l = [] := by
  unfold HciDev.isQueueEmpty
  rw [beq_iff_eq]
  exact h.ring.empty_iff

/-- A packet that comes into the queue. -/
theorem enqueue (h : Custody exact d (k + 1) l) (hpkt : pkt ≠ [])
    (hroom : l.length + 1 ≠ queueSize) :
    (d.aicEnqueue pkt).queued = d.queued ++ [pkt] ∧
      Custody exact (d.aicEnqueue pkt) k (l ++ [pkt]) := by
  have hnot : ¬ (d.queue.front == (d.queue.rear + 1) % queueSize) = true :=
    fun hfull => hroom (h.isFull_iff.mp hfull)
  have hlen := h.ring.length_lt
  unfold HciDev.aicEnqueue
  rw [if_neg hnot]
  refine ⟨rfl, h.ring.push (by omega), ?_, fun hexact => ?_, ?_⟩
  · intro hmem
    rcases List.mem_append.mp hmem with hl | hp
    · exact h.nonempty hl
    · exact hpkt (List.mem_singleton.mp hp).symm
  · show d.read ++ (l ++ [pkt]).flatten = (d.queued ++ [pkt]).flatten
    rw [List.flatten_append, List.flatten_append, ← h.stream hexact, List.append_assoc]
  · have hacc := h.account
    show d.allocated = d.freed + d.dropped + d.buffers + (l ++ [pkt]).length + k
    rw [List.length_append, List.length_singleton]
    omega

/-- A packet for which there is no room. -/
theorem drop (h : Custody exact d (k + 1) l) (hfull : l.length + 1 = queueSize) :
    Custody exact (d.aicEnqueue pkt) k l := by
  unfold HciDev.aicEnqueue
  rw [if_pos (h.isFull_iff.mpr hfull)]
  refine ⟨h.ring, h.nonempty, h.stream, ?_⟩
  have hacc := h.account
  show d.allocated = d.freed + (d.dropped + 1) + d.buffers + l.length + k
  omega

theorem aicEnqueue (h : Custody exact d (k + 1) l) (hpkt : pkt ≠ []) :
    ∃ l', Custody exact (d.aicEnqueue pkt) k l' := by
  by_cases hfull : l.length + 1 = queueSize
  · exact ⟨l, h.drop hfull⟩
  · exact ⟨l ++ [pkt], (h.enqueue hpkt hfull).2⟩

theorem hciSendToStack (h : Custody exact d k l) :
    ∃ l', Custody exact (d.hciSendToStack A t f) k l' := by
  unfold HciDev.hciSendToStack
  split_ifs
  · exact h.alloc.aicEnqueue (List.cons_ne_nil _ _)
  · exact ⟨l, h.call⟩
  · exact ⟨l, h⟩

theorem hciRecvFrame (h : Custody exact d (k + 1) l) :
    ∃ l', Custody exact (d.hciRecvFrame A t f) k l' := by
  have hlog : Custody exact { d with received := d.received ++ [(t, f)] } (k + 1) l :=
    ⟨h.ring, h.nonempty, h.stream, h.account⟩
  unfold HciDev.hciRecvFrame
  simp only
  split_ifs
  · obtain ⟨l', hl'⟩ := hlog.hciSendToStack (A := A) (t := t) (f := f)
    exact ⟨l', hl'.kfreeSkb⟩
  · exact ⟨l, hlog.kfreeSkb⟩

theorem inexact (h : Custody exact d k l) : Custody False d k l :=
  ⟨h.ring, h.nonempty, False.elim, h.account⟩

theorem clearLoop {n : Nat} (h : Custody False d k l) (hn : l.length ≤ n) :
    Custody False (HciDev.clearLoop n d) k [] := by
  induction n generalizing d l with
  | zero =>
    obtain rfl := List.length_eq_zero_iff.mp (Nat.le_zero.mp hn)
    exact h
  | succ n ih =>
    unfold HciDev.clearLoop
    by_cases hempty : d.isQueueEmpty = true
    · rw [if_pos hempty]
      obtain rfl := h.isQueueEmpty_iff.mp hempty
      exact h
    · rw [if_neg hempty]
      cases l with
      | nil => exact absurd (h.isQueueEmpty_iff.mpr rfl) hempty
      | cons pkt l =>
        have hcell : (d.queue.cells d.queue.front).isSome = true := by rw [h.ring.head]; rfl
        simp only [hcell, if_true]
        refine ih (l := l) ⟨h.ring.pop none, ?_, ?_, ?_⟩ (Nat.le_of_succ_le_succ hn)
        · exact fun hmem => h.nonempty (List.mem_cons_of_mem pkt hmem)
        · exact False.elim
        · have hacc := h.account
          rw [List.length_cons] at hacc
          show d.allocated = d.freed + 1 + d.dropped + d.buffers + l.length + k
          omega

/-- After `aic_clear_queue` all that was read since is nothing. -/
theorem aicClearQueue (h : Custody exact d k l) (exact' : Prop) :
    Custody exact' d.aicClearQueue k [] := by
  have hclear := h.inexact.clearLoop (Nat.le_of_lt h.ring.length_lt)
  exact ⟨hclear.ring, hclear.nonempty, fun _ => rfl, hclear.account⟩

theorem freeReassembly (h : Custody exact d k l) (t : PktType) :
    Custody exact (d.freeReassembly t) k l := by
  unfold HciDev.freeReassembly
  cases hd : d.reassembly t with
  | none => exact h
  | some skb => exact (h.take hd).kfreeSkb

theorem btusbClose (h : Custody exact d k l) : Custody exact d.btusbClose k l := by
  unfold HciDev.btusbClose
  split_ifs
  · simp only
    split_ifs
    · refine ((Custody.freeReassembly ?_ .aclData).freeReassembly .scoData).freeReassembly .event
      exact ⟨h.ring, h.nonempty, h.stream, h.account⟩
    · exact ⟨h.ring, h.nonempty, h.stream, h.account⟩
  · exact h

end Custody

/-! ## Steps -/

/-- What holds in every state that is reached. -/
structure DevOk (exact : Prop) (d : HciDev) : Prop where
  bufs : BuffersOk d
  frames : ∀ p ∈ d.received, p.1.framing.IsFrame p.2
  custody : ∃ l, Custody exact d 0 l

namespace DevOk

theorem hciRegisterDev : DevOk exact hciRegisterDev where
  bufs := fun _ _ h => by cases h
  frames := fun _ h => by cases h
  custody := by
    refine ⟨[], ⟨?_, ?_, rfl, ?_⟩, List.not_mem_nil, fun _ => rfl, rfl⟩
    · decide
    · decide
    · exact fun i x hx => by cases hx

theorem hciRecvFragment (h : DevOk exact d) (t : PktType) (data : List UInt8) :
    ∃ d' ret, d.hciRecvFragment A t data = some (d', ret) ∧ DevOk exact d' := by
  have hrule := recvFragment_rule (A := A) (t := t) (d := d)
    (I := fun d _ => (∀ p ∈ d.received, p.1.framing.IsFrame p.2) ∧ ∃ l, Custody exact d 0 l)
    (Q := fun d => (∀ p ∈ d.received, p.1.framing.IsFrame p.2) ∧ ∃ l, Custody exact d 0 l)
    ?_ ?_ ?_ ?_ (fun _ hI => hI) h.bufs data ⟨h.frames, h.custody⟩
  · obtain ⟨d', ret, hrun, hbufs, hframes, hcustody⟩ := hrule
    exact ⟨d', ret, hrun, hbufs, hframes, hcustody⟩
  · rintro d data ⟨hframes, l, hl⟩ hd halloc
    exact ⟨hframes, l, hl.call⟩
  · rintro d data room ⟨hframes, l, hl⟩ hd
    exact ⟨hframes, l, hl.alloc.put hd _⟩
  · rintro d skb data d' rest ⟨hframes, l, hl⟩ hd hres
    cases hres with
    | more hb hdata =>
      refine ⟨hframes, l, hl.replace ?_⟩
      rw [hd]
      rfl
    | @frame pre rest hdata hne hf =>
      refine ⟨?_, ?_⟩
      · show ∀ p ∈ (d.hciRecvFrame A t (skb.data ++ pre)).received, _
        rw [HciDev.hciRecvFrame_received]
        exact List.forall_mem_append.mpr ⟨hframes, List.forall_mem_singleton.mpr hf⟩
      · rw [HciDev.hciRecvFrame_setReassembly]
        exact (hl.take hd).hciRecvFrame
  · rintro d skb data d' e ⟨hframes, l, hl⟩ hd hres
    cases hres with
    | oversize hbig => exact ⟨hframes, l, (hl.take hd).kfreeSkb⟩

theorem urbComplete (h : DevOk exact d) (t : PktType) (data : List UInt8) :
    ∃ d', HciDev.urbComplete A t d data = some d' ∧ DevOk exact d' := by
  unfold HciDev.urbComplete
  split_ifs
  · obtain ⟨d', ret, hrun, hd'⟩ := h.hciRecvFragment (A := A) t data
    exact ⟨d', by rw [hrun]; rfl, hd'⟩
  · exact ⟨d, rfl, h⟩

theorem isocLoop (h : DevOk exact d) (actualLength : Nat) (packets : List (Int × List UInt8))
    (total : Nat) :
    ∃ d', HciDev.isocLoop A actualLength packets total d = some d' ∧ DevOk exact d' := by
  induction packets generalizing total d with
  | nil => exact ⟨d, rfl, h⟩
  | cons packet packets ih =>
    obtain ⟨status, data⟩ := packet
    unfold HciDev.isocLoop
    split_ifs
    · exact ⟨d, rfl, h⟩
    · exact ih h _
    · obtain ⟨d', ret, hrun, hd'⟩ := h.hciRecvFragment (A := A) .scoData data
      rw [hrun]
      exact ih hd' _

end DevOk

end Custody

end LonganPi.Bt
