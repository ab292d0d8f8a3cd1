import LonganPi.Bt.Custody
import LonganPi.Lib.Transition

/-!
# Runs of the receive path

* `receive_safe`: no run oopses, whatever the controller sends, every frame that is
  passed on is a whole frame, and the buffers are accounted for.
* `reads_exact_iff`: exactly when the reader gets the bytes of the queue without a
  gap.
-/

namespace LonganPi.Bt

/-! ## The reader -/

/-- A read loses bytes: they cannot be copied to the reader, or the packet is longer
than what is asked for, and there is no memory for its copy. -/
def HciDev.readLoses (A : Allocator) (d : HciDev) (count : Nat) (fault : Bool) : Bool :=
  count != 0 && !d.isQueueEmpty && (fault ||
    decide (count < ((d.queue.cells d.queue.front).getD []).length) && !A.copy d.calls)

/-- What was read and what lies in the queue is what came into it. -/
def Gapless (d : HciDev) : Prop :=
  ∃ l, d.queue.Holds queueSize l ∧ d.read ++ l.flatten = d.queued.flatten

section Read

variable {A : Allocator} {exact : Prop} {d : HciDev} {k count : Nat} {l : List (List UInt8)}
  {pkt : List UInt8} {fault : Bool}

theorem DevOk.gapless (h : DevOk True d) : Gapless d := by
  obtain ⟨l, hl⟩ := h.custody
  exact ⟨l, hl.ring, hl.stream trivial⟩

/-- Bytes are missing. -/
theorem not_gapless (rest : List UInt8) (hring : d.queue.Holds queueSize l)
    (hstream : d.read ++ rest ++ l.flatten = d.queued.flatten) (hne : rest ≠ []) :
    ¬ Gapless d := by
  rintro ⟨l', hring', hstream'⟩
  obtain rfl := hring.unique hring'
  have hlen := congrArg List.length (hstream.trans hstream'.symm)
  have hpos := List.length_pos_of_ne_nil hne
  simp only [List.length_append] at hlen
  omega

theorem Custody.aicDequeueTry_whole (h : Custody exact d k (pkt :: l)) (hlen : pkt.length ≤ count) :
    d.aicDequeueTry A count = some ({ d with queue :=
      ⟨d.queue.cells, (d.queue.front + 1) % queueSize, d.queue.rear⟩ }, some pkt) := by
  have hempty : ¬ d.isQueueEmpty = true := fun he => List.cons_ne_nil _ _ (h.isQueueEmpty_iff.mp he)
  unfold HciDev.aicDequeueTry
  rw [if_neg hempty, h.ring.head]
  exact if_pos hlen

theorem Custody.aicDequeueTry_part (h : Custody exact d k (pkt :: l)) (hlen : count < pkt.length) :
    d.aicDequeueTry A count =
      let d' := { d with
        calls := d.calls + 1
        queue := ⟨Function.update d.queue.cells d.queue.front (some (pkt.drop count)),
          d.queue.front, d.queue.rear⟩ }
      if A.copy d.calls then some ({ d' with allocated := d.allocated + 1 }, some pkt)
      else some (d', none) := by
  have hempty : ¬ d.isQueueEmpty = true := fun he => List.cons_ne_nil _ _ (h.isQueueEmpty_iff.mp he)
  unfold HciDev.aicDequeueTry
  rw [if_neg hempty, h.ring.head]
  exact if_neg (Nat.not_le.mpr hlen)

theorem Custody.readLoses_iff (h : Custody exact d k (pkt :: l)) (A : Allocator) (fault : Bool)
    (hcount : count ≠ 0) :
    d.readLoses A count fault = true ↔
      fault = true ∨ (count < pkt.length ∧ A.copy d.calls = false) := by
  have hempty : d.isQueueEmpty = false := by
    rw [← Bool.not_eq_true]
    exact fun he => List.cons_ne_nil _ _ (h.isQueueEmpty_iff.mp he)
  unfold HciDev.readLoses
  rw [hempty, h.ring.head]
  simp [hcount]

/-- A packet of which the first bytes are read. -/
theorem Custody.whole (h : Custody exact d k (pkt :: l)) (exact' : Prop) (bytes : List UInt8)
    (hexact : exact' → exact ∧ bytes = pkt) :
    Custody exact' { d with
      queue := ⟨d.queue.cells, (d.queue.front + 1) % queueSize, d.queue.rear⟩
      read := d.read ++ bytes }.kfreeSkb k l where
  ring := h.ring.advance
  nonempty := fun hmem => h.nonempty (List.mem_cons_of_mem pkt hmem)
  stream := by
    intro hexact'
    obtain ⟨he, rfl⟩ := hexact hexact'
    show d.read ++ bytes ++ l.flatten = d.queued.flatten
    rw [← h.stream he, List.flatten_cons, List.append_assoc]
  account := by
    have hacc := h.account
    rw [List.length_cons] at hacc
    show d.allocated = d.freed + 1 + d.dropped + d.buffers + l.length + k
    omega

theorem Custody.part (h : Custody exact d k (pkt :: l)) (hlen : count < pkt.length)
    (exact' : Prop) (bytes : List UInt8) (hexact : exact' → exact ∧ bytes = pkt.take count) :
    Custody exact' { d with
      calls := d.calls + 1
      queue := ⟨Function.update d.queue.cells d.queue.front (some (pkt.drop count)),
        d.queue.front, d.queue.rear⟩
      read := d.read ++ bytes } k (pkt.drop count :: l) where
  ring := h.ring.setHead _
  nonempty := by
    intro hmem
    rcases List.mem_cons.mp hmem with hdrop | hl
    · have := List.drop_eq_nil_iff.mp hdrop.symm
      omega
    · exact h.nonempty (List.mem_cons_of_mem pkt hl)
  stream := by
    intro hexact'
    obtain ⟨he, rfl⟩ := hexact hexact'
    show d.read ++ pkt.take count ++ (pkt.drop count ++ l.flatten) = d.queued.flatten
    rw [← h.stream he, List.flatten_cons, List.append_assoc, ← List.append_assoc (pkt.take count),
      List.take_append_drop]
  account := h.account

/-- A copy that is allocated and freed. -/
theorem Custody.passed (h : Custody exact d k l) :
    Custody exact { d with allocated := d.allocated + 1 }.kfreeSkb k l where
  ring := h.ring
  nonempty := h.nonempty
  stream := h.stream
  account := by
    have hacc := h.account
    show d.allocated + 1 = d.freed + 1 + d.dropped + d.buffers + l.length + k
    omega

theorem DevOk.mono {exact' : Prop} (h : DevOk exact d) (hexact : exact' → exact) :
    DevOk exact' d := by
  obtain ⟨l, hl⟩ := h.custody
  exact ⟨h.bufs, h.frames, l, hl.ring, hl.nonempty, fun he => hl.stream (hexact he), hl.account⟩

/-- A read never oopses, and it leaves a gap exactly when it loses bytes. -/
theorem DevOk.btchrRead (A : Allocator) (h : DevOk exact d) (count : Nat) (fault : Bool) :
    ∃ d', d.btchrRead A count fault = some d' ∧
      DevOk (exact ∧ d.readLoses A count fault = false) d' ∧
      (exact → d.readLoses A count fault = true → ¬ Gapless d') := by
  unfold HciDev.btchrRead
  by_cases hcount : count = 0
  · rw [if_pos hcount]
    refine ⟨d, rfl, h.mono And.left, fun _ hloses => ?_⟩
    unfold HciDev.readLoses at hloses
    simp [hcount] at hloses
  rw [if_neg hcount]
  obtain ⟨l, hl⟩ := h.custody
  cases l with
  | nil =>
    have hempty := hl.isQueueEmpty_iff.mpr rfl
    have htry : d.aicDequeueTry A count = some (d, none) := by
      unfold HciDev.aicDequeueTry
      rw [if_pos hempty]
    rw [htry]
    refine ⟨d, rfl, h.mono And.left, fun _ hloses => ?_⟩
    unfold HciDev.readLoses at hloses
    simp [hempty] at hloses
  | cons pkt l =>
    have hne : pkt ≠ [] := fun heq => hl.nonempty (heq ▸ List.mem_cons_self)
    have hloses := hl.readLoses_iff A fault hcount
    rcases Nat.lt_or_ge count pkt.length with hlen | hlen
    · rw [hl.aicDequeueTry_part hlen]
      have htake : pkt.take count ≠ [] := by
        rw [Ne, List.take_eq_nil_iff, not_or]
        exact ⟨hcount, hne⟩
      have hall : pkt.take count ++ (pkt.drop count ++ l.flatten) = (pkt :: l).flatten := by
        rw [List.flatten_cons, ← List.append_assoc, List.take_append_drop]
      cases hcopy : A.copy d.calls with
      | false =>
        -- the bytes are gone, and the reader waits again
        refine ⟨_, rfl, ⟨h.bufs, h.frames, pkt.drop count :: l, ?_⟩, fun he _ => ?_⟩
        · have hpart := hl.part hlen (exact ∧ d.readLoses A count fault = false) [] ?_
          · rw [List.append_nil] at hpart
            exact hpart
          · rintro ⟨-, hno⟩
            rw [hloses.mpr (Or.inr ⟨hlen, hcopy⟩)] at hno
            cases hno
        · refine not_gapless (pkt.take count) (hl.ring.setHead _) ?_ htake
          show d.read ++ pkt.take count ++ (pkt.drop count ++ l.flatten) = d.queued.flatten
          rw [List.append_assoc, hall]
          exact hl.stream he
      | true =>
        cases fault with
        | true =>
          refine ⟨_, rfl, ⟨h.bufs, h.frames, pkt.drop count :: l, ?_⟩, fun he _ => ?_⟩
          · have hpart := hl.part hlen (exact ∧ d.readLoses A count true = false) [] ?_
            · rw [List.append_nil] at hpart
              exact hpart.passed
            · rintro ⟨-, hno⟩
              rw [hloses.mpr (Or.inl rfl)] at hno
              cases hno
          · refine not_gapless (pkt.take count) (hl.ring.setHead _) ?_ htake
            show d.read ++ pkt.take count ++ (pkt.drop count ++ l.flatten) = d.queued.flatten
            rw [List.append_assoc, hall]
            exact hl.stream he
        | false =>
          refine ⟨_, rfl, ⟨h.bufs, h.frames, pkt.drop count :: l, ?_⟩, fun _ hyes => ?_⟩
          · exact (hl.part hlen (exact ∧ d.readLoses A count false = false) (pkt.take count)
              fun he => ⟨he.1, rfl⟩).passed
          · rcases hloses.mp hyes with hf | ⟨-, hc⟩
            · cases hf
            · rw [hcopy] at hc
              cases hc
    · rw [hl.aicDequeueTry_whole hlen]
      cases fault with
      | true =>
        refine ⟨_, rfl, ⟨h.bufs, h.frames, l, ?_⟩, fun he _ => ?_⟩
        · have hwhole := hl.whole (exact ∧ d.readLoses A count true = false) [] ?_
          · rw [List.append_nil] at hwhole
            exact hwhole
          · rintro ⟨-, hno⟩
            rw [hloses.mpr (Or.inl rfl)] at hno
            cases hno
        · refine not_gapless pkt hl.ring.advance ?_ hne
          show d.read ++ pkt ++ l.flatten = d.queued.flatten
          rw [← hl.stream he, List.flatten_cons, List.append_assoc]
      | false =>
        refine ⟨_, rfl, ⟨h.bufs, h.frames, l, ?_⟩, fun _ hyes => ?_⟩
        · exact hl.whole _ _ fun he => ⟨he.1, List.take_of_length_le hlen⟩
        · rcases hloses.mp hyes with hf | ⟨hc, -⟩
          · cases hf
          · omega

end Read

/-! ## Runs -/

/-- A step that starts no frame and passes none on. -/
structure SameFrames (d d' : HciDev) : Prop where
  received : d'.received = d.received
  reassembly : ∀ t skb, d'.reassembly t = some skb → d.reassembly t = some skb

namespace SameFrames

variable {d d' d'' : HciDev}

theorem refl (d : HciDev) : SameFrames d d := ⟨rfl, fun _ _ h => h⟩

theorem trans (h : SameFrames d d') (h' : SameFrames d' d'') : SameFrames d d'' :=
  ⟨h'.received.trans h.received, fun t skb hskb => h.reassembly t skb (h'.reassembly t skb hskb)⟩

/-- From a state with the same frames. -/
theorem of_eq (h : SameFrames d' d'') (hreceived : d'.received = d.received)
    (hreassembly : d'.reassembly = d.reassembly) : SameFrames d d'' :=
  trans ⟨hreceived, fun _ _ hskb => hreassembly ▸ hskb⟩ h

theorem freeReassembly (d : HciDev) (t : PktType) : SameFrames d (d.freeReassembly t) := by
  unfold HciDev.freeReassembly
  cases hd : d.reassembly t with
  | none => exact refl d
  | some skb =>
    refine ⟨rfl, fun u skb' hskb' => ?_⟩
    by_cases hut : u = t
    · rw [hut, HciDev.setReassembly_self] at hskb'
      cases hskb'
    · rwa [HciDev.setReassembly_of_ne _ _ hut] at hskb'

theorem btusbClose (d : HciDev) : SameFrames d d.btusbClose := by
  unfold HciDev.btusbClose
  split_ifs
  · simp only
    split_ifs
    · refine SameFrames.trans ?_ (freeReassembly _ .event)
      refine SameFrames.trans ?_ (freeReassembly _ .scoData)
      exact (freeReassembly _ .aclData).of_eq rfl rfl
    · exact ⟨rfl, fun _ _ h => h⟩
  · exact refl d

end SameFrames

section Runs

variable {A : Allocator} {exact : Prop} {d d' : HciDev}

theorem DevOk.of_same (h : DevOk exact d) (hsame : SameFrames d d')
    (hcustody : ∃ l, Custody exact d' 0 l) : DevOk exact d' where
  bufs := fun t skb hskb => h.bufs t skb (hsame.reassembly t skb hskb)
  frames := by
    rw [hsame.received]
    exact h.frames
  custody := hcustody

/-- The steps that are not a read. -/
theorem DevOk.btStep (A : Allocator) (h : DevOk exact d) {e : BtEvent}
    (he : ∀ count fault, e ≠ .read count fault) :
    ∃ d', btStep A d e = some d' ∧ DevOk exact d' := by
  obtain ⟨l, hl⟩ := h.custody
  cases e with
  | intr data => exact h.urbComplete .event data
  | bulk data => exact h.urbComplete .aclData data
  | isoc actualLength packets =>
    unfold LonganPi.Bt.btStep HciDev.btusbIsocComplete
    simp only
    split_ifs
    · exact h.isocLoop actualLength packets 0
    · exact ⟨d, rfl, h⟩
  | read count fault => exact absurd rfl (he count fault)
  | hardwareError =>
    refine ⟨_, rfl, h.of_same ?_ ?_⟩
    · obtain ⟨_, _, _, _, _, heq⟩ := HciDev.hciHardwareError_eq A d
      rw [heq]
      exact ⟨rfl, fun _ _ hskb => hskb⟩
    · unfold HciDev.hciHardwareError
      cases halloc : A.alloc d.calls 3 with
      | none => exact ⟨l, hl.call⟩
      | some room => exact hl.alloc.aicEnqueue (List.cons_ne_nil _ _)
  | ioctl downFw getErr =>
    obtain ⟨running, opens, -, heq⟩ := d.btchrIoctl_eq downFw getErr
    refine ⟨_, rfl, ?_⟩
    rw [heq]
    exact ⟨h.bufs, h.frames, l, hl.ring, hl.nonempty, hl.stream, hl.account⟩
  | ioctlNext i submitErr =>
    obtain ⟨up, running, intrRunning, opens, -, -, heq⟩ := d.btchrIoctlNext_eq i submitErr
    refine ⟨_, rfl, ?_⟩
    rw [heq]
    exact ⟨h.bufs, h.frames, l, hl.ring, hl.nonempty, hl.stream, hl.account⟩
  | chrOpen =>
    have hopen : Custody exact { d with promisc := d.promisc + 1 } 0 l :=
      ⟨hl.ring, hl.nonempty, hl.stream, hl.account⟩
    refine ⟨_, rfl, h.of_same ?_ ⟨[], hopen.aicClearQueue exact⟩⟩
    obtain ⟨queue, freed, heq⟩ := HciDev.clearLoop_eq queueSize { d with promisc := d.promisc + 1 }
    unfold HciDev.btchrOpen HciDev.aicClearQueue
    rw [heq]
    exact ⟨rfl, fun _ _ hskb => hskb⟩
  | chrClose =>
    have hclose : Custody exact { d with promisc := 0 }.btusbClose 0 l :=
      Custody.btusbClose ⟨hl.ring, hl.nonempty, hl.stream, hl.account⟩
    have hsame := SameFrames.btusbClose { d with promisc := 0 }
    exact ⟨_, rfl, h.of_same ⟨hsame.received, hsame.reassembly⟩
      ⟨l, hclose.ring, hclose.nonempty, hclose.stream, hclose.account⟩⟩
  | resumeFails =>
    exact ⟨_, rfl, h.bufs, h.frames, l, hl.ring, hl.nonempty, hl.stream, hl.account⟩

theorem DevOk.of_btStep (h : DevOk exact d) {e : BtEvent}
    (hstep : LonganPi.Bt.btStep A d e = some d') (he : ∀ count fault, e ≠ .read count fault) : DevOk exact d' := by
  obtain ⟨d₁, hstep₁, hd₁⟩ := h.btStep A he
  rwa [← Option.some.inj (hstep₁.symm.trans hstep)]

/-- One step from a state in order. -/
theorem DevOk.step (A : Allocator) (h : DevOk False d) (e : BtEvent) :
    ∃ d', LonganPi.Bt.btStep A d e = some d' ∧ DevOk False d' := by
  cases e with
  | read count fault =>
    obtain ⟨d', hstep, hd', -⟩ := h.btchrRead A count fault
    exact ⟨d', hstep, hd'.mono False.elim⟩
  | _ => exact h.btStep A fun count fault heq => by cases heq

theorem DevOk.run (A : Allocator) (h : DevOk False d) (es : List BtEvent) :
    ∃ d', Transition.run (LonganPi.Bt.btStep A) es d = some d' ∧ DevOk False d' := by
  induction es generalizing d with
  | nil => exact ⟨d, rfl, h⟩
  | cons e es ih =>
    obtain ⟨d₁, hstep, hd₁⟩ := h.step A e
    obtain ⟨d', hrun, hd'⟩ := ih hd₁
    exact ⟨d', Transition.run_cons.mpr ⟨d₁, hstep, hrun⟩, hd'⟩

/-- A read that loses no bytes. -/
def KeepsBytes (A : Allocator) (d : HciDev) : BtEvent → Prop
  | .read count fault => d.readLoses A count fault = false
  | _ => True

theorem DevOk.of_gapless (h : DevOk False d) (hg : Gapless d) : DevOk True d := by
  obtain ⟨l, hl⟩ := h.custody
  obtain ⟨l', hring, hstream⟩ := hg
  obtain rfl := hl.ring.unique hring
  exact ⟨h.bufs, h.frames, l, hl.ring, hl.nonempty, fun _ => hstream, hl.account⟩

/-- In every state of a run what was read and what lies in the queue is all that
came into it, exactly when no read of the run loses bytes. -/
theorem reads_exact_iff (A : Allocator) (es : List BtEvent) :
    Transition.Always (btStep A) Gapless es hciRegisterDev ↔
      Transition.Guarded (btStep A) (KeepsBytes A) es hciRegisterDev := by
  refine Transition.always_iff_guarded (I := DevOk False) ?_ ?_ DevOk.hciRegisterDev
    (show DevOk True hciRegisterDev from DevOk.hciRegisterDev).gapless es
  · intro d e d' hd hg hstep
    have hexact := hd.of_gapless hg
    cases e with
    | read count fault =>
      obtain ⟨d₁, hstep₁, hd₁, hloses⟩ := hexact.btchrRead A count fault
      obtain rfl := Option.some.inj (hstep₁.symm.trans hstep)
      show Gapless d₁ ↔ d.readLoses A count fault = false
      constructor
      · intro hg'
        cases hl : d.readLoses A count fault with
        | false => rfl
        | true => exact absurd hg' (hloses trivial hl)
      · intro hkeeps
        exact (hd₁.mono fun _ => ⟨trivial, hkeeps⟩).gapless
    | _ =>
      have hd' := hexact.of_btStep hstep fun count fault heq => by cases heq
      exact iff_of_true hd'.gapless trivial
  · intro d e d' hd hg hstep hg'
    obtain ⟨d₁, hstep₁, hd₁⟩ := hd.step A e
    obtain rfl := Option.some.inj (hstep₁.symm.trans hstep)
    exact hd₁

end Runs

end LonganPi.Bt
