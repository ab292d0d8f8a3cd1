import LonganPi.Bt.Reader

/-!
# From the endpoints to the reader

The bytes of each endpoint are frames of its type, and perhaps the start of one more.
The transfers cut them anywhere, and the completions of the three endpoints
interleave.

* `frames_reassembled`: exactly these frames are passed on, those of one type in
  their order.
* `reader_gets_frames`: the reader gets them one after another, each whole and behind
  its type.  Only a frame that comes while 499 wait is missing.
-/

namespace LonganPi.Bt

/-- What was received of the frame that is not complete. -/
def HciDev.held (d : HciDev) (t : PktType) : List UInt8 :=
  ((d.reassembly t).map SkBuff.data).getD []

/-- The bytes of a transfer of the isochronous endpoint that are passed on. -/
def isocBytes (actualLength : Nat) : List (Int × List UInt8) → Nat → List UInt8
  | [], _ => []
  | (status, data) :: packets, total =>
    if actualLength ≤ total then []
    else (if status ≠ 0 then [] else data) ++
      isocBytes actualLength packets (total + data.length)

/-- The bytes that the endpoint of a type brings. -/
def BtEvent.bytes : BtEvent → PktType → List UInt8
  | .intr data, .event => data
  | .bulk data, .aclData => data
  | .isoc actualLength packets, .scoData => isocBytes actualLength packets 0
  | _, _ => []

/-- The frames of one type, in their order. -/
def framesOf (t : PktType) (order : List (PktType × List UInt8)) : List (List UInt8) :=
  (order.filter fun p => p.1 = t).map Prod.snd

theorem framesOf_append (t : PktType) (order order' : List (PktType × List UInt8)) :
    framesOf t (order ++ order') = framesOf t order ++ framesOf t order' := by
  unfold framesOf
  rw [List.filter_append, List.map_append]

/-- The bytes that the endpoints bring later. -/
abbrev Streams := PktType → List UInt8

/-- With what is held already, they are the frames `fs` and the starts `tail`. -/
def Ahead (d : HciDev) (later : Streams) (fs : PktType → List (List UInt8)) (tail : Streams) :
    Prop :=
  ∀ t : PktType, t.framing.Splits t.maxLen (d.held t ++ later t) (fs t) (tail t)

/-- From `d₀` on the frames `order` were passed on, and the rest of `fs` is still
ahead. -/
def Along (d₀ d : HciDev) (later : Streams) (fs : PktType → List (List UInt8)) (tail : Streams)
    (order : List (PktType × List UInt8)) : Prop :=
  d.received = d₀.received ++ order ∧
    ∃ fs', (∀ t, fs t = framesOf t order ++ fs' t) ∧ Ahead d later fs' tail

section Frames

variable {A : Allocator} {d d₀ d' : HciDev} {t : PktType} {data r : List UInt8}
  {later tail : Streams} {fs : PktType → List (List UInt8)}
  {order order' : List (PktType × List UInt8)}

theorem held_some {skb : SkBuff} (hd : d.reassembly t = some skb) : d.held t = skb.data := by
  unfold HciDev.held
  rw [hd]
  rfl

theorem held_none (hd : d.reassembly t = none) : d.held t = [] := by
  unfold HciDev.held
  rw [hd]
  rfl

theorem held_set_of_ne {u : PktType} (o : Option SkBuff) (h : u ≠ t) :
    (d.setReassembly t o).held u = d.held u := by
  unfold HciDev.held
  rw [d.setReassembly_of_ne o h]

theorem Along.refl (h : Ahead d later fs tail) : Along d d later fs tail [] :=
  ⟨(List.append_nil _).symm, fs, fun _ => rfl, h⟩

/-- A step that passes nothing on. -/
theorem Along.map {later' : Streams} (h : Along d₀ d later fs tail order)
    (hahead : ∀ fs', Ahead d later fs' tail → Ahead d' later' fs' tail)
    (hreceived : d'.received = d.received) : Along d₀ d' later' fs tail order := by
  obtain ⟨hrec, fs', hfs, hrest⟩ := h
  exact ⟨hreceived.trans hrec, fs', hfs, hahead fs' hrest⟩

theorem Ahead.of_held (h : Ahead d later fs tail) (hheld : d'.held = d.held) :
    Ahead d' later fs tail := by
  intro t
  rw [hheld]
  exact h t

/-- The bytes are put to what is held. -/
theorem Ahead.more (h : Ahead d (Function.update later t (data ++ later t)) fs tail)
    {skb : SkBuff} (hdata : skb.data = d.held t ++ data) :
    Ahead (d.setReassembly t (some skb)) later fs tail := by
  intro u
  have hu := h u
  by_cases hut : u = t
  · subst hut
    rw [Function.update_self, ← List.append_assoc] at hu
    rw [held_some (d.setReassembly_self u _), hdata]
    exact hu
  · rw [Function.update_of_ne hut] at hu
    rw [held_set_of_ne _ hut]
    exact hu

/-- A frame is passed on. -/
theorem Ahead.frame {pre rest : List UInt8}
    (h : Ahead d (Function.update later t (pre ++ rest ++ later t)) fs tail)
    (hf : t.framing.IsFrame (d.held t ++ pre)) (hreassembly : d'.reassembly = d.reassembly)
    (hreceived : d'.received = d.received ++ [(t, d.held t ++ pre)]) :
    Along d (d'.setReassembly t none) (Function.update later t (rest ++ later t)) fs tail
      [(t, d.held t ++ pre)] := by
  have ht := h t
  rw [Function.update_self, List.append_assoc, ← List.append_assoc] at ht
  obtain ⟨gs, hgs, hsplits⟩ := ht.uncons hf
  refine ⟨hreceived, Function.update fs t gs, fun u => ?_, fun u => ?_⟩
  · by_cases hut : u = t
    · subst hut
      rw [Function.update_self, hgs]
      simp [framesOf]
    · rw [Function.update_of_ne hut]
      simp [framesOf, Ne.symm hut]
  · by_cases hut : u = t
    · subst hut
      rw [Function.update_self, Function.update_self, held_none (d'.setReassembly_self u none)]
      exact hsplits
    · have hu := h u
      rw [Function.update_of_ne hut] at hu ⊢
      rw [Function.update_of_ne hut, held_set_of_ne _ hut]
      unfold HciDev.held at hu ⊢
      rw [hreassembly]
      exact hu

/-- No header that comes announces too much. -/
theorem Ahead.fits (h : Ahead d (Function.update later t (data ++ later t)) fs tail) :
    t.framing.Fits t.maxLen (d.held t ++ data) := by
  have ht := h t
  rw [Function.update_self, ← List.append_assoc] at ht
  exact ht.fits_of_start (List.prefix_append _ _)

theorem held_startBuffer {room : Nat} (hd : d.reassembly t = none) :
    (d.startBuffer t room).held = d.held := by
  funext u
  by_cases hut : u = t
  · subst hut
    rw [held_none hd]
    exact held_some (HciDev.setReassembly_self _ _ _)
  · exact held_set_of_ne _ hut

end Frames

/-! ## What enters the queue -/

/-- The packet for the reader. -/
def h4 (p : PktType × List UInt8) : List UInt8 := p.1.code :: p.2

/-- There is memory for copies, and a process has the device open. -/
def Ready (A : Allocator) (d : HciDev) : Prop :=
  (∀ k, A.copy k = true) ∧ d.up = true ∧ d.running = true ∧ d.promisc ≠ 0

/-- The frames `order` come into the queue, but for those that are dropped. -/
structure Passes (A : Allocator) (d d' : HciDev) (order : List (PktType × List UInt8)) : Prop where
  up : d'.up = d.up
  running : d'.running = d.running
  promisc : d'.promisc = d.promisc
  queued : Ready A d → ∃ entered, d'.queued = d.queued ++ entered ∧
    entered.Sublist (order.map h4) ∧ entered.length + d'.dropped = order.length + d.dropped

section Queue

variable {A : Allocator} {d d' d'' : HciDev} {t : PktType} {f : List UInt8}
  {order order' : List (PktType × List UInt8)}

namespace Passes

theorem ready (h : Passes A d d' order) (hd : Ready A d) : Ready A d' := by
  obtain ⟨hcopy, hup, hrunning, hpromisc⟩ := hd
  refine ⟨hcopy, h.up.trans hup, h.running.trans hrunning, ?_⟩
  rw [h.promisc]
  exact hpromisc

theorem of_eq (hup : d'.up = d.up) (hrunning : d'.running = d.running)
    (hpromisc : d'.promisc = d.promisc) (hqueued : d'.queued = d.queued)
    (hdropped : d'.dropped = d.dropped) : Passes A d d' [] where
  up := hup
  running := hrunning
  promisc := hpromisc
  queued := fun _ => ⟨[], by rw [hqueued, List.append_nil], List.Sublist.refl _,
    congrArg (0 + ·) hdropped⟩

theorem trans (h : Passes A d d' order) (h' : Passes A d' d'' order') :
    Passes A d d'' (order ++ order') where
  up := h'.up.trans h.up
  running := h'.running.trans h.running
  promisc := h'.promisc.trans h.promisc
  queued := by
    intro hd
    obtain ⟨entered, hqueued, hsub, hlen⟩ := h.queued hd
    obtain ⟨entered', hqueued', hsub', hlen'⟩ := h'.queued (h.ready hd)
    refine ⟨entered ++ entered', ?_, ?_, ?_⟩
    · rw [hqueued', hqueued, List.append_assoc]
    · rw [List.map_append]
      exact hsub.append hsub'
    · rw [List.length_append, List.length_append]
      omega

theorem aicEnqueue (A : Allocator) (d : HciDev) (t : PktType) (f : List UInt8) :
    Passes A d (d.aicEnqueue (t.code :: f)) [(t, f)] := by
  unfold HciDev.aicEnqueue
  split_ifs
  · exact ⟨rfl, rfl, rfl, fun _ => ⟨[], (List.append_nil _).symm, List.nil_sublist _,
      (Nat.zero_add _).trans (Nat.add_comm _ _)⟩⟩
  · exact ⟨rfl, rfl, rfl, fun _ => ⟨[t.code :: f], rfl, List.Sublist.refl _, rfl⟩⟩

/-- A frame that is passed on. -/
theorem hciRecvFrame (A : Allocator) (d : HciDev) (t : PktType) (f : List UInt8) :
    Passes A d (d.hciRecvFrame A t f) [(t, f)] := by
  unfold HciDev.hciRecvFrame HciDev.hciSendToStack
  simp only
  split_ifs with hopen hrunning hcopy
  · have hq := Passes.aicEnqueue A { d with
      received := d.received ++ [(t, f)], calls := d.calls + 1, allocated := d.allocated + 1 } t f
    exact ⟨hq.up, hq.running, hq.promisc, fun hd => hq.queued hd⟩
  · exact ⟨rfl, rfl, rfl, fun hd => absurd (hd.1 d.calls) hcopy⟩
  · exact ⟨rfl, rfl, rfl, fun hd => absurd hd.2.2.1 hrunning⟩
  · refine ⟨rfl, rfl, rfl, fun hd => absurd ?_ hopen⟩
    simp [hd.2.1, hd.2.2.2]

end Passes

end Queue

/-! ## Steps -/

section Steps

variable {A : Allocator} {q q' : Prop} {d d₀ d' : HciDev} {t : PktType} {data : List UInt8}
  {later later' tail : Streams} {fs : PktType → List (List UInt8)}

/-- Some bytes are taken, and with `q` the frames come into the queue. -/
def Takes (A : Allocator) (q : Prop) (d d' : HciDev) (later : Streams)
    (fs : PktType → List (List UInt8)) (tail : Streams) : Prop :=
  ∃ order, Along d d' later fs tail order ∧ (q → Passes A d d' order)

namespace Takes

theorem refl (h : Ahead d later fs tail) : Takes A q d d later fs tail :=
  ⟨[], Along.refl h, fun _ => Passes.of_eq rfl rfl rfl rfl rfl⟩

theorem mono (h : Takes A q d d' later fs tail) (hq : q' → q) : Takes A q' d d' later fs tail := by
  obtain ⟨order, halong, hpasses⟩ := h
  exact ⟨order, halong, fun hq' => hpasses (hq hq')⟩

/-- What comes after goes on with the frames that are still ahead. -/
theorem bind {R : HciDev → Prop} (h : Takes A q d₀ d later' fs tail)
    (hrest : ∀ fs', Ahead d later' fs' tail → ∃ d', R d' ∧ Takes A q d d' later fs' tail) :
    ∃ d', R d' ∧ Takes A q d₀ d' later fs tail := by
  obtain ⟨order, ⟨hreceived, fs', hfs, hahead⟩, hpasses⟩ := h
  obtain ⟨d', hR, order', ⟨hreceived', fs'', hfs', hahead'⟩, hpasses'⟩ := hrest fs' hahead
  refine ⟨d', hR, order ++ order', ⟨?_, fs'', fun t => ?_, hahead'⟩,
    fun hq => (hpasses hq).trans (hpasses' hq)⟩
  · rw [hreceived', hreceived, List.append_assoc]
  · rw [hfs, hfs', framesOf_append, List.append_assoc]

theorem trans (h : Takes A q d₀ d later' fs tail)
    (hrest : ∀ fs', Ahead d later' fs' tail → Takes A q d d' later fs' tail) :
    Takes A q d₀ d' later fs tail := by
  obtain ⟨_, rfl, h'⟩ := h.bind (R := fun d₁ => d₁ = d') fun fs' ha => ⟨d', rfl, hrest fs' ha⟩
  exact h'

end Takes

theorem takes_recvFragment (hmem : ∀ k, (A.alloc k t.maxSize).isSome = true)
    (hbufs : BuffersOk d)
    (h : Ahead d (Function.update later t (data ++ later t)) fs tail) :
    ∃ d' ret, d.hciRecvFragment A t data = some (d', ret) ∧ BuffersOk d' ∧
      Takes A True d d' later fs tail := by
  refine recvFragment_rule
    (I := fun d₁ data₁ => Takes A True d d₁ (Function.update later t (data₁ ++ later t)) fs tail)
    ?_ ?_ ?_ ?_ ?_ hbufs data (Takes.refl h)
  · intro d₁ data₁ _ _ hnone
    have hsome := hmem d₁.calls
    rw [hnone] at hsome
    cases hsome
  · intro d₁ data₁ room hI hd
    refine hI.trans fun fs' hahead => ⟨[], ?_, fun _ => ?_⟩
    · exact (Along.refl hahead).map (fun _ ha => ha.of_held (held_startBuffer hd)) rfl
    · exact Passes.of_eq rfl rfl rfl rfl rfl
  · intro d₁ skb data₁ d₂ rest hI hd hres
    refine hI.trans fun fs' hahead => ?_
    have hheld := held_some hd
    cases hres with
    | more hb hdata =>
      refine ⟨[], ?_, fun _ => Passes.of_eq rfl rfl rfl rfl rfl⟩
      rw [List.nil_append, Function.update_eq_self]
      rw [← hheld] at hdata
      exact (Along.refl hahead).map (fun _ ha => ha.more hdata) rfl
    | @frame pre _ hdata hne hf =>
      refine ⟨[(t, skb.data ++ pre)], ?_, fun _ => ?_⟩
      · rw [hdata] at hahead
        rw [← hheld] at hf ⊢
        exact hahead.frame hf (hciRecvFrame_reassembly _ _ _ _)
          (HciDev.hciRecvFrame_received _ _ _ _)
      · have hpass := Passes.hciRecvFrame A d₁ t (skb.data ++ pre)
        exact ⟨hpass.up, hpass.running, hpass.promisc, hpass.queued⟩
  · intro d₁ skb data₁ d₂ e hI hd hres
    obtain ⟨order, ⟨-, fs', -, hahead⟩, -⟩ := hI
    cases hres with
    | oversize hbig =>
      rw [← held_some hd] at hbig
      exact absurd hahead.fits hbig
  · intro d₁ hI
    rwa [List.nil_append, Function.update_eq_self] at hI

theorem takes_isocLoop (hmem : ∀ k, (A.alloc k (PktType.maxSize .scoData)).isSome = true)
    (actualLength : Nat) (packets : List (Int × List UInt8)) (total : Nat) (hbufs : BuffersOk d)
    (h : Ahead d (Function.update later .scoData
      (isocBytes actualLength packets total ++ later .scoData)) fs tail) :
    ∃ d', HciDev.isocLoop A actualLength packets total d = some d' ∧
      Takes A True d d' later fs tail := by
  induction packets generalizing total d fs with
  | nil =>
    refine ⟨d, rfl, Takes.refl ?_⟩
    rwa [isocBytes, List.nil_append, Function.update_eq_self] at h
  | cons packet packets ih =>
    obtain ⟨status, data⟩ := packet
    unfold isocBytes at h
    unfold HciDev.isocLoop
    by_cases hend : actualLength ≤ total
    · rw [if_pos hend, List.nil_append, Function.update_eq_self] at h
      rw [if_pos hend]
      exact ⟨d, rfl, Takes.refl h⟩
    rw [if_neg hend] at h ⊢
    by_cases hskip : status ≠ 0 ∨ data = []
    · have hnil : (if status ≠ 0 then [] else data) = [] := by
        split_ifs with hstatus
        · rfl
        · exact hskip.resolve_left hstatus
      rw [hnil, List.nil_append] at h
      rw [if_pos hskip]
      exact ih (total + data.length) hbufs h
    · obtain ⟨hstatus, hne⟩ := not_or.mp hskip
      rw [if_neg hstatus, List.append_assoc] at h
      rw [if_neg hskip]
      -- the other packets come later
      have hlater : Ahead d (Function.update
          (Function.update later .scoData
            (isocBytes actualLength packets (total + data.length) ++ later .scoData)) .scoData
          (data ++ Function.update later .scoData
            (isocBytes actualLength packets (total + data.length) ++ later .scoData) .scoData))
          fs tail := by
        rw [Function.update_self, Function.update_idem]
        exact h
      obtain ⟨d₁, ret, hrun, hbufs₁, htakes⟩ := takes_recvFragment hmem hbufs hlater
      rw [hrun]
      exact htakes.bind fun fs' hahead => ih (total + data.length) hbufs₁ hahead

/-- The device is neither closed nor stopped by an open that fails. -/
def KeepsRunning (d : HciDev) : BtEvent → Prop
  | .chrClose => False
  | .ioctlNext i _ => ¬ d.stopsOpen i
  | _ => True

/-- A step of the controller or of the reader. -/
def BtEvent.plain : BtEvent → Bool
  | .intr _ | .bulk _ | .isoc _ _ | .read _ _ | .resumeFails => true
  | _ => false

theorem bytes_intr (data : List UInt8) (later : Streams) :
    (fun t => (BtEvent.intr data).bytes t ++ later t) =
      Function.update later .event (data ++ later .event) := by
  funext t
  cases t <;> rfl

theorem bytes_bulk (data : List UInt8) (later : Streams) :
    (fun t => (BtEvent.bulk data).bytes t ++ later t) =
      Function.update later .aclData (data ++ later .aclData) := by
  funext t
  cases t <;> rfl

theorem bytes_isoc (actualLength : Nat) (packets : List (Int × List UInt8)) (later : Streams) :
    (fun t => (BtEvent.isoc actualLength packets).bytes t ++ later t) =
      Function.update later .scoData (isocBytes actualLength packets 0 ++ later .scoData) := by
  funext t
  cases t <;> rfl

/-- A step that takes no bytes and passes nothing on. -/
theorem takes_of_eq (h : Ahead d later fs tail) (hreassembly : d'.reassembly = d.reassembly)
    (hreceived : d'.received = d.received) (hpasses : q → Passes A d d' []) :
    Takes A q d d' later fs tail := by
  refine ⟨[], ?_, hpasses⟩
  refine (Along.refl h).map (fun _ ha => ha.of_held ?_) hreceived
  funext t
  unfold HciDev.held
  rw [hreassembly]

/-- A transfer of the interrupt or the bulk endpoint. -/
theorem takes_urbComplete (hmem : ∀ k, (A.alloc k t.maxSize).isSome = true)
    (hbufs : BuffersOk d) (hrunning : d.running = true)
    (h : Ahead d (Function.update later t (data ++ later t)) fs tail) :
    ∃ d', HciDev.urbComplete A t d data = some d' ∧ Takes A True d d' later fs tail := by
  obtain ⟨d', ret, hrun, -, htakes⟩ := takes_recvFragment hmem hbufs h
  refine ⟨d', ?_, htakes⟩
  unfold HciDev.urbComplete
  rw [if_pos hrunning, hrun]
  rfl

theorem takes_step (hmem : ∀ k (t : PktType), (A.alloc k t.maxSize).isSome = true)
    (hd : DevOk False d) (hrunning : d.running = true) {e : BtEvent} (he : KeepsRunning d e)
    (h : Ahead d (fun t => e.bytes t ++ later t) fs tail) :
    ∃ d', btStep A d e = some d' ∧ d'.running = true ∧
      Takes A (e.plain = true) d d' later fs tail := by
  -- with frames passed on, the flags stay
  have hplain : ∀ {d'}, btStep A d e = some d' → Takes A True d d' later fs tail →
      ∃ d', btStep A d e = some d' ∧ d'.running = true ∧
        Takes A (e.plain = true) d d' later fs tail := by
    intro d' hstep htakes
    have hrun : d'.running = true := by
      obtain ⟨order, -, hpasses⟩ := htakes
      exact (hpasses trivial).running.trans hrunning
    exact ⟨d', hstep, hrun, htakes.mono fun _ => trivial⟩
  cases e with
  | intr data =>
    rw [bytes_intr] at h
    obtain ⟨d', hstep, htakes⟩ := takes_urbComplete (fun k => hmem k .event) hd.bufs hrunning h
    exact hplain hstep htakes
  | bulk data =>
    rw [bytes_bulk] at h
    obtain ⟨d', hstep, htakes⟩ := takes_urbComplete (fun k => hmem k .aclData) hd.bufs hrunning h
    exact hplain hstep htakes
  | isoc actualLength packets =>
    rw [bytes_isoc] at h
    obtain ⟨d', hloop, htakes⟩ :=
      takes_isocLoop (fun k => hmem k .scoData) actualLength packets 0 hd.bufs h
    have hstep : btStep A d (.isoc actualLength packets) = some d' := by
      show d.btusbIsocComplete A actualLength packets = some d'
      unfold HciDev.btusbIsocComplete
      rw [if_pos hrunning, hloop]
    exact hplain hstep htakes
  | read count fault =>
    obtain ⟨d', hstep, -⟩ := hd.btchrRead A count fault
    obtain ⟨_, _, _, _, _, rfl⟩ := HciDev.btchrRead_eq hstep
    exact hplain hstep (takes_of_eq h rfl rfl fun _ => Passes.of_eq rfl rfl rfl rfl rfl)
  | hardwareError =>
    obtain ⟨_, _, _, _, _, heq⟩ := HciDev.hciHardwareError_eq A d
    refine ⟨_, rfl, ?_⟩
    rw [heq]
    exact ⟨hrunning, takes_of_eq h rfl rfl fun hq => by cases hq⟩
  | ioctl downFw getErr =>
    obtain ⟨_, _, hrun, heq⟩ := d.btchrIoctl_eq downFw getErr
    refine ⟨_, rfl, ?_⟩
    rw [heq]
    exact ⟨hrun hrunning, takes_of_eq h rfl rfl fun hq => by cases hq⟩
  | ioctlNext i submitErr =>
    obtain ⟨_, _, _, _, hkeeps, -, heq⟩ := d.btchrIoctlNext_eq i submitErr
    refine ⟨_, rfl, ?_⟩
    rw [heq]
    exact ⟨(hkeeps he).trans hrunning, takes_of_eq h rfl rfl fun hq => by cases hq⟩
  | chrOpen =>
    obtain ⟨queue, freed, heq⟩ := HciDev.clearLoop_eq queueSize { d with promisc := d.promisc + 1 }
    refine ⟨_, rfl, ?_⟩
    unfold HciDev.btchrOpen HciDev.aicClearQueue
    rw [heq]
    exact ⟨hrunning, takes_of_eq h rfl rfl fun hq => by cases hq⟩
  | chrClose => exact he.elim
  | resumeFails =>
    exact hplain rfl (takes_of_eq h rfl rfl fun _ => Passes.of_eq rfl rfl rfl rfl rfl)

theorem takes_run (hmem : ∀ k (t : PktType), (A.alloc k t.maxSize).isSome = true)
    {es : List BtEvent} (hd : DevOk False d) (hrunning : d.running = true)
    (hkeeps : Transition.Guarded (btStep A) KeepsRunning es d)
    (h : Ahead d (fun t => (es.flatMap fun e => e.bytes t) ++ later t) fs tail) :
    ∃ d', Transition.run (btStep A) es d = some d' ∧
      Takes A (∀ e ∈ es, e.plain = true) d d' later fs tail := by
  induction es generalizing d fs with
  | nil => exact ⟨d, rfl, Takes.refl h⟩
  | cons e es ih =>
    simp only [List.flatMap_cons, List.append_assoc] at h
    obtain ⟨d₂, hstep₂, hd₂⟩ := hd.step A e
    obtain ⟨hkeep, hkeeps₂⟩ := hkeeps d₂ hstep₂
    obtain ⟨d₁, hstep, hrun₁, htakes⟩ := takes_step hmem hd hrunning hkeep h
    obtain rfl := Option.some.inj (hstep₂.symm.trans hstep)
    have hfirst : Takes A (∀ e' ∈ e :: es, e'.plain = true) d d₂
        (fun t => (es.flatMap fun e => e.bytes t) ++ later t) fs tail :=
      htakes.mono fun hall => hall e List.mem_cons_self
    refine hfirst.bind fun fs' hahead => ?_
    obtain ⟨d', hrun, htakes'⟩ := ih hd₂ hrun₁ hkeeps₂ hahead
    exact ⟨d', Transition.run_cons.mpr ⟨d₂, hstep, hrun⟩,
      htakes'.mono fun hall e' he' => hall e' (List.mem_cons_of_mem e he')⟩

/-- Nothing is ahead any more. -/
theorem Ahead.done (hbufs : BuffersOk d) (h : Ahead d (fun _ => []) fs tail) (t : PktType) :
    fs t = [] ∧ d.held t = tail t := by
  have ht := h t
  rw [List.append_nil] at ht
  refine ht.eq_nil ?_
  cases hd : d.reassembly t with
  | none =>
    rw [held_none hd]
    show 0 < t.framing.need []
    have hlt : ([] : List UInt8).length < t.framing.hdr := t.hdrSize_pos
    rw [Framing.need_of_lt hlt]
    exact hlt
  | some skb =>
    rw [held_some hd]
    exact (hbufs t skb hd).isPartial

end Steps

/-! ## Runs -/

section Runs

variable {A : Allocator} {pre es : List BtEvent} {d : HciDev} {tail : Streams}
  {fs : PktType → List (List UInt8)}

theorem reachable_ok (hpre : Transition.run (btStep A) pre hciRegisterDev = some d) :
    DevOk False d := by
  obtain ⟨d₁, hrun, hd₁⟩ := DevOk.hciRegisterDev.run A pre
  rwa [← Option.some.inj (hrun.symm.trans hpre)]

/-- No read loses bytes. -/
theorem run_exact {d d' : HciDev} (hcopy : ∀ k, A.copy k = true) (hd : DevOk True d)
    (hfault : ∀ count, .read count true ∉ es)
    (hrun : Transition.run (btStep A) es d = some d') : DevOk True d' := by
  induction es generalizing d with
  | nil => rwa [← Option.some.inj hrun]
  | cons e es ih =>
    obtain ⟨d₁, hstep, hrest⟩ := Transition.run_cons.mp hrun
    refine ih ?_ (fun count hmem => hfault count (List.mem_cons_of_mem e hmem)) hrest
    cases e with
    | read count fault =>
      obtain ⟨d₂, hstep₂, hd₂, -⟩ := hd.btchrRead A count fault
      obtain rfl := Option.some.inj (hstep₂.symm.trans hstep)
      refine hd₂.mono fun _ => ⟨trivial, ?_⟩
      cases fault with
      | true => exact absurd List.mem_cons_self (hfault count)
      | false =>
        unfold HciDev.readLoses
        rw [hcopy, Bool.not_true, Bool.and_false, Bool.or_false, Bool.and_false]
    | _ => exact hd.of_btStep hstep fun count fault heq => by cases heq

/-- The controller and the reader do not stop the device. -/
theorem guarded_of_plain (hplain : ∀ e ∈ es, e.plain = true) (d : HciDev) :
    Transition.Guarded (btStep A) KeepsRunning es d := by
  induction es generalizing d with
  | nil => trivial
  | cons e es ih =>
    intro d' hstep
    refine ⟨?_, ih (fun e' he' => hplain e' (List.mem_cons_of_mem e he')) d'⟩
    have he := hplain e List.mem_cons_self
    cases e with
    | chrClose => cases he
    | ioctlNext i submitErr => cases he
    | _ => trivial

/-- A device that runs and is not stopped is given, on each endpoint, whole frames that
fit and perhaps the start of one more, after what it holds already.  While there is
memory, it passes on these frames and no others, those of one type in their order, and
holds the start. -/
theorem frames_reassembled (hmem : ∀ k (t : PktType), (A.alloc k t.maxSize).isSome = true)
    (hpre : Transition.run (btStep A) pre hciRegisterDev = some d) (hrunning : d.running = true)
    (hkeeps : Transition.Guarded (btStep A) KeepsRunning es d)
    (hsplits : ∀ t : PktType, t.framing.Splits t.maxLen
      (d.held t ++ es.flatMap fun e => e.bytes t) (fs t) (tail t)) :
    ∃ d' order, Transition.run (btStep A) es d = some d' ∧
      d'.received = d.received ++ order ∧
      ∀ t, framesOf t order = fs t ∧ d'.held t = tail t := by
  have hd := reachable_ok hpre
  have hahead : Ahead d (fun t => (es.flatMap fun e => e.bytes t) ++ []) fs tail := by
    intro t
    simp only [List.append_nil]
    exact hsplits t
  obtain ⟨d', hrun, order, ⟨hreceived, fs', hfs, hrest⟩, -⟩ :=
    takes_run hmem hd hrunning hkeeps hahead
  refine ⟨d', order, hrun, hreceived, fun t => ?_⟩
  obtain ⟨d₁, hrun₁, hd₁⟩ := hd.run A es
  obtain rfl := Option.some.inj (hrun₁.symm.trans hrun)
  obtain ⟨hnil, hheld⟩ := hrest.done hd₁.bufs t
  rw [hfs, hnil, List.append_nil]
  exact ⟨rfl, hheld⟩

/-- There is always memory, and never more than was asked for. -/
def plenty : Allocator :=
  ⟨fun _ len => some len, fun _ => true, fun _ _ _ h => Nat.le_of_eq (Option.some.inj h)⟩

/-- A process has opened the device. -/
def openDevice : HciDev := { hciRegisterDev with
  up := true, running := true, intrRunning := true, promisc := 1 }

theorem run_openDevice : Transition.run (btStep plenty)
    [.chrOpen, .ioctl true 0, .ioctlNext 0 0, .ioctlNext 0 0, .ioctlNext 0 0] hciRegisterDev =
    some openDevice := rfl

/-- An ACL frame in two parts, with an event between them and part of a read at the
end.  A byte of the next frame has come. -/
def cutTransfers : List BtEvent :=
  [.bulk [1, 0, 2], .intr [14, 1, 7], .bulk [0, 170, 187, 5], .read 2 false]

def cutFrames : PktType → List (List UInt8)
  | .aclData => [[1, 0, 2, 0, 170, 187]]
  | .scoData => []
  | .event => [[14, 1, 7]]

def cutTail : Streams
  | .aclData => [5]
  | _ => []

theorem cutTransfers_splits (t : PktType) : t.framing.Splits t.maxLen
    (openDevice.held t ++ cutTransfers.flatMap fun e => e.bytes t) (cutFrames t) (cutTail t) := by
  cases t <;> exact ⟨rfl, by decide, by decide, by decide, by decide⟩

theorem frames_reassembled_cut : ∃ d' order,
    Transition.run (btStep plenty) cutTransfers openDevice = some d' ∧
      d'.received = openDevice.received ++ order ∧
      ∀ t, framesOf t order = cutFrames t ∧ d'.held t = cutTail t :=
  frames_reassembled (fun _ _ => rfl) run_openDevice rfl
    (guarded_of_plain (by decide) openDevice) cutTransfers_splits

/-- When besides a process has the device open, and reads only where the bytes can be
copied, then what it has read and what waits for it are the frames, each behind its
type, but for those that were dropped. -/
theorem reader_gets_frames (hmem : ∀ k (t : PktType), (A.alloc k t.maxSize).isSome = true)
    (hpre : Transition.run (btStep A) pre hciRegisterDev = some d) (hready : Ready A d)
    (hgapless : Gapless d) (hplain : ∀ e ∈ es, e.plain = true)
    (hfault : ∀ count, .read count true ∉ es)
    (hsplits : ∀ t : PktType, t.framing.Splits t.maxLen
      (d.held t ++ es.flatMap fun e => e.bytes t) (fs t) (tail t)) :
    ∃ d' order, Transition.run (btStep A) es d = some d' ∧ (∀ t, framesOf t order = fs t) ∧
      ∃ entered l : List (List UInt8), d'.queue.Holds queueSize l ∧
        d'.read ++ l.flatten = d.queued.flatten ++ entered.flatten ∧
        entered.Sublist (order.map h4) ∧
        entered.length + d'.dropped = order.length + d.dropped := by
  have hd := reachable_ok hpre
  have hahead : Ahead d (fun t => (es.flatMap fun e => e.bytes t) ++ []) fs tail := by
    intro t
    simp only [List.append_nil]
    exact hsplits t
  obtain ⟨d', hrun, order, ⟨hreceived, fs', hfs, hrest⟩, hpasses⟩ :=
    takes_run hmem hd hready.2.2.1 (guarded_of_plain hplain d) hahead
  obtain ⟨entered, hqueued, hsub, hlen⟩ := (hpasses hplain).queued hready
  have hd' := run_exact hready.1 (hd.of_gapless hgapless) hfault hrun
  obtain ⟨l, hring, hstream⟩ := hd'.gapless
  refine ⟨d', order, hrun, fun t => ?_, entered, l, hring, ?_, hsub, hlen⟩
  · rw [hfs, (hrest.done hd'.bufs t).1, List.append_nil]
  · rw [hstream, hqueued, List.flatten_append]

theorem reader_gets_frames_cut : ∃ d' order,
    Transition.run (btStep plenty) cutTransfers openDevice = some d' ∧
      (∀ t, framesOf t order = cutFrames t) ∧
      ∃ entered l : List (List UInt8), d'.queue.Holds queueSize l ∧
        d'.read ++ l.flatten = openDevice.queued.flatten ++ entered.flatten ∧
        entered.Sublist (order.map h4) ∧
        entered.length + d'.dropped = order.length + openDevice.dropped := by
  have hempty : openDevice.queue.Holds queueSize [] :=
    ⟨by decide, by decide, rfl, fun _ _ h => by cases h⟩
  have hready : Ready plenty openDevice := ⟨fun _ => rfl, rfl, rfl, by decide⟩
  exact reader_gets_frames (fun _ _ => rfl) run_openDevice hready ⟨[], hempty, rfl⟩ (by decide)
    (fun count h => by simp [cutTransfers] at h) cutTransfers_splits

end Runs

end LonganPi.Bt
