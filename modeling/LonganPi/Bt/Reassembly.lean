import LonganPi.Bt.HciUsb
import LonganPi.Lib.StreamFraming

/-!
# Reassembly

`expect` is what is missing in a buffer, as far as the header tells, and there is
room for it.  So `hci_reassembly` does one of three things with the bytes that it is
given: it keeps them all, it takes those that complete a frame, or it gives up on a
header that announces too much (`Reassembled`).

* `recvFragment_rule`: what holds while `hci_recv_fragment` goes on in this way
  holds when it returns, and it does return.
-/

namespace LonganPi.Bt

namespace PktType

/-- The frames of one type. -/
def framing (t : PktType) : Framing UInt8 := ⟨t.hdrSize, t.dlen⟩

/-- How much may follow the header. -/
def maxLen (t : PktType) : Nat := t.maxSize - t.hdrSize

theorem hdrSize_pos (t : PktType) : 0 < t.hdrSize := by cases t <;> decide

theorem hdrSize_le (t : PktType) : t.hdrSize ≤ t.maxSize := by cases t <;> decide

end PktType

/-! ## One buffer -/

/-- A buffer with the start of a frame. -/
structure Counts (t : PktType) (skb : SkBuff) : Prop where
  need_eq : t.framing.need skb.data = skb.data.length + skb.expect
  fits : skb.data.length + skb.expect ≤ skb.room
  maxSize_le : t.maxSize ≤ skb.room

/-- A buffer that is kept: its frame is not complete. -/
structure BufferOk (t : PktType) (skb : SkBuff) : Prop extends Counts t skb where
  expect_pos : 0 < skb.expect

theorem bufferOk_empty {t : PktType} {room : Nat} (h : t.maxSize ≤ room) :
    BufferOk t ⟨[], room, t.hdrSize⟩ where
  need_eq := by
    have hlt : ([] : List UInt8).length < t.framing.hdr := t.hdrSize_pos
    rw [Framing.need_of_lt hlt]
    exact (Nat.zero_add _).symm
  fits := by
    show 0 + t.hdrSize ≤ room
    rw [Nat.zero_add]
    exact Nat.le_trans t.hdrSize_le h
  maxSize_le := h
  expect_pos := t.hdrSize_pos

section Buffer

variable {t : PktType} {skb skb' : SkBuff} {bytes data r : List UInt8}

theorem BufferOk.isPartial (h : BufferOk t skb) : t.framing.IsPartial skb.data := by
  show skb.data.length < t.framing.need skb.data
  rw [h.need_eq]
  exact Nat.lt_add_of_pos_right h.expect_pos

/-- Nothing is missing. -/
theorem Counts.isFrame (h : Counts t skb) (hexpect : skb.expect = 0) :
    t.framing.IsFrame skb.data := by
  have hneed : t.framing.need skb.data = skb.data.length := by rw [h.need_eq, hexpect, Nat.add_zero]
  refine ⟨?_, hneed.symm⟩
  rw [← hneed]
  show t.framing.hdr ≤ t.framing.need skb.data
  unfold Framing.need
  split_ifs
  · exact Nat.le_refl _
  · exact Nat.le_add_right _ _

theorem Counts.skbPut (h : Counts t skb) (hlen : bytes.length ≤ skb.expect) :
    skbPut skb bytes = some { skb with data := skb.data ++ bytes } :=
  if_pos (Nat.le_trans (Nat.add_le_add_left hlen _) h.fits)

/-- The header, once it is complete, is read when its last byte comes. -/
theorem readHeader_spec (h : Counts t skb) (hlen : bytes.length ≤ skb.expect)
    (hne : bytes ≠ []) :
    (readHeader t ⟨skb.data ++ bytes, skb.room, skb.expect - bytes.length⟩ = none ∧
      ¬ t.framing.Fits t.maxLen (skb.data ++ bytes)) ∨
    ∃ skb', readHeader t ⟨skb.data ++ bytes, skb.room, skb.expect - bytes.length⟩ = some skb' ∧
      skb'.data = skb.data ++ bytes ∧ Counts t skb' := by
  have hpos : 0 < bytes.length := List.length_pos_of_ne_nil hne
  have hneed := h.need_eq
  have hfits := h.fits
  have hroom := h.maxSize_le
  have hhdr : t.framing.hdr = t.hdrSize := rfl
  have happ : (skb.data ++ bytes).length = skb.data.length + bytes.length := List.length_append
  unfold readHeader
  by_cases hfull : (skb.data ++ bytes).length = t.hdrSize
  · have htake : (skb.data ++ bytes).take t.framing.hdr = skb.data ++ bytes :=
      List.take_of_length_le (Nat.le_of_eq hfull)
    have hsize : t.framing.size (skb.data ++ bytes) = t.dlen (skb.data ++ bytes) := rfl
    rw [if_pos hfull]
    split_ifs with hbig
    · left
      refine ⟨rfl, fun hfit => ?_⟩
      have hle := hfit (Nat.le_of_eq hfull.symm)
      rw [htake, hsize] at hle
      have hmax : t.maxLen = t.maxSize - t.hdrSize := rfl
      simp only at hbig
      omega
    · right
      refine ⟨_, rfl, rfl, ?_, ?_, hroom⟩
      · show t.framing.need (skb.data ++ bytes) = _
        rw [Framing.need_of_le (Nat.le_of_eq hfull.symm), htake, hsize]
        show t.hdrSize + _ = (skb.data ++ bytes).length + _
        rw [hfull]
      · show (skb.data ++ bytes).length + t.dlen (skb.data ++ bytes) ≤ skb.room
        simp only at hbig
        omega
  · rw [if_neg hfull]
    right
    refine ⟨_, rfl, rfl, ?_, ?_, hroom⟩
    · show t.framing.need (skb.data ++ bytes)
        = (skb.data ++ bytes).length + (skb.expect - bytes.length)
      rcases Nat.lt_or_ge skb.data.length t.hdrSize with hlt | hge
      · rw [Framing.need_of_lt hlt] at hneed
        rw [Framing.need_of_lt (by omega)]
        omega
      · rw [Framing.need_of_start (List.prefix_append _ _) hge]
        omega
    · show (skb.data ++ bytes).length + (skb.expect - bytes.length) ≤ skb.room
      omega

end Buffer

/-! ## `hci_reassembly` -/

section Device

variable {A : Allocator} {t : PktType} {d d' : HciDev} {r p data rest : List UInt8}
  {res : Except Int (List UInt8)}

/-- What `hci_reassembly` does with `data` when the buffer has `r`. -/
inductive Reassembled (A : Allocator) (t : PktType) (d : HciDev) (r data : List UInt8) :
    HciDev → Except Int (List UInt8) → Prop
  | more {skb : SkBuff} (hb : BufferOk t skb) (hdata : skb.data = r ++ data) :
    Reassembled A t d r data (d.setReassembly t (some skb)) (.ok [])
  | frame {pre rest : List UInt8} (hdata : data = pre ++ rest) (hne : pre ≠ [])
    (hf : t.framing.IsFrame (r ++ pre)) :
    Reassembled A t d r data ((d.hciRecvFrame A t (r ++ pre)).setReassembly t none) (.ok rest)
  | oversize (hbig : ¬ t.framing.Fits t.maxLen (r ++ data)) :
    Reassembled A t d r data (d.kfreeSkb.setReassembly t none) (.error eNomem)

/-- The bytes `p` were put into the buffer before. -/
theorem Reassembled.shift (h : Reassembled A t d (r ++ p) data d' res) :
    Reassembled A t d r (p ++ data) d' res := by
  cases h with
  | more hb hdata => exact .more hb (hdata.trans (List.append_assoc r p data))
  | @frame pre rest hdata hne hf =>
    have hdata' : p ++ data = p ++ pre ++ rest := by rw [hdata, List.append_assoc]
    rw [List.append_assoc] at hf ⊢
    exact .frame hdata' (fun hnil => hne (List.append_eq_nil_iff.mp hnil).2) hf
  | oversize hbig =>
    rw [List.append_assoc] at hbig
    exact .oversize hbig

theorem reassemblyLoop_spec {n : Nat} {skb : SkBuff} (hb : BufferOk t skb) (hne : data ≠ [])
    (hn : data.length ≤ n) : ∃ d' res, HciDev.reassemblyLoop A t n d skb data = some (d', res) ∧
      Reassembled A t d skb.data data d' res := by
  induction n generalizing skb data with
  | zero => exact absurd (List.length_eq_zero_iff.mp (Nat.le_zero.mp hn)) hne
  | succ n ih =>
    have hpos := List.length_pos_of_ne_nil hne
    have hexpect := hb.expect_pos
    have hlen : (data.take (min skb.expect data.length)).length = min skb.expect data.length := by
      rw [List.length_take]
      omega
    have hle : (data.take (min skb.expect data.length)).length ≤ skb.expect := by omega
    have htake : data.take (min skb.expect data.length) ≠ [] := by
      apply List.ne_nil_of_length_pos
      omega
    have hsplit := (List.take_append_drop (min skb.expect data.length) data).symm
    have hspec := readHeader_spec hb.toCounts hle htake
    rw [hlen] at hspec
    unfold HciDev.reassemblyLoop
    rw [if_neg hne]
    simp only [hb.skbPut hle]
    rcases hspec with ⟨hnone, hbig⟩ | ⟨skb', hsome, hdata, hcounts⟩
    · simp only [hnone]
      refine ⟨_, _, rfl, .oversize fun hfit => hbig (hfit.of_start ?_)⟩
      rw [List.prefix_append_right_inj]
      exact List.take_prefix _ _
    · simp only [hsome]
      split_ifs with hzero
      · have hf := hcounts.isFrame hzero
        rw [hdata] at hf ⊢
        exact ⟨_, _, rfl, .frame hsplit htake hf⟩
      · have hb' : BufferOk t skb' := ⟨hcounts, Nat.pos_of_ne_zero hzero⟩
        -- the buffer has all that came, or its header and part of the rest
        by_cases hdrop : data.drop (min skb.expect data.length) = []
        · have hall : data.take (min skb.expect data.length) = data := by
            rw [hdrop, List.append_nil] at hsplit
            exact hsplit.symm
          rw [hall] at hdata
          rw [hdrop]
          refine ⟨d.setReassembly t (some skb'), .ok [], ?_, .more hb' hdata⟩
          cases n with
          | zero => rfl
          | succ n => rfl
        · obtain ⟨d', res, hrun, hres⟩ := ih hb' hdrop (by rw [List.length_drop]; omega)
          rw [hdata] at hres
          refine ⟨d', res, hrun, ?_⟩
          rw [hsplit]
          exact hres.shift

/-- Every buffer that is kept is one with the start of a frame. -/
def BuffersOk (d : HciDev) : Prop := ∀ t skb, d.reassembly t = some skb → BufferOk t skb

/-- A new buffer of one type. -/
def HciDev.startBuffer (d : HciDev) (t : PktType) (room : Nat) : HciDev :=
  { d with calls := d.calls + 1, allocated := d.allocated + 1 }.setReassembly t
    (some ⟨[], room, t.hdrSize⟩)

theorem HciDev.setReassembly_self (d : HciDev) (t : PktType) (skb : Option SkBuff) :
    (d.setReassembly t skb).reassembly t = skb := Function.update_self _ _ _

theorem HciDev.setReassembly_of_ne (d : HciDev) {t u : PktType} (skb : Option SkBuff)
    (h : u ≠ t) : (d.setReassembly t skb).reassembly u = d.reassembly u :=
  Function.update_of_ne h _ _

theorem BuffersOk.set (h : BuffersOk d) {o : Option SkBuff}
    (ho : ∀ skb, o = some skb → BufferOk t skb) : BuffersOk (d.setReassembly t o) := by
  intro u skb hu
  by_cases hut : u = t
  · subst hut
    rw [d.setReassembly_self] at hu
    exact ho skb hu
  · rw [d.setReassembly_of_ne o hut] at hu
    exact h u skb hu

theorem hciRecvFrame_reassembly (A : Allocator) (d : HciDev) (t : PktType) (f : List UInt8) :
    (d.hciRecvFrame A t f).reassembly = d.reassembly := by
  unfold HciDev.hciRecvFrame HciDev.hciSendToStack HciDev.aicEnqueue HciDev.kfreeSkb
  simp only
  split_ifs <;> rfl

theorem BuffersOk.startBuffer (h : BuffersOk d) {room : Nat} (hroom : t.maxSize ≤ room) :
    BuffersOk (d.startBuffer t room) := by
  refine BuffersOk.set (d := { d with calls := d.calls + 1, allocated := d.allocated + 1 }) h
    fun skb hskb => ?_
  rw [← Option.some.inj hskb]
  exact bufferOk_empty hroom

theorem Reassembled.buffersOk (hres : Reassembled A t d r data d' res) (h : BuffersOk d) :
    BuffersOk d' := by
  cases hres with
  | more hb hdata =>
    refine h.set fun skb hskb => ?_
    rw [← Option.some.inj hskb]
    exact hb
  | frame hdata hne hf =>
    refine BuffersOk.set (fun u skb hskb => h u skb ?_) fun _ hskb => (by cases hskb)
    rwa [hciRecvFrame_reassembly] at hskb
  | oversize hbig => exact BuffersOk.set (d := d.kfreeSkb) h fun _ hskb => (by cases hskb)

theorem hciReassembly_some {skb : SkBuff} (hbufs : BuffersOk d) (hd : d.reassembly t = some skb)
    (hne : data ≠ []) : ∃ d' res, d.hciReassembly A t data = some (d', res) ∧
      Reassembled A t d skb.data data d' res := by
  unfold HciDev.hciReassembly
  rw [hd]
  exact reassemblyLoop_spec (hbufs t skb hd) hne (Nat.le_refl _)

theorem hciReassembly_start {room : Nat} (hd : d.reassembly t = none)
    (halloc : A.alloc d.calls t.maxSize = some room) :
    d.hciReassembly A t data = (d.startBuffer t room).hciReassembly A t data := by
  have hself : (d.startBuffer t room).reassembly t = some ⟨[], room, t.hdrSize⟩ :=
    HciDev.setReassembly_self _ _ _
  unfold HciDev.hciReassembly
  rw [hself, hd]
  simp only [halloc]
  rfl

theorem hciReassembly_fails (hd : d.reassembly t = none)
    (halloc : A.alloc d.calls t.maxSize = none) :
    d.hciReassembly A t data = some ({ d with calls := d.calls + 1 }, .error eNomem) := by
  unfold HciDev.hciReassembly
  rw [hd]
  simp only [halloc]

/-- The rule for `hci_recv_fragment`.  `I d data` holds when `data` is still to be
taken. -/
theorem recvFragment_rule {I : HciDev → List UInt8 → Prop} {Q : HciDev → Prop}
    (hfails : ∀ d data, I d data → d.reassembly t = none →
      A.alloc d.calls t.maxSize = none → Q { d with calls := d.calls + 1 })
    (hstart : ∀ d data room, I d data → d.reassembly t = none → I (d.startBuffer t room) data)
    (hok : ∀ d skb data d' rest, I d data → d.reassembly t = some skb →
      Reassembled A t d skb.data data d' (.ok rest) → I d' rest)
    (herror : ∀ d skb data d' e, I d data → d.reassembly t = some skb →
      Reassembled A t d skb.data data d' (.error e) → Q d')
    (hdone : ∀ d, I d [] → Q d) (hbufs : BuffersOk d) (data : List UInt8) (h : I d data) :
    ∃ d' ret, d.hciRecvFragment A t data = some (d', ret) ∧ BuffersOk d' ∧ Q d' := by
  have hloop : ∀ n d data, data.length ≤ n → BuffersOk d → I d data →
      ∃ d' ret, HciDev.recvLoop A t n d data = some (d', ret) ∧ BuffersOk d' ∧ Q d' := by
    intro n
    induction n with
    | zero =>
      intro d data hn hbufs hI
      rw [List.length_eq_zero_iff.mp (Nat.le_zero.mp hn)] at hI
      exact ⟨d, 0, rfl, hbufs, hdone d hI⟩
    | succ n ih =>
      intro d data hn hbufs hI
      by_cases hne : data = []
      · unfold HciDev.recvLoop
        rw [if_pos hne]
        rw [hne] at hI
        exact ⟨d, 0, rfl, hbufs, hdone d hI⟩
      -- with a buffer, an old one or a new one
      have hbuffer : ∀ d₁ skb, BuffersOk d₁ → I d₁ data → d₁.reassembly t = some skb →
          d.hciReassembly A t data = d₁.hciReassembly A t data →
          ∃ d' ret, HciDev.recvLoop A t (n + 1) d data = some (d', ret) ∧
            BuffersOk d' ∧ Q d' := by
        intro d₁ skb hbufs₁ hI₁ hskb heq
        obtain ⟨d', res, hrun, hres⟩ := hciReassembly_some (A := A) hbufs₁ hskb hne
        have hbufs' := hres.buffersOk hbufs₁
        unfold HciDev.recvLoop
        rw [if_neg hne, heq, hrun]
        cases res with
        | error e => exact ⟨_, _, rfl, hbufs', herror d₁ skb data d' e hI₁ hskb hres⟩
        | ok rest =>
          refine ih d' rest ?_ hbufs' (hok d₁ skb data d' rest hI₁ hskb hres)
          cases hres with
          | more hb hdata => exact Nat.zero_le n
          | frame hdata hpre hf =>
            have hpos := List.length_pos_of_ne_nil hpre
            rw [hdata, List.length_append] at hn
            omega
      cases hd : d.reassembly t with
      | some skb => exact hbuffer d skb hbufs hI hd rfl
      | none =>
        cases halloc : A.alloc d.calls t.maxSize with
        | none =>
          unfold HciDev.recvLoop
          rw [if_neg hne, hciReassembly_fails hd halloc]
          exact ⟨_, _, rfl, hbufs, hfails d data hI hd halloc⟩
        | some room =>
          exact hbuffer _ _ (hbufs.startBuffer (A.le_room _ _ _ halloc))
            (hstart d data room hI hd) (HciDev.setReassembly_self _ _ _)
            (hciReassembly_start hd halloc)
  exact hloop data.length d data (Nat.le_refl _) hbufs h

end Device

end LonganPi.Bt
