import Mathlib.Data.List.Basic
import Mathlib.Data.List.GetD
import Mathlib.Tactic.ByContra
import Mathlib.Tactic.SplitIfs

/-!
# Splitting what was received

A transfer of the receive endpoint has packets one behind the other, each with its
length in the first two bytes.  The inner loop of `aicwf_process_rxframes` hands them
on.  The driver has two slips there: it looks at a buffer again that it has freed, and
`skb_pull` does nothing when the last packet is cut off, so that the loop does not end.

* `rx_split_iff`: what becomes of a transfer, for any content.
* `rx_split_hands_on`: when it is packets and nothing else, each is handed on as it is
  by itself.
-/

namespace LonganPi.Wifi

/-! ## The source -/

/-- The bytes behind `skb->data` and what lies behind them in memory. -/
abbrev RxMemory : Type := Nat → BitVec 8

/-- `RX_HWHRD_LEN`. -/
def rxHwhrdLen : Nat := 60

/-- `RX_ALIGNMENT`. -/
def rxAlignment : Nat := 4

/-- `USB_TYPE_CFG`. -/
def usbTypeCfg : BitVec 8 := 0x10

/-- `pkt_len` of the packet at `p`. -/
def pktLen (mem : RxMemory) (p : Nat) : Nat :=
  ((mem p).zeroExtend 16 ||| (mem (p + 1)).zeroExtend 16 <<< 8).toNat

/-- The packet is a message and not a frame. -/
def IsCfg (mem : RxMemory) (p : Nat) : Prop := mem (p + 2) &&& usbTypeCfg = usbTypeCfg

instance (mem : RxMemory) (p : Nat) : Decidable (IsCfg mem p) := by
  unfold IsCfg
  infer_instance

/-- How many bytes are copied: `aggr_len` of a frame, or `aggr_len + 4` of a message.
No length that gets here is near the end of a `u16`. -/
def copyLen (mem : RxMemory) (p : Nat) : Nat :=
  if IsCfg mem p then pktLen mem p + 4 else pktLen mem p + rxHwhrdLen

/-- How many bytes are pulled: `adjust_len` of a frame, or `adjust_len + 4` of a
message, which is aligned. -/
def pullLen (mem : RxMemory) (p : Nat) : Nat :=
  if IsCfg mem p then
    (if pktLen mem p % rxAlignment ≠ 0 then
      (pktLen mem p / rxAlignment + 1) * rxAlignment else pktLen mem p) + 4
  else pktLen mem p + rxHwhrdLen

/-- What is handed on: a frame to `rwnx_rxdataind_aicwf`, and a message, without its
header, to the function for its type. -/
inductive RxHanded where
  | rxdataind (bytes : List (BitVec 8))
  | handleMsg (bytes : List (BitVec 8))
  | txCfm (bytes : List (BitVec 8))
  | handlePrint (bytes : List (BitVec 8))
  deriving DecidableEq, Repr

/-- The bytes from `p` on. -/
def bytesAt (mem : RxMemory) (p n : Nat) : List (BitVec 8) :=
  (List.range n).map fun i => mem (p + i)

/-- What is handed on of the packet at `p`.  While the bus is down there is nobody for
an answer to a command. -/
def handOn (mem : RxMemory) (down : Bool) (p : Nat) : Option RxHanded :=
  if IsCfg mem p then
    let msg := bytesAt mem (p + 4) (pktLen mem p)
    if mem (p + 2) &&& 0x7f = 0x11 then (if down then none else some (.handleMsg msg))
    else if mem (p + 2) &&& 0x7f = 0x12 then some (.txCfm msg)
    else if mem (p + 2) &&& 0x7f = 0x13 then some (.handlePrint msg)
    else none
  else some (.rxdataind (bytesAt mem p (copyLen mem p)))

/-- The buffer, with `skb->data` and `skb->len`, and what was handed on.  `overran` says
that bytes behind the end were read. -/
structure RxSplit where
  data : Nat
  len : Nat
  handed : List RxHanded
  overran : Bool
  deriving DecidableEq, Repr

/-- `skb_pull`. -/
def RxSplit.skbPull (s : RxSplit) (n : Nat) : RxSplit :=
  if s.len < n then s else { s with data := s.data + n, len := s.len - n }

/-- How a round of the loop ends: with the next one, with the buffer freed behind the
loop, with `-EBADE`, or with a buffer that is freed and looked at again. -/
inductive RxRound where
  | again (s : RxSplit)
  | done (s : RxSplit)
  | ebade (s : RxSplit)
  | freed (s : RxSplit)
  deriving DecidableEq, Repr

/-- A round of the inner loop of `aicwf_process_rxframes`, with `aicwf_another_ptk`.
`alloc` is whether there is memory for the copy. -/
def rxRound (mem : RxMemory) (down alloc : Bool) (s : RxSplit) : RxRound :=
  if s.len = 0 then .done s
  else
    let s := { s with overran := s.overran || s.len < 2 }
    if pktLen mem s.data = 0 then .done s
    else if 1600 < pktLen mem s.data then .freed s
    else
      let s := { s with overran := s.overran || s.len < 3 }
      if alloc then
        .again ({ s with
          overran := s.overran || s.len < copyLen mem s.data
          handed := s.handed ++ (handOn mem down s.data).toList }.skbPull (pullLen mem s.data))
      else if IsCfg mem s.data then .ebade s
      else .again (s.skbPull (pullLen mem s.data))

/-- Rounds, each with the outcome of its allocation. -/
def rxRounds (mem : RxMemory) (down : Bool) : List Bool → RxSplit → RxRound
  | [], s => .again s
  | alloc :: allocs, s =>
    match rxRound mem down alloc s with
    | .again s' => rxRounds mem down allocs s'
    | r => r

/-- A transfer of `len` bytes. -/
def rxTransfer (len : Nat) : RxSplit := ⟨0, len, [], false⟩

/-! ## Packets -/

variable {mem : RxMemory} {down : Bool} {e p q n : Nat} {l : List Nat} {s : RxSplit}

/-- A whole packet starts at `p`, in a transfer that ends at `e`. -/
structure Whole (mem : RxMemory) (e p : Nat) : Prop where
  nonempty : pktLen mem p ≠ 0
  short : pktLen mem p ≤ 1600
  fits : p + pullLen mem p ≤ e

/-- From `p` to `q` there are whole packets, which start at the positions of the list. -/
inductive Packets (mem : RxMemory) (e : Nat) : Nat → List Nat → Nat → Prop where
  | nil (p : Nat) : Packets mem e p [] p
  | cons {p q : Nat} {l : List Nat} (hwhole : Whole mem e p)
      (hrest : Packets mem e (p + pullLen mem p) l q) : Packets mem e p (p :: l) q

/-- The transfer ends at `q`, or the rest of it starts with a length of 0. -/
def EndsAt (mem : RxMemory) (e q : Nat) : Prop := q = e ∨ q + 2 ≤ e ∧ pktLen mem q = 0

/-- The length at `q` is too large. -/
def TooLongAt (mem : RxMemory) (e q : Nat) : Prop := q < e ∧ 1600 < pktLen mem q

/-- The packet at `q` is cut off. -/
def CutAt (mem : RxMemory) (e q : Nat) : Prop :=
  q < e ∧ pktLen mem q ≠ 0 ∧ pktLen mem q ≤ 1600 ∧ e < q + pullLen mem q

theorem copyLen_le_pullLen (mem : RxMemory) (p : Nat) : copyLen mem p ≤ pullLen mem p := by
  unfold copyLen pullLen rxAlignment
  split_ifs
  · omega
  · exact Nat.le_refl _
  · exact Nat.le_refl _

theorem four_lt_copyLen (h : pktLen mem p ≠ 0) : 4 < copyLen mem p := by
  unfold copyLen rxHwhrdLen
  split_ifs <;> omega

/-- Behind the whole packets the transfer ends, or it goes on in one of three ways that
are none. -/
theorem exists_packets (mem : RxMemory) (e p : Nat) (hp : p ≤ e) :
    ∃ l q, Packets mem e p l q ∧ q ≤ e ∧ ¬ Whole mem e q := by
  by_cases h : Whole mem e p
  · have hlt : 4 < pullLen mem p :=
      Nat.lt_of_lt_of_le (four_lt_copyLen h.nonempty) (copyLen_le_pullLen mem p)
    obtain ⟨l, q, hpackets, hq, hnot⟩ := exists_packets mem e (p + pullLen mem p) h.fits
    exact ⟨p :: l, q, Packets.cons h hpackets, hq, hnot⟩
  · exact ⟨[], p, Packets.nil p, hp, h⟩
termination_by e - p
decreasing_by
  have := h.fits
  omega

/-- What is not a whole packet. -/
theorem tail_cases (hq : q ≤ e) (h : ¬ Whole mem e q) :
    EndsAt mem e q ∨ q + 1 = e ∧ pktLen mem q = 0 ∨ TooLongAt mem e q ∨ CutAt mem e q := by
  by_cases hend : q = e
  · exact Or.inl (Or.inl hend)
  · by_cases hzero : pktLen mem q = 0
    · by_cases htwo : q + 2 ≤ e
      · exact Or.inl (Or.inr ⟨htwo, hzero⟩)
      · exact Or.inr (Or.inl ⟨by omega, hzero⟩)
    · by_cases hlong : 1600 < pktLen mem q
      · exact Or.inr (Or.inr (Or.inl ⟨by omega, hlong⟩))
      · refine Or.inr (Or.inr (Or.inr ⟨by omega, hzero, by omega, ?_⟩))
        by_contra hfits
        exact h ⟨hzero, by omega, by omega⟩

/-! ## Rounds -/

/-- A whole packet is handed on, and the next round starts behind it. -/
theorem round_whole (h : Whole mem e p) (hs : List RxHanded) :
    rxRound mem down true ⟨p, e - p, hs, false⟩ =
      .again ⟨p + pullLen mem p, e - (p + pullLen mem p),
        hs ++ (handOn mem down p).toList, false⟩ := by
  have hcopy := four_lt_copyLen h.nonempty
  have hpull := copyLen_le_pullLen mem p
  have hfits := h.fits
  have hlen : ¬ e - p = 0 := by omega
  have hlong : ¬ 1600 < pktLen mem p := Nat.not_lt.mpr h.short
  have hshort : ¬ e - p < pullLen mem p := by omega
  have htwo : ¬ e - p < 2 := by omega
  have hthree : ¬ e - p < 3 := by omega
  have hover : ¬ e - p < copyLen mem p := by omega
  simp only [rxRound, RxSplit.skbPull, hlen, h.nonempty, hlong, hshort, htwo, hthree, hover,
    if_false, if_true, decide_false, Bool.or_false, Nat.sub_sub]

/-- The round of a packet that is cut off starts again. -/
theorem round_cut (down : Bool) (h : CutAt mem e p) (hs : List RxHanded) (overran : Bool) :
    ∃ hs' overran', rxRound mem down true ⟨p, e - p, hs, overran⟩ =
      .again ⟨p, e - p, hs', overran'⟩ := by
  obtain ⟨hlt, hne, hshort, hcut⟩ := h
  have hlen : ¬ e - p = 0 := by omega
  have hlong : ¬ 1600 < pktLen mem p := Nat.not_lt.mpr hshort
  have hpull : e - p < pullLen mem p := by omega
  simp only [rxRound, RxSplit.skbPull, hlen, hne, hlong, hpull, if_false, if_true]
  exact ⟨_, _, rfl⟩

theorem round_tooLong (down : Bool) (h : TooLongAt mem e p) (hs : List RxHanded) :
    ∃ s, rxRound mem down true ⟨p, e - p, hs, false⟩ = .freed s := by
  obtain ⟨hlt, hlong⟩ := h
  have hlen : ¬ e - p = 0 := by omega
  have hne : ¬ pktLen mem p = 0 := by omega
  simp only [rxRound, hlen, hne, hlong, if_false, if_true]
  exact ⟨_, rfl⟩

theorem round_ends (h : EndsAt mem e p) (hs : List RxHanded) :
    rxRound mem down true ⟨p, e - p, hs, false⟩ = .done ⟨p, e - p, hs, false⟩ := by
  rcases h with hend | ⟨htwo, hzero⟩
  · have hlen : e - p = 0 := by omega
    simp only [rxRound, hlen, if_true]
  · have hlen : ¬ e - p = 0 := by omega
    have hover : ¬ e - p < 2 := by omega
    simp only [rxRound, hlen, hzero, hover, if_false, if_true, decide_false, Bool.or_false]

/-- At the last byte the length is read behind the end. -/
theorem round_lastByte (hend : p + 1 = e) (hzero : pktLen mem p = 0) (hs : List RxHanded) :
    rxRound mem down true ⟨p, e - p, hs, false⟩ = .done ⟨p, e - p, hs, true⟩ := by
  have hlen : ¬ e - p = 0 := by omega
  have hover : e - p < 2 := by omega
  simp only [rxRound, hlen, hzero, hover, if_false, if_true, decide_true, Bool.or_true]

theorem rxRounds_append (as bs : List Bool) (s : RxSplit) :
    rxRounds mem down (as ++ bs) s =
      match rxRounds mem down as s with
      | .again s' => rxRounds mem down bs s'
      | r => r := by
  induction as generalizing s with
  | nil => rfl
  | cons a as ih =>
    simp only [List.cons_append, rxRounds]
    cases rxRound mem down a s with
    | again s' => exact ih s'
    | done s' => rfl
    | ebade s' => rfl
    | freed s' => rfl

/-! ## Transfers -/

/-- After a round for each of the whole packets they have been handed on. -/
theorem rounds_packets (h : Packets mem e p l q) (hs : List RxHanded) (n : Nat) :
    rxRounds mem down (List.replicate (l.length + n) true) ⟨p, e - p, hs, false⟩ =
      rxRounds mem down (List.replicate n true)
        ⟨q, e - q, hs ++ l.filterMap (handOn mem down), false⟩ := by
  induction h generalizing hs with
  | nil p =>
    rw [List.length_nil, Nat.zero_add, List.filterMap_nil, List.append_nil]
  | @cons p q l hwhole hrest ih =>
    have hcount : (p :: l).length + n = l.length + n + 1 := by
      rw [List.length_cons]
      omega
    have hhanded : hs ++ (p :: l).filterMap (handOn mem down) =
        hs ++ (handOn mem down p).toList ++ l.filterMap (handOn mem down) := by
      rw [List.filterMap_cons, List.append_assoc]
      cases handOn mem down p with
      | none => rfl
      | some x => rfl
    rw [hcount, List.replicate_succ, hhanded]
    simp only [rxRounds, round_whole hwhole]
    exact ih _

/-- At a packet that is cut off the loop stays. -/
theorem rounds_cut (down : Bool) (h : CutAt mem e q) (hs : List RxHanded) (overran : Bool)
    (n : Nat) :
    ∃ s, rxRounds mem down (List.replicate n true) ⟨q, e - q, hs, overran⟩ = .again s := by
  induction n generalizing hs overran with
  | zero => exact ⟨_, rfl⟩
  | succ n ih =>
    obtain ⟨hs', overran', hround⟩ := round_cut down h hs overran
    rw [List.replicate_succ]
    simp only [rxRounds, hround]
    exact ih hs' overran'

/-- The rounds of a transfer while there is memory. -/
def roundsOf (mem : RxMemory) (down : Bool) (e n : Nat) : RxRound :=
  rxRounds mem down (List.replicate n true) (rxTransfer e)

theorem roundsOf_packets (h : Packets mem e 0 l q) (n : Nat) :
    roundsOf mem down e (l.length + n) =
      rxRounds mem down (List.replicate n true)
        ⟨q, e - q, l.filterMap (handOn mem down), false⟩ :=
  rounds_packets h [] n

/-- A loop that has ended stays as it is. -/
theorem roundsOf_add {r : RxRound} (h : roundsOf mem down e n = r)
    (hend : ∀ s, r ≠ .again s) (k : Nat) : roundsOf mem down e (n + k) = r := by
  unfold roundsOf at h ⊢
  rw [List.replicate_add, rxRounds_append, h]
  cases r with
  | again s => exact absurd rfl (hend s)
  | done s => rfl
  | ebade s => rfl
  | freed s => rfl

/-- The loop ends in one way only. -/
theorem roundsOf_unique {m : Nat} {r r' : RxRound} (h : roundsOf mem down e n = r)
    (h' : roundsOf mem down e m = r') (hend : ∀ s, r ≠ .again s) (hend' : ∀ s, r' ≠ .again s) :
    r = r' := by
  have hn := roundsOf_add h hend m
  have hm := roundsOf_add h' hend' n
  rw [Nat.add_comm] at hm
  exact hn.symm.trans hm

theorem roundsOf_ends (h : Packets mem e 0 l q) (hend : EndsAt mem e q) :
    roundsOf mem down e (l.length + 1) =
      .done ⟨q, e - q, l.filterMap (handOn mem down), false⟩ := by
  rw [roundsOf_packets h]
  simp only [List.replicate_succ, rxRounds, round_ends hend]

theorem roundsOf_lastByte (h : Packets mem e 0 l q) (hend : q + 1 = e)
    (hzero : pktLen mem q = 0) :
    roundsOf mem down e (l.length + 1) =
      .done ⟨q, e - q, l.filterMap (handOn mem down), true⟩ := by
  rw [roundsOf_packets h]
  simp only [List.replicate_succ, rxRounds, round_lastByte hend hzero]

theorem roundsOf_tooLong (down : Bool) (h : Packets mem e 0 l q) (hlong : TooLongAt mem e q) :
    ∃ s, roundsOf mem down e (l.length + 1) = .freed s := by
  obtain ⟨s, hs⟩ := round_tooLong down hlong (l.filterMap (handOn mem down))
  rw [roundsOf_packets h]
  simp only [List.replicate_succ, rxRounds, hs]
  exact ⟨s, rfl⟩

theorem roundsOf_cut (down : Bool) (h : Packets mem e 0 l q) (hcut : CutAt mem e q) (n : Nat) :
    ∃ s, roundsOf mem down e n = .again s := by
  obtain ⟨s, hs⟩ := rounds_cut down hcut (l.filterMap (handOn mem down)) false n
  rw [← roundsOf_packets h] at hs
  cases hn : roundsOf mem down e n with
  | again s' => exact ⟨s', rfl⟩
  | done s' =>
    have hadd := roundsOf_add hn (fun _ heq => by cases heq) l.length
    rw [Nat.add_comm, hs] at hadd
    cases hadd
  | ebade s' =>
    have hadd := roundsOf_add hn (fun _ heq => by cases heq) l.length
    rw [Nat.add_comm, hs] at hadd
    cases hadd
  | freed s' =>
    have hadd := roundsOf_add hn (fun _ heq => by cases heq) l.length
    rw [Nat.add_comm, hs] at hadd
    cases hadd

/-- Whatever a transfer has, while there is memory: the loop frees it once and has read
nothing behind its end exactly when it is whole packets up to its end or to a length of
0.  It looks at the freed buffer exactly when whole packets are followed by a length
that is too large, and it does not end exactly when they are followed by one that is
cut off. -/
theorem rx_split_iff (mem : RxMemory) (down : Bool) (e : Nat) :
    ((∃ n s, roundsOf mem down e n = .done s ∧ s.overran = false) ↔
      ∃ l q, Packets mem e 0 l q ∧ EndsAt mem e q) ∧
    ((∃ n s, roundsOf mem down e n = .freed s) ↔
      ∃ l q, Packets mem e 0 l q ∧ TooLongAt mem e q) ∧
    ((∀ n, ∃ s, roundsOf mem down e n = .again s) ↔
      ∃ l q, Packets mem e 0 l q ∧ CutAt mem e q) := by
  obtain ⟨l, q, hpackets, hq, hnot⟩ := exists_packets mem e 0 (Nat.zero_le e)
  have htail := tail_cases hq hnot
  refine ⟨⟨?_, ?_⟩, ⟨?_, ?_⟩, ⟨?_, ?_⟩⟩
  · rintro ⟨n, s, hdone, hover⟩
    rcases htail with hend | ⟨hend, hzero⟩ | hlong | hcut
    · exact ⟨l, q, hpackets, hend⟩
    · have heq := roundsOf_unique hdone (roundsOf_lastByte hpackets hend hzero)
        (fun _ h => by cases h) (fun _ h => by cases h)
      rw [RxRound.done.inj heq] at hover
      cases hover
    · obtain ⟨s', hs'⟩ := roundsOf_tooLong down hpackets hlong
      cases roundsOf_unique hdone hs' (fun _ h => by cases h) (fun _ h => by cases h)
    · obtain ⟨s', hs'⟩ := roundsOf_cut down hpackets hcut n
      rw [hdone] at hs'
      cases hs'
  · rintro ⟨l, q, hpackets, hend⟩
    exact ⟨_, _, roundsOf_ends hpackets hend, rfl⟩
  · rintro ⟨n, s, hfreed⟩
    rcases htail with hend | ⟨hend, hzero⟩ | hlong | hcut
    · cases roundsOf_unique hfreed (roundsOf_ends hpackets hend)
        (fun _ h => by cases h) (fun _ h => by cases h)
    · cases roundsOf_unique hfreed (roundsOf_lastByte hpackets hend hzero)
        (fun _ h => by cases h) (fun _ h => by cases h)
    · exact ⟨l, q, hpackets, hlong⟩
    · obtain ⟨s', hs'⟩ := roundsOf_cut down hpackets hcut n
      rw [hfreed] at hs'
      cases hs'
  · rintro ⟨l, q, hpackets, hlong⟩
    exact ⟨_, roundsOf_tooLong down hpackets hlong⟩
  · intro hagain
    rcases htail with hend | ⟨hend, hzero⟩ | hlong | hcut
    · obtain ⟨s, hs⟩ := hagain (l.length + 1)
      rw [roundsOf_ends hpackets hend] at hs
      cases hs
    · obtain ⟨s, hs⟩ := hagain (l.length + 1)
      rw [roundsOf_lastByte hpackets hend hzero] at hs
      cases hs
    · obtain ⟨s, hs⟩ := hagain (l.length + 1)
      obtain ⟨s', hs'⟩ := roundsOf_tooLong down hpackets hlong
      rw [hs'] at hs
      cases hs
    · exact ⟨l, q, hpackets, hcut⟩
  · rintro ⟨l, q, hpackets, hcut⟩
    exact roundsOf_cut down hpackets hcut

/-! ## What is handed on -/

/-- Memory that starts with some bytes. -/
def memoryOf (b : List (BitVec 8)) : RxMemory := fun i => b.getD i 0

/-- The bytes of one packet, with what a message has behind it to be aligned. -/
structure IsPacket (b : List (BitVec 8)) : Prop where
  nonempty : pktLen (memoryOf b) 0 ≠ 0
  short : pktLen (memoryOf b) 0 ≤ 1600
  length : b.length = pullLen (memoryOf b) 0

/-- The bytes `b` stand at `p`. -/
def BytesAt (mem : RxMemory) (p : Nat) (b : List (BitVec 8)) : Prop :=
  ∀ i < b.length, mem (p + i) = memoryOf b i

variable {b : List (BitVec 8)}

theorem bytesAt_flatten (pre : List (BitVec 8)) (b post : List (BitVec 8)) :
    BytesAt (memoryOf (pre ++ (b ++ post))) pre.length b := by
  intro i hi
  unfold memoryOf
  rw [List.getD_append_right _ _ _ _ (Nat.le_add_right _ _), Nat.add_sub_cancel_left,
    List.getD_append _ _ _ _ hi]

/-- The bytes are the same at their place in the transfer. -/
theorem BytesAt.bytesAt_eq (hat : BytesAt mem p b) {i n : Nat} (hle : i + n ≤ b.length) :
    bytesAt mem (p + i) n = bytesAt (memoryOf b) (0 + i) n := by
  refine List.map_congr_left fun j hj => ?_
  have hlt : j < n := List.mem_range.mp hj
  have hbyte := hat (i + j) (by omega)
  rw [Nat.zero_add, Nat.add_assoc]
  exact hbyte

namespace IsPacket

theorem copyLen_le (h : IsPacket b) : copyLen (memoryOf b) 0 ≤ b.length :=
  h.length ▸ copyLen_le_pullLen _ 0

theorem four_lt (h : IsPacket b) : 4 < b.length :=
  Nat.lt_of_lt_of_le (four_lt_copyLen h.nonempty) h.copyLen_le

variable (h : IsPacket b) (hat : BytesAt mem p b)
include h hat

theorem pktLen_eq : pktLen mem p = pktLen (memoryOf b) 0 := by
  have hlen := h.four_lt
  have h0 : mem p = memoryOf b 0 := hat 0 (by omega)
  have h1 : mem (p + 1) = memoryOf b 1 := hat 1 (by omega)
  unfold pktLen
  rw [h0, h1]

theorem type_eq : mem (p + 2) = memoryOf b (0 + 2) := by
  have hlen := h.four_lt
  exact hat 2 (by omega)

theorem isCfg_iff : IsCfg mem p ↔ IsCfg (memoryOf b) 0 := by
  unfold IsCfg
  rw [h.type_eq hat]

theorem copyLen_eq : copyLen mem p = copyLen (memoryOf b) 0 := by
  unfold copyLen
  simp only [h.isCfg_iff hat, h.pktLen_eq hat]

theorem pullLen_eq : pullLen mem p = b.length := by
  rw [h.length]
  unfold pullLen
  simp only [h.isCfg_iff hat, h.pktLen_eq hat]

/-- A packet is handed on as it is by itself. -/
theorem handOn_eq : handOn mem down p = handOn (memoryOf b) down 0 := by
  have hcopy := h.copyLen_le
  unfold handOn
  by_cases hcfg : IsCfg (memoryOf b) 0
  · have hfour : 4 + pktLen (memoryOf b) 0 ≤ b.length := by
      unfold copyLen at hcopy
      rw [if_pos hcfg] at hcopy
      omega
    rw [if_pos hcfg, if_pos ((h.isCfg_iff hat).mpr hcfg), h.pktLen_eq hat, h.type_eq hat,
      hat.bytesAt_eq hfour]
  · have hall : 0 + copyLen (memoryOf b) 0 ≤ b.length := by omega
    rw [if_neg hcfg, if_neg fun hc => hcfg ((h.isCfg_iff hat).mp hc), h.copyLen_eq hat]
    exact congrArg (fun x => some (RxHanded.rxdataind x)) (hat.bytesAt_eq hall)

theorem whole {e : Nat} (hfits : p + b.length ≤ e) : Whole mem e p where
  nonempty := h.pktLen_eq hat ▸ h.nonempty
  short := h.pktLen_eq hat ▸ h.short
  fits := h.pullLen_eq hat ▸ hfits

end IsPacket

/-- Packets one behind the other are whole packets, and each is handed on as it is by
itself. -/
theorem packets_flatten (bs : List (List (BitVec 8))) (hbs : ∀ b ∈ bs, IsPacket b)
    (pre : List (BitVec 8)) (down : Bool) :
    ∃ l, Packets (memoryOf (pre ++ bs.flatten)) (pre ++ bs.flatten).length pre.length l
        (pre ++ bs.flatten).length ∧
      l.filterMap (handOn (memoryOf (pre ++ bs.flatten)) down) =
        bs.filterMap fun b => handOn (memoryOf b) down 0 := by
  induction bs generalizing pre with
  | nil =>
    rw [List.flatten_nil, List.append_nil]
    exact ⟨[], Packets.nil _, rfl⟩
  | cons b bs ih =>
    have hb := hbs b List.mem_cons_self
    have hat := bytesAt_flatten pre b bs.flatten
    obtain ⟨l, hpackets, hhanded⟩ := ih (fun b' hb' => hbs b' (List.mem_cons_of_mem b hb'))
      (pre ++ b)
    rw [List.append_assoc] at hpackets hhanded
    rw [List.flatten_cons]
    have hpull := hb.pullLen_eq hat
    refine ⟨pre.length :: l, Packets.cons (hb.whole hat ?_) ?_, ?_⟩
    · rw [List.length_append, List.length_append]
      omega
    · rw [hpull, ← List.length_append]
      exact hpackets
    · rw [List.filterMap_cons, List.filterMap_cons, hb.handOn_eq hat, hhanded]

/-- Packets that come in one transfer are handed on in their order, each once and as it
is by itself. -/
theorem rx_split_hands_on (bs : List (List (BitVec 8))) (down : Bool)
    (hbs : ∀ b ∈ bs, IsPacket b) :
    ∃ n s, roundsOf (memoryOf bs.flatten) down bs.flatten.length n = .done s ∧
      s.handed = bs.filterMap (fun b => handOn (memoryOf b) down 0) ∧ s.overran = false := by
  obtain ⟨l, hpackets, hhanded⟩ := packets_flatten bs hbs [] down
  exact ⟨_, _, roundsOf_ends hpackets (Or.inl rfl), hhanded, rfl⟩

/-- A confirmation with one byte, and an answer with four. -/
def twoMessages : List (List (BitVec 8)) :=
  [[1, 0, 0x12, 0, 7, 0, 0, 0], [4, 0, 0x11, 0, 1, 2, 3, 4]]

theorem rx_split_hands_on_two :
    ∃ n s, roundsOf (memoryOf twoMessages.flatten) false 16 n = .done s ∧
      s.handed = [.txCfm [7], .handleMsg [1, 2, 3, 4]] ∧ s.overran = false := by
  refine rx_split_hands_on twoMessages false fun b hb => ?_
  rcases List.mem_cons.mp hb with rfl | hb
  · exact ⟨by decide, by decide, by decide⟩
  · rw [List.mem_singleton.mp hb]
    exact ⟨by decide, by decide, by decide⟩

end LonganPi.Wifi
