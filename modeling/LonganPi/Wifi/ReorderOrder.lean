import LonganPi.Lib.ReorderBuffer
import LonganPi.Lib.SerialNumber
import LonganPi.Wifi.Reorder
import Mathlib.Data.Nat.Bitwise

/-!
# The order of the frames of one traffic class

The driver knows 12 bits of a frame's number.  As long as a frame's number is
within half of the circle of the largest one so far, the driver passes on the
same frames in the same order as a reorder buffer that knows the whole numbers.

* `reord_refines`: this, over every run of frames and timeouts.
* `reord_recovers`: frames that come less than a window late leave in order, and
  none is lost.
-/

namespace LonganPi.Wifi

open ReorderBuffer

/-! ## The comparison of sequence numbers -/

theorem ofInt_toNat_16 (i : Int) : ((BitVec.ofInt 16 i).toNat : Int) = i % 65536 := by
  rw [BitVec.toNat_ofInt]
  omega

theorem and_0xFFF_toNat (x : BitVec 16) : (x &&& 0xFFF#16).toNat = x.toNat % 4096 := by
  rw [BitVec.toNat_and]
  exact Nat.and_two_pow_sub_one_eq_mod x.toNat 12

theorem and_0x800_ne_zero (x : BitVec 32) :
    (x &&& 0x800#32 != 0#32) = decide (2048 ≤ x.toNat % 4096) := by
  have hbit : (x &&& 0x800#32 = 0#32) ↔ x.toNat / 2048 % 2 = 0 := by
    rw [← BitVec.toNat_inj, BitVec.toNat_and]
    show x.toNat &&& 2 ^ 11 = 0 ↔ _
    rw [Nat.and_two_pow, Nat.testBit_eq_decide_div_mod_eq]
    by_cases hodd : x.toNat / 2 ^ 11 % 2 = 1
    · rw [decide_eq_true hodd]
      show 1 * 2 ^ 11 = 0 ↔ _
      omega
    · rw [decide_eq_false hodd]
      show 0 * 2 ^ 11 = 0 ↔ _
      omega
  rw [bne, Bool.eq_iff_iff, Bool.not_eq_true', beq_eq_false_iff_ne, decide_eq_true_iff,
    ne_eq, hbit]
  omega

/-- `SN_LESS` compares on the circle of 4096 numbers. -/
theorem snLess_iff (a b : BitVec 16) :
    snLess a b = true ↔ SerialNumber.Before 2048 a.toNat b.toNat := by
  have hmod : ((BitVec.ofInt 32 ((a.toNat : Int) - b.toNat)).toNat : Int) =
      ((a.toNat : Int) - b.toNat) % 4294967296 := by
    rw [BitVec.toNat_ofInt]
    omega
  unfold snLess SerialNumber.Before
  rw [and_0x800_ne_zero, decide_eq_true_iff]
  push_cast
  omega

/-- It compares close numbers as they are. -/
theorem snLess_eq {a b : BitVec 16} {x y : Nat} (ha : a.toNat = x % 4096)
    (hb : b.toNat = y % 4096) (hlo : y ≤ x + 2048) (hhi : x < y + 2048) :
    snLess a b = decide (x < y) := by
  rw [Bool.eq_iff_iff, snLess_iff, decide_eq_true_iff, ha, hb]
  exact SerialNumber.before_mod_iff hlo hhi

theorem seqNum_eq_iff {a b : BitVec 16} {x y : Nat} (ha : a.toNat = x % 4096)
    (hb : b.toNat = y % 4096) (hlo : y < x + 4096) (hhi : x < y + 4096) :
    a = b ↔ x = y := by
  rw [← BitVec.toNat_inj, ha, hb]
  exact SerialNumber.mod_eq_mod_iff hlo hhi

theorem toNat_succ {a : BitVec 16} {x : Nat} (ha : a.toNat = x % 4096) :
    ((a + 1) &&& 0xFFF#16).toNat = (x + 1) % 4096 := by
  rw [and_0xFFF_toNat, BitVec.toNat_add, ha]
  show (x % 4096 + 1) % 65536 % 4096 = _
  omega

/-! ## One frame at a time -/

/-- The frames carry the low 12 bits of their numbers. -/
def Numbered (l : List (Nat × RecvMsdu)) : Prop :=
  ∀ x ∈ l, x.2.seqNum.toNat = x.1 % 4096

/-- What the stack gets of frames that are passed on. -/
def indicatedOf (l : List (Nat × RecvMsdu)) : List Skb :=
  ((l.map Prod.snd).filter RecvMsdu.forward).map RecvMsdu.pkt

theorem indicatedOf_append (l₁ l₂ : List (Nat × RecvMsdu)) :
    indicatedOf (l₁ ++ l₂) = indicatedOf l₁ ++ indicatedOf l₂ := by
  unfold indicatedOf
  rw [List.map_append, List.filter_append, List.map_append]

theorem reordSingleFrameInd_indicated (q : RxQueues) (x : Nat × RecvMsdu) :
    (reordSingleFrameInd q x.2).indicated = q.indicated ++ indicatedOf [x] := by
  unfold reordSingleFrameInd indicatedOf
  by_cases hfw : x.2.forward = true
  · simp [hfw, RxQueues.reordRxframeFree]
  · simp [hfw, RxQueues.reordRxframeFree, RxQueues.devKfreeSkb]

theorem Numbered.tail {x : Nat × RecvMsdu} {l : List (Nat × RecvMsdu)}
    (h : Numbered (x :: l)) : Numbered l :=
  fun y hy => h y (List.mem_cons_of_mem _ hy)

/-- The list of the driver with a new frame. -/
theorem reordRxframeEnqueue_eq {x : Nat × RecvMsdu} {l : List (Nat × RecvMsdu)}
    (hx : x.2.seqNum.toNat = x.1 % 4096) (hl : Numbered l)
    (hnear : ∀ y ∈ l, x.1 ≤ y.1 + 2048 ∧ y.1 < x.1 + 2048) :
    reordRxframeEnqueue x.2 (l.map Prod.snd) =
      (ReorderBuffer.insert x l).map (List.map Prod.snd) := by
  induction l with
  | nil => rfl
  | cons y l ih =>
    have hy := hnear y List.mem_cons_self
    have hyn := hl y List.mem_cons_self
    have hless := snLess_eq hyn hx hy.1 hy.2
    have heq := seqNum_eq_iff hyn hx (by omega) (by omega)
    rw [List.map_cons]
    unfold reordRxframeEnqueue ReorderBuffer.insert
    rw [hless]
    by_cases hlt : y.1 < x.1
    · rw [if_pos (decide_eq_true hlt), if_pos hlt,
        ih hl.tail fun z hz => hnear z (List.mem_cons_of_mem _ hz)]
      cases ReorderBuffer.insert x l <;> rfl
    · rw [if_neg (by simpa using hlt), if_neg hlt]
      by_cases hyx : y.1 = x.1
      · rw [if_pos (heq.mpr hyx), if_pos hyx]
        rfl
      · rw [if_neg (mt heq.mp hyx), if_neg hyx]
        rfl

/-- The first loop moves `ind_sn` as the head moves. -/
theorem processLoop_eq {ind : BitVec 16} {h : Nat} {l : List (Nat × RecvMsdu)}
    (hind : ind.toNat = h % 4096) (hl : Numbered l) (hs : Sorted l)
    (hnear : ∀ y ∈ l, y.1 ≤ h + 2048 ∧ h < y.1 + 2048) :
    (processLoop ind (l.map Prod.snd)).2.toNat = advance h l % 4096 := by
  induction l generalizing ind h with
  | nil => exact hind
  | cons y l ih =>
    obtain ⟨hfirst, hrest⟩ := List.pairwise_cons.mp hs
    have hy := hnear y List.mem_cons_self
    have hyn := hl y List.mem_cons_self
    have hless := snLess_eq hind hyn hy.1 hy.2
    have heq := seqNum_eq_iff hind hyn (by omega) (by omega)
    rw [List.map_cons]
    unfold processLoop advance
    rw [hless]
    by_cases hle : y.1 ≤ h
    · rw [if_pos (by simpa using hle), if_pos hle]
      by_cases hyh : y.1 = h
      · rw [if_pos (heq.mpr hyh.symm), if_pos hyh]
        refine ih (toNat_succ hind) hl.tail hrest fun z hz => ?_
        have := hnear z (List.mem_cons_of_mem _ hz)
        have := hfirst z hz
        omega
      · rw [if_neg fun he => hyh (heq.mp he).symm, if_neg hyh]
        exact ih hind hl.tail hrest fun z hz => hnear z (List.mem_cons_of_mem _ hz)
    · rw [if_neg (by simpa using hle), if_neg hle]
      exact hind

/-- The first loop tells whether a frame stays on the list. -/
theorem processLoop_inBuf {ind : BitVec 16} {h : Nat} {l : List (Nat × RecvMsdu)}
    (hind : ind.toNat = h % 4096) (hl : Numbered l) (hs : Sorted l)
    (hnear : ∀ y ∈ l, y.1 ≤ h + 2048 ∧ h < y.1 + 2048)
    (hin : l.dropWhile (behind (advance h l)) ≠ []) :
    (processLoop ind (l.map Prod.snd)).1 = true := by
  induction l generalizing ind h with
  | nil => exact absurd rfl hin
  | cons y l ih =>
    obtain ⟨hfirst, hrest⟩ := List.pairwise_cons.mp hs
    have hy := hnear y List.mem_cons_self
    have hyn := hl y List.mem_cons_self
    have hless := snLess_eq hind hyn hy.1 hy.2
    have heq := seqNum_eq_iff hind hyn (by omega) (by omega)
    have hlate := ne_advance (h := h) hs y List.mem_cons_self
    rw [List.map_cons]
    unfold processLoop
    rw [hless]
    unfold advance at hin hlate
    by_cases hle : y.1 ≤ h
    · rw [if_pos (by simpa using hle)]
      rw [if_pos hle] at hin hlate
      by_cases hyh : y.1 = h
      · rw [if_pos (heq.mpr hyh.symm)]
        rw [if_pos hyh] at hin
        have hadv := le_advance (h + 1) l
        rw [List.dropWhile_cons_of_pos (behind_of_lt (by omega))] at hin
        refine ih (toNat_succ hind) hl.tail hrest (fun z hz => ?_) hin
        have := hnear z (List.mem_cons_of_mem _ hz)
        have := hfirst z hz
        omega
      · rw [if_neg fun he => hyh (heq.mp he).symm]
        rw [if_neg hyh] at hin
        have hadv := le_advance h l
        rw [List.dropWhile_cons_of_pos (behind_of_lt (by omega))] at hin
        exact ih hind hl.tail hrest (fun z hz => hnear z (List.mem_cons_of_mem _ hz)) hin
    · rw [if_neg (by simpa using hle)]

/-- The second loop passes on what is behind the head. -/
theorem indLoop_eq {ind : BitVec 16} {h : Nat} {l : List (Nat × RecvMsdu)} (q : RxQueues)
    (hind : ind.toNat = h % 4096) (hl : Numbered l) (hne : ∀ y ∈ l, y.1 ≠ h)
    (hnear : ∀ y ∈ l, y.1 ≤ h + 2048 ∧ h < y.1 + 2048) :
    (indLoop ind (l.map Prod.snd) q).1 = (l.dropWhile (behind h)).map Prod.snd ∧
      (indLoop ind (l.map Prod.snd) q).2.indicated =
        q.indicated ++ indicatedOf (l.takeWhile (behind h)) := by
  induction l generalizing q with
  | nil => exact ⟨rfl, (List.append_nil _).symm⟩
  | cons y l ih =>
    have hy := hnear y List.mem_cons_self
    have hless := snLess_eq hind (hl y List.mem_cons_self) hy.1 hy.2
    have hyne := hne y List.mem_cons_self
    rw [List.map_cons]
    unfold indLoop
    rw [hless]
    by_cases hlt : y.1 < h
    · have hbehind : behind h y = true := decide_eq_true hlt
      rw [if_pos (by simpa using hlt.le), List.dropWhile_cons_of_pos hbehind,
        List.takeWhile_cons_of_pos hbehind]
      obtain ⟨hlist, hout⟩ := ih (reordSingleFrameInd q y.2) hl.tail
        (fun z hz => hne z (List.mem_cons_of_mem _ hz))
        fun z hz => hnear z (List.mem_cons_of_mem _ hz)
      refine ⟨hlist, ?_⟩
      rw [hout, reordSingleFrameInd_indicated, List.append_assoc, ← indicatedOf_append]
      rfl
    · have hbehind : ¬ behind h y = true := fun hb => hlt (of_decide_eq_true hb)
      rw [if_neg (by simp only [Bool.not_eq_true', decide_eq_false_iff_not]; omega),
        List.dropWhile_cons_of_neg hbehind, List.takeWhile_cons_of_neg hbehind]
      exact ⟨rfl, (List.append_nil _).symm⟩

/-! ## The two buffers -/

/-- The driver's state `c` and `q` for one traffic class is that of the buffer
`b` of whole numbers.  `out` is what the stack had before. -/
structure Tracks (out : List Skb) (b : Buffer RecvMsdu) (c : ReordCtrl) (q : RxQueues) :
    Prop where
  enable : c.enable = true
  wsize : c.wsizeB = aicwfReorderWinsize
  fresh : b.head = none → c.indSn = 0xffff#16
  head : ∀ h, b.head = some h → c.indSn.toNat = h % 4096
  pending : c.reordList = b.pending.map Prod.snd
  numbered : Numbered b.pending
  indicated : q.indicated = out ++ indicatedOf b.delivered

theorem Tracks.start (q : RxQueues) : Tracks q.indicated Buffer.empty .fresh q :=
  ⟨rfl, rfl, fun _ => rfl, fun _ h => (by cases h), rfl, fun _ hx => (by cases hx),
    (List.append_nil _).symm⟩

/-- The frames behind the new head leave. -/
theorem Tracks.release {out : List Skb} {b : Buffer RecvMsdu} {c : ReordCtrl}
    {q : RxQueues} {h : Nat} {l : List (Nat × RecvMsdu)}
    (henable : c.enable = true) (hwsize : c.wsizeB = aicwfReorderWinsize)
    (hind : c.indSn.toNat = advance h l % 4096) (hlist : c.reordList = l.map Prod.snd)
    (hl : Numbered l) (hs : Sorted l)
    (hnear : ∀ y ∈ l, y.1 ≤ h + 2048 ∧ advance h l < y.1 + 2048)
    (hout : q.indicated = out ++ indicatedOf b.delivered) :
    Tracks out (release b h l) (reordRxframesInd c q).1 (reordRxframesInd c q).2 := by
  obtain ⟨hrest, hleft⟩ := indLoop_eq q hind hl (ne_advance hs) fun y hy => by
    have := hnear y hy
    have := le_advance h l
    omega
  unfold reordRxframesInd
  rw [hlist]
  refine ⟨henable, hwsize, fun hnone => (by cases hnone), fun h' hh' => ?_, hrest,
    fun y hy => hl y ((List.dropWhile_sublist _).subset hy), ?_⟩
  · rw [← Option.some.inj hh']
    exact hind
  · show (indLoop c.indSn (l.map Prod.snd) q).2.indicated = _
    rw [hleft, hout, List.append_assoc, ← indicatedOf_append]
    rfl

/-- `reord_rxframes_process`, when it is not forced. -/
theorem reordRxframesProcess_false (c : ReordCtrl) :
    reordRxframesProcess c false = ((processLoop c.indSn c.reordList).1,
      { c with indSn := (processLoop c.indSn c.reordList).2 }) := by
  obtain ⟨_, _, _, l, _, _⟩ := c
  cases l with
  | nil => rfl
  | cons f l => rfl

/-- The window of the driver moves as the one of the buffer. -/
theorem reordNeedCheck_eq {c : ReordCtrl} {seqNum : BitVec 16} {h n : Nat}
    (hwsize : c.wsizeB = aicwfReorderWinsize) (hind : c.indSn.toNat = h % 4096)
    (hseq : seqNum.toNat = n % 4096) (hlo : h ≤ n + 2048) (hhi : n < h + 2048) :
    (n < h → reordNeedCheck c seqNum = (true, c)) ∧
    (h ≤ n → ∃ ind, reordNeedCheck c seqNum = (false, { c with indSn := ind }) ∧
      ind.toNat = slide 64 h n % 4096) := by
  have hne : ¬ c.indSn = 0xFFFF#16 := by
    rw [← BitVec.toNat_inj, hind]
    show ¬ h % 4096 = 65535
    omega
  have hless := snLess_eq hseq hind hlo hhi
  have heq := seqNum_eq_iff hseq hind (by omega) (by omega)
  have hws : c.wsizeB.toNat = 64 := by rw [hwsize]; rfl
  unfold reordNeedCheck
  simp only [if_neg hne, hless, hws]
  refine ⟨fun hlt => ?_, fun hle => ?_⟩
  · rw [if_pos (decide_eq_true hlt)]
  · rw [if_neg (by simpa using hle)]
    by_cases hnh : n = h
    · refine ⟨_, if_pos (heq.mpr hnh), ?_⟩
      rw [toNat_succ hind]
      show _ = (if n = h then h + 1 else _) % 4096
      rw [if_pos hnh]
    · rw [if_neg (mt heq.mp hnh)]
      have hwend : (BitVec.ofInt 16 ((c.indSn.toNat : Int) + (64 : Nat) - 1) &&& 0xFFF#16).toNat
          = (h + 63) % 4096 := by
        have := ofInt_toNat_16 ((c.indSn.toNat : Int) + (64 : Nat) - 1)
        rw [and_0xFFF_toNat]
        omega
      rw [snLess_eq hwend hseq (by omega) (by omega)]
      by_cases hfar : h + 64 ≤ n
      · have hslide : slide 64 h n = n - 63 := by
          show (if n = h then h + 1 else if h + 64 ≤ n then n + 1 - 64 else h) = _
          rw [if_neg hnh, if_pos hfar]
          omega
        rw [if_pos (decide_eq_true (by omega)), hslide]
        split_ifs with hge
        · refine ⟨_, rfl, ?_⟩
          have := ofInt_toNat_16 ((seqNum.toNat : Int) - ((64 : Nat) - 1))
          omega
        · refine ⟨_, rfl, ?_⟩
          have := ofInt_toNat_16 (0xFFF - (((64 : Nat) : Int) - (seqNum.toNat + 1)) + 1)
          omega
      · rw [if_neg (by simp only [decide_eq_true_iff]; omega)]
        refine ⟨c.indSn, rfl, ?_⟩
        show _ = (if n = h then h + 1 else if h + 64 ≤ n then n + 1 - 64 else h) % 4096
        rw [if_neg hnh, if_neg hfar]
        exact hind

theorem reordNeedCheck_first {c : ReordCtrl} (seqNum : BitVec 16)
    (hfirst : c.indSn = 0xffff#16) :
    reordNeedCheck c seqNum =
      (false, { c with indSn := (seqNum + 1) &&& 0xFFF#16 }) := by
  have hself : snLess seqNum seqNum = false := by
    rw [← Bool.not_eq_true, snLess_iff]
    unfold SerialNumber.Before
    omega
  unfold reordNeedCheck
  simp [hfirst, hself]

/-- What the check says about a frame near the head.  The first frame is at the
head. -/
theorem Tracks.needCheck {out : List Skb} {b : Buffer RecvMsdu} {c : ReordCtrl}
    {q : RxQueues} (ht : Tracks out b c q) {seqNum : BitVec 16} {n : Nat}
    (hseq : seqNum.toNat = n % 4096)
    (hnear : ∀ h, b.head = some h → h ≤ n + 2048 ∧ n < h + 2048) :
    (n < b.head.getD n → reordNeedCheck c seqNum = (true, c)) ∧
    (b.head.getD n ≤ n → ∃ ind, reordNeedCheck c seqNum = (false, { c with indSn := ind }) ∧
      ind.toNat = slide 64 (b.head.getD n) n % 4096) := by
  cases hhead : b.head with
  | none =>
    refine ⟨fun hlt => absurd hlt (lt_irrefl n), fun _ => ?_⟩
    refine ⟨_, reordNeedCheck_first seqNum (ht.fresh hhead), ?_⟩
    rw [toNat_succ hseq]
    show _ = (if n = n then n + 1 else _) % 4096
    rw [if_pos rfl]
  | some h =>
    exact reordNeedCheck_eq ht.wsize (ht.head h hhead) hseq (hnear h hhead).1
      (hnear h hhead).2

section Cases

variable {c c' : ReordCtrl} {q : RxQueues} {f : RecvMsdu}

theorem reordFrame_direct (henable : c.enable = true)
    (hcheck : reordNeedCheck c f.seqNum = (true, c')) :
    reordFrame c q f = (c', reordSingleFrameInd q f) := by
  unfold reordFrame
  rw [if_neg (by rw [henable]; decide), hcheck]
  rfl

theorem reordFrame_duplicate (henable : c.enable = true)
    (hcheck : reordNeedCheck c f.seqNum = (false, c'))
    (hlist : reordRxframeEnqueue f c'.reordList = none) :
    reordFrame c q f = (c', (q.devKfreeSkb f.pkt).reordRxframeFree f.slot) := by
  unfold reordFrame
  rw [if_neg (by rw [henable]; decide), hcheck]
  simp only [Bool.false_eq_true, if_false, hlist]

theorem reordFrame_enqueue {l : List RecvMsdu} (henable : c.enable = true)
    (hcheck : reordNeedCheck c f.seqNum = (false, c'))
    (hlist : reordRxframeEnqueue f c'.reordList = some l) :
    reordFrame c q f =
      reordRxframesInd { (reordRxframesProcess { c' with reordList := l } false).2 with
        timerPending := (reordRxframesProcess { c' with reordList := l } false).1 } q := by
  unfold reordFrame
  rw [if_neg (by rw [henable]; decide), hcheck]
  simp only [Bool.false_eq_true, if_false, hlist]

end Cases

/-- The list with a new frame near the head, as the two loops find it. -/
theorem Tracks.inserted {out : List Skb} {b : Buffer RecvMsdu} {c : ReordCtrl}
    {q : RxQueues} (ht : Tracks out b c q) (hok : Ok 64 b) {x : Nat × RecvMsdu}
    (hx : x.2.seqNum.toNat = x.1 % 4096)
    (hnear : ∀ h, b.head = some h → h ≤ x.1 + 2048 ∧ x.1 < h + 2048)
    (hlt : ¬ x.1 < b.head.getD x.1) {l : List (Nat × RecvMsdu)}
    (hins : ReorderBuffer.insert x b.pending = some l) :
    Sorted l ∧ Numbered l ∧ ∀ y ∈ l, y.1 ≤ slide 64 (b.head.getD x.1) x.1 + 2048 ∧
      advance (slide 64 (b.head.getD x.1) x.1) l < y.1 + 2048 := by
  have hperm := insert_perm hins
  have hwin := hok.window_getD x.1
  have hnear' : x.1 < b.head.getD x.1 + 2048 := by
    cases hhead : b.head with
    | none => show x.1 < x.1 + 2048; omega
    | some h => exact (hnear h hhead).2
  have hbound : advance (slide 64 (b.head.getD x.1) x.1) l ≤
      max (x.1 + 1) (b.head.getD x.1 + 64) := by
    -- the head does not pass the largest number
    apply advance_le
    · have := slide_le (w := 64) (not_lt.mp hlt)
      omega
    · intro y hy
      rcases List.mem_cons.mp (hperm.mem_iff.mp hy) with rfl | hin
      · omega
      · have := hwin y hin
        omega
  have hle := le_slide 64 (b.head.getD x.1) x.1
  have hadd := lt_slide_add (w := 64) (h := b.head.getD x.1) (n := x.1) (by decide)
  have hadv := le_advance (slide 64 (b.head.getD x.1) x.1) l
  refine ⟨hok.sorted.insert hins, fun y hy => ?_, fun y hy => ?_⟩
  · rcases List.mem_cons.mp (hperm.mem_iff.mp hy) with rfl | hin
    · exact hx
    · exact ht.numbered y hin
  · rcases List.mem_cons.mp (hperm.mem_iff.mp hy) with rfl | hin
    · omega
    · have := hwin y hin
      omega

/-- The driver inserts a frame near the head as the buffer does. -/
theorem Tracks.enqueue {out : List Skb} {b : Buffer RecvMsdu} {c : ReordCtrl}
    {q : RxQueues} (ht : Tracks out b c q) (hok : Ok 64 b) {x : Nat × RecvMsdu}
    (hx : x.2.seqNum.toNat = x.1 % 4096)
    (hnear : ∀ h, b.head = some h → h ≤ x.1 + 2048 ∧ x.1 < h + 2048)
    (hlt : ¬ x.1 < b.head.getD x.1) :
    reordRxframeEnqueue x.2 c.reordList =
      (ReorderBuffer.insert x b.pending).map (List.map Prod.snd) := by
  rw [ht.pending]
  refine reordRxframeEnqueue_eq hx ht.numbered fun y hy => ?_
  have hwin := hok.window_getD x.1 y hy
  cases hhead : b.head with
  | none =>
    rw [hok.fresh hhead] at hy
    cases hy
  | some h =>
    rw [hhead] at hwin hlt
    have hwin' : h < y.1 ∧ y.1 < h + 64 := hwin
    have hlt' : ¬ x.1 < h := hlt
    have := hnear h hhead
    omega

/-- A frame near the head goes the same way in both buffers. -/
theorem Tracks.receive {out : List Skb} {b : Buffer RecvMsdu} {c : ReordCtrl}
    {q : RxQueues} (ht : Tracks out b c q) (hok : Ok 64 b) {x : Nat × RecvMsdu}
    (hx : x.2.seqNum.toNat = x.1 % 4096)
    (hnear : ∀ h, b.head = some h → h ≤ x.1 + 2048 ∧ x.1 < h + 2048) :
    Tracks out (receive 64 b x) (reordFrame c q x.2).1 (reordFrame c q x.2).2 := by
  obtain ⟨hlate, hlist⟩ := ht.needCheck hx hnear
  unfold ReorderBuffer.receive
  simp only
  by_cases hlt : x.1 < b.head.getD x.1
  · rw [if_pos hlt, reordFrame_direct ht.enable (hlate hlt)]
    refine ⟨ht.enable, ht.wsize, ht.fresh, ht.head, ht.pending, ht.numbered, ?_⟩
    show (reordSingleFrameInd q x.2).indicated = _
    rw [reordSingleFrameInd_indicated, ht.indicated, indicatedOf_append, List.append_assoc]
  · rw [if_neg hlt]
    obtain ⟨ind, hcheck, hind⟩ := hlist (not_lt.mp hlt)
    have henq := ht.enqueue hok hx hnear hlt
    cases hins : ReorderBuffer.insert x b.pending with
    | none =>
      rw [hins] at henq
      rw [reordFrame_duplicate ht.enable hcheck henq]
      obtain ⟨y, hy, hyx⟩ := List.mem_map.mp (mem_of_insert_eq_none hins)
      have hslide : slide 64 (b.head.getD x.1) x.1 = b.head.getD x.1 := by
        have := hok.window_getD x.1 y hy
        unfold slide
        rw [if_neg (by omega), if_neg (by omega)]
      refine ⟨ht.enable, ht.wsize, fun hnone => ?_, fun h hh => ?_, ht.pending, ht.numbered,
        ht.indicated⟩
      · rw [hok.fresh hnone] at hy
        cases hy
      · rw [hslide, hh] at hind
        exact hind
    | some l =>
      rw [hins] at henq
      rw [reordFrame_enqueue ht.enable hcheck henq, reordRxframesProcess_false]
      obtain ⟨hs, hl, hmem⟩ := ht.inserted hok hx hnear hlt hins
      refine Tracks.release ht.enable ht.wsize ?_ rfl hl hs hmem ht.indicated
      refine processLoop_eq hind hl hs fun y hy => ?_
      have := hmem y hy
      have := le_advance (slide 64 (b.head.getD x.1) x.1) l
      omega

theorem reordTimeoutWorker_nil {c : ReordCtrl} (q : RxQueues) (hlist : c.reordList = []) :
    reordTimeoutWorker c q = ({ c with workPending := false }, q) := by
  obtain ⟨_, _, _, l, _, _⟩ := c
  obtain rfl : l = [] := hlist
  rfl

/-- The first frame that waits becomes the head. -/
theorem reordTimeoutWorker_cons {c : ReordCtrl} (q : RxQueues) {f : RecvMsdu}
    {l : List RecvMsdu} (hlist : c.reordList = f :: l) :
    reordTimeoutWorker c q = reordRxframesInd { c with
      indSn := (processLoop f.seqNum (f :: l)).2
      timerPending := (processLoop f.seqNum (f :: l)).1 || c.timerPending
      workPending := false } q := by
  obtain ⟨_, _, _, l', _, _⟩ := c
  obtain rfl : l' = f :: l := hlist
  unfold reordTimeoutWorker reordRxframesProcess
  simp only [if_true]
  cases (processLoop f.seqNum (f :: l)).1 <;> rfl

/-- The list that a timeout finds, with the first frame as the head. -/
theorem Tracks.forced {out : List Skb} {b : Buffer RecvMsdu} {c : ReordCtrl} {q : RxQueues}
    (ht : Tracks out b c q) (hok : Ok 64 b) {x : Nat × RecvMsdu} {l : List (Nat × RecvMsdu)}
    (hpend : b.pending = x :: l) :
    Sorted (x :: l) ∧ Numbered (x :: l) ∧ ∀ y ∈ x :: l, y.1 ≤ x.1 + 2048 ∧
      advance x.1 (x :: l) < y.1 + 2048 := by
  have hs : Sorted (x :: l) := hpend ▸ hok.sorted
  have hfirst := (List.pairwise_cons.mp hs).1
  have hx := hok.window_getD 0 x (hpend ▸ List.mem_cons_self)
  have hwin : ∀ y ∈ x :: l, x.1 ≤ y.1 ∧ y.1 < x.1 + 64 := by
    intro y hy
    have hy' := hok.window_getD 0 y (hpend ▸ hy)
    rcases List.mem_cons.mp hy with rfl | hin
    · omega
    · have := hfirst y hin
      omega
  have hbound : advance x.1 (x :: l) ≤ x.1 + 64 :=
    advance_le (by omega) fun y hy => (hwin y hy).2
  refine ⟨hs, hpend ▸ ht.numbered, fun y hy => ?_⟩
  have := hwin y hy
  omega

/-- A timeout has the same effect on both buffers. -/
theorem Tracks.timeout {out : List Skb} {b : Buffer RecvMsdu} {c : ReordCtrl}
    {q : RxQueues} (ht : Tracks out b c q) (hok : Ok 64 b) :
    Tracks out (timeout b) (reordTimeoutWorker c q).1 (reordTimeoutWorker c q).2 := by
  unfold ReorderBuffer.timeout
  have hlist := ht.pending
  cases hpend : b.pending with
  | nil =>
    rw [hpend] at hlist
    rw [reordTimeoutWorker_nil q hlist]
    exact ⟨ht.enable, ht.wsize, ht.fresh, ht.head, ht.pending, ht.numbered, ht.indicated⟩
  | cons x l =>
    rw [hpend] at hlist
    rw [reordTimeoutWorker_cons q hlist]
    obtain ⟨hs, hl, hmem⟩ := ht.forced hok hpend
    refine Tracks.release ht.enable ht.wsize ?_ hlist hl hs hmem ht.indicated
    refine processLoop_eq (hl x List.mem_cons_self) hl hs fun y hy => ?_
    have := hmem y hy
    have := le_advance x.1 (x :: l)
    omega

/-! ## Runs -/

/-- A frame or a timeout of one traffic class. -/
def reordStep (s : ReordCtrl × RxQueues) : Event RecvMsdu → ReordCtrl × RxQueues
  | .receive x => reordFrame s.1 s.2 x.2
  | .timeout => reordTimeoutWorker s.1 s.2

def reordRun (es : List (Event RecvMsdu)) (s : ReordCtrl × RxQueues) :
    ReordCtrl × RxQueues :=
  es.foldl reordStep s

/-- The largest number after one more, `n`. -/
def largest (m : Option Nat) (n : Nat) : Nat := m.elim n (max · n)

/-- The frames carry the low bits of their numbers, and a number is about half
of the circle away from the largest one before it, `m`, at most. -/
def Near : Option Nat → List (Event RecvMsdu) → Prop
  | _, [] => True
  | m, .timeout :: es => Near m es
  | m, .receive x :: es =>
    x.2.seqNum.toNat = x.1 % 4096 ∧ (∀ n, m = some n → x.1 ≤ n + 1984 ∧ n < x.1 + 2048) ∧
      Near (some (largest m x.1)) es

/-- The head is near the largest number `m` so far. -/
structure Follows (m : Option Nat) (b : Buffer RecvMsdu) : Prop where
  fresh : b.head = none → m = none
  near : ∀ h, b.head = some h → ∃ n, m = some n ∧ h ≤ n + 1 ∧ n < h + 64
  pending : ∀ n, m = some n → ∀ x ∈ b.pending, x.1 ≤ n

theorem Follows.start : Follows none Buffer.empty :=
  ⟨fun _ => rfl, fun _ h => (by cases h), fun _ h => (by cases h)⟩

/-- The number `n` is the largest of a released list and of the ones before. -/
theorem Follows.release {b : Buffer RecvMsdu} {h n : Nat} {l : List (Nat × RecvMsdu)}
    (hh : h ≤ n + 1) (hn : n < h + 64) (hl : ∀ x ∈ l, x.1 ≤ n) :
    Follows (some n) (release b h l) := by
  have hadv : advance h l ≤ n + 1 :=
    advance_le hh fun x hx => Nat.lt_succ_of_le (hl x hx)
  have hle := le_advance h l
  refine ⟨fun hnone => (by cases hnone), fun h' hh' => ⟨n, rfl, ?_⟩, fun n' hn' x hx => ?_⟩
  · rw [← Option.some.inj hh']
    omega
  · rw [← Option.some.inj hn']
    exact hl x ((List.dropWhile_sublist _).subset hx)

theorem Follows.deliver {m : Option Nat} {b : Buffer RecvMsdu} (hf : Follows m b)
    (l : List (Nat × RecvMsdu)) : Follows m { b with delivered := l } :=
  ⟨hf.fresh, hf.near, hf.pending⟩

/-- A number up to the largest one leaves it. -/
theorem Follows.largest_eq {m : Option Nat} {b : Buffer RecvMsdu} (hf : Follows m b)
    {h n : Nat} (hhead : b.head = some h) (hn : ∀ k, m = some k → h ≤ k + 1 → n ≤ k) :
    some (largest m n) = m := by
  obtain ⟨k, rfl, hle, -⟩ := hf.near h hhead
  exact congrArg some (max_eq_left (hn k rfl hle))

theorem Follows.receive {m : Option Nat} {b : Buffer RecvMsdu} (hf : Follows m b)
    (hok : Ok 64 b) (x : Nat × RecvMsdu) :
    Follows (some (largest m x.1)) (receive 64 b x) := by
  unfold ReorderBuffer.receive
  simp only
  have hlarge : x.1 ≤ largest m x.1 := by
    unfold largest
    cases m with
    | none => exact le_refl _
    | some n => exact le_max_right _ _
  cases hins : ReorderBuffer.insert x b.pending with
  | none =>
    obtain ⟨y, hy, hyx⟩ := List.mem_map.mp (mem_of_insert_eq_none hins)
    obtain ⟨h, hhead⟩ : ∃ h, b.head = some h := by
      rw [← Option.ne_none_iff_exists']
      intro hnone
      rw [hok.fresh hnone] at hy
      cases hy
    rw [hf.largest_eq hhead fun k hk _ => hyx ▸ hf.pending k hk y hy]
    split_ifs
    · exact hf.deliver _
    · exact hf
  | some l =>
    split_ifs with hlt
    · obtain ⟨h, hhead⟩ : ∃ h, b.head = some h := by
        rw [← Option.ne_none_iff_exists']
        intro hnone
        rw [hnone] at hlt
        exact lt_irrefl _ hlt
      rw [hhead] at hlt
      have hlt' : x.1 < h := hlt
      rw [hf.largest_eq hhead fun k _ hle => by omega]
      exact hf.deliver _
    · have hs := slide_le (w := 64) (not_lt.mp hlt)
      have hadd := lt_slide_add (w := 64) (h := b.head.getD x.1) (n := x.1) (by decide)
      have hle := le_slide 64 (b.head.getD x.1) x.1
      have hold : ∀ n, m = some n → n < b.head.getD x.1 + 64 := by
        intro n hn
        cases hhead : b.head with
        | none => exact absurd (hn.symm.trans (hf.fresh hhead)) (by simp)
        | some h =>
          obtain ⟨n', hn', hnear⟩ := hf.near h hhead
          obtain rfl := Option.some.inj (hn.symm.trans hn')
          exact hnear.2
      apply Follows.release
      · omega
      · unfold largest
        cases m with
        | none => exact hadd
        | some n =>
          have := hold n rfl
          show max n x.1 < _
          omega
      · intro y hy
        rcases List.mem_cons.mp ((insert_perm hins).mem_iff.mp hy) with rfl | hin
        · exact hlarge
        · unfold largest
          cases m with
          | none =>
            cases hhead : b.head with
            | none =>
              rw [hok.fresh hhead] at hin
              cases hin
            | some h =>
              obtain ⟨n, hn, -⟩ := hf.near h hhead
              cases hn
          | some n => exact le_max_of_le_left (hf.pending n rfl y hin)

theorem Follows.timeout {m : Option Nat} {b : Buffer RecvMsdu} (hf : Follows m b)
    (hok : Ok 64 b) : Follows m (timeout b) := by
  unfold ReorderBuffer.timeout
  cases hpend : b.pending with
  | nil => exact hf
  | cons x l =>
    cases hhead : b.head with
    | none =>
      rw [hok.fresh hhead] at hpend
      cases hpend
    | some h =>
      obtain ⟨n, rfl, hnear⟩ := hf.near h hhead
      have hx := hok.window h hhead x (hpend ▸ List.mem_cons_self)
      have hmax := hf.pending n rfl
      rw [hpend] at hmax
      have hxn := hmax x List.mem_cons_self
      exact Follows.release (by omega) (by omega) hmax

theorem tracks_run {out : List Skb} {b : Buffer RecvMsdu} {c : ReordCtrl} {q : RxQueues}
    {m : Option Nat} {es : List (Event RecvMsdu)} (ht : Tracks out b c q) (hok : Ok 64 b)
    (hf : Follows m b) (hnear : Near m es) :
    Tracks out (run 64 es b) (reordRun es (c, q)).1 (reordRun es (c, q)).2 := by
  induction es generalizing b c q m with
  | nil => exact ht
  | cons e es ih =>
    cases e with
    | receive x =>
      refine ih (ht.receive hok hnear.1 fun h hh => ?_) (hok.receive (by decide) x)
        (hf.receive hok x) hnear.2.2
      obtain ⟨n, hn, hle, hlt⟩ := hf.near h hh
      have := hnear.2.1 n hn
      omega
    | timeout => exact ih (ht.timeout hok) hok.timeout (hf.timeout hok) hnear

/-- The driver passes on the frames that the buffer of whole numbers passes on,
in the same order, and keeps the same frames.  Their numbers increase when no
frame comes behind the head. -/
theorem reord_refines {es : List (Event RecvMsdu)} (q : RxQueues) (hnear : Near none es) :
    let b := run 64 es Buffer.empty
    let s := reordRun es (.fresh, q)
    s.2.indicated = q.indicated ++ indicatedOf b.delivered ∧
      s.1.reordList = b.pending.map Prod.snd ∧
      (∀ h, b.head = some h → s.1.indSn.toNat = h % 4096) ∧
      (InTime 64 es Buffer.empty → Sorted b.delivered) := by
  have ht := tracks_run (Tracks.start q) (Ok.empty 64) Follows.start hnear
  exact ⟨ht.indicated, ht.pending, ht.head,
    delivered_sorted (by decide) (Ok.empty 64) InOrder.empty⟩

/-- A frame with the number `n` and the packet `pkt`. -/
def frameOf (n : Nat) (pkt : Skb) : Nat × RecvMsdu :=
  (n, ⟨0, pkt, 0, true, BitVec.ofNat 16 (n % 4096)⟩)

theorem frameOf_seqNum (n : Nat) (pkt : Skb) :
    (frameOf n pkt).2.seqNum.toNat = (frameOf n pkt).1 % 4096 := by
  show n % 4096 % 65536 = n % 4096
  omega

/-- A frame behind a gap, over the wrap of the sequence numbers, and a timeout. -/
def wrapGap : List (Event RecvMsdu) :=
  [.receive (frameOf 4095 ⟨[1]⟩), .receive (frameOf 4097 ⟨[2]⟩), .timeout]

theorem reord_refines_wrap :
    (reordRun wrapGap (.fresh, ⟨[], [], []⟩)).2.indicated = [⟨[1]⟩, ⟨[2]⟩] ∧
      (reordRun wrapGap (.fresh, ⟨[], [], []⟩)).1.indSn.toNat = 2 := by
  have hnear : Near none wrapGap :=
    ⟨frameOf_seqNum _ _, fun n hn => (by cases hn), frameOf_seqNum _ _, fun n hn => by
      obtain rfl := Option.some.inj hn
      show 4097 ≤ 4095 + 1984 ∧ 4095 < 4097 + 2048
      omega, trivial⟩
  obtain ⟨hout, -, hhead, -⟩ := reord_refines ⟨[], [], []⟩ hnear
  exact ⟨hout, hhead 4098 rfl⟩

theorem tracks_displaced {out : List Skb} {base : Nat} {seen xs : List (Nat × RecvMsdu)}
    {b : Buffer RecvMsdu} {c : ReordCtrl} {q : RxQueues} (ht : Tracks out b c q)
    (hok : Ok 64 b) (hb : Recovered base seen b) (hnum : Numbered xs)
    (hxs : Displaced 64 base (seen.map Prod.fst) xs) :
    Tracks out (run 64 (xs.map .receive) b) (reordRun (xs.map .receive) (c, q)).1
      (reordRun (xs.map .receive) (c, q)).2 := by
  induction xs generalizing seen b c q with
  | nil => exact ht
  | cons x xs ih =>
    have hrest : Displaced 64 base ((seen ++ [x]).map Prod.fst) xs := by
      rw [List.map_append]
      exact hxs.2
    refine ih (ht.receive hok (hnum x List.mem_cons_self) fun h hh => ?_)
      (hok.receive (by decide) x) (hb.receive hxs.1) hnum.tail hrest
    have := hb.window hh hxs.1
    omega

/-- Frames that come less than a window late reach the stack in the order of
their numbers, up to the first one that is missing.  The others wait, and no
frame is lost or doubled. -/
theorem reord_recovers {base : Nat} {xs : List (Nat × RecvMsdu)} (q : RxQueues)
    (hnum : Numbered xs) (hxs : Displaced 64 base [] xs) :
    let s := reordRun (xs.map .receive) (.fresh, q)
    ∃ passed kept, (passed ++ kept).Perm xs ∧
      s.2.indicated = q.indicated ++ indicatedOf passed ∧
      s.1.reordList = kept.map Prod.snd ∧ Sorted kept ∧
      ∃ k, passed.map Prod.fst = List.range' base k ∧ base + k ∉ xs.map Prod.fst ∧
        ∀ x ∈ kept, base + k < x.1 := by
  have ht := tracks_displaced (Tracks.start q) (Ok.empty 64) (Recovered.empty base) hnum hxs
  obtain ⟨hperm, hsorted, hgap⟩ := recovery hxs
  exact ⟨_, _, hperm, ht.indicated, ht.pending, hsorted, hgap⟩

/-- Two frames in the wrong order, over the wrap of the sequence numbers. -/
def wrapSwap : List (Nat × RecvMsdu) :=
  [frameOf 4094 ⟨[1]⟩, frameOf 4096 ⟨[3]⟩, frameOf 4095 ⟨[2]⟩]

theorem reord_recovers_wrap :
    ∃ passed kept, (passed ++ kept).Perm wrapSwap ∧
      (reordRun (wrapSwap.map .receive) (.fresh, ⟨[], [], []⟩)).2.indicated =
        indicatedOf passed ∧
      ∃ k, passed.map Prod.fst = List.range' 4094 k := by
  have hnum : Numbered wrapSwap := by
    intro x hx
    simp only [wrapSwap, List.mem_cons, List.not_mem_nil, or_false] at hx
    rcases hx with rfl | rfl | rfl <;> exact frameOf_seqNum _ _
  have hxs : Displaced 64 4094 [] wrapSwap := by
    refine ⟨⟨le_refl _, List.not_mem_nil, fun m hm hle => ?_, fun _ => rfl⟩,
      ⟨?_, ?_, fun m hm hle => ?_, fun hnil => (by cases hnil)⟩,
      ⟨?_, ?_, fun m hm hle => ?_, fun hnil => (by cases hnil)⟩, trivial⟩
    all_goals simp only [frameOf] at *
    all_goals first | omega | simp
  obtain ⟨passed, kept, hperm, hout, -, -, k, hk, -, -⟩ :=
    reord_recovers ⟨[], [], []⟩ hnum hxs
  exact ⟨passed, kept, hperm, hout, k, hk⟩

end LonganPi.Wifi
