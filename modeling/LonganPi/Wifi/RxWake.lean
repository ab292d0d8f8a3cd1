import LonganPi.Lib.Transition
import LonganPi.Wifi.RxSplit

/-!
# Waking the receive thread

A completed transfer is queued and counted, and wakes the thread only when the count is
then 1.  The thread lowers the count for each transfer that it has split.  It ends when
it is woken while the bus is down.  `aicwf_rx_deinit`, which wakes it when the driver goes
away, is not in the model.

* `rx_counted_iff`: the count is right, the thread runs and no transfer is left alone,
  exactly when no split ends before the end of its transfer and the thread is never woken
  while the bus is down.
* `rx_stalls`: when splits have ended with `-EBADE`, so that the count is too high, and the
  thread sleeps, it sleeps for good.
-/

namespace LonganPi.Wifi

/-! ## The source -/

/-- `MAX_RXQLEN`. -/
def maxRxqlen : Nat := 2000

/-- Where `usb_busrx_thread` is. -/
inductive BusRx where
  | waiting
  | woken
  /-- At the top of the loop of `aicwf_process_rxframes`. -/
  | looping
  | splitting (mem : RxMemory) (len : Nat)
  | stopped

/-- Where `aicwf_usb_rx_complete` is.  The completions of the endpoint come one after
another. -/
inductive RxComplete where
  | idle
  | queued
  | counted
  deriving DecidableEq, Repr

/-- The receive path in front of the reorder buffer.  `rxCnt` is an `atomic_t`, and wraps.

`broken` says that a buffer was used after it was freed, and `ebades` counts the splits
that ended with `-EBADE`. -/
structure RxBus where
  usbUp : Bool
  busUp : Bool
  rxq : List (RxMemory × Nat)
  rxCnt : BitVec 32
  busrxTrgg : Nat
  thread : BusRx
  complete : RxComplete
  handed : List RxHanded
  broken : Bool
  ebades : Nat

/-- After `aicwf_rx_init`. -/
def rxBusInit : RxBus := ⟨false, false, [], 0, 0, .waiting, .idle, [], false, 0⟩

/-- What one of them does. -/
inductive BusRxEvent where
  /-- The device and the bus come up or go down, each of them. -/
  | state (usbUp busUp : Bool)
  | receive (mem : RxMemory) (len : Nat)
  | count
  | signal
  | wake
  | look
  | take
  | split (down : Bool) (allocs : List Bool)

/-- The thread is through with a transfer.  With `-EBADE` it does not lower the count,
and does not look at the rest of the queue.  A buffer that is too long by its length was
counted and freed when the loop looks at it again. -/
def RxBus.afterSplit (s : RxBus) : RxRound → Option RxBus
  | .again _ => none
  | .done r =>
    some { s with rxCnt := s.rxCnt - 1, handed := s.handed ++ r.handed, thread := .looping }
  | .ebade r =>
    some { s with
      handed := s.handed ++ r.handed, thread := .waiting, ebades := s.ebades + 1 }
  | .freed r => some { s with rxCnt := s.rxCnt - 1, handed := s.handed ++ r.handed, broken := true }

/-- One step, while no buffer was used after it was freed. -/
def busRxNext (s : RxBus) : BusRxEvent → Option RxBus
  | .state usbUp busUp => some { s with usbUp := usbUp, busUp := busUp }
  | .receive mem len =>
    if s.complete = .idle then
      if s.usbUp = true ∧ s.rxq.length < maxRxqlen then
        some { s with rxq := s.rxq ++ [(mem, len)], complete := .queued }
      else some s
    else none
  | .count =>
    if s.complete = .queued then some { s with rxCnt := s.rxCnt + 1, complete := .counted }
    else none
  | .signal =>
    if s.complete = .counted then
      some { s with
        busrxTrgg := if s.rxCnt = 1 then s.busrxTrgg + 1 else s.busrxTrgg, complete := .idle }
    else none
  | .wake =>
    match s.thread with
    | .waiting =>
      if 0 < s.busrxTrgg then
        some { s with busrxTrgg := s.busrxTrgg - 1, thread := .woken }
      else none
    | _ => none
  | .look =>
    match s.thread with
    | .woken =>
      if s.busUp then some { s with thread := .looping } else some { s with thread := .stopped }
    | _ => none
  | .take =>
    match s.thread with
    | .looping =>
      match s.rxq with
      | [] => some { s with thread := .waiting }
      | (mem, len) :: q => some { s with rxq := q, thread := .splitting mem len }
    | _ => none
  | .split down allocs =>
    match s.thread with
    | .splitting mem len => s.afterSplit (rxRounds mem down allocs (rxTransfer len))
    | _ => none

/-- One step.  What the loop does with a buffer that is freed is not known. -/
def busRxStep (s : RxBus) (e : BusRxEvent) : Option RxBus :=
  if s.broken then none else busRxNext s e

/-- What a step does. -/
inductive BusRxMove (s : RxBus) : BusRxEvent → RxBus → Prop where
  | state {usbUp busUp : Bool} :
      BusRxMove s (.state usbUp busUp) { s with usbUp := usbUp, busUp := busUp }
  | receive {mem : RxMemory} {len : Nat} (hidle : s.complete = .idle) (hup : s.usbUp = true)
      (hroom : s.rxq.length < maxRxqlen) :
      BusRxMove s (.receive mem len) { s with rxq := s.rxq ++ [(mem, len)], complete := .queued }
  | refuse {mem : RxMemory} {len : Nat} (hidle : s.complete = .idle) :
      BusRxMove s (.receive mem len) s
  | count (hqueued : s.complete = .queued) :
      BusRxMove s .count { s with rxCnt := s.rxCnt + 1, complete := .counted }
  | signal (hcounted : s.complete = .counted) (hone : s.rxCnt = 1) :
      BusRxMove s .signal { s with busrxTrgg := s.busrxTrgg + 1, complete := .idle }
  | noSignal (hcounted : s.complete = .counted) (hne : s.rxCnt ≠ 1) :
      BusRxMove s .signal { s with complete := .idle }
  | wake (hthread : s.thread = .waiting) (htrgg : 0 < s.busrxTrgg) :
      BusRxMove s .wake { s with busrxTrgg := s.busrxTrgg - 1, thread := .woken }
  | look (hthread : s.thread = .woken) (hbus : s.busUp = true) :
      BusRxMove s .look { s with thread := .looping }
  | lookStop (hthread : s.thread = .woken) (hbus : s.busUp = false) :
      BusRxMove s .look { s with thread := .stopped }
  | sleep (hthread : s.thread = .looping) (hrxq : s.rxq = []) :
      BusRxMove s .take { s with thread := .waiting }
  | take {mem : RxMemory} {len : Nat} {q : List (RxMemory × Nat)} (hthread : s.thread = .looping)
      (hrxq : s.rxq = (mem, len) :: q) :
      BusRxMove s .take { s with rxq := q, thread := .splitting mem len }
  | split {mem : RxMemory} {len : Nat} {down : Bool} {allocs : List Bool} {s' : RxBus}
      (hthread : s.thread = .splitting mem len)
      (hsplit : s.afterSplit (rxRounds mem down allocs (rxTransfer len)) = some s') :
      BusRxMove s (.split down allocs) s'

theorem busRxMove_of_next {s s' : RxBus} {e : BusRxEvent} (hstep : busRxNext s e = some s') :
    BusRxMove s e s' := by
  cases e with
  | state usbUp busUp =>
    rw [← Option.some.inj hstep]
    exact BusRxMove.state
  | receive mem len =>
    simp only [busRxNext] at hstep
    split_ifs at hstep with hidle hroom
    · rw [← Option.some.inj hstep]
      exact BusRxMove.receive hidle hroom.1 hroom.2
    · cases hstep
      exact BusRxMove.refuse hidle
  | count =>
    simp only [busRxNext] at hstep
    split_ifs at hstep with hqueued
    rw [← Option.some.inj hstep]
    exact BusRxMove.count hqueued
  | signal =>
    simp only [busRxNext] at hstep
    split_ifs at hstep with hcounted hone
    · rw [← Option.some.inj hstep]
      exact BusRxMove.signal hcounted hone
    · rw [← Option.some.inj hstep]
      exact BusRxMove.noSignal hcounted hone
  | wake =>
    simp only [busRxNext] at hstep
    split at hstep
    · next hthread =>
      split_ifs at hstep with htrgg
      rw [← Option.some.inj hstep]
      exact BusRxMove.wake hthread htrgg
    · cases hstep
  | look =>
    simp only [busRxNext] at hstep
    split at hstep
    · next hthread =>
      split_ifs at hstep with hbus
      · rw [← Option.some.inj hstep]
        exact BusRxMove.look hthread hbus
      · rw [← Option.some.inj hstep]
        exact BusRxMove.lookStop hthread (Bool.not_eq_true _ ▸ hbus)
    · cases hstep
  | take =>
    simp only [busRxNext] at hstep
    split at hstep
    · next hthread =>
      split at hstep
      · next hrxq =>
        rw [← Option.some.inj hstep]
        exact BusRxMove.sleep hthread hrxq
      · next mem len q hrxq =>
        rw [← Option.some.inj hstep]
        exact BusRxMove.take hthread hrxq
    · cases hstep
  | split down allocs =>
    simp only [busRxNext] at hstep
    split at hstep
    · next mem len hthread => exact BusRxMove.split hthread hstep
    · cases hstep

/-- Every step is a move. -/
theorem busRxMove_of_step {s s' : RxBus} {e : BusRxEvent} (hstep : busRxStep s e = some s') :
    s.broken = false ∧ BusRxMove s e s' := by
  unfold busRxStep at hstep
  split_ifs at hstep with hbroken
  exact ⟨Bool.not_eq_true _ ▸ hbroken, busRxMove_of_next hstep⟩

/-! ## The count -/

/-- The transfer that the thread splits. -/
def BusRx.inHand : BusRx → Int
  | .splitting _ _ => 1
  | _ => 0

/-- The transfer that is queued and not counted yet. -/
def RxComplete.uncounted : RxComplete → Int
  | .queued => 1
  | _ => 0

/-- What the count should be. -/
def RxBus.counted (s : RxBus) : Int :=
  s.rxq.length + s.thread.inHand - s.complete.uncounted

/-- What the count has too much. -/
def RxBus.excess (s : RxBus) : BitVec 32 := s.rxCnt - BitVec.ofInt 32 s.counted

variable {s s' : RxBus} {e : BusRxEvent}

/-- The count and what it should be grow together. -/
theorem excess_congr {k : Int} (hcnt : s'.rxCnt = s.rxCnt + BitVec.ofInt 32 k)
    (hcounted : s'.counted = s.counted + k) : s'.excess = s.excess := by
  unfold RxBus.excess
  rw [hcnt, hcounted, BitVec.ofInt_add]
  grind

theorem excess_of_eq (hcnt : s'.rxCnt = s.rxCnt) (hcounted : s'.counted = s.counted) :
    s'.excess = s.excess := by
  unfold RxBus.excess
  rw [hcnt, hcounted]

/-- A split that ends with its transfer leaves the excess as it is, one that ends with
`-EBADE` makes it one more, and another one breaks the buffer. -/
theorem excess_afterSplit {mem : RxMemory} {len : Nat} {r : RxRound}
    (hthread : s.thread = .splitting mem len) (hsplit : s.afterSplit r = some s') :
    (s'.ebades = s.ebades ∧ s'.excess = s.excess) ∨
      (s'.ebades = s.ebades + 1 ∧ s'.excess = s.excess + 1) ∨ s'.broken = true := by
  cases r with
  | again r => cases hsplit
  | done r =>
    rw [← Option.some.inj hsplit]
    have hminus : BitVec.ofInt 32 (-1) = -1 := by decide
    refine Or.inl ⟨rfl, excess_congr (k := -1) ?_ ?_⟩
    · rw [hminus, ← BitVec.sub_eq_add_neg]
    unfold RxBus.counted
    rw [hthread]
    simp only [BusRx.inHand]
    omega
  | ebade r =>
    rw [← Option.some.inj hsplit]
    refine Or.inr (Or.inl ⟨rfl, ?_⟩)
    have hcounted : s.counted = s.rxq.length + 0 - s.complete.uncounted + 1 := by
      unfold RxBus.counted
      rw [hthread]
      simp only [BusRx.inHand]
      omega
    unfold RxBus.excess
    rw [hcounted, BitVec.ofInt_add]
    show s.rxCnt - BitVec.ofInt 32 (s.rxq.length + 0 - s.complete.uncounted) = _
    grind
  | freed r =>
    rw [← Option.some.inj hsplit]
    exact Or.inr (Or.inr rfl)

/-- Every other step leaves it as it is. -/
theorem excess_step (hmove : BusRxMove s e s') (hne : ∀ down allocs, e ≠ .split down allocs) :
    s'.excess = s.excess := by
  cases hmove with
  | state => rfl
  | receive hidle hup hroom =>
    refine excess_of_eq rfl ?_
    unfold RxBus.counted
    rw [hidle]
    simp only [RxComplete.uncounted, List.length_append, List.length_singleton]
    omega
  | refuse hidle => rfl
  | count hqueued =>
    refine excess_congr (k := 1) rfl ?_
    unfold RxBus.counted
    rw [hqueued]
    simp only [RxComplete.uncounted]
    omega
  | signal hcounted hone => exact excess_of_eq rfl (by unfold RxBus.counted; rw [hcounted]; rfl)
  | noSignal hcounted hnot => exact excess_of_eq rfl (by unfold RxBus.counted; rw [hcounted]; rfl)
  | wake hthread htrgg => exact excess_of_eq rfl (by unfold RxBus.counted; rw [hthread]; rfl)
  | look hthread hbus => exact excess_of_eq rfl (by unfold RxBus.counted; rw [hthread]; rfl)
  | lookStop hthread hbus => exact excess_of_eq rfl (by unfold RxBus.counted; rw [hthread]; rfl)
  | sleep hthread hrxq => exact excess_of_eq rfl (by unfold RxBus.counted; rw [hthread]; rfl)
  | take hthread hrxq =>
    refine excess_of_eq rfl ?_
    unfold RxBus.counted
    rw [hthread, hrxq]
    simp only [BusRx.inHand, List.length_cons]
    omega
  | split hthread hsplit => exact absurd rfl (hne _ _)

/-- The queue has its limit, and the count is too high by the splits that ended with
`-EBADE`. -/
structure RxCounts (s : RxBus) : Prop where
  room : s.rxq.length ≤ maxRxqlen
  excess : s.broken = false → s.excess = BitVec.ofNat 32 s.ebades

theorem rxCounts_init : RxCounts rxBusInit := ⟨Nat.zero_le _, fun _ => rfl⟩

namespace RxCounts

theorem room_step (h : RxCounts s) (hmove : BusRxMove s e s') : s'.rxq.length ≤ maxRxqlen := by
  cases hmove with
  | @receive mem len hidle hup hroom =>
    show (s.rxq ++ [(mem, len)]).length ≤ maxRxqlen
    rw [List.length_append]
    exact hroom
  | @take mem len q hthread hrxq =>
    have hlen := h.room
    rw [hrxq] at hlen
    exact Nat.le_of_succ_le hlen
  | @split mem len down allocs _ hthread hsplit =>
    cases hr : rxRounds mem down allocs (rxTransfer len) <;> rw [hr] at hsplit <;>
      cases hsplit <;> exact h.room
  | _ => exact h.room

theorem step (h : RxCounts s) (hstep : busRxStep s e = some s') : RxCounts s' := by
  obtain ⟨hwhole, hmove⟩ := busRxMove_of_step hstep
  refine ⟨h.room_step hmove, fun hwhole' => ?_⟩
  have hexcess := h.excess hwhole
  by_cases hne : ∀ down allocs, e ≠ .split down allocs
  · have hsame : s'.ebades = s.ebades := by
      cases hmove with
      | split hthread hsplit => exact absurd rfl (hne _ _)
      | _ => rfl
    rw [excess_step hmove hne, hsame, hexcess]
  · cases hmove with
    | split hthread hsplit =>
      rcases excess_afterSplit hthread hsplit with ⟨heb, hex⟩ | ⟨heb, hex⟩ | hbroken
      · rw [heb, hex, hexcess]
      · rw [heb, hex, hexcess, BitVec.ofNat_add]
        rfl
      · rw [hwhole'] at hbroken
        cases hbroken
    | _ => exact absurd nofun hne

/-- The count is right when there is no excess: it does not wrap. -/
theorem count_iff (h : RxCounts s) : s.rxCnt.toInt = s.counted ↔ s.excess = 0 := by
  have hlen : s.rxq.length ≤ 2000 := h.room
  have hhand : 0 ≤ s.thread.inHand ∧ s.thread.inHand ≤ 1 := by
    cases s.thread <;> simp [BusRx.inHand]
  have hunc : 0 ≤ s.complete.uncounted ∧ s.complete.uncounted ≤ 1 := by
    cases s.complete <;> simp [RxComplete.uncounted]
  have hsmall : (BitVec.ofInt 32 s.counted).toInt = s.counted := by
    unfold RxBus.counted
    exact BitVec.toInt_ofInt_eq_self (by decide) (by omega) (by omega)
  unfold RxBus.excess
  constructor
  · intro hcnt
    have heq : s.rxCnt = BitVec.ofInt 32 s.counted := by
      rw [← hcnt, BitVec.ofInt_toInt]
    rw [heq, BitVec.sub_self]
    rfl
  · intro hex
    have heq : s.rxCnt = BitVec.ofInt 32 s.counted := by grind
    rw [heq, hsmall]

end RxCounts

/-- The count is right, the thread runs, and while it sleeps and nothing will wake it
there is at most the transfer whose completion is still running. -/
structure RxOk (s : RxBus) : Prop where
  whole : s.broken = false
  running : s.thread ≠ .stopped
  count : s.rxCnt.toInt = s.counted
  attended : s.thread = .waiting → s.busrxTrgg = 0 → s.rxq ≠ [] →
    s.complete ≠ .idle ∧ s.rxq.length = 1

/-- The condition: a split ends with its transfer, and the bus is up when the thread is
woken. -/
def RxGuard (s : RxBus) : BusRxEvent → Prop
  | .look => s.busUp = true
  | .split down allocs => ∀ mem len, s.thread = .splitting mem len →
      ∃ r, rxRounds mem down allocs (rxTransfer len) = .done r
  | _ => True

namespace RxOk

theorem split_iff (h : RxOk s) (hcounts : RxCounts s) {mem : RxMemory} {len : Nat} {r : RxRound}
    (hcounts' : RxCounts s') (hthread : s.thread = .splitting mem len)
    (hsplit : s.afterSplit r = some s') : RxOk s' ↔ ∃ r', r = .done r' := by
  have hexcess := hcounts.count_iff.mp h.count
  have hafter := excess_afterSplit hthread hsplit
  cases r with
  | again r => cases hsplit
  | done r =>
    have hex : s'.excess = 0 := by
      rcases hafter with ⟨-, hex⟩ | ⟨heb, -⟩ | hbroken
      · rw [hex, hexcess]
      · rw [← Option.some.inj hsplit] at heb
        exact absurd heb (Nat.ne_of_lt (Nat.lt_succ_self _))
      · rw [← Option.some.inj hsplit] at hbroken
        exact absurd (hbroken.symm.trans h.whole) nofun
    have hcount := hcounts'.count_iff.mpr hex
    cases hsplit
    exact iff_of_true ⟨h.whole, nofun, hcount, fun hl => by cases hl⟩ ⟨r, rfl⟩
  | ebade r =>
    refine iff_of_false (fun hok => ?_) fun ⟨r', hr'⟩ => by cases hr'
    have hcount := h.count
    have hcount' := hok.count
    cases hsplit
    unfold RxBus.counted at hcount hcount'
    rw [hthread] at hcount
    simp only [BusRx.inHand] at hcount hcount'
    omega
  | freed r =>
    refine iff_of_false (fun hok => ?_) fun ⟨r', hr'⟩ => by cases hr'
    have hwhole := hok.whole
    cases hsplit
    cases hwhole

theorem step_iff (hcounts : RxCounts s) (h : RxOk s) (hstep : busRxStep s e = some s') :
    RxOk s' ↔ RxGuard s e := by
  have hcounts' := hcounts.step hstep
  obtain ⟨-, hmove⟩ := busRxMove_of_step hstep
  have hcount : (∀ down allocs, e ≠ .split down allocs) → s'.rxCnt.toInt = s'.counted := by
    intro hne
    rw [hcounts'.count_iff, excess_step hmove hne]
    exact hcounts.count_iff.mp h.count
  cases hmove with
  | state => exact iff_of_true ⟨h.whole, h.running, hcount nofun, h.attended⟩ trivial
  | @receive mem len hidle hup hroom =>
    refine iff_of_true ⟨h.whole, h.running, hcount nofun, fun hw ht _ => ⟨nofun, ?_⟩⟩ trivial
    have hnil : s.rxq = [] := by
      by_contra hne
      exact (h.attended hw ht hne).1 hidle
    show (s.rxq ++ [(mem, len)]).length = 1
    rw [hnil]
    rfl
  | refuse hidle => exact iff_of_true h trivial
  | count hqueued =>
    exact iff_of_true ⟨h.whole, h.running, hcount nofun,
      fun hw ht hne => ⟨nofun, (h.attended hw ht hne).2⟩⟩ trivial
  | signal hcounted hone =>
    exact iff_of_true ⟨h.whole, h.running, hcount nofun,
      fun _ ht => absurd ht (Nat.succ_ne_zero _)⟩ trivial
  | noSignal hcounted hne =>
    refine iff_of_true ⟨h.whole, h.running, hcount nofun, fun hw ht hrxq => ?_⟩ trivial
    -- The thread sleeps, so its one transfer is counted, and the count is 1.
    have hlen := (h.attended hw ht hrxq).2
    have hone := h.count
    unfold RxBus.counted at hone
    replace hw : s.thread = .waiting := hw
    rw [hw, hcounted, hlen] at hone
    exact absurd (BitVec.toInt_inj.mp hone) hne
  | wake hthread htrgg => exact iff_of_true ⟨h.whole, nofun, hcount nofun, nofun⟩ trivial
  | look hthread hbus => exact iff_of_true ⟨h.whole, nofun, hcount nofun, nofun⟩ hbus
  | lookStop hthread hbus =>
    refine iff_of_false (fun hok => hok.running rfl) fun hup => ?_
    exact absurd (hbus.symm.trans hup) Bool.false_ne_true
  | sleep hthread hrxq =>
    exact iff_of_true ⟨h.whole, nofun, hcount nofun, fun _ _ hne => absurd hrxq hne⟩ trivial
  | @split mem len down allocs _ hthread hsplit =>
    rw [h.split_iff hcounts hcounts' hthread hsplit]
    refine ⟨fun hr mem' len' hthread' => ?_, fun hg => hg mem len hthread⟩
    rw [hthread] at hthread'
    cases hthread'
    exact hr
  | take hthread hrxq => exact iff_of_true ⟨h.whole, nofun, hcount nofun, nofun⟩ trivial

end RxOk

/-- The thread sleeps, and the count is too high for a completion to see 1 while a
transfer is queued. -/
structure Stalled (s : RxBus) : Prop where
  counts : RxCounts s
  asleep : s.thread = .waiting
  quiet : s.busrxTrgg = 0
  tooHigh : 0 < s.ebades
  noWrap : s.ebades + maxRxqlen ≤ 0x100000000
  queued : s.complete ≠ .idle → s.rxq ≠ []

theorem Stalled.step (h : Stalled s) (hstep : busRxStep s e = some s') : Stalled s' := by
  have hcounts := h.counts.step hstep
  obtain ⟨hwhole, hmove⟩ := busRxMove_of_step hstep
  have hasleep := h.asleep
  cases hmove with
  | state => exact ⟨hcounts, h.asleep, h.quiet, h.tooHigh, h.noWrap, h.queued⟩
  | receive hidle hup hroom =>
    exact ⟨hcounts, h.asleep, h.quiet, h.tooHigh, h.noWrap,
      fun _ => List.append_ne_nil_of_right_ne_nil _ nofun⟩
  | refuse hidle => exact h
  | count hqueued =>
    refine ⟨hcounts, h.asleep, h.quiet, h.tooHigh, h.noWrap, fun _ => h.queued ?_⟩
    rw [hqueued]
    exact nofun
  | signal hcounted hone =>
    -- A transfer is queued, so the count is between 2 and 2 ^ 32.
    have hne : s.rxq ≠ [] := by
      refine h.queued ?_
      rw [hcounted]
      exact nofun
    have hpos : 0 < s.rxq.length := List.length_pos_iff.mpr hne
    have hlen : s.rxq.length ≤ maxRxqlen := h.counts.room
    have htooHigh := h.tooHigh
    have hnoWrap := h.noWrap
    have hexcess := h.counts.excess hwhole
    have hnow : s.counted = (s.rxq.length : Int) := by
      unfold RxBus.counted
      rw [h.asleep, hcounted]
      simp only [BusRx.inHand, RxComplete.uncounted]
      omega
    unfold RxBus.excess at hexcess
    rw [hone, hnow, BitVec.ofInt_natCast] at hexcess
    have hsum : (1 : BitVec 32) = BitVec.ofNat 32 (s.ebades + s.rxq.length) := by
      rw [BitVec.ofNat_add]
      grind
    have hmod := congrArg BitVec.toNat hsum
    rw [BitVec.toNat_ofNat] at hmod
    have hmod' : 1 = (s.ebades + s.rxq.length) % 2 ^ 32 := hmod
    omega
  | noSignal hcounted hne =>
    exact ⟨hcounts, h.asleep, h.quiet, h.tooHigh, h.noWrap, fun hc => absurd rfl hc⟩
  | wake hthread htrgg =>
    rw [h.quiet] at htrgg
    cases htrgg
  | look hthread hbus =>
    rw [hthread] at hasleep
    cases hasleep
  | lookStop hthread hbus =>
    rw [hthread] at hasleep
    cases hasleep
  | sleep hthread hrxq =>
    rw [hthread] at hasleep
    cases hasleep
  | take hthread hrxq =>
    rw [hthread] at hasleep
    cases hasleep
  | split hthread hsplit =>
    rw [hthread] at hasleep
    cases hasleep

/-- After splits ended with `-EBADE`, and as long as there were not so many that the count
wraps: when the thread sleeps with nothing to wake it and no completion running, it sleeps
for good, whatever comes. -/
theorem rx_stalls (es fs : List BusRxEvent) (s : RxBus)
    (hrun : Transition.run busRxStep es rxBusInit = some s)
    (hfailed : 0 < s.ebades) (hfew : s.ebades + maxRxqlen ≤ 0x100000000)
    (hasleep : s.thread = .waiting) (hquiet : s.busrxTrgg = 0) (hidle : s.complete = .idle) :
    Transition.Always busRxStep (fun s => s.thread = .waiting) fs s := by
  have hcounts : RxCounts s :=
    (Transition.always_of_step (fun _ _ _ h hstep => h.step hstep) es rxCounts_init).of_run hrun
  have hstalled : Stalled s :=
    ⟨hcounts, hasleep, hquiet, hfailed, hfew, fun hne => absurd hidle hne⟩
  exact (Transition.always_of_step (fun _ _ _ h hstep => h.step hstep) fs hstalled).mono
    fun _ h => h.asleep

/-- A message for which there is no memory. -/
def failedMessage : List BusRxEvent :=
  [.state true true, .receive (memoryOf [4, 0, 0x11, 0, 1, 2, 3, 4]) 8, .count, .signal, .wake,
    .look, .take, .split false [false]]

theorem rx_stalls_message : ∃ s, Transition.run busRxStep failedMessage rxBusInit = some s ∧
    s.rxq = [] ∧ ∀ fs, Transition.Always busRxStep (fun s => s.thread = .waiting) fs s :=
  ⟨_, rfl, rfl, fun fs => rx_stalls failedMessage fs _ rfl (by decide) (by decide) rfl rfl rfl⟩

end LonganPi.Wifi
