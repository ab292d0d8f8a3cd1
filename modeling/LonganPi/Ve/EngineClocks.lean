import LonganPi.Lib.Transition
import LonganPi.Ve.Engine
import Mathlib.Tactic.Set

/-!
# The clocks follow the reference count

When every clock call succeeds, the clocks have two states: on, each enabled
once, or off.  `Clocks on s` says which one it is, and `enable_clocks` and
`disable_clocks` are the switches.

`ClocksFollow` is what the reference count promises: the clocks are on
exactly when there are users.  An unmatched release makes the count
negative, and a resume then switches the clocks on for nobody.  The other
two steps that break the promise are the ones at the ends of the range of an
`int`.  `engineGuard` is the condition, and `clocksFollow_iff` the result.
-/

namespace LonganPi.Ve

open Transition

variable {soc : Soc} {s s' : Engine}

/-! ## The two states of the clocks -/

/-- The clocks are on, each enabled once, or off. -/
structure Clocks (soc : Soc) (on : Bool) (s : Engine) : Prop where
  enableCount : ∀ c ∈ engineClks soc, s.enableCount c = if on then 1 else 0
  clkStatus : s.clkStatus = on
  pmBalance : s.pmBalance = if on then 1 else 0

/-- The clocks do not look at the count or at the power state. -/
theorem Clocks.congr {on : Bool} (h : Clocks soc on s)
    (hcount : s'.enableCount = s.enableCount)
    (hstatus : s'.clkStatus = s.clkStatus)
    (hpm : s'.pmBalance = s.pmBalance) : Clocks soc on s' where
  enableCount c hc := by rw [hcount, h.enableCount c hc]
  clkStatus := by rw [hstatus, h.clkStatus]
  pmBalance := by rw [hpm, h.pmBalance]

/-- When no clock fails, each clock of the list is enabled once more. -/
theorem clkPrepareEnable_ok (cs : List Clk) (hnd : cs.Nodup) (s : Engine) :
    clkPrepareEnable (fun _ => true) cs s
      = ({ s with enableCount := fun c =>
            if c ∈ cs then s.enableCount c + 1 else s.enableCount c }, 0) := by
  induction cs generalizing s with
  | nil => simp [clkPrepareEnable]
  | cons c cs ih =>
    obtain ⟨hnot, hnd'⟩ := List.nodup_cons.mp hnd
    unfold clkPrepareEnable
    rw [if_pos rfl, ih hnd']
    congr 2
    funext d
    by_cases hdc : d = c
    · subst hdc
      simp [hnot]
    · simp [hdc]

theorem clkDisableUnprepare_eq (cs : List Clk) (hnd : cs.Nodup) (s : Engine) :
    clkDisableUnprepare cs s
      = { s with enableCount := fun c =>
            if c ∈ cs then s.enableCount c - 1 else s.enableCount c } := by
  induction cs generalizing s with
  | nil => simp [clkDisableUnprepare]
  | cons c cs ih =>
    obtain ⟨hnot, hnd'⟩ := List.nodup_cons.mp hnd
    unfold clkDisableUnprepare
    rw [ih hnd']
    congr 1
    funext d
    by_cases hdc : d = c
    · subst hdc
      simp [hnot]
    · simp [hdc]

theorem engineClks_nodup (soc : Soc) : (engineClks soc).Nodup := by
  cases soc <;> decide

/-- The switch to on.  Clocks that are on stay as they are. -/
theorem enable_clocks {on : Bool} (h : Clocks soc on s)
    (hinit : s.bInitEndFlag = true) :
    ∃ s', enableCedarHwClk soc (fun _ => true) s = (s', 0) ∧
      Clocks soc true s' ∧ s'.refCount = s.refCount ∧
      s'.awake = s.awake ∧ s'.bInitEndFlag = true := by
  unfold enableCedarHwClk
  rw [if_neg (by simp [hinit])]
  cases on with
  | true =>
    rw [if_pos h.clkStatus]
    exact ⟨s, rfl, h, rfl, rfl, hinit⟩
  | false =>
    rw [if_neg (by simp [h.clkStatus])]
    simp only
    rw [clkPrepareEnable_ok _ (engineClks_nodup soc)]
    refine ⟨_, rfl, ⟨fun c hc => ?_, rfl, ?_⟩, rfl, rfl, hinit⟩
    · simp only [if_pos hc]
      rw [h.enableCount c hc]
      rfl
    · simp only
      rw [h.pmBalance]
      rfl

/-- The switch to off. -/
theorem disable_clocks {on : Bool} (h : Clocks soc on s) :
    Clocks soc false (disableCedarHwClk soc s) ∧
      (disableCedarHwClk soc s).refCount = s.refCount ∧
      (disableCedarHwClk soc s).awake = s.awake ∧
      (disableCedarHwClk soc s).bInitEndFlag = s.bInitEndFlag := by
  unfold disableCedarHwClk
  cases on with
  | false =>
    rw [if_pos h.clkStatus]
    exact ⟨h, rfl, rfl, rfl⟩
  | true =>
    have hnd : (engineClks soc).reverse.Nodup := by cases soc <;> decide
    rw [if_neg (by simp [h.clkStatus])]
    simp only
    rw [clkDisableUnprepare_eq _ hnd]
    refine ⟨⟨fun c hc => ?_, rfl, ?_⟩, rfl, rfl, rfl⟩
    · simp only [List.mem_reverse, if_pos hc]
      rw [h.enableCount c hc]
      rfl
    · simp only
      rw [h.pmBalance]
      rfl

/-! ## The promise of the reference count -/

/-- While the system is awake, the clocks are on exactly when there are
users. -/
def ClocksFollow (soc : Soc) (s : Engine) : Prop :=
  s.awake = true → Clocks soc (decide (0 < s.refCount)) s

/-- What else holds as long as the promise does. -/
structure EngineInv (soc : Soc) (s : Engine) : Prop where
  initEnd : s.bInitEndFlag = true
  ge : -2 ^ 31 ≤ s.refCount
  lt : s.refCount < 2 ^ 31
  asleep : s.awake = false → Clocks soc false s

/-- The condition on a call under which the promise is kept: no resume with
more releases than requests, and no count that wraps. -/
def engineGuard (s : Engine) : EngineOp → Prop
  | .req interrupted => interrupted = false → s.refCount ≠ 2 ^ 31 - 1
  | .rel interrupted => interrupted = false → s.refCount ≠ -2 ^ 31
  | .suspend => True
  | .resume => 0 ≤ s.refCount

/-- A step in which every clock call succeeds. -/
def engineStepOk (soc : Soc) (s : Engine) (op : EngineOp) : Option Engine :=
  (engineStep soc (fun _ => true) s op).map Prod.fst

theorem cInt_of_range {x : Int} (hge : -2 ^ 31 ≤ x) (hlt : x < 2 ^ 31) :
    cInt x = x := by
  unfold cInt Int.bmod
  dsimp only
  split_ifs <;> omega

theorem cInt_range (x : Int) : -2 ^ 31 ≤ cInt x ∧ cInt x < 2 ^ 31 := by
  unfold cInt Int.bmod
  dsimp only
  split_ifs <;> omega

/-- Clocks that are on do not pass for clocks that are off. -/
theorem Clocks.unique {on on' : Bool} (h : Clocks soc on s)
    (h' : Clocks soc on' s) : on = on' :=
  h.clkStatus.symm.trans h'.clkStatus

/-- A step that keeps the clocks and moves the count keeps the promise
exactly when the count stays on its side of 0. -/
theorem follow_of_count {count : Int} (hawake : s.awake = true)
    (h : Clocks soc (decide (0 < s.refCount)) s) :
    ClocksFollow soc { s with refCount := count } ↔
      (0 < count ↔ 0 < s.refCount) := by
  constructor
  · intro hf
    have hsame : Clocks soc (decide (0 < s.refCount))
        { s with refCount := count } := h.congr rfl rfl rfl
    exact (decide_eq_decide.mp (hsame.unique (hf hawake))).symm
  · intro hiff _
    show Clocks soc (decide (0 < count)) _
    rw [decide_eq_decide.mpr hiff]
    exact h.congr rfl rfl rfl

/-- A call that leaves the system awake owes nothing to the suspended
one. -/
theorem asleep_of_awake (hawake : s.awake = true) (hsame : s'.awake = s.awake)
    (hasleep : s'.awake = false) : Clocks soc false s' := by
  rw [hsame, hawake] at hasleep
  cases hasleep

theorem req_follows {interrupted : Bool} (hinv : EngineInv soc s)
    (hawake : s.awake = true) (h : ClocksFollow soc s) :
    let s' := (ioctlEngineReq soc (fun _ => true) interrupted s).1
    (ClocksFollow soc s' ↔ engineGuard s (.req interrupted)) ∧
      EngineInv soc s' := by
  have hclocks := h hawake
  have hge := hinv.ge
  have hlt := hinv.lt
  cases interrupted with
  | true => exact ⟨iff_of_true h fun hc => (by cases hc), hinv⟩
  | false =>
    have hguard : engineGuard s (.req false) ↔ s.refCount ≠ 2 ^ 31 - 1 :=
      ⟨fun hg => hg rfl, fun hg _ => hg⟩
    rw [hguard]
    unfold ioctlEngineReq
    simp only [Bool.false_eq_true, if_false]
    by_cases hneg : s.refCount < 0
    · rw [if_pos hneg]
      exact ⟨iff_of_true h (by omega), hinv⟩
    · rw [if_neg hneg]
      by_cases hone : cInt (s.refCount + 1) = 1
      · -- The first user: the clocks are off and are switched on.
        have hzero : s.refCount = 0 := by
          by_contra hne
          by_cases hmax : s.refCount = 2 ^ 31 - 1
          · rw [hmax] at hone
            revert hone
            decide
          · rw [cInt_of_range (by omega) (by omega)] at hone
            omega
        rw [hzero] at hclocks
        obtain ⟨s', heq, hon, hcount, hawake', hinit⟩ := enable_clocks
          (s := { s with refCount := cInt (s.refCount + 1) })
          (hclocks.congr rfl rfl rfl) hinv.initEnd
        simp only [if_pos hone, heq]
        rw [if_neg (by decide)]
        have hcount' : s'.refCount = 1 := hcount.trans hone
        show (ClocksFollow soc s' ↔ _) ∧ EngineInv soc s'
        refine ⟨iff_of_true (fun _ => ?_) (by omega), hinit, by omega,
          by omega, asleep_of_awake hawake hawake'⟩
        rw [hcount']
        exact hon
      · rw [if_neg hone]
        obtain ⟨hge', hlt'⟩ := cInt_range (s.refCount + 1)
        refine ⟨?_, hinv.initEnd, hge', hlt', asleep_of_awake hawake rfl⟩
        rw [follow_of_count hawake hclocks]
        by_cases hmax : s.refCount = 2 ^ 31 - 1
        · rw [hmax]
          decide
        · rw [cInt_of_range (by omega) (by omega)] at hone ⊢
          exact iff_of_true (by omega) hmax

theorem rel_follows {interrupted : Bool} (hinv : EngineInv soc s)
    (hawake : s.awake = true) (h : ClocksFollow soc s) :
    let s' := (ioctlEngineRel soc interrupted s).1
    (ClocksFollow soc s' ↔ engineGuard s (.rel interrupted)) ∧
      EngineInv soc s' := by
  have hclocks := h hawake
  have hge := hinv.ge
  have hlt := hinv.lt
  cases interrupted with
  | true => exact ⟨iff_of_true h fun hc => (by cases hc), hinv⟩
  | false =>
    have hguard : engineGuard s (.rel false) ↔ s.refCount ≠ -2 ^ 31 :=
      ⟨fun hg => hg rfl, fun hg _ => hg⟩
    obtain ⟨hge', hlt'⟩ := cInt_range (s.refCount - 1)
    have hinv' : EngineInv soc
        { s with refCount := cInt (s.refCount - 1) } :=
      ⟨hinv.initEnd, hge', hlt', asleep_of_awake hawake rfl⟩
    have hmove : cInt (s.refCount - 1) ≠ 0 →
        (ClocksFollow soc { s with refCount := cInt (s.refCount - 1) } ↔
          s.refCount ≠ -2 ^ 31) := by
      intro hnz
      rw [follow_of_count hawake hclocks]
      by_cases hmin : s.refCount = -2 ^ 31
      · rw [hmin]
        decide
      · rw [cInt_of_range (by omega) (by omega)] at hnz ⊢
        exact iff_of_true (by omega) hmin
    rw [hguard]
    unfold ioctlEngineRel
    simp only [Bool.false_eq_true, if_false]
    by_cases hneg : cInt (s.refCount - 1) < 0
    · rw [if_pos hneg]
      exact ⟨hmove (by omega), hinv'⟩
    · rw [if_neg hneg]
      by_cases hzero : cInt (s.refCount - 1) = 0
      · -- The last user: the clocks are switched off.
        have hmin : s.refCount ≠ -2 ^ 31 := by
          intro hmin
          rw [hmin] at hzero
          revert hzero
          decide
        obtain ⟨hoff, hcount, hawake', hinit⟩ := disable_clocks
          (s := { s with refCount := cInt (s.refCount - 1) })
          (hclocks.congr rfl rfl rfl)
        rw [if_pos hzero]
        set s' := disableCedarHwClk soc
          { s with refCount := cInt (s.refCount - 1) } with hs'
        have hcount' : s'.refCount = 0 := hcount.trans hzero
        show (ClocksFollow soc s' ↔ _) ∧ EngineInv soc s'
        refine ⟨iff_of_true (fun _ => ?_) hmin, hinit.trans hinv.initEnd,
          by omega, by omega, asleep_of_awake hawake hawake'⟩
        rw [hcount']
        exact hoff
      · rw [if_neg hzero]
        exact ⟨hmove hzero, hinv'⟩

/-- A resume finds the clocks off. -/
theorem resume_follows (hinv : EngineInv soc s) (hasleep : s.awake = false) :
    let s' := (sunxiCedarResume soc (fun _ => true) s).1
    (ClocksFollow soc { s' with awake := true } ↔ 0 ≤ s.refCount) ∧
      EngineInv soc { s' with awake := true } := by
  have hoff := hinv.asleep hasleep
  unfold sunxiCedarResume
  by_cases hzero : s.refCount = 0
  · rw [if_pos hzero]
    refine ⟨iff_of_true (fun _ => ?_) (by omega), hinv.initEnd, hinv.ge,
      hinv.lt, fun hc => by cases hc⟩
    show Clocks soc (decide (0 < s.refCount)) _
    rw [hzero]
    exact hoff.congr rfl rfl rfl
  · obtain ⟨s', heq, hon, hcount, -, hinit⟩ :=
      enable_clocks hoff hinv.initEnd
    rw [if_neg hzero]
    simp only [heq]
    rw [if_neg (by decide)]
    have hge := hinv.ge
    have hlt := hinv.lt
    refine ⟨?_, hinit, by rw [hcount]; exact hge, by rw [hcount]; exact hlt,
      fun hc => by cases hc⟩
    constructor
    · intro hf
      have hsame : Clocks soc true { s' with awake := true } :=
        hon.congr rfl rfl rfl
      have hpos : decide (0 < s'.refCount) = true :=
        (hsame.unique (hf rfl)).symm
      have := of_decide_eq_true hpos
      omega
    · intro hge _
      have hpos : 0 < s'.refCount := by omega
      show Clocks soc (decide (0 < s'.refCount)) _
      rw [decide_eq_true hpos]
      exact hon.congr rfl rfl rfl

/-! ## Runs -/

theorem engineStepOk_follows {op : EngineOp} (hinv : EngineInv soc s)
    (h : ClocksFollow soc s) (hstep : engineStepOk soc s op = some s') :
    (ClocksFollow soc s' ↔ engineGuard s op) ∧ EngineInv soc s' := by
  obtain ⟨r, hr, rfl⟩ := Option.map_eq_some_iff.mp hstep
  cases engineStep_ran hr with
  | req hawake => exact req_follows hinv hawake h
  | rel hawake => exact rel_follows hinv hawake h
  | suspend hawake =>
    obtain ⟨hoff, hcount, -, hinit⟩ := disable_clocks (h hawake)
    refine ⟨iff_of_true (fun hc => by cases hc) trivial,
      hinit.trans hinv.initEnd, ?_, ?_, fun _ => hoff.congr rfl rfl rfl⟩
    · exact hcount.symm ▸ hinv.ge
    · exact hcount.symm ▸ hinv.lt
  | resume hawake => exact resume_follows hinv hawake

theorem clocks_init (soc : Soc) : Clocks soc false Engine.init :=
  ⟨fun _ _ => rfl, rfl, rfl⟩

/-- When every clock call succeeds, the clocks follow the reference count in
every state of a run exactly when every call meets `engineGuard`. -/
theorem clocksFollow_iff (soc : Soc) (ops : List EngineOp) :
    Always (engineStepOk soc) (ClocksFollow soc) ops Engine.init ↔
      Guarded (engineStepOk soc) engineGuard ops Engine.init := by
  refine always_iff_guarded (I := EngineInv soc) ?_ ?_ ?_ ?_ ops
  · intro s op s' hinv h hstep
    exact (engineStepOk_follows hinv h hstep).1
  · intro s op s' hinv h hstep _
    exact (engineStepOk_follows hinv h hstep).2
  · exact ⟨rfl, by decide, by decide, fun _ => clocks_init soc⟩
  · exact fun _ => clocks_init soc

/-- One release too many, a suspend and a resume: the clocks are on with a
count of -1. -/
theorem unmatched_rel_resume :
    ¬ Always (engineStepOk .other) (ClocksFollow .other)
      [.rel false, .suspend, .resume] Engine.init := by
  intro h
  have hlast := h.of_run rfl rfl
  have hoff := hlast.clkStatus
  revert hoff
  decide

end LonganPi.Ve
