import LonganPi.Ve.EngineClocks

/-!
# Requests that fail

`enable_cedar_hw_clk` sets `clk_status` before it touches a clock, and a
clock that fails leaves everything before it as it is.  `IOCTL_ENGINE_REQ`
takes back its count and nothing else, so the next request finds
`clk_status` set and succeeds without the clocks.

* `RequestSound` says of the last call of a run that a failed request has
  changed nothing, and that a successful one has the clocks on.
* `requestSound_of_guarded`: every call of a run is sound when no clock fails
  at a first request or at a resume, and no release wraps the count.
* `failed_first_request`: a clock that fails at a first request is not taken
  back.
-/

namespace LonganPi.Ve

open Transition

variable {soc : Soc} {s s' : Engine}

/-! ## Runs with clocks that may fail -/

/-- A call, with the outcomes of its clock calls. -/
structure EngineCall where
  op : EngineOp
  ok : Clk → Bool

/-- The engine, and the last call with the engine before it and its
result. -/
structure Called where
  engine : Engine
  last : Option (EngineOp × Engine × Int)

/-- No call so far. -/
def Called.init : Called := ⟨Engine.init, none⟩

/-- One call. -/
def calledStep (soc : Soc) (c : Called) (a : EngineCall) : Option Called :=
  (engineStep soc a.ok c.engine a.op).map fun r =>
    ⟨r.1, some (a.op, c.engine, r.2)⟩

/-- What a request changes is as it was. -/
structure Undone (s s' : Engine) : Prop where
  refCount : s'.refCount = s.refCount
  clkStatus : s'.clkStatus = s.clkStatus
  enableCount : s'.enableCount = s.enableCount
  resetDeasserted : s'.resetDeasserted = s.resetDeasserted
  pmBalance : s'.pmBalance = s.pmBalance

/-- The clocks of the build are enabled and the reset is deasserted. -/
def Powered (soc : Soc) (s : Engine) : Prop :=
  (∀ c ∈ engineClks soc, 0 < s.enableCount c) ∧ s.resetDeasserted = true

/-- A first request that failed has changed nothing, and a request that
returned 0 has the engine powered. -/
def RequestSound (soc : Soc) (c : Called) : Prop :=
  ∀ interrupted before ret, c.last = some (.req interrupted, before, ret) →
    (before.refCount = 0 → ret < 0 → Undone before c.engine) ∧
      (ret = 0 → Powered soc c.engine)

/-- No clock fails at a first request or at a resume, and no release finds
the least `int`. -/
def rollbackGuard (soc : Soc) (c : Called) (a : EngineCall) : Prop :=
  match a.op with
  | .req interrupted => interrupted = false → c.engine.refCount = 0 →
      ∀ clk ∈ engineClks soc, a.ok clk = true
  | .rel interrupted => interrupted = false → c.engine.refCount ≠ -2 ^ 31
  | .suspend => True
  | .resume => c.engine.refCount ≠ 0 →
      ∀ clk ∈ engineClks soc, a.ok clk = true

/-! ## The switches -/

/-- The clocks and the reset line are both on, or both off. -/
structure Switched (soc : Soc) (on : Bool) (s : Engine) : Prop where
  clocks : Clocks soc on s
  reset : s.resetDeasserted = on

theorem Switched.powered (h : Switched soc true s) : Powered soc s := by
  refine ⟨fun c hc => ?_, h.reset⟩
  rw [h.clocks.enableCount c hc]
  decide

/-- The switch does not look at the count or at the power state. -/
theorem Switched.congr {on : Bool} (h : Switched soc on s)
    (hcount : s'.enableCount = s.enableCount)
    (hstatus : s'.clkStatus = s.clkStatus)
    (hpm : s'.pmBalance = s.pmBalance)
    (hreset : s'.resetDeasserted = s.resetDeasserted) :
    Switched soc on s' :=
  ⟨h.clocks.congr hcount hstatus hpm, hreset.trans h.reset⟩

theorem clkPrepareEnable_reset (ok : Clk → Bool) (cs : List Clk)
    (s : Engine) :
    (clkPrepareEnable ok cs s).1.resetDeasserted = s.resetDeasserted := by
  induction cs generalizing s with
  | nil => rfl
  | cons c cs ih =>
    unfold clkPrepareEnable
    split_ifs
    · rw [ih]
    · rfl

/-- Only the outcomes of the clocks of the list matter. -/
theorem clkPrepareEnable_congr {ok : Clk → Bool} {cs : List Clk}
    (hok : ∀ c ∈ cs, ok c = true) (s : Engine) :
    clkPrepareEnable ok cs s = clkPrepareEnable (fun _ => true) cs s := by
  induction cs generalizing s with
  | nil => rfl
  | cons c cs ih =>
    unfold clkPrepareEnable
    rw [if_pos (hok c List.mem_cons_self), if_pos rfl,
      ih fun d hd => hok d (List.mem_cons_of_mem c hd)]

/-- The switch to on, when no clock fails. -/
theorem enable_switched {on : Bool} {ok : Clk → Bool}
    (hok : ∀ c ∈ engineClks soc, ok c = true) (h : Switched soc on s)
    (hinit : s.bInitEndFlag = true) :
    ∃ s', enableCedarHwClk soc ok s = (s', 0) ∧ Switched soc true s' ∧
      s'.refCount = s.refCount ∧ s'.awake = s.awake ∧
      s'.bInitEndFlag = true := by
  obtain ⟨s', heq, hclocks, hcount, hawake, hinit'⟩ :=
    enable_clocks h.clocks hinit
  have hsame : enableCedarHwClk soc ok s
      = enableCedarHwClk soc (fun _ => true) s := by
    unfold enableCedarHwClk
    simp only [clkPrepareEnable_congr hok]
  refine ⟨s', hsame.trans heq, ⟨hclocks, ?_⟩, hcount, hawake, hinit'⟩
  have hfst : s' = (enableCedarHwClk soc (fun _ => true) s).1 := by rw [heq]
  rw [hfst]
  unfold enableCedarHwClk
  rw [if_neg (by simp [hinit])]
  cases on with
  | true =>
    rw [if_pos h.clocks.clkStatus]
    exact h.reset
  | false =>
    rw [if_neg (by simp [h.clocks.clkStatus])]
    exact clkPrepareEnable_reset _ _ _

/-- The switch to off. -/
theorem disable_switched {on : Bool} (h : Switched soc on s) :
    Switched soc false (disableCedarHwClk soc s) := by
  refine ⟨(disable_clocks h.clocks).1, ?_⟩
  unfold disableCedarHwClk
  cases on with
  | true => rw [if_neg (by simp [h.clocks.clkStatus])]
  | false =>
    rw [if_pos h.clocks.clkStatus]
    exact h.reset

/-! ## The invariant of a guarded run -/

/-- The engine is off with a count of 0 and while the system is suspended,
and on with users. -/
structure SwitchInv (soc : Soc) (on : Bool) (s : Engine) : Prop where
  switched : Switched soc on s
  initEnd : s.bInitEndFlag = true
  ge : -2 ^ 31 ≤ s.refCount
  lt : s.refCount < 2 ^ 31
  off_unused : s.awake = true → s.refCount = 0 → on = false
  on_used : s.awake = true → 0 < s.refCount → on = true
  off_asleep : s.awake = false → on = false

theorem switchInv_init (soc : Soc) : SwitchInv soc false Engine.init where
  switched := ⟨clocks_init soc, rfl⟩
  initEnd := rfl
  ge := by decide
  lt := by decide
  off_unused _ _ := rfl
  on_used _ h := absurd h (by decide)
  off_asleep _ := rfl

theorem Undone.refl (s : Engine) : Undone s s := ⟨rfl, rfl, rfl, rfl, rfl⟩

/-- A request that is guarded is sound and keeps the invariant. -/
theorem req_sound {on interrupted : Bool} {ok : Clk → Bool}
    (hinv : SwitchInv soc on s) (hawake : s.awake = true)
    (hguard : interrupted = false → s.refCount = 0 →
      ∀ c ∈ engineClks soc, ok c = true) :
    let r := ioctlEngineReq soc ok interrupted s
    (∃ on', SwitchInv soc on' r.1) ∧
      (s.refCount = 0 → r.2 < 0 → Undone s r.1) ∧
      (r.2 = 0 → Powered soc r.1) := by
  have hge := hinv.ge
  have hlt := hinv.lt
  unfold ioctlEngineReq
  cases interrupted with
  | true =>
    exact ⟨⟨on, hinv⟩, fun _ _ => Undone.refl s, fun h => by cases h⟩
  | false =>
    simp only [Bool.false_eq_true, if_false]
    by_cases hneg : s.refCount < 0
    · rw [if_pos hneg]
      exact ⟨⟨on, hinv⟩, fun _ _ => Undone.refl s, fun h => by cases h⟩
    · rw [if_neg hneg]
      by_cases hzero : s.refCount = 0
      · -- The first user: no clock fails.
        have hone : cInt (s.refCount + 1) = 1 := by
          rw [hzero]
          decide
        obtain ⟨s', heq, hon, hcount, hawake', hinit⟩ := enable_switched
          (s := { s with refCount := cInt (s.refCount + 1) })
          (hguard rfl hzero) (hinv.switched.congr rfl rfl rfl rfl)
          hinv.initEnd
        simp only [if_pos hone, heq]
        rw [if_neg (by decide)]
        have hcount' : s'.refCount = 1 := hcount.trans hone
        have hstay : s'.awake = true := hawake'.trans hawake
        show (∃ on', SwitchInv soc on' s') ∧
          (s.refCount = 0 → (0 : Int) < 0 → Undone s s') ∧
          ((0 : Int) = 0 → Powered soc s')
        refine ⟨⟨true, hon, hinit, by omega, by omega, ?_, fun _ _ => rfl, ?_⟩,
          fun _ h => absurd h (by decide), fun _ => hon.powered⟩
        · intro _ h
          omega
        · intro h
          rw [hstay] at h
          cases h
      · -- Another user finds the engine on.
        have hon : on = true := hinv.on_used hawake (by omega)
        subst hon
        have hne : cInt (s.refCount + 1) ≠ 1 ∧ cInt (s.refCount + 1) ≠ 0 := by
          by_cases hmax : s.refCount = 2 ^ 31 - 1
          · rw [hmax]
            decide
          · rw [cInt_of_range (by omega) (by omega)]
            omega
        obtain ⟨hge', hlt'⟩ := cInt_range (s.refCount + 1)
        have hon' : Switched soc true
            { s with refCount := cInt (s.refCount + 1) } :=
          hinv.switched.congr rfl rfl rfl rfl
        rw [if_neg hne.1]
        refine ⟨⟨true, hon', hinv.initEnd, hge', hlt',
          fun _ h => absurd h hne.2, fun _ _ => rfl, hinv.off_asleep⟩,
          fun h => absurd h hzero, fun _ => hon'.powered⟩

/-- A release that does not wrap the count keeps the invariant. -/
theorem rel_switchInv {on interrupted : Bool} (hinv : SwitchInv soc on s)
    (hawake : s.awake = true)
    (hguard : interrupted = false → s.refCount ≠ -2 ^ 31) :
    ∃ on', SwitchInv soc on' (ioctlEngineRel soc interrupted s).1 := by
  have hge := hinv.ge
  have hlt := hinv.lt
  unfold ioctlEngineRel
  cases interrupted with
  | true => exact ⟨on, hinv⟩
  | false =>
    have hmin := hguard rfl
    have hcount : cInt (s.refCount - 1) = s.refCount - 1 :=
      cInt_of_range (by omega) (by omega)
    have hlower : Switched soc on
        { s with refCount := cInt (s.refCount - 1) } :=
      hinv.switched.congr rfl rfl rfl rfl
    have hkeep : s.refCount - 1 ≠ 0 →
        SwitchInv soc on { s with refCount := cInt (s.refCount - 1) } := by
      intro hnz
      refine ⟨hlower, hinv.initEnd, ?_, ?_, ?_, ?_, hinv.off_asleep⟩ <;>
        simp only [hcount]
      · omega
      · omega
      · exact fun _ h => absurd h hnz
      · exact fun _ h => hinv.on_used hawake (by omega)
    simp only [Bool.false_eq_true, if_false]
    by_cases hneg : cInt (s.refCount - 1) < 0
    · rw [if_pos hneg]
      exact ⟨on, hkeep (by omega)⟩
    · rw [if_neg hneg]
      by_cases hzero : cInt (s.refCount - 1) = 0
      · -- The last user switches the engine off.
        obtain ⟨-, hsame, -, hinit⟩ := disable_clocks hlower.clocks
        have hoff := disable_switched hlower
        rw [if_pos hzero]
        set s' := disableCedarHwClk soc
          { s with refCount := cInt (s.refCount - 1) } with hs'
        have hzero' : s'.refCount = 0 := hsame.trans hzero
        show ∃ on', SwitchInv soc on' s'
        refine ⟨false, hoff, hinit.trans hinv.initEnd, by omega, by omega,
          fun _ _ => rfl, fun _ h => ?_, fun _ => rfl⟩
        omega
      · rw [if_neg hzero]
        exact ⟨on, hkeep (by omega)⟩

/-- A suspend switches the engine off. -/
theorem suspend_switchInv {on : Bool} (hinv : SwitchInv soc on s) :
    SwitchInv soc false { (sunxiCedarSuspend soc s).1 with awake := false } := by
  obtain ⟨-, hcount, -, hinit⟩ := disable_clocks hinv.switched.clocks
  have hoff := disable_switched hinv.switched
  refine ⟨hoff.congr rfl rfl rfl rfl, hinit.trans hinv.initEnd,
    hcount.symm ▸ hinv.ge, hcount.symm ▸ hinv.lt, fun _ _ => rfl,
    fun h => ?_, fun _ => rfl⟩
  cases h

/-- A resume with users and no failing clock switches the engine on. -/
theorem resume_switchInv {on : Bool} {ok : Clk → Bool}
    (hinv : SwitchInv soc on s) (hasleep : s.awake = false)
    (hguard : s.refCount ≠ 0 → ∀ c ∈ engineClks soc, ok c = true) :
    ∃ on', SwitchInv soc on'
      { (sunxiCedarResume soc ok s).1 with awake := true } := by
  have hge := hinv.ge
  have hlt := hinv.lt
  unfold sunxiCedarResume
  by_cases hzero : s.refCount = 0
  · have hoff := hinv.off_asleep hasleep
    rw [if_pos hzero]
    refine ⟨on, hinv.switched.congr rfl rfl rfl rfl, hinv.initEnd, hge, hlt,
      fun _ _ => hoff, fun _ h => ?_, fun h => ?_⟩
    · exact absurd hzero (Int.ne_of_gt h)
    · cases h
  · obtain ⟨s', heq, hon, hcount, -, hinit⟩ :=
      enable_switched (hguard hzero) hinv.switched hinv.initEnd
    rw [if_neg hzero]
    simp only [heq]
    rw [if_neg (by decide)]
    refine ⟨true, hon.congr rfl rfl rfl rfl, hinit, ?_, ?_, fun _ h => ?_,
      fun _ _ => rfl, fun h => ?_⟩
    · exact hcount.symm ▸ hge
    · exact hcount.symm ▸ hlt
    · exact absurd (hcount.symm.trans h) hzero
    · cases h

/-! ## Runs -/

theorem calledStep_sound {c c' : Called} {a : EngineCall}
    (hinv : ∃ on, SwitchInv soc on c.engine) (hguard : rollbackGuard soc c a)
    (hstep : calledStep soc c a = some c') :
    (∃ on, SwitchInv soc on c'.engine) ∧ RequestSound soc c' := by
  obtain ⟨on, hinv⟩ := hinv
  obtain ⟨op, ok⟩ := a
  obtain ⟨r, hr, rfl⟩ := Option.map_eq_some_iff.mp hstep
  cases engineStep_ran hr with
  | req hawake =>
    obtain ⟨hinv', hfail, hok⟩ := req_sound hinv hawake hguard
    refine ⟨hinv', fun i before ret hlast => ?_⟩
    simp only [Option.some.injEq, Prod.mk.injEq] at hlast
    obtain ⟨-, rfl, rfl⟩ := hlast
    exact ⟨hfail, hok⟩
  | rel hawake =>
    exact ⟨rel_switchInv hinv hawake hguard,
      fun i before ret hlast => by simp at hlast⟩
  | suspend hawake =>
    exact ⟨⟨false, suspend_switchInv hinv⟩,
      fun i before ret hlast => by simp at hlast⟩
  | resume hawake =>
    exact ⟨resume_switchInv hinv hawake hguard,
      fun i before ret hlast => by simp at hlast⟩

/-- Every call of a guarded run is sound. -/
theorem requestSound_of_guarded (soc : Soc) (calls : List EngineCall)
    (h : Guarded (calledStep soc) (rollbackGuard soc) calls Called.init) :
    Always (calledStep soc) (RequestSound soc) calls Called.init := by
  have hboth : Always (calledStep soc)
      (fun c => (∃ on, SwitchInv soc on c.engine) ∧ RequestSound soc c)
      calls Called.init := by
    refine always_of_guarded (fun c a c' hc hguard hstep =>
      calledStep_sound hc.1 hguard hstep) ?_ h
    exact ⟨⟨false, switchInv_init soc⟩,
      fun _ _ _ hlast => by simp [Called.init] at hlast⟩
  exact hboth.mono fun _ hc => hc.2

/-- Two requests, a release, a suspend and a resume.  The second request and the release
do not need the clocks. -/
def twoRequests : List EngineCall :=
  [⟨.req false, fun _ => true⟩, ⟨.req false, fun _ => false⟩, ⟨.rel false, fun _ => false⟩,
    ⟨.suspend, fun _ => false⟩, ⟨.resume, fun _ => true⟩]

theorem requestSound_two :
    Always (calledStep .other) (RequestSound .other) twoRequests Called.init := by
  refine requestSound_of_guarded .other twoRequests ?_
  refine Guarded.cons rfl (fun _ _ _ _ => rfl) ?_
  refine Guarded.cons rfl (fun _ hzero => absurd hzero (by decide)) ?_
  refine Guarded.cons rfl (fun _ => by decide) ?_
  refine Guarded.cons rfl trivial ?_
  exact Guarded.cons rfl (fun _ _ _ => rfl) trivial

/-! ## A clock that fails -/

/-- A first request whose clock fails sets `clk_status` and is refused. -/
theorem failed_first_request {ok : Clk → Bool} {clk : Clk}
    (hinit : s.bInitEndFlag = true) (hoff : s.clkStatus = false)
    (hzero : s.refCount = 0) (hclk : clk ∈ engineClks soc)
    (hfail : ok clk = false) :
    (ioctlEngineReq soc ok false s).2 = eFault ∧
      (ioctlEngineReq soc ok false s).1.clkStatus = true := by
  have hlist : ∀ (cs : List Clk) (s : Engine), clk ∈ cs →
      (clkPrepareEnable ok cs s).2 = eInval ∧
        (clkPrepareEnable ok cs s).1.clkStatus = s.clkStatus := by
    intro cs
    induction cs with
    | nil => intro s hmem; cases hmem
    | cons c cs ih =>
      intro s hmem
      unfold clkPrepareEnable
      by_cases hok : ok c = true
      · rw [if_pos hok]
        rcases List.mem_cons.mp hmem with rfl | hmem'
        · rw [hfail] at hok
          cases hok
        · exact ih _ hmem'
      · rw [if_neg hok]
        exact ⟨rfl, rfl⟩
  have hone : cInt (0 + 1) = 1 := by decide
  have hnneg : ¬ (0 : Int) < 0 := by decide
  obtain ⟨hret, hstatus⟩ := hlist (engineClks soc)
    ⟨true, 1, true, s.enableCount, true, s.pmBalance + 1, s.awake⟩ hclk
  unfold ioctlEngineReq enableCedarHwClk
  simp only [hzero, hone, hinit, hoff, hnneg, hret, Bool.false_eq_true,
    if_false, Bool.true_eq_false, if_true]
  rw [if_pos (by decide)]
  exact ⟨rfl, hstatus⟩

/-- The bus clock fails at the first request, and at no later one. -/
theorem retry_without_clocks :
    ¬ Always (calledStep .other) (RequestSound .other)
        [⟨.req false, fun _ => false⟩] Called.init ∧
      ∃ c before, run (calledStep .other)
          [⟨.req false, fun _ => false⟩, ⟨.req false, fun _ => true⟩]
          Called.init = some c ∧
        c.last = some (.req false, before, 0) ∧ ¬ Powered .other c.engine := by
  constructor
  · intro h
    have hlast := h.of_run rfl false _ _ rfl
    have hundone := hlast.1 rfl (by decide)
    have hstatus := hundone.clkStatus
    revert hstatus
    decide
  · refine ⟨_, _, rfl, rfl, fun hpowered => ?_⟩
    have hclk := hpowered.1 .ve (by decide)
    revert hclk
    decide

end LonganPi.Ve
