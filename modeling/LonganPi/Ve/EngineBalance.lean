import LonganPi.Ve.EngineClocks

/-!
# The reference count as a balance

`IOCTL_ENGINE_REQ` and `IOCTL_ENGINE_REL` in any order, by any clients, with
clocks that may fail.  The file that calls is not part of a label, since
neither ioctl looks at it.

`Tally` adds the number of calls that succeeded to the engine, and
`ExactBalance` says that `ref_count` is their difference.  A release without
a request returns an error and lowers the count all the same, and from then
on every request is refused (`refused_forever`).  `countGuard` is the exact
condition, and `exactBalance_iff` the result.
-/

namespace LonganPi.Ve

open Transition

/-- A call of a client, with the outcomes of its clock calls. -/
inductive ClientOp where
  | req (ok : Clk → Bool) (interrupted : Bool)
  | rel (interrupted : Bool)

/-- What the call does. -/
def ClientOp.call (soc : Soc) : ClientOp → Engine → Engine × Int
  | .req ok interrupted => ioctlEngineReq soc ok interrupted
  | .rel interrupted => ioctlEngineRel soc interrupted

/-- The engine, and an account of the calls so far. -/
structure Tally where
  engine : Engine
  /-- The requests that returned 0. -/
  reqs : Nat
  /-- The releases that returned 0. -/
  rels : Nat
  /-- A call that returned an error has changed the count. -/
  errorChanged : Bool

/-- No call so far. -/
def Tally.init : Tally where
  engine := Engine.init
  reqs := 0
  rels := 0
  errorChanged := false

/-- The account of a call that took the engine to `e` and returned `ret`. -/
def Tally.record (t : Tally) (op : ClientOp) (e : Engine) (ret : Int) :
    Tally :=
  if ret = 0 then
    match op with
    | .req _ _ => { t with engine := e, reqs := t.reqs + 1 }
    | .rel _ => { t with engine := e, rels := t.rels + 1 }
  else
    { t with
      engine := e
      errorChanged := t.errorChanged || e.refCount != t.engine.refCount }

/-- One call. -/
def tallyStep (soc : Soc) (t : Tally) (op : ClientOp) : Option Tally :=
  let r := op.call soc t.engine
  some (t.record op r.1 r.2)

/-- The count is the number of requests less the number of releases, no call
that failed has changed it, and the next request of any client is served when
its clocks are. -/
structure ExactBalance (soc : Soc) (t : Tally) : Prop where
  balance : t.engine.refCount = (t.reqs : Int) - t.rels
  nonneg : 0 ≤ t.engine.refCount
  errorKept : t.errorChanged = false
  served : (ioctlEngineReq soc (fun _ => true) false t.engine).2 = 0

/-- The condition on a call: no release at a count of 0, and no request at
the greatest `int`. -/
def countGuard (t : Tally) : ClientOp → Prop
  | .req _ interrupted =>
    interrupted = false → t.engine.refCount ≠ 2 ^ 31 - 1
  | .rel interrupted => interrupted = false → 0 < t.engine.refCount

/-- What else holds in every state. -/
structure CountInv (e : Engine) : Prop where
  initEnd : e.bInitEndFlag = true
  lt : e.refCount < 2 ^ 31

variable {soc : Soc} {e : Engine} {t t' : Tally}

/-! ## What the clocks leave alone -/

theorem clkPrepareEnable_keeps (ok : Clk → Bool) (cs : List Clk) (e : Engine) :
    let r := clkPrepareEnable ok cs e
    r.1.refCount = e.refCount ∧ r.1.bInitEndFlag = e.bInitEndFlag ∧
      (r.2 = 0 ∨ r.2 = eInval) := by
  induction cs generalizing e with
  | nil => exact ⟨rfl, rfl, Or.inl rfl⟩
  | cons c cs ih =>
    unfold clkPrepareEnable
    split_ifs with hok
    · exact ih _
    · exact ⟨rfl, rfl, Or.inr rfl⟩

theorem enableCedarHwClk_keeps (soc : Soc) (ok : Clk → Bool) (e : Engine) :
    let r := enableCedarHwClk soc ok e
    r.1.refCount = e.refCount ∧ r.1.bInitEndFlag = e.bInitEndFlag ∧
      (r.2 = 0 ∨ r.2 = eInval) := by
  unfold enableCedarHwClk
  split_ifs with hinit hon
  · exact ⟨rfl, rfl, Or.inr rfl⟩
  · exact ⟨rfl, rfl, Or.inl rfl⟩
  · exact clkPrepareEnable_keeps ok (engineClks soc) _

theorem clkDisableUnprepare_keeps (cs : List Clk) (e : Engine) :
    (clkDisableUnprepare cs e).refCount = e.refCount ∧
      (clkDisableUnprepare cs e).bInitEndFlag = e.bInitEndFlag := by
  induction cs generalizing e with
  | nil => exact ⟨rfl, rfl⟩
  | cons c cs ih =>
    unfold clkDisableUnprepare
    exact ih _

theorem disableCedarHwClk_keeps (soc : Soc) (e : Engine) :
    (disableCedarHwClk soc e).refCount = e.refCount ∧
      (disableCedarHwClk soc e).bInitEndFlag = e.bInitEndFlag := by
  unfold disableCedarHwClk
  split_ifs with hoff
  · exact ⟨rfl, rfl⟩
  · exact clkDisableUnprepare_keeps (engineClks soc).reverse _

/-- A first user gets the clocks when none of them fails. -/
theorem enableCedarHwClk_ok (hinit : e.bInitEndFlag = true) :
    (enableCedarHwClk soc (fun _ => true) e).2 = 0 := by
  unfold enableCedarHwClk
  rw [if_neg (by simp [hinit])]
  split_ifs with hon
  · rfl
  · simp only
    rw [clkPrepareEnable_ok _ (engineClks_nodup soc)]

/-- Whoever asks is served while the count is not negative. -/
theorem served_of_nonneg (hinit : e.bInitEndFlag = true)
    (hge : 0 ≤ e.refCount) :
    (ioctlEngineReq soc (fun _ => true) false e).2 = 0 := by
  unfold ioctlEngineReq
  rw [if_neg Bool.false_ne_true, if_neg (by omega)]
  dsimp only
  have hok : (enableCedarHwClk soc (fun _ => true)
      { e with refCount := cInt (e.refCount + 1) }).2 = 0 :=
    enableCedarHwClk_ok hinit
  split_ifs with hone hneg
  · rw [hok] at hneg
    exact absurd hneg (by decide)
  · exact hok
  · rfl

/-! ## What a call does to the count -/

/-- The cases of a request: refused with the count as it was, or one more. -/
theorem req_cases (soc : Soc) (ok : Clk → Bool) (interrupted : Bool)
    (hge : 0 ≤ e.refCount) (hlt : e.refCount < 2 ^ 31) :
    let r := ioctlEngineReq soc ok interrupted e
    r.1.bInitEndFlag = e.bInitEndFlag ∧
      (r.2 ≠ 0 ∧ r.1.refCount = e.refCount ∧
          (interrupted = true ∨ e.refCount = 0) ∨
        r.2 = 0 ∧ interrupted = false ∧
          r.1.refCount = cInt (e.refCount + 1)) := by
  unfold ioctlEngineReq
  cases interrupted with
  | true =>
    exact ⟨rfl, Or.inl ⟨(by decide : eRestartsys ≠ 0), rfl, Or.inl rfl⟩⟩
  | false =>
    rw [if_neg Bool.false_ne_true, if_neg (by omega)]
    dsimp only
    by_cases hone : cInt (e.refCount + 1) = 1
    · have hzero : e.refCount = 0 := by
        by_contra hne
        by_cases hmax : e.refCount = 2 ^ 31 - 1
        · rw [hmax] at hone
          exact absurd hone (by decide)
        · rw [cInt_of_range (by omega) (by omega)] at hone
          omega
      obtain ⟨hcount, hinit, hret⟩ := enableCedarHwClk_keeps soc ok
        { e with refCount := cInt (e.refCount + 1) }
      rw [if_pos hone]
      rcases hret with hret | hret
      · rw [hret, if_neg (by decide)]
        exact ⟨hinit, Or.inr ⟨rfl, rfl, hcount⟩⟩
      · -- A clock failed: the count is taken back.
        rw [hret, if_pos (by decide)]
        refine ⟨hinit, Or.inl ⟨(by decide : eFault ≠ 0), ?_, Or.inr hzero⟩⟩
        have hback : cInt (1 - 1) = 0 := by decide
        dsimp only
        rw [hcount, hone, hzero, hback]
    · rw [if_neg hone]
      exact ⟨rfl, Or.inr ⟨rfl, rfl, rfl⟩⟩

/-- The cases of a release: interrupted, or one less.  It is an error when the
count was not positive, but the count is lowered before that is known. -/
theorem rel_cases (soc : Soc) (interrupted : Bool) (hge : 0 ≤ e.refCount)
    (hlt : e.refCount < 2 ^ 31) :
    let r := ioctlEngineRel soc interrupted e
    r.1.bInitEndFlag = e.bInitEndFlag ∧
      (interrupted = true ∧ r.2 ≠ 0 ∧ r.1.refCount = e.refCount ∨
        interrupted = false ∧ r.1.refCount = e.refCount - 1 ∧
          (r.2 = 0 ↔ 0 < e.refCount)) := by
  unfold ioctlEngineRel
  cases interrupted with
  | true => exact ⟨rfl, Or.inl ⟨rfl, (by decide : eRestartsys ≠ 0), rfl⟩⟩
  | false =>
    rw [if_neg Bool.false_ne_true, cInt_of_range (by omega) (by omega)]
    dsimp only
    by_cases hneg : e.refCount - 1 < 0
    · rw [if_pos hneg]
      exact ⟨rfl, Or.inr ⟨rfl, rfl,
        iff_of_false (by decide : eFault ≠ 0) (by omega)⟩⟩
    · rw [if_neg hneg]
      have hpos : (0 : Int) = 0 ↔ 0 < e.refCount :=
        iff_of_true rfl (by omega)
      by_cases hzero : e.refCount - 1 = 0
      · obtain ⟨hcount, hinit⟩ := disableCedarHwClk_keeps soc
          { e with refCount := e.refCount - 1 }
        rw [if_pos hzero]
        exact ⟨hinit, Or.inr ⟨rfl, hcount, hpos⟩⟩
      · rw [if_neg hzero]
        exact ⟨rfl, Or.inr ⟨rfl, rfl, hpos⟩⟩

/-! ## What the account says of a call -/

/-- A call that fails must leave the count alone. -/
theorem record_error {op : ClientOp} {ret : Int} (h : ExactBalance soc t)
    (hinit : e.bInitEndFlag = true) (hret : ret ≠ 0) :
    ExactBalance soc (t.record op e ret) ↔
      e.refCount = t.engine.refCount := by
  unfold Tally.record
  rw [if_neg hret]
  constructor
  · intro h'
    have hkept := h'.errorKept
    simp only [h.errorKept, Bool.false_or, bne_eq_false_iff_eq] at hkept
    exact hkept
  · intro hcount
    have hge : 0 ≤ e.refCount := hcount ▸ h.nonneg
    refine ⟨hcount.trans h.balance, hge, ?_, served_of_nonneg hinit hge⟩
    simp only [h.errorKept, Bool.false_or, bne_eq_false_iff_eq]
    exact hcount

/-- A request that succeeds must add one. -/
theorem record_req {ok : Clk → Bool} {interrupted : Bool}
    (h : ExactBalance soc t) (hinit : e.bInitEndFlag = true) :
    ExactBalance soc (t.record (.req ok interrupted) e 0) ↔
      e.refCount = t.engine.refCount + 1 := by
  have hbalance := h.balance
  have hge := h.nonneg
  unfold Tally.record
  rw [if_pos rfl]
  constructor
  · intro h'
    have := h'.balance
    dsimp only at this
    omega
  · intro hcount
    refine ⟨?_, ?_, h.errorKept, served_of_nonneg hinit ?_⟩
    · show e.refCount = ((t.reqs + 1 : Nat) : Int) - t.rels
      omega
    · show 0 ≤ e.refCount
      omega
    · show 0 ≤ e.refCount
      omega

/-- A release that succeeds must take one away, and there must be one. -/
theorem record_rel {interrupted : Bool} (h : ExactBalance soc t)
    (hinit : e.bInitEndFlag = true) (hpos : 0 < t.engine.refCount)
    (hcount : e.refCount = t.engine.refCount - 1) :
    ExactBalance soc (t.record (.rel interrupted) e 0) := by
  have hbalance := h.balance
  have hge : 0 ≤ e.refCount := by omega
  unfold Tally.record
  rw [if_pos rfl]
  refine ⟨?_, hge, h.errorKept, served_of_nonneg hinit hge⟩
  show e.refCount = (t.reqs : Int) - ((t.rels + 1 : Nat) : Int)
  omega

theorem record_engine {op : ClientOp} {ret : Int} :
    (t.record op e ret).engine = e := by
  unfold Tally.record
  cases op <;> split_ifs <;> rfl

/-! ## Runs -/

theorem req_balance {ok : Clk → Bool} {interrupted : Bool}
    (hinv : CountInv t.engine) (h : ExactBalance soc t) :
    let r := ioctlEngineReq soc ok interrupted t.engine
    (ExactBalance soc (t.record (.req ok interrupted) r.1 r.2) ↔
        countGuard t (.req ok interrupted)) ∧ CountInv r.1 := by
  have hge := h.nonneg
  have hlt := hinv.lt
  have hcases := req_cases soc ok interrupted hge hlt
  dsimp only at hcases ⊢
  generalize ioctlEngineReq soc ok interrupted t.engine = r at hcases ⊢
  obtain ⟨hinit, hcases⟩ := hcases
  have hinit' : r.1.bInitEndFlag = true := hinit.trans hinv.initEnd
  rcases hcases with ⟨hret, hcount, hwhy⟩ | ⟨hret, hrun, hcount⟩
  · refine ⟨iff_of_true ((record_error h hinit' hret).mpr hcount) ?_, hinit',
      by omega⟩
    intro hrun
    rcases hwhy with hint | hzero
    · rw [hint] at hrun
      cases hrun
    · omega
  · have hrange := cInt_range (t.engine.refCount + 1)
    refine ⟨?_, hinit', by omega⟩
    rw [hret, record_req h hinit']
    by_cases hmax : t.engine.refCount = 2 ^ 31 - 1
    · exact iff_of_false (by omega) fun hguard => hguard hrun hmax
    · rw [cInt_of_range (by omega) (by omega)] at hcount
      exact iff_of_true hcount fun _ => hmax

theorem rel_balance {interrupted : Bool} (hinv : CountInv t.engine)
    (h : ExactBalance soc t) :
    let r := ioctlEngineRel soc interrupted t.engine
    (ExactBalance soc (t.record (.rel interrupted) r.1 r.2) ↔
        countGuard t (.rel interrupted)) ∧ CountInv r.1 := by
  have hge := h.nonneg
  have hlt := hinv.lt
  have hcases := rel_cases soc interrupted hge hlt
  dsimp only at hcases ⊢
  generalize ioctlEngineRel soc interrupted t.engine = r at hcases ⊢
  obtain ⟨hinit, hcases⟩ := hcases
  have hinit' : r.1.bInitEndFlag = true := hinit.trans hinv.initEnd
  rcases hcases with ⟨hint, hret, hcount⟩ | ⟨hrun, hcount, hret⟩
  · refine ⟨iff_of_true ((record_error h hinit' hret).mpr hcount) ?_, hinit',
      by omega⟩
    intro hrun
    rw [hint] at hrun
    cases hrun
  · refine ⟨?_, hinit', by omega⟩
    by_cases hpos : 0 < t.engine.refCount
    · have hret' : r.2 = 0 := hret.mpr hpos
      rw [hret']
      exact iff_of_true (record_rel h hinit' hpos hcount) fun _ => hpos
    · have hret' : r.2 ≠ 0 := fun hzero => hpos (hret.mp hzero)
      rw [record_error h hinit' hret']
      exact iff_of_false (by omega) fun hguard => hpos (hguard hrun)

theorem tallyStep_balance {op : ClientOp} (hinv : CountInv t.engine)
    (h : ExactBalance soc t) (hstep : tallyStep soc t op = some t') :
    (ExactBalance soc t' ↔ countGuard t op) ∧ CountInv t'.engine := by
  obtain rfl := Option.some.inj hstep
  rw [record_engine]
  cases op with
  | req ok interrupted => exact req_balance hinv h
  | rel interrupted => exact rel_balance hinv h

/-- The count is an exact balance in every state of a run exactly when every
call meets `countGuard`. -/
theorem exactBalance_iff (soc : Soc) (ops : List ClientOp) :
    Always (tallyStep soc) (ExactBalance soc) ops Tally.init ↔
      Guarded (tallyStep soc) countGuard ops Tally.init := by
  refine always_iff_guarded (I := fun t => CountInv t.engine) ?_ ?_ ?_ ?_ ops
  · exact fun _ _ _ hinv h hstep => (tallyStep_balance hinv h hstep).1
  · exact fun _ _ _ hinv h hstep _ => (tallyStep_balance hinv h hstep).2
  · exact ⟨rfl, by decide⟩
  · exact ⟨rfl, Int.le_refl 0, rfl, served_of_nonneg rfl (Int.le_refl 0)⟩

/-- A negative count is never left by requests: each of them is refused, and
the device stays as it is. -/
theorem refused_forever (hneg : t.engine.refCount < 0)
    (oks : List (Clk → Bool)) :
    (run (tallyStep soc) (oks.map (ClientOp.req · false)) t).map Tally.engine
        = some t.engine ∧
      ∀ ok, (ioctlEngineReq soc ok false t.engine).2 = eFault := by
  have hreq : ∀ (u : Tally) ok, u.engine.refCount < 0 →
      ioctlEngineReq soc ok false u.engine = (u.engine, eFault) := by
    intro u ok hu
    unfold ioctlEngineReq
    rw [if_neg Bool.false_ne_true, if_pos hu]
  refine ⟨?_, fun ok => by rw [hreq t ok hneg]⟩
  induction oks generalizing t with
  | nil => rfl
  | cons ok oks ih =>
    rw [List.map_cons]
    unfold run tallyStep
    dsimp only [ClientOp.call]
    rw [hreq t ok hneg]
    have hrec : (t.record (.req ok false) t.engine eFault).engine = t.engine :=
      record_engine
    have hrest := ih (t := t.record (.req ok false) t.engine eFault)
      (by rw [hrec]; exact hneg)
    rw [hrec] at hrest
    exact hrest

/-- One release without a request: it fails and lowers the count all the
same. -/
theorem unmatched_rel_count :
    ¬ Always (tallyStep .other) (ExactBalance .other) [.rel false]
      Tally.init := by
  intro h
  have hlast := (h.of_run rfl).nonneg
  revert hlast
  decide

end LonganPi.Ve
