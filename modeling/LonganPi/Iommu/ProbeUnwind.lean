import LonganPi.Iommu.Probe
import LonganPi.Lib.Transition

/-!
# When a probe is all or nothing

`AllOrNothing` is asked of every attempt: a probe that returned 0 has
everything, and one that returned an error has left nothing, not even a
pointer to its device.

* Before the globals are published a failure is undone by its label and by
  the driver core together, but for the cases that `CleanOutcome` leaves out.
* After that no failure is undone (`registerDevice_good`,
  `initPlatData_good`): no label clears `global_iommu_dev`, and a version
  mismatch returns 0.
* `probe_iff`: `CleanOutcome` is the exact condition, for the three drivers
  and any number of attempts.
-/

namespace LonganPi.Iommu

open Transition

/-! ## What is asked for -/

/-- The interrupts that a driver requests. -/
def irqIndices : DriverVersion → List Nat
  | .v2 => [0, 1]
  | _ => [0]

/-- The clocks that a driver should enable. -/
def clockCount (v : DriverVersion) (o : ProbeOutcome) : Nat :=
  match v with
  | .v2 => o.clks.length
  | _ => 1

/-- What a probe that returns 0 has. -/
structure Bound (v : DriverVersion) (o : ProbeOutcome) (s : ProbeState) :
    Prop where
  cache : .iopteCache ∈ s.ledger.held
  irqs : ∀ i ∈ irqIndices v, .irq i ∈ s.ledger.held
  someClock : 0 < clockCount v o
  clocks : ∀ i, i < clockCount v o → .clkEnable i ∈ s.ledger.held
  registered : .iommuDevice ∈ s.ledger.held
  version : o.versionMatch = true

/-- What a probe that returns an error leaves. -/
structure TornDown (s : ProbeState) : Prop where
  settled : s.ledger.Settled
  global : s.globalIommuDev = none
  drvdata : s.drvdata = none

/-- The attempts so far, with the outcome and the end of the last one. -/
structure ProbeSystem where
  state : ProbeState
  last : Option (ProbeOutcome × ProbeEnd)

/-- No attempt so far. -/
def ProbeSystem.init : ProbeSystem := ⟨.init, none⟩

/-- One attempt.  There is none once a probe returned 0 or did not return. -/
def probeStep (v : DriverVersion) (clearsDrvdata : Bool) (y : ProbeSystem)
    (o : ProbeOutcome) : Option ProbeSystem :=
  let r := driverCore v clearsDrvdata (sunxiIommuProbe v o y.state)
  let y' : ProbeSystem :=
    ⟨{ r.1 with attempts := r.1.attempts + 1 }, some (o, r.2)⟩
  match y.last with
  | none => some y'
  | some (_, .returned ret) => if ret = 0 then none else some y'
  | some (_, .oops) => none

/-- The last attempt was all or nothing. -/
def AllOrNothing (v : DriverVersion) (y : ProbeSystem) : Prop :=
  match y.last with
  | none => TornDown y.state
  | some (o, .returned ret) =>
    if ret = 0 then Bound v o y.state else TornDown y.state
  | some (_, .oops) => False

/-! ## The condition -/

/-- Every interrupt is granted. -/
def AllGranted (v : DriverVersion) (o : ProbeOutcome) : Prop :=
  ∀ i ∈ irqIndices v, o.irq i = .granted

/-- The clocks are listed, found and enabled. -/
def ClocksOk (v : DriverVersion) (o : ProbeOutcome) : Prop :=
  match v with
  | .v2 => o.clks ≠ [] ∧ o.clkArray = true ∧
      (∀ c ∈ o.clks, c.found = true) ∧ ∀ c ∈ o.clks, c.enabled = true
  | _ => o.clk.found = true ∧ o.clk.enabled = true

/-- The platform data is allocated, with every string it has room for. -/
def PlatDataOk (v : DriverVersion) (o : ProbeOutcome) : Prop :=
  match v with
  | .v1 => True
  | .v2 => o.platData = true ∧ o.masters ≠ [] ∧ ∀ m ∈ o.masters.take 12, m = true
  | .v3 => o.platData = true ∧ o.masters ≠ [] ∧ ∀ m ∈ o.masters.take 8, m = true

/-- From the interrupts on, every step succeeds. -/
structure Completes (v : DriverVersion) (o : ProbeOutcome) : Prop where
  irqs : AllGranted v o
  clocks : ClocksOk v o
  platData : PlatDataOk v o
  version : o.versionMatch = true
  sysfsAdd : o.sysfsAdd = none
  register : o.register = none

/-- The attempt fails early enough, and at a step whose failure is undone, or
it succeeds. -/
def CleanOutcome (v : DriverVersion) (o : ProbeOutcome) : Prop :=
  o.cache = false ∨ o.device = true ∧
    (o.resource = false ∨ o.ioremap = .null ∨ o.ioremap = .mapped ∧
      (¬ AllGranted v o ∨ (v ≠ .v2 ∧ o.clk.found = false) ∨ Completes v o))

/-! ## The end of an attempt -/

/-- What is asked of the end of a probe, before the driver core acts. -/
def GoodExit (v : DriverVersion) (clearsDrvdata : Bool) (o : ProbeOutcome)
    (r : ProbeExit) : Prop :=
  let r := driverCore v clearsDrvdata r
  match r.2 with
  | .returned ret => if ret = 0 then Bound v o r.1 else TornDown r.1
  | .oops => False

section Exit

variable {v : DriverVersion} {clears : Bool} {o : ProbeOutcome} {s : ProbeState}
  {ret : Int} {rs : List Resource} {x : Resource}

theorem goodExit_zero :
    GoodExit v clears o (s, .returned 0) ↔ Bound v o s := Iff.rfl

theorem goodExit_error (hret : ret ≠ 0) :
    GoodExit v clears o (s, .returned ret) ↔
      TornDown { s with
        ledger := s.ledger.releaseWhere fun x => x.managed v = true
        drvdata := if clears then none else s.drvdata } := by
  unfold GoodExit driverCore
  simp only [hret, if_false]

/-- After the globals are published an error return is wrong. -/
theorem not_good_of_global (hret : ret ≠ 0) (hs : s.globalIommuDev ≠ none) :
    ¬ GoodExit v clears o (s, .returned ret) := by
  rw [goodExit_error hret]
  exact fun h => hs h.global

/-- A label that releases all that is not managed. -/
theorem good_of_released {m : Multiset Resource} (hret : ret ≠ 0)
    (hledger : s.ledger = ⟨↑rs + m, 0⟩) (hm : ∀ x ∈ m, x.managed v = true)
    (hglobal : s.globalIommuDev = none) (hdrvdata : s.drvdata = none) :
    GoodExit v clears o (s.releaseAll rs, .returned ret) := by
  rw [goodExit_error hret]
  refine ⟨?_, hglobal, ?_⟩
  · show ((s.ledger.releaseAll rs).releaseWhere _).Settled
    rw [hledger, Ledger.releaseAll_eq]
    refine ⟨?_, rfl⟩
    rw [Ledger.releaseWhere_held, Multiset.filter_eq_nil]
    exact fun y hy hnot => hnot (hm y hy)
  · show (if clears then none else s.drvdata) = none
    rw [hdrvdata, ite_self]

/-- A label that releases something that was not acquired. -/
theorem not_good_of_overReleased (hret : ret ≠ 0) (hx : x ∈ rs)
    (hheld : x ∉ s.ledger.held) :
    ¬ GoodExit v clears o (s.releaseAll rs, .returned ret) := by
  rw [goodExit_error hret]
  intro h
  have hpos := Ledger.overReleased_releaseAll_pos hx hheld
  have hzero : (s.ledger.releaseAll rs).overReleased = 0 := h.settled.2
  omega

/-- A label that leaves something that is not managed. -/
theorem not_good_of_leak (hret : ret ≠ 0) (hx : x ∉ rs)
    (hheld : x ∈ s.ledger.held) (hmanaged : x.managed v = false) :
    ¬ GoodExit v clears o (s.releaseAll rs, .returned ret) := by
  rw [goodExit_error hret]
  intro h
  have hempty : (s.ledger.releaseAll rs).held.filter
      (fun x => ¬ x.managed v = true) = 0 := h.settled.1
  rw [Multiset.filter_eq_nil] at hempty
  refine hempty x ((Ledger.mem_releaseAll_of_notMem hx).mpr hheld) ?_
  rw [hmanaged]
  decide

end Exit

/-! ## After the globals are published -/

/-- A label returns what it is given and leaves the global alone. -/
def IsLabel (err : ProbeState → Int → ProbeExit) : Prop :=
  ∀ s ret, ∃ s', err s ret = (s', .returned ret) ∧
    s'.globalIommuDev = s.globalIommuDev

theorem isLabel_errClk (irqs : List Nat) : IsLabel (errClk irqs) :=
  fun _ _ => ⟨_, rfl, rfl⟩

theorem releaseAll_globalIommuDev (s : ProbeState) (rs : List Resource) :
    (s.releaseAll rs).globalIommuDev = s.globalIommuDev := rfl

theorem isLabel_errPlat (n : Nat) : IsLabel (errPlat n) := by
  intro s ret
  obtain ⟨s', heq, hglobal⟩ := isLabel_errClk [1, 0]
    (s.releaseAll ((List.range n).map Resource.master ++ [.platData])) ret
  exact ⟨s', heq, hglobal.trans (releaseAll_globalIommuDev s _)⟩

/-- The step keeps the global and what is held, and enables no clock. -/
structure Keeps (s s' : ProbeState) : Prop where
  global : s'.globalIommuDev = s.globalIommuDev
  held : ∀ x, x ∈ s.ledger.held → x ∈ s'.ledger.held
  clocks : ∀ i, .clkEnable i ∈ s'.ledger.held → .clkEnable i ∈ s.ledger.held

theorem Keeps.refl (s : ProbeState) : Keeps s s := ⟨rfl, fun _ h => h, fun _ h => h⟩

theorem Keeps.trans {s s' s'' : ProbeState} (h : Keeps s s') (h' : Keeps s' s'') :
    Keeps s s'' where
  global := h'.global.trans h.global
  held x hx := h'.held x (h.held x hx)
  clocks i hi := h.clocks i (h'.clocks i hi)

theorem Keeps.acquire (s : ProbeState) {r : Resource}
    (hr : ∀ i, r ≠ .clkEnable i) : Keeps s (s.acquire r) where
  global := rfl
  held _ hx := Multiset.mem_cons_of_mem hx
  clocks i hi := (Multiset.mem_cons.mp hi).resolve_left (hr i).symm

theorem keeps_sysfsCreate (o : ProbeOutcome) (s : ProbeState) :
    Keeps s (sunxiIommuSysfsCreate o s) := by
  have hloop : ∀ (is : List Nat) (s : ProbeState), Keeps s (is.foldl
      (fun s i => if o.files i then s.acquire (.sysfsFile i) else s) s) := by
    intro is
    induction is with
    | nil => exact Keeps.refl
    | cons i is ih =>
      intro s
      rw [List.foldl_cons]
      split_ifs
      · exact (Keeps.acquire s fun _ => by simp).trans (ih _)
      · exact ih s
  exact hloop _ s

section Published

variable {v : DriverVersion} {clears : Bool} {o : ProbeOutcome} {s : ProbeState}

/-- What the interrupts and the clocks have left in the ledger. -/
structure Ready (v : DriverVersion) (s : ProbeState) : Prop where
  global : s.globalIommuDev ≠ none
  cache : .iopteCache ∈ s.ledger.held
  irqs : ∀ i ∈ irqIndices v, .irq i ∈ s.ledger.held

/-- The clocks that are listed are enabled. -/
def Clocked (v : DriverVersion) (o : ProbeOutcome) (s : ProbeState) : Prop :=
  0 < clockCount v o ∧ ∀ i, i < clockCount v o → .clkEnable i ∈ s.ledger.held

theorem Ready.keeps {s' : ProbeState} (h : Ready v s) (hk : Keeps s s') :
    Ready v s' where
  global := by
    rw [hk.global]
    exact h.global
  cache := hk.held _ h.cache
  irqs i hi := hk.held _ (h.irqs i hi)

theorem Keeps.clocked_iff {s' : ProbeState} (hk : Keeps s s') :
    Clocked v o s' ↔ Clocked v o s :=
  ⟨fun h => ⟨h.1, fun i hi => hk.clocks i (h.2 i hi)⟩,
    fun h => ⟨h.1, fun i hi => hk.held _ (h.2 i hi)⟩⟩

/-- After the publication every jump to a label is wrong, also the one of the
version mismatch, which returns 0. -/
theorem label_not_good {err : ProbeState → Int → ProbeExit} (herr : IsLabel err)
    (hs : s.globalIommuDev ≠ none) {ret : Int}
    (hret : ret ≠ 0 ∨ o.versionMatch = false) :
    ¬ GoodExit v clears o (err s ret) := by
  obtain ⟨s', heq, hglobal⟩ := herr s ret
  rw [heq]
  by_cases hzero : ret = 0
  · have hversion := hret.resolve_left fun h => h hzero
    rw [hzero, goodExit_zero]
    intro h
    cases hversion.symm.trans h.version
  · exact not_good_of_global hzero (by rw [hglobal]; exact hs)

theorem registerDevice_good {err : ProbeState → Int → ProbeExit}
    (herr : IsLabel err) (hs : Ready v s) :
    GoodExit v clears o (registerDevice o s err) ↔
      o.ioremap ≠ .errPtr ∧ o.versionMatch = true ∧ o.sysfsAdd = none ∧
        o.register = none ∧ Clocked v o s := by
  unfold registerDevice
  by_cases hbase : o.ioremap = .errPtr
  · rw [if_pos hbase]
    exact ⟨fun h => h.elim, fun h => absurd hbase h.1⟩
  by_cases hversion : o.versionMatch = false
  · rw [if_neg hbase, if_pos hversion]
    refine ⟨fun h => absurd h (label_not_good herr hs.global (Or.inr hversion)),
      fun h => ?_⟩
    cases hversion.symm.trans h.2.1
  rw [if_neg hbase, if_neg hversion]
  have hkeep : Keeps s (sunxiIommuSysfsCreate o
      (if o.parent then s.acquire .pmRuntime else s)) := by
    refine Keeps.trans ?_ (keeps_sysfsCreate o _)
    split_ifs
    · exact Keeps.acquire s fun _ => by simp
    · exact Keeps.refl s
  dsimp only
  generalize sunxiIommuSysfsCreate o
    (if o.parent then s.acquire .pmRuntime else s) = s₁ at hkeep
  have hs₁ := hs.keeps hkeep
  cases hadd : o.sysfsAdd with
  | some e =>
    have hne : e.val ≠ 0 := Int.ne_of_lt e.property
    exact ⟨fun h => absurd h (label_not_good herr hs₁.global (Or.inl hne)),
      fun h => by cases h.2.2.1⟩
  | none =>
    have hkeep₂ : Keeps s₁ (s₁.acquire .iommuSysfs) :=
      Keeps.acquire s₁ fun _ => by simp
    cases hreg : o.register with
    | some e =>
      have hne : e.val ≠ 0 := Int.ne_of_lt e.property
      exact ⟨fun h => absurd h
        (label_not_good herr (hs₁.keeps hkeep₂).global (Or.inl hne)),
        fun h => by cases h.2.2.2.1⟩
    | none =>
      have hkeep₃ : Keeps s ((s₁.acquire .iommuSysfs).acquire .iommuDevice) :=
        (hkeep.trans hkeep₂).trans (Keeps.acquire _ fun _ => by simp)
      have hs₃ := hs.keeps hkeep₃
      rw [goodExit_zero]
      constructor
      · intro h
        exact ⟨hbase, h.version, rfl, rfl,
          hkeep₃.clocked_iff.mp ⟨h.someClock, h.clocks⟩⟩
      · intro hboth
        obtain ⟨-, hmatch, -, -, hclocks⟩ := hboth
        obtain ⟨hsome, hall⟩ := hkeep₃.clocked_iff.mpr hclocks
        exact ⟨hs₃.cache, hs₃.irqs, hsome, hall, Multiset.mem_cons_self _ _,
          hmatch⟩

/-- The strings are all copied, or a label is reached. -/
theorem copyMasters_cases (ms : List Bool) (n : Nat) (s : ProbeState)
    (err : Nat → ProbeState → Int → ProbeExit)
    (next : Nat → ProbeState → ProbeExit) :
    ∃ k s', Keeps s s' ∧
      (((∀ m ∈ ms, m = true) ∧ copyMasters ms n s err next = next k s') ∨
        ((∃ m ∈ ms, m = false) ∧ copyMasters ms n s err next = err k s' eNomem)) := by
  induction ms generalizing n s with
  | nil => exact ⟨n, s, Keeps.refl s, Or.inl ⟨by simp, rfl⟩⟩
  | cons m ms ih =>
    rw [copyMasters]
    cases m with
    | false => exact ⟨n, s, Keeps.refl s, Or.inr ⟨⟨false, .head _, rfl⟩, if_pos rfl⟩⟩
    | true =>
      rw [if_neg (by decide)]
      obtain ⟨k, s', hkeep, hrest⟩ := ih (n + 1) (s.acquire (.master n))
      refine ⟨k, s', (Keeps.acquire s fun _ => by simp).trans hkeep, ?_⟩
      rcases hrest with ⟨hall, heq⟩ | ⟨⟨m, hm, hfalse⟩, heq⟩
      · refine Or.inl ⟨fun m hm => ?_, heq⟩
        rcases List.mem_cons.mp hm with rfl | hm
        · rfl
        · exact hall m hm
      · exact Or.inr ⟨⟨m, .tail _ hm, hfalse⟩, heq⟩

theorem initPlatData_good {limit : Nat} {noMem : ProbeState → Int → ProbeExit}
    {err : Nat → ProbeState → Int → ProbeExit}
    {next : Nat → ProbeState → ProbeExit} (hno : IsLabel noMem)
    (herr : ∀ n, IsLabel (err n)) (hs : Ready v s) {P : Prop}
    (hnext : ∀ n s', Keeps s s' → (GoodExit v clears o (next n s') ↔ P)) :
    GoodExit v clears o (initPlatData o limit s noMem err next) ↔
      (o.platData = true ∧ o.masters ≠ [] ∧
        ∀ m ∈ o.masters.take limit, m = true) ∧ P := by
  unfold initPlatData
  by_cases hplat : o.platData = false
  · rw [if_pos hplat]
    refine ⟨fun h => absurd h
      (label_not_good hno hs.global (Or.inl (by decide))), fun h => ?_⟩
    cases hplat.symm.trans h.1.1
  have hkeep : Keeps s (s.acquire .platData) := Keeps.acquire s fun _ => by simp
  by_cases hmasters : o.masters = []
  · rw [if_neg hplat, if_pos hmasters]
    exact ⟨fun h => absurd h (label_not_good (herr 0) (hs.keeps hkeep).global
      (Or.inl (by decide))), fun h => absurd hmasters h.1.2.1⟩
  rw [if_neg hplat, if_neg hmasters]
  obtain ⟨k, s', hkeep', hcases⟩ :=
    copyMasters_cases (o.masters.take limit) 0 (s.acquire .platData) err next
  rcases hcases with ⟨hall, heq⟩ | ⟨⟨m, hm, hfalse⟩, heq⟩
  · rw [heq, hnext k s' (hkeep.trans hkeep')]
    exact ⟨fun h => ⟨⟨Bool.not_eq_false _ |>.mp hplat, hmasters, hall⟩, h⟩,
      fun h => h.2⟩
  · rw [heq]
    refine ⟨fun h => absurd h (label_not_good (herr k)
      (hs.keeps (hkeep.trans hkeep')).global (Or.inl (by decide))), fun h => ?_⟩
    cases hfalse.symm.trans (h.1.2.2 m hm)

end Published

/-! ## The clocks -/

section Clocks

variable {v : DriverVersion} {clears : Bool} {o : ProbeOutcome} {s : ProbeState}

/-- No clock is enabled yet. -/
def Unclocked (s : ProbeState) : Prop := ∀ i, .clkEnable i ∉ s.ledger.held

/-- The lookups all succeed, or the label is reached. -/
theorem lookupClks_cases (cs : List ClkOutcome) (i : Nat) (s : ProbeState)
    (next : ProbeState → ProbeExit) :
    ∃ s', Keeps s s' ∧
      (((∀ c ∈ cs, c.found = true) ∧ lookupClks cs i s next = next s') ∨
        ((∃ c ∈ cs, c.found = false) ∧
          lookupClks cs i s next = errClk [1, 0] s' eNoent)) := by
  induction cs generalizing i s with
  | nil => exact ⟨s, Keeps.refl s, Or.inl ⟨by simp, rfl⟩⟩
  | cons c cs ih =>
    rw [lookupClks]
    by_cases hfound : c.found = false
    · rw [if_pos hfound]
      exact ⟨s, Keeps.refl s, Or.inr ⟨⟨c, .head _, hfound⟩, rfl⟩⟩
    · rw [if_neg hfound]
      obtain ⟨s', hkeep, hrest⟩ := ih (i + 1) (s.acquire (.clk i))
      refine ⟨s', (Keeps.acquire s fun _ => by simp).trans hkeep, ?_⟩
      rcases hrest with ⟨hall, heq⟩ | ⟨⟨d, hd, hmissing⟩, heq⟩
      · refine Or.inl ⟨fun d hd => ?_, heq⟩
        rcases List.mem_cons.mp hd with rfl | hd
        · exact Bool.not_eq_false _ |>.mp hfound
        · exact hall d hd
      · exact Or.inr ⟨⟨d, .tail _ hd, hmissing⟩, heq⟩

/-- The `while` loop enables the clocks from `i` on that can be enabled. -/
theorem enableClks_spec (cs : List ClkOutcome) (i : Nat) (s : ProbeState) :
    let s' := enableClks cs i s
    s'.globalIommuDev = s.globalIommuDev ∧
      (∀ x, x ∈ s.ledger.held → x ∈ s'.ledger.held) ∧
      ∀ j, .clkEnable j ∈ s'.ledger.held ↔ .clkEnable j ∈ s.ledger.held ∨
        ∃ k c, cs[k]? = some c ∧ c.enabled = true ∧ j = i + k := by
  induction cs generalizing i s with
  | nil => exact ⟨rfl, fun _ h => h, fun j => by simp [enableClks]⟩
  | cons c cs ih =>
    obtain ⟨hglobal, hheld, hclk⟩ :=
      ih (i + 1) (if c.enabled then s.acquire (.clkEnable i) else s)
    refine ⟨hglobal.trans ?_, fun x hx => hheld x ?_, fun j => ?_⟩
    · split_ifs <;> rfl
    · split_ifs
      · exact Multiset.mem_cons_of_mem hx
      · exact hx
    · rw [enableClks, hclk]
      constructor
      · intro hcase
        rcases hcase with hj | ⟨k, d, hd, henabled, rfl⟩
        · split_ifs at hj with hc
          · rcases Multiset.mem_cons.mp hj with hji | hj
            · exact Or.inr ⟨0, c, rfl, hc, Resource.clkEnable.inj hji⟩
            · exact Or.inl hj
          · exact Or.inl hj
        · exact Or.inr ⟨k + 1, d, by simpa using hd, henabled, by omega⟩
      · intro hcase
        rcases hcase with hj | ⟨k, d, hd, henabled, rfl⟩
        · refine Or.inl ?_
          split_ifs
          · exact Multiset.mem_cons_of_mem hj
          · exact hj
        · cases k with
          | zero =>
            obtain rfl : c = d := by simpa using hd
            rw [if_pos henabled]
            exact Or.inl (Multiset.mem_cons_self _ _)
          | succ k => exact Or.inr ⟨k, d, by simpa using hd, henabled, by omega⟩

/-- All are enabled exactly when each can be. -/
theorem enableClks_all (cs : List ClkOutcome) (hs : Unclocked s) :
    (∀ i, i < cs.length → .clkEnable i ∈ (enableClks cs 0 s).ledger.held) ↔
      ∀ c ∈ cs, c.enabled = true := by
  obtain ⟨-, -, hclk⟩ := enableClks_spec cs 0 s
  constructor
  · intro h c hc
    obtain ⟨i, hi, rfl⟩ := List.mem_iff_getElem.mp hc
    rcases (hclk i).mp (h i hi) with hold | ⟨k, d, hd, henabled, hk⟩
    · exact absurd hold (hs i)
    · obtain rfl : i = k := by omega
      rw [List.getElem?_eq_getElem hi, Option.some.injEq] at hd
      rw [hd]
      exact henabled
  · intro h i hi
    refine (hclk i).mpr (Or.inr ⟨i, cs[i], List.getElem?_eq_getElem hi, ?_, by omega⟩)
    exact h _ (List.getElem_mem hi)

/-- What a probe does once it has its interrupts. -/
def afterIrqs (v : DriverVersion) (o : ProbeOutcome) (s : ProbeState) :
    ProbeExit :=
  match v with
  | .v1 => getClk o s fun s => registerDevice o s.publish (errClk [0])
  | .v2 => getClks o s fun s =>
      initPlatData o 12 s.publish (errClk [1, 0]) errPlat fun n s =>
        registerDevice o s (errPlat n)
  | .v3 => getClk o s fun s =>
      initPlatData o 8 s.publish (errClk [0]) (fun _ => errClk [0]) fun _ s =>
        registerDevice o s (errClk [0])

theorem sunxiIommuProbe_eq (v : DriverVersion) (o : ProbeOutcome)
    (s : ProbeState) :
    sunxiIommuProbe v o s = acquireRegisters o s fun s =>
      requestIrqs o (irqIndices v) s (afterIrqs v o) := by
  cases v <;> rfl

/-- The interrupts are granted and no clock is enabled. -/
structure BeforeClocks (v : DriverVersion) (s : ProbeState) : Prop where
  unclocked : Unclocked s
  cache : .iopteCache ∈ s.ledger.held
  irqs : ∀ i ∈ irqIndices v, .irq i ∈ s.ledger.held

theorem BeforeClocks.ready {s' : ProbeState} (h : BeforeClocks v s)
    (hheld : ∀ x, x ∈ s.ledger.held → x ∈ s'.ledger.held) :
    Ready v s'.publish where
  global := Option.some_ne_none _
  cache := hheld _ h.cache
  irqs i hi := hheld _ (h.irqs i hi)

/-- The clock of `v1` and `v3`. -/
theorem getClk_good {next : ProbeState → ProbeExit} (hs : BeforeClocks v s)
    (hcount : clockCount v o = 1) {P : Prop}
    (hnext : ∀ s', Ready v s'.publish →
      (Clocked v o s'.publish ↔ o.clk.enabled = true) →
      (GoodExit v clears o (next s') ↔ o.clk.enabled = true ∧ P)) :
    GoodExit v clears o (getClk o s next) ↔
      (o.clk.found = false ∧ GoodExit v clears o (errClk [0] s eNoent)) ∨
        (o.clk.found = true ∧ o.clk.enabled = true) ∧ P := by
  unfold getClk
  by_cases hfound : o.clk.found = false
  · simp [hfound]
  rw [if_neg hfound]
  rw [Bool.not_eq_false] at hfound
  have hclk : ∀ i, .clkEnable i ∉ (s.acquire (.clk 0)).ledger.held := by
    intro i hi
    exact hs.unclocked i ((Multiset.mem_cons.mp hi).resolve_left (by simp))
  rw [hnext]
  · simp [hfound]
  · refine hs.ready fun x hx => ?_
    split_ifs
    · exact Multiset.mem_cons_of_mem (Multiset.mem_cons_of_mem hx)
    · exact Multiset.mem_cons_of_mem hx
  · unfold Clocked
    rw [hcount]
    cases henabled : o.clk.enabled with
    | true =>
      refine ⟨fun _ => rfl, fun _ => ⟨by decide, fun i hi => ?_⟩⟩
      obtain rfl : i = 0 := by omega
      exact Multiset.mem_cons_self _ _
    | false =>
      refine ⟨fun h => absurd (h.2 0 (by decide)) (hclk 0), fun h => by cases h⟩

/-- The clocks of `v2`: no failure is undone. -/
theorem getClks_good {next : ProbeState → ProbeExit} (hs : BeforeClocks .v2 s)
    {P : Prop}
    (hnext : ∀ s', Ready .v2 s'.publish →
      (Clocked .v2 o s'.publish ↔ o.clks ≠ [] ∧ ∀ c ∈ o.clks, c.enabled = true) →
      (GoodExit .v2 clears o (next s') ↔
        (o.clks ≠ [] ∧ ∀ c ∈ o.clks, c.enabled = true) ∧ P)) :
    GoodExit .v2 clears o (getClks o s next) ↔ ClocksOk .v2 o ∧ P := by
  unfold getClks
  by_cases hnil : o.clks = []
  · rw [if_pos hnil]
    refine ⟨fun h => ?_, fun h => absurd hnil h.1.1⟩
    have hcount := (show Bound .v2 o _ from h).someClock
    rw [clockCount, hnil] at hcount
    cases hcount
  by_cases harray : o.clkArray = false
  · rw [if_neg hnil, if_pos harray]
    refine ⟨fun h => h.elim, fun h => ?_⟩
    cases harray.symm.trans h.1.2.1
  rw [if_neg hnil, if_neg harray]
  obtain ⟨s', hkeep, hcases⟩ := lookupClks_cases o.clks 0 (s.acquire .clkArray)
    fun s => next (enableClks o.clks 0 s)
  rcases hcases with ⟨hall, heq⟩ | ⟨⟨c, hc, hmissing⟩, heq⟩
  · have hunclocked : Unclocked s' := by
      intro i hi
      exact hs.unclocked i ((Multiset.mem_cons.mp (hkeep.clocks i hi)).resolve_left
        (by simp))
    obtain ⟨-, hheld, -⟩ := enableClks_spec o.clks 0 s'
    rw [heq, hnext]
    · rw [ClocksOk, ← Bool.not_eq_false o.clkArray]
      exact ⟨fun h => ⟨⟨hnil, harray, hall, h.1.2⟩, h.2⟩,
        fun h => ⟨⟨hnil, h.1.2.2.2⟩, h.2⟩⟩
    · exact hs.ready fun x hx =>
        hheld x (hkeep.held x (Multiset.mem_cons_of_mem hx))
    · show 0 < o.clks.length ∧ (∀ i, i < o.clks.length →
        .clkEnable i ∈ (enableClks o.clks 0 s').ledger.held) ↔ _
      rw [enableClks_all o.clks hunclocked, List.length_pos_iff]
  · -- the array is not freed
    rw [heq]
    have harrayHeld : .clkArray ∈ s'.ledger.held :=
      hkeep.held _ (Multiset.mem_cons_self _ _)
    refine ⟨fun h => absurd h (not_good_of_leak (by decide) (by decide)
      harrayHeld rfl), fun h => ?_⟩
    cases hmissing.symm.trans (h.1.2.2.1 c hc)

end Clocks

/-! ## Before the clocks -/

section Early

variable {v : DriverVersion} {clears : Bool} {o : ProbeOutcome} {s : ProbeState}

/-- Everything after the interrupts, and what is left when the one clock of
`v1` or `v3` is missing. -/
theorem afterIrqs_good (hs : BeforeClocks v s) :
    GoodExit v clears o (afterIrqs v o s) ↔
      (v ≠ .v2 ∧ o.clk.found = false ∧
        GoodExit v clears o (errClk [0] s eNoent)) ∨
      (ClocksOk v o ∧ PlatDataOk v o ∧ o.ioremap ≠ .errPtr ∧
        o.versionMatch = true ∧ o.sysfsAdd = none ∧ o.register = none) := by
  cases v with
  | v1 =>
    refine (getClk_good (P := o.ioremap ≠ .errPtr ∧ o.versionMatch = true ∧
      o.sysfsAdd = none ∧ o.register = none) hs rfl ?_).trans ?_
    · intro s' hready hclocked
      rw [registerDevice_good (isLabel_errClk _) hready, hclocked]
      tauto
    · simp [ClocksOk, PlatDataOk]
  | v2 =>
    refine (getClks_good (P := (o.platData = true ∧ o.masters ≠ [] ∧
      ∀ m ∈ o.masters.take 12, m = true) ∧ o.ioremap ≠ .errPtr ∧
      o.versionMatch = true ∧ o.sysfsAdd = none ∧ o.register = none) hs ?_).trans ?_
    · intro s' hready hclocked
      refine (initPlatData_good (isLabel_errClk _) isLabel_errPlat hready
        (P := o.ioremap ≠ .errPtr ∧ o.versionMatch = true ∧ o.sysfsAdd = none ∧
          o.register = none ∧ Clocked .v2 o s'.publish) ?_).trans ?_
      · intro n s'' hkeep
        rw [registerDevice_good (isLabel_errPlat n) (hready.keeps hkeep),
          hkeep.clocked_iff]
      · rw [hclocked]
        tauto
    · simp [PlatDataOk]
  | v3 =>
    refine (getClk_good (P := (o.platData = true ∧ o.masters ≠ [] ∧
      ∀ m ∈ o.masters.take 8, m = true) ∧ o.ioremap ≠ .errPtr ∧
      o.versionMatch = true ∧ o.sysfsAdd = none ∧ o.register = none) hs rfl
      ?_).trans ?_
    · intro s' hready hclocked
      refine (initPlatData_good (isLabel_errClk _) (fun _ => isLabel_errClk _)
        hready (P := o.ioremap ≠ .errPtr ∧ o.versionMatch = true ∧
          o.sysfsAdd = none ∧ o.register = none ∧ Clocked .v3 o s'.publish)
        ?_).trans ?_
      · intro n s'' hkeep
        rw [registerDevice_good (isLabel_errClk _) (hready.keeps hkeep),
          hkeep.clocked_iff]
      · rw [hclocked]
        tauto
    · simp [ClocksOk, PlatDataOk]

/-- The interrupts `is` are granted. -/
def acquireIrqs (is : List Nat) (s : ProbeState) : ProbeState :=
  is.foldl (fun s i => s.acquire (.irq i)) s

theorem mem_acquireIrqs {x : Resource} (is : List Nat) (s : ProbeState) :
    x ∈ (acquireIrqs is s).ledger.held ↔
      x ∈ s.ledger.held ∨ ∃ i ∈ is, x = .irq i := by
  induction is generalizing s with
  | nil => simp [acquireIrqs]
  | cons i is ih =>
    refine (ih (s.acquire (.irq i))).trans ?_
    rw [ProbeState.acquire, Ledger.acquire_held, Multiset.mem_cons]
    simp only [List.mem_cons, exists_eq_or_imp]
    tauto

/-- An interrupt is managed, so it changes nothing for a label. -/
theorem acquireIrqs_shape (is : List Nat) {rs : List Resource}
    {m : Multiset Resource} (hledger : s.ledger = ⟨↑rs + m, 0⟩)
    (hm : ∀ x ∈ m, x.managed v = true) :
    ∃ m', (acquireIrqs is s).ledger = ⟨↑rs + m', 0⟩ ∧
      (∀ x ∈ m', x.managed v = true) ∧
      (acquireIrqs is s).globalIommuDev = s.globalIommuDev ∧
      (acquireIrqs is s).drvdata = s.drvdata := by
  induction is generalizing s m with
  | nil => exact ⟨m, hledger, hm, rfl, rfl⟩
  | cons i is ih =>
    refine ih (s := s.acquire (.irq i)) (m := .irq i ::ₘ m) ?_ ?_
    · rw [ProbeState.acquire, hledger, Multiset.add_cons]
      rfl
    · intro x hx
      rcases Multiset.mem_cons.mp hx with rfl | hx
      · rfl
      · exact hm x hx

/-- The interrupts are all granted, or the label is reached. -/
theorem requestIrqs_cases (is : List Nat) (s : ProbeState)
    (next : ProbeState → ProbeExit) :
    ((∀ i ∈ is, o.irq i = .granted) ∧
      requestIrqs o is s next = next (acquireIrqs is s)) ∨
    ((∃ i ∈ is, o.irq i ≠ .granted) ∧ ∃ pre e, e ≠ 0 ∧
      requestIrqs o is s next = errIrq (acquireIrqs pre s) e) := by
  induction is generalizing s with
  | nil => exact Or.inl ⟨by simp, rfl⟩
  | cons i is ih =>
    unfold requestIrqs
    cases hirq : o.irq i with
    | missing =>
      exact Or.inr ⟨⟨i, .head _, by simp [hirq]⟩, [], eNoent, by decide, rfl⟩
    | refused e =>
      exact Or.inr ⟨⟨i, .head _, by simp [hirq]⟩, [], e.val,
        Int.ne_of_lt e.property, rfl⟩
    | granted =>
      rcases ih (s.acquire (.irq i)) with ⟨hall, heq⟩ | ⟨⟨j, hj, hne⟩, pre, e, he, heq⟩
      · refine Or.inl ⟨fun j hj => ?_, heq⟩
        rcases List.mem_cons.mp hj with rfl | hj
        · exact hirq
        · exact hall j hj
      · exact Or.inr ⟨⟨j, .tail _ hj, hne⟩, i :: pre, e, he, heq⟩

/-- The cache and the device. -/
def begun (s : ProbeState) : ProbeState := (s.acquire .iopteCache).acquire .device

theorem beforeClocks_acquireIrqs (hcache : .iopteCache ∈ s.ledger.held)
    (hs : Unclocked s) : BeforeClocks v (acquireIrqs (irqIndices v) s) where
  unclocked i hi := by
    rcases (mem_acquireIrqs _ _).mp hi with hi | ⟨j, -, hj⟩
    · exact hs i hi
    · cases hj
  cache := (mem_acquireIrqs _ _).mpr (Or.inl hcache)
  irqs i hi := (mem_acquireIrqs _ _).mpr (Or.inr ⟨i, hi, rfl⟩)

theorem acquireRegisters_good (hs : TornDown s) (next : ProbeState → ProbeExit) :
    GoodExit v clears o (acquireRegisters o s next) ↔
      o.cache = false ∨ o.device = true ∧ (o.resource = false ∨
        o.ioremap = .null ∨
        (o.ioremap = .errPtr ∧ GoodExit v clears o (next (begun s))) ∨
        (o.ioremap = .mapped ∧
          GoodExit v clears o (next ((begun s).acquire .mapping)))) := by
  have hledger : s.ledger = ⟨0, 0⟩ := hs.settled.eq_empty
  have hbegun : (begun s).ledger = ⟨↑[Resource.iopteCache] + {.device}, 0⟩ := by
    have hheld : (.device ::ₘ .iopteCache ::ₘ 0 : Multiset Resource) =
        ↑[Resource.iopteCache] + {.device} := by decide
    rw [begun, ProbeState.acquire, ProbeState.acquire, hledger, ← hheld]
    rfl
  have hundone : GoodExit v clears o (errRes (begun s) eNoent) :=
    good_of_released (by decide) hbegun
      (fun x hx => by rw [Multiset.mem_singleton.mp hx]; rfl) hs.global hs.drvdata
  unfold acquireRegisters
  by_cases hcache : o.cache = false
  · rw [if_pos hcache]
    have hnone : GoodExit v clears o (s.releaseAll [], .returned eNomem) :=
      good_of_released (by decide) (m := 0) (by rw [hledger]; rfl)
        (fun x hx => absurd hx (Multiset.notMem_zero x)) hs.global hs.drvdata
    exact ⟨fun _ => Or.inl hcache, fun _ => hnone⟩
  by_cases hdevice : o.device = false
  · -- the cache is not freed
    rw [if_neg hcache, if_pos hdevice]
    have hleak : ¬ GoodExit v clears o
        ((s.acquire .iopteCache).releaseAll [], .returned eNomem) :=
      not_good_of_leak (by decide) (x := .iopteCache) (by simp)
        (Multiset.mem_cons_self _ _) rfl
    simp only [hcache, hdevice, Bool.false_eq_true, false_and, or_false]
    exact iff_of_false hleak (by simp)
  rw [if_neg hcache, if_neg hdevice]
  have hdevice' : o.device = true := Bool.not_eq_false _ |>.mp hdevice
  by_cases hresource : o.resource = false
  · rw [if_pos hresource]
    exact ⟨fun _ => Or.inr ⟨hdevice', Or.inl hresource⟩, fun _ => hundone⟩
  rw [if_neg hresource]
  cases hbase : o.ioremap with
  | null => exact ⟨fun _ => by simp [hdevice'], fun _ => hundone⟩
  | errPtr =>
    simp only [hcache, hdevice', hresource, true_and]
    simp [begun]
  | mapped =>
    simp only [hcache, hdevice', hresource, true_and]
    simp [begun]

/-- An error pointer is never given back well: the label unmaps it, the
version check reads through it, and what comes after does not return. -/
theorem errPtr_not_good (hbase : o.ioremap = .errPtr) (hs : TornDown s) :
    ¬ GoodExit v clears o
      (requestIrqs o (irqIndices v) (begun s) (afterIrqs v o)) := by
  have hempty : s.ledger.held = 0 := hs.settled.1
  have hunmapped : ∀ is, .mapping ∉ (acquireIrqs is (begun s)).ledger.held := by
    intro is hmem
    rcases (mem_acquireIrqs _ _).mp hmem with hmem | ⟨j, -, hj⟩
    · simp [begun, ProbeState.acquire, hempty] at hmem
    · cases hj
  rcases requestIrqs_cases (irqIndices v) (begun s) (afterIrqs v o) with
    ⟨-, heq⟩ | ⟨-, pre, e, he, heq⟩
  · have hbefore : BeforeClocks v (acquireIrqs (irqIndices v) (begun s)) :=
      beforeClocks_acquireIrqs (by simp [begun, ProbeState.acquire])
        (fun i => by simp [begun, ProbeState.acquire, hempty])
    rw [heq, afterIrqs_good hbefore]
    intro hcase
    rcases hcase with ⟨-, -, hgood⟩ | ⟨-, -, hne, -⟩
    · exact not_good_of_overReleased (by decide) (x := .mapping) (by simp)
        (hunmapped _) hgood
    · exact hne hbase
  · rw [heq]
    exact not_good_of_overReleased he (x := .mapping) (by simp) (hunmapped pre)

/-- With the registers mapped, a failure of the interrupts is undone. -/
theorem mapped_good (hbase : o.ioremap = .mapped) (hs : TornDown s) :
    GoodExit v clears o (requestIrqs o (irqIndices v)
        ((begun s).acquire .mapping) (afterIrqs v o)) ↔
      ¬ AllGranted v o ∨ (v ≠ .v2 ∧ o.clk.found = false) ∨ Completes v o := by
  have hledger : s.ledger = ⟨0, 0⟩ := hs.settled.eq_empty
  have hmapped : ((begun s).acquire .mapping).ledger =
      ⟨↑[Resource.mapping, .iopteCache] + {.device}, 0⟩ := by
    have hheld : (.mapping ::ₘ .device ::ₘ .iopteCache ::ₘ 0 : Multiset Resource) =
        ↑[Resource.mapping, .iopteCache] + {.device} := by decide
    rw [begun, ProbeState.acquire, ProbeState.acquire, ProbeState.acquire, hledger,
      ← hheld]
    rfl
  have hm : ∀ x ∈ ({.device} : Multiset Resource), x.managed v = true := by
    intro x hx
    rw [Multiset.mem_singleton.mp hx]
    rfl
  rcases requestIrqs_cases (irqIndices v) ((begun s).acquire .mapping)
    (afterIrqs v o) with ⟨hall, heq⟩ | ⟨⟨i, hi, hne⟩, pre, e, he, heq⟩
  · have hbefore : BeforeClocks v
        (acquireIrqs (irqIndices v) ((begun s).acquire .mapping)) :=
      beforeClocks_acquireIrqs (by simp [begun, ProbeState.acquire])
        (fun i => by simp [begun, ProbeState.acquire, hledger])
    rw [heq, afterIrqs_good hbefore]
    have hclk : v ≠ .v2 → GoodExit v clears o (errClk [0]
        (acquireIrqs (irqIndices v) ((begun s).acquire .mapping)) eNoent) := by
      intro hv
      have hirqs : irqIndices v = [0] := by
        cases v with
        | v1 => rfl
        | v2 => exact absurd rfl hv
        | v3 => rfl
      rw [hirqs]
      refine good_of_released (by decide) (m := {.device}) ?_ hm hs.global hs.drvdata
      rw [acquireIrqs, List.foldl_cons, List.foldl_nil, ProbeState.acquire, hmapped]
      rfl
    constructor
    · intro hcase
      rcases hcase with ⟨hv, hmissing, -⟩ | ⟨hclocks, hplat, -, hversion, hadd, hreg⟩
      · exact Or.inr (Or.inl ⟨hv, hmissing⟩)
      · exact Or.inr (Or.inr ⟨hall, hclocks, hplat, hversion, hadd, hreg⟩)
    · intro hcase
      rcases hcase with hnot | ⟨hv, hmissing⟩ | hdone
      · exact absurd hall hnot
      · exact Or.inl ⟨hv, hmissing, hclk hv⟩
      · exact Or.inr ⟨hdone.clocks, hdone.platData, by rw [hbase]; decide,
          hdone.version, hdone.sysfsAdd, hdone.register⟩
  · obtain ⟨m', hshape, hm', hglobal, hdrvdata⟩ := acquireIrqs_shape pre hmapped hm
    rw [heq]
    refine iff_of_true ?_ (Or.inl fun hall => hne (hall i hi))
    exact good_of_released he hshape hm' (hglobal.trans hs.global)
      (hdrvdata.trans hs.drvdata)

/-- One attempt, from a state in which nothing is left. -/
theorem probe_good (hs : TornDown s) :
    GoodExit v clears o (sunxiIommuProbe v o s) ↔ CleanOutcome v o := by
  rw [sunxiIommuProbe_eq, acquireRegisters_good hs, CleanOutcome]
  constructor
  · intro hcase
    rcases hcase with hcache | ⟨hdevice, hresource | hnull |
      ⟨hbase, hgood⟩ | ⟨hbase, hgood⟩⟩
    · exact Or.inl hcache
    · exact Or.inr ⟨hdevice, Or.inl hresource⟩
    · exact Or.inr ⟨hdevice, Or.inr (Or.inl hnull)⟩
    · exact absurd hgood (errPtr_not_good hbase hs)
    · exact Or.inr ⟨hdevice, Or.inr (Or.inr ⟨hbase, (mapped_good hbase hs).mp hgood⟩)⟩
  · intro hcase
    rcases hcase with hcache | ⟨hdevice, hresource | hnull | ⟨hbase, hgood⟩⟩
    · exact Or.inl hcache
    · exact Or.inr ⟨hdevice, Or.inl hresource⟩
    · exact Or.inr ⟨hdevice, Or.inr (Or.inl hnull)⟩
    · exact Or.inr ⟨hdevice, Or.inr (Or.inr (Or.inr
        ⟨hbase, (mapped_good hbase hs).mpr hgood⟩))⟩

end Early

/-! ## Any number of attempts -/

/-- A further attempt comes after one that left nothing. -/
theorem probeStep_iff {v : DriverVersion} {clears : Bool} {y y' : ProbeSystem}
    {o : ProbeOutcome} (hy : AllOrNothing v y)
    (hstep : probeStep v clears y o = some y') :
    AllOrNothing v y' ↔ CleanOutcome v o := by
  obtain ⟨s, last⟩ := y
  have hready : TornDown s ∧ y' = ⟨{
      (driverCore v clears (sunxiIommuProbe v o s)).1 with
        attempts := (driverCore v clears (sunxiIommuProbe v o s)).1.attempts + 1 },
      some (o, (driverCore v clears (sunxiIommuProbe v o s)).2)⟩ := by
    unfold probeStep at hstep
    unfold AllOrNothing at hy
    match last with
    | none => exact ⟨hy, (Option.some.inj hstep).symm⟩
    | some (_, .returned ret) =>
      dsimp only at hstep hy
      split_ifs at hstep hy with hret
      exact ⟨hy, (Option.some.inj hstep).symm⟩
    | some (_, .oops) => cases hstep
  obtain ⟨hs, rfl⟩ := hready
  have hgood : GoodExit v clears o (sunxiIommuProbe v o s) ↔ CleanOutcome v o :=
    probe_good hs
  rw [← hgood]
  unfold AllOrNothing GoodExit
  dsimp only
  cases (driverCore v clears (sunxiIommuProbe v o s)).2 with
  | oops => exact Iff.rfl
  | returned ret =>
    dsimp only
    split_ifs
    · exact ⟨fun h => ⟨h.cache, h.irqs, h.someClock, h.clocks, h.registered, h.version⟩,
        fun h => ⟨h.cache, h.irqs, h.someClock, h.clocks, h.registered, h.version⟩⟩
    · exact ⟨fun h => ⟨h.settled, h.global, h.drvdata⟩,
        fun h => ⟨h.settled, h.global, h.drvdata⟩⟩

/-- Every attempt of a run is all or nothing exactly when every attempt has a
clean outcome. -/
theorem probe_iff (v : DriverVersion) (clearsDrvdata : Bool)
    (outcomes : List ProbeOutcome) :
    Always (probeStep v clearsDrvdata) (AllOrNothing v) outcomes .init ↔
      Guarded (probeStep v clearsDrvdata) (fun _ o => CleanOutcome v o)
        outcomes .init := by
  refine always_iff_guarded (I := fun _ => True) ?_ (fun _ _ _ _ _ _ _ => trivial)
    trivial ?_ outcomes
  · intro y o y' _ hy hstep
    exact probeStep_iff hy hstep
  · show TornDown ProbeState.init
    exact ⟨Ledger.settled_empty, rfl, rfl⟩

/-- Every step succeeds but the version check: the probe of `v2` returns 0. -/
theorem version_mismatch_succeeds :
    ¬ Always (probeStep .v2 true) (AllOrNothing .v2)
      [{ cache := true, device := true, resource := true, ioremap := .mapped
         irq := fun _ => .granted, clk := ⟨true, true⟩, clks := [⟨true, true⟩]
         clkArray := true, platData := true, masters := [true]
         versionMatch := false, parent := true, files := fun _ => true
         sysfsAdd := none, register := none }] .init := by
  intro h
  have hbound := (h.2 _ rfl).head
  cases (show Bound .v2 _ _ from hbound).version

end LonganPi.Iommu
