import Mathlib.Data.Option.Basic

/-!
# Properties of every state of a run

A system with labelled steps: `step s a` is the state after the step `a`, or
`none` when the step is not enabled.  A run is a list of labels.  A label
that is not enabled ends it.

`Always P` says that `P` holds in every state of a run, and `Guarded G` says
that every step of a run meets the condition `G`, which looks at the state
before the step and at the label.

* `always_of_guarded`: when guarded steps keep an invariant, guarded runs
  keep it.
* `always_iff_guarded`: when a step keeps `P` exactly under `G`, a run keeps
  `P` exactly when it is guarded.  So `G` is the exact condition.
* `Always.of_run` takes `Always` to the last state of a concrete run.

`Completes Q` says that every step of a run is enabled and meets `Q`, which
looks at the states before and after it, and `Meets G` that every step meets
the condition `G`, whether it is enabled or not.

* `completes_iff_meets`: when a step completes exactly under `G`, a run
  completes exactly when its steps meet `G`.
-/

namespace Transition

variable {σ ι : Type*} {step : σ → ι → Option σ}

/-- The state after a run. -/
def run (step : σ → ι → Option σ) : List ι → σ → Option σ
  | [], s => some s
  | a :: as, s =>
    match step s a with
    | some s' => run step as s'
    | none => none

theorem run_cons {a : ι} {as : List ι} {s s' : σ} :
    run step (a :: as) s = some s' ↔ ∃ s₁, step s a = some s₁ ∧ run step as s₁ = some s' := by
  simp only [run]
  cases hstep : step s a with
  | none =>
    constructor
    · intro h
      cases h
    · rintro ⟨s₁, h, -⟩
      cases h
  | some s₁ =>
    constructor
    · intro h
      exact ⟨s₁, rfl, h⟩
    · rintro ⟨s₂, h, hrun⟩
      rw [Option.some.inj h]
      exact hrun

theorem run_append {as bs : List ι} {s s' s'' : σ} (h : run step as s = some s')
    (h' : run step bs s' = some s'') : run step (as ++ bs) s = some s'' := by
  induction as generalizing s with
  | nil =>
    rw [Option.some.inj h]
    exact h'
  | cons a as ih =>
    obtain ⟨s₁, hstep, hrun⟩ := run_cons.mp h
    exact run_cons.mpr ⟨s₁, hstep, ih hrun⟩

/-- `P` holds in every state of the run. -/
def Always (step : σ → ι → Option σ) (P : σ → Prop) : List ι → σ → Prop
  | [], s => P s
  | a :: as, s => P s ∧ ∀ s', step s a = some s' → Always step P as s'

/-- Every step of the run meets `G` in the state before it. -/
def Guarded (step : σ → ι → Option σ) (G : σ → ι → Prop) :
    List ι → σ → Prop
  | [], _ => True
  | a :: as, s => ∀ s', step s a = some s' → G s a ∧ Guarded step G as s'

variable {P I : σ → Prop} {G : σ → ι → Prop}

theorem Always.head {as : List ι} {s : σ} (h : Always step P as s) : P s := by
  cases as with
  | nil => exact h
  | cons a as => exact h.1

/-- A guarded step in front of a guarded run. -/
theorem Guarded.cons {a : ι} {as : List ι} {s s' : σ} (hstep : step s a = some s')
    (hguard : G s a) (hrest : Guarded step G as s') :
    Guarded step G (a :: as) s := by
  intro s₁ hs₁
  obtain rfl := Option.some.inj (hstep.symm.trans hs₁)
  exact ⟨hguard, hrest⟩

/-- `Always` reaches the last state of a run. -/
theorem Always.of_run {as : List ι} {s s' : σ} (h : Always step P as s)
    (hrun : run step as s = some s') : P s' := by
  induction as generalizing s with
  | nil =>
    rw [← Option.some.inj hrun]
    exact h
  | cons a as ih =>
    unfold run at hrun
    cases hstep : step s a with
    | none =>
      rw [hstep] at hrun
      cases hrun
    | some s₁ =>
      rw [hstep] at hrun
      exact ih (h.2 s₁ hstep) hrun

/-- A weaker property holds along the same run. -/
theorem Always.mono {Q : σ → Prop} {as : List ι} {s : σ}
    (hPQ : ∀ s, P s → Q s) (h : Always step P as s) : Always step Q as s := by
  induction as generalizing s with
  | nil => exact hPQ s h
  | cons a as ih => exact ⟨hPQ s h.1, fun s' hs' => ih (h.2 s' hs')⟩

/-- Guarded steps keep an invariant, so guarded runs keep it. -/
theorem always_of_guarded
    (hstep : ∀ s a s', P s → G s a → step s a = some s' → P s')
    {as : List ι} {s : σ} (hs : P s) (h : Guarded step G as s) :
    Always step P as s := by
  induction as generalizing s with
  | nil => exact hs
  | cons a as ih =>
    refine ⟨hs, fun s' hs' => ?_⟩
    obtain ⟨hguard, hrest⟩ := h s' hs'
    exact ih (hstep s a s' hs hguard hs') hrest

/-- A run keeps what every step keeps. -/
theorem always_of_step (hstep : ∀ s a s', P s → step s a = some s' → P s')
    (as : List ι) {s : σ} (hs : P s) : Always step P as s := by
  induction as generalizing s with
  | nil => exact hs
  | cons a as ih => exact ⟨hs, fun s' hs' => ih (hstep s a s' hs hs')⟩

/-- When every step is enabled, a condition on the labels alone is one on the
list. -/
theorem guarded_iff_forall (htotal : ∀ s a, ∃ s', step s a = some s')
    {g : ι → Prop} {as : List ι} {s : σ} :
    Guarded step (fun _ a => g a) as s ↔ ∀ a ∈ as, g a := by
  induction as generalizing s with
  | nil => exact ⟨fun _ _ h => (by cases h), fun _ => trivial⟩
  | cons a as ih =>
    obtain ⟨s', hs'⟩ := htotal s a
    rw [List.forall_mem_cons]
    constructor
    · intro h
      obtain ⟨hguard, hrest⟩ := h s' hs'
      exact ⟨hguard, ih.mp hrest⟩
    · intro h
      exact Guarded.cons hs' h.1 (ih.mpr h.2)

/-- When a step from a state with `P` keeps `P` exactly under `G`, a run
keeps `P` exactly when it is guarded.  `I` is what else holds as long as
`P` does. -/
theorem always_iff_guarded
    (hiff : ∀ s a s', I s → P s → step s a = some s' → (P s' ↔ G s a))
    (hinv : ∀ s a s', I s → P s → step s a = some s' → P s' → I s')
    {s : σ} (hs : I s) (hP : P s) (as : List ι) :
    Always step P as s ↔ Guarded step G as s := by
  induction as generalizing s with
  | nil => exact ⟨fun _ => trivial, fun _ => hP⟩
  | cons a as ih =>
    constructor
    · intro h s' hs'
      have hrest := h.2 s' hs'
      have hP' := hrest.head
      exact ⟨(hiff s a s' hs hP hs').mp hP',
        (ih (hinv s a s' hs hP hs' hP') hP').mp hrest⟩
    · intro h
      refine ⟨hP, fun s' hs' => ?_⟩
      obtain ⟨hguard, hrest⟩ := h s' hs'
      have hP' := (hiff s a s' hs hP hs').mpr hguard
      exact (ih (hinv s a s' hs hP hs' hP') hP').mpr hrest

/-- The same along the runs whose steps meet `H`. -/
theorem always_iff_guarded_of {H : σ → ι → Prop}
    (hiff : ∀ s a s', I s → P s → H s a → step s a = some s' → (P s' ↔ G s a))
    (hinv : ∀ s a s', I s → H s a → step s a = some s' → I s')
    {as : List ι} {s : σ} (hI : I s) (hP : P s) (hH : Guarded step H as s) :
    Always step P as s ↔ Guarded step G as s := by
  induction as generalizing s with
  | nil => exact ⟨fun _ => trivial, fun _ => hP⟩
  | cons a as ih =>
    constructor
    · intro h s' hstep
      obtain ⟨hHa, hrest⟩ := hH s' hstep
      have hP' : P s' := (h.2 s' hstep).head
      exact ⟨(hiff s a s' hI hP hHa hstep).mp hP',
        (ih (hinv s a s' hI hHa hstep) hP' hrest).mp (h.2 s' hstep)⟩
    · intro h
      refine ⟨hP, fun s' hstep => ?_⟩
      obtain ⟨hHa, hrest⟩ := hH s' hstep
      obtain ⟨hG, hguard⟩ := h s' hstep
      have hP' := (hiff s a s' hI hP hHa hstep).mpr hG
      exact (ih (hinv s a s' hI hHa hstep) hP' hrest).mpr hguard

/-! ## Runs without a step that is not enabled -/

/-- Every step of the run is enabled and meets `Q`. -/
def Completes (step : σ → ι → Option σ) (Q : σ → ι → σ → Prop) :
    List ι → σ → Prop
  | [], _ => True
  | a :: as, s => ∃ s', step s a = some s' ∧ Q s a s' ∧ Completes step Q as s'

/-- Every step of the run meets `G`, up to one that is not enabled. -/
def Meets (step : σ → ι → Option σ) (G : σ → ι → Prop) : List ι → σ → Prop
  | [], _ => True
  | a :: as, s => G s a ∧ ∀ s', step s a = some s' → Meets step G as s'

/-- A run that completes has a last state. -/
theorem Completes.run {Q : σ → ι → σ → Prop} {as : List ι} {s : σ}
    (h : Completes step Q as s) : ∃ s', run step as s = some s' := by
  induction as generalizing s with
  | nil => exact ⟨s, rfl⟩
  | cons a as ih =>
    obtain ⟨s₁, hs₁, -, hrest⟩ := h
    obtain ⟨s', hs'⟩ := ih hrest
    refine ⟨s', ?_⟩
    unfold Transition.run
    rw [hs₁]
    exact hs'

/-- When a step completes exactly under `G`, a run completes exactly when its
steps meet `G`.  `I` is what holds after every step. -/
theorem completes_iff_meets {Q : σ → ι → σ → Prop}
    (hiff : ∀ s a, I s → ((∃ s', step s a = some s' ∧ Q s a s') ↔ G s a))
    (hinv : ∀ s a s', I s → step s a = some s' → I s') {s : σ} (hs : I s)
    (as : List ι) : Completes step Q as s ↔ Meets step G as s := by
  induction as generalizing s with
  | nil => exact Iff.rfl
  | cons a as ih =>
    constructor
    · intro h
      obtain ⟨s', hs', hq, hrest⟩ := h
      refine ⟨(hiff s a hs).mp ⟨s', hs', hq⟩, fun s₁ hs₁ => ?_⟩
      obtain rfl := Option.some.inj (hs'.symm.trans hs₁)
      exact (ih (hinv s a s' hs hs')).mp hrest
    · intro h
      obtain ⟨s', hs', hq⟩ := (hiff s a hs).mpr h.1
      exact ⟨s', hs', hq, (ih (hinv s a s' hs hs')).mpr (h.2 s' hs')⟩

/-- When guarded steps never make `μ` larger and those with `q` make it smaller, a guarded
run has no more of these than `μ` allows. -/
theorem countP_le_of_run {μ : σ → Nat} (q : ι → Bool)
    (hinv : ∀ s a s', I s → G s a → step s a = some s' → I s')
    (hle : ∀ s a s', I s → G s a → step s a = some s' → μ s' + (q a).toNat ≤ μ s)
    {as : List ι} {s s' : σ} (hs : I s) (hguard : Guarded step G as s)
    (hrun : run step as s = some s') : as.countP q + μ s' ≤ μ s := by
  induction as generalizing s with
  | nil =>
    rw [Option.some.inj hrun]
    exact Nat.le_of_eq (Nat.zero_add _)
  | cons a as ih =>
    obtain ⟨s₁, hstep, hrest⟩ := run_cons.mp hrun
    obtain ⟨hG, hguard₁⟩ := hguard s₁ hstep
    have hlen := ih (hinv s a s₁ hs hG hstep) hguard₁ hrest
    have hlt := hle s a s₁ hs hG hstep
    have hcount : (a :: as).countP q = as.countP q + (q a).toNat := by
      rw [List.countP_cons]
      cases q a <;> rfl
    rw [hcount]
    omega

/-- When every guarded step makes `μ` smaller, a guarded run is not longer than
`μ` allows. -/
theorem length_le_of_run {μ : σ → Nat} (hinv : ∀ s a s', I s → G s a → step s a = some s' → I s')
    (hdec : ∀ s a s', I s → G s a → step s a = some s' → μ s' < μ s)
    {as : List ι} {s s' : σ} (hs : I s) (hguard : Guarded step G as s)
    (hrun : run step as s = some s') : as.length + μ s' ≤ μ s := by
  have hcount := countP_le_of_run (fun _ => true) hinv hdec hs hguard hrun
  rwa [List.countP_true] at hcount

section Refinement

variable {τ κ : Type*}

/-- What the steps of a run are to an observer, in order. -/
def trace (step : σ → ι → Option σ) (f : σ → ι → List κ) : List ι → σ → List κ
  | [], _ => []
  | a :: as, s =>
    match step s a with
    | some s' => f s a ++ trace step f as s'
    | none => []

theorem trace_cons {f : σ → ι → List κ} {a : ι} {as : List ι} {s s₁ : σ}
    (h : step s a = some s₁) : trace step f (a :: as) s = f s a ++ trace step f as s₁ := by
  simp only [trace, h]

/-- When every guarded step does what the abstract steps `f s a` do, a guarded
run does what their sequence does. -/
theorem run_trace {act : τ → κ → Option τ} {abs : σ → τ} {f : σ → ι → List κ}
    (hinv : ∀ s a s', I s → G s a → step s a = some s' → I s')
    (hsim : ∀ s a s', I s → G s a → step s a = some s' →
      run act (f s a) (abs s) = some (abs s'))
    {as : List ι} {s s' : σ} (hs : I s) (hguard : Guarded step G as s)
    (hrun : run step as s = some s') :
    run act (trace step f as s) (abs s) = some (abs s') := by
  induction as generalizing s with
  | nil =>
    rw [Option.some.inj hrun]
    rfl
  | cons a as ih =>
    obtain ⟨s₁, hstep, hrest⟩ := run_cons.mp hrun
    obtain ⟨hG, hguard₁⟩ := hguard s₁ hstep
    rw [trace_cons hstep]
    exact run_append (hsim s a s₁ hs hG hstep) (ih (hinv s a s₁ hs hG hstep) hguard₁ hrest)

end Refinement

end Transition
