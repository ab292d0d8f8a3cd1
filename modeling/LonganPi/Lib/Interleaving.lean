import Mathlib.Logic.Relation

/-!
# A program beside an environment

A program does a fixed list of actions.  Between any two of them, before the
first and after the last, an environment may take any number of steps of its
own.  `Interleaved` is every result of such a run.

A safety property of all interleavings follows from three rules: split the
program with `append_iff`, carry an invariant over a part with `preserves`,
and use `establishes` where an action makes the property true.  A single bad
interleaving is built with `quiet` and `step`.
-/

namespace Interleaving

open Relation

variable {σ ε : Type*} {act : ε → σ → σ} {env : σ → σ → Prop}

/-- The states that the actions can lead to, with steps of the environment
at every point. -/
inductive Interleaved (act : ε → σ → σ) (env : σ → σ → Prop) :
    List ε → σ → σ → Prop
  | done {s s' : σ} : ReflTransGen env s s' → Interleaved act env [] s s'
  | step {e : ε} {es : List ε} {s s₁ s' : σ} : ReflTransGen env s s₁ →
      Interleaved act env es (act e s₁) s' → Interleaved act env (e :: es) s s'

namespace Interleaved

/-- Steps of the environment may come first. -/
theorem after_env {es : List ε} {s s₁ s' : σ} (henv : ReflTransGen env s s₁)
    (h : Interleaved act env es s₁ s') : Interleaved act env es s s' := by
  cases h with
  | done h => exact .done (henv.trans h)
  | step h hrest => exact .step (henv.trans h) hrest

/-- A run of two parts is a run of the first and then of the second. -/
theorem append_iff {es fs : List ε} {s s'' : σ} :
    Interleaved act env (es ++ fs) s s'' ↔
      ∃ s', Interleaved act env es s s' ∧ Interleaved act env fs s' s'' := by
  constructor
  · intro h
    induction es generalizing s with
    | nil => exact ⟨s, .done .refl, h⟩
    | cons e es ih =>
      cases h with
      | step henv hrest =>
        obtain ⟨s', h₁, h₂⟩ := ih hrest
        exact ⟨s', .step henv h₁, h₂⟩
  · intro hex
    obtain ⟨s', h₁, h₂⟩ := hex
    induction h₁ with
    | done henv => exact after_env henv h₂
    | step henv _ ih => exact .step henv (ih h₂)

/-- The run in which the environment does nothing. -/
theorem quiet (es : List ε) (s : σ) :
    Interleaved act env es s (es.foldl (fun s e => act e s) s) := by
  induction es generalizing s with
  | nil => exact .done .refl
  | cons e es ih => exact .step .refl (ih (act e s))

variable {P : σ → Prop}

theorem preserves_env (henv : ∀ s s', env s s' → P s → P s') {s s' : σ}
    (h : ReflTransGen env s s') (hP : P s) : P s' := by
  induction h with
  | refl => exact hP
  | tail _ hstep ih => exact henv _ _ hstep ih

/-- What the environment and every action keep holds at the end. -/
theorem preserves {es : List ε} {s s' : σ}
    (h : Interleaved act env es s s')
    (henv : ∀ s s', env s s' → P s → P s')
    (hact : ∀ e ∈ es, ∀ s, P s → P (act e s)) (hP : P s) : P s' := by
  induction h with
  | done hsteps => exact preserves_env henv hsteps hP
  | step hsteps _ ih =>
    refine ih (fun e he => hact e (List.mem_cons_of_mem _ he)) ?_
    exact hact _ List.mem_cons_self _ (preserves_env henv hsteps hP)

/-- An action that makes `P` true under `Q` does so in the middle of every
run that keeps `Q` before it and `P` after it. -/
theorem establishes {Q : σ → Prop} (pre post : List ε) {e : ε} {s s' : σ}
    (h : Interleaved act env (pre ++ e :: post) s s')
    (henvQ : ∀ s s', env s s' → Q s → Q s')
    (hpre : ∀ e ∈ pre, ∀ s, Q s → Q (act e s))
    (he : ∀ s, Q s → P (act e s))
    (henvP : ∀ s s', env s s' → P s → P s')
    (hpost : ∀ e ∈ post, ∀ s, P s → P (act e s)) (hQ : Q s) : P s' := by
  obtain ⟨s₁, h₁, h₂⟩ := append_iff.mp h
  have hQ₁ : Q s₁ := h₁.preserves henvQ hpre hQ
  cases h₂ with
  | step hsteps hrest =>
    exact hrest.preserves henvP hpost
      (he _ (preserves_env henvQ hsteps hQ₁))

end Interleaved

end Interleaving
