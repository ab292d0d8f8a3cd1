import Mathlib.Data.List.Pairwise

/-!
# A scan that collects runs

A scan goes over the positions `0, 1, 2, ..`.  Each position has a value or is
a gap.  Neighbours go into one run when the value of the run's first position
is related to theirs.  The run that may still grow is pending.

* `Runs` is what a list of runs says about the positions before `n`.
* `Scanned` is the invariant of the scan, with its pending run.
* `Scanned.step` is one position, `Scanned.gap` is any number of gaps.
* `Runs.uniform_iff` says when all positions of each run agree with the first
  one.
-/

namespace RunScan

variable {α : Type*}

/-- Positions `start` to `start + length - 1`, and the value of the first. -/
structure Run (α : Type*) where
  start : Nat
  length : Nat
  first : α

/-- The first position after the run. -/
def Run.stop (r : Run α) : Nat := r.start + r.length

/-- The closed runs and the pending one. -/
structure State (α : Type*) where
  out : List (Run α)
  pending : Option (Run α)

/-- All runs. -/
def State.runs (s : State α) : List (Run α) := s.out ++ s.pending.toList

/-- Close the pending run. -/
def State.flush (s : State α) : State α := ⟨s.runs, none⟩

/-- One position with a value. -/
def State.push (joins : α → α → Prop) [DecidableRel joins] (s : State α)
    (n : Nat) (a : α) : State α :=
  match s.pending with
  | none => ⟨s.out, some ⟨n, 1, a⟩⟩
  | some r =>
    if joins r.first a then ⟨s.out, some ⟨r.start, r.length + 1, r.first⟩⟩
    else ⟨s.out ++ [r], some ⟨n, 1, a⟩⟩

/-! ## The runs before a position -/

/-- The runs cover the values before `n`, in order, and each run is as long as
it can be. -/
structure Runs (joins : α → α → Prop) (w : Nat → Option α) (n : Nat)
    (l : List (Run α)) : Prop where
  covers : ∀ p, (∃ r ∈ l, r.start ≤ p ∧ p < r.stop) ↔ p < n ∧ (w p).isSome
  ascending : l.Pairwise fun r r' => r.stop ≤ r'.start
  nonempty : ∀ r ∈ l, 0 < r.length
  first : ∀ r ∈ l, w r.start = some r.first
  joined : ∀ r ∈ l, ∀ p, r.start < p → p < r.stop →
    ∃ a, w p = some a ∧ joins r.first a
  maximal : ∀ r ∈ l, r.stop < n → ∀ a, w r.stop = some a → ¬ joins r.first a

variable {joins : α → α → Prop} {w : Nat → Option α} {n k : Nat} {l : List (Run α)}
  {r : Run α} {a : α} {s : State α}

namespace Runs

theorem nil : Runs joins w 0 [] where
  covers p := by simp
  ascending := List.Pairwise.nil
  nonempty _ h := by cases h
  first _ h := by cases h
  joined _ h := by cases h
  maximal _ h := by cases h

theorem stop_le (h : Runs joins w n l) (hr : r ∈ l) : r.stop ≤ n := by
  have hpos := h.nonempty r hr
  have hlast := (h.covers (r.stop - 1)).mp
    ⟨r, hr, by unfold Run.stop; omega, by unfold Run.stop; omega⟩
  omega

/-- Gaps add nothing. -/
theorem gap (h : Runs joins w n l)
    (hgap : ∀ p, n ≤ p → p < n + k → w p = none) : Runs joins w (n + k) l where
  covers p := by
    rw [h.covers p]
    constructor
    · intro hp
      exact ⟨by omega, hp.2⟩
    · intro hp
      refine ⟨?_, hp.2⟩
      by_contra hge
      have hnone := hgap p (by omega) hp.1
      rw [hnone] at hp
      cases hp.2
  ascending := h.ascending
  nonempty := h.nonempty
  first := h.first
  joined := h.joined
  maximal r hr hstop a ha := by
    by_cases hlt : r.stop < n
    · exact h.maximal r hr hlt a ha
    · rw [hgap r.stop (by omega) hstop] at ha
      cases ha

/-- A value that no run takes opens one. -/
theorem opened (h : Runs joins w n l) (ha : w n = some a)
    (hno : ∀ r ∈ l, r.stop = n → ¬ joins r.first a) :
    Runs joins w (n + 1) (l ++ [⟨n, 1, a⟩]) where
  covers p := by
    simp only [List.mem_append, List.mem_singleton, or_and_right, exists_or,
      exists_eq_left, h.covers p]
    simp only [Run.stop]
    constructor
    · intro hp
      rcases hp with hp | hp
      · exact ⟨by omega, hp.2⟩
      · obtain rfl : p = n := by omega
        exact ⟨by omega, by rw [ha]; rfl⟩
    · intro hp
      by_cases hlt : p < n
      · exact Or.inl ⟨hlt, hp.2⟩
      · exact Or.inr ⟨by omega, hp.1⟩
  ascending := by
    rw [List.pairwise_append]
    refine ⟨h.ascending, List.pairwise_singleton _ _, fun r hr r' hr' => ?_⟩
    rw [List.mem_singleton.mp hr']
    exact h.stop_le hr
  nonempty := by
    simp only [List.forall_mem_append, List.forall_mem_singleton]
    exact ⟨h.nonempty, Nat.one_pos⟩
  first := by
    simp only [List.forall_mem_append, List.forall_mem_singleton]
    exact ⟨h.first, ha⟩
  joined := by
    simp only [List.forall_mem_append, List.forall_mem_singleton, Run.stop]
    exact ⟨h.joined, fun p hlt hle => by omega⟩
  maximal := by
    simp only [List.forall_mem_append, List.forall_mem_singleton]
    constructor
    · intro r hr hstop b hb
      by_cases hlt : r.stop < n
      · exact h.maximal r hr hlt b hb
      · obtain heq : r.stop = n := by omega
        rw [heq, ha] at hb
        obtain rfl := Option.some.inj hb
        exact hno r hr heq
    · intro hstop
      exact absurd hstop (Nat.lt_irrefl _)

/-- A value that the last run takes. -/
theorem extended (h : Runs joins w n (l ++ [r])) (ha : w n = some a)
    (hstop : r.stop = n) (hjoins : joins r.first a) :
    Runs joins w (n + 1) (l ++ [⟨r.start, r.length + 1, r.first⟩]) where
  covers p := by
    have hold := h.covers p
    simp only [List.mem_append, List.mem_singleton, or_and_right, exists_or,
      exists_eq_left] at hold ⊢
    rw [hstop] at hold
    simp only [Run.stop] at hstop ⊢
    have hpos := h.nonempty r (by simp)
    constructor
    · intro hp
      rcases hp with hp | hp
      · have hin := hold.mp (Or.inl hp)
        exact ⟨by omega, hin.2⟩
      · by_cases hlt : p < n
        · have hin := hold.mp (Or.inr ⟨hp.1, hlt⟩)
          exact ⟨by omega, hin.2⟩
        · obtain rfl : p = n := by omega
          exact ⟨by omega, by rw [ha]; rfl⟩
    · intro hp
      by_cases hlt : p < n
      · rcases hold.mpr ⟨hlt, hp.2⟩ with hin | hin
        · exact Or.inl hin
        · exact Or.inr ⟨hin.1, by omega⟩
      · exact Or.inr ⟨by omega, by omega⟩
  ascending := by
    have hold := h.ascending
    rw [List.pairwise_append] at hold ⊢
    refine ⟨hold.1, List.pairwise_singleton _ _, fun r₁ hr₁ r₂ hr₂ => ?_⟩
    rw [List.mem_singleton.mp hr₂]
    exact hold.2.2 r₁ hr₁ r (List.mem_singleton_self r)
  nonempty := by
    have hold := h.nonempty
    simp only [List.forall_mem_append, List.forall_mem_singleton] at hold ⊢
    exact ⟨hold.1, Nat.succ_pos _⟩
  first := by
    have hold := h.first
    simp only [List.forall_mem_append, List.forall_mem_singleton] at hold ⊢
    exact hold
  joined := by
    have hold := h.joined
    simp only [List.forall_mem_append, List.forall_mem_singleton, Run.stop]
      at hold ⊢
    refine ⟨hold.1, fun p hlt hle => ?_⟩
    rw [Run.stop] at hstop
    by_cases hin : p < n
    · exact hold.2 p hlt (by omega)
    · obtain rfl : p = n := by omega
      exact ⟨a, ha, hjoins⟩
  maximal := by
    have hold := h.maximal
    simp only [List.forall_mem_append, List.forall_mem_singleton] at hold ⊢
    constructor
    · intro r₁ hr₁ hlt b hb
      refine hold.1 r₁ hr₁ ?_ b hb
      have hle : r₁.stop ≤ r.start :=
        (List.pairwise_append.mp h.ascending).2.2 r₁ hr₁ r
          (List.mem_singleton_self r)
      have hpos := h.nonempty r (by simp)
      rw [Run.stop] at hstop
      omega
    · intro hlt
      simp only [Run.stop] at hlt hstop
      omega

end Runs

/-! ## The scan -/

/-- The invariant after the positions before `n`. -/
structure Scanned (joins : α → α → Prop) (w : Nat → Option α) (n : Nat)
    (s : State α) : Prop where
  runs : Runs joins w n s.runs
  closed : ∀ r ∈ s.out, r.stop < n
  pending : ∀ r ∈ s.pending, r.stop = n

namespace Scanned

theorem nil : Scanned joins w 0 (⟨[], none⟩ : State α) where
  runs := Runs.nil
  closed _ h := by cases h
  pending _ h := by cases h

theorem runs_flush (s : State α) : s.flush.runs = s.runs := by
  simp [State.flush, State.runs]

/-- Gaps close the pending run. -/
theorem gap (h : Scanned joins w n s)
    (hgap : ∀ p, n ≤ p → p < n + k → w p = none) (hk : 0 < k) :
    Scanned joins w (n + k) s.flush where
  runs := by
    rw [runs_flush]
    exact h.runs.gap hgap
  closed r hr := by
    have hle := h.runs.stop_le (r := r) hr
    omega
  pending _ hr := by cases hr

/-- A position with a value. -/
theorem push [DecidableRel joins] (h : Scanned joins w n s)
    (ha : w n = some a) : Scanned joins w (n + 1) (s.push joins n a) := by
  have hruns := h.runs
  unfold State.push
  cases hpending : s.pending with
  | none =>
    rw [State.runs, hpending, Option.toList_none, List.append_nil] at hruns
    refine ⟨hruns.opened ha fun r hr hstop => ?_, fun r hr => ?_, fun r hr => ?_⟩
    · have hlt := h.closed r hr
      omega
    · have hlt : r.stop < n := h.closed r hr
      omega
    · rw [← Option.some.inj hr]
      rfl
  | some r =>
    have hstop := h.pending r hpending
    rw [State.runs, hpending, Option.toList_some] at hruns
    dsimp only
    by_cases hjoins : joins r.first a
    · rw [if_pos hjoins]
      refine ⟨hruns.extended ha hstop hjoins, fun r' hr' => ?_, fun r' hr' => ?_⟩
      · have hlt : r'.stop < n := h.closed r' hr'
        omega
      · rw [← Option.some.inj hr']
        simp only [Run.stop] at hstop ⊢
        omega
    · rw [if_neg hjoins]
      have hlt : ∀ r' ∈ s.out ++ [r], r'.stop < n + 1 := by
        simp only [List.forall_mem_append, List.forall_mem_singleton]
        exact ⟨fun r' hr' => Nat.lt_succ_of_lt (h.closed r' hr'), by omega⟩
      refine ⟨hruns.opened ha fun r' hr' hn => ?_, hlt, fun r' hr' => ?_⟩
      · -- only the pending run ends here
        rcases List.mem_append.mp hr' with hin | hin
        · have hclosed := h.closed r' hin
          omega
        · rwa [List.mem_singleton.mp hin]
      · rw [← Option.some.inj hr']
        rfl

end Scanned

/-! ## Runs whose positions agree -/

/-- Each position of a run is related to the first one by `P`, at its
distance. -/
def Uniform (P : α → α → Nat → Prop) (w : Nat → Option α) (l : List (Run α)) :
    Prop :=
  ∀ r ∈ l, ∀ d < r.length, ∃ a, w (r.start + d) = some a ∧ P r.first a d

/-- A neighbour that belongs to the run of `r` is in it. -/
theorem Runs.next (h : Runs joins w n l) (hr : r ∈ l) {p : Nat}
    (hp : p < r.stop) (hn : p + 1 < n) (ha : w (p + 1) = some a)
    (hjoins : joins r.first a) : p + 1 < r.stop := by
  by_contra hge
  obtain heq : p + 1 = r.stop := by omega
  rw [heq] at ha hn
  exact h.maximal r hr hn a ha hjoins

variable {P : α → α → Nat → Prop}

/-- When related positions join the same values and relations compose, the
runs agree exactly when neighbours that join are related. -/
theorem Runs.uniform_iff (h : Runs joins w n l) (hrefl : ∀ a, P a a 0)
    (hjoin : ∀ f a d, P f a d → ∀ b, joins f b ↔ joins a b)
    (hcomp : ∀ f a d, P f a d → ∀ b, P f b (d + 1) ↔ P a b 1) :
    Uniform P w l ↔ ∀ p a b, p + 1 < n → w p = some a →
      w (p + 1) = some b → joins a b → P a b 1 := by
  constructor
  · intro huniform p a b hn ha hb hab
    obtain ⟨r, hr, hstart, hstop⟩ :=
      (h.covers p).mpr ⟨by omega, by rw [ha]; rfl⟩
    have hd : r.start + (p - r.start) = p := by omega
    obtain ⟨a', ha', hrelated⟩ :=
      huniform r hr (p - r.start) (by rw [Run.stop] at hstop; omega)
    rw [hd, ha] at ha'
    obtain rfl := Option.some.inj ha'
    -- the neighbour joins the run, so the run says what it is
    have hnext := h.next hr hstop hn hb ((hjoin _ _ _ hrelated b).mpr hab)
    obtain ⟨b', hb', hrelated'⟩ :=
      huniform r hr (p - r.start + 1) (by rw [Run.stop] at hnext; omega)
    rw [← Nat.add_assoc, hd, hb] at hb'
    obtain rfl := Option.some.inj hb'
    exact (hcomp _ _ _ hrelated b).mp hrelated'
  · intro hnext r hr d hd
    induction d with
    | zero => exact ⟨r.first, h.first r hr, hrefl _⟩
    | succ d ih =>
      obtain ⟨a, ha, hrelated⟩ := ih (by omega)
      have hle := h.stop_le hr
      rw [Run.stop] at hle
      obtain ⟨b, hb, hfirst⟩ := h.joined r hr (r.start + (d + 1)) (by omega)
        (by rw [Run.stop]; omega)
      refine ⟨b, hb, (hcomp _ _ _ hrelated b).mpr ?_⟩
      exact hnext (r.start + d) a b (by omega) ha hb
        ((hjoin _ _ _ hrelated b).mp hfirst)

end RunScan
