import Mathlib.Data.Multiset.AddSub
import Mathlib.Data.Multiset.Filter

/-!
# An account of resources

A ledger holds every resource that was acquired and not released yet, as
often as it was acquired, and it counts the releases of something that was
not held.  When nothing is held and that count is 0, every acquisition has
been released exactly once.

* `release_acquire` and `releaseAll_eq`: releases undo acquisitions, in any
  order.
* `releaseWhere` is a cleanup that releases whatever it manages, each once.
* `overReleased_le_release`: a wrong release is never forgotten.
-/

/-- What is held, and how often something was released that was not held. -/
structure Ledger (κ : Type*) where
  held : Multiset κ
  overReleased : Nat

namespace Ledger

variable {κ : Type*}

/-- Nothing is held. -/
def empty : Ledger κ := ⟨0, 0⟩

/-- One more of `x`. -/
def acquire (L : Ledger κ) (x : κ) : Ledger κ :=
  { L with held := x ::ₘ L.held }

/-- Nothing is held and nothing was released too often. -/
def Settled (L : Ledger κ) : Prop := L.held = 0 ∧ L.overReleased = 0

theorem settled_empty : (empty : Ledger κ).Settled := ⟨rfl, rfl⟩

theorem Settled.eq_empty {L : Ledger κ} (h : L.Settled) : L = ⟨0, 0⟩ := by
  rw [← h.1, ← h.2]

@[simp] theorem acquire_held (L : Ledger κ) (x : κ) :
    (L.acquire x).held = x ::ₘ L.held := rfl

/-- A cleanup releases everything with `p`. -/
def releaseWhere (L : Ledger κ) (p : κ → Prop) [DecidablePred p] : Ledger κ :=
  { L with held := L.held.filter fun x => ¬ p x }

@[simp] theorem releaseWhere_held (L : Ledger κ) (p : κ → Prop)
    [DecidablePred p] :
    (L.releaseWhere p).held = L.held.filter fun x => ¬ p x := rfl

section Release

variable [DecidableEq κ]

/-- One less of `x`. -/
def release (L : Ledger κ) (x : κ) : Ledger κ :=
  if x ∈ L.held then { L with held := L.held.erase x }
  else { L with overReleased := L.overReleased + 1 }

/-- One release for each element of a list. -/
def releaseAll (L : Ledger κ) (xs : List κ) : Ledger κ :=
  xs.foldl release L

theorem release_of_mem {L : Ledger κ} {x : κ} (h : x ∈ L.held) :
    L.release x = ⟨L.held.erase x, L.overReleased⟩ := if_pos h

theorem release_of_notMem {L : Ledger κ} {x : κ} (h : x ∉ L.held) :
    L.release x = ⟨L.held, L.overReleased + 1⟩ := if_neg h

/-- A release undoes an acquisition. -/
@[simp] theorem release_acquire (L : Ledger κ) (x : κ) :
    (L.acquire x).release x = L := by
  rw [release_of_mem (Multiset.mem_cons_self x L.held), acquire_held,
    Multiset.erase_cons_head]
  rfl

/-- A list that is held is released. -/
theorem releaseAll_eq (xs : List κ) (m : Multiset κ) (n : Nat) :
    (⟨↑xs + m, n⟩ : Ledger κ).releaseAll xs = ⟨m, n⟩ := by
  induction xs with
  | nil => rw [Multiset.coe_nil, Multiset.zero_add]; rfl
  | cons x xs ih =>
    rw [releaseAll, List.foldl_cons, release_of_mem, ← Multiset.cons_coe,
      Multiset.cons_add, Multiset.erase_cons_head]
    · exact ih
    · rw [← Multiset.cons_coe, Multiset.cons_add]
      exact Multiset.mem_cons_self _ _

theorem overReleased_le_release (L : Ledger κ) (x : κ) :
    L.overReleased ≤ (L.release x).overReleased := by
  unfold release
  split_ifs
  · exact Nat.le_refl _
  · exact Nat.le_succ _

theorem overReleased_le_releaseAll (L : Ledger κ) (xs : List κ) :
    L.overReleased ≤ (L.releaseAll xs).overReleased := by
  induction xs generalizing L with
  | nil => exact Nat.le_refl _
  | cons x xs ih => exact (L.overReleased_le_release x).trans (ih _)

/-- A release takes nothing else. -/
theorem mem_release_of_ne {L : Ledger κ} {x y : κ} (h : y ≠ x) :
    y ∈ (L.release x).held ↔ y ∈ L.held := by
  unfold release
  split_ifs
  · exact Multiset.mem_erase_of_ne h
  · exact Iff.rfl

theorem count_release_of_ne {L : Ledger κ} {x y : κ} (h : y ≠ x) :
    (L.release x).held.count y = L.held.count y := by
  unfold release
  split_ifs
  · exact Multiset.count_erase_of_ne h _
  · rfl

theorem release_held_le (L : Ledger κ) (x : κ) : (L.release x).held ≤ L.held := by
  unfold release
  split_ifs
  · exact Multiset.erase_le x L.held
  · exact le_refl L.held

/-- What is held once is not held after its release. -/
theorem notMem_release {L : Ledger κ} {x : κ} (h : L.held.count x ≤ 1) :
    x ∉ (L.release x).held := by
  by_cases hx : x ∈ L.held
  · rw [release_of_mem hx, ← Multiset.count_eq_zero, Multiset.count_erase_self]
    omega
  · rwa [release_of_notMem hx]

theorem mem_releaseAll_of_notMem {L : Ledger κ} {xs : List κ} {y : κ}
    (h : y ∉ xs) : y ∈ (L.releaseAll xs).held ↔ y ∈ L.held := by
  induction xs generalizing L with
  | nil => exact Iff.rfl
  | cons x xs ih =>
    rw [List.mem_cons, not_or] at h
    exact (ih h.2).trans (mem_release_of_ne h.1)

/-- A release of something that is not held is counted. -/
theorem overReleased_releaseAll_pos {L : Ledger κ} {xs : List κ} {x : κ}
    (hx : x ∈ xs) (h : x ∉ L.held) : 0 < (L.releaseAll xs).overReleased := by
  induction xs generalizing L with
  | nil => cases hx
  | cons y xs ih =>
    by_cases hxy : x = y
    · have hpos : 0 < (L.release y).overReleased := by
        rw [← hxy, release_of_notMem h]
        exact Nat.succ_pos _
      exact Nat.lt_of_lt_of_le hpos (overReleased_le_releaseAll _ xs)
    · refine ih ((List.mem_cons.mp hx).resolve_left hxy) ?_
      rwa [mem_release_of_ne hxy]

end Release

end Ledger
