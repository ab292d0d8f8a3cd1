import Mathlib.Data.Int.ModEq
import Mathlib.Data.Nat.ModEq
import Mathlib.Tactic.Linarith

/-!
# Serial numbers

A counter that is kept modulo `2 * half` still tells which of two values is
the older one, as long as the true values are close.  `Before half a b` is the
comparison of the residues: the difference, taken modulo `2 * half`, is in the
upper half.

* `before_mod_iff`: residues compare as their numbers do, when the numbers are
  within `half` of each other.
* `mod_eq_mod_iff`: close numbers with one residue are equal.
-/

namespace SerialNumber

/-- The residue `a` is before `b` on the circle of `2 * half` residues. -/
def Before (half a b : ℕ) : Prop := (half : ℤ) ≤ ((a : ℤ) - b) % (2 * half)

instance (half a b : ℕ) : Decidable (Before half a b) :=
  inferInstanceAs (Decidable (_ ≤ _))

/-- The comparison only looks at the residues. -/
theorem before_mod (half x y : ℕ) :
    Before half (x % (2 * half)) (y % (2 * half)) ↔ Before half x y := by
  unfold Before
  push_cast
  rw [← Int.sub_emod]

/-- Numbers that are close compare as their residues do. -/
theorem before_mod_iff {half x y : ℕ} (hlo : y ≤ x + half) (hhi : x < y + half) :
    Before half (x % (2 * half)) (y % (2 * half)) ↔ x < y := by
  rw [before_mod]
  unfold Before
  by_cases hlt : x < y
  · have hrem : ((x : ℤ) - y) % (2 * half) = x - y + 2 * half := by
      rw [← Int.add_emod_right]
      exact Int.emod_eq_of_lt (by omega) (by omega)
    rw [hrem]
    omega
  · have hrem : ((x : ℤ) - y) % (2 * half) = x - y :=
      Int.emod_eq_of_lt (by omega) (by omega)
    rw [hrem]
    omega

/-- Numbers that are closer than the modulus differ in their residues. -/
theorem mod_eq_mod_iff {m x y : ℕ} (hlo : y < x + m) (hhi : x < y + m) :
    x % m = y % m ↔ x = y := by
  refine ⟨fun h => ?_, fun h => by rw [h]⟩
  rcases le_total x y with hle | hle
  · have hdvd : m ∣ y - x := (Nat.modEq_iff_dvd' hle).mp h
    have hzero : y - x = 0 := Nat.eq_zero_of_dvd_of_lt hdvd (by omega)
    omega
  · have hdvd : m ∣ x - y := (Nat.modEq_iff_dvd' hle).mp h.symm
    have hzero : x - y = 0 := Nat.eq_zero_of_dvd_of_lt hdvd (by omega)
    omega

end SerialNumber
