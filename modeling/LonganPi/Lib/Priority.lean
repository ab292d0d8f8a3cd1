import Mathlib.Data.List.Pairwise

/-!
# Choices by priority

A handler that can serve only one of several requests takes the first one of
a chain of tests, or the lowest bit of a word.  Both are the request with the
least key.

* `find?_eq_some_iff` is the chain of tests, in ascending order of its keys.
* `IsLowest` is the lowest bit of a word, and `isLowest_iff_ctz` says that
  `BitVec.ctz` finds it.
-/

namespace Priority

section Chain

variable {α : Type*} {key : α → Nat} {p : α → Bool} {l : List α} {a : α}

/-- The first entry with `p` is the one with the least key. -/
theorem find?_eq_some_iff (hl : l.Pairwise fun x y => key x < key y) :
    l.find? p = some a ↔
      a ∈ l ∧ p a = true ∧ ∀ b ∈ l, key b < key a → p b = false := by
  induction l with
  | nil => simp
  | cons x l ih =>
    obtain ⟨hx, hrest⟩ := List.pairwise_cons.mp hl
    rw [List.find?_cons]
    cases hpx : p x with
    | true =>
      simp only [Option.some.injEq]
      constructor
      · intro hxa
        subst hxa
        refine ⟨.head _, hpx, fun b hb hlt => ?_⟩
        rcases List.mem_cons.mp hb with rfl | hb
        · exact absurd hlt (Nat.lt_irrefl _)
        · have hgt := hx b hb
          omega
      · intro hall
        obtain ⟨hmem, hpa, hfirst⟩ := hall
        rcases List.mem_cons.mp hmem with rfl | hmem
        · rfl
        · have hfalse := hfirst x (.head _) (hx a hmem)
          rw [hpx] at hfalse
          cases hfalse
    | false =>
      rw [ih hrest, List.forall_mem_cons, List.mem_cons]
      constructor
      · intro hall
        obtain ⟨hmem, hpa, hfirst⟩ := hall
        exact ⟨Or.inr hmem, hpa, fun _ => hpx, hfirst⟩
      · intro hall
        obtain ⟨hmem, hpa, -, hfirst⟩ := hall
        rcases hmem with rfl | hmem
        · rw [hpx] at hpa
          cases hpa
        · exact ⟨hmem, hpa, hfirst⟩

end Chain

section Word

variable {n : Nat} {x : BitVec n} {i j : Nat}

/-- The lowest bit of a word. -/
def IsLowest (x : BitVec n) (i : Nat) : Prop :=
  x.getLsbD i = true ∧ ∀ j < i, x.getLsbD j = false

instance (x : BitVec n) (i : Nat) : Decidable (IsLowest x i) :=
  inferInstanceAs (Decidable (_ ∧ _))

theorem IsLowest.unique (hi : IsLowest x i) (hj : IsLowest x j) : i = j := by
  rcases Nat.lt_trichotomy i j with hlt | heq | hlt
  · have hfalse := hj.2 i hlt
    rw [hi.1] at hfalse
    cases hfalse
  · exact heq
  · have hfalse := hi.2 j hlt
    rw [hj.1] at hfalse
    cases hfalse

theorem IsLowest.ne_zero (hi : IsLowest x i) : x ≠ 0 := by
  intro hzero
  have hbit := hi.1
  rw [hzero, show (0 : BitVec n) = 0#n from rfl, BitVec.getLsbD_zero] at hbit
  cases hbit

/-- The count of trailing zeros finds the lowest bit of a word that is not
zero. -/
theorem isLowest_ctz (hx : x ≠ 0) : IsLowest x x.ctz.toNat :=
  ⟨BitVec.getLsbD_true_ctz_of_ne_zero hx,
    fun _ hj => BitVec.getLsbD_false_of_lt_ctz hj⟩

theorem isLowest_iff_ctz (hx : x ≠ 0) : IsLowest x i ↔ i = x.ctz.toNat :=
  ⟨fun h => h.unique (isLowest_ctz hx), fun h => h ▸ isLowest_ctz hx⟩

end Word

end Priority
