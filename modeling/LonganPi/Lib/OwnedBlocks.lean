import LonganPi.Lib.Ownership
import Mathlib.Data.Option.Basic

/-!
# Slots that own known blocks

`OwnsAs own h` says more than `Ownership.Owns`: each slot knows what its block
holds.  So one statement says that every pointer is live and of its kind, that no
block has two owners and that none is lost.

* `acquire`, `release` and `pass`: taking a block, giving it back, and handing it to
  another slot, possibly changed.
* `not_of_freed` and `not_of_lost`: a block that is freed under its owner, or that no
  slot holds any more, breaks it.
-/

namespace Ownership

variable {ι α β : Type*}

/-- The slot `i` owns the address of `own i` and finds the block of `own i` there. -/
structure OwnsAs (own : ι → Option (α × β)) (h : α → Option β) : Prop where
  owns : Owns (fun i => (own i).map Prod.fst) h
  holds : ∀ {i a b}, own i = some (a, b) → h a = some b

namespace OwnsAs

variable {own own' : ι → Option (α × β)} {h h' : α → Option β} {i j : ι} {a : α} {b b' c : β}

theorem empty : OwnsAs (fun _ : ι => none) (fun _ : α => (none : Option β)) where
  owns := owns_empty
  holds h := by cases h

theorem unique (ho : OwnsAs own h) (hi : own i = some (a, b)) (hj : own j = some (a, b')) :
    i = j := by
  refine ho.owns.unique (a := a) ?_ ?_
  · simp only [hi, Option.map_some]
  · simp only [hj, Option.map_some]

/-- Different slots have different addresses. -/
theorem ne_addr (ho : OwnsAs own h) (hij : i ≠ j) {a' : α} (hi : own i = some (a, b))
    (hj : own j = some (a', b')) : a ≠ a' := by
  rintro rfl
  exact hij (ho.unique hi hj)

theorem covered (ho : OwnsAs own h) (ha : h a = some b) : ∃ i, own i = some (a, b) := by
  obtain ⟨i, hi⟩ := ho.owns.covered ha
  obtain ⟨⟨a', b'⟩, hown, heq⟩ := Option.map_eq_some_iff.mp hi
  have ha' : a' = a := heq
  rw [ha'] at hown
  have hb := ho.holds hown
  rw [ha] at hb
  exact ⟨i, by rw [hown, Option.some.inj hb]⟩

/-- An address that is not live is nobody's. -/
theorem not_owned (ho : OwnsAs own h) (ha : h a = none) (i : ι) (b : β) :
    own i ≠ some (a, b) := by
  intro hi
  have hb := ho.holds hi
  rw [ha] at hb
  cases hb

/-- A block that is freed under its owner. -/
theorem not_of_freed (hi : own i = some (a, b)) (ha : h a = none) : ¬ OwnsAs own h :=
  fun ho => ho.not_owned ha i b hi

/-- A block that its owner forgets is nobody's. -/
theorem not_of_lost (ho : OwnsAs own h) (hi : own i = some (a, b))
    (hforget : ∀ j, own' j = some (a, c) → j ≠ i ∧ own j = some (a, c))
    (ha : h' a = some c) : ¬ OwnsAs own' h' := by
  intro ho'
  obtain ⟨j, hj⟩ := ho'.covered ha
  obtain ⟨hji, hown⟩ := hforget j hj
  exact hji (ho.unique hown hi)

section Update

variable [DecidableEq ι] [DecidableEq α]

omit [DecidableEq α] in
theorem map_update (own : ι → Option (α × β)) (i : ι) (o : Option (α × β)) :
    (fun k => (Function.update own i o k).map Prod.fst) =
      Function.update (fun k => (own k).map Prod.fst) i (o.map Prod.fst) := by
  funext k
  by_cases hk : k = i
  · rw [hk, Function.update_self, Function.update_self]
  · rw [Function.update_of_ne hk, Function.update_of_ne hk]

/-- A fresh block goes into an empty slot. -/
theorem acquire (ho : OwnsAs own h) (b : β) (hi : own i = none) (ha : h a = none) :
    OwnsAs (Function.update own i (some (a, b))) (Function.update h a (some b)) where
  owns := by
    rw [map_update]
    exact ho.owns.acquire b (by simp only [hi, Option.map_none]) ha
  holds {j c d} hj := by
    by_cases hji : j = i
    · rw [hji, Function.update_self] at hj
      cases hj
      rw [Function.update_self]
    · rw [Function.update_of_ne hji] at hj
      have hca : c ≠ a := fun hca => ho.not_owned ha j d (hca ▸ hj)
      rw [Function.update_of_ne hca]
      exact ho.holds hj

/-- A slot gives its block back. -/
theorem release (ho : OwnsAs own h) (hi : own i = some (a, b)) :
    OwnsAs (Function.update own i none) (Function.update h a none) where
  owns := by
    rw [map_update]
    exact ho.owns.release (by simp only [hi, Option.map_some])
  holds {j c d} hj := by
    have hji : j ≠ i := by
      rintro rfl
      rw [Function.update_self] at hj
      cases hj
    rw [Function.update_of_ne hji] at hj
    rw [Function.update_of_ne (ho.ne_addr hji hj hi)]
    exact ho.holds hj

/-- A slot hands its block to an empty one, where it may hold something else. -/
theorem pass (ho : OwnsAs own h) (b' : β) (hi : own i = some (a, b)) (hj : own j = none) :
    OwnsAs (Function.update (Function.update own i none) j (some (a, b')))
      (Function.update h a (some b')) := by
  have hfree : Function.update own i none j = none := by
    by_cases hji : j = i
    · rw [hji, Function.update_self]
    · rw [Function.update_of_ne hji]
      exact hj
  have hres := (ho.release hi).acquire b' hfree (Function.update_self ..)
  rwa [Function.update_idem] at hres

end Update

end OwnsAs

end Ownership
