import Mathlib.Logic.Function.Basic

/-!
# Slots that own the blocks of a heap

A heap is a partial map from addresses to blocks.  A table of slots holds
pointers into it.  `Owns own h` says that the slots and the heap agree:
every pointer is live, no two slots share a block, and no live block is
lost.  A double free, a use after free and a leak each break one of the
three fields.

The rules below are the things a program does with such a table: take a
fresh block into an empty slot, give a block back, write through a pointer,
and start from nothing.  They hold over arbitrary types of slots,
addresses and blocks.
-/

namespace Ownership

variable {ι α β : Type*}

/-- The slots `own` hold exactly the live blocks of `h`, each once. -/
structure Owns (own : ι → Option α) (h : α → Option β) : Prop where
  live : ∀ {i a}, own i = some a → ∃ b, h a = some b
  unique : ∀ {i j a}, own i = some a → own j = some a → i = j
  covered : ∀ {a b}, h a = some b → ∃ i, own i = some a

/-- Empty slots own the empty heap. -/
theorem owns_empty : Owns (fun _ : ι => none) (fun _ : α => (none : Option β)) where
  live h := by simp at h
  unique h := by simp at h
  covered h := by simp at h

/-- The heap without the block of slot `i`. -/
def dropped [DecidableEq α] (own : ι → Option α) (h : α → Option β) (i : ι) :
    α → Option β :=
  match own i with
  | some a => Function.update h a none
  | none => h

namespace Owns

variable {own : ι → Option α} {h : α → Option β}

/-- A live block has exactly one owner. -/
theorem existsUnique_owner (ho : Owns own h) {a : α} {b : β}
    (ha : h a = some b) : ∃! i, own i = some a := by
  obtain ⟨i, hi⟩ := ho.covered ha
  exact ⟨i, hi, fun j hj => ho.unique hj hi⟩

/-- No slot holds the address of a block that is not live. -/
theorem not_owned_of_free (ho : Owns own h) {a : α} (ha : h a = none)
    (i : ι) : own i ≠ some a := by
  intro hi
  obtain ⟨b, hb⟩ := ho.live hi
  rw [ha] at hb
  cases hb

section Update

variable [DecidableEq α]

/-- Writing through a live pointer. -/
theorem store (ho : Owns own h) {a : α} {b : β} (b' : β)
    (ha : h a = some b) : Owns own (Function.update h a (some b')) where
  live {j c} hj := by
    by_cases hca : c = a
    · exact ⟨b', by rw [hca, Function.update_self]⟩
    · rw [Function.update_of_ne hca]
      exact ho.live hj
  unique hj hk := ho.unique hj hk
  covered {c d} hc := by
    by_cases hca : c = a
    · rw [hca]
      exact ho.covered ha
    · rw [Function.update_of_ne hca] at hc
      exact ho.covered hc

variable [DecidableEq ι]

/-- Taking a fresh block into an empty slot. -/
theorem acquire (ho : Owns own h) {i : ι} {a : α} (b : β)
    (hi : own i = none) (ha : h a = none) :
    Owns (Function.update own i (some a)) (Function.update h a (some b)) where
  live {j c} hj := by
    by_cases hji : j = i
    · subst hji
      rw [Function.update_self, Option.some.injEq] at hj
      exact ⟨b, by rw [← hj, Function.update_self]⟩
    · rw [Function.update_of_ne hji] at hj
      have hca : c ≠ a := fun hca => ho.not_owned_of_free ha j (hca ▸ hj)
      rw [Function.update_of_ne hca]
      exact ho.live hj
  unique {j k c} hj hk := by
    have hother : ∀ {l}, l ≠ i → Function.update own i (some a) l = some c →
        c ≠ a := by
      intro l hl hlc hca
      rw [Function.update_of_ne hl] at hlc
      exact ho.not_owned_of_free ha l (hca ▸ hlc)
    have hself : ∀ {l}, l = i → Function.update own i (some a) l = some c →
        c = a := by
      intro l hl hlc
      rw [hl, Function.update_self, Option.some.injEq] at hlc
      exact hlc.symm
    by_cases hji : j = i <;> by_cases hki : k = i
    · rw [hji, hki]
    · exact absurd (hself hji hj) (hother hki hk)
    · exact absurd (hself hki hk) (hother hji hj)
    · rw [Function.update_of_ne hji] at hj
      rw [Function.update_of_ne hki] at hk
      exact ho.unique hj hk
  covered {c d} hc := by
    by_cases hca : c = a
    · exact ⟨i, by rw [Function.update_self, hca]⟩
    · rw [Function.update_of_ne hca] at hc
      obtain ⟨j, hj⟩ := ho.covered hc
      refine ⟨j, ?_⟩
      rw [Function.update_of_ne ?_]
      · exact hj
      · intro heq
        subst heq
        rw [hi] at hj
        cases hj

omit [DecidableEq ι] in
/-- The blocks of the other slots stay. -/
theorem dropped_of_ne (ho : Owns own h) {i j : ι} {a : α}
    (hj : own j = some a) (hji : j ≠ i) : dropped own h i a = h a := by
  unfold dropped
  cases hi : own i with
  | none => rfl
  | some c =>
    have hac : a ≠ c := fun hac => hji (ho.unique hj (hac ▸ hi))
    exact Function.update_of_ne hac _ _

/-- Giving the block of a slot back. -/
theorem release (ho : Owns own h) {i : ι} {a : α} (hi : own i = some a) :
    Owns (Function.update own i none) (Function.update h a none) where
  live {j c} hj := by
    have hji : j ≠ i := by
      intro heq
      subst heq
      rw [Function.update_self] at hj
      cases hj
    rw [Function.update_of_ne hji] at hj
    have hca : c ≠ a := fun hca => hji (ho.unique (hca ▸ hj) hi)
    rw [Function.update_of_ne hca]
    exact ho.live hj
  unique {j k c} hj hk := by
    have hold : ∀ {l}, Function.update own i none l = some c →
        own l = some c := by
      intro l hl
      by_cases hli : l = i
      · rw [hli, Function.update_self] at hl
        cases hl
      · rwa [Function.update_of_ne hli] at hl
    exact ho.unique (hold hj) (hold hk)
  covered {c d} hc := by
    have hca : c ≠ a := by
      intro heq
      subst heq
      rw [Function.update_self] at hc
      cases hc
    rw [Function.update_of_ne hca] at hc
    obtain ⟨j, hj⟩ := ho.covered hc
    refine ⟨j, ?_⟩
    rw [Function.update_of_ne ?_]
    · exact hj
    · intro heq
      subst heq
      rw [hi, Option.some.injEq] at hj
      exact hca hj.symm

/-- Giving the block of a slot back, if it has one. -/
theorem drop (ho : Owns own h) (i : ι) :
    Owns (Function.update own i none) (dropped own h i) := by
  unfold dropped
  cases hi : own i with
  | some a => exact ho.release hi
  | none =>
    have hsame : Function.update own i none = own := by
      rw [← hi, Function.update_eq_self]
    show Owns (Function.update own i none) h
    rwa [hsame]

end Update

end Owns

end Ownership
