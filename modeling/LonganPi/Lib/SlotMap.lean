import Mathlib.Data.Set.Card
import Mathlib.Logic.Function.Basic

/-!
# A finite map in slots

A table of slots, each empty or with a key and a value.  `Represents t m` says
that no two slots have the same key and that `m` is the map they stand for.

* `empty`, `insert`, `overwrite`, `remove` and `map` are the edits of one
  table, and what they do to the map.
* `absent_iff` and `free_iff`: what a scan for a key and a scan for an empty
  slot find.  A slot is free exactly when the map has fewer keys than the
  table has slots.
-/

namespace SlotMap

variable {ι κ ν : Type*}

/-- A table of slots. -/
abbrev Slots (ι κ ν : Type*) := ι → Option (κ × ν)

/-- The keys of a map. -/
def keys (m : κ → Option ν) : Set κ := {k | m k ≠ none}

/-- The slots stand for the map. -/
structure Represents (t : Slots ι κ ν) (m : κ → Option ν) : Prop where
  unique : ∀ {i j k v w}, t i = some (k, v) → t j = some (k, w) → i = j
  lookup : ∀ {k v}, m k = some v ↔ ∃ i, t i = some (k, v)

namespace Represents

variable {t : Slots ι κ ν} {m : κ → Option ν} {i : ι} {k : κ} {v w : ν}

theorem empty : Represents (fun _ : ι => none) (fun _ : κ => (none : Option ν)) where
  unique h := by cases h
  lookup {_ _} := by
    constructor
    · intro h
      cases h
    · intro hex
      obtain ⟨_, h⟩ := hex
      cases h

/-- The map has the key of every slot in use. -/
theorem lookup_of_slot (h : Represents t m) (hi : t i = some (k, v)) :
    m k = some v :=
  h.lookup.mpr ⟨i, hi⟩

/-- A key is absent when no slot has it. -/
theorem absent_iff (h : Represents t m) :
    m k = none ↔ ∀ i v, t i ≠ some (k, v) := by
  constructor
  · intro hk i v hi
    cases hk.symm.trans (h.lookup_of_slot hi)
  · intro hnone
    rw [Option.eq_none_iff_forall_ne_some]
    intro v hv
    obtain ⟨i, hi⟩ := h.lookup.mp hv
    exact hnone i v hi

/-- The map has as many keys as the table has slots in use. -/
theorem ncard_keys (h : Represents t m) :
    (keys m).ncard = {i | t i ≠ none}.ncard := by
  symm
  refine Set.ncard_congr (fun i hi => ((t i).get (Option.ne_none_iff_isSome.mp hi)).1)
    ?_ ?_ ?_
  · intro i hi
    obtain ⟨⟨k, v⟩, hkv⟩ := Option.ne_none_iff_exists'.mp hi
    simp only [hkv, Option.get_some]
    show m k ≠ none
    rw [h.lookup_of_slot hkv]
    exact Option.some_ne_none v
  · intro i j hi hj hij
    obtain ⟨⟨k, v⟩, hkv⟩ := Option.ne_none_iff_exists'.mp hi
    obtain ⟨⟨k', v'⟩, hkv'⟩ := Option.ne_none_iff_exists'.mp hj
    simp only [hkv, hkv', Option.get_some] at hij
    rw [hij] at hkv
    exact h.unique hkv hkv'
  · intro k hk
    obtain ⟨v, hv⟩ := Option.ne_none_iff_exists'.mp hk
    obtain ⟨i, hi⟩ := h.lookup.mp hv
    exact ⟨i, by simp [hi], by simp [hi]⟩

/-- A slot is free exactly when the map has fewer keys than there are
slots. -/
theorem free_iff [Finite ι] (h : Represents t m) :
    (keys m).ncard < Nat.card ι ↔ ∃ i, t i = none := by
  rw [h.ncard_keys]
  constructor
  · intro hlt
    by_contra hfull
    have huniv : {i | t i ≠ none} = Set.univ :=
      Set.eq_univ_of_forall fun i hi => hfull ⟨i, hi⟩
    rw [huniv, Set.ncard_univ] at hlt
    exact Nat.lt_irrefl _ hlt
  · intro hex
    obtain ⟨i, hi⟩ := hex
    refine Set.ncard_lt_card fun huniv => ?_
    exact (huniv ▸ Set.mem_univ i : i ∈ {i | t i ≠ none}) hi

/-- The same change to the value of every key. -/
theorem map (h : Represents t m) (f : ν → ν) :
    Represents (fun i => (t i).map fun x => (x.1, f x.2))
      (fun k => (m k).map f) where
  unique {i j k v w} hi hj := by
    obtain ⟨⟨k₁, v₁⟩, hi', hkv⟩ := Option.map_eq_some_iff.mp hi
    obtain ⟨⟨k₂, v₂⟩, hj', hkw⟩ := Option.map_eq_some_iff.mp hj
    obtain ⟨rfl, -⟩ := Prod.mk.inj hkv
    obtain ⟨rfl, -⟩ := Prod.mk.inj hkw
    exact h.unique hi' hj'
  lookup {k v} := by
    constructor
    · intro hk
      obtain ⟨v₁, hv₁, rfl⟩ := Option.map_eq_some_iff.mp hk
      obtain ⟨i, hi⟩ := h.lookup.mp hv₁
      exact ⟨i, by rw [hi]; rfl⟩
    · intro hex
      obtain ⟨i, hi⟩ := hex
      obtain ⟨⟨k₁, v₁⟩, hi', hkv⟩ := Option.map_eq_some_iff.mp hi
      obtain ⟨rfl, rfl⟩ := Prod.mk.inj hkv
      rw [h.lookup_of_slot hi']
      rfl

variable [DecidableEq ι] [DecidableEq κ]

/-- One slot gets the key `k`, which no other slot has. -/
theorem store (h : Represents t m) (v : ν)
    (hold : ∀ j w, t j = some (k, w) → j = i)
    (hnew : ∀ k' w, t i = some (k', w) → k' = k) :
    Represents (Function.update t i (some (k, v)))
      (Function.update m k (some v)) where
  unique {j j' k' u w} hj hj' := by
    have hother : ∀ {l u}, l ≠ i → Function.update t i (some (k, v)) l = some (k', u) →
        t l = some (k', u) ∧ k' ≠ k := by
      intro l u hl hlu
      rw [Function.update_of_ne hl] at hlu
      exact ⟨hlu, fun hk => hl (hold l u (hk ▸ hlu))⟩
    have hself : ∀ {l u}, l = i → Function.update t i (some (k, v)) l = some (k', u) →
        k' = k := by
      intro l u hl hlu
      rw [hl, Function.update_self, Option.some.injEq] at hlu
      exact (Prod.mk.inj hlu).1.symm
    by_cases hji : j = i <;> by_cases hji' : j' = i
    · rw [hji, hji']
    · exact absurd (hself hji hj) (hother hji' hj').2
    · exact absurd (hself hji' hj') (hother hji hj).2
    · exact h.unique (hother hji hj).1 (hother hji' hj').1
  lookup {k' u} := by
    by_cases hk : k' = k
    · rw [hk, Function.update_self]
      constructor
      · intro hv
        exact ⟨i, by rw [Function.update_self, Option.some.inj hv]⟩
      · intro hex
        obtain ⟨j, hj⟩ := hex
        by_cases hji : j = i
        · rw [hji, Function.update_self, Option.some.injEq] at hj
          rw [(Prod.mk.inj hj).2]
        · rw [Function.update_of_ne hji] at hj
          exact absurd (hold j u hj) hji
    · rw [Function.update_of_ne hk, h.lookup]
      constructor
      · intro hex
        obtain ⟨j, hj⟩ := hex
        have hji : j ≠ i := by
          intro heq
          subst heq
          exact hk (hnew k' u hj)
        exact ⟨j, by rw [Function.update_of_ne hji, hj]⟩
      · intro hex
        obtain ⟨j, hj⟩ := hex
        by_cases hji : j = i
        · rw [hji, Function.update_self, Option.some.injEq] at hj
          exact absurd (Prod.mk.inj hj).1.symm hk
        · rw [Function.update_of_ne hji] at hj
          exact ⟨j, hj⟩

/-- A slot that has the key gets another value. -/
theorem overwrite (h : Represents t m) (hi : t i = some (k, v)) (w : ν) :
    Represents (Function.update t i (some (k, w)))
      (Function.update m k (some w)) := by
  refine h.store w (fun j u hj => h.unique hj hi) (fun k' u hk' => ?_)
  rw [hi, Option.some.injEq] at hk'
  exact (Prod.mk.inj hk').1.symm

/-- A free slot gets a key that is absent. -/
theorem insert (h : Represents t m) (hi : t i = none) (hk : m k = none) (w : ν) :
    Represents (Function.update t i (some (k, w)))
      (Function.update m k (some w)) := by
  refine h.store w (fun j u hj => ?_) (fun k' u hk' => ?_)
  · exact absurd hj (h.absent_iff.mp hk j u)
  · cases hi.symm.trans hk'

/-- The slot that has the key is cleared. -/
theorem remove (h : Represents t m) (hi : t i = some (k, v)) :
    Represents (Function.update t i none) (Function.update m k none) where
  unique {j j' k' u w} hj hj' := by
    have hold : ∀ {l u}, Function.update t i none l = some (k', u) →
        t l = some (k', u) := by
      intro l u hl
      by_cases hli : l = i
      · rw [hli, Function.update_self] at hl
        cases hl
      · rwa [Function.update_of_ne hli] at hl
    exact h.unique (hold hj) (hold hj')
  lookup {k' u} := by
    by_cases hk : k' = k
    · rw [hk, Function.update_self]
      constructor
      · intro hu
        cases hu
      · intro hex
        obtain ⟨j, hj⟩ := hex
        by_cases hji : j = i
        · rw [hji, Function.update_self] at hj
          cases hj
        · rw [Function.update_of_ne hji] at hj
          exact absurd (h.unique hj hi) hji
    · rw [Function.update_of_ne hk, h.lookup]
      constructor
      · intro hex
        obtain ⟨j, hj⟩ := hex
        have hji : j ≠ i := by
          intro heq
          subst heq
          rw [hi, Option.some.injEq] at hj
          exact hk (Prod.mk.inj hj).1.symm
        exact ⟨j, by rw [Function.update_of_ne hji, hj]⟩
      · intro hex
        obtain ⟨j, hj⟩ := hex
        by_cases hji : j = i
        · rw [hji, Function.update_self] at hj
          cases hj
        · rw [Function.update_of_ne hji] at hj
          exact ⟨j, hj⟩

end Represents

end SlotMap
