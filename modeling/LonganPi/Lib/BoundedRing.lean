import Mathlib.Data.List.Basic
import Mathlib.Logic.Function.Basic

/-!
# A ring of cells as a bounded queue

The cells of an array are used from `front` to `rear`, around its end.  One cell
stays free, so that a full ring is not taken for an empty one.

`Holds n r l` says that the ring `r` of `n` cells holds the queue `l`.  The rules
say which changes of the cells and the two indices put an element at the end,
take the first one, or change the first one in its place.
-/

structure BoundedRing (α : Type*) where
  cells : Nat → Option α
  front : Nat
  rear : Nat

namespace BoundedRing

variable {α : Type*} {n : Nat} {r : BoundedRing α} {l : List α} {x y : α}

/-- The cells from `front` on hold the elements of `l`. -/
structure Holds (n : Nat) (r : BoundedRing α) (l : List α) : Prop where
  front_lt : r.front < n
  length_lt : l.length < n
  rear_eq : r.rear = (r.front + l.length) % n
  cell : ∀ i x, l[i]? = some x → r.cells ((r.front + i) % n) = some x

/-- Around the end once. -/
theorem index_eq {a i : Nat} (ha : a < n) (hi : i ≤ n) :
    (a + i) % n = if a + i < n then a + i else a + i - n := by
  split_ifs with h
  · exact Nat.mod_eq_of_lt h
  · rw [Nat.mod_eq_sub_mod (Nat.not_lt.mp h)]
    exact Nat.mod_eq_of_lt (by omega)

/-- Two elements have different cells. -/
theorem index_ne {a i j : Nat} (ha : a < n) (hij : i < j) (hj : j < n) :
    (a + i) % n ≠ (a + j) % n := by
  rw [index_eq ha (by omega), index_eq ha (by omega)]
  split_ifs <;> omega

theorem succ_index (a i : Nat) : ((a + 1) % n + i) % n = (a + (i + 1)) % n := by
  rw [Nat.mod_add_mod]
  congr 1
  omega

namespace Holds

/-- The cell of the first element. -/
theorem index_zero (h : Holds n r l) : (r.front + 0) % n = r.front :=
  Nat.mod_eq_of_lt h.front_lt

theorem empty_iff (h : Holds n r l) : r.front = r.rear ↔ l = [] := by
  rw [h.rear_eq]
  constructor
  · intro heq
    by_contra hne
    have hpos := List.length_pos_of_ne_nil hne
    apply index_ne h.front_lt hpos h.length_lt
    rw [h.index_zero]
    exact heq
  · rintro rfl
    exact h.index_zero.symm

/-- One cell is left. -/
theorem full_iff (h : Holds n r l) : r.front = (r.rear + 1) % n ↔ l.length + 1 = n := by
  have hfront := h.front_lt
  have hlen := h.length_lt
  rw [h.rear_eq, Nat.mod_add_mod, Nat.add_assoc, index_eq hfront hlen]
  split_ifs <;> omega

/-- A ring holds one queue. -/
theorem unique {l' : List α} (h : Holds n r l) (h' : Holds n r l') : l = l' := by
  have hlen : l.length = l'.length := by
    have heq : (r.front + l.length) % n = (r.front + l'.length) % n := by
      rw [← h.rear_eq, ← h'.rear_eq]
    rcases Nat.lt_trichotomy l.length l'.length with hlt | hlt | hlt
    · exact absurd heq (index_ne h.front_lt hlt h'.length_lt)
    · exact hlt
    · exact absurd heq.symm (index_ne h.front_lt hlt h.length_lt)
  refine List.ext_getElem hlen fun i hi hi' => ?_
  have hc := h.cell i _ (List.getElem?_eq_getElem hi)
  have hc' := h'.cell i _ (List.getElem?_eq_getElem hi')
  exact Option.some.inj (hc.symm.trans hc')

/-- The first cell after the last element is used. -/
theorem push (h : Holds n r l) (hroom : l.length + 1 < n) :
    Holds n ⟨Function.update r.cells r.rear (some x), r.front, (r.rear + 1) % n⟩ (l ++ [x]) where
  front_lt := h.front_lt
  length_lt := by
    rw [List.length_append]
    exact hroom
  rear_eq := by
    show (r.rear + 1) % n = _
    rw [h.rear_eq, Nat.mod_add_mod, List.length_append]
    rfl
  cell := by
    intro i z hz
    show Function.update r.cells r.rear (some x) ((r.front + i) % n) = some z
    rcases Nat.lt_trichotomy i l.length with hi | rfl | hi
    · rw [List.getElem?_append_left hi] at hz
      rw [Function.update_of_ne]
      · exact h.cell i z hz
      · rw [h.rear_eq]
        exact index_ne h.front_lt hi h.length_lt
    · rw [List.getElem?_concat_length] at hz
      rw [← h.rear_eq, Function.update_self]
      exact hz
    · rw [List.getElem?_eq_none (by rw [List.length_append]; exact hi)] at hz
      cases hz

theorem head (h : Holds n r (x :: l)) : r.cells r.front = some x := by
  have hcell := h.cell 0 x rfl
  rwa [h.index_zero] at hcell

/-- The first cell is free again, whatever is left in it. -/
theorem pop (h : Holds n r (x :: l)) (c : Option α) :
    Holds n ⟨Function.update r.cells r.front c, (r.front + 1) % n, r.rear⟩ l where
  front_lt := Nat.mod_lt _ (Nat.lt_of_le_of_lt (Nat.zero_le _) h.front_lt)
  length_lt := Nat.lt_of_succ_lt h.length_lt
  rear_eq := by
    show r.rear = ((r.front + 1) % n + l.length) % n
    rw [succ_index, h.rear_eq]
    rfl
  cell := by
    intro i z hz
    show Function.update r.cells r.front c (((r.front + 1) % n + i) % n) = some z
    have hi : i < l.length := (List.getElem?_eq_some_iff.mp hz).1
    have hlen : l.length + 1 < n := h.length_lt
    rw [succ_index, Function.update_of_ne]
    · exact h.cell (i + 1) z hz
    · have hne := index_ne h.front_lt (Nat.zero_lt_succ i) (by omega : i + 1 < n)
      rw [h.index_zero] at hne
      exact hne.symm

/-- The first cell is free again, and what it points to is left there. -/
theorem advance (h : Holds n r (x :: l)) :
    Holds n ⟨r.cells, (r.front + 1) % n, r.rear⟩ l := by
  have hpop := h.pop (r.cells r.front)
  rwa [Function.update_eq_self] at hpop

/-- The first element is changed in its place. -/
theorem setHead (h : Holds n r (x :: l)) (y : α) :
    Holds n ⟨Function.update r.cells r.front (some y), r.front, r.rear⟩ (y :: l) where
  front_lt := h.front_lt
  length_lt := h.length_lt
  rear_eq := h.rear_eq
  cell := by
    intro i z hz
    show Function.update r.cells r.front (some y) ((r.front + i) % n) = some z
    cases i with
    | zero =>
      rw [h.index_zero, Function.update_self]
      exact hz
    | succ i =>
      rw [List.getElem?_cons_succ] at hz
      have hi : i < l.length := (List.getElem?_eq_some_iff.mp hz).1
      have hlen : l.length + 1 < n := h.length_lt
      rw [Function.update_of_ne]
      · exact h.cell (i + 1) z hz
      · have hne := index_ne h.front_lt (Nat.zero_lt_succ i) (by omega : i + 1 < n)
        rw [h.index_zero] at hne
        exact hne.symm

end Holds

end BoundedRing
