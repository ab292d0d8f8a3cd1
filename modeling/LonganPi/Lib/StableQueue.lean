import Mathlib.Data.List.Nodup
import Mathlib.Order.Lattice

/-!
# Queues by priority and age

A queue with higher priorities first and, among equal priorities, older
elements first.  A new element goes in front of the first one that `p` picks,
so what `p` never picks keeps its place in front of it.

* `Ordered.insertBefore`: the youngest element, in front of the first one with
  a lower priority, keeps the order.
* `Ordered.sublist`: so does the removal of any elements.
* `filter_key`: an element is the only one with its key.
-/

namespace StableQueue

variable {α κ : Type*}

/-- The element in front of the first one with `p`, or at the end. -/
def insertBefore (p : α → Bool) (x : α) : List α → List α
  | [] => [x]
  | y :: q => if p y then x :: y :: q else y :: insertBefore p x q

@[simp] theorem insertBefore_nil (p : α → Bool) (x : α) :
    insertBefore p x [] = [x] := rfl

theorem insertBefore_cons_of_not {p : α → Bool} {y : α} (x : α) (q : List α)
    (h : p y = false) : insertBefore p x (y :: q) = y :: insertBefore p x q := by
  conv_lhs => unfold insertBefore
  rw [if_neg (by rw [h]; decide)]

theorem insertBefore_perm (p : α → Bool) (x : α) (q : List α) :
    (insertBefore p x q).Perm (x :: q) := by
  induction q with
  | nil => exact List.Perm.refl _
  | cons y q ih =>
    unfold insertBefore
    split_ifs
    · exact List.Perm.refl _
    · exact (ih.cons y).trans (List.Perm.swap x y q)

theorem mem_insertBefore {p : α → Bool} {x z : α} {q : List α} :
    z ∈ insertBefore p x q ↔ z = x ∨ z ∈ q := by
  rw [(insertBefore_perm p x q).mem_iff, List.mem_cons]

section Order

variable [LinearOrder κ] {prio : α → κ} {age : α → Nat} {q : List α}

/-- `a` has the higher priority, or the same one and is older. -/
def Before (prio : α → κ) (age : α → Nat) (a b : α) : Prop :=
  prio b < prio a ∨ prio a = prio b ∧ age a < age b

/-- Every element is before the ones behind it. -/
def Ordered (prio : α → κ) (age : α → Nat) (q : List α) : Prop :=
  q.Pairwise (Before prio age)

theorem Before.le {a b : α} (h : Before prio age a b) : prio b ≤ prio a := by
  rcases h with hlt | heq
  · exact le_of_lt hlt
  · exact le_of_eq heq.1.symm

theorem Ordered.sublist {q' : List α} (h : Ordered prio age q)
    (hsub : q'.Sublist q) : Ordered prio age q' :=
  List.Pairwise.sublist hsub h

/-- The youngest element goes behind the ones of its priority. -/
theorem Ordered.insertBefore {p : α → Bool} {x : α} (h : Ordered prio age q)
    (hp : ∀ y ∈ q, p y = true ↔ prio y < prio x)
    (hage : ∀ y ∈ q, age y < age x) :
    Ordered prio age (StableQueue.insertBefore p x q) := by
  induction q with
  | nil => exact List.pairwise_singleton _ _
  | cons y q ih =>
    obtain ⟨hfirst, hrest⟩ := List.pairwise_cons.mp h
    have hy := hp y List.mem_cons_self
    by_cases hpick : p y = true
    · have hlt := hy.mp hpick
      unfold StableQueue.insertBefore
      rw [if_pos hpick]
      refine List.pairwise_cons.mpr ⟨fun z hz => Or.inl ?_, h⟩
      rcases List.mem_cons.mp hz with rfl | hin
      · exact hlt
      · exact lt_of_le_of_lt (hfirst z hin).le hlt
    · have hle : prio x ≤ prio y := not_lt.mp fun hlt => hpick (hy.mpr hlt)
      rw [insertBefore_cons_of_not x q (Bool.not_eq_true _ ▸ hpick)]
      refine List.pairwise_cons.mpr ⟨fun z hz => ?_, ih hrest
        (fun z hz => hp z (List.mem_cons_of_mem _ hz))
        (fun z hz => hage z (List.mem_cons_of_mem _ hz))⟩
      rcases mem_insertBefore.mp hz with rfl | hin
      · rcases lt_or_eq_of_le hle with hlt | heq
        · exact Or.inl hlt
        · exact Or.inr ⟨heq.symm, hage y List.mem_cons_self⟩
      · exact hfirst z hin

end Order

/-- With distinct keys, a key belongs to one element. -/
theorem filter_key {key : α → Nat} {q : List α} {x : α}
    (hnd : (q.map key).Nodup) (hx : x ∈ q) :
    q.filter (fun y => key y == key x) = [x] := by
  induction q with
  | nil => cases hx
  | cons y q ih =>
    obtain ⟨hnot, hrest⟩ := List.nodup_cons.mp hnd
    rcases List.mem_cons.mp hx with rfl | hin
    · have hnone : q.filter (fun y => key y == key x) = [] := by
        rw [List.filter_eq_nil_iff]
        intro z hz hkey
        apply hnot
        rw [← beq_iff_eq.mp hkey]
        exact List.mem_map_of_mem hz
      rw [List.filter_cons_of_pos (by simp), hnone]
    · have hne : key y ≠ key x := by
        intro hkey
        apply hnot
        rw [hkey]
        exact List.mem_map_of_mem hin
      rw [List.filter_cons_of_neg (by simp [hne]), ih hrest hin]

end StableQueue
