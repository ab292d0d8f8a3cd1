import LonganPi.Lib.Transition
import Mathlib.Data.List.Basic

/-!
# Stop and wait

A line sends one request at a time.  The requests wait in the order in which
they come, and the first one is sent when the one before it is settled.

* `run_sent`: what was sent, followed by what waits, is what was submitted.
* `run_settled`: at most one request that was sent is not settled.
-/

namespace StopAndWait

variable {α : Type*}

/-- The requests that wait, whether the last one that was sent is not settled, and
all that were sent. -/
structure Line (α : Type*) where
  waiting : List α
  outstanding : Bool
  sent : List α

/-- Nothing was submitted. -/
def idle : Line α := ⟨[], false, []⟩

inductive Act (α : Type*) where
  | submit (x : α)
  | send
  | settle

/-- One step of the line. -/
def act (l : Line α) : Act α → Option (Line α)
  | .submit x => some { l with waiting := l.waiting ++ [x] }
  | .send =>
    match l.waiting, l.outstanding with
    | x :: w, false => some ⟨w, true, l.sent ++ [x]⟩
    | _, _ => none
  | .settle => if l.outstanding then some { l with outstanding := false } else none

/-- The requests that a run submits. -/
def submitted : List (Act α) → List α
  | [] => []
  | .submit x :: as => x :: submitted as
  | .send :: as => submitted as
  | .settle :: as => submitted as

/-- How many requests a run settles. -/
def settled : List (Act α) → Nat
  | [] => 0
  | .submit _ :: as => settled as
  | .send :: as => settled as
  | .settle :: as => settled as + 1

theorem submitted_append (as bs : List (Act α)) :
    submitted (as ++ bs) = submitted as ++ submitted bs := by
  induction as with
  | nil => rfl
  | cons a as ih => cases a <;> simp only [List.cons_append, submitted, ih]

theorem submitted_map_submit (xs : List α) : submitted (xs.map Act.submit) = xs := by
  induction xs with
  | nil => rfl
  | cons x xs ih => exact congrArg (x :: ·) ih

theorem settled_append (as bs : List (Act α)) :
    settled (as ++ bs) = settled as + settled bs := by
  induction as with
  | nil => exact (Nat.zero_add _).symm
  | cons a as ih =>
    cases a with
    | submit x => exact ih
    | send => exact ih
    | settle =>
      show settled (as ++ bs) + 1 = settled as + 1 + settled bs
      rw [ih]
      omega

/-- A request in front of the ones of the run, if the step submits one. -/
theorem act_sent {l l' : Line α} {a : Act α} (h : act l a = some l') :
    l'.sent ++ l'.waiting = l.sent ++ l.waiting ++ submitted [a] := by
  cases a with
  | submit x =>
    rw [← Option.some.inj h]
    exact (List.append_assoc _ _ _).symm
  | send =>
    unfold act at h
    simp only at h
    split at h
    · next x w hw _ =>
      rw [← Option.some.inj h, hw]
      show l.sent ++ [x] ++ w = l.sent ++ x :: w ++ []
      rw [List.append_nil, List.append_assoc, List.singleton_append]
    · cases h
  | settle =>
    unfold act at h
    simp only at h
    split at h
    · rw [← Option.some.inj h]
      exact (List.append_nil _).symm
    · cases h

theorem act_settled {l l' : Line α} {a : Act α} (h : act l a = some l') :
    settled [a] + l'.outstanding.toNat + l.sent.length
      = l.outstanding.toNat + l'.sent.length := by
  cases a with
  | submit x =>
    rw [← Option.some.inj h]
    show 0 + l.outstanding.toNat + l.sent.length = l.outstanding.toNat + l.sent.length
    rw [Nat.zero_add]
  | send =>
    unfold act at h
    simp only at h
    split at h
    · next x w _ hout =>
      rw [← Option.some.inj h, hout]
      show 0 + 1 + l.sent.length = 0 + (l.sent ++ [x]).length
      rw [List.length_append, List.length_singleton]
      omega
    · cases h
  | settle =>
    unfold act at h
    simp only at h
    split at h
    · next hout =>
      rw [← Option.some.inj h, hout]
      show 0 + 1 + 0 + l.sent.length = 1 + l.sent.length
      omega
    · cases h

/-- What was sent and what waits is what was submitted, in order. -/
theorem run_sent {as : List (Act α)} {l l' : Line α}
    (h : Transition.run act as l = some l') :
    l'.sent ++ l'.waiting = l.sent ++ l.waiting ++ submitted as := by
  induction as generalizing l with
  | nil =>
    rw [← Option.some.inj h]
    exact (List.append_nil _).symm
  | cons a as ih =>
    obtain ⟨l₁, hact, hrun⟩ := Transition.run_cons.mp h
    have hsplit : submitted (a :: as) = submitted [a] ++ submitted as :=
      submitted_append [a] as
    rw [ih hrun, act_sent hact, hsplit, List.append_assoc]

/-- What was sent and is not settled is outstanding. -/
theorem run_settled {as : List (Act α)} {l l' : Line α}
    (h : Transition.run act as l = some l') :
    settled as + l'.outstanding.toNat + l.sent.length
      = l.outstanding.toNat + l'.sent.length := by
  induction as generalizing l with
  | nil =>
    rw [← Option.some.inj h]
    show 0 + l.outstanding.toNat + l.sent.length = _
    rw [Nat.zero_add]
  | cons a as ih =>
    obtain ⟨l₁, hact, hrun⟩ := Transition.run_cons.mp h
    have hsplit : settled (a :: as) = settled [a] + settled as := settled_append [a] as
    have hfirst := act_settled hact
    have hrest := ih hrun
    omega

end StopAndWait
