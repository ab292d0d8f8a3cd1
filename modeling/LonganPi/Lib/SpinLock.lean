import Mathlib.Data.Option.Basic

/-!
# A lock that is not reentrant

A state together with a lock.  `acquire` waits while the lock is held.  In a
program of one thread nobody else gives the lock back, so an `acquire` of a
lock that the thread holds is `none`: it waits for ever.

* `acquire_free`, `acquire_held` and `release_held` are the three rules; with
  them a program under a lock is computed step by step.
-/

namespace SpinLock

variable {σ : Type*}

/-- A state and whether its lock is held. -/
structure Guarded (σ : Type*) where
  held : Bool
  val : σ

/-- The lock is free. -/
def free (v : σ) : Guarded σ := ⟨false, v⟩

def acquire (s : Guarded σ) : Option (Guarded σ) :=
  if s.held then none else some { s with held := true }

def release (s : Guarded σ) : Guarded σ := { s with held := false }

/-- A change of the state.  The lock stays as it is. -/
def modify (f : σ → σ) (s : Guarded σ) : Guarded σ := { s with val := f s.val }

@[simp] theorem acquire_free (v : σ) : acquire (free v) = some ⟨true, v⟩ := rfl

@[simp] theorem acquire_held (v : σ) :
    acquire (⟨true, v⟩ : Guarded σ) = none := rfl

@[simp] theorem release_held (v : σ) :
    release (⟨true, v⟩ : Guarded σ) = free v := rfl

@[simp] theorem modify_held (f : σ → σ) (v : σ) :
    modify f (⟨true, v⟩ : Guarded σ) = ⟨true, f v⟩ := rfl

@[simp] theorem modify_free (f : σ → σ) (v : σ) :
    modify f (free v) = free (f v) := rfl

@[simp] theorem free_val (v : σ) : (free v).val = v := rfl

@[simp] theorem free_held (v : σ) : (free v).held = false := rfl

/-- A state with a free lock. -/
theorem eq_free {s : Guarded σ} (h : s.held = false) : s = free s.val := by
  cases s with
  | mk held val =>
    obtain rfl : held = false := h
    rfl

end SpinLock
