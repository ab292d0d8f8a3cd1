import Mathlib.Algebra.BigOperators.Group.List.Basic

/-!
# Numbers in mixed radix

A number as digits, each below a radix of its own, the least significant
first.  Bytes are the case where every radix is 256; minutes, seconds and
frames are another one.

* `encode` gives as many digits as there are radices and drops the rest.
* `decode_encode` says what is left, and `decode_encode_iff` when that is all.
-/

namespace MixedRadix

/-- The digits of a number. -/
def encode : List Nat → Nat → List Nat
  | [], _ => []
  | r :: rs, n => n % r :: encode rs (n / r)

/-- The number of some digits. -/
def decode : List Nat → List Nat → Nat
  | r :: rs, d :: ds => d + r * decode rs ds
  | _, _ => 0

@[simp] theorem encode_nil (n : Nat) : encode [] n = [] := rfl

@[simp] theorem encode_cons (r n : Nat) (rs : List Nat) :
    encode (r :: rs) n = n % r :: encode rs (n / r) := rfl

@[simp] theorem decode_cons (r d : Nat) (rs ds : List Nat) :
    decode (r :: rs) (d :: ds) = d + r * decode rs ds := rfl

/-- The digits keep a number modulo the product of the radices. -/
theorem decode_encode (rs : List Nat) (n : Nat) :
    decode rs (encode rs n) = n % rs.prod := by
  induction rs generalizing n with
  | nil => exact (Nat.mod_one n).symm
  | cons r rs ih => rw [encode_cons, decode_cons, ih, List.prod_cons, Nat.mod_mul]

/-- Nothing is lost exactly below the product of the radices. -/
theorem decode_encode_iff {rs : List Nat} {n : Nat} (hrs : rs.prod ≠ 0) :
    decode rs (encode rs n) = n ↔ n < rs.prod := by
  rw [decode_encode]
  exact Nat.mod_eq_iff_lt hrs

end MixedRadix
