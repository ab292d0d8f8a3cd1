import Mathlib.Data.Nat.Bitwise

/-!
# Packed words as arithmetic

A C driver packs an address and control bits into one machine word with
`&`, `|`, `<<` and `>>`.  The lemmas here turn those operations on `Nat`
into `/`, `%`, `*` and `+`, so that `omega` decides what a packed word
decodes to.

* `and_lowMask` and `and_highMask` read the part of a word below and above
  a bit position.
* `and_field` reads a field in the middle of a word.
* `or_eq_add` joins two parts that do not overlap.
* `field_add_above` and `add_above_div` read the fields below and above a bit
  position out of a sum, `two_pow_mod` a single bit.
-/

namespace Bits

/-- `x & (2^k - 1)` is the part of `x` below bit `k`. -/
theorem and_lowMask (x k : Nat) : x &&& (2 ^ k - 1) = x % 2 ^ k :=
  Nat.and_two_pow_sub_one_eq_mod x k

/-- `x & (mask << k)` with an `n`-bit mask keeps the field at bit `k`. -/
theorem and_field (x k n : Nat) :
    x &&& (2 ^ n - 1) <<< k = x / 2 ^ k % 2 ^ n * 2 ^ k := by
  rw [← Nat.shiftRight_eq_div_pow, ← and_lowMask, ← Nat.shiftLeft_eq]
  apply Nat.eq_of_testBit_eq
  intro i
  simp only [Nat.testBit_and, Nat.testBit_shiftLeft, Nat.testBit_shiftRight,
    Nat.testBit_two_pow_sub_one]
  by_cases hik : k ≤ i
  · have hsub : k + (i - k) = i := by omega
    simp [hik, hsub]
  · simp [hik]

/-- `x & ~(2^k - 1)` in a `w`-bit word clears the low `k` bits.  The mask
`~(2^k - 1)` of a `w`-bit word is the number `2^w - 2^k`. -/
theorem and_highMask {x w k : Nat} (hx : x < 2 ^ w) (hk : k ≤ w) :
    x &&& (2 ^ w - 2 ^ k) = x / 2 ^ k * 2 ^ k := by
  have hpow : 2 ^ w = 2 ^ k * 2 ^ (w - k) := by
    rw [← Nat.pow_add, Nat.add_sub_cancel' hk]
  have hmask : 2 ^ w - 2 ^ k = (2 ^ (w - k) - 1) <<< k := by
    rw [Nat.shiftLeft_eq, Nat.sub_mul, Nat.one_mul, hpow, Nat.mul_comm]
  have hquot : x / 2 ^ k < 2 ^ (w - k) :=
    Nat.div_lt_of_lt_mul (by rw [← hpow]; exact hx)
  rw [hmask, and_field, Nat.mod_eq_of_lt hquot]

/-- A multiple of `2^k` and a number below `2^k` share no bit, so `|` adds
them. -/
theorem or_eq_add {a b k : Nat} (ha : a % 2 ^ k = 0) (hb : b < 2 ^ k) :
    a ||| b = a + b := by
  have hdiv : a = 2 ^ k * (a / 2 ^ k) := by
    have h := Nat.div_add_mod a (2 ^ k)
    omega
  rw [hdiv]
  exact (Nat.two_pow_add_eq_or_of_lt hb _).symm

/-- A field below bit `m` does not see a multiple of `2^m`. -/
theorem field_add_above {k n m : Nat} (x y : Nat) (h : k + n ≤ m) :
    (x + y * 2 ^ m) / 2 ^ k % 2 ^ n = x / 2 ^ k % 2 ^ n := by
  have hpow : 2 ^ m = 2 ^ (m - (k + n)) * 2 ^ n * 2 ^ k := by
    rw [← Nat.pow_add, ← Nat.pow_add]
    congr 1
    omega
  rw [hpow, ← Nat.mul_assoc, Nat.add_mul_div_right _ _ (Nat.two_pow_pos k),
    ← Nat.mul_assoc, Nat.add_mul_mod_self_right]

/-- The part from bit `m` on is what was added there. -/
theorem add_above_div {x m : Nat} (y : Nat) (hx : x < 2 ^ m) :
    (x + y * 2 ^ m) / 2 ^ m = y := by
  rw [Nat.add_mul_div_right _ _ (Nat.two_pow_pos m), Nat.div_eq_of_lt hx,
    Nat.zero_add]

/-- A single bit is inside or outside of the low `n` bits. -/
theorem two_pow_mod (k n : Nat) :
    2 ^ k % 2 ^ n = if k < n then 2 ^ k else 0 := by
  split_ifs with h
  · exact Nat.mod_eq_of_lt (Nat.pow_lt_pow_right (by decide) h)
  · exact Nat.mod_eq_zero_of_dvd (Nat.pow_dvd_pow 2 (by omega))

end Bits
