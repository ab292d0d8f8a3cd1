import Mathlib.Algebra.Ring.Nat

/-!
# Fields of a register

A field of an `n`-bit register is `width` bits from `shift` up.  `get` reads
a field and `set` writes one, the way that driver macros do it: the old field
is masked out, and the value is shifted in as it is.  A value that is too
wide therefore spills into the bits above the field, where it can set bits
but not clear any.

* `get_set_self` and `get_set_self_of_lt`: what a field holds after a write.
* `get_set_of_le` and `get_set_of_lt`: fields below and fields above are kept,
  the latter when the value fits.
* `set_eq_self_iff`: when a write changes nothing.
-/

namespace BitField

variable {n : Nat}

/-- The bits of the field. -/
def mask (n width shift : Nat) : BitVec n :=
  (BitVec.allOnes n >>> (n - width)) <<< shift

/-- The field, shifted down. -/
def get (shift width : Nat) (r : BitVec n) : BitVec n :=
  (r &&& mask n width shift) >>> shift

/-- The register with the value shifted into the field. -/
def set (shift width : Nat) (r v : BitVec n) : BitVec n :=
  (r &&& ~~~ mask n width shift) ||| (v <<< shift)

theorem getLsbD_mask {width shift i : Nat} (hw : width ≤ n) :
    (mask n width shift).getLsbD i
      = decide (i < n ∧ shift ≤ i ∧ i < shift + width) := by
  unfold mask
  rw [BitVec.getLsbD_shiftLeft, BitVec.getLsbD_ushiftRight,
    BitVec.getLsbD_allOnes, Bool.eq_iff_iff]
  simp only [Bool.and_eq_true, Bool.not_eq_true', decide_eq_true_eq,
    decide_eq_false_iff_not]
  omega

theorem getLsbD_get {shift width i : Nat} {r : BitVec n} (hw : width ≤ n) :
    (get shift width r).getLsbD i
      = (decide (i < width) && r.getLsbD (shift + i)) := by
  unfold get
  rw [BitVec.getLsbD_ushiftRight, BitVec.getLsbD_and, getLsbD_mask hw,
    Bool.eq_iff_iff]
  simp only [Bool.and_eq_true, decide_eq_true_eq]
  constructor
  · intro hboth
    obtain ⟨hbit, hlt, hle, hwidth⟩ := hboth
    exact ⟨by omega, hbit⟩
  · intro hboth
    obtain ⟨hwidth, hbit⟩ := hboth
    exact ⟨hbit, BitVec.lt_of_getLsbD hbit, by omega, by omega⟩

theorem getLsbD_set {shift width i : Nat} {r v : BitVec n} (hw : width ≤ n)
    (hi : i < n) :
    (set shift width r v).getLsbD i
      = (r.getLsbD i && !decide (shift ≤ i ∧ i < shift + width)
        || (decide (shift ≤ i) && v.getLsbD (i - shift))) := by
  unfold set
  rw [BitVec.getLsbD_or, BitVec.getLsbD_and, BitVec.getLsbD_not,
    getLsbD_mask hw, BitVec.getLsbD_shiftLeft]
  simp only [hi, decide_true, Bool.true_and, true_and]
  congr 2
  rw [Bool.eq_iff_iff]
  simp only [Bool.not_eq_true', decide_eq_false_iff_not, decide_eq_true_eq]
  omega

/-- A field holds less than its size. -/
theorem toNat_get_lt {shift width : Nat} {r : BitVec n} (hw : width ≤ n) :
    (get shift width r).toNat < 2 ^ width := by
  apply Nat.lt_pow_two_of_testBit
  intro i hge
  have hbit : (get shift width r).getLsbD i
      = (decide (i < width) && r.getLsbD (shift + i)) := getLsbD_get hw
  rw [show decide (i < width) = false by simp [hge]] at hbit
  exact hbit

/-- Registers are equal when their bits are. -/
theorem get_congr {shift width : Nat} {r r' : BitVec n} (hw : width ≤ n)
    (h : ∀ i, shift ≤ i → i < shift + width → r.getLsbD i = r'.getLsbD i) :
    get shift width r = get shift width r' := by
  apply BitVec.eq_of_getLsbD_eq
  intro i hi
  rw [getLsbD_get hw, getLsbD_get hw]
  by_cases hlt : i < width
  · rw [h (shift + i) (by omega) (by omega)]
  · simp [hlt]

/-- A write puts the low bits of the value into the field. -/
theorem get_set_self {shift width : Nat} {r v : BitVec n}
    (hw : shift + width ≤ n) :
    get shift width (set shift width r v) = get 0 width v := by
  apply BitVec.eq_of_getLsbD_eq
  intro i hi
  rw [getLsbD_get (by omega), getLsbD_get (by omega), Nat.zero_add]
  by_cases hlt : i < width
  · rw [getLsbD_set (by omega) (by omega), Nat.add_sub_cancel_left]
    simp [hlt]
  · simp [hlt]

/-- A value that fits is its own low bits. -/
theorem get_zero_of_lt {width : Nat} {v : BitVec n} (hw : width ≤ n)
    (hv : v.toNat < 2 ^ width) : get 0 width v = v := by
  apply BitVec.eq_of_getLsbD_eq
  intro i hi
  rw [getLsbD_get hw, Nat.zero_add]
  by_cases hlt : i < width
  · simp [hlt]
  · have hbit : v.getLsbD i = false := by
      apply Nat.testBit_lt_two_pow
      exact Nat.lt_of_lt_of_le hv (Nat.pow_le_pow_right (by decide) (by omega))
    simp [hbit]

theorem get_set_self_of_lt {shift width : Nat} {r v : BitVec n}
    (hw : shift + width ≤ n) (hv : v.toNat < 2 ^ width) :
    get shift width (set shift width r v) = v := by
  rw [get_set_self hw, get_zero_of_lt (by omega) hv]

/-- A write keeps the fields below. -/
theorem get_set_of_le {shift width shift' width' : Nat} {r v : BitVec n}
    (hw : shift + width ≤ n) (hle : shift' + width' ≤ shift) :
    get shift' width' (set shift width r v) = get shift' width' r := by
  apply get_congr (by omega)
  intro i hge hlt
  rw [getLsbD_set (by omega) (by omega)]
  have hout : ¬ shift ≤ i := by omega
  simp [hout]

/-- A write of a value that fits keeps every bit outside the field. -/
theorem getLsbD_set_of_lt {shift width i : Nat} {r v : BitVec n}
    (hw : shift + width ≤ n) (hv : v.toNat < 2 ^ width) (hi : i < n)
    (hout : i < shift ∨ shift + width ≤ i) :
    (set shift width r v).getLsbD i = r.getLsbD i := by
  have hbit : (decide (shift ≤ i) && v.getLsbD (i - shift)) = false := by
    rcases hout with hlt | hge
    · simp [show ¬ shift ≤ i by omega]
    · have hzero : v.getLsbD (i - shift) = false := by
        apply Nat.testBit_lt_two_pow
        exact Nat.lt_of_lt_of_le hv
          (Nat.pow_le_pow_right (by decide) (by omega))
      simp [hzero]
  rw [getLsbD_set (by omega) hi, hbit]
  have hin : ¬ (shift ≤ i ∧ i < shift + width) := by omega
  simp [hin]

/-- A write of a value that fits keeps the fields above. -/
theorem get_set_of_lt {shift width shift' width' : Nat} {r v : BitVec n}
    (hw : shift + width ≤ n) (hv : v.toNat < 2 ^ width)
    (hle : shift + width ≤ shift') (hw' : shift' + width' ≤ n) :
    get shift' width' (set shift width r v) = get shift' width' r := by
  apply get_congr (by omega)
  intro i hge hlt
  exact getLsbD_set_of_lt hw hv (by omega) (by omega)

/-- A second write of the same value changes nothing. -/
theorem set_set (shift width : Nat) (r v : BitVec n) :
    set shift width (set shift width r v) v = set shift width r v := by
  unfold set
  ext i hi
  simp only [BitVec.getElem_or, BitVec.getElem_and]
  cases (v <<< shift)[i] <;> simp

/-- A write changes nothing exactly when the field holds the value. -/
theorem set_eq_self_iff {shift width : Nat} {r v : BitVec n}
    (hw : shift + width ≤ n) (hv : v.toNat < 2 ^ width) :
    set shift width r v = r ↔ get shift width r = v := by
  constructor
  · intro h
    calc get shift width r = get shift width (set shift width r v) := by rw [h]
      _ = v := get_set_self_of_lt hw hv
  · intro h
    apply BitVec.eq_of_getLsbD_eq
    intro i hi
    by_cases hin : shift ≤ i ∧ i < shift + width
    · have hbit : (get shift width r).getLsbD (i - shift)
          = (decide (i - shift < width) && r.getLsbD (shift + (i - shift))) :=
        getLsbD_get (by omega)
      rw [h, Nat.add_sub_cancel' hin.1] at hbit
      rw [getLsbD_set (by omega) hi, hbit]
      simp [hin, show i - shift < width by omega]
    · exact getLsbD_set_of_lt hw hv hi (by omega)

end BitField
