import LonganPi.Pwm.Chip
import Mathlib.Tactic.SplitIfs

/-!
# The search for the dividers

The inner loop tries the prescalers 0 to 256 and stops at the first one that
leaves at most 65536 cycles.  As more prescaling leaves fewer cycles, it
finds one exactly when the last one would do.  The outer loop moves on to the
next divider when the inner one finds none.

`clockDivider` is the divider field for a period, and `searchDividers_divM`
says that the search finds it.
-/

namespace LonganPi.Pwm

variable {c preDiv : Nat}

theorem prescaleLoop_found (fuel prescale entireCycles : Nat) (hfuel : 0 < fuel)
    (h : c / preDiv / (prescale + fuel) ≤ 65536) :
    ∃ q, prescale ≤ q ∧ q < prescale + fuel ∧ c / preDiv / (q + 1) ≤ 65536 ∧
      (∀ r, prescale ≤ r → r < q → 65536 < c / preDiv / (r + 1)) ∧
      prescaleLoop c preDiv fuel prescale entireCycles
        = (c / preDiv / (q + 1), q, true) := by
  induction fuel generalizing prescale entireCycles with
  | zero => exact absurd hfuel (Nat.lt_irrefl 0)
  | succ fuel ih =>
    unfold prescaleLoop
    dsimp only
    split_ifs with hfits
    · exact ⟨prescale, Nat.le_refl _, by omega, hfits,
        fun r hge hlt => by omega, rfl⟩
    · have hmore : 0 < fuel := by
        rcases Nat.eq_zero_or_pos fuel with hzero | hpos
        · rw [hzero] at h
          exact absurd h hfits
        · exact hpos
      rw [show prescale + (fuel + 1) = prescale + 1 + fuel by omega] at h
      obtain ⟨q, hge, hlt, hfits', hfirst, heq⟩ := ih _ _ hmore h
      refine ⟨q, by omega, by omega, hfits', fun r hger hltr => ?_, heq⟩
      by_cases hr : r = prescale
      · rw [hr]
        omega
      · exact hfirst r (by omega) hltr

theorem prescaleLoop_not_found (fuel prescale : Nat) {entireCycles : Nat}
    (he : 65536 < entireCycles)
    (h : 65536 < c / preDiv / (prescale + fuel)) :
    ∃ e, 65536 < e ∧
      prescaleLoop c preDiv fuel prescale entireCycles
        = (e, prescale + fuel, false) := by
  induction fuel generalizing prescale entireCycles with
  | zero => exact ⟨entireCycles, he, rfl⟩
  | succ fuel ih =>
    have hmono : c / preDiv / (prescale + (fuel + 1))
        ≤ c / preDiv / (prescale + 1) :=
      Nat.div_le_div_left (by omega) (by omega)
    have hbig : 65536 < c / preDiv / (prescale + 1) := by omega
    unfold prescaleLoop
    dsimp only
    rw [if_neg (by omega)]
    rw [show prescale + (fuel + 1) = prescale + 1 + fuel by omega] at h ⊢
    exact ih _ hbig h

/-! ## The outer loop -/

variable {d : Dividers}

theorem preScalLoop_cons (c reg preDiv : Nat) (rest : List (Nat × Nat))
    (d : Dividers) :
    preScalLoop c ((reg, preDiv) :: rest) d =
      if d.entireCycles ≤ 65536 then d
      else
        let r := prescaleLoop c preDiv (prescaleMax + 1) 0 d.entireCycles
        preScalLoop c rest ⟨r.1, r.2.1, if r.2.2 then reg else d.divM⟩ :=
  rfl

/-- Cycles that fit end the loop. -/
theorem preScalLoop_of_le (table : List (Nat × Nat))
    (h : d.entireCycles ≤ 65536) : preScalLoop c table d = d := by
  cases table with
  | nil => rfl
  | cons entry rest => rw [preScalLoop_cons, if_pos h]

/-- `q` is the first prescaler that leaves few enough of `x` cycles. -/
structure FirstFit (x q : Nat) : Prop where
  lt : q < 257
  fits : x / (q + 1) ≤ 65536
  first : ∀ r < q, 65536 < x / (r + 1)

/-- A divider with a prescaler ends the loop in the next iteration. -/
theorem preScalLoop_found (reg preDiv : Nat) (rest : List (Nat × Nat))
    (hd : 65536 < d.entireCycles)
    (h : c / preDiv / 257 ≤ 65536) :
    ∃ q, FirstFit (c / preDiv) q ∧
      preScalLoop c ((reg, preDiv) :: rest) d
        = ⟨c / preDiv / (q + 1), q, reg⟩ := by
  obtain ⟨q, -, hlt, hfits, hfirst, heq⟩ := prescaleLoop_found
    (prescaleMax + 1) 0 d.entireCycles (by decide) h
  rw [Nat.zero_add] at hlt
  refine ⟨q, ⟨hlt, hfits, fun r hr => hfirst r (Nat.zero_le r) hr⟩, ?_⟩
  rw [preScalLoop_cons, if_neg (by omega), heq]
  exact preScalLoop_of_le rest hfits

/-- A divider without one leaves the search to the rest of the table. -/
theorem preScalLoop_not_found (reg preDiv : Nat) (rest : List (Nat × Nat))
    (hd : 65536 < d.entireCycles)
    (h : 65536 < c / preDiv / 257) :
    ∃ e, 65536 < e ∧
      preScalLoop c ((reg, preDiv) :: rest) d
        = preScalLoop c rest ⟨e, 257, d.divM⟩ := by
  obtain ⟨e, he, heq⟩ := prescaleLoop_not_found
    (prescaleMax + 1) 0 hd h
  refine ⟨e, he, ?_⟩
  rw [preScalLoop_cons, if_neg (by omega), heq]
  rfl

/-- The divider field is one of the table, or the one of the start. -/
theorem preScalLoop_divM (table : List (Nat × Nat)) (d : Dividers) :
    (preScalLoop c table d).divM = d.divM ∨
      ∃ preDiv, ((preScalLoop c table d).divM, preDiv) ∈ table := by
  induction table generalizing d with
  | nil => exact Or.inl rfl
  | cons entry rest ih =>
    rcases entry with ⟨reg, preDiv⟩
    rw [preScalLoop_cons]
    split_ifs with hfits
    · exact Or.inl rfl
    · generalize prescaleLoop c preDiv (prescaleMax + 1) 0 d.entireCycles = r
      dsimp only
      rcases ih ⟨r.1, r.2.1, if r.2.2 then reg else d.divM⟩
        with heq | ⟨p, hmem⟩
      · rw [heq]
        dsimp only
        split_ifs with hfound
        · exact Or.inr ⟨preDiv, List.mem_cons_self⟩
        · exact Or.inl rfl
      · exact Or.inr ⟨p, List.mem_cons_of_mem _ hmem⟩

/-- The divider fits its field. -/
theorem searchDividers_divM_lt (clk : Nat) (periodNs : Int) :
    (searchDividers clk periodNs).divM < 16 := by
  unfold searchDividers
  dsimp only
  rcases preScalLoop_divM (c := clk * u64OfInt periodNs % 2 ^ 64 / 1000000000)
    preScal ⟨clk * u64OfInt periodNs % 2 ^ 64 / 1000000000, 0, 0⟩
    with heq | ⟨p, hmem⟩
  · rw [heq]
    exact (by decide : 0 < 16)
  · have htable : ∀ entry ∈ preScal, entry.1 < 16 := by decide
    exact htable _ hmem

/-! ## The divider of a period -/

/-- The clock source for a period. -/
def clockSource (periodNs : Int) : BitVec 32 := if periodNs ≤ 334 then 1 else 0

/-- The divider field for a period. -/
def clockDivider (periodNs : Int) : Nat :=
  if periodNs ≤ 701792041 then 0
  else if periodNs ≤ 1403584083 then 1
  else 2

/-- The rate of the clock that is selected for a period. -/
def clockRate (periodNs : Int) : Nat :=
  if 10 < periodNs ∧ periodNs ≤ 334 then 100000000
  else if 334 < periodNs then 24000000
  else 0

theorem u64OfInt_of_range {x : Int} (hge : 0 ≤ x) (hlt : x < 2 ^ 31) :
    u64OfInt x = x.toNat := by
  unfold u64OfInt
  rw [BitVec.toNat_ofInt]
  omega

/-- The cycles of a period before any division. -/
theorem cycles_eq {clk : Nat} {periodNs : Int} (hge : 0 ≤ periodNs)
    (hlt : periodNs < 2 ^ 31) (hclk : clk ≤ 100000000) :
    clk * u64OfInt periodNs % 2 ^ 64 / 1000000000
      = clk * periodNs.toNat / 1000000000 := by
  rw [u64OfInt_of_range hge hlt, Nat.mod_eq_of_lt]
  calc clk * periodNs.toNat
      ≤ 100000000 * 2 ^ 31 := Nat.mul_le_mul hclk (by omega)
    _ < 2 ^ 64 := by decide

/-- The divider field for `c` cycles.  The greatest number of cycles with a
prescaler doubles with each divider. -/
def cyclesDivider (c : Nat) : Nat :=
  if c < 16843009 then 0 else if c < 33686018 then 1 else 2

/-- What the search finds for `c` cycles. -/
theorem preScalLoop_preScal (hc : c < 67372036) :
    ∃ q, FirstFit (c / 2 ^ cyclesDivider c) q ∧
      preScalLoop c preScal ⟨c, 0, 0⟩
        = ⟨c / 2 ^ cyclesDivider c / (q + 1), q, cyclesDivider c⟩ := by
  unfold cyclesDivider
  by_cases hfits : c ≤ 65536
  · rw [if_pos (by omega), preScalLoop_of_le preScal hfits, Nat.pow_zero,
      Nat.div_one]
    refine ⟨0, ⟨by decide, by rwa [Nat.div_one], fun r hr => ?_⟩, ?_⟩
    · exact absurd hr (Nat.not_lt_zero r)
    · rw [Nat.div_one]
  · have hbig : 65536 < (⟨c, 0, 0⟩ : Dividers).entireCycles := by
      dsimp only
      omega
    unfold preScal
    split_ifs with h0 h1
    · exact preScalLoop_found 0 1 _ hbig (show c / 1 / 257 ≤ 65536 by omega)
    · obtain ⟨e0, he0, heq0⟩ := preScalLoop_not_found 0 1 _ hbig
        (show 65536 < c / 1 / 257 by omega)
      rw [heq0]
      exact preScalLoop_found 1 2 _ (d := ⟨e0, 257, 0⟩) he0
        (show c / 2 / 257 ≤ 65536 by omega)
    · obtain ⟨e0, he0, heq0⟩ := preScalLoop_not_found 0 1 _ hbig
        (show 65536 < c / 1 / 257 by omega)
      rw [heq0]
      obtain ⟨e1, he1, heq1⟩ := preScalLoop_not_found 1 2 _
        (d := ⟨e0, 257, 0⟩) he0 (show 65536 < c / 2 / 257 by omega)
      rw [heq1]
      exact preScalLoop_found 2 4 _ (d := ⟨e1, 257, 0⟩) he1
        (show c / 4 / 257 ≤ 65536 by omega)

theorem searchDividers_divM (periodNs : Int) (hlt : periodNs < 2 ^ 31) :
    (searchDividers (clockRate periodNs) periodNs).divM
      = clockDivider periodNs := by
  unfold searchDividers
  dsimp only
  by_cases hlong : 334 < periodNs
  · have hrate : clockRate periodNs = 24000000 := by
      unfold clockRate
      rw [if_neg (by omega), if_pos hlong]
    obtain ⟨q, -, heq⟩ := preScalLoop_preScal
      (c := 24000000 * periodNs.toNat / 1000000000) (by omega)
    rw [hrate, cycles_eq (by omega) hlt (by decide), heq]
    unfold cyclesDivider clockDivider
    dsimp only
    split_ifs <;> omega
  · -- A short period has few cycles, and one that is not positive none.
    have hfew : clockRate periodNs * u64OfInt periodNs % 2 ^ 64 / 1000000000
        ≤ 65536 := by
      unfold clockRate
      split_ifs with hshort
      · rw [cycles_eq (by omega) hlt (by decide)]
        omega
      · rw [Nat.zero_mul]
        exact Nat.zero_le _
    rw [preScalLoop_of_le preScal hfew]
    unfold clockDivider
    rw [if_pos (by omega)]

end LonganPi.Pwm
