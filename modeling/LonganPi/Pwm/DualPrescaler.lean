import LonganPi.Pwm.Encoding

/-!
# The prescalers that the dual version tries

`sunxi_pwm_config_dual` needs a prescaler that leaves a period and a dead
zone within its limits.  Its loop over the prescalers finds one exactly when
the last one would do.
-/

namespace LonganPi.Pwm

/-- The divided clock fits a period of `c` cycles and the dead zone. -/
def DualFit (clk c deadTime m : Nat) : Prop :=
  c / m ≤ 65536 ∧ clk / m * deadTime / 1000000000 ≤ 256

instance (clk c deadTime m : Nat) : Decidable (DualFit clk c deadTime m) :=
  inferInstanceAs (Decidable (_ ∧ _))

/-- More prescaling fits better. -/
theorem DualFit.mono {clk c deadTime m m' : Nat}
    (h : DualFit clk c deadTime m) (hm : 0 < m) (hle : m ≤ m') :
    DualFit clk c deadTime m' := by
  refine ⟨Nat.le_trans (Nat.div_le_div_left hle hm) h.1, ?_⟩
  calc clk / m' * deadTime / 1000000000
      ≤ clk / m * deadTime / 1000000000 :=
        Nat.div_le_div_right
          (Nat.mul_le_mul_right _ (Nat.div_le_div_left hle hm))
    _ ≤ 256 := h.2

/-- The search of the dual version finds a prescaler exactly when the last
one would do. -/
theorem prescaleLoopDual_found (clk c deadTime fuel prescale entireCycles
    clkTemp : Nat) :
    (prescaleLoopDual clk c deadTime 1 fuel prescale entireCycles
      clkTemp).2.2.2 = true ↔
      0 < fuel ∧ DualFit clk c deadTime (prescale + fuel) := by
  induction fuel generalizing prescale entireCycles clkTemp with
  | zero => simp [prescaleLoopDual]
  | succ fuel ih =>
    have hsum : prescale + (fuel + 1) = prescale + 1 + fuel := by omega
    unfold prescaleLoopDual
    simp only [Nat.div_one, Nat.one_mul]
    by_cases hnow : DualFit clk c deadTime (prescale + 1)
    · have hnow' : c / (prescale + 1) ≤ 65536 ∧
          clk / (prescale + 1) * deadTime / 1000000000 ≤ 256 := hnow
      rw [if_pos hnow']
      exact iff_of_true rfl
        ⟨by omega, hnow.mono (by omega) (by omega)⟩
    · have hnow' : ¬ (c / (prescale + 1) ≤ 65536 ∧
          clk / (prescale + 1) * deadTime / 1000000000 ≤ 256) := hnow
      rw [if_neg hnow', ih, hsum]
      constructor
      · intro h
        exact ⟨by omega, h.2⟩
      · intro h
        refine ⟨?_, h.2⟩
        by_contra hzero
        obtain rfl : fuel = 0 := by omega
        exact hnow h.2

/-- The dead zone is enabled when it has been written. -/
theorem deadZone_enabled (regs : Regs) (pdzcr : Nat) :
    writeField regs pdzcr pwmDzEnShift pwmDzEnWidth 1 pdzcr
      &&& (1 <<< pwmDzEnShift) ≠ 0 := by
  intro h
  have hbit := congrArg (fun r => r.getLsbD 0) h
  rw [writeField_self] at hbit
  simp only [BitVec.getLsbD_and] at hbit
  rw [BitField.getLsbD_set (by decide) (by decide)] at hbit
  revert hbit
  simp [pwmDzEnShift]

end LonganPi.Pwm
