import LonganPi.Dram.Probing

/-!
# The detection finds the geometry

`mctl_auto_detect_dram_size` probes the row bits with 8 columns and 16 rows
set up, and the column bits with 11 columns and the rows that it found.  The
first bit that the DRAM does not have makes the probe reach the pattern.

* `detect_eq` is the rule for the loops: the result is the first hit, or the
  limit.
* `NoPattern` is the assumption on the content: the pattern does not happen to
  stand where a probe below the limit looks.
* `mctlAutoDetectDramSize_detects` is the result, for every geometry, bus
  width and content.
-/

namespace LonganPi.Dram

variable {G : Geometry} {base : Nat} {config : DramConfig} {d : Memory}

/-! ## The loops -/

/-- The loop ends at the first hit, or at the limit. -/
theorem detect_eq {hit : Nat → Bool} {n k m : Nat} (hlo : k ≤ m)
    (hhi : m ≤ k + n) (hmiss : ∀ j, k ≤ j → j < m → hit j = false)
    (hhit : m < k + n → hit m = true) : detect hit n k = m := by
  induction n generalizing k with
  | zero =>
    show k = m
    omega
  | succ n ih =>
    unfold detect
    by_cases hk : k = m
    · subst hk
      rw [if_pos (hhit (by omega))]
    · rw [hmiss k (Nat.le_refl k) (by omega), if_neg Bool.false_ne_true]
      apply ih
      · omega
      · omega
      · intro j hge hlt
        exact hmiss j (by omega) hlt
      · intro hlt
        exact hhit (by omega)

/-- What the rows are probed with. -/
def rowSetup (config : DramConfig) : DramConfig :=
  { config with cols := 8, rows := 16 }

/-- What the columns are probed with, once the rows are known. -/
def colSetup (config : DramConfig) (rows : Nat) : DramConfig :=
  { config with cols := 11, rows }

theorem rowProbe_mod (config : DramConfig) (rows : Nat) :
    rowProbe config rows % 4 = 0 := by
  unfold rowProbe
  rw [Nat.one_shiftLeft]
  exact Nat.mod_eq_zero_of_dvd (Nat.pow_dvd_pow 2 (m := 2) (by omega))

theorem colProbe_mod (config : DramConfig) {cols : Nat} (hcols : 8 ≤ cols) :
    colProbe config cols % 4 = 0 := by
  unfold colProbe
  rw [Nat.one_shiftLeft]
  exact Nat.mod_eq_zero_of_dvd (Nat.pow_dvd_pow 2 (m := 2) (by omega))

/-! ## The two phases -/

/-- The pattern stands at none of the probed offsets below the limits. -/
structure NoPattern (G : Geometry) (base : Nat) (config : DramConfig)
    (d : Memory) : Prop where
  rows : ∀ r, 13 ≤ r → r < G.rows →
    ¬ PatternAt G base (mctlCoreInit (rowSetup config) d)
      (rowProbe (rowSetup config) r)
  cols : ∀ c, 8 ≤ c → c < G.cols →
    ¬ PatternAt G base (mctlCoreInit (colSetup config G.rows) d)
      (colProbe (colSetup config G.rows) c)

/-- One phase: the loop ends at `m` when the probes below `m` reach other cells
without the pattern, and the one of `m` reaches the region itself. -/
theorem detect_phase {probe : Nat → Nat} {lo hi m : Nat}
    (hcols : 8 ≤ config.cols) (hlo : lo ≤ m) (hhi : m ≤ lo + (hi - lo))
    (hmod : ∀ k, lo ≤ k → probe k % 4 = 0)
    (hapart : ∀ k, lo ≤ k → k < m → Apart G config (probe k))
    (hnone : ∀ k, lo ≤ k → k < m →
      ¬ PatternAt G base (mctlCoreInit config d) (probe k))
    (halias : m < lo + (hi - lo) → Aliases G config (probe m)) :
    detect (fun k => mctlCheckPattern G base
        (mctlWritePattern G base (mctlCoreInit config d)) (probe k))
      (hi - lo) lo = m := by
  apply detect_eq hlo hhi
  · intro k hge hlt
    rw [Bool.eq_false_iff, ne_eq,
      check_apart (d := mctlCoreInit config d) (hmod k hge) (hapart k hge hlt)]
    exact hnone k hge hlt
  · intro hlt
    exact check_aliases hcols (hmod m hlo) (halias hlt)

/-- The loop over the row bits ends at the row bits of the DRAM. -/
theorem detect_rows (hnone : NoPattern G base config d) :
    detect (fun rows => mctlCheckPattern G base
        (mctlWritePattern G base (mctlCoreInit (rowSetup config) d))
        (rowProbe (rowSetup config) rows)) (16 - 13) 13 = G.rows := by
  obtain ⟨hlo, hhi⟩ := G.rows_mem
  have hcols : 8 ≤ (rowSetup config).cols := Nat.le_refl 8
  apply detect_phase hcols hlo hhi
  · intro r _
    exact rowProbe_mod _ r
  · intro r _ hlt
    exact rowProbe_apart hcols (Nat.lt_of_lt_of_le hlt hhi) hlt
  · exact hnone.rows
  · intro hlt
    exact rowProbe_aliases hcols hlt (Nat.le_refl G.rows)

/-- The loop over the column bits ends at the column bits of the DRAM. -/
theorem detect_cols (hnone : NoPattern G base config d) :
    detect (fun cols => mctlCheckPattern G base
        (mctlWritePattern G base (mctlCoreInit (colSetup config G.rows) d))
        (colProbe (colSetup config G.rows) cols)) (11 - 8) 8 = G.cols := by
  obtain ⟨hlo, hhi⟩ := G.cols_mem
  have hcols : 8 ≤ (colSetup config G.rows).cols := by
    show 8 ≤ 11
    decide
  apply detect_phase hcols hlo hhi
  · intro c hge
    exact colProbe_mod _ hge
  · intro c hge hlt
    exact colProbe_apart hge (Nat.lt_of_lt_of_le hlt hhi) hlt
  · exact hnone.cols
  · intro hlt
    exact colProbe_aliases hlo hlt (Nat.le_refl G.cols)

/-- The configuration and the memory after the detection, with `rows` for the
result of the first loop. -/
theorem mctlAutoDetectDramSize_eq {rows : Nat}
    (hrows : detect (fun rows => mctlCheckPattern G base
        (mctlWritePattern G base (mctlCoreInit (rowSetup config) d))
        (rowProbe (rowSetup config) rows)) (16 - 13) 13 = rows) :
    mctlAutoDetectDramSize G base config d
      = ({ colSetup config rows with
            cols := detect (fun cols => mctlCheckPattern G base
              (mctlWritePattern G base (mctlCoreInit (colSetup config rows) d))
              (colProbe (colSetup config rows) cols)) (11 - 8) 8 },
          mctlCoreInit (colSetup config rows) d) := by
  subst hrows
  unfold mctlAutoDetectDramSize
  simp only [restore_write]
  rfl

/-! ## The detection -/

/-- The detection ends with the geometry of the DRAM when the pattern did not
stand where it looks, and it leaves the content as it was in any case. -/
theorem mctlAutoDetectDramSize_detects (G : Geometry) (base : Nat)
    (config : DramConfig) (d : Memory) :
    (NoPattern G base config d →
      (mctlAutoDetectDramSize G base config d).1.rows = G.rows ∧
        (mctlAutoDetectDramSize G base config d).1.cols = G.cols) ∧
      (mctlAutoDetectDramSize G base config d).2.cells = d.cells := by
  constructor
  · intro hnone
    rw [mctlAutoDetectDramSize_eq (detect_rows hnone)]
    exact ⟨rfl, detect_cols hnone⟩
  · rw [mctlAutoDetectDramSize_eq rfl]
    rfl

/-- A cleared DRAM of 15 row bits and 10 column bits at full width. -/
theorem mctlAutoDetectDramSize_cleared :
    let G : Geometry := ⟨15, 10, by decide, by decide⟩
    let detected := mctlAutoDetectDramSize G 0x40000000 ⟨0, 0, true⟩
      ⟨⟨0, 0, true⟩, fun _ => 0⟩
    detected.1.rows = 15 ∧ detected.1.cols = 10 := by
  apply (mctlAutoDetectDramSize_detects ⟨15, 10, by decide, by decide⟩
    0x40000000 ⟨0, 0, true⟩ ⟨⟨0, 0, true⟩, fun _ => 0⟩).1
  have hzero : ∀ {G config offset}, ¬ PatternAt G 0x40000000
      (mctlCoreInit config ⟨⟨0, 0, true⟩, fun _ => 0⟩) offset := by
    intro G config offset hp
    have hword : 0#8 ++ 0#8 ++ 0#8 ++ 0#8 = patternWord 0x40000000 0 :=
      hp 0 (by decide)
    exact absurd hword (by decide)
  exact ⟨fun _ _ _ => hzero, fun _ _ _ => hzero⟩

end LonganPi.Dram
