import LonganPi.Dram.Controller
import LonganPi.Lib.Bits

/-!
# What a probe finds

`mctl_write_pattern` fills the 16 words at the base, and `mctl_check_pattern`
looks for them at an offset with one address bit set.

* `cellOf_rowProbe` and `cellOf_colProbe` say which cells such an offset
  reaches.  A bit that the DRAM does not have changes nothing.
* `mctlWritePattern_eq` is the write of the pattern as one fill.
* `check_aliases` and `check_apart` are the two answers of a check, and
  `restore_write` says that a probe leaves no trace.
-/

namespace LonganPi.Dram

open AliasedMemory

variable {G : Geometry} {base : Nat} {config : DramConfig} {d : Memory}

/-! ## The cells of a probe -/

/-- An offset of the region has no bit from bit 8 on. -/
theorem lt_two_pow_of_region {x k : Nat} (hx : x < 64) (hk : 8 ≤ k) :
    x < 2 ^ k :=
  Nat.lt_of_lt_of_le (show x < 2 ^ 8 by omega) (Nat.pow_le_pow_right (by decide) hk)

/-- The first 64 bytes lie in the first columns of the first row. -/
theorem cellOf_region {x : Nat} (hx : x < 64) (hcols : 8 ≤ config.cols) :
    cellOf G config x
      = ⟨0, 0, x / 2 ^ laneBits config, x % 2 ^ laneBits config⟩ := by
  have hbank : 8 ≤ bankShift config := by
    unfold bankShift
    omega
  have hrow : 8 ≤ rowShift config := by
    unfold rowShift
    omega
  have hcol : ∀ {n}, 8 ≤ n → x / 2 ^ laneBits config < 2 ^ n := fun hn =>
    Nat.lt_of_le_of_lt (Nat.div_le_self _ _) (lt_two_pow_of_region hx hn)
  unfold cellOf field
  rw [Nat.div_eq_of_lt (lt_two_pow_of_region hx hrow),
    Nat.div_eq_of_lt (lt_two_pow_of_region hx hbank),
    Nat.mod_eq_of_lt (hcol hcols), Nat.mod_eq_of_lt (hcol G.cols_mem.1)]
  simp

theorem rowProbe_eq (config : DramConfig) (r : Nat) :
    rowProbe config r = 2 ^ r * 2 ^ rowShift config := by
  unfold rowProbe rowShift bankShift laneBits
  rw [Nat.one_shiftLeft, ← Nat.pow_add]
  congr 1
  omega

theorem colProbe_eq (config : DramConfig) (c : Nat) :
    colProbe config c = 2 ^ c * 2 ^ laneBits config := by
  unfold colProbe laneBits
  rw [Nat.one_shiftLeft, ← Nat.pow_add]
  congr 1
  omega

/-- A row bit above those of the DRAM is dropped, a lower one selects another
row. -/
theorem cellOf_rowProbe {x r : Nat} (hx : x < 64) (hcols : 8 ≤ config.cols)
    (hr : r < config.rows) :
    cellOf G config (x + rowProbe config r)
      = { cellOf G config x with row := if r < G.rows then 2 ^ r else 0 } := by
  have hrow : x < 2 ^ rowShift config := by
    apply lt_two_pow_of_region hx
    unfold rowShift bankShift
    omega
  have hlow : laneBits config + config.cols ≤ rowShift config :=
    Nat.le_add_right _ _
  unfold cellOf field
  rw [rowProbe_eq, Bits.add_above_div _ hrow, Bits.field_add_above x _ hlow,
    Bits.field_add_above x _ (Nat.le_refl (rowShift config)),
    Bits.field_add_above x _ (by omega), Bits.two_pow_mod, if_pos hr,
    Bits.two_pow_mod]

/-- A column bit above those of the DRAM is dropped, a lower one selects
another column. -/
theorem cellOf_colProbe {x c : Nat} (hx : x < 64) (hc8 : 8 ≤ c)
    (hc : c < config.cols) :
    cellOf G config (x + colProbe config c)
      = { cellOf G config x with
          col := x / 2 ^ laneBits config + if c < G.cols then 2 ^ c else 0 } := by
  have hpos : 0 < 2 ^ laneBits config := Nat.two_pow_pos _
  have hword : ∀ {n}, 8 ≤ n → x / 2 ^ laneBits config < 2 ^ n := fun hn =>
    Nat.lt_of_le_of_lt (Nat.div_le_self _ _) (lt_two_pow_of_region hx hn)
  have hquot : (x + 2 ^ c * 2 ^ laneBits config) / 2 ^ laneBits config
      = x / 2 ^ laneBits config + 2 ^ c := Nat.add_mul_div_right _ _ hpos
  -- The column fits, so nothing carries into the bank or the row.
  have hfits : ∀ {n}, c < n → x / 2 ^ laneBits config + 2 ^ c < 2 ^ n := by
    intro n hn
    have hlow := hword hc8
    have hsucc : 2 ^ (c + 1) ≤ 2 ^ n := Nat.pow_le_pow_right (by decide) hn
    rw [Nat.pow_succ] at hsucc
    omega
  have habove : ∀ {k}, bankShift config ≤ k →
      (x + 2 ^ c * 2 ^ laneBits config) / 2 ^ k = 0 := by
    intro k hk
    unfold bankShift at hk
    rw [show k = laneBits config + (k - laneBits config) by omega, Nat.pow_add,
      ← Nat.div_div_eq_div_mul, hquot]
    exact Nat.div_eq_of_lt (hfits (by omega))
  have hcol : (x / 2 ^ laneBits config + 2 ^ c) % 2 ^ G.cols
      = x / 2 ^ laneBits config + if c < G.cols then 2 ^ c else 0 := by
    split_ifs with hlt
    · exact Nat.mod_eq_of_lt (hfits hlt)
    · have hdvd : 2 ^ c = 2 ^ (c - G.cols) * 2 ^ G.cols := by
        rw [← Nat.pow_add]
        congr 1
        omega
      rw [hdvd, Nat.add_mul_mod_self_right, Nat.add_zero]
      exact Nat.mod_eq_of_lt (hword G.cols_mem.1)
  rw [cellOf_region hx (by omega)]
  unfold cellOf field
  rw [colProbe_eq, habove (k := rowShift config) (Nat.le_add_right _ _),
    habove (Nat.le_refl _), hquot, Nat.mod_eq_of_lt (hfits hc), hcol,
    Bits.field_add_above x _ (Nat.le_of_eq (Nat.zero_add _))]
  simp

/-- The offset reaches the cells of the region. -/
def Aliases (G : Geometry) (config : DramConfig) (offset : Nat) : Prop :=
  ∀ x < 64, cellOf G config (x + offset) = cellOf G config x

/-- The offset reaches none of the cells of the region. -/
def Apart (G : Geometry) (config : DramConfig) (offset : Nat) : Prop :=
  ∀ x < 64, ∀ y < 64, cellOf G config y ≠ cellOf G config (x + offset)

theorem rowProbe_aliases {r : Nat} (hcols : 8 ≤ config.cols)
    (hr : r < config.rows) (hG : G.rows ≤ r) :
    Aliases G config (rowProbe config r) := by
  intro x hx
  rw [cellOf_rowProbe hx hcols hr, if_neg (by omega), cellOf_region hx hcols]

theorem rowProbe_apart {r : Nat} (hcols : 8 ≤ config.cols)
    (hr : r < config.rows) (hG : r < G.rows) :
    Apart G config (rowProbe config r) := by
  intro x hx y hy heq
  have hrow := congrArg Cell.row heq
  have hpos := Nat.two_pow_pos r
  rw [cellOf_rowProbe hx hcols hr, if_pos hG, cellOf_region hy hcols] at hrow
  simp only at hrow
  omega

theorem colProbe_aliases {c : Nat} (hc8 : 8 ≤ c) (hc : c < config.cols)
    (hG : G.cols ≤ c) : Aliases G config (colProbe config c) := by
  intro x hx
  rw [cellOf_colProbe hx hc8 hc, if_neg (by omega), Nat.add_zero,
    cellOf_region hx (by omega)]

theorem colProbe_apart {c : Nat} (hc8 : 8 ≤ c) (hc : c < config.cols)
    (hG : c < G.cols) : Apart G config (colProbe config c) := by
  intro x hx y hy heq
  have hcol := congrArg Cell.col heq
  have hbig : 2 ^ 8 ≤ 2 ^ c := Nat.pow_le_pow_right (by decide) hc8
  have hword : y / 2 ^ laneBits config ≤ y := Nat.div_le_self _ _
  rw [cellOf_colProbe hx hc8 hc, if_pos hG, cellOf_region hy (by omega)] at hcol
  have hle : 2 ^ c ≤ y / 2 ^ laneBits config :=
    Nat.le_trans (Nat.le_add_left _ _) (Nat.le_of_eq hcol.symm)
  omega

/-- Different offsets of the region are different cells. -/
theorem cellOf_injOn (hcols : 8 ≤ config.cols) :
    Set.InjOn (cellOf G config) {x | x ∈ region} := by
  intro x hx y hy heq
  have hx64 : x < 64 := List.mem_range.mp hx
  have hy64 : y < 64 := List.mem_range.mp hy
  rw [cellOf_region hx64 hcols, cellOf_region hy64 hcols] at heq
  obtain ⟨-, -, hcol, hlane⟩ := Cell.mk.inj heq
  rw [← Nat.div_add_mod x (2 ^ laneBits config), hcol, hlane,
    Nat.div_add_mod]

/-! ## Writing and checking the pattern -/

/-- The byte of the pattern at an offset. -/
def patternByte (base x : Nat) : BitVec 8 :=
  wordByte (patternWord base (x / 4)) (x % 4)

/-- The 16 words at the offset are the pattern. -/
def PatternAt (G : Geometry) (base : Nat) (d : Memory) (offset : Nat) : Prop :=
  ∀ i < 16, d.readl G (4 * i + offset) = patternWord base i

theorem patternByte_add {i j : Nat} (hj : j < 4) :
    patternByte base (4 * i + j) = wordByte (patternWord base i) j := by
  unfold patternByte
  rw [show (4 * i + j) / 4 = i by omega, show (4 * i + j) % 4 = j by omega]

/-- The four bytes of a word make the word. -/
theorem wordByte_append (v : BitVec 32) :
    wordByte v 3 ++ wordByte v 2 ++ wordByte v 1 ++ wordByte v 0 = v := by
  unfold wordByte
  rw [BitVec.extractLsb'_append_extractLsb'_eq_extractLsb' (by decide),
    BitVec.extractLsb'_append_extractLsb'_eq_extractLsb' (by decide),
    BitVec.extractLsb'_append_extractLsb'_eq_extractLsb' (by decide)]
  exact BitVec.extractLsb'_eq_self

/-- A word is read from its bytes. -/
theorem readl_of_bytes {off : Nat} {v : BitVec 32}
    (h : ∀ j < 4, d.readb G (off + j) = wordByte v j) : d.readl G off = v := by
  unfold Memory.readl
  have h0 : d.readb G off = wordByte v 0 := h 0 (by decide)
  rw [h 3 (by decide), h 2 (by decide), h 1 (by decide), h0, wordByte_append]

theorem readl_congr {d' : Memory} {off : Nat}
    (h : ∀ j < 4, d.readb G (off + j) = d'.readb G (off + j)) :
    d.readl G off = d'.readl G off := by
  unfold Memory.readl
  have h0 : d.readb G off = d'.readb G off := h 0 (by decide)
  rw [h 3 (by decide), h 2 (by decide), h 1 (by decide), h0]

theorem writePatternLoop_eq (n i : Nat) (d : Memory) :
    writePatternLoop G base n i d
      = ⟨d.config, fill (cellOf G d.config) (patternByte base)
          (List.range' (4 * i) (4 * n)) d.cells⟩ := by
  induction n generalizing i d with
  | zero => rfl
  | succ n ih =>
    unfold writePatternLoop
    rw [ih]
    unfold Memory.writel Memory.writeb
    rw [← patternByte_add (show 0 < 4 by decide),
      ← patternByte_add (show 1 < 4 by decide),
      ← patternByte_add (show 2 < 4 by decide),
      ← patternByte_add (show 3 < 4 by decide)]
    rfl

/-- `mctl_write_pattern` fills the region. -/
theorem mctlWritePattern_eq (d : Memory) :
    mctlWritePattern G base d
      = ⟨d.config, fill (cellOf G d.config) (patternByte base) region d.cells⟩ := by
  unfold mctlWritePattern region
  rw [writePatternLoop_eq, List.range_eq_range']

theorem checkPatternLoop_iff {offset : Nat} (n i : Nat) :
    checkPatternLoop G base d offset n i = true ↔
      ∀ j, i ≤ j → j < i + n →
        d.readl G (4 * j + 4 * (offset / 4)) = patternWord base j := by
  induction n generalizing i with
  | zero =>
    simp only [checkPatternLoop, true_iff]
    intro j hge hlt
    omega
  | succ n ih =>
    unfold checkPatternLoop
    split_ifs with hne
    · apply iff_of_false not_false
      intro h
      exact hne (h i (Nat.le_refl i) (by omega)).symm
    · rw [ih]
      constructor
      · intro h j hge hlt
        by_cases hj : j = i
        · rw [hj]
          exact (not_not.mp hne).symm
        · exact h j (by omega) (by omega)
      · intro h j hge hlt
        exact h j (by omega) (by omega)

theorem mctlCheckPattern_iff {offset : Nat} (hoff : offset % 4 = 0) :
    mctlCheckPattern G base d offset = true ↔ PatternAt G base d offset := by
  unfold mctlCheckPattern PatternAt
  rw [checkPatternLoop_iff, show 4 * (offset / 4) = offset by omega]
  constructor
  · intro h i hi
    exact h i (Nat.zero_le i) (by omega)
  · intro h i _ hi
    exact h i (by omega)

/-! ## The two answers of a check -/

/-- At an offset that reaches the region itself the pattern is found. -/
theorem check_aliases {offset : Nat} (hcols : 8 ≤ d.config.cols)
    (hoff : offset % 4 = 0) (h : Aliases G d.config offset) :
    mctlCheckPattern G base (mctlWritePattern G base d) offset = true := by
  rw [mctlCheckPattern_iff hoff, mctlWritePattern_eq]
  intro i hi
  apply readl_of_bytes
  intro j hj
  have hx : 4 * i + j < 64 := by omega
  unfold Memory.readb
  rw [show 4 * i + offset + j = 4 * i + j + offset by omega,
    read_fill (cellOf_injOn hcols) (List.mem_range.mpr hx) (h _ hx),
    patternByte_add hj]

/-- At an offset that reaches other cells the old content is compared. -/
theorem check_apart {offset : Nat} (hoff : offset % 4 = 0)
    (h : Apart G d.config offset) :
    mctlCheckPattern G base (mctlWritePattern G base d) offset = true ↔
      PatternAt G base d offset := by
  rw [mctlCheckPattern_iff hoff, mctlWritePattern_eq]
  have hword : ∀ i < 16, Memory.readl G ⟨d.config, fill (cellOf G d.config)
      (patternByte base) region d.cells⟩ (4 * i + offset)
      = d.readl G (4 * i + offset) := by
    intro i hi
    apply readl_congr
    intro j hj
    rw [show 4 * i + offset + j = 4 * i + j + offset by omega]
    apply read_fill_of_apart
    intro y hy
    exact h _ (by omega) y (List.mem_range.mp hy)
  constructor
  · intro hp i hi
    rw [← hword i hi]
    exact hp i hi
  · intro hp i hi
    rw [hword i hi]
    exact hp i hi

/-- Writing the buffer back undoes the pattern. -/
theorem restore_write (d : Memory) :
    restoreBuffer G (mctlWritePattern G base d) (saveBuffer G d) = d := by
  rw [mctlWritePattern_eq]
  show Memory.mk d.config (fill (cellOf G d.config)
    (read (cellOf G d.config) d.cells) region _) = d
  rw [fill_read_fill]

end LonganPi.Dram
