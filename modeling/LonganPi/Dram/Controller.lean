import LonganPi.Lib.AliasedMemory
import Mathlib.Data.BitVec

/-!
# The DRAM behind its controller

What `mctl_auto_detect_dram_size` of `dram_sun50i_h616.c` works on.  The
controller splits an offset into byte lane, column, bank and row, as wide as
`mctl_core_init` set it up.  The DRAM has `Geometry.rows` row bits and
`Geometry.cols` column bits.  It does not see higher ones, so two offsets may
reach one cell.

* `cellOf` is the split, `Memory` the bytes and the setup of the controller.
* `mctlWritePattern` and `mctlCheckPattern` are the functions of the file, and
  `detect` is its loop over a number of bits.
* `mctlAutoDetectDramSize` is the detection.

`CFG_SYS_SDRAM_BASE` comes from the configuration of the board.  It is the
parameter `base`, and offsets count from it.
-/

namespace LonganPi.Dram

open AliasedMemory

/-! ## The address map -/

/-- The fields of `struct dram_config` that the detection uses. -/
structure DramConfig where
  cols : Nat
  rows : Nat
  busFullWidth : Bool
  deriving DecidableEq, Repr

/-- The row and column bits that the DRAM has. -/
structure Geometry where
  rows : Nat
  cols : Nat
  rows_mem : 13 ≤ rows ∧ rows ≤ 16
  cols_mem : 8 ≤ cols ∧ cols ≤ 11

/-- One byte of the DRAM. -/
structure Cell where
  row : Nat
  bank : Nat
  col : Nat
  lane : Nat
  deriving DecidableEq, Repr

/-- The `n` bits of an offset from bit `k` on. -/
def field (k n off : Nat) : Nat := off / 2 ^ k % 2 ^ n

/-- A bus word has 2 bytes, or 4 at full width. -/
def laneBits (config : DramConfig) : Nat := 1 + config.busFullWidth.toNat

/-- Where the bank bits of an offset start. -/
def bankShift (config : DramConfig) : Nat := laneBits config + config.cols

/-- Where the row bits of an offset start: behind 8 banks. -/
def rowShift (config : DramConfig) : Nat := bankShift config + 3

/-- The cell of an offset.  The last `%` of `row` and of `col` drops the bits
that the DRAM does not have. -/
def cellOf (G : Geometry) (config : DramConfig) (off : Nat) : Cell where
  row := field (rowShift config) config.rows off % 2 ^ G.rows
  bank := field (bankShift config) 3 off
  col := field (laneBits config) config.cols off % 2 ^ G.cols
  lane := field 0 (laneBits config) off

/-- The setup of the controller and the content of the DRAM. -/
structure Memory where
  config : DramConfig
  cells : Cell → BitVec 8

/-- `mctl_core_init`.  It changes the address map and keeps the content. -/
def mctlCoreInit (config : DramConfig) (d : Memory) : Memory := { d with config }

variable (G : Geometry) (base : Nat)

/-! ## Accesses -/

/-- The byte at an offset. -/
def Memory.readb (d : Memory) (off : Nat) : BitVec 8 :=
  read (cellOf G d.config) d.cells off

/-- Store a byte. -/
def Memory.writeb (d : Memory) (off : Nat) (v : BitVec 8) : Memory :=
  { d with cells := write (cellOf G d.config) d.cells off v }

/-- `readl`, little endian. -/
def Memory.readl (d : Memory) (off : Nat) : BitVec 32 :=
  d.readb G (off + 3) ++ d.readb G (off + 2) ++ d.readb G (off + 1) ++
    d.readb G off

/-- The byte `j` of a little-endian word. -/
def wordByte (v : BitVec 32) (j : Nat) : BitVec 8 := v.extractLsb' (8 * j) 8

/-- `writel`. -/
def Memory.writel (d : Memory) (off : Nat) (v : BitVec 32) : Memory :=
  (((d.writeb G off (wordByte v 0)).writeb G (off + 1) (wordByte v 1)).writeb G
    (off + 2) (wordByte v 2)).writeb G (off + 3) (wordByte v 3)

/-- The offsets of the 16 words at the base. -/
def region : List Nat := List.range 64

/-- `memcpy(buffer, base, sizeof(buffer))`: the bytes of the buffer. -/
def saveBuffer (d : Memory) : Nat → BitVec 8 := fun j => d.readb G j

/-- `memcpy(base, buffer, sizeof(buffer))`. -/
def restoreBuffer (d : Memory) (buffer : Nat → BitVec 8) : Memory :=
  { d with cells := fill (cellOf G d.config) buffer region d.cells }

/-! ## The test pattern -/

/-- `val` of round `i`: the address of the word, or its complement. -/
def patternWord (i : Nat) : BitVec 32 :=
  let ptr := base + 4 * i
  if i &&& 1 ≠ 0 then (~~~ BitVec.ofNat 64 ptr).setWidth 32
  else (BitVec.ofNat 64 ptr).setWidth 32

/-- The loop of `mctl_write_pattern`, with `n` rounds left. -/
def writePatternLoop : Nat → Nat → Memory → Memory
  | 0, _, d => d
  | n + 1, i, d =>
    writePatternLoop n (i + 1) (d.writel G (4 * i) (patternWord base i))

/-- `mctl_write_pattern`. -/
def mctlWritePattern (d : Memory) : Memory := writePatternLoop G base 16 0 d

/-- The loop of `mctl_check_pattern`, with `n` rounds left. -/
def checkPatternLoop (d : Memory) (offset : Nat) : Nat → Nat → Bool
  | 0, _ => true
  | n + 1, i =>
    if patternWord base i ≠ d.readl G (4 * i + 4 * (offset / 4)) then false
    else checkPatternLoop d offset n (i + 1)

/-- `mctl_check_pattern`. -/
def mctlCheckPattern (d : Memory) (offset : Nat) : Bool :=
  checkPatternLoop G base d offset 16 0

/-! ## The detection -/

/-- `for (bits = ..; bits < ..; bits++) if (hit(bits)) break;` with `n` rounds
left. -/
def detect (hit : Nat → Bool) : Nat → Nat → Nat
  | 0, bits => bits
  | n + 1, bits => if hit bits then bits else detect hit n (bits + 1)

/-- The offset that has the row bit `rows` set. -/
def rowProbe (config : DramConfig) (rows : Nat) : Nat :=
  1 <<< (rows + config.cols + 4 + config.busFullWidth.toNat)

/-- The offset that has the column bit `cols` set. -/
def colProbe (config : DramConfig) (cols : Nat) : Nat :=
  1 <<< (cols + 1 + config.busFullWidth.toNat)

/-- `mctl_auto_detect_dram_size`. -/
def mctlAutoDetectDramSize (config : DramConfig) (d : Memory) :
    DramConfig × Memory :=
  -- row address bits
  let config := { config with cols := 8, rows := 16 }
  let d := mctlCoreInit config d
  let buffer := saveBuffer G d
  let d := mctlWritePattern G base d
  let config := { config with
    rows := detect (fun rows => mctlCheckPattern G base d (rowProbe config rows))
      (16 - 13) 13 }
  let d := restoreBuffer G d buffer
  -- column address bits
  let config := { config with cols := 11 }
  let d := mctlCoreInit config d
  let buffer := saveBuffer G d
  let d := mctlWritePattern G base d
  let config := { config with
    cols := detect (fun cols => mctlCheckPattern G base d (colProbe config cols))
      (11 - 8) 8 }
  (config, restoreBuffer G d buffer)

end LonganPi.Dram
