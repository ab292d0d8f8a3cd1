import LonganPi.Lib.BitField
import Mathlib.Logic.Function.Basic

/-!
# The registers of `pwm-sunxi-enhance.c`

The offsets and fields of `pwm-sunxi-enhance.h`, and the macros that read and
write a field.  A channel has two registers of its own, for its control and
its period.  Two channels share a clock control register: its source, its
divider and its gate are common, and each of the two has a bypass bit in it.
All channels share the enable register.

The registers keep what is written to them.
-/

namespace LonganPi.Pwm

/-- The channels that `get_pccr_reg_offset` knows. -/
abbrev Channel := Fin 9

/-- A 32-bit register for each offset. -/
abbrev Regs := Nat → BitVec 32

/-! ## Offsets -/

def pwmPccr01 : Nat := 0x0020
def pwmPccr23 : Nat := 0x0024
def pwmPccr45 : Nat := 0x0028
def pwmPccr67 : Nat := 0x002c
def pwmPdzcr01 : Nat := 0x0030
def pwmPdzcr23 : Nat := 0x0034
def pwmPdzcr45 : Nat := 0x0038
def pwmPdzcr67 : Nat := 0x003c
def pwmPer : Nat := 0x0040
def pwmPcrBase : Nat := 0x0060 + 0x0000
def pwmPprBase : Nat := 0x0060 + 0x0004
def pwmPccr8 : Nat := 0x0300

/-- The control register of a channel. -/
def pcrOffset (sel : Channel) : Nat := pwmPcrBase + 0x20 * sel

/-- The period register of a channel. -/
def pprOffset (sel : Channel) : Nat := pwmPprBase + 0x20 * sel

/-- `get_pccr_reg_offset`. -/
def getPccrRegOffset (sel : Channel) : Nat :=
  match sel with
  | 0 | 1 => pwmPccr01
  | 2 | 3 => pwmPccr23
  | 4 | 5 => pwmPccr45
  | 6 | 7 => pwmPccr67
  | 8 => pwmPccr8

/-- `get_pdzcr_reg_offset`.  Channel 8 has no dead zone, and the variable of
the caller keeps whatever it had. -/
def getPdzcrRegOffset (sel : Channel) (uninit : Nat) : Nat :=
  match sel with
  | 0 | 1 => pwmPdzcr01
  | 2 | 3 => pwmPdzcr23
  | 4 | 5 => pwmPdzcr45
  | 6 | 7 => pwmPdzcr67
  | 8 => uninit

/-! ## Fields -/

def pwmActStaShift : Nat := 0x8
def pwmClkSrcShift : Nat := 0x7
def pwmClkSrcWidth : Nat := 0x2
def pwmDivMShift : Nat := 0x0
def pwmDivMWidth : Nat := 0x4
def pwmPrescalShift : Nat := 0x0
def pwmPrescalWidth : Nat := 0x8
def pwmActCyclesShift : Nat := 0x0
def pwmActCyclesWidth : Nat := 0x10
def pwmPeriodCyclesShift : Nat := 0x10
def pwmPeriodCyclesWidth : Nat := 0x10
def pwmDzEnShift : Nat := 0x0
def pwmDzEnWidth : Nat := 0x1
def pwmPdzintvShift : Nat := 0x8
def pwmPdzintvWidth : Nat := 0x8
def pwmBypassWidth : Nat := 0x1
def pwmClkGatingShift : Nat := 0x4
def pwmClkGatingWidth : Nat := 0x1

/-- The bypass bit of a channel. -/
def regBypassShift (sel : Channel) : Nat :=
  if sel.val % 2 = 0 then 0x5 else 0x6

/-- `SETMASK`. -/
def setMask (width shift : Nat) : BitVec 32 :=
  (if width ≠ 0 then BitVec.allOnes 32 >>> (32 - width) else 0) <<< shift

/-- `CLRMASK`. -/
def clrMask (width shift : Nat) : BitVec 32 := ~~~ setMask width shift

/-- `GET_BITS`. -/
def getBits (shift width : Nat) (reg : BitVec 32) : BitVec 32 :=
  (reg &&& setMask width shift) >>> shift

/-- `SET_BITS`.  The value is not masked. -/
def setBits (shift width : Nat) (reg val : BitVec 32) : BitVec 32 :=
  (reg &&& clrMask width shift) ||| (val <<< shift)

/-- A read of a register, a write of one field of it, and a write back. -/
def writeField (regs : Regs) (offset shift width : Nat) (val : BitVec 32) :
    Regs :=
  Function.update regs offset (setBits shift width (regs offset) val)

theorem setMask_eq (width shift : Nat) :
    setMask width shift = BitField.mask 32 width shift := by
  unfold setMask BitField.mask
  by_cases hw : width ≠ 0
  · rw [if_pos hw]
  · rw [if_neg hw, Decidable.not_not.mp hw]
    rfl

theorem getBits_eq (shift width : Nat) (reg : BitVec 32) :
    getBits shift width reg = BitField.get shift width reg := by
  unfold getBits BitField.get
  rw [setMask_eq]

theorem setBits_eq (shift width : Nat) (reg val : BitVec 32) :
    setBits shift width reg val = BitField.set shift width reg val := by
  unfold setBits clrMask BitField.set
  rw [setMask_eq]

@[simp]
theorem writeField_self (regs : Regs) (offset shift width : Nat)
    (val : BitVec 32) :
    writeField regs offset shift width val offset
      = BitField.set shift width (regs offset) val := by
  unfold writeField
  rw [Function.update_self, setBits_eq]

theorem writeField_of_ne (regs : Regs) {offset offset' : Nat}
    (shift width : Nat) (val : BitVec 32) (h : offset' ≠ offset) :
    writeField regs offset shift width val offset' = regs offset' := by
  unfold writeField
  rw [Function.update_of_ne h]

/-! ## Which registers a channel has for itself -/

theorem pcrOffset_injective : Function.Injective pcrOffset := by
  intro a b h
  unfold pcrOffset at h
  exact Fin.ext (by omega)

theorem pprOffset_injective : Function.Injective pprOffset := by
  intro a b h
  unfold pprOffset at h
  exact Fin.ext (by omega)

theorem pcrOffset_ne_ppr (a b : Channel) : pcrOffset a ≠ pprOffset b := by
  unfold pcrOffset pprOffset pwmPcrBase pwmPprBase
  omega

theorem pcrOffset_ne_per (a : Channel) : pcrOffset a ≠ pwmPer := by
  unfold pcrOffset pwmPcrBase pwmPer
  omega

theorem pprOffset_ne_per (a : Channel) : pprOffset a ≠ pwmPer := by
  unfold pprOffset pwmPprBase pwmPer
  omega

theorem pccr_ne_pcr (a b : Channel) : getPccrRegOffset a ≠ pcrOffset b := by
  revert a b
  decide

theorem pccr_ne_ppr (a b : Channel) : getPccrRegOffset a ≠ pprOffset b := by
  revert a b
  decide

theorem pccr_ne_per (a : Channel) : getPccrRegOffset a ≠ pwmPer := by
  revert a
  decide

end LonganPi.Pwm
