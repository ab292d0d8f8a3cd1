import LonganPi.Lib.Transition
import LonganPi.Pwm.Dividers
import LonganPi.Pwm.Independence

/-!
# The clock gates

A clock control register has one gate for the two channels that share it.  An
enable opens the gate, and a disable closes it when the enable bits of both
channels are clear.

* `gateStep` is a call on an unbound channel, or a write to the other fields of
  a clock control register.
* `enableSingle_gates` and `disableSingle_gates` are what the two calls do to
  the gates and the enable bits.
* `gates_follow` says that in every run a gate is open exactly when one of its
  channels is enabled.
-/

namespace LonganPi.Pwm

open Transition

/-- The gate of the clock control register of a channel. -/
def gateOn (regs : Regs) (sel : Channel) : Bool :=
  (regs (getPccrRegOffset sel)).getLsbD pwmClkGatingShift

/-- The bit of a channel in `PWM_PER`. -/
def channelOn (regs : Regs) (sel : Channel) : Bool :=
  (regs pwmPer).getLsbD sel

/-- A gate is open exactly when a channel that uses it is enabled. -/
def GatesFollow (regs : Regs) : Prop :=
  ∀ sel, gateOn regs sel = true ↔
    ∃ o, getPccrRegOffset o = getPccrRegOffset sel ∧ channelOn regs o = true

/-- A call on a channel, or a write to a clock control register that keeps its
gate. -/
inductive GateOp where
  | enable (l : PinLookups) (sel : Channel)
  | disable (l : PinLookups) (sel : Channel)
  | config (cfg : SunxiPwmConfig) (sel : Channel) (dutyNs periodNs : Int)
  | polarity (sel : Channel) (polarity : PwmPolarity)
  | clockWrite (sel : Channel) (val : BitVec 32)

/-- One call. -/
def gateStep (regs : Regs) : GateOp → Option Regs
  | .enable l sel => some (sunxiPwmEnableSingle l sel regs).1
  | .disable l sel => some (sunxiPwmDisableSingle l sel regs)
  | .config cfg sel dutyNs periodNs =>
    some (sunxiPwmConfigSingle cfg sel dutyNs periodNs regs)
  | .polarity sel polarity => some (setPolaritySingle sel polarity regs)
  | .clockWrite sel val =>
    if val.getLsbD pwmClkGatingShift = gateOn regs sel then
      some (Function.update regs (getPccrRegOffset sel) val)
    else none

/-- All enable bits and gates are clear.  The enable bits have one bit more than
there are channels. -/
structure AllClear (regs : Regs) : Prop where
  per : regs pwmPer = 0
  gate : ∀ sel, gateOn regs sel = false

/-- The gates follow, and the bit behind the last channel is clear. -/
structure GateInv (regs : Regs) : Prop where
  follow : GatesFollow regs
  spare : (regs pwmPer).getLsbD 9 = false

variable {regs regs' : Regs} {sel o : Channel} {l : PinLookups}

/-! ## One write -/

/-- A write of one bit. -/
theorem getLsbD_setBit {shift i : Nat} {r : BitVec 32} (on : Bool)
    (hi : i < 32) :
    (BitField.set shift 1 r (if on then 1 else 0)).getLsbD i =
      if i = shift then on else r.getLsbD i := by
  rw [BitField.getLsbD_set (by decide) hi]
  by_cases heq : i = shift
  · rw [heq, if_pos rfl, Nat.sub_self]
    cases on <;> simp
  · have hone : (if on then 1 else 0 : BitVec 32).getLsbD (i - shift) =
        (decide (i - shift = 0) && on) := by
      cases on
      · simp
      · simp [BitVec.getLsbD_one]
    rw [if_neg heq, hone]
    by_cases hle : shift ≤ i
    · simp [show i - shift ≠ 0 by omega, show ¬ i < shift + 1 by omega]
    · simp [hle]

theorem gateOn_writeGate (on : Bool) :
    gateOn (writeField regs (getPccrRegOffset sel) pwmClkGatingShift 1
        (if on then 1 else 0)) o =
      if getPccrRegOffset o = getPccrRegOffset sel then on else gateOn regs o := by
  unfold gateOn
  by_cases hsame : getPccrRegOffset o = getPccrRegOffset sel
  · rw [if_pos hsame, hsame, writeField_self, getLsbD_setBit on (by decide),
      if_pos rfl]
  · rw [if_neg hsame, writeField_of_ne _ _ _ _ hsame]

/-- No gate is in `PWM_PER`. -/
theorem gateOn_writePer (regs : Regs) (sel o : Channel) (val : BitVec 32) :
    gateOn (writeField regs pwmPer sel 1 val) o = gateOn regs o := by
  unfold gateOn
  rw [writeField_of_ne _ _ _ _ (pccr_ne_per o)]

theorem perBit_write {i : Nat} (on : Bool) (hi : i < 32) :
    (writeField regs pwmPer sel 1 (if on then 1 else 0) pwmPer).getLsbD i =
      if i = sel.val then on else (regs pwmPer).getLsbD i := by
  rw [writeField_self, getLsbD_setBit on hi]

/-! ## What keeps the gates -/

/-- The gates and the enable register are the same. -/
structure SameGates (regs regs' : Regs) : Prop where
  gate : ∀ o, gateOn regs' o = gateOn regs o
  per : regs' pwmPer = regs pwmPer

theorem SameGates.refl (regs : Regs) : SameGates regs regs :=
  ⟨fun _ => rfl, rfl⟩

theorem SameGates.trans {regs'' : Regs} (h : SameGates regs regs')
    (h' : SameGates regs' regs'') : SameGates regs regs'' :=
  ⟨fun o => (h'.gate o).trans (h.gate o), h'.per.trans h.per⟩

theorem SameGates.inv (h : SameGates regs regs') (hinv : GateInv regs) :
    GateInv regs' where
  follow sel := by
    unfold channelOn
    rw [h.gate, h.per]
    exact hinv.follow sel
  spare := by
    rw [h.per]
    exact hinv.spare

/-- A write of another field of a clock control register. -/
theorem sameGates_writePccr (regs : Regs) (sel : Channel) {shift width : Nat}
    {val : BitVec 32} (hw : shift + width ≤ 32) (hval : val.toNat < 2 ^ width)
    (hout : pwmClkGatingShift < shift ∨ shift + width ≤ pwmClkGatingShift) :
    SameGates regs (writeField regs (getPccrRegOffset sel) shift width val) where
  gate o := by
    unfold gateOn
    by_cases hsame : getPccrRegOffset o = getPccrRegOffset sel
    · rw [hsame, writeField_self,
        BitField.getLsbD_set_of_lt hw hval (by decide) hout]
    · rw [writeField_of_ne _ _ _ _ hsame]
  per := writeField_of_ne _ _ _ _ (pccr_ne_per sel).symm

/-- A write of a register that no gate is in. -/
theorem SameGates.writeOther (h : SameGates regs regs') {offset : Nat}
    {shift width : Nat} {val : BitVec 32}
    (hpccr : ∀ o, getPccrRegOffset o ≠ offset) (hper : pwmPer ≠ offset) :
    SameGates regs (writeField regs' offset shift width val) where
  gate o := by
    rw [← h.gate]
    unfold gateOn
    rw [writeField_of_ne _ _ _ _ (hpccr o)]
  per := by
    rw [← h.per]
    exact writeField_of_ne _ _ _ _ hper

theorem SameGates.writePcr (h : SameGates regs regs') {shift width : Nat}
    {val : BitVec 32} :
    SameGates regs (writeField regs' (pcrOffset sel) shift width val) :=
  h.writeOther (fun o => pccr_ne_pcr o sel) (pcrOffset_ne_per sel).symm

theorem SameGates.writePpr (h : SameGates regs regs') {shift width : Nat}
    {val : BitVec 32} :
    SameGates regs (writeField regs' (pprOffset sel) shift width val) :=
  h.writeOther (fun o => pccr_ne_ppr o sel) (pprOffset_ne_per sel).symm

theorem sameGates_bypass (regs : Regs) (sel : Channel) :
    SameGates regs
      (writeField regs (getPccrRegOffset sel) (regBypassShift sel) 1 1) := by
  have hshift := regBypassShift_cases sel
  have hout : pwmClkGatingShift < regBypassShift sel := by
    unfold pwmClkGatingShift
    omega
  exact sameGates_writePccr regs sel (by omega) (by decide) (Or.inl hout)

theorem sameGates_source (regs : Regs) (sel : Channel) {src : BitVec 32}
    (hsrc : src.toNat < 4) :
    SameGates regs
      (writeField regs (getPccrRegOffset sel) pwmClkSrcShift pwmClkSrcWidth src) :=
  sameGates_writePccr regs sel (by decide) hsrc (by decide)

theorem sameGates_selectClock (cfg : SunxiPwmConfig) (sel : Channel)
    {src : BitVec 32} (hsrc : src.toNat < 4) (regs : Regs) :
    SameGates regs (selectClock cfg sel src regs) := by
  unfold selectClock
  dsimp only
  split_ifs
  · exact (sameGates_bypass regs sel).trans (sameGates_source _ sel hsrc)
  · exact sameGates_source regs sel hsrc

theorem sameGates_writeCycles (sel : Channel) {d : Dividers} (active : Nat)
    (hd : d.divM < 16) (regs : Regs) :
    SameGates regs (writeCycles sel d active regs) := by
  have hfits : (BitVec.ofNat 32 d.divM).toNat < 2 ^ pwmDivMWidth := by
    rw [BitVec.toNat_ofNat, pwmDivMWidth]
    omega
  have hwidth : pwmDivMShift + pwmDivMWidth ≤ 32 := by decide
  have hbelow : pwmDivMShift + pwmDivMWidth ≤ pwmClkGatingShift := by decide
  unfold writeCycles
  dsimp only
  have hdiv := sameGates_writePccr regs sel hwidth hfits (Or.inr hbelow)
  exact hdiv.writePcr.writePpr.writePpr

/-- A configuration keeps every gate. -/
theorem sameGates_configSingle (cfg : SunxiPwmConfig) (sel : Channel)
    (dutyNs periodNs : Int) (regs : Regs) :
    SameGates regs (sunxiPwmConfigSingle cfg sel dutyNs periodNs regs) := by
  have hcycles : ∀ clk regs₁, SameGates regs regs₁ → SameGates regs
      (writeCycles sel (searchDividers clk periodNs)
        (activeCycles (searchDividers clk periodNs).entireCycles dutyNs
          periodNs) regs₁) := fun clk regs₁ h =>
    h.trans (sameGates_writeCycles sel _ (searchDividers_divM_lt clk periodNs) _)
  unfold sunxiPwmConfigSingle
  split_ifs
  · exact (sameGates_bypass regs sel).trans (sameGates_source _ sel (by decide))
  · exact hcycles _ _ (sameGates_selectClock cfg sel (by decide) regs)
  · exact hcycles _ _ (sameGates_selectClock cfg sel (by decide) regs)
  · exact hcycles _ _ (SameGates.refl regs)

/-! ## Enable and disable -/

/-- What a call does: it keeps everything, or it sets the bit of its channel and
the gate. -/
theorem enableSingle_gates (l : PinLookups) (sel : Channel) (regs : Regs) :
    (sunxiPwmEnableSingle l sel regs).1 = regs ∨
      (∀ o, gateOn (sunxiPwmEnableSingle l sel regs).1 o =
          (decide (getPccrRegOffset o = getPccrRegOffset sel) || gateOn regs o)) ∧
        ∀ i < 32, ((sunxiPwmEnableSingle l sel regs).1 pwmPer).getLsbD i =
          (decide (i = sel.val) || (regs pwmPer).getLsbD i) := by
  unfold sunxiPwmEnableSingle
  split_ifs
  · exact Or.inl rfl
  · exact Or.inl rfl
  · exact Or.inl rfl
  · refine Or.inr ⟨fun o => ?_, fun i hi => ?_⟩
    · have hgate : gateOn (writeField regs (getPccrRegOffset sel)
          pwmClkGatingShift 1 1) o = if getPccrRegOffset o = getPccrRegOffset sel
            then true else gateOn regs o := gateOn_writeGate true
      rw [gateOn_writePer, hgate]
      by_cases hsame : getPccrRegOffset o = getPccrRegOffset sel <;> simp [hsame]
    · have hbit : (writeField (writeField regs (getPccrRegOffset sel)
          pwmClkGatingShift 1 1) pwmPer sel 1 1 pwmPer).getLsbD i =
          if i = sel.val then true else (writeField regs (getPccrRegOffset sel)
            pwmClkGatingShift 1 1 pwmPer).getLsbD i := perBit_write true hi
      rw [hbit, writeField_of_ne _ _ _ _ (pccr_ne_per sel).symm]
      by_cases heq : i = sel.val <;> simp [heq]

/-- Two channels use a gate when their numbers are in one pair. -/
theorem shares_iff : getPccrRegOffset o = getPccrRegOffset sel ↔
    o.val / 2 = sel.val / 2 := by
  revert o sel
  decide

/-- The two bits of a pair are clear when all channels of the gate are off. -/
theorem pair_clear_iff (hspare : (regs pwmPer).getLsbD 9 = false)
    (sel : Channel) : getBits (sel / 2 * 2) 2 (regs pwmPer) = 0 ↔
      ∀ o, getPccrRegOffset o = getPccrRegOffset sel →
        channelOn regs o = false := by
  have hread : ∀ i, (getBits (sel / 2 * 2) 2 (regs pwmPer)).getLsbD i =
      (decide (i < 2) && (regs pwmPer).getLsbD (sel / 2 * 2 + i)) := by
    intro i
    rw [getBits_eq, BitField.getLsbD_get (by decide)]
  constructor
  · intro hzero o hshare
    have hpair := shares_iff.mp hshare
    have hbit := hread (o.val - sel.val / 2 * 2)
    rw [hzero, show (0 : BitVec 32) = 0#32 from rfl, BitVec.getLsbD_zero,
      decide_eq_true (by omega), Bool.true_and] at hbit
    rw [show sel.val / 2 * 2 + (o.val - sel.val / 2 * 2) = o.val by omega] at hbit
    exact hbit.symm
  · intro hoff
    apply BitVec.eq_of_getLsbD_eq
    intro i hi
    rw [hread, show (0 : BitVec 32) = 0#32 from rfl, BitVec.getLsbD_zero]
    by_cases hlt : i < 2
    · have hbit : (regs pwmPer).getLsbD (sel.val / 2 * 2 + i) = false := by
        by_cases hchannel : sel.val / 2 * 2 + i < 9
        · exact hoff ⟨sel.val / 2 * 2 + i, hchannel⟩ (shares_iff.mpr (by
            show (sel.val / 2 * 2 + i) / 2 = sel.val / 2
            omega))
        · rw [show sel.val / 2 * 2 + i = 9 by omega]
          exact hspare
      rw [hbit, Bool.and_false]
    · simp [hlt]

theorem perBit_clear {i : Nat} (regs : Regs) (sel : Channel) (hi : i < 32) :
    (writeField regs pwmPer sel 0x1 0 pwmPer).getLsbD i =
      (!decide (i = sel.val) && (regs pwmPer).getLsbD i) := by
  have hbit : (writeField regs pwmPer sel 0x1 0 pwmPer).getLsbD i =
      if i = sel.val then false else (regs pwmPer).getLsbD i :=
    perBit_write false hi
  rw [hbit]
  by_cases heq : i = sel.val <;> simp [heq]

/-- The test of a disable, behind the write of its bit: no other channel of the
gate is on. -/
theorem lastOff_iff (hspare : (regs pwmPer).getLsbD 9 = false) (sel : Channel) :
    getBits (sel / 2 * 2) 2 (writeField regs pwmPer sel 0x1 0 pwmPer) = 0 ↔
      ∀ o, getPccrRegOffset o = getPccrRegOffset sel → o ≠ sel →
        channelOn regs o = false := by
  have hspare' : (writeField regs pwmPer sel 0x1 0 pwmPer).getLsbD 9 = false := by
    rw [perBit_clear regs sel (by decide), hspare, Bool.and_false]
  rw [pair_clear_iff hspare']
  refine forall₂_congr fun o _ => ?_
  unfold channelOn
  rw [perBit_clear regs sel (by omega)]
  by_cases heq : o = sel
  · simp [heq]
  · have hval : o.val ≠ sel.val := fun h => heq (Fin.ext h)
    simp [heq, hval]

/-- What a disable does: it keeps everything, or it clears the bit of its
channel, and the gate when no channel of the gate is left. -/
theorem disableSingle_gates (hspare : (regs pwmPer).getLsbD 9 = false)
    (l : PinLookups) (sel : Channel) :
    sunxiPwmDisableSingle l sel regs = regs ∨
      (∀ i < 32, (sunxiPwmDisableSingle l sel regs pwmPer).getLsbD i =
          (!decide (i = sel.val) && (regs pwmPer).getLsbD i)) ∧
        ∀ o, gateOn (sunxiPwmDisableSingle l sel regs) o =
          if getPccrRegOffset o = getPccrRegOffset sel ∧
              ∀ o', getPccrRegOffset o' = getPccrRegOffset sel → o' ≠ sel →
                channelOn regs o' = false
          then false else gateOn regs o := by
  unfold sunxiPwmDisableSingle
  by_cases hlookup : l.phandle = false ∨ l.device = false
  · rw [if_pos hlookup]
    exact Or.inl rfl
  rw [if_neg hlookup]
  dsimp only
  refine Or.inr ?_
  by_cases hclear : getBits (sel / 2 * 2) 2
      (writeField regs pwmPer sel 0x1 0 pwmPer) = 0
  · rw [if_pos hclear]
    refine ⟨fun i hi => ?_, fun o => ?_⟩
    · rw [writeField_of_ne _ _ _ _ (pccr_ne_per sel).symm]
      exact perBit_clear regs sel hi
    · have hclosed : gateOn (writeField (writeField regs pwmPer sel 0x1 0)
          (getPccrRegOffset sel) pwmClkGatingShift 0x1 0) o =
          if getPccrRegOffset o = getPccrRegOffset sel then false
          else gateOn (writeField regs pwmPer sel 0x1 0) o :=
        gateOn_writeGate false
      rw [hclosed, gateOn_writePer]
      have hothers := (lastOff_iff hspare sel).mp hclear
      by_cases hshare : getPccrRegOffset o = getPccrRegOffset sel
      · rw [if_pos hshare, if_pos ⟨hshare, hothers⟩]
      · rw [if_neg hshare, if_neg fun h => hshare h.1]
  · rw [if_neg hclear]
    refine ⟨fun i hi => perBit_clear regs sel hi, fun o => ?_⟩
    rw [gateOn_writePer,
      if_neg fun h => hclear ((lastOff_iff hspare sel).mpr h.2)]

/-! ## Every run -/

theorem GateInv.enable (h : GateInv regs) (l : PinLookups) (sel : Channel) :
    GateInv (sunxiPwmEnableSingle l sel regs).1 := by
  rcases enableSingle_gates l sel regs with hsame | ⟨hgate, hper⟩
  · rwa [hsame]
  · have hon : ∀ o, channelOn (sunxiPwmEnableSingle l sel regs).1 o =
        (decide (o = sel) || channelOn regs o) := by
      intro o
      unfold channelOn
      rw [hper o (by omega)]
      simp only [Fin.ext_iff]
    refine ⟨fun o => ?_, ?_⟩
    · simp only [hgate, hon, Bool.or_eq_true, decide_eq_true_eq, h.follow o]
      constructor
      · intro hor
        rcases hor with hshare | hother
        · exact ⟨sel, hshare.symm, Or.inl rfl⟩
        · obtain ⟨o', hshare, hon'⟩ := hother
          exact ⟨o', hshare, Or.inr hon'⟩
      · intro hex
        obtain ⟨o', hshare, hor⟩ := hex
        rcases hor with heq | hon'
        · rw [heq] at hshare
          exact Or.inl hshare.symm
        · exact Or.inr ⟨o', hshare, hon'⟩
    · have hne : (9 : Nat) ≠ sel.val := by omega
      rw [hper 9 (by decide), h.spare, decide_eq_false hne, Bool.or_false]

theorem GateInv.disable (h : GateInv regs) (l : PinLookups) (sel : Channel) :
    GateInv (sunxiPwmDisableSingle l sel regs) := by
  rcases disableSingle_gates h.spare l sel with hsame | ⟨hper, hgate⟩
  · rwa [hsame]
  · have hon : ∀ o, channelOn (sunxiPwmDisableSingle l sel regs) o =
        (!decide (o = sel) && channelOn regs o) := by
      intro o
      unfold channelOn
      rw [hper o (by omega)]
      simp only [Fin.ext_iff]
    refine ⟨fun o => ?_, by rw [hper 9 (by decide), h.spare, Bool.and_false]⟩
    rw [hgate]
    simp only [hon, Bool.and_eq_true, Bool.not_eq_true', decide_eq_false_iff_not]
    split_ifs with hclosed
    · refine ⟨fun hfalse => (by cases hfalse), fun hex => ?_⟩
      obtain ⟨o', hshare, hne, hon'⟩ := hex
      rw [hclosed.2 o' (hshare.trans hclosed.1) hne] at hon'
      cases hon'
    · rw [h.follow o]
      constructor
      · intro hex
        obtain ⟨o', hshare, hon'⟩ := hex
        by_cases heq : o' = sel
        · -- the gate stays open for a neighbour of the channel
          rw [heq] at hshare
          have hleft : ∃ o', getPccrRegOffset o' = getPccrRegOffset sel ∧
              o' ≠ sel ∧ channelOn regs o' = true := by
            by_contra hnone
            refine hclosed ⟨hshare.symm, fun o' hshare' hne => ?_⟩
            by_contra htrue
            exact hnone ⟨o', hshare', hne, Bool.not_eq_false _ ▸ htrue⟩
          obtain ⟨o'', hshare'', hne, hon''⟩ := hleft
          exact ⟨o'', hshare''.trans hshare, hne, hon''⟩
        · exact ⟨o', hshare, heq, hon'⟩
      · intro hex
        obtain ⟨o', hshare, -, hon'⟩ := hex
        exact ⟨o', hshare, hon'⟩

/-- A write to a clock control register that keeps its gate. -/
theorem sameGates_clockWrite {val : BitVec 32}
    (hkeep : val.getLsbD pwmClkGatingShift = gateOn regs sel) :
    SameGates regs (Function.update regs (getPccrRegOffset sel) val) where
  gate o := by
    unfold gateOn at hkeep ⊢
    by_cases hsame : getPccrRegOffset o = getPccrRegOffset sel
    · rw [hsame, Function.update_self, hkeep]
    · rw [Function.update_of_ne hsame]
  per := Function.update_of_ne (pccr_ne_per sel).symm _ _

theorem gateStep_inv {op : GateOp} (h : GateInv regs)
    (hstep : gateStep regs op = some regs') : GateInv regs' := by
  cases op with
  | enable l sel =>
    rw [← Option.some.inj hstep]
    exact h.enable l sel
  | disable l sel =>
    rw [← Option.some.inj hstep]
    exact h.disable l sel
  | config cfg sel dutyNs periodNs =>
    rw [← Option.some.inj hstep]
    exact (sameGates_configSingle cfg sel dutyNs periodNs regs).inv h
  | polarity sel polarity =>
    rw [← Option.some.inj hstep]
    exact (SameGates.refl regs).writePcr.inv h
  | clockWrite sel val =>
    rw [gateStep] at hstep
    split_ifs at hstep with hkeep
    rw [← Option.some.inj hstep]
    exact (sameGates_clockWrite hkeep).inv h

theorem AllClear.inv (h : AllClear regs) : GateInv regs where
  follow sel := by
    unfold channelOn
    rw [h.gate, h.per]
    simp
  spare := by
    rw [h.per]
    rfl

/-- In every run a gate is open exactly when one of its channels is enabled. -/
theorem gates_follow (h : AllClear regs) (ops : List GateOp) :
    Always gateStep GatesFollow ops regs :=
  (always_of_step (fun _ _ _ hinv => gateStep_inv hinv) ops h.inv).mono
    fun _ hinv => hinv.follow

theorem gates_follow_reset : Always gateStep GatesFollow
    [.enable ⟨true, true, 0⟩ 0, .enable ⟨true, true, 0⟩ 1,
      .disable ⟨true, true, 0⟩ 0] fun _ => 0 :=
  gates_follow ⟨rfl, fun _ => by simp [gateOn]⟩ _

end LonganPi.Pwm
