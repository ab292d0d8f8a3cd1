import LonganPi.Lib.Transition
import LonganPi.Ve.Irq

/-!
# No wait returns for an interrupt that did not happen

`credit` counts the interrupts of a channel that a wait can still return for:
the one that the value stands for, and the one that the flag stands for.
While a wait has not cleared the flag the two are the same one.  `Backed`
says that the completions and the credit are paid by interrupts, and
`irqStep_backed` that a step keeps it.

The one step that needs a condition is the look at the flag.  A close with
`ref_count` 0 sets the flag without an interrupt, and an interrupt between
the last two steps of a wait sets the flag once more for an interrupt that
the wait returns for.  `unreported` is false in both cases.
-/

namespace LonganPi.Ve

open Transition

namespace IrqChannel

/-- The interrupts that a wait can still return for. -/
def credit (ch : IrqChannel) : Nat :=
  match ch.wait with
  | none => ch.unreported.toNat
  | some (_, .cleared) => ch.irqValue.toNat + ch.unreported.toNat
  | some _ => (ch.irqValue || ch.unreported).toNat

/-- The completions so far and those to come have their interrupts. -/
def Backed (ch : IrqChannel) : Prop :=
  ch.completions + ch.credit ≤ ch.interrupts

/-- When file `f` looks at a flag that is set, the flag stands for an
interrupt of its own. -/
def sampleGuard (ch : IrqChannel) (f : Nat) : Prop :=
  ch.wait = some (f, .started) → ch.irqFlag = true → ch.irqValue = false →
    ch.unreported = true

variable {ch ch' : IrqChannel}

theorem credit_idle (ch : IrqChannel) (hwait : ch.wait = none) :
    ch.credit = ch.unreported.toNat := by
  unfold credit
  rw [hwait]

theorem credit_cleared (ch : IrqChannel) {f : Nat}
    (hwait : ch.wait = some (f, .cleared)) :
    ch.credit = ch.irqValue.toNat + ch.unreported.toNat := by
  unfold credit
  rw [hwait]

theorem credit_waiting (ch : IrqChannel) {f : Nat} {phase : WaitPhase}
    (hwait : ch.wait = some (f, phase)) (hphase : phase ≠ .cleared) :
    ch.credit = (ch.irqValue || ch.unreported).toNat := by
  unfold credit
  rw [hwait]
  cases phase with
  | cleared => exact absurd rfl hphase
  | started | sampled | ended => rfl

/-- Only the end of a wait moves the credit from one formula to another. -/
theorem wait_cases (ch : IrqChannel) :
    ch.wait = none ∨ (∃ f, ch.wait = some (f, .cleared)) ∨
      ∃ f phase, ch.wait = some (f, phase) ∧ phase ≠ .cleared := by
  rcases ch.wait with _ | ⟨f, phase⟩
  · exact Or.inl rfl
  · by_cases hphase : phase = .cleared
    · exact Or.inr (Or.inl ⟨f, by rw [hphase]⟩)
    · exact Or.inr (Or.inr ⟨f, phase, rfl, hphase⟩)

theorem toNat_le_or (a b : Bool) : a.toNat ≤ (a || b).toNat := by
  cases a with
  | false => exact Nat.zero_le _
  | true => exact Nat.le_refl 1

theorem backed_init : init.Backed := Nat.le_refl 0

/-- An open takes credit away. -/
theorem Backed.clearFlag (h : ch.Backed) : ch.clearFlag.Backed := by
  suffices hcredit : ch.clearFlag.credit ≤ ch.credit from
    Nat.le_trans (Nat.add_le_add_left hcredit _) h
  rcases wait_cases ch with hwait | ⟨f, hwait⟩ | ⟨f, phase, hwait, hphase⟩
  · rw [credit_idle ch.clearFlag hwait]
    exact Nat.zero_le _
  · rw [credit_cleared ch hwait, credit_cleared ch.clearFlag hwait]
    exact Nat.add_le_add_left (Nat.zero_le _) _
  · rw [credit_waiting ch hwait hphase,
      credit_waiting ch.clearFlag hwait hphase]
    show (ch.irqValue || false).toNat ≤ _
    rw [Bool.or_false]
    exact toNat_le_or _ _

/-- A close gives no credit. -/
theorem Backed.setFlag (h : ch.Backed) : ch.setFlag.Backed := h

/-- An interrupt pays for the credit that it gives. -/
theorem Backed.interrupt (h : ch.Backed) : ch.videoEngineInterupt.Backed := by
  suffices hcredit : ch.videoEngineInterupt.credit ≤ ch.credit + 1 by
    show ch.completions + ch.videoEngineInterupt.credit ≤ ch.interrupts + 1
    unfold Backed at h
    omega
  rcases wait_cases ch with hwait | ⟨f, hwait⟩ | ⟨f, phase, hwait, hphase⟩
  · rw [credit_idle ch.videoEngineInterupt hwait]
    have := Bool.toNat_le ch.videoEngineInterupt.unreported
    omega
  · -- The value or the flag takes the interrupt, not both.
    rw [credit_cleared ch hwait,
      credit_cleared ch.videoEngineInterupt hwait]
    have hlate : ch.lateInterrupt = !ch.irqValue := by
      unfold lateInterrupt
      rw [hwait]
    show 1 + (if ch.lateInterrupt then ch.unreported else true).toNat ≤ _
    rw [hlate]
    cases ch.irqValue with
    | false =>
      show 1 + ch.unreported.toNat ≤ 0 + ch.unreported.toNat + 1
      omega
    | true =>
      show 1 + 1 ≤ 1 + ch.unreported.toNat + 1
      omega
  · rw [credit_waiting ch.videoEngineInterupt hwait hphase]
    show (true || _).toNat ≤ ch.credit + 1
    simp

/-- A step of a wait uses the credit that is there. -/
theorem Backed.waitStep (h : ch.Backed) {f : Nat} {timedOut : Bool}
    (hguard : ch.sampleGuard f) (hstep : ch.waitStep f timedOut = some ch') :
    ch'.Backed := by
  unfold IrqChannel.waitStep at hstep
  cases hwait : ch.wait with
  | none =>
    rw [hwait] at hstep
    obtain rfl := Option.some.inj hstep
    unfold Backed at h
    rw [credit_idle ch hwait] at h
    exact h
  | some w =>
    rcases w with ⟨g, phase⟩
    simp only [hwait] at hstep
    by_cases hgf : g = f
    case neg =>
      rw [if_pos hgf] at hstep
      cases hstep
    subst hgf
    rw [if_neg (fun hne => hne rfl)] at hstep
    unfold Backed at h
    cases phase with
    | started =>
      obtain rfl := Option.some.inj hstep
      rw [credit_waiting ch hwait (by decide)] at h
      show ch.completions + ((if ch.irqFlag then true else ch.irqValue)
        || ch.unreported).toNat ≤ ch.interrupts
      by_cases hsame : ch.irqFlag = true ∧ ch.irqValue = false
      · have hback := hguard hwait hsame.1 hsame.2
        rw [hsame.2, hback] at h
        rw [hback, Bool.or_true]
        exact h
      · have hvalue : (if ch.irqFlag then true else ch.irqValue)
            = ch.irqValue := by
          revert hsame
          cases ch.irqFlag <;> cases ch.irqValue <;> decide
        rwa [hvalue]
    | sampled =>
      dsimp only at hstep
      split_ifs at hstep with hflag
      obtain rfl := Option.some.inj hstep
      rw [credit_waiting ch hwait (by decide)] at h
      exact h
    | ended =>
      obtain rfl := Option.some.inj hstep
      rw [credit_waiting ch hwait (by decide)] at h
      show ch.completions + ch.irqValue.toNat ≤ ch.interrupts
      have hle := toNat_le_or ch.irqValue ch.unreported
      omega
    | cleared =>
      obtain rfl := Option.some.inj hstep
      rw [credit_cleared ch hwait] at h
      show ch.completions + ch.irqValue.toNat + ch.unreported.toNat
        ≤ ch.interrupts
      omega

end IrqChannel

/-! ## Runs -/

/-- At most as many waits returned 1 as there were interrupts. -/
def NoSpurious (s : VeIrq) : Prop :=
  ∀ c, (s.chan c).completions ≤ (s.chan c).interrupts

/-- The condition on a step: a wait that finds the flag set while its value
is 0 finds it set by an interrupt that no wait returned for. -/
def irqGuard (s : VeIrq) : IrqOp → Prop
  | .wait f c _ => (s.chan c).sampleGuard f
  | _ => True

variable {soc : Soc} {s s' : VeIrq}

theorem irqStep_backed {op : IrqOp} (h : ∀ c, (s.chan c).Backed)
    (hguard : irqGuard s op) (hstep : irqStep soc s op = some s') :
    ∀ c, (s'.chan c).Backed := by
  have hupdate : ∀ {c ch}, ch.Backed →
      ∀ d, (Function.update s.chan c ch d).Backed := by
    intro c ch hch d
    by_cases hdc : d = c
    · rw [hdc, Function.update_self]
      exact hch
    · rw [Function.update_of_ne hdc]
      exact h d
  unfold irqStep at hstep
  cases op with
  | openFile f kmallocOk interrupted =>
    dsimp only at hstep
    split_ifs at hstep
    obtain rfl := Option.some.inj hstep
    intro c
    unfold VeIrq.cedardevOpen
    split_ifs
    · exact h c
    · exact h c
    · exact h c
    · exact (h c).clearFlag
    · exact h c
  | closeFile f interrupted =>
    dsimp only at hstep
    split_ifs at hstep
    obtain rfl := Option.some.inj hstep
    intro c
    unfold VeIrq.cedardevRelease
    dsimp only
    split_ifs
    · exact h c
    · exact (h c).setFlag
    · exact h c
  | req f ok interrupted =>
    dsimp only at hstep
    split_ifs at hstep
    obtain rfl := Option.some.inj hstep
    exact h
  | rel f interrupted =>
    dsimp only at hstep
    split_ifs at hstep
    obtain rfl := Option.some.inj hstep
    exact h
  | wait f c timedOut =>
    dsimp only at hstep
    split_ifs at hstep
    cases hwait : (s.chan c).waitStep f timedOut with
    | none =>
      rw [hwait] at hstep
      cases hstep
    | some ch =>
      rw [hwait] at hstep
      obtain rfl := Option.some.inj hstep
      exact hupdate ((h c).waitStep hguard hwait)
  | interrupt c =>
    obtain rfl := Option.some.inj hstep
    exact hupdate (h c).interrupt

/-- In every run whose waits meet the condition, no codec has more
completions than interrupts in any state. -/
theorem noSpurious_of_guarded (soc : Soc) (ops : List IrqOp)
    (h : Guarded (irqStep soc) irqGuard ops VeIrq.init) :
    Always (irqStep soc) NoSpurious ops VeIrq.init := by
  have hbacked : Always (irqStep soc) (fun s => ∀ c, (s.chan c).Backed) ops
      VeIrq.init :=
    always_of_guarded
      (fun _ _ _ hs hguard hstep => irqStep_backed hs hguard hstep)
      (fun _ => IrqChannel.backed_init) h
  refine hbacked.mono fun s hs c => ?_
  have := hs c
  unfold IrqChannel.Backed at this
  omega

/-- The steps of a wait in a row change one channel. -/
theorem run_wait {f : Nat} (c : Codec) (hfile : s.files f = true)
    (ends : List Bool) :
    run (irqStep soc) (ends.map (.wait f c)) s
      = (run (fun ch => ch.waitStep f) ends (s.chan c)).map fun ch =>
          { s with chan := Function.update s.chan c ch } := by
  induction ends generalizing s with
  | nil =>
    show some s = some { s with chan := _ }
    rw [Function.update_eq_self]
  | cons timedOut ends ih =>
    have hstep : irqStep soc s (.wait f c timedOut)
        = ((s.chan c).waitStep f timedOut).map fun ch =>
            { s with chan := Function.update s.chan c ch } := by
      simp only [irqStep, hfile, if_true]
      cases (s.chan c).waitStep f timedOut <;> rfl
    rw [List.map_cons]
    unfold run
    rw [hstep]
    cases (s.chan c).waitStep f timedOut with
    | none => rfl
    | some ch =>
      show run (irqStep soc) _ { s with chan := _ } = _
      rw [ih (s := { s with chan := Function.update s.chan c ch }) hfile]
      simp only [Function.update_self, Function.update_idem]

/-- The condition cannot be dropped: a wait that does not meet it returns 1,
and when no interrupt is left over that is one completion too many. -/
theorem spurious_of_not_guarded {f : Nat} {c : Codec} {timedOut : Bool}
    (hfile : s.files f = true) (hguard : ¬ irqGuard s (.wait f c timedOut))
    (hleft : (s.chan c).interrupts ≤ (s.chan c).completions) :
    ∃ s', run (irqStep soc) ([true, true, true, true].map (.wait f c)) s
        = some s' ∧ ¬ NoSpurious s' := by
  have hsample : (s.chan c).wait = some (f, .started) ∧
      (s.chan c).irqFlag = true := by
    by_contra hnot
    exact hguard fun hwait hflag => absurd ⟨hwait, hflag⟩ hnot
  have hchan : run (fun ch => ch.waitStep f) [true, true, true, true]
      (s.chan c) = some { s.chan c with
        irqFlag := false
        irqValue := true
        wait := none
        completions := (s.chan c).completions + 1
        unreported := false } := by
    simp [run, IrqChannel.waitStep, IrqChannel.clearFlag, hsample.1, hsample.2]
  rw [run_wait c hfile, hchan]
  refine ⟨_, rfl, fun h => ?_⟩
  have hlaw := h c
  simp only [Function.update_self] at hlaw
  omega

-- One interrupt between the last two steps of a wait that timed out: this
-- wait returns for it, and so does the next one.
example : (run (irqStep .other) [.openFile 0 true false, .wait 0 .de false,
    .wait 0 .de false, .wait 0 .de true, .wait 0 .de false, .interrupt .de,
    .wait 0 .de false, .wait 0 .de false, .wait 0 .de false,
    .wait 0 .de false, .wait 0 .de false, .wait 0 .de false]
    VeIrq.init).map
      (fun s => ((s.chan .de).completions, (s.chan .de).interrupts))
    = some (2, 1) := by rfl

/-- A wait that finds its interrupt in the flag. -/
theorem noSpurious_wait : Always (irqStep .other) NoSpurious
    [.openFile 0 true false, .interrupt .de, .wait 0 .de false,
      .wait 0 .de false, .wait 0 .de false, .wait 0 .de false,
      .wait 0 .de false] VeIrq.init := by
  refine noSpurious_of_guarded _ _ ?_
  have hidle : ∀ {ch : IrqChannel} {f g : Nat} {phase : WaitPhase},
      ch.wait = some (g, phase) → phase ≠ .started → ch.sampleGuard f := by
    intro ch f g phase hwait hphase hstarted
    rw [hwait] at hstarted
    cases hstarted
    exact absurd rfl hphase
  refine .cons rfl trivial (.cons rfl trivial (.cons rfl ?_ (.cons rfl ?_
    (.cons rfl ?_ (.cons rfl ?_ (.cons rfl ?_ trivial))))))
  · intro hwait
    cases hwait
  · exact fun _ _ _ => rfl
  · exact hidle rfl (by decide)
  · exact hidle rfl (by decide)
  · exact hidle rfl (by decide)

/-- A close of another file leaves the flag set, and the next wait returns 1
without an interrupt. -/
theorem close_spurious : ¬ Always (irqStep .other) NoSpurious
    [.openFile 0 true false, .openFile 1 true false, .closeFile 0 false,
      .req 1 (fun _ => true) false, .wait 1 .de false, .wait 1 .de false,
      .wait 1 .de false, .wait 1 .de false, .wait 1 .de false]
    VeIrq.init := by
  intro h
  have hlast := h.of_run rfl .de
  revert hlast
  decide

end LonganPi.Ve
