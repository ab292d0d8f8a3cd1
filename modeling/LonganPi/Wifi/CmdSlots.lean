import LonganPi.Wifi.CmdSafe
import Mathlib.Data.Finset.Card
import Mathlib.Data.Finset.Option
import Mathlib.Algebra.Order.BigOperators.Group.Finset

/-!
# The 20 commands

* `cmd_slots_accounted`: until a crash a command is in use exactly when it is on the
  queue or somebody has it.  So `rwnx_cmd_malloc` finds one while not more than two
  threads are in a call.
-/

namespace LonganPi.Wifi

open CmdMgr

variable {forced : Nat → Bool} {m m' : CmdMgr} {slot s t : Nat}

/-- No command is lost. -/
def Accounted (m : CmdMgr) : Prop :=
  m.crashed = false → ∀ s, (m.cmdArray s).used = true →
    s ∈ m.cmds ∨ ∃ i, (m.hold i).slot? = some s

theorem accounted_init : Accounted rwnxCmdMgrInit := fun _ _ hs => by cases hs

namespace Accounted

theorem congr (h : Accounted m) (hhold : m'.hold = m.hold) (hcmds : m'.cmds = m.cmds)
    (harr : m'.cmdArray = m.cmdArray) (hcr : m'.crashed = m.crashed) : Accounted m' := by
  intro hcr' s hs
  rw [hhold, hcmds]
  exact h (hcr ▸ hcr') s (harr ▸ hs)

/-- A step of `i` on its command `slot`. -/
theorem of_frame (h : Accounted m) {i : Option Nat} (hf : Frame m m' i slot)
    (hbefore : ∀ s, (m.hold i).slot? = some s → s = slot)
    (hslot : m'.crashed = false → (m'.cmdArray slot).used = true →
      slot ∈ m'.cmds ∨ ∃ j, (m'.hold j).slot? = some slot) : Accounted m' := by
  intro hcr s hs
  by_cases hne : s = slot
  · rw [hne] at hs ⊢
    exact hslot hcr hs
  · rw [hf.cmd s hne] at hs
    rcases h (hf.crashed hcr) s hs with hmem | ⟨j, hj⟩
    · exact Or.inl ((hf.mem s hne).mpr hmem)
    · have hji : j ≠ i := by
        rintro rfl
        exact hne (hbefore s hj)
      refine Or.inr ⟨j, ?_⟩
      rw [hf.hold j hji]
      exact hj

theorem wakeIf (h : Accounted m) (c : Bool) : Accounted (m.wakeIf c) := by
  cases c with
  | false => exact h
  | true => exact h.congr rfl rfl rfl rfl

/-- A command that is freed need not be accounted for. -/
theorem of_freed (slot : Nat) {c : RwnxCmd} (harr : m'.cmdArray = Function.update m.cmdArray slot c)
    (hc : c.used = false) (hused : (m'.cmdArray slot).used = true) : False := by
  rw [harr, Function.update_self, hc] at hused
  cases hused

/-- A thread frees its command. -/
theorem free (h : Accounted m) (hok : CmdMgrOk m) {x y : Caller} {c : RwnxCmd}
    (hcaller : m.callers t = x) (hx : x.hold.slot? = some slot)
    (hcallers : m'.callers = Function.update m.callers t y) (hworker : m'.worker = m.worker)
    (harr : m'.cmdArray = Function.update m.cmdArray slot c) (hc : c.used = false)
    (hcmds : m'.cmds = m.cmds) (hcr : m'.crashed = m.crashed) : Accounted m' := by
  refine h.of_frame (Frame.caller t slot hcallers hworker harr (fun _ _ => by rw [hcmds])
    (fun _ _ hs => by rw [hcmds]; exact hs) fun hcr' => hcr ▸ hcr')
    (hok.holds.sole_of_caller hcaller hx).2 fun _ hused => ?_
  exact (of_freed slot harr hc hused).elim

/-- A thread puts its command on the queue. -/
theorem enqueue (h : Accounted m) (hok : CmdMgrOk m) (hcaller : m.callers t = .ready slot)
    (defer : Bool) (x : Caller) : Accounted ((m.enqueue slot defer).setCaller t x) :=
  h.of_frame (Frame.caller t slot rfl rfl (cmdArray_enqueue m slot defer)
    (fun _ hs => mem_append_singleton_of_ne hs) (fun _ _ hs => head?_append_of_head? hs) id)
    (hok.holds.sole_of_caller hcaller rfl).2
    fun _ _ => Or.inl (List.mem_append_right _ (List.mem_singleton_self slot))

/-- The command that is confirmed stays with who waits for it. -/
theorem confirm (h : Accounted m) (hok : CmdMgrOk m) (hmem : slot ∈ m.cmds)
    (hsent : m.Sent slot) : Accounted (m.confirm slot) := by
  rw [confirm_eq]
  intro hcr s hs
  by_cases hne : s = slot
  · obtain ⟨i, hi⟩ := hok.holds.owner hcr slot hmem hsent.1
    refine Or.inr ⟨i, ?_⟩
    show (m.hold i).slot? = some s
    rw [hne]
    rcases hi with hi | hi
    · rw [hi]
      rfl
    · rw [hi]
      rfl
  · have hused : (Function.update m.cmdArray slot (m.cmdArray slot).confirmed s).used = true := hs
    rw [Function.update_of_ne hne] at hused
    rcases h hcr s hused with hin | hheld
    · exact Or.inl ((List.mem_erase_of_ne hne).mpr hin)
    · exact Or.inr hheld

theorem step (h : Accounted m) (hok : CmdMgrOk m) {e : CmdEvent} (horderly : Orderly m e)
    (hstep : cmdStep forced m e = some m') : Accounted m' := by
  cases cmdMove_of_step hstep with
  | @alloc t _ _ slot _ _ _ hcaller _ =>
    refine h.of_frame (Frame.caller t slot rfl rfl rfl (fun _ _ => Iff.rfl) (fun _ _ hs => hs) id)
      (fun s hs => ?_) fun _ _ => Or.inr ⟨some t, ?_⟩
    · rw [hold_some hcaller] at hs
      cases hs
    · rw [hold_some (callers_setCaller_self ..)]
      rfl
  | down _ hcaller =>
    exact h.congr (CmdMgrOk.hold_congr hcaller rfl rfl rfl) rfl rfl rfl
  | check hcaller _ =>
    exact h.congr (CmdMgrOk.hold_congr hcaller rfl rfl rfl) rfl rfl rfl
  | @refuse t slot hcaller _ _ =>
    exact h.free hok hcaller rfl rfl rfl (CmdMgrOk.refuse_cmdArray m t slot) rfl rfl rfl
  | force hcaller _ _ _ => exact (h.enqueue hok hcaller true .idle).congr rfl rfl rfl rfl
  | defer hcaller _ _ _ _ => exact h.enqueue hok hcaller true .deferring
  | @direct t slot hcaller _ _ _ _ _ => exact h.enqueue hok hcaller false (.pushing slot)
  | pass hcaller _ =>
    rw [aicwfSetCmdTx_eq]
    exact h.congr (CmdMgrOk.hold_congr hcaller rfl rfl rfl) rfl rfl rfl
  | drop hcaller _ =>
    exact h.congr (CmdMgrOk.hold_congr hcaller rfl rfl rfl) rfl rfl rfl
  | release hcaller => exact h.free hok hcaller rfl rfl rfl rfl rfl rfl rfl
  | wake hcaller =>
    apply wakeIf
    exact h.congr (CmdMgrOk.hold_congr hcaller rfl rfl rfl) rfl rfl rfl
  | @push t slot hcaller =>
    rw [aicwfSetCmdTx_eq]
    refine h.of_frame (Frame.caller t slot rfl rfl
      (Function.update_eq_self slot m.cmdArray).symm (fun _ _ => Iff.rfl) (fun _ _ hs => hs) id)
      (hok.holds.sole_of_caller hcaller rfl).2 fun _ _ => Or.inr ⟨some t, ?_⟩
    rw [hold_some (callers_setCaller_self ..)]
    rfl
  | finish hcaller _ =>
    apply wakeIf
    exact h.free hok hcaller rfl rfl rfl rfl rfl rfl rfl
  | kill _ => exact horderly.elim
  | @timeout t slot _ =>
    intro hcr
    have hcrashed : (m.cmdTimeout slot).crashed = false := hcr
    rw [cmdTimeout_crashed] at hcrashed
    cases hcrashed
  | noCfm _ => exact h
  | cfm hcfm => exact h.confirm hok (findCfm_mem hcfm) (horderly _ hcfm)
  | work _ hworker =>
    exact h.congr (CmdMgrOk.hold_congr_worker rfl (by rw [hworker]; rfl)) rfl rfl rfl
  | stop hworker _ =>
    exact h.congr (CmdMgrOk.hold_congr_worker rfl (by rw [hworker]; rfl)) rfl rfl rfl
  | @choose slot hworker hhead _ =>
    refine h.of_frame (Frame.worker slot rfl (Function.update_eq_self slot m.cmdArray).symm
      (fun _ _ => Iff.rfl) (fun _ _ hs => hs) id) (fun s hs => ?_)
      fun _ _ => Or.inl (List.mem_of_head? hhead)
    rw [hold_none hworker] at hs
    cases hs
  | @workPush slot hworker =>
    rw [aicwfSetCmdTx_eq]
    exact h.of_frame (Frame.worker slot rfl rfl (fun _ _ => Iff.rfl) (fun _ _ hs => hs) id)
      (hok.holds.sole_of_worker hworker rfl).2 fun _ _ => Or.inr ⟨none, rfl⟩
  | @workFinish slot hworker _ =>
    exact h.of_frame (Frame.worker slot rfl rfl (fun _ _ => Iff.rfl) (fun _ _ hs => hs) id)
      (hok.holds.sole_of_worker hworker rfl).2 fun _ hused => (of_freed slot rfl rfl hused).elim
  | @workTimeout slot _ =>
    intro hcr
    have hcrashed : (m.cmdTimeout slot).crashed = false := hcr
    rw [cmdTimeout_crashed] at hcrashed
    cases hcrashed
  | usb => exact h.congr rfl rfl rfl rfl

end Accounted

/-! ## A command for every call -/

/-- The commands of the worker and of the threads `T`. -/
def heldBy (m : CmdMgr) (T : Finset Nat) : Finset Nat :=
  (Finset.insertNone T).biUnion fun i => (m.hold i).slot?.toFinset

theorem card_heldBy_le (m : CmdMgr) (T : Finset Nat) : (heldBy m T).card ≤ T.card + 1 := by
  have hle := Finset.card_biUnion_le_card_mul (Finset.insertNone T)
    (fun i => (m.hold i).slot?.toFinset) 1 fun i _ => by
      cases (m.hold i).slot? with
      | none => exact Nat.zero_le 1
      | some s => exact Nat.le_refl 1
  rw [Finset.card_insertNone, Nat.mul_one] at hle
  exact hle

theorem mem_heldBy {T : Finset Nat} (hT : ∀ t, t ∉ T → m.callers t = .idle) {i : Option Nat}
    (hi : (m.hold i).slot? = some s) : s ∈ heldBy m T := by
  refine Finset.mem_biUnion.mpr ⟨i, ?_, by rw [hi]; exact Finset.mem_singleton_self s⟩
  cases i with
  | none => exact Finset.none_mem_insertNone
  | some t =>
    refine Finset.some_mem_insertNone.mpr ?_
    by_contra hnot
    rw [hold_some (hT t hnot)] at hi
    cases hi

/-- Of 20 commands not more than 16 are on the queue. -/
theorem malloc_isSome (hok : CmdMgrOk m) (h : Accounted m) (hcr : m.crashed = false)
    {T : Finset Nat} (hcard : T.card ≤ 2) (hT : ∀ t, t ∉ T → m.callers t = .idle) :
    m.rwnxCmdMalloc.isSome = true := by
  by_contra hnone
  have hused : ∀ s, s < 20 → (m.cmdArray s).used = true := by
    intro s hs
    have hall := List.find?_eq_none.mp (Option.not_isSome_iff_eq_none.mp hnone) s
      (List.mem_range.mpr hs)
    simpa only [Bool.not_eq_true', Bool.not_eq_false] using hall
  have hsub : Finset.range 20 ⊆ m.cmds.toFinset ∪ heldBy m T := by
    intro s hs
    rcases h hcr s (hused s (Finset.mem_range.mp hs)) with hmem | ⟨i, hi⟩
    · exact Finset.mem_union_left _ (List.mem_toFinset.mpr hmem)
    · exact Finset.mem_union_right _ (mem_heldBy hT hi)
  have hle := Finset.card_le_card hsub
  have hunion := Finset.card_union_le m.cmds.toFinset (heldBy m T)
  have hqueue := m.cmds.toFinset_card_le
  have hheld := card_heldBy_le m T
  have hbound := hok.queue.bound
  rw [Finset.card_range] at hle
  omega

/-- What is promised of every state before a crash. -/
structure SlotsAccounted (m : CmdMgr) : Prop where
  used : ∀ s, (m.cmdArray s).used = true ↔ s ∈ m.cmds ∨ ∃ i, (m.hold i).slot? = some s
  malloc : ∀ T : Finset Nat, T.card ≤ 2 → (∀ t, t ∉ T → m.callers t = .idle) →
    m.rwnxCmdMalloc.isSome = true

/-- Until a crash no command is lost, in every state of every run. -/
theorem cmd_slots_accounted (forced : Nat → Bool) (es : List CmdEvent)
    (h : Transition.Guarded (cmdStep forced) Orderly es rwnxCmdMgrInit) :
    Transition.Always (cmdStep forced) (fun m => m.crashed = false → SlotsAccounted m) es
      rwnxCmdMgrInit := by
  have hok : Transition.Always (cmdStep forced) (fun m => CmdMgrOk m ∧ Accounted m) es
      rwnxCmdMgrInit :=
    Transition.always_of_guarded
      (fun _ _ _ hm hG hstep => ⟨hm.1.step hG hstep, hm.2.step hm.1 hG hstep⟩)
      ⟨cmdMgrOk_init, accounted_init⟩ h
  refine hok.mono fun m hm hcr => ⟨fun s => ⟨hm.2 hcr s, ?_⟩, fun T hcard hT =>
    malloc_isSome hm.1 hm.2 hcr hcard hT⟩
  rintro (hmem | ⟨i, hi⟩)
  · exact hm.1.holds.used hcr s hmem
  · exact (hm.1.holds.fits i).used hi

theorem cmd_slots_accounted_two :
    Transition.Always (cmdStep fun _ => false) (fun m => m.crashed = false → SlotsAccounted m)
      twoRequests rwnxCmdMgrInit :=
  cmd_slots_accounted _ _ twoRequests_orderly

end LonganPi.Wifi
