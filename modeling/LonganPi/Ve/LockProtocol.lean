import LonganPi.Lib.Transition
import LonganPi.Ve.Locks

/-!
# Lock flags and mutexes

A lock is kept twice: as a bit in the `lock_flags` of a file and as the
owner of a mutex.  `LockAgrees l` says that the two agree for the lock `l`,
and that no file ever unlocked the mutex of another.

The ioctls select the mutex by comparing the whole argument and change the
flags with every bit of it.  So an argument with several bits, or with the
bit of `lock_proc`, changes a bit without its mutex.  `lockGuard l` is the
condition on a call under which that does not happen to `l`, and
`step_agrees_iff` says that it is exact.  The run theorems follow by
`Transition.always_iff_guarded`.
-/

namespace LonganPi.Ve

open Transition

variable {s : Cedar} {l : VeLock} {f : Nat} {flags flags' : BitVec 32}

/-! ## Bits of the flags -/

/-- The bit of the lock is set. -/
def HasLock (flags : BitVec 32) (l : VeLock) : Prop := flags &&& l.type ≠ 0

instance (flags : BitVec 32) (l : VeLock) : Decidable (HasLock flags l) :=
  inferInstanceAs (Decidable (¬ _ = _))

/-- The position of the bit. -/
private def VeLock.bit : VeLock → Nat
  | .vdec => 0
  | .venc => 1
  | .jdec => 2
  | .reg00 => 3
  | .reg04 => 4
  | .procInfo => 12

private theorem hasLock_iff : HasLock flags l ↔ flags.getLsbD l.bit = true := by
  have htype : l.type = BitVec.twoPow 32 l.bit := by cases l <;> decide
  have hne : BitVec.twoPow 32 l.bit ≠ 0 := by cases l <;> decide
  unfold HasLock
  rw [htype, BitVec.and_twoPow]
  cases flags.getLsbD l.bit with
  | true => simpa using hne
  | false => simp

theorem hasLock_or :
    HasLock (flags ||| flags') l ↔ HasLock flags l ∨ HasLock flags' l := by
  simp [hasLock_iff]

theorem hasLock_andNot :
    HasLock (flags &&& ~~~flags') l ↔ HasLock flags l ∧ ¬ HasLock flags' l := by
  have hbit : l.bit < 32 := by cases l <;> decide
  simp [hasLock_iff, hbit]

/-- A call whose argument and flags share the bit of the lock. -/
theorem hasLock_and :
    flags &&& flags' &&& l.type ≠ 0 ↔ HasLock flags l ∧ HasLock flags' l := by
  show HasLock (flags &&& flags') l ↔ _
  simp [hasLock_iff]

theorem not_hasLock_zero : ¬ HasLock 0 l := by cases l <;> decide

theorem hasLock_type {l' : VeLock} : HasLock l'.type l ↔ l' = l := by
  cases l <;> cases l' <;> decide

/-- The lock that an argument selects is the only one whose bit it has. -/
theorem selectLock_eq_some {lockType : BitVec 32} {l' : VeLock}
    (h : selectLock lockType = some l') : lockType = l'.type := by
  unfold selectLock at h
  split_ifs at h with h₁ h₂ h₃ h₄ h₅ <;> cases h <;> assumption

/-! ## Agreement -/

/-- The flags of the files and the mutex of the lock agree. -/
structure LockAgrees (l : VeLock) (s : Cedar) : Prop where
  /-- The bit is set for the holder, and for no other file. -/
  flag_iff : ∀ f flags, s.files f = some flags →
    (HasLock flags l ↔ s.holder l = some f)
  /-- The holder is an open file, so it can give the lock back. -/
  holder_open : ∀ f, s.holder l = some f → ∃ flags, s.files f = some flags
  /-- Only the holder ever unlocked the mutex. -/
  no_wild : s.wildUnlock l = false

/-- Agreement is about the files and the mutex of the lock. -/
theorem LockAgrees.congr {s' : Cedar} (hfiles : s'.files = s.files)
    (hholder : s'.holder l = s.holder l)
    (hwild : s'.wildUnlock l = s.wildUnlock l) :
    LockAgrees l s' ↔ LockAgrees l s := by
  constructor
  · intro hboth
    obtain ⟨h₁, h₂, h₃⟩ := hboth
    rw [hfiles, hholder] at h₁ h₂
    exact ⟨h₁, h₂, hwild ▸ h₃⟩
  · intro hboth
    obtain ⟨h₁, h₂, h₃⟩ := hboth
    rw [← hfiles, ← hholder] at h₁ h₂
    exact ⟨h₁, h₂, hwild ▸ h₃⟩

theorem lockAgrees_init (debugRoot : Bool) :
    LockAgrees l (Cedar.init debugRoot) where
  flag_iff _ _ h := by simp [Cedar.init] at h
  holder_open _ h := by simp [Cedar.init] at h
  no_wild := rfl

/-- Changing the flags of a file without the mutex keeps the agreement
exactly when the bit stays. -/
theorem agrees_setFlags (h : LockAgrees l s) (hf : s.files f = some flags) :
    LockAgrees l (s.setFlags f flags') ↔
      (HasLock flags' l ↔ HasLock flags l) := by
  have hself : (s.setFlags f flags').files f = some flags' :=
    Function.update_self ..
  rw [h.flag_iff f flags hf]
  constructor
  · intro h'
    exact h'.flag_iff f flags' hself
  · intro hbit
    refine ⟨fun g gflags hg => ?_, fun g hg => ?_, h.no_wild⟩
    · by_cases hgf : g = f
      · rw [hgf, hself] at hg
        rw [hgf, ← Option.some.inj hg]
        exact hbit
      · have hg' : s.files g = some gflags := by
          rw [← hg]
          exact (Function.update_of_ne hgf ..).symm
        exact h.flag_iff g gflags hg'
    · by_cases hgf : g = f
      · exact ⟨flags', hgf ▸ hself⟩
      · obtain ⟨gflags, hg'⟩ := h.holder_open g hg
        exact ⟨gflags, (Function.update_of_ne hgf ..).trans hg'⟩

/-- A mutex that could be taken was free. -/
theorem mutexLock_eq_some {s' : Cedar} {l' : VeLock}
    (h : s.mutexLock f l' = some s') :
    s.holder l' = none ∧
      s' = { s with holder := Function.update s.holder l' (some f) } := by
  unfold Cedar.mutexLock at h
  cases hfree : s.holder l' with
  | some g =>
    rw [hfree] at h
    cases h
  | none =>
    rw [hfree] at h
    exact ⟨rfl, (Option.some.inj h).symm⟩

/-- Taking the mutex agrees exactly when the bit is set with it. -/
theorem agrees_lock {s' : Cedar} (h : LockAgrees l s)
    (hf : s.files f = some flags) (hlock : s.mutexLock f l = some s') :
    LockAgrees l (s'.setFlags f flags') ↔ HasLock flags' l := by
  obtain ⟨hfree, rfl⟩ := mutexLock_eq_some hlock
  have hself : Function.update s.files f (some flags') f = some flags' :=
    Function.update_self ..
  have hholder : Function.update s.holder l (some f) l = some f :=
    Function.update_self ..
  constructor
  · intro h'
    exact (h'.flag_iff f flags' hself).mpr hholder
  · intro hbit
    refine ⟨fun g gflags hg => ?_, fun g hg => ?_, h.no_wild⟩
    · show HasLock gflags l ↔ Function.update s.holder l (some f) l = some g
      rw [hholder]
      by_cases hgf : g = f
      · subst hgf
        replace hg : Function.update s.files g (some flags') g
          = some gflags := hg
        rw [hself] at hg
        rw [← Option.some.inj hg]
        exact ⟨fun _ => rfl, fun _ => hbit⟩
      · have hg' : s.files g = some gflags :=
          (Function.update_of_ne hgf ..).symm.trans hg
        -- The mutex was free, so no other file has the bit.
        have hnot : ¬ HasLock gflags l := by
          rw [h.flag_iff g gflags hg', hfree]
          exact fun hc => by cases hc
        exact ⟨fun hc => absurd hc hnot,
          fun hc => absurd (Option.some.inj hc).symm hgf⟩
    · replace hg : Function.update s.holder l (some f) l = some g := hg
      rw [hholder] at hg
      exact ⟨flags', by rw [← Option.some.inj hg]; exact hself⟩

/-- Giving the mutex back agrees exactly when the file held it and its bit
is cleared with it. -/
theorem agrees_unlock (h : LockAgrees l s) (hf : s.files f = some flags) :
    LockAgrees l ((s.setFlags f flags').mutexUnlock f l) ↔
      HasLock flags l ∧ ¬ HasLock flags' l := by
  have hself : Function.update s.files f (some flags') f = some flags' :=
    Function.update_self ..
  have hholder : Function.update s.holder l none l = none :=
    Function.update_self ..
  rw [h.flag_iff f flags hf]
  constructor
  · intro h'
    have hwild : Function.update s.wildUnlock l
        (s.wildUnlock l || decide (s.holder l ≠ some f)) l = false :=
      h'.no_wild
    rw [Function.update_self, h.no_wild, Bool.false_or,
      decide_eq_false_iff_not, not_not] at hwild
    refine ⟨hwild, fun hbit => ?_⟩
    have := (h'.flag_iff f flags' hself).mp hbit
    rw [show ((s.setFlags f flags').mutexUnlock f l).holder l = none from
      hholder] at this
    cases this
  · intro hboth
    obtain ⟨hheld, hbit⟩ := hboth
    refine ⟨fun g gflags hg => ?_, fun g hg => ?_, ?_⟩
    · show HasLock gflags l ↔ Function.update s.holder l none l = some g
      rw [hholder]
      refine ⟨fun hc => ?_, fun hc => by cases hc⟩
      exfalso
      by_cases hgf : g = f
      · subst hgf
        replace hg : Function.update s.files g (some flags') g
          = some gflags := hg
        rw [hself] at hg
        rw [← Option.some.inj hg] at hc
        exact hbit hc
      · have hg' : s.files g = some gflags :=
          (Function.update_of_ne hgf ..).symm.trans hg
        have hother := (h.flag_iff g gflags hg').mp hc
        rw [hheld] at hother
        exact hgf (Option.some.inj hother).symm
    · rw [show ((s.setFlags f flags').mutexUnlock f l).holder l = none from
        hholder] at hg
      cases hg
    · show Function.update s.wildUnlock l
        (s.wildUnlock l || decide (s.holder l ≠ some f)) l = false
      rw [Function.update_self, h.no_wild, hheld]
      simp

/-! ## What each call does to the agreement -/

/-- The condition on a call under which the lock stays in step with its
mutex. -/
def lockGuard (l : VeLock) (s : Cedar) : Op → Prop
  | .getLock f arg => HasLock arg l → selectLock arg = some l ∨
      ∃ flags, s.files f = some flags ∧ HasLock flags l
  | .releaseLock f arg => ∀ flags, s.files f = some flags →
      HasLock flags l → HasLock arg l → selectLock arg = some l
  | .copyProcInfo f _ => l = .procInfo → s.debugRoot = true →
      ∃ flags, s.files f = some flags ∧ HasLock flags l
  | _ => True

/-- Taking another mutex is not seen by this lock. -/
theorem agrees_lock_other {s' : Cedar} {l' : VeLock} (hne : l ≠ l')
    (h : s.mutexLock f l' = some s') :
    LockAgrees l (s'.setFlags f flags') ↔
      LockAgrees l (s.setFlags f flags') := by
  obtain ⟨-, rfl⟩ := mutexLock_eq_some h
  exact LockAgrees.congr rfl (Function.update_of_ne hne ..) rfl

/-- Giving another mutex back is not seen by this lock. -/
theorem agrees_unlock_other {l' : VeLock} (hne : l ≠ l') :
    LockAgrees l (s.mutexUnlock f l') ↔ LockAgrees l s :=
  LockAgrees.congr rfl (Function.update_of_ne hne ..)
    (Function.update_of_ne hne ..)

/-- Taking a mutex and giving it back at once is not seen by any lock. -/
theorem agrees_lock_unlock {s' : Cedar} {l' : VeLock}
    (h : s.mutexLock f l' = some s') :
    LockAgrees l (s'.mutexUnlock f l') ↔ LockAgrees l s := by
  obtain ⟨hfree, rfl⟩ := mutexLock_eq_some h
  by_cases hl : l = l'
  · subst hl
    refine LockAgrees.congr rfl ?_ ?_
    · show Function.update (Function.update s.holder l (some f)) l none l
        = s.holder l
      rw [Function.update_self, hfree]
    · show Function.update s.wildUnlock l (s.wildUnlock l || decide
        (Function.update s.holder l (some f) l ≠ some f)) l = _
      simp
  · rw [agrees_unlock_other hl]
    exact LockAgrees.congr rfl (Function.update_of_ne hl ..) rfl

theorem agrees_getLock {s' : Cedar} {arg : BitVec 32} (h : LockAgrees l s)
    (hf : s.files f = some flags)
    (hstep : ioctlGetLock s f flags arg = some s') :
    LockAgrees l s' ↔ lockGuard l s (.getLock f arg) := by
  have hguard : lockGuard l s (.getLock f arg) ↔
      (HasLock arg l → selectLock arg = some l ∨ HasLock flags l) := by
    simp only [lockGuard, hf, Option.some.injEq, exists_eq_left']
  have hkeep : (HasLock (flags ||| arg) l ↔ HasLock flags l) ↔
      (HasLock arg l → HasLock flags l) := by
    rw [hasLock_or]
    exact or_iff_left_iff_imp
  rw [hguard]
  unfold ioctlGetLock at hstep
  cases hsel : selectLock arg with
  | none =>
    rw [hsel] at hstep
    obtain rfl := Option.some.inj hstep
    rw [agrees_setFlags h hf, hkeep]
    simp
  | some l' =>
    simp only [hsel, bind, Option.bind] at hstep
    cases hlock : s.mutexLock f l' with
    | none =>
      rw [hlock] at hstep
      cases hstep
    | some s₁ =>
      rw [hlock] at hstep
      obtain rfl := Option.some.inj hstep
      have harg := selectLock_eq_some hsel
      by_cases hl : l = l'
      · subst hl
        rw [agrees_lock h hf hlock, hasLock_or, harg]
        have hself : HasLock l.type l := hasLock_type.mpr rfl
        exact iff_of_true (Or.inr hself) fun _ => Or.inl rfl
      · have hnot : ¬ HasLock arg l := by
          rw [harg, hasLock_type]
          exact fun hc => hl hc.symm
        rw [agrees_lock_other hl hlock, agrees_setFlags h hf, hkeep]
        exact iff_of_true (fun hc => absurd hc hnot) fun hc => absurd hc hnot

theorem agrees_releaseLock {arg : BitVec 32} (h : LockAgrees l s)
    (hf : s.files f = some flags) :
    LockAgrees l (ioctlReleaseLock s f flags arg) ↔
      lockGuard l s (.releaseLock f arg) := by
  have hguard : lockGuard l s (.releaseLock f arg) ↔
      (HasLock flags l → HasLock arg l → selectLock arg = some l) := by
    simp only [lockGuard, hf, Option.some.injEq, forall_eq']
  have hkeep : (HasLock (flags &&& ~~~arg) l ↔ HasLock flags l) ↔
      (HasLock flags l → ¬ HasLock arg l) := by
    rw [hasLock_andNot]
    exact and_iff_left_iff_imp
  rw [hguard]
  unfold ioctlReleaseLock
  by_cases hnone : flags &&& arg = 0
  · -- No bit in common: the call returns at once.
    have hnot : ¬ (HasLock flags l ∧ HasLock arg l) := by
      rw [← hasLock_and, hnone]
      simp
    rw [if_pos hnone]
    exact iff_of_true h fun hflag harg => absurd ⟨hflag, harg⟩ hnot
  · rw [if_neg hnone]
    cases hsel : selectLock arg with
    | none =>
      simp only
      rw [agrees_setFlags h hf, hkeep]
      simp
    | some l' =>
      have harg := selectLock_eq_some hsel
      simp only
      by_cases hl : l = l'
      · subst hl
        have hself : HasLock arg l := by
          rw [harg]
          exact hasLock_type.mpr rfl
        have hflag : HasLock flags l := by
          unfold HasLock
          rwa [← harg]
        rw [agrees_unlock h hf, hasLock_andNot]
        exact iff_of_true ⟨hflag, fun hc => hc.2 hself⟩ fun _ _ => rfl
      · have hnot : ¬ HasLock arg l := by
          rw [harg, hasLock_type]
          exact fun hc => hl hc.symm
        rw [agrees_unlock_other hl, agrees_setFlags h hf, hkeep]
        exact iff_of_true (fun _ => hnot) fun _ hc => absurd hc hnot

theorem agrees_setProcInfo {s' : Cedar}
    {user : Option (BitVec 8 × BitVec 32)} (h : LockAgrees l s)
    (hf : s.files f = some flags)
    (hstep : ioctlSetProcInfo s f flags user = some s') :
    LockAgrees l s' := by
  unfold ioctlSetProcInfo at hstep
  by_cases hroot : s.debugRoot = false
  · rw [if_pos hroot] at hstep
    rwa [← Option.some.inj hstep]
  · rw [if_neg hroot] at hstep
    simp only [bind, Option.bind] at hstep
    cases hlock : s.mutexLock f .procInfo with
    | none =>
      rw [hlock] at hstep
      cases hstep
    | some s₁ =>
      have hback : LockAgrees l (s₁.mutexUnlock f .procInfo) :=
        (agrees_lock_unlock hlock).mpr h
      rw [hlock] at hstep
      cases user with
      | none => rwa [← Option.some.inj hstep]
      | some arg =>
        rcases arg with ⟨channelId, procInfoLen⟩
        simp only at hstep
        split_ifs at hstep
        · rwa [← Option.some.inj hstep]
        · rw [← Option.some.inj hstep]
          -- The buffers are not part of the agreement.
          refine (LockAgrees.congr (by rfl) (by rfl) (by rfl)).mpr
            (?_ : LockAgrees l
              (s₁.setFlags f (flags ||| VeLock.type .procInfo)))
          by_cases hl : l = .procInfo
          · subst hl
            rw [agrees_lock h hf hlock, hasLock_or]
            exact Or.inr (hasLock_type.mpr rfl)
          · rw [agrees_lock_other hl hlock, agrees_setFlags h hf, hasLock_or,
              hasLock_type]
            exact ⟨fun hc => hc.resolve_right fun he => hl he.symm, Or.inl⟩

theorem agrees_copyProcInfo {copyOk : Bool} (h : LockAgrees l s)
    (hf : s.files f = some flags) :
    LockAgrees l (ioctlCopyProcInfo s f flags copyOk) ↔
      lockGuard l s (.copyProcInfo f copyOk) := by
  have hguard : lockGuard l s (.copyProcInfo f copyOk) ↔
      (l = .procInfo → s.debugRoot = true → HasLock flags l) := by
    simp only [lockGuard, hf, Option.some.injEq, exists_eq_left']
  rw [hguard]
  unfold ioctlCopyProcInfo
  by_cases hroot : s.debugRoot = false
  · rw [if_pos hroot, hroot]
    simpa using h
  · have htrue : s.debugRoot = true := by simpa using hroot
    rw [if_neg hroot]
    simp only [ite_self]
    refine (LockAgrees.congr (by rfl) (by rfl) (by rfl)).trans
      (?_ : LockAgrees l ((s.setFlags f
        (flags &&& ~~~VeLock.type .procInfo)).mutexUnlock f .procInfo) ↔ _)
    by_cases hl : l = .procInfo
    · subst hl
      rw [agrees_unlock h hf, hasLock_andNot, hasLock_type]
      exact ⟨fun hc _ _ => hc.1,
        fun hflag => ⟨hflag rfl htrue, fun hc => hc.2 rfl⟩⟩
    · rw [agrees_unlock_other hl, agrees_setFlags h hf, hasLock_andNot,
        hasLock_type]
      have hne : ¬ VeLock.procInfo = l := fun hc => hl hc.symm
      exact iff_of_true ⟨fun hc => hc.1, fun hflag => ⟨hflag, hne⟩⟩
        fun hc => absurd hc hl

/-! ## Closing a file -/

/-- The unlocks of a close, for the locks of a list. -/
private def unlockAll (f : Nat) (flags : BitVec 32) (s : Cedar)
    (ls : List VeLock) : Cedar :=
  ls.foldl (fun s l => if HasLock flags l then s.mutexUnlock f l else s) s

private theorem unlockAll_files (s : Cedar) (f : Nat) (flags : BitVec 32)
    (ls : List VeLock) :
    (unlockAll f flags s ls).files = s.files := by
  unfold unlockAll
  induction ls generalizing s with
  | nil => rfl
  | cons l' ls ih =>
    rw [List.foldl_cons, ih]
    split_ifs <;> rfl

/-- A lock that is not in the list is not touched. -/
private theorem unlockAll_of_not_mem {ls : List VeLock} (hl : l ∉ ls) :
    (unlockAll f flags s ls).holder l = s.holder l ∧
      (unlockAll f flags s ls).wildUnlock l = s.wildUnlock l := by
  unfold unlockAll
  induction ls generalizing s with
  | nil => exact ⟨rfl, rfl⟩
  | cons l' ls ih =>
    have hne : l ≠ l' := fun hc => hl (hc ▸ List.mem_cons_self)
    have hrest : l ∉ ls := fun hc => hl (List.mem_cons_of_mem _ hc)
    rw [List.foldl_cons, (ih hrest).1, (ih hrest).2]
    split_ifs
    · exact ⟨Function.update_of_ne hne .., Function.update_of_ne hne ..⟩
    · exact ⟨rfl, rfl⟩

/-- A lock of the list is given back when its bit is set. -/
private theorem unlockAll_of_mem (s : Cedar) (f : Nat) (flags : BitVec 32)
    {ls : List VeLock} (hnd : ls.Nodup) (hl : l ∈ ls) :
    (unlockAll f flags s ls).holder l
        = (if HasLock flags l then none else s.holder l) ∧
      (unlockAll f flags s ls).wildUnlock l
        = (s.wildUnlock l ||
          decide (HasLock flags l ∧ s.holder l ≠ some f)) := by
  induction ls generalizing s with
  | nil => cases hl
  | cons l' ls ih =>
    obtain ⟨hnot, hnd'⟩ := List.nodup_cons.mp hnd
    have hcons : unlockAll f flags s (l' :: ls) = unlockAll f flags
        (if HasLock flags l' then s.mutexUnlock f l' else s) ls := rfl
    rw [hcons]
    by_cases hself : l = l'
    · subst hself
      rw [(unlockAll_of_not_mem hnot).1, (unlockAll_of_not_mem hnot).2]
      by_cases hbit : HasLock flags l
      · rw [if_pos hbit, if_pos hbit]
        simp [Cedar.mutexUnlock, hbit]
      · rw [if_neg hbit, if_neg hbit]
        simp [hbit]
    · have hin : l ∈ ls := (List.mem_cons.mp hl).resolve_left hself
      rw [(ih _ hnd' hin).1, (ih _ hnd' hin).2]
      split_ifs <;> simp [Cedar.mutexUnlock, Function.update_of_ne hself]

theorem agrees_close (h : LockAgrees l s) (hf : s.files f = some flags) :
    LockAgrees l (cedardevRelease s f flags) := by
  have hmem : l ∈ releaseOrder := by cases l <;> decide
  have hnd : releaseOrder.Nodup := by decide
  obtain ⟨hholder, hwild⟩ := unlockAll_of_mem s f flags hnd hmem
  have hfiles := unlockAll_files s f flags releaseOrder
  have hbit := h.flag_iff f flags hf
  -- Whoever holds the lock afterwards held it before and is another file.
  have hafter : ∀ g, (unlockAll f flags s releaseOrder).holder l = some g ↔
      g ≠ f ∧ s.holder l = some g := by
    intro g
    rw [hholder]
    split_ifs with hflag
    · rw [hbit.mp hflag]
      constructor
      · intro hg
        cases hg
      · intro hboth
        obtain ⟨hne, hg⟩ := hboth
        exact absurd (Option.some.inj hg).symm hne
    · refine ⟨fun hg => ⟨?_, hg⟩, fun hg => hg.2⟩
      intro heq
      subst heq
      exact hflag (hbit.mpr hg)
  have hopen : ∀ g, (cedardevRelease s f flags).files g
      = if g = f then none else s.files g := by
    intro g
    show Function.update (unlockAll f flags s releaseOrder).files f none g = _
    rw [hfiles]
    split_ifs with hg
    · rw [hg, Function.update_self]
    · rw [Function.update_of_ne hg]
  constructor
  · intro g gflags hg
    rw [hopen] at hg
    split_ifs at hg with hgf
    show HasLock gflags l ↔
      (unlockAll f flags s releaseOrder).holder l = some g
    rw [hafter, h.flag_iff g gflags hg]
    exact ⟨fun hc => ⟨hgf, hc⟩, fun hc => hc.2⟩
  · intro g hg
    obtain ⟨hne, hold⟩ := (hafter g).mp hg
    rw [hopen, if_neg hne]
    exact h.holder_open g hold
  · show (unlockAll f flags s releaseOrder).wildUnlock l = false
    rw [hwild, h.no_wild, Bool.false_or, decide_eq_false_iff_not]
    intro hboth
    obtain ⟨hflag, hne⟩ := hboth
    exact hne (hbit.mp hflag)

/-- Opening a file keeps the lock in step: a closed file holds no mutex, so
its empty flags are right. -/
theorem agrees_openFile (h : LockAgrees l s) (hf : s.files f = none) :
    LockAgrees l (s.setFlags f 0) := by
  have hnot : s.holder l ≠ some f := by
    intro hheld
    obtain ⟨flags, hflags⟩ := h.holder_open f hheld
    rw [hf] at hflags
    cases hflags
  refine ⟨fun g gflags hg => ?_, fun g hg => ?_, h.no_wild⟩
  · by_cases hgf : g = f
    · subst hgf
      replace hg : Function.update s.files g (some 0) g = some gflags := hg
      rw [Function.update_self] at hg
      rw [← Option.some.inj hg]
      exact iff_of_false not_hasLock_zero hnot
    · exact h.flag_iff g gflags
        ((Function.update_of_ne hgf ..).symm.trans hg)
  · have hgf : g ≠ f := fun hc => hnot (hc ▸ hg)
    obtain ⟨gflags, hflags⟩ := h.holder_open g hg
    exact ⟨gflags, (Function.update_of_ne hgf ..).trans hflags⟩

/-! ## One step -/

/-- A step keeps the lock in step with its mutex exactly when it meets the
guard. -/
theorem step_agrees_iff {op : Op} {s' : Cedar} (h : LockAgrees l s)
    (hstep : step s op = some s') :
    LockAgrees l s' ↔ lockGuard l s op := by
  cases step_call hstep with
  | openFile hf => exact iff_of_true (agrees_openFile h hf) trivial
  | getLock hf hcall => exact agrees_getLock h hf hcall
  | releaseLock hf => exact agrees_releaseLock h hf
  | setProcInfo hf hcall =>
    exact iff_of_true (agrees_setProcInfo h hf hcall) trivial
  | copyProcInfo hf => exact agrees_copyProcInfo h hf
  | stopProcInfo hf =>
    refine iff_of_true ?_ trivial
    unfold ioctlStopProcInfo
    split_ifs
    · exact h
    · exact (LockAgrees.congr (by rfl) (by rfl) (by rfl)).mpr h
  | closeFile hf => exact iff_of_true (agrees_close h hf) trivial
  | debugfsOpen hopen =>
    refine iff_of_true ?_ trivial
    unfold veDebugfsOpen at hopen
    split_ifs at hopen
    · rwa [← Option.some.inj hopen]
    · obtain ⟨s₁, hlock, hdone⟩ := Option.bind_eq_some_iff.mp hopen
      rw [← Option.some.inj hdone]
      refine (LockAgrees.congr (by rfl) (by rfl) (by rfl)).mpr
        (?_ : LockAgrees l (s₁.mutexUnlock _ .procInfo))
      exact (agrees_lock_unlock hlock).mpr h

/-! ## Runs -/

/-- The flags and the mutexes of the five codec locks agree. -/
def CodecLocksAgree (s : Cedar) : Prop := ∀ l ∈ codecLocks, LockAgrees l s

/-- Two files never have the bit of one lock. -/
theorem LockAgrees.exclusive (h : LockAgrees l s) {g : Nat}
    (hf : s.files f = some flags) (hg : s.files g = some flags')
    (hbit : HasLock flags l) (hbit' : HasLock flags' l) : f = g := by
  have hheld := (h.flag_iff f flags hf).mp hbit
  rw [(h.flag_iff g flags' hg).mp hbit'] at hheld
  exact (Option.some.inj hheld).symm

/-- The codec locks agree with their mutexes in every state of a run exactly
when every call of the run meets the guard of each of them. -/
theorem codecLocks_agree_iff (debugRoot : Bool) (ops : List Op) :
    Always step CodecLocksAgree ops (Cedar.init debugRoot) ↔
      Guarded step (fun s op => ∀ l ∈ codecLocks, lockGuard l s op) ops
        (Cedar.init debugRoot) := by
  refine always_iff_guarded (I := fun _ => True) ?_
    (fun _ _ _ _ _ _ _ => trivial) trivial
    (fun _ _ => lockAgrees_init debugRoot) ops
  intro s op s' _ h hstep
  exact forall₂_congr fun l hl => step_agrees_iff (h l hl) hstep

/-- A file asks for the decoder and the encoder lock at once.  Both bits are
set, and neither mutex is taken. -/
theorem getLock_two_bits :
    ¬ Always step CodecLocksAgree [.openFile 0, .getLock 0 0x03]
      (Cedar.init true) := by
  intro h
  have hlast := h.of_run rfl .vdec (by decide)
  have hheld := (hlast.flag_iff 0 0x03 (by decide)).mp (by decide)
  revert hheld
  decide

/-- The condition for `lock_proc`: no file gets the bit by `GET_LOCK` or
loses it by `RELEASE_LOCK`, and only a file with the bit copies. -/
def procGuard (s : Cedar) : Op → Prop
  | .getLock f arg => HasLock arg .procInfo →
      ∃ flags, s.files f = some flags ∧ HasLock flags .procInfo
  | .releaseLock f arg => ∀ flags, s.files f = some flags →
      ¬ (HasLock flags .procInfo ∧ HasLock arg .procInfo)
  | .copyProcInfo f _ => s.debugRoot = true →
      ∃ flags, s.files f = some flags ∧ HasLock flags .procInfo
  | _ => True

/-- No argument selects `lock_proc`, so its guard is the plain one. -/
theorem lockGuard_procInfo (op : Op) :
    lockGuard .procInfo s op ↔ procGuard s op := by
  have hnever : ∀ arg, selectLock arg ≠ some .procInfo := by
    intro arg
    unfold selectLock
    split_ifs <;> decide
  cases op with
  | getLock f arg =>
    show (_ → _ ∨ _) ↔ (_ → _)
    rw [or_iff_right (hnever arg)]
  | releaseLock f arg =>
    refine forall₂_congr fun flags hf => ?_
    rw [not_and, imp_congr_right]
    intro _
    exact ⟨fun h hc => hnever arg (h hc), fun h hc => absurd hc h⟩
  | copyProcInfo f copyOk => simp [lockGuard, procGuard]
  | openFile f => rfl
  | setProcInfo f user => rfl
  | stopProcInfo f arg => rfl
  | closeFile f => rfl
  | debugfsOpen f kmallocOk => rfl

/-- With `debug_root` set, the flags and `lock_proc` agree in every state of
a run exactly when every call of the run meets `procGuard`. -/
theorem procLock_agrees_iff (ops : List Op) :
    Always step (LockAgrees .procInfo) ops (Cedar.init true) ↔
      Guarded step procGuard ops (Cedar.init true) := by
  refine always_iff_guarded (I := fun _ => True) ?_
    (fun _ _ _ _ _ _ _ => trivial) trivial (lockAgrees_init true) ops
  intro s op s' _ h hstep
  rw [step_agrees_iff h hstep, lockGuard_procInfo]

/-- A file sets the bit of `lock_proc` with `GET_LOCK`, which takes no mutex
for it. -/
theorem getLock_procInfo_bit :
    ¬ Always step (LockAgrees .procInfo) [.openFile 0, .getLock 0 0x1000]
      (Cedar.init true) := by
  intro h
  have hlast := h.of_run rfl
  have hheld := (hlast.flag_iff 0 0x1000 (by decide)).mp (by decide)
  revert hheld
  decide

end LonganPi.Ve
