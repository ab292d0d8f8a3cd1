import LonganPi.Lib.Transition
import LonganPi.Ve.Locks

/-!
# The bounds of the process information

`ve_debug_proc_info.data` has a slot of 1024 bytes for each of sixteen
channels.  `IOCTL_SET_PROC_INFO` stores a length of the user,
`IOCTL_COPY_PROC_INFO` copies that many bytes into the slot, and
`ve_debugfs_open` puts the slots of all channels one after another.

`Access.InBounds` says what each access may touch.  The length is never
compared with the size of a slot and the argument of
`IOCTL_STOP_PROC_INFO` is never compared with the number of channels, so the
accesses stay in bounds exactly under `procInfoGuard`.
-/

namespace LonganPi.Ve

open Transition

variable {s s' : Cedar}

/-! ## Bounds -/

/-- The access stays inside the arrays, the slot of its channel and the
buffer of the debugfs file. -/
def Access.InBounds : Access → Prop
  | .element i => i < veDebugfsMaxChannel
  | .fromUser i buf len => len = 0 ∨ ∃ off, buf = some off ∧
      i * veDebugfsBufSize ≤ off ∧ off + len ≤ (i + 1) * veDebugfsBufSize
  | .toProc i src dst len => i * veDebugfsBufSize ≤ src ∧
      src + len ≤ (i + 1) * veDebugfsBufSize ∧
      dst + len ≤ veDebugfsBufSize * veDebugfsMaxChannel
  | .procLength len => len ≤ veDebugfsBufSize * veDebugfsMaxChannel

/-- Every access so far was in bounds. -/
def AccessesInBounds (s : Cedar) : Prop := ∀ a ∈ s.accesses, a.InBounds

/-- What a slot pointer can be, and which channel is the current one. -/
structure ProcInfoInv (s : Cedar) : Prop where
  cur_lt : s.procInfo.curChannelId < veDebugfsMaxChannel
  slot : ∀ i < veDebugfsMaxChannel, ∀ buf, s.procInfo.procBuf i = some buf →
    buf = i * veDebugfsBufSize

/-- The condition on a call under which its accesses stay in bounds. -/
def procInfoGuard (s : Cedar) : Op → Prop
  | .copyProcInfo _ _ => s.debugRoot = true →
      s.procInfo.procLen s.procInfo.curChannelId = 0 ∨
        s.procInfo.procBuf s.procInfo.curChannelId ≠ none ∧
          s.procInfo.procLen s.procInfo.curChannelId ≤ veDebugfsBufSize
  | .stopProcInfo _ arg => s.debugRoot = true →
      arg.toNat % 256 < veDebugfsMaxChannel
  | .debugfsOpen _ kmallocOk => kmallocOk = true →
      ∀ i < veDebugfsMaxChannel, s.procInfo.procBuf i ≠ none →
        s.procInfo.procLen i ≤ veDebugfsBufSize
  | _ => True

/-! ## The copies of `ve_debugfs_open` -/

/-- The sum of lengths that fit their slots does not wrap. -/
theorem length_sum_lt {i pData len : Nat} (hp : pData ≤ i * veDebugfsBufSize)
    (hi : i < veDebugfsMaxChannel) (hlen : len ≤ veDebugfsBufSize) :
    (pData + len) % 2 ^ 32 = pData + len := by
  unfold veDebugfsBufSize at hp hlen
  unfold veDebugfsMaxChannel at hi
  omega

/-- The loop from channel `i` on stays in bounds exactly when no used
channel from there on is longer than a slot.  `pData` is what the channels
before `i` took, at most their slots. -/
theorem debugfsCopies_inBounds {p : VeDebugfsBuffer} {n i pData : Nat}
    (hslot : ∀ i < veDebugfsMaxChannel, ∀ buf, p.procBuf i = some buf →
      buf = i * veDebugfsBufSize)
    (hn : i + n = veDebugfsMaxChannel) (hp : pData ≤ i * veDebugfsBufSize) :
    (∀ a ∈ (debugfsCopies p n i pData pData).1 ++
        [.procLength (debugfsCopies p n i pData pData).2], a.InBounds) ↔
      ∀ j, i ≤ j → j < veDebugfsMaxChannel → p.procBuf j ≠ none →
        p.procLen j ≤ veDebugfsBufSize := by
  induction n generalizing i pData with
  | zero =>
    refine iff_of_true ?_ fun j hge hlt => by omega
    intro a ha
    rw [List.mem_singleton.mp ha]
    show pData ≤ veDebugfsBufSize * veDebugfsMaxChannel
    have hi : i = veDebugfsMaxChannel := by omega
    rwa [hi, Nat.mul_comm] at hp
  | succ n ih =>
    have hi : i < veDebugfsMaxChannel := by omega
    have helem : (Access.element i).InBounds := hi
    -- Channel `i` by itself, and the channels after it.
    have hsplit : (∀ j, i ≤ j → j < veDebugfsMaxChannel →
          p.procBuf j ≠ none → p.procLen j ≤ veDebugfsBufSize) ↔
        (p.procBuf i ≠ none → p.procLen i ≤ veDebugfsBufSize) ∧
          ∀ j, i + 1 ≤ j → j < veDebugfsMaxChannel → p.procBuf j ≠ none →
            p.procLen j ≤ veDebugfsBufSize := by
      constructor
      · exact fun h => ⟨h i (Nat.le_refl _) hi, fun j hj => h j (by omega)⟩
      · intro hboth j hge hlt
        obtain ⟨hself, hrest⟩ := hboth
        by_cases hji : j = i
        · rw [hji]
          exact hself
        · exact hrest j (by omega) hlt
    rw [hsplit]
    cases hbuf : p.procBuf i with
    | none =>
      have hrest := ih (i := i + 1) (by omega)
        (Nat.le_trans hp (Nat.mul_le_mul_right _ (Nat.le_succ i)))
      simp only [debugfsCopies, hbuf, List.cons_append, List.forall_mem_cons,
        hrest]
      exact ⟨fun h => ⟨fun hc => absurd rfl hc, h.2⟩, fun h => ⟨helem, h.2⟩⟩
    | some buf =>
      have hb := hslot i hi buf hbuf
      have hcopy : (Access.toProc i buf pData (p.procLen i)).InBounds ↔
          p.procLen i ≤ veDebugfsBufSize := by
        simp only [Access.InBounds, hb, veDebugfsBufSize,
          veDebugfsMaxChannel] at hp hi ⊢
        omega
      have hrest : p.procLen i ≤ veDebugfsBufSize →
          ((∀ a ∈ (debugfsCopies p n (i + 1) (pData + p.procLen i)
                ((pData + p.procLen i) % 2 ^ 32)).1 ++
              [.procLength (debugfsCopies p n (i + 1) (pData + p.procLen i)
                ((pData + p.procLen i) % 2 ^ 32)).2], a.InBounds) ↔
            ∀ j, i + 1 ≤ j → j < veDebugfsMaxChannel → p.procBuf j ≠ none →
              p.procLen j ≤ veDebugfsBufSize) := by
        intro hlen
        have hsum : pData + p.procLen i ≤ (i + 1) * veDebugfsBufSize := by
          rw [Nat.add_mul]
          omega
        rw [length_sum_lt hp hi hlen]
        exact ih (by omega) hsum
      simp only [debugfsCopies, hbuf, List.cons_append, List.nil_append,
        List.forall_mem_cons, hcopy]
      constructor
      · intro hboth
        obtain ⟨-, -, hlen, hafter⟩ := hboth
        exact ⟨fun _ => hlen, (hrest hlen).mp hafter⟩
      · intro hboth
        obtain ⟨hlen, hafter⟩ := hboth
        have hlen' := hlen (by simp)
        exact ⟨helem, helem, hlen', (hrest hlen').mpr hafter⟩

/-! ## What each call accesses -/

/-- The call does not touch the process information. -/
structure SameProcInfo (s s' : Cedar) : Prop where
  procInfo_eq : s'.procInfo = s.procInfo
  accesses_eq : s'.accesses = s.accesses

theorem SameProcInfo.inv (h : SameProcInfo s s') (hinv : ProcInfoInv s) :
    ProcInfoInv s' := by
  rcases hinv with ⟨hcur, hslot⟩
  rw [← h.procInfo_eq] at hcur hslot
  exact ⟨hcur, hslot⟩

theorem SameProcInfo.inBounds (h : SameProcInfo s s')
    (hP : AccessesInBounds s) : AccessesInBounds s' := by
  unfold AccessesInBounds
  rwa [h.accesses_eq]

/-- New accesses are added to those before. -/
theorem inBounds_append {as : List Access}
    (hP : AccessesInBounds s) (hs' : s'.accesses = s.accesses ++ as) :
    AccessesInBounds s' ↔ ∀ a ∈ as, a.InBounds := by
  unfold AccessesInBounds
  rw [hs', List.forall_mem_append]
  exact and_iff_right hP

theorem mutexLock_sameProcInfo {f : Nat} {l : VeLock}
    (h : s.mutexLock f l = some s') : SameProcInfo s s' := by
  unfold Cedar.mutexLock at h
  cases hfree : s.holder l with
  | some g => simp [hfree] at h
  | none =>
    simp only [hfree] at h
    rw [← Option.some.inj h]
    exact ⟨rfl, rfl⟩

theorem getLock_sameProcInfo {f : Nat} {flags arg : BitVec 32}
    (h : ioctlGetLock s f flags arg = some s') : SameProcInfo s s' := by
  unfold ioctlGetLock at h
  cases hsel : selectLock arg with
  | none =>
    simp only [hsel] at h
    rw [← Option.some.inj h]
    exact ⟨rfl, rfl⟩
  | some l =>
    simp only [hsel, bind, Option.bind] at h
    cases hlock : s.mutexLock f l with
    | none => simp [hlock] at h
    | some s₁ =>
      simp only [hlock] at h
      obtain ⟨hinfo, hacc⟩ := mutexLock_sameProcInfo hlock
      rw [← Option.some.inj h]
      exact ⟨hinfo, hacc⟩

theorem releaseLock_sameProcInfo (s : Cedar) (f : Nat)
    (flags arg : BitVec 32) :
    SameProcInfo s (ioctlReleaseLock s f flags arg) := by
  unfold ioctlReleaseLock
  split_ifs
  · exact ⟨rfl, rfl⟩
  · cases selectLock arg <;> exact ⟨rfl, rfl⟩

theorem close_sameProcInfo (s : Cedar) (f : Nat) (flags : BitVec 32) :
    SameProcInfo s (cedardevRelease s f flags) := by
  have hfold : ∀ (ls : List VeLock) (s₁ : Cedar), SameProcInfo s₁
      (ls.foldl (fun s l =>
        if flags &&& l.type ≠ 0 then s.mutexUnlock f l else s) s₁) := by
    intro ls
    induction ls with
    | nil => exact fun _ => ⟨rfl, rfl⟩
    | cons l ls ih =>
      intro s₁
      rw [List.foldl_cons]
      obtain ⟨hinfo, hacc⟩ := ih
        (if flags &&& l.type ≠ 0 then s₁.mutexUnlock f l else s₁)
      refine ⟨hinfo.trans ?_, hacc.trans ?_⟩ <;> split_ifs <;> rfl
  exact ⟨(hfold releaseOrder s).procInfo_eq, (hfold releaseOrder s).accesses_eq⟩

/-- `IOCTL_SET_PROC_INFO` checks the channel, so it stays in bounds. -/
theorem setProcInfo_inBounds {f : Nat} {flags : BitVec 32}
    {user : Option (BitVec 8 × BitVec 32)} (hinv : ProcInfoInv s)
    (hP : AccessesInBounds s)
    (hstep : ioctlSetProcInfo s f flags user = some s') :
    AccessesInBounds s' ∧ ProcInfoInv s' := by
  unfold ioctlSetProcInfo at hstep
  by_cases hroot : s.debugRoot = false
  · rw [if_pos hroot] at hstep
    rw [← Option.some.inj hstep]
    exact ⟨hP, hinv⟩
  · rw [if_neg hroot] at hstep
    simp only [bind, Option.bind] at hstep
    cases hlock : s.mutexLock f .procInfo with
    | none => simp [hlock] at hstep
    | some s₁ =>
      have hsame := mutexLock_sameProcInfo hlock
      have hP₁ := hsame.inBounds hP
      have hinv₁ := hsame.inv hinv
      simp only [hlock] at hstep
      cases user with
      | none =>
        rw [← Option.some.inj hstep]
        exact ⟨hP₁, hinv₁.cur_lt, hinv₁.slot⟩
      | some arg =>
        rcases arg with ⟨channelId, procInfoLen⟩
        simp only at hstep
        split_ifs at hstep with hchan
        · rw [← Option.some.inj hstep]
          exact ⟨hP₁, hinv₁.cur_lt, hinv₁.slot⟩
        · have hlt : channelId.toNat < veDebugfsMaxChannel := by omega
          rw [← Option.some.inj hstep]
          refine ⟨(inBounds_append hP₁ rfl).mpr ?_, hlt, ?_⟩
          · intro a ha
            simp only [List.mem_cons, List.not_mem_nil, or_false,
              or_self] at ha
            rw [ha]
            exact hlt
          · intro i hi buf hbuf
            by_cases hic : i = channelId.toNat
            · replace hbuf : Function.update s₁.procInfo.procBuf
                  channelId.toNat (some (channelId.toNat * veDebugfsBufSize))
                  i = some buf := hbuf
              rw [hic, Function.update_self] at hbuf
              rw [hic, ← Option.some.inj hbuf]
            · exact hinv₁.slot i hi buf
                ((Function.update_of_ne hic ..).symm.trans hbuf)

/-- `IOCTL_COPY_PROC_INFO` writes as many bytes as the stored length says,
through whatever the slot pointer is. -/
theorem copyProcInfo_inBounds {f : Nat} {flags : BitVec 32} {copyOk : Bool}
    (hinv : ProcInfoInv s) (hP : AccessesInBounds s) :
    (AccessesInBounds (ioctlCopyProcInfo s f flags copyOk) ↔
        procInfoGuard s (.copyProcInfo f copyOk)) ∧
      ProcInfoInv (ioctlCopyProcInfo s f flags copyOk) := by
  unfold ioctlCopyProcInfo
  by_cases hroot : s.debugRoot = false
  · rw [if_pos hroot]
    refine ⟨iff_of_true hP fun htrue => ?_, hinv⟩
    rw [hroot] at htrue
    cases htrue
  · have htrue : s.debugRoot = true := by simpa using hroot
    rw [if_neg hroot]
    simp only [ite_self]
    refine ⟨(inBounds_append hP rfl).trans ?_, hinv.cur_lt, hinv.slot⟩
    have hguard : procInfoGuard s (.copyProcInfo f copyOk) ↔
        s.procInfo.procLen s.procInfo.curChannelId = 0 ∨
          s.procInfo.procBuf s.procInfo.curChannelId ≠ none ∧
            s.procInfo.procLen s.procInfo.curChannelId ≤ veDebugfsBufSize :=
      ⟨fun h => h htrue, fun h _ => h⟩
    have helem : (Access.element s.procInfo.curChannelId).InBounds :=
      hinv.cur_lt
    rw [hguard]
    simp only [List.forall_mem_cons, Cedar.setFlags, helem, true_and,
      List.not_mem_nil, false_imp_iff, implies_true, and_true]
    cases hbuf : s.procInfo.procBuf s.procInfo.curChannelId with
    | none => simp [Access.InBounds]
    | some buf =>
      have hb := hinv.slot _ hinv.cur_lt buf hbuf
      simp only [Access.InBounds, Option.some.injEq, exists_eq_left', hb,
        Nat.le_refl, true_and, Nat.add_mul, Nat.one_mul,
        Nat.add_le_add_iff_left, ne_eq, reduceCtorEq, not_false_eq_true]

/-- `IOCTL_STOP_PROC_INFO` writes at the index that the user gives. -/
theorem stopProcInfo_inBounds {f : Nat} {arg : BitVec 64}
    (hinv : ProcInfoInv s) (hP : AccessesInBounds s) :
    (AccessesInBounds (ioctlStopProcInfo s arg) ↔
        procInfoGuard s (.stopProcInfo f arg)) ∧
      ProcInfoInv (ioctlStopProcInfo s arg) := by
  unfold ioctlStopProcInfo
  by_cases hroot : s.debugRoot = false
  · rw [if_pos hroot]
    refine ⟨iff_of_true hP fun htrue => ?_, hinv⟩
    rw [hroot] at htrue
    cases htrue
  · have htrue : s.debugRoot = true := by simpa using hroot
    rw [if_neg hroot]
    refine ⟨(inBounds_append hP rfl).trans ?_, hinv.cur_lt, ?_⟩
    · simp only [List.forall_mem_cons, List.not_mem_nil, false_imp_iff,
        implies_true, and_true]
      exact ⟨fun h _ => h, fun h => h htrue⟩
    · intro i hi buf hbuf
      by_cases hic : i = arg.toNat % 256
      · replace hbuf : Function.update s.procInfo.procBuf (arg.toNat % 256)
          none i = some buf := hbuf
        rw [hic, Function.update_self] at hbuf
        cases hbuf
      · exact hinv.slot i hi buf
          ((Function.update_of_ne hic ..).symm.trans hbuf)

theorem debugfsOpen_inBounds {f : Nat} {kmallocOk : Bool}
    (hinv : ProcInfoInv s) (hP : AccessesInBounds s)
    (hstep : veDebugfsOpen s f kmallocOk = some s') :
    (AccessesInBounds s' ↔ procInfoGuard s (.debugfsOpen f kmallocOk)) ∧
      ProcInfoInv s' := by
  unfold veDebugfsOpen at hstep
  by_cases hok : kmallocOk = false
  · rw [if_pos hok] at hstep
    rw [← Option.some.inj hstep]
    refine ⟨iff_of_true hP fun htrue => ?_, hinv⟩
    rw [hok] at htrue
    cases htrue
  · have htrue : kmallocOk = true := by simpa using hok
    rw [if_neg hok] at hstep
    simp only [bind, Option.bind] at hstep
    cases hlock : s.mutexLock f .procInfo with
    | none => simp [hlock] at hstep
    | some s₁ =>
      obtain ⟨hinfo, hacc⟩ := mutexLock_sameProcInfo hlock
      simp only [hlock, hinfo] at hstep
      rw [← Option.some.inj hstep]
      have hinv₁ := SameProcInfo.inv ⟨hinfo, hacc⟩ hinv
      refine ⟨(inBounds_append hP (by rw [← hacc]; rfl)).trans ?_,
        hinv₁.cur_lt, hinv₁.slot⟩
      rw [debugfsCopies_inBounds hinv.slot (by rfl) (by simp)]
      show _ ↔ (kmallocOk = true → _)
      rw [htrue]
      simp

/-! ## Runs -/

theorem step_inBounds {op : Op} (hinv : ProcInfoInv s)
    (hP : AccessesInBounds s) (hstep : step s op = some s') :
    (AccessesInBounds s' ↔ procInfoGuard s op) ∧ ProcInfoInv s' := by
  have hkeep : SameProcInfo s s' → ∀ {op : Op}, procInfoGuard s op →
      (AccessesInBounds s' ↔ procInfoGuard s op) ∧ ProcInfoInv s' :=
    fun hsame _ hguard =>
      ⟨iff_of_true (hsame.inBounds hP) hguard, hsame.inv hinv⟩
  cases step_call hstep with
  | debugfsOpen _ => exact debugfsOpen_inBounds hinv hP hstep
  | openFile _ => exact hkeep ⟨rfl, rfl⟩ trivial
  | getLock _ hcall => exact hkeep (getLock_sameProcInfo hcall) trivial
  | releaseLock _ => exact hkeep (releaseLock_sameProcInfo s _ _ _) trivial
  | setProcInfo _ hcall =>
    obtain ⟨hP', hinv'⟩ := setProcInfo_inBounds hinv hP hcall
    exact ⟨iff_of_true hP' trivial, hinv'⟩
  | copyProcInfo _ => exact copyProcInfo_inBounds hinv hP
  | stopProcInfo _ => exact stopProcInfo_inBounds hinv hP
  | closeFile _ => exact hkeep (close_sameProcInfo s _ _) trivial

/-- Every access of a run stays in bounds exactly when every call of the run
meets `procInfoGuard`. -/
theorem accesses_inBounds_iff (debugRoot : Bool) (ops : List Op) :
    Always step AccessesInBounds ops (Cedar.init debugRoot) ↔
      Guarded step procInfoGuard ops (Cedar.init debugRoot) := by
  refine always_iff_guarded (I := ProcInfoInv) ?_ ?_ ?_ ?_ ops
  · intro s op s' hinv hP hstep
    exact (step_inBounds hinv hP hstep).1
  · intro s op s' hinv hP hstep _
    exact (step_inBounds hinv hP hstep).2
  · exact ⟨(by decide : 0 < veDebugfsMaxChannel),
      fun i _ buf hbuf => by cases hbuf⟩
  · intro a ha
    cases ha

/-- A length of two slots, and then a copy: the copy runs over the first
slot. -/
theorem copyProcInfo_overflow :
    ¬ Always step AccessesInBounds
      [.openFile 0, .setProcInfo 0 (some (0, 2048)), .copyProcInfo 0 true]
      (Cedar.init true) := by
  intro h
  have hlast := h.of_run rfl (.fromUser 0 (some 0) 2048) (by decide)
  rcases hlast with hzero | ⟨off, hoff, -, hle⟩
  · cases hzero
  · obtain rfl := Option.some.inj hoff
    revert hle
    decide

end LonganPi.Ve
