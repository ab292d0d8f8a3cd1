import LonganPi.Lib.Transition
import LonganPi.Ve.Lifecycle

/-!
# When init and exit are balanced

`Balanced` is asked of every state between two calls.

* `initFresh_cases` says how an attempt can end.  `create_char_device` undoes
  its own steps, and nothing undoes it when a later step fails.
* `stale_initFresh` and `overReleased_le_initFresh`: an attempt that finds a
  pointer from before frees its block, which was freed already or is in use.
* `badAccess_cedardevExit`: every exit writes to the block it freed.
* `lifecycle_iff` puts these together.
-/

namespace LonganPi.Ve.Lifecycle

open Transition

/-! ## What is asked for -/

/-- The registrations whose callbacks look at `cedar_devp`. -/
def VeResource.usesDevp : VeResource → Bool
  | .irq | .cdev _ | .sysfsGroup => true
  | _ => false

/-- The char device is created. -/
def CharDeviceOk (o : InitOutcome) : Prop :=
  0 ≤ o.region ∧ o.cdevAdd = 0 ∧ o.classCreate = true ∧ o.deviceCreate = true

/-- The interrupt, the registers, and the clocks and resets are there. -/
def ResourcesOk (b : VeBuild) (o : InitOutcome) : Prop :=
  0 ≤ o.requestIrq ∧ o.ofIomap 0 = true ∧ ∀ c ∈ clkSteps b, o.clkStep c = true

/-- Every step of the attempt succeeds but those that are optional. -/
structure InitSucceeds (b : VeBuild) (o : InitOutcome) : Prop where
  kmalloc : o.kmalloc = true
  charDevice : CharDeviceOk o
  resources : ResourcesOk b o
  sysfs : o.sysfsCreateGroup = 0
  debug : b.debugFs = true →
    o.debugRoot = true ∧ o.debugfsCreateFile = true ∧ o.procBuf = true

/-- An attempt: what was held before it, its outcome, and what it returned. -/
structure Attempt where
  before : Multiset VeResource
  outcome : InitOutcome
  ret : Int

/-- The module between two calls. -/
structure VeModule where
  driver : VeDriver
  /-- The last attempt returned 0, and there was no exit since. -/
  initialised : Bool
  /-- The attempt, when the last call was one. -/
  last : Option Attempt

/-- The module when it is loaded. -/
def VeModule.load (major minor : Nat) : VeModule :=
  ⟨.load major minor, false, none⟩

/-- The two calls. -/
inductive ModuleCall
  | init (o : InitOutcome)
  | exit

/-- One call.  There is an exit only after an attempt that returned 0. -/
def moduleStep (b : VeBuild) (s : VeModule) : ModuleCall → Option VeModule
  | .init o =>
    let r := cedardevInit b o s.driver
    some ⟨r.1, r.2 == 0, some ⟨s.driver.ledger.held, o, r.2⟩⟩
  | .exit =>
    if s.initialised then some ⟨cedardevExit b s.driver, false, none⟩ else none

/-- The calls so far were balanced. -/
structure Balanced (b : VeBuild) (s : VeModule) : Prop where
  /-- An attempt that failed returned an error and kept nothing. -/
  failed : ∀ a ∈ s.last, ¬ InitSucceeds b a.outcome →
    a.ret ≠ 0 ∧ s.driver.ledger.held ≤ a.before
  /-- Nothing is released that is not held. -/
  freedOnce : s.driver.ledger.overReleased = 0
  noBadAccess : s.driver.badAccess = 0
  /-- What uses `cedar_devp` is not registered without it. -/
  attached : ∀ x ∈ s.driver.ledger.held, x.usesDevp = true → s.driver.Live
  cdev : ∀ n, .cdev n ∈ s.driver.ledger.held → .devp n ∈ s.driver.ledger.held

/-- The pointer is null, and the attempt fails before it keeps something or
not at all.  No exit is balanced. -/
def CleanCall (b : VeBuild) (s : VeModule) : ModuleCall → Prop
  | .init o => s.driver.cedarDevp = none ∧
      (o.kmalloc = false ∨ ¬ CharDeviceOk o ∨ InitSucceeds b o)
  | .exit => False

/-! ## Steps that acquire -/

/-- What lies in or is the block of an attempt. -/
def VeResource.ofBlock : VeResource → Bool
  | .devp _ | .cdev _ => true
  | _ => false

/-- The block and its char device are as they were. -/
structure Later (s s' : VeDriver) : Prop where
  pointer : s'.cedarDevp = s.cedarDevp
  overReleased : s.ledger.overReleased ≤ s'.ledger.overReleased
  blocks : ∀ x : VeResource, x.ofBlock = true →
    s'.ledger.held.count x = s.ledger.held.count x
  next : s'.nextBlock = s.nextBlock

/-- Moreover nothing went wrong. -/
structure Grows (s s' : VeDriver) : Prop extends Later s s' where
  overEq : s'.ledger.overReleased = s.ledger.overReleased
  accessed : s.Live → s'.badAccess = s.badAccess

namespace VeDriver

variable {s : VeDriver} {n : Nat} {x : VeResource}

@[simp] theorem acquire_ledger : (s.acquire x).ledger = s.ledger.acquire x := rfl

@[simp] theorem release_ledger : (s.release x).ledger = s.ledger.release x := rfl

@[simp] theorem acquire_cedarDevp : (s.acquire x).cedarDevp = s.cedarDevp := rfl

@[simp] theorem release_acquire : (s.acquire x).release x = s := by
  rw [release, acquire_ledger, Ledger.release_acquire]
  rfl

theorem live_iff (hn : s.cedarDevp = some n) :
    s.Live ↔ .devp n ∈ s.ledger.held := by
  rw [Live, hn]
  simp

theorem access_of_live (h : s.Live) : s.access = s := if_pos h

theorem access_of_not_live (h : ¬ s.Live) :
    s.access = { s with badAccess := s.badAccess + 1 } := if_neg h

theorem live_acquire (h : s.Live) : (s.acquire x).Live := by
  obtain ⟨n, hn, hmem⟩ := h
  exact ⟨n, hn, Multiset.mem_cons_of_mem hmem⟩

theorem live_kmallocDevp : s.kmallocDevp.Live :=
  ⟨s.nextBlock, rfl, Multiset.mem_cons_self _ _⟩

theorem kfreeDevp_eq (hn : s.cedarDevp = some n) :
    s.kfreeDevp = s.release (.devp n) := by
  rw [kfreeDevp, hn]

end VeDriver

section Relations

variable {s s' s'' : VeDriver} {x : VeResource}

theorem Later.refl (s : VeDriver) : Later s s := ⟨rfl, Nat.le_refl _, fun _ _ => rfl, rfl⟩

theorem Later.trans (h : Later s s') (h' : Later s' s'') : Later s s'' where
  pointer := h'.pointer.trans h.pointer
  overReleased := h.overReleased.trans h'.overReleased
  blocks x hx := (h'.blocks x hx).trans (h.blocks x hx)
  next := h'.next.trans h.next

theorem Later.mem_iff (h : Later s s') (hx : x.ofBlock = true) :
    x ∈ s'.ledger.held ↔ x ∈ s.ledger.held := by
  rw [← Multiset.one_le_count_iff_mem, ← Multiset.one_le_count_iff_mem, h.blocks x hx]

theorem Later.live (h : Later s s') (hs : s.Live) : s'.Live := by
  obtain ⟨n, hn, hmem⟩ := hs
  exact ⟨n, h.pointer.trans hn, (h.mem_iff rfl).mpr hmem⟩

theorem Grows.refl (s : VeDriver) : Grows s s := ⟨Later.refl s, rfl, fun _ => rfl⟩

theorem Grows.trans (h : Grows s s') (h' : Grows s' s'') : Grows s s'' where
  toLater := h.toLater.trans h'.toLater
  overEq := h'.overEq.trans h.overEq
  accessed hs := (h'.accessed (h.live hs)).trans (h.accessed hs)

theorem Grows.acquire (s : VeDriver) (hx : x.ofBlock = false) :
    Grows s (s.acquire x) where
  pointer := rfl
  overReleased := Nat.le_refl _
  blocks y hy := by
    refine Multiset.count_cons_of_ne ?_ _
    intro heq
    subst heq
    cases hy.symm.trans hx
  next := rfl
  overEq := rfl
  accessed _ := rfl

theorem Grows.access (s : VeDriver) : Grows s s.access := by
  by_cases hs : s.Live
  · rw [VeDriver.access_of_live hs]
    exact Grows.refl s
  · rw [VeDriver.access_of_not_live hs]
    exact ⟨⟨rfl, Nat.le_refl _, fun _ _ => rfl, rfl⟩, rfl, fun h => absurd h hs⟩

end Relations

/-! ## The steps of an attempt -/

section Steps

variable {b : VeBuild} {o : InitOutcome} {s : VeDriver} {n : Nat}

theorem grows_mapOptional (o : InitOutcome) (is : List Nat) (s : VeDriver) :
    Grows s (mapOptional o is s) := by
  induction is generalizing s with
  | nil => exact Grows.refl s
  | cons i is ih =>
    rw [mapOptional, List.foldl_cons]
    split_ifs
    · exact (Grows.acquire s rfl).trans (ih _)
    · exact ih s

theorem dealWithResouce_cases (b : VeBuild) (o : InitOutcome) (s : VeDriver) :
    ∃ u, Grows s u ∧ ((ResourcesOk b o ∧ dealWithResouce b o s = (u, 0)) ∨
      (¬ ResourcesOk b o ∧ dealWithResouce b o s = (u, -1))) := by
  have hirq : Grows s (s.access.acquire .irq) :=
    (Grows.access s).trans (Grows.acquire _ rfl)
  have hmap : Grows s (mapOptional o (optionalRegions b)
      ((s.access.acquire .irq).acquire (.mapping 0))) :=
    (hirq.trans (Grows.acquire _ rfl)).trans (grows_mapOptional o _ _)
  unfold dealWithResouce
  by_cases hrequest : o.requestIrq < 0
  · refine ⟨_, Grows.access s, Or.inr ⟨fun h => ?_, if_pos hrequest⟩⟩
    exact absurd h.1 (Int.not_le.mpr hrequest)
  rw [if_neg hrequest]
  by_cases hregs : o.ofIomap 0 = false
  · refine ⟨_, hirq, Or.inr ⟨fun h => ?_, if_pos hregs⟩⟩
    cases hregs.symm.trans h.2.1
  rw [if_neg hregs]
  by_cases hclks : (clkSteps b).all o.clkStep = true
  · refine ⟨_, hmap, Or.inl ⟨⟨Int.not_lt.mp hrequest, ?_, ?_⟩, if_pos hclks⟩⟩
    · exact Bool.not_eq_false _ |>.mp hregs
    · exact List.all_eq_true.mp hclks
  · refine ⟨_, hmap, Or.inr ⟨fun h => hclks ?_, if_neg hclks⟩⟩
    exact List.all_eq_true.mpr h.2.2

theorem later_debugfsRemoveRecursive (s : VeDriver) :
    Later s (debugfsRemoveRecursive s) where
  pointer := rfl
  overReleased := Ledger.overReleased_le_release _ _
  blocks x hx := by
    have hdir : x ≠ .debugDir := by
      intro heq
      subst heq
      cases hx
    have hfile : x ≠ .debugFile := by
      intro heq
      subst heq
      cases hx
    show ((s.ledger.release .debugDir).held.filter fun y => ¬ y = .debugFile).count x = _
    refine Eq.trans ?_ (Ledger.count_release_of_ne hdir)
    exact Multiset.count_filter_of_pos hfile
  next := rfl

/-- The directory and the file are registered, or the failure returns an
error. -/
theorem sunxiVeDebugRegisterDriver_cases (b : VeBuild) (o : InitOutcome)
    (s : VeDriver) :
    ((o.debugRoot = true ∧ o.debugfsCreateFile = true) ∧
      ∃ u, Grows s u ∧ sunxiVeDebugRegisterDriver b o s = (u, 0)) ∨
    (¬ (o.debugRoot = true ∧ o.debugfsCreateFile = true) ∧
      ∃ u ret, ret ≠ 0 ∧ Later s u ∧ sunxiVeDebugRegisterDriver b o s = (u, ret)) := by
  have hroot : Grows s
      { (if b.sunxiMpp then s.access else s.access.acquire .debugDir) with
        debugRoot := true } := by
    have hdir : Grows s (if b.sunxiMpp then s.access else s.access.acquire .debugDir) := by
      split_ifs
      · exact Grows.access s
      · exact (Grows.access s).trans (Grows.acquire _ rfl)
    exact ⟨⟨hdir.pointer, hdir.overReleased, hdir.blocks, hdir.next⟩, hdir.overEq,
      hdir.accessed⟩
  unfold sunxiVeDebugRegisterDriver
  by_cases hdir : o.debugRoot = false
  · rw [if_pos hdir]
    exact Or.inr ⟨fun h => (by cases hdir.symm.trans h.1), _, eNoent, by decide,
      (Grows.access s).toLater, rfl⟩
  rw [if_neg hdir]
  by_cases hfile : o.debugfsCreateFile = false
  · refine Or.inr ⟨fun h => (by cases hfile.symm.trans h.2), _, eNodev, by decide, ?_,
      if_pos hfile⟩
    exact hroot.toLater.trans (later_debugfsRemoveRecursive _)
  · refine Or.inl ⟨⟨Bool.not_eq_false _ |>.mp hdir, Bool.not_eq_false _ |>.mp hfile⟩, _,
      ?_, if_neg hfile⟩
    exact hroot.trans (Grows.acquire _ rfl)

/-- The end of an attempt that succeeds. -/
theorem finishInit_eq (o : InitOutcome) (s : VeDriver) :
    ∃ u, Grows s u ∧ finishInit o s = (u, 0) := by
  refine ⟨_, ?_, rfl⟩
  have hpm : Grows s (s.acquire .pmRuntime).access :=
    (Grows.acquire s rfl).trans (Grows.access _)
  have hregulator : Grows s (if o.regulatorGet
      then (s.acquire .pmRuntime).access.acquire .regulator
      else (s.acquire .pmRuntime).access) := by
    split_ifs
    · exact hpm.trans (Grows.acquire _ rfl)
    · exact hpm
  exact ⟨⟨hregulator.pointer, hregulator.overReleased, hregulator.blocks, hregulator.next⟩,
    hregulator.overEq, hregulator.accessed⟩

@[simp] theorem chrdevRegion_ledger (o : InitOutcome) (s : VeDriver) :
    (chrdevRegion o s).ledger = s.ledger := by
  unfold chrdevRegion
  split_ifs <;> rfl

@[simp] theorem chrdevRegion_cedarDevp (o : InitOutcome) (s : VeDriver) :
    (chrdevRegion o s).cedarDevp = s.cedarDevp := by
  unfold chrdevRegion
  split_ifs <;> rfl

@[simp] theorem chrdevRegion_badAccess (o : InitOutcome) (s : VeDriver) :
    (chrdevRegion o s).badAccess = s.badAccess := by
  unfold chrdevRegion
  split_ifs <;> rfl

@[simp] theorem chrdevRegion_nextBlock (o : InitOutcome) (s : VeDriver) :
    (chrdevRegion o s).nextBlock = s.nextBlock := by
  unfold chrdevRegion
  split_ifs <;> rfl

/-- The state with the char device, in block `n`. -/
def opened (o : InitOutcome) (n : Nat) (s : VeDriver) : VeDriver :=
  let s := chrdevRegion o s
  (((s.acquire (.region s.gDevMajor s.gDevMinor)).acquire (.cdev n)).acquire
    .deviceClass).acquire .device

theorem live_chrdevRegion (hs : s.Live) : (chrdevRegion o s).Live := by
  rw [VeDriver.Live, chrdevRegion_cedarDevp, chrdevRegion_ledger]
  exact hs

/-- With its four steps done there is a char device. -/
theorem createCharDevice_ok (hs : s.Live) (hn : s.cedarDevp = some n)
    (ho : CharDeviceOk o) : createCharDevice o s = (opened o n s, 0) := by
  obtain ⟨hregion, hcdev, hclass, hdevice⟩ := ho
  have hlive : ((chrdevRegion o s).acquire (.region (chrdevRegion o s).gDevMajor
      (chrdevRegion o s).gDevMinor)).Live :=
    VeDriver.live_acquire (live_chrdevRegion hs)
  unfold createCharDevice
  rw [if_neg (Int.not_lt.mpr hregion)]
  simp [VeDriver.access_of_live hlive, hcdev, hclass, hdevice, hn, opened]

/-- A failure undoes the steps before it, in reverse order. -/
theorem createCharDevice_fails (hs : s.Live) (ho : ¬ CharDeviceOk o) :
    ∃ ret, ret ≠ 0 ∧ createCharDevice o s = (chrdevRegion o s, ret) := by
  have hlive : ((chrdevRegion o s).acquire (.region (chrdevRegion o s).gDevMajor
      (chrdevRegion o s).gDevMinor)).Live :=
    VeDriver.live_acquire (live_chrdevRegion hs)
  unfold createCharDevice
  by_cases hregion : o.region < 0
  · exact ⟨o.region, Int.ne_of_lt hregion, if_pos hregion⟩
  rw [if_neg hregion, VeDriver.access_of_live hlive]
  by_cases hcdev : o.cdevAdd = 0
  · by_cases hclass : o.classCreate = false
    · exact ⟨eInval, by decide, by simp [hcdev, hclass]⟩
    · by_cases hdevice : o.deviceCreate = false
      · exact ⟨eInval, by decide, by simp [hcdev, hclass, hdevice]⟩
      · exact absurd ⟨Int.not_lt.mp hregion, hcdev, Bool.not_eq_false _ |>.mp hclass,
          Bool.not_eq_false _ |>.mp hdevice⟩ ho
  · exact ⟨o.cdevAdd, hcdev, by simp [hcdev]⟩

/-- From the debugfs file on. -/
theorem registerDebug_cases (b : VeBuild) (o : InitOutcome) (s : VeDriver) :
    ((b.debugFs = true →
        o.debugRoot = true ∧ o.debugfsCreateFile = true ∧ o.procBuf = true) ∧
      ∃ u, Grows s u ∧ registerDebug b o s = (u, 0)) ∨
    (¬ (b.debugFs = true →
        o.debugRoot = true ∧ o.debugfsCreateFile = true ∧ o.procBuf = true) ∧
      ∃ u ret, ret ≠ 0 ∧ Later s u ∧ registerDebug b o s = (u.kfreeDevp, ret)) := by
  unfold registerDebug
  by_cases hdebug : b.debugFs = true
  · rw [if_pos hdebug]
    rcases sunxiVeDebugRegisterDriver_cases b o s with
      ⟨⟨hroot, hfile⟩, u, hu, heq⟩ | ⟨hnot, u, ret, hret, hu, heq⟩
    · rw [heq]
      by_cases hbuf : o.procBuf = false
      · refine Or.inr ⟨fun h => ?_, u, eNomem, by decide, hu.toLater, ?_⟩
        · cases hbuf.symm.trans (h hdebug).2.2
        · simp [hbuf, freeDevp]
      · obtain ⟨u', hu', heq'⟩ := finishInit_eq o (u.acquire .procBuf)
        refine Or.inl ⟨fun _ => ⟨hroot, hfile, Bool.not_eq_false _ |>.mp hbuf⟩, u', ?_, ?_⟩
        · exact (hu.trans (Grows.acquire u rfl)).trans hu'
        · simp [hbuf, heq']
    · rw [heq]
      refine Or.inr ⟨fun h => hnot ⟨(h hdebug).1, (h hdebug).2.1⟩, u, eInval, by decide,
        hu, ?_⟩
      exact if_pos hret
  · rw [if_neg hdebug]
    exact Or.inl ⟨fun h => absurd h hdebug, finishInit_eq o s⟩

/-- How an attempt ends, by what fails first. -/
theorem cedardevInit_cases (b : VeBuild) (o : InitOutcome) (s : VeDriver) :
    (o.kmalloc = false ∧ cedardevInit b o s = (freeOldDevp s, eNomem)) ∨
    (o.kmalloc = true ∧ ¬ CharDeviceOk o ∧ cedardevInit b o s =
      ((chrdevRegion o (freeOldDevp s).kmallocDevp).kfreeDevp, eInval)) ∨
    (InitSucceeds b o ∧ ∃ u,
      Grows (opened o (freeOldDevp s).nextBlock (freeOldDevp s).kmallocDevp) u ∧
        cedardevInit b o s = (u, 0)) ∨
    (o.kmalloc = true ∧ CharDeviceOk o ∧ ¬ InitSucceeds b o ∧ ∃ u ret, ret ≠ 0 ∧
      Later (opened o (freeOldDevp s).nextBlock (freeOldDevp s).kmallocDevp) u ∧
        cedardevInit b o s = (u.kfreeDevp, ret)) := by
  have hlive := (freeOldDevp s).live_kmallocDevp
  unfold cedardevInit
  by_cases hkmalloc : o.kmalloc = false
  · exact Or.inl ⟨hkmalloc, if_pos hkmalloc⟩
  have hkmalloc' : o.kmalloc = true := Bool.not_eq_false _ |>.mp hkmalloc
  refine Or.inr ?_
  dsimp only
  rw [if_neg hkmalloc, registerDevice]
  by_cases hchar : CharDeviceOk o
  swap
  · obtain ⟨ret, hret, heq⟩ := createCharDevice_fails hlive hchar
    rw [heq]
    exact Or.inl ⟨hkmalloc', hchar, if_pos hret⟩
  refine Or.inr ?_
  rw [createCharDevice_ok hlive rfl hchar]
  dsimp only
  rw [if_neg (by decide)]
  generalize opened o (freeOldDevp s).nextBlock (freeOldDevp s).kmallocDevp = t
  obtain ⟨u, hu, ⟨hres, heq⟩ | ⟨hres, heq⟩⟩ := dealWithResouce_cases b o t.access
  swap
  · refine Or.inr ⟨hkmalloc', hchar, fun h => hres h.resources, u, eInval, by decide, ?_, ?_⟩
    · exact ((Grows.access t).trans hu).toLater
    · rw [heq]
      rfl
  rw [heq]
  dsimp only
  rw [if_neg (by decide)]
  have hu' : Grows t u.access := ((Grows.access t).trans hu).trans (Grows.access u)
  by_cases hsysfs : o.sysfsCreateGroup = 0
  swap
  · rw [if_pos hsysfs]
    exact Or.inr ⟨hkmalloc', hchar, fun h => hsysfs h.sysfs, u.access, eInval, by decide,
      hu'.toLater, rfl⟩
  rw [if_neg (fun h => h hsysfs)]
  have hgroup : Grows t (u.access.acquire .sysfsGroup) := hu'.trans (Grows.acquire _ rfl)
  rcases registerDebug_cases b o (u.access.acquire .sysfsGroup) with
    ⟨hdebug, w, hw, heq⟩ | ⟨hdebug, w, ret, hret, hw, heq⟩
  · exact Or.inl ⟨⟨hkmalloc', hchar, hres, hsysfs, hdebug⟩, w, hgroup.trans hw, heq⟩
  · exact Or.inr ⟨hkmalloc', hchar, fun h => hdebug h.debug, w, ret, hret,
      hgroup.toLater.trans hw, heq⟩

end Steps

/-! ## A pointer from before -/

/-- Block `m` was released twice, or its char device outlives it. -/
def Broken (m : Nat) (s : VeDriver) : Prop :=
  0 < s.ledger.overReleased ∨
    (.cdev m ∈ s.ledger.held ∧ .devp m ∉ s.ledger.held ∧ m < s.nextBlock)

section Broken

variable {b : VeBuild} {o : InitOutcome} {s s' : VeDriver} {m n : Nat}

theorem Broken.kmallocDevp (h : Broken m s) : Broken m s.kmallocDevp := by
  rcases h with hover | ⟨hcdev, hdevp, hm⟩
  · exact Or.inl hover
  · refine Or.inr ⟨Multiset.mem_cons_of_mem hcdev, fun hmem => ?_, Nat.lt_succ_of_lt hm⟩
    rcases Multiset.mem_cons.mp hmem with heq | hmem
    · exact Nat.ne_of_lt hm (VeResource.devp.inj heq)
    · exact hdevp hmem

theorem Broken.chrdevRegion (h : Broken m s) : Broken m (chrdevRegion o s) := by
  rw [Broken, chrdevRegion_ledger, chrdevRegion_nextBlock]
  exact h

theorem Broken.acquire {x : VeResource} (h : Broken m s) (hx : .devp m ≠ x) :
    Broken m (s.acquire x) := by
  rcases h with hover | ⟨hcdev, hdevp, hm⟩
  · exact Or.inl hover
  · exact Or.inr ⟨Multiset.mem_cons_of_mem hcdev,
      fun hmem => hdevp ((Multiset.mem_cons.mp hmem).resolve_left hx), hm⟩

theorem Broken.opened (h : Broken m s) : Broken m (opened o n s) :=
  (((h.chrdevRegion.acquire (by simp)).acquire (by simp)).acquire (by simp)).acquire
    (by simp)

theorem Broken.later (h : Broken m s) (hs : Later s s') : Broken m s' := by
  rcases h with hover | ⟨hcdev, hdevp, hm⟩
  · exact Or.inl (Nat.lt_of_lt_of_le hover hs.overReleased)
  · exact Or.inr ⟨(hs.mem_iff rfl).mpr hcdev, fun h => hdevp ((hs.mem_iff rfl).mp h),
      by rwa [hs.next]⟩

theorem Broken.kfreeDevp (h : Broken m s) : Broken m s.kfreeDevp := by
  unfold VeDriver.kfreeDevp
  cases s.cedarDevp with
  | none => exact h
  | some n =>
    rcases h with hover | ⟨hcdev, hdevp, hm⟩
    · exact Or.inl (Nat.lt_of_lt_of_le hover (Ledger.overReleased_le_release _ _))
    · refine Or.inr ⟨(Ledger.mem_release_of_ne (by simp)).mpr hcdev, fun h => hdevp ?_, hm⟩
      exact Multiset.mem_of_le (Ledger.release_held_le _ _) h

/-- What is broken when an attempt starts is broken when it ends. -/
theorem Broken.cedardevInit (h : Broken m (freeOldDevp s)) :
    Broken m (cedardevInit b o s).1 := by
  rcases cedardevInit_cases b o s with
    ⟨-, heq⟩ | ⟨-, -, heq⟩ | ⟨-, u, hu, heq⟩ | ⟨-, -, -, u, ret, -, hu, heq⟩
  · rw [heq]
    exact h
  · rw [heq]
    exact h.kmallocDevp.chrdevRegion.kfreeDevp
  · rw [heq]
    exact h.kmallocDevp.opened.later hu.toLater
  · rw [heq]
    exact (h.kmallocDevp.opened.later hu).kfreeDevp

end Broken

/-! ## The exit -/

/-- The step releases, and keeps the pointer. -/
def Shrinks (s s' : VeDriver) : Prop :=
  s'.cedarDevp = s.cedarDevp ∧ s'.ledger.held ≤ s.ledger.held

section Exit

variable {s s' s'' : VeDriver}

theorem Shrinks.refl (s : VeDriver) : Shrinks s s := ⟨rfl, le_refl _⟩

theorem Shrinks.trans (h : Shrinks s s') (h' : Shrinks s' s'') : Shrinks s s'' :=
  ⟨h'.1.trans h.1, h'.2.trans h.2⟩

theorem shrinks_release (s : VeDriver) (x : VeResource) : Shrinks s (s.release x) :=
  ⟨rfl, Ledger.release_held_le _ _⟩

theorem shrinks_access (s : VeDriver) : Shrinks s s.access := by
  unfold VeDriver.access
  split_ifs
  · exact Shrinks.refl s
  · exact ⟨rfl, le_refl _⟩

theorem shrinks_deviceDestroy (s : VeDriver) : Shrinks s (deviceDestroy s) :=
  ⟨rfl, (Multiset.filter_le _ _).trans (Ledger.release_held_le _ _)⟩

theorem shrinks_debugfsRemoveRecursive (s : VeDriver) :
    Shrinks s (debugfsRemoveRecursive s) :=
  ⟨rfl, (Multiset.filter_le _ _).trans (Ledger.release_held_le _ _)⟩

theorem shrinks_sunxiVeDebugUnregisterDriver (s : VeDriver) :
    Shrinks s (sunxiVeDebugUnregisterDriver s) := by
  unfold sunxiVeDebugUnregisterDriver
  split_ifs
  · exact shrinks_debugfsRemoveRecursive s
  · exact Shrinks.refl s

theorem shrinks_regulatorPut (s : VeDriver) : Shrinks s (regulatorPut s) := by
  unfold regulatorPut
  split_ifs
  · exact shrinks_release s .regulator
  · exact Shrinks.refl s

theorem shrinks_unregisterAll (b : VeBuild) (s : VeDriver) :
    Shrinks s (unregisterAll b s) := by
  have hregs : Shrinks s ((s.access.release .irq).release (.mapping 0)) :=
    ((shrinks_access s).trans (shrinks_release _ _)).trans (shrinks_release _ _)
  have hdebug : ∀ s : VeDriver, Shrinks s (if b.debugFs then
      (sunxiVeDebugUnregisterDriver s).release .procBuf else s) := by
    intro s
    split_ifs
    · exact (shrinks_sunxiVeDebugUnregisterDriver s).trans (shrinks_release _ _)
    · exact Shrinks.refl s
  unfold unregisterAll
  refine Shrinks.trans ?_ (shrinks_regulatorPut _)
  refine Shrinks.trans ?_ (hdebug _)
  refine Shrinks.trans ?_ (shrinks_release _ _)
  refine Shrinks.trans ?_ (shrinks_release _ _)
  refine Shrinks.trans ?_ (shrinks_release _ _)
  refine Shrinks.trans ?_ (shrinks_deviceDestroy _)
  exact hregs.trans (shrinks_release _ _)

/-- The flag is cleared through a pointer to a block that was freed. -/
theorem badAccess_cedardevExit {n : Nat} (b : VeBuild) (hn : s.cedarDevp = some n)
    (hsingle : s.ledger.held.count (.devp n) ≤ 1) :
    0 < (cedardevExit b s).badAccess := by
  obtain ⟨hpointer, hheld⟩ := shrinks_unregisterAll b s
  have hn' : (unregisterAll b s).cedarDevp = some n := hpointer.trans hn
  have hdangling : ((unregisterAll b s).release (.devp n)).cedarDevp = some n := hn'
  have hfreed : ¬ (unregisterAll b s).kfreeDevp.Live := by
    rw [VeDriver.kfreeDevp_eq hn', VeDriver.live_iff hdangling]
    exact Ledger.notMem_release ((Multiset.count_le_of_le _ hheld).trans hsingle)
  show 0 < (unregisterAll b s).kfreeDevp.access.badAccess
  rw [VeDriver.access_of_not_live hfreed]
  exact Nat.succ_pos _

end Exit

/-! ## Any sequence of calls -/

/-- What holds between two calls as long as they are balanced. -/
structure Coherent (s : VeDriver) (initialised : Bool) : Prop where
  fresh : ∀ n ∈ s.cedarDevp, n < s.nextBlock
  single : ∀ n, s.ledger.held.count (.devp n) ≤ 1
  cdev : ∀ n ∈ s.cedarDevp, .devp n ∈ s.ledger.held → .cdev n ∈ s.ledger.held
  empty : s.cedarDevp = none → s.ledger.held = 0
  pointed : initialised = true → s.cedarDevp ≠ none

section Calls

variable {b : VeBuild} {o : InitOutcome} {s s' : VeModule} {m n : Nat}

theorem coherent_load (major minor : Nat) : Coherent (.load major minor) false where
  fresh n hn := by cases hn
  single n := by
    show (0 : Multiset VeResource).count (.devp n) ≤ 1
    rw [Multiset.count_zero]
    exact Nat.zero_le 1
  cdev n hn := by cases hn
  empty _ := rfl
  pointed h := by cases h

theorem balanced_load (b : VeBuild) (major minor : Nat) :
    Balanced b (.load major minor) where
  failed a ha := by cases ha
  freedOnce := rfl
  noBadAccess := rfl
  attached x hx := absurd hx (Multiset.notMem_zero x)
  cdev n hn := absurd hn (Multiset.notMem_zero _)

/-- A pointer that is found is one of a block in use or of a freed one. -/
theorem broken_freeOldDevp {d : VeDriver} {init : Bool} (hs : Coherent d init)
    (hn : d.cedarDevp = some n) : Broken n (freeOldDevp d) := by
  have hfree : freeOldDevp d = { d.release (.devp n) with cedarDevp := none } := by
    rw [freeOldDevp, if_neg (by simp [hn]), VeDriver.kfreeDevp_eq hn]
  rw [hfree]
  by_cases hmem : .devp n ∈ d.ledger.held
  · exact Or.inr ⟨(Ledger.mem_release_of_ne (by simp)).mpr (hs.cdev n hn hmem),
      Ledger.notMem_release (hs.single n), hs.fresh n hn⟩
  · refine Or.inl ?_
    show 0 < (d.ledger.release (.devp n)).overReleased
    rw [Ledger.release_of_notMem hmem]
    exact Nat.succ_pos _

theorem not_balanced_of_broken (h : Broken m s.driver) : ¬ Balanced b s := by
  intro hs
  rcases h with hover | ⟨hcdev, hdevp, -⟩
  · exact Nat.ne_of_gt hover hs.freedOnce
  · exact hdevp (hs.cdev m hcdev)

/-- Nothing is held, and the last call was not an attempt that should have
kept something. -/
theorem balanced_of_empty (hheld : s.driver.ledger.held = 0)
    (hover : s.driver.ledger.overReleased = 0) (hbad : s.driver.badAccess = 0)
    (hret : ∀ a ∈ s.last, a.ret ≠ 0) : Balanced b s where
  failed a ha _ := ⟨hret a ha, by rw [hheld]; exact Multiset.zero_le _⟩
  freedOnce := hover
  noBadAccess := hbad
  attached x hx := by
    rw [hheld] at hx
    exact absurd hx (Multiset.notMem_zero x)
  cdev n hn := by
    rw [hheld] at hn
    exact absurd hn (Multiset.notMem_zero _)

/-- What an attempt with nothing before it has once it has a char device. -/
theorem opened_kmallocDevp_held (o : InitOutcome) {d : VeDriver}
    (hheld : d.ledger.held = 0) : ∃ major minor,
    (opened o d.nextBlock d.kmallocDevp).ledger.held =
      {.device, .deviceClass, .cdev d.nextBlock, .region major minor, .devp d.nextBlock} := by
  refine ⟨(chrdevRegion o d.kmallocDevp).gDevMajor,
    (chrdevRegion o d.kmallocDevp).gDevMinor, ?_⟩
  simp only [opened, VeDriver.acquire_ledger, chrdevRegion_ledger, Ledger.acquire_held,
    VeDriver.kmallocDevp, hheld]
  rfl

/-- One block, `n`, with its char device, and the pointer to it. -/
structure HasBlock (n : Nat) (d : VeDriver) : Prop where
  pointer : d.cedarDevp = some n
  next : d.nextBlock = n + 1
  devp : ∀ m, .devp m ∈ d.ledger.held ↔ m = n
  cdev : ∀ m, .cdev m ∈ d.ledger.held ↔ m = n
  single : ∀ m, d.ledger.held.count (.devp m) ≤ 1

theorem hasBlock_of_later {d u : VeDriver} (hheld : d.ledger.held = 0)
    (hu : Later (opened o d.nextBlock d.kmallocDevp) u) : HasBlock d.nextBlock u := by
  obtain ⟨major, minor, hopened⟩ := opened_kmallocDevp_held o hheld
  refine ⟨?_, ?_, fun m => ?_, fun m => ?_, fun m => ?_⟩
  · rw [hu.pointer]
    exact chrdevRegion_cedarDevp o d.kmallocDevp
  · rw [hu.next]
    exact chrdevRegion_nextBlock o d.kmallocDevp
  · rw [hu.mem_iff rfl, hopened]
    simp
  · rw [hu.mem_iff rfl, hopened]
    simp
  · rw [hu.blocks _ rfl, hopened]
    exact Multiset.nodup_iff_count_le_one.mp (by simp) _

theorem HasBlock.broken {d : VeDriver} (h : HasBlock n d) : Broken n d.kfreeDevp := by
  rw [VeDriver.kfreeDevp_eq h.pointer]
  refine Or.inr ⟨(Ledger.mem_release_of_ne (by simp)).mpr ((h.cdev n).mpr rfl),
    Ledger.notMem_release (h.single n), ?_⟩
  show n < d.nextBlock
  rw [h.next]
  exact Nat.lt_succ_self n

theorem HasBlock.coherent {d : VeDriver} (h : HasBlock n d) (init : Bool) :
    Coherent d init where
  fresh m hm := by
    rw [h.next, Option.some.inj (hm.symm.trans h.pointer)]
    exact Nat.lt_succ_self n
  single := h.single
  cdev m _ hdevp := (h.cdev m).mpr ((h.devp m).mp hdevp)
  empty hnone := by cases hnone.symm.trans h.pointer
  pointed _ := by
    rw [h.pointer]
    exact Option.some_ne_none n

theorem HasBlock.balanced (h : HasBlock n s.driver)
    (hover : s.driver.ledger.overReleased = 0) (hbad : s.driver.badAccess = 0)
    (hlast : ∀ a ∈ s.last, InitSucceeds b a.outcome) : Balanced b s where
  failed a ha hnot := absurd (hlast a ha) hnot
  freedOnce := hover
  noBadAccess := hbad
  attached _ _ _ := ⟨n, h.pointer, (h.devp n).mpr rfl⟩
  cdev m hm := (h.devp m).mpr ((h.cdev m).mp hm)

/-- The char device failed, and its block is freed. -/
theorem kfreeDevp_chrdevRegion (o : InitOutcome) (d : VeDriver) :
    (chrdevRegion o d.kmallocDevp).kfreeDevp =
      (chrdevRegion o d.kmallocDevp).release (.devp d.nextBlock) :=
  VeDriver.kfreeDevp_eq (chrdevRegion_cedarDevp o d.kmallocDevp)

theorem ledger_kfreeDevp_chrdevRegion (o : InitOutcome) (d : VeDriver) :
    (chrdevRegion o d.kmallocDevp).kfreeDevp.ledger = d.ledger := by
  rw [kfreeDevp_chrdevRegion, VeDriver.release_ledger, chrdevRegion_ledger]
  exact Ledger.release_acquire d.ledger (.devp d.nextBlock)

theorem coherent_kfreeDevp_chrdevRegion (o : InitOutcome) {d : VeDriver}
    (hheld : d.ledger.held = 0) :
    Coherent (chrdevRegion o d.kmallocDevp).kfreeDevp false where
  fresh m hm := by
    rw [kfreeDevp_chrdevRegion] at hm ⊢
    have hpointer : some d.nextBlock = some m :=
      (chrdevRegion_cedarDevp o d.kmallocDevp).symm.trans hm
    show m < (chrdevRegion o d.kmallocDevp).nextBlock
    rw [chrdevRegion_nextBlock, ← Option.some.inj hpointer]
    exact Nat.lt_succ_self d.nextBlock
  single m := by
    rw [ledger_kfreeDevp_chrdevRegion, hheld, Multiset.count_zero]
    exact Nat.zero_le 1
  cdev m _ hm := by
    rw [ledger_kfreeDevp_chrdevRegion, hheld] at hm
    exact absurd hm (Multiset.notMem_zero _)
  empty _ := by rw [ledger_kfreeDevp_chrdevRegion, hheld]
  pointed h := by cases h

/-- An attempt that finds a null pointer. -/
theorem init_of_null (hs : Coherent s.driver s.initialised) (hP : Balanced b s)
    (hnull : s.driver.cedarDevp = none)
    (hstep : moduleStep b s (.init o) = some s') :
    (Balanced b s' → CleanCall b s (.init o)) ∧
      (CleanCall b s (.init o) →
        Balanced b s' ∧ Coherent s'.driver s'.initialised) := by
  obtain rfl := Option.some.inj hstep
  have hheld := hs.empty hnull
  have hfree : freeOldDevp s.driver = s.driver := if_pos hnull
  have hcases := cedardevInit_cases b o s.driver
  rw [hfree] at hcases
  rcases hcases with ⟨hkmalloc, heq⟩ | ⟨-, hchar, heq⟩ | ⟨hdone, u, hu, heq⟩ |
    ⟨hkmalloc, hchar, hnot, u, ret, hret, hu, heq⟩
  · refine ⟨fun _ => ⟨hnull, Or.inl hkmalloc⟩, fun _ => ?_⟩
    rw [heq]
    refine ⟨balanced_of_empty hheld hP.freedOnce hP.noBadAccess ?_, ?_⟩
    · intro a ha
      rw [← Option.some.inj ha]
      exact (by decide : eNomem ≠ 0)
    · exact ⟨hs.fresh, hs.single, hs.cdev, hs.empty, fun h => by cases h⟩
  · refine ⟨fun _ => ⟨hnull, Or.inr (Or.inl hchar)⟩, fun _ => ?_⟩
    rw [heq]
    have hledger := ledger_kfreeDevp_chrdevRegion o s.driver
    refine ⟨balanced_of_empty ?_ ?_ ?_ ?_, coherent_kfreeDevp_chrdevRegion o hheld⟩
    · exact (congrArg Ledger.held hledger).trans hheld
    · exact (congrArg Ledger.overReleased hledger).trans hP.freedOnce
    · show (chrdevRegion o s.driver.kmallocDevp).kfreeDevp.badAccess = 0
      rw [kfreeDevp_chrdevRegion]
      exact (chrdevRegion_badAccess o s.driver.kmallocDevp).trans hP.noBadAccess
    · intro a ha
      rw [← Option.some.inj ha]
      exact (by decide : eInval ≠ 0)
  · refine ⟨fun _ => ⟨hnull, Or.inr (Or.inr hdone)⟩, fun _ => ?_⟩
    rw [heq]
    have hblock := hasBlock_of_later hheld hu.toLater
    have hlive : (opened o s.driver.nextBlock s.driver.kmallocDevp).Live :=
      VeDriver.live_acquire (VeDriver.live_acquire (VeDriver.live_acquire
        (VeDriver.live_acquire (live_chrdevRegion VeDriver.live_kmallocDevp))))
    refine ⟨hblock.balanced ?_ ?_ ?_, hblock.coherent _⟩
    · refine hu.overEq.trans ?_
      exact (congrArg Ledger.overReleased
        (chrdevRegion_ledger o s.driver.kmallocDevp)).trans hP.freedOnce
    · refine (hu.accessed hlive).trans ?_
      exact (chrdevRegion_badAccess o s.driver.kmallocDevp).trans hP.noBadAccess
    · intro a ha
      rw [← Option.some.inj ha]
      exact hdone
  · rw [heq]
    have hbroken := (hasBlock_of_later hheld hu).broken
    refine ⟨fun h => absurd h (not_balanced_of_broken hbroken), ?_⟩
    intro hboth
    obtain ⟨-, hfail | hfail | hdone⟩ := hboth
    · cases hkmalloc.symm.trans hfail
    · exact absurd hchar hfail
    · exact absurd hdone hnot

/-- A call after balanced calls. -/
theorem moduleStep_balanced {a : ModuleCall} (hs : Coherent s.driver s.initialised)
    (hP : Balanced b s) (hstep : moduleStep b s a = some s') :
    (Balanced b s' → CleanCall b s a) ∧
      (CleanCall b s a → Balanced b s' ∧ Coherent s'.driver s'.initialised) := by
  cases a with
  | init o =>
    cases hn : s.driver.cedarDevp with
    | none => exact init_of_null hs hP hn hstep
    | some n =>
      have hbroken : Broken n s'.driver := by
        obtain rfl := Option.some.inj hstep
        exact (broken_freeOldDevp hs hn).cedardevInit
      refine ⟨fun h => absurd h (not_balanced_of_broken hbroken), fun h => ?_⟩
      cases hn.symm.trans h.1
  | exit =>
    refine ⟨fun h => ?_, fun h => h.elim⟩
    unfold moduleStep at hstep
    split_ifs at hstep with hinit
    obtain rfl := Option.some.inj hstep
    obtain ⟨n, hn⟩ := Option.ne_none_iff_exists'.mp (hs.pointed hinit)
    exact Nat.ne_of_gt (badAccess_cedardevExit b hn (hs.single n)) h.noBadAccess

end Calls

/-- Every state of a run is balanced exactly when every attempt finds a null
pointer and fails before it keeps something or not at all, and there is no
exit. -/
theorem lifecycle_iff (b : VeBuild) (major minor : Nat) (calls : List ModuleCall) :
    Always (moduleStep b) (Balanced b) calls (.load major minor) ↔
      Guarded (moduleStep b) (CleanCall b) calls (.load major minor) := by
  refine always_iff_guarded (I := fun s => Coherent s.driver s.initialised) ?_ ?_
    (coherent_load major minor) (balanced_load b major minor) calls
  · intro s a s' hs hP hstep
    obtain ⟨hmp, hmpr⟩ := moduleStep_balanced hs hP hstep
    exact ⟨hmp, fun h => (hmpr h).1⟩
  · intro s a s' hs hP hstep hP'
    obtain ⟨hmp, hmpr⟩ := moduleStep_balanced hs hP hstep
    exact (hmpr (hmp hP')).2

/-- The attempt succeeds, and the exit writes to the block that it freed. -/
theorem exit_writes_freed_block :
    ¬ Always (moduleStep ⟨.other, false, false, true, false⟩)
      (Balanced ⟨.other, false, false, true, false⟩)
      [.init { kmalloc := true, region := 0, allocMajor := 0, cdevAdd := 0
               classCreate := true, deviceCreate := true, requestIrq := 0
               ofIomap := fun _ => true, clkStep := fun _ => true
               sysfsCreateGroup := 0, debugRoot := true
               debugfsCreateFile := true, procBuf := true
               regulatorGet := true }, .exit]
      (.load 150 0) := by
  intro h
  have hexit := ((h.2 _ rfl).2 _ rfl).head
  cases hexit.noBadAccess

end LonganPi.Ve.Lifecycle
