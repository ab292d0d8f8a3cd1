import LonganPi.Errno
import LonganPi.Ve.CaseLoad

/-!
# The load table and the files that fill it

A file gets a process channel id from a counter when it is opened, and every
load that is stored through it carries the id.  `cedardev_release` takes the
loads of the file out of the table again, so that an aborted process does not
count as a stream for ever.

`Withdrawn` is what that promises: a used slot belongs to an open file, a
close changes no slot of another open file, and no two open files have the
same id.  It breaks in three places:

* `remove_case_load_param_by_process_id_sun55iw3` leaves its loop after the
  first slot, but a file has one for each thread channel;
* `cedardev_release` returns before the removal when a signal is pending;
* the counter starts over after `0xefffffff` ids, whatever files are open.

`loadFileGuard` is the condition that none of the three happens, and
`withdrawn_iff` says that it is exact.  The model starts after
`cedardev_init`.
-/

namespace LonganPi.Ve

open Transition

/-! ## State and calls -/

/-- The load table, the counter of the ids and the open files.  A file is
numbered by its open. -/
structure LoadFiles where
  loads : CaseLoads
  processChannelIdCnt : BitVec 32
  /-- `process_channel_id` of the open files. -/
  files : Nat → Option (BitVec 32)
  /-- The opens so far that succeeded. -/
  opened : Nat
  /-- The file that a slot was created through.  No function reads it. -/
  creator : Fin maxVeLoadParamChannel → Nat
  /-- A close has changed a slot of another open file.  No function reads
  it. -/
  otherChanged : Bool

/-- After `cedardev_init`. -/
def LoadFiles.init (userSettingVeFreq : BitVec 32) : LoadFiles where
  loads := .zeroed userSettingVeFreq
  processChannelIdCnt := 0
  files := fun _ => none
  opened := 0
  creator := fun _ => 0
  otherChanged := false

/-- The next value of `process_channel_id_cnt`. -/
def nextChannelId (cnt : BitVec 32) : BitVec 32 :=
  if (cnt + 1).toNat > 0xefffffff then 0 else cnt + 1

/-- How far `cedardev_open` gets. -/
inductive OpenOutcome
  | noMem
  | interrupted
  | opened
  deriving DecidableEq, Repr

/-- `cedardev_open`.  An open that is interrupted has used up an id. -/
def openLoadFile (s : LoadFiles) : OpenOutcome → LoadFiles × Int
  | .noMem => (s, eNomem)
  | .interrupted =>
    ({ s with processChannelIdCnt := nextChannelId s.processChannelIdCnt },
      eRestartsys)
  | .opened =>
    let processChannelId := nextChannelId s.processChannelIdCnt
    ({ s with
        processChannelIdCnt := processChannelId
        files := Function.update s.files s.opened (some processChannelId)
        opened := s.opened + 1 }, 0)

/-- The creators after an update through the file `f`: a free slot that is
filled is one of `f`. -/
def LoadFiles.creatorAfter (s : LoadFiles) (f : Nat) (thread process : BitVec 32) :
    Fin maxVeLoadParamChannel → Nat :=
  match findSlot s.loads thread process with
  | none => s.creator
  | some i =>
    if (s.loads.loadInfos i).isUsed = 1 then s.creator
    else Function.update s.creator i f

/-- `IOCTL_UPDATE_CASE_LOAD_PARAM`, with what `copy_from_user` reads unless it
fails.  The result of the update is dropped. -/
def ioctlUpdateCaseLoadParam (s : LoadFiles) (f : Nat) (process : BitVec 32) :
    Option CaseLoadParam → LoadFiles × Int
  | none => (s, eFault)
  | some p =>
    let loads := (updateCaseLoadParam s.loads p process).1
    ({ s with
        loads := (adjustVeFreqByCaseLoad loads).1
        creator := s.creatorAfter f p.threadChannelId process }, 0)

/-- `remove_case_load_param_by_process_id_sun55iw3`.  The loop ends at the
first slot that it clears. -/
def removeCaseLoadParamByProcessId (c : CaseLoads) (process : BitVec 32) :
    CaseLoads :=
  match scanOrder.find? fun i => (c.loadInfos i).isUsed == 1 &&
      process == (c.loadInfos i).processChannelId with
  | none => c
  | some i => { c with loadInfos := Function.update c.loadInfos i .zero }

/-- `cedardev_release`.  The file is gone whatever it returns. -/
def releaseLoadFile (s : LoadFiles) (f : Nat) (process : BitVec 32)
    (interrupted : Bool) : LoadFiles × Int :=
  let s := { s with files := Function.update s.files f none }
  if interrupted then (s, eRestartsys)
  else
    ({ s with loads := removeCaseLoadParamByProcessId s.loads process }, 0)

/-- A slot of an open file other than `f` differs in the table `c`. -/
def LoadFiles.OtherDiffers (s : LoadFiles) (f : Nat) (c : CaseLoads) : Prop :=
  ∃ i, (s.loads.loadInfos i).isUsed = 1 ∧ s.creator i ≠ f ∧
    s.files (s.creator i) ≠ none ∧ c.loadInfos i ≠ s.loads.loadInfos i

instance (s : LoadFiles) (f : Nat) (c : CaseLoads) :
    Decidable (s.OtherDiffers f c) :=
  inferInstanceAs (Decidable (∃ _, _))

/-- A call of a process. -/
inductive LoadFileOp
  | openFile (o : OpenOutcome)
  | update (f : Nat) (p : Option CaseLoadParam)
  | closeFile (f : Nat) (interrupted : Bool)
  deriving DecidableEq, Repr

/-- One call.  The file of an update or of a close is open. -/
def loadFileStep (s : LoadFiles) : LoadFileOp → Option LoadFiles
  | .openFile o => some (openLoadFile s o).1
  | .update f p =>
    (s.files f).map fun process => (ioctlUpdateCaseLoadParam s f process p).1
  | .closeFile f interrupted =>
    (s.files f).map fun process =>
      let s' := (releaseLoadFile s f process interrupted).1
      { s' with
        otherChanged := s.otherChanged || decide (s.OtherDiffers f s'.loads) }

/-! ## The promise of a close -/

/-- Every used slot was created through a file that is still open, no close
has changed a slot of another open file, and no two open files have the same
id. -/
structure Withdrawn (s : LoadFiles) : Prop where
  noLeftover : ∀ i, (s.loads.loadInfos i).isUsed = 1 →
    s.files (s.creator i) ≠ none
  othersKept : s.otherChanged = false
  distinctIds : ∀ f g process, s.files f = some process →
    s.files g = some process → f = g

/-- The file `f` has a slot at `i`. -/
def LoadFiles.Owns (s : LoadFiles) (f : Nat) (i : Fin maxVeLoadParamChannel) :
    Prop :=
  (s.loads.loadInfos i).isUsed = 1 ∧ s.creator i = f

/-- The condition on a call: the next id is free when a file is opened, and a
file has at most one slot when it is closed, and none when the close is
interrupted. -/
def loadFileGuard (s : LoadFiles) : LoadFileOp → Prop
  | .openFile .opened =>
    ∀ f, s.files f ≠ some (nextChannelId s.processChannelIdCnt)
  | .openFile _ => True
  | .update _ _ => True
  | .closeFile f true => ∀ i, ¬ s.Owns f i
  | .closeFile f false => ∀ i j, s.Owns f i → s.Owns f j → i = j

/-- What else holds in every state: a slot has the id of its creator, and the
files so far have the numbers below `opened`. -/
structure LoadFilesInv (s : LoadFiles) : Prop where
  ids : ∀ i process, (s.loads.loadInfos i).isUsed = 1 →
    s.files (s.creator i) = some process →
    (s.loads.loadInfos i).processChannelId = process
  numbered : ∀ f, s.files f ≠ none → f < s.opened

variable {s s' : LoadFiles} {f : Nat} {process : BitVec 32}

/-! ## Opens -/

theorem open_withdrawn {o : OpenOutcome} (hinv : LoadFilesInv s)
    (h : Withdrawn s) :
    (Withdrawn (openLoadFile s o).1 ↔ loadFileGuard s (.openFile o)) ∧
      LoadFilesInv (openLoadFile s o).1 := by
  cases o with
  | noMem => exact ⟨iff_of_true h trivial, hinv⟩
  | interrupted =>
    exact ⟨iff_of_true ⟨h.noLeftover, h.othersKept, h.distinctIds⟩ trivial,
      hinv.ids, hinv.numbered⟩
  | opened =>
    set id := nextChannelId s.processChannelIdCnt with hid
    have hnew : ∀ {g}, s.files g ≠ none → g ≠ s.opened := fun hg =>
      Nat.ne_of_lt (hinv.numbered _ hg)
    have hself : (openLoadFile s .opened).1.files s.opened = some id :=
      Function.update_self _ _ _
    have hold : ∀ {g}, g ≠ s.opened →
        (openLoadFile s .opened).1.files g = s.files g :=
      fun hg => Function.update_of_ne hg _ _
    refine ⟨⟨fun h' f hf => ?_, fun hguard => ?_⟩, ?_, ?_⟩
    · -- the file `f` and the new one would share the id
      have hne := hnew (show s.files f ≠ none by rw [hf]; exact Option.some_ne_none id)
      exact hne (h'.distinctIds f s.opened id ((hold hne).trans hf) hself)
    · refine ⟨fun i hi => ?_, h.othersKept, fun f g process hf hg => ?_⟩
      · have hopen := h.noLeftover i hi
        exact fun hnone => hopen ((hold (hnew hopen)).symm.trans hnone)
      · by_cases hfn : f = s.opened
        · by_cases hgn : g = s.opened
          · exact hfn.trans hgn.symm
          · have hid' : some id = some process := by
              rw [← hf, hfn, hself]
            exact absurd ((hold hgn).symm.trans (hg.trans hid'.symm)) (hguard g)
        · by_cases hgn : g = s.opened
          · have hid' : some id = some process := by
              rw [← hg, hgn, hself]
            exact absurd ((hold hfn).symm.trans (hf.trans hid'.symm)) (hguard f)
          · exact h.distinctIds f g process ((hold hfn).symm.trans hf)
              ((hold hgn).symm.trans hg)
    · intro i process hi hcreator
      have hopen := h.noLeftover i hi
      exact hinv.ids i process hi ((hold (hnew hopen)).symm.trans hcreator)
    · intro g hg
      show g < s.opened + 1
      by_cases hgn : g = s.opened
      · omega
      · have := hinv.numbered g fun hnone => hg ((hold hgn).trans hnone)
        omega

/-! ## Updates -/

/-- The slot that an update edits has the key, or it is free. -/
theorem findSlot_spec {c : CaseLoads} {thread : BitVec 32}
    {i : Fin maxVeLoadParamChannel} (h : findSlot c thread process = some i) :
    (c.loadInfos i).isUsed = 1 ∧ (c.loadInfos i).processChannelId = process ∨
      (c.loadInfos i).isUsed = 0 := by
  unfold findSlot at h
  cases hmatch : scanOrder.find? fun i =>
      (c.loadInfos i).matchesKey thread process with
  | some j =>
    rw [hmatch] at h
    obtain rfl := Option.some.inj h
    have hfound : (c.loadInfos j).matchesKey thread process = true := by
      simpa using List.find?_some hmatch
    simp only [CaseLoadInfo.matchesKey, Bool.and_eq_true, beq_iff_eq] at hfound
    exact Or.inl ⟨hfound.1.1, hfound.2.symm⟩
  | none =>
    rw [hmatch] at h
    exact Or.inr (by simpa using List.find?_some h)

/-- An adjustment keeps the owner of a slot. -/
theorem adjust_owner (c : CaseLoads) (i : Fin maxVeLoadParamChannel) :
    ((adjustVeFreqByCaseLoad c).1.loadInfos i).isUsed = (c.loadInfos i).isUsed ∧
      ((adjustVeFreqByCaseLoad c).1.loadInfos i).processChannelId
        = (c.loadInfos i).processChannelId := by
  rw [adjust_loadInfos]
  unfold CaseLoadInfo.rated
  split_ifs <;> exact ⟨rfl, rfl⟩

/-- A used slot after an update is one from before, or it is one of the file
that made the update. -/
theorem update_slot {p : CaseLoadParam} {i : Fin maxVeLoadParamChannel}
    (hi : ((updateCaseLoadParam s.loads p process).1.loadInfos i).isUsed = 1) :
    ((s.loads.loadInfos i).isUsed = 1 ∧
        s.creatorAfter f p.threadChannelId process i = s.creator i ∧
        ((updateCaseLoadParam s.loads p process).1.loadInfos i).processChannelId
          = (s.loads.loadInfos i).processChannelId) ∨
      (s.creatorAfter f p.threadChannelId process i = f ∧
        ((updateCaseLoadParam s.loads p process).1.loadInfos i).processChannelId
          = process) := by
  unfold updateCaseLoadParam LoadFiles.creatorAfter at *
  cases hfind : findSlot s.loads p.threadChannelId process with
  | none =>
    simp only [hfind] at hi ⊢
    exact Or.inl ⟨hi, trivial, trivial⟩
  | some j =>
    simp only [hfind] at hi ⊢
    by_cases hij : i = j
    · subst hij
      rw [Function.update_self] at hi ⊢
      by_cases hremove : p.isRemoveCurParam = 1
      · rw [if_pos hremove] at hi
        cases hi
      · rw [if_neg hremove]
        rcases findSlot_spec hfind with ⟨hused, hprocess⟩ | hfree
        · rw [if_pos hused]
          exact Or.inl ⟨hused, rfl, hprocess.symm⟩
        · rw [if_neg (by rw [hfree]; decide), Function.update_self]
          exact Or.inr ⟨rfl, rfl⟩
    · rw [Function.update_of_ne hij] at hi ⊢
      refine Or.inl ⟨hi, ?_, rfl⟩
      split_ifs
      · rfl
      · exact Function.update_of_ne hij _ _

theorem update_withdrawn {p : Option CaseLoadParam} (hinv : LoadFilesInv s)
    (h : Withdrawn s) (hf : s.files f = some process) :
    Withdrawn (ioctlUpdateCaseLoadParam s f process p).1 ∧
      LoadFilesInv (ioctlUpdateCaseLoadParam s f process p).1 := by
  cases p with
  | none => exact ⟨h, hinv⟩
  | some p =>
    set c := (updateCaseLoadParam s.loads p process).1 with hc
    have hadjust := adjust_owner c
    refine ⟨⟨fun i hi => ?_, h.othersKept, h.distinctIds⟩, fun i q hi hq => ?_,
      hinv.numbered⟩
    · show s.files (s.creatorAfter f p.threadChannelId process i) ≠ none
      rcases update_slot (f := f) (show (c.loadInfos i).isUsed = 1 from
        (hadjust i).1.symm.trans hi) with ⟨hused, hcreator, -⟩ | ⟨hcreator, -⟩
      · rw [hcreator]
        exact h.noLeftover i hused
      · rw [hcreator, hf]
        exact Option.some_ne_none process
    · show ((adjustVeFreqByCaseLoad c).1.loadInfos i).processChannelId = q
      rw [(hadjust i).2]
      have hq' : s.files (s.creatorAfter f p.threadChannelId process i)
          = some q := hq
      rcases update_slot (f := f) (show (c.loadInfos i).isUsed = 1 from
        (hadjust i).1.symm.trans hi) with
        ⟨hused, hcreator, hprocess⟩ | ⟨hcreator, hprocess⟩
      · rw [hcreator] at hq'
        rw [hc, hprocess]
        exact hinv.ids i q hused hq'
      · rw [hcreator, hf] at hq'
        rw [hc, hprocess]
        exact Option.some.inj hq'

/-! ## Closes -/

/-- The slots with the id of an open file are the slots of the file. -/
theorem owns_iff (hinv : LoadFilesInv s) (h : Withdrawn s)
    (hf : s.files f = some process) {i : Fin maxVeLoadParamChannel} :
    s.Owns f i ↔ (s.loads.loadInfos i).isUsed = 1 ∧
      process = (s.loads.loadInfos i).processChannelId := by
  constructor
  · intro howned
    obtain ⟨hused, hcreator⟩ := howned
    exact ⟨hused, (hinv.ids i process hused (hcreator ▸ hf)).symm⟩
  · intro howned
    obtain ⟨hused, hprocess⟩ := howned
    obtain ⟨q, hq⟩ := Option.ne_none_iff_exists'.mp (h.noLeftover i hused)
    have hsame : process = q := hprocess.trans (hinv.ids i q hused hq)
    exact ⟨hused, h.distinctIds _ _ process (hsame ▸ hq) hf⟩

/-- The removal clears one slot of the file, if it has any. -/
theorem remove_cases (hinv : LoadFilesInv s) (h : Withdrawn s)
    (hf : s.files f = some process) :
    ((∀ i, ¬ s.Owns f i) ∧
        removeCaseLoadParamByProcessId s.loads process = s.loads) ∨
      ∃ i, s.Owns f i ∧ removeCaseLoadParamByProcessId s.loads process
        = { s.loads with
            loadInfos := Function.update s.loads.loadInfos i .zero } := by
  unfold removeCaseLoadParamByProcessId
  cases hfind : scanOrder.find? fun i => (s.loads.loadInfos i).isUsed == 1 &&
      process == (s.loads.loadInfos i).processChannelId with
  | none =>
    refine Or.inl ⟨fun i hi => ?_, rfl⟩
    rw [List.find?_eq_none] at hfind
    obtain ⟨hused, hprocess⟩ := (owns_iff hinv h hf).mp hi
    exact hfind i (mem_scanOrder i) (by simp [hused, ← hprocess])
  | some i =>
    have hfound := List.find?_some hfind
    simp only [Bool.and_eq_true, beq_iff_eq] at hfound
    exact Or.inr ⟨i, (owns_iff hinv h hf).mpr hfound, rfl⟩

/-- A close that leaves the table `c`, in which the slots of other files are as
they were. -/
theorem close_withdrawn (hinv : LoadFilesInv s) (h : Withdrawn s)
    {c : CaseLoads}
    (hkept : ∀ i, (s.loads.loadInfos i).isUsed = 1 → s.creator i ≠ f →
      c.loadInfos i = s.loads.loadInfos i)
    (hused : ∀ i, (c.loadInfos i).isUsed = 1 →
      c.loadInfos i = s.loads.loadInfos i) :
    let s' : LoadFiles := { s with
      files := Function.update s.files f none
      loads := c
      otherChanged := s.otherChanged || decide (s.OtherDiffers f c) }
    (Withdrawn s' ↔ ∀ i, (c.loadInfos i).isUsed = 1 → s.creator i ≠ f) ∧
      LoadFilesInv s' := by
  have hclosed : ∀ {g q}, Function.update s.files f none g = some q →
      s.files g = some q := by
    intro g q hg
    by_cases hgf : g = f
    · rw [hgf, Function.update_self] at hg
      cases hg
    · rwa [Function.update_of_ne hgf] at hg
  refine ⟨⟨fun h' i hi hif => ?_, fun hgone => ⟨fun i hi => ?_, ?_, ?_⟩⟩, ?_, ?_⟩
  · refine h'.noLeftover i hi ?_
    rw [hif]
    exact Function.update_self _ _ _
  · show Function.update s.files f none (s.creator i) ≠ none
    rw [Function.update_of_ne (hgone i hi)]
    exact h.noLeftover i (hused i hi ▸ hi)
  · have hsame : ¬ s.OtherDiffers f c := by
      intro hchanged
      obtain ⟨i, hi, hif, -, hdiff⟩ := hchanged
      exact hdiff (hkept i hi hif)
    show (s.otherChanged || decide (s.OtherDiffers f c)) = false
    rw [h.othersKept, decide_eq_false hsame]
    rfl
  · intro g g' q hg hg'
    exact h.distinctIds g g' q (hclosed hg) (hclosed hg')
  · intro i q hi hq
    show (c.loadInfos i).processChannelId = q
    rw [hused i hi]
    exact hinv.ids i q (hused i hi ▸ hi) (hclosed hq)
  · intro g hg
    obtain ⟨q, hq⟩ := Option.ne_none_iff_exists'.mp hg
    exact hinv.numbered g (by rw [hclosed hq]; exact Option.some_ne_none q)

/-! ## Runs -/

theorem loadFileStep_withdrawn {op : LoadFileOp} (hinv : LoadFilesInv s)
    (h : Withdrawn s) (hstep : loadFileStep s op = some s') :
    (Withdrawn s' ↔ loadFileGuard s op) ∧ LoadFilesInv s' := by
  cases op with
  | openFile o =>
    obtain rfl := Option.some.inj hstep
    exact open_withdrawn hinv h
  | update f p =>
    obtain ⟨process, hf, rfl⟩ := Option.map_eq_some_iff.mp hstep
    obtain ⟨h', hinv'⟩ := update_withdrawn (p := p) hinv h hf
    exact ⟨iff_of_true h' trivial, hinv'⟩
  | closeFile f interrupted =>
    obtain ⟨process, hf, rfl⟩ := Option.map_eq_some_iff.mp hstep
    cases interrupted with
    | true =>
      obtain ⟨hiff, hinv'⟩ := close_withdrawn (f := f) (c := s.loads) hinv h
        (fun _ _ _ => rfl) (fun _ _ => rfl)
      refine ⟨hiff.trans ⟨fun hgone i hi => hgone i hi.1 hi.2,
        fun hnone i hi hif => ?_⟩, hinv'⟩
      exact hnone i ⟨hi, hif⟩
    | false =>
      rcases remove_cases hinv h hf with ⟨hnone, heq⟩ | ⟨i, hi, heq⟩
      · obtain ⟨hiff, hinv'⟩ := close_withdrawn (f := f) (c := s.loads) hinv h
          (fun _ _ _ => rfl) (fun _ _ => rfl)
        simp only [releaseLoadFile, Bool.false_eq_true, if_false, heq]
        refine ⟨hiff.trans (iff_of_true ?_ ?_), hinv'⟩
        · exact fun j hj hjf => hnone j ⟨hj, hjf⟩
        · exact fun j _ hj _ => absurd hj (hnone j)
      · have hother : ∀ j, j ≠ i →
            Function.update s.loads.loadInfos i .zero j
              = s.loads.loadInfos j := fun j hj => Function.update_of_ne hj _ _
        have hcleared : (Function.update s.loads.loadInfos i .zero i).isUsed
            ≠ 1 := by
          rw [Function.update_self]
          decide
        have hne : ∀ j, (Function.update s.loads.loadInfos i .zero j).isUsed
            = 1 → j ≠ i := by
          intro j hj heq
          subst heq
          exact hcleared hj
        obtain ⟨hiff, hinv'⟩ := close_withdrawn (f := f)
          (c := { s.loads with
            loadInfos := Function.update s.loads.loadInfos i .zero }) hinv h
          (fun j _ hjf => hother j fun hji => hjf (hji ▸ hi.2))
          (fun j hj => hother j (hne j hj))
        simp only [releaseLoadFile, Bool.false_eq_true, if_false, heq]
        refine ⟨hiff.trans ⟨fun hgone => ?_, fun hone j hj hjf => ?_⟩, hinv'⟩
        · -- every slot of the file is the one that was cleared
          have hall : ∀ j, s.Owns f j → j = i := by
            intro j hj
            by_contra hji
            exact hgone j ((congrArg CaseLoadInfo.isUsed (hother j hji)).trans
              hj.1) hj.2
          exact fun j k hj hk => (hall j hj).trans (hall k hk).symm
        · have hji := hne j hj
          exact hji (hone j i ⟨(congrArg CaseLoadInfo.isUsed
            (hother j hji)).symm.trans hj, hjf⟩ hi)

/-- Every close withdraws the loads of its file, and no two open files share
an id, in every state of a run exactly when every call meets
`loadFileGuard`. -/
theorem withdrawn_iff (userSettingVeFreq : BitVec 32) (ops : List LoadFileOp) :
    Always loadFileStep Withdrawn ops (.init userSettingVeFreq) ↔
      Guarded loadFileStep loadFileGuard ops (.init userSettingVeFreq) := by
  refine always_iff_guarded (I := LoadFilesInv) ?_ ?_ ?_ ?_ ops
  · exact fun _ _ _ hinv h hstep => (loadFileStep_withdrawn hinv h hstep).1
  · exact fun _ _ _ hinv h hstep _ => (loadFileStep_withdrawn hinv h hstep).2
  · exact ⟨fun _ _ hi => (by cases hi), fun _ hf => absurd rfl hf⟩
  · exact ⟨fun _ hi => (by cases hi), rfl, fun _ _ _ hf => (by cases hf)⟩

/-- A file with two thread channels is closed, and the second slot stays. -/
theorem second_thread_stays :
    ¬ Always loadFileStep Withdrawn
      [.openFile .opened,
        .update 0 (some ⟨1920, 1088, 30, 2, 0, 0⟩),
        .update 0 (some ⟨1920, 1088, 30, 2, 0, 1⟩),
        .closeFile 0 false] (.init 300) := by
  intro h
  have hlast := (h.of_run rfl).noLeftover 1 (by decide +kernel)
  exact hlast (by decide +kernel)

end LonganPi.Ve
