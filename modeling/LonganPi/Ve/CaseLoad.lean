import LonganPi.Lib.SlotMap
import LonganPi.Lib.Transition
import Mathlib.Data.BitVec

/-!
# The load table of the VE driver

`IOCTL_UPDATE_CASE_LOAD_PARAM` stores what a decoder or an encoder says about
its stream in one of 16 slots, and adjusts the frequency of the engine to all
the streams.  A slot is found by its process channel and thread channel, and
zero is a legal value of both.

`LoadMap` is what the table is for: a map from the two channels to the
parameters, with at most 16 keys.

* `update_represents` and `adjust_represents`: what the two functions do to
  the map that the table stands for.
* `caseLoads_refine`: the table stands for the map in every state of a run, and
  an update returns what the map says.
-/

namespace LonganPi.Ve

open SlotMap Transition

/-! ## The table -/

/-- `struct ve_case_load_param`. -/
structure CaseLoadParam where
  width : BitVec 32
  height : BitVec 32
  frameRate : BitVec 32
  codecFormat : BitVec 32
  isRemoveCurParam : BitVec 32
  threadChannelId : BitVec 32
  deriving DecidableEq, Repr

/-- `struct ve_case_load_info`. -/
structure CaseLoadInfo where
  loadParam : CaseLoadParam
  isUsed : BitVec 32
  processChannelId : BitVec 32
  deriving DecidableEq, Repr

/-- `memset(.., 0, sizeof(struct ve_case_load_info))`. -/
def CaseLoadInfo.zero : CaseLoadInfo := ⟨⟨0, 0, 0, 0, 0, 0⟩, 0, 0⟩

/-- `MAX_VE_LOAD_PARAM_CHANNEL`. -/
abbrev maxVeLoadParamChannel : Nat := 16

/-- The members of `struct cedar_dev` that the load functions use. -/
structure CaseLoads where
  loadInfos : Fin maxVeLoadParamChannel → CaseLoadInfo
  userSettingVeFreq : BitVec 32

/-- After the `memset` of `cedardev_init`. -/
def CaseLoads.zeroed (userSettingVeFreq : BitVec 32) : CaseLoads where
  loadInfos := fun _ => .zero
  userSettingVeFreq := userSettingVeFreq

/-- The slots in the order of a scan. -/
def scanOrder : List (Fin maxVeLoadParamChannel) :=
  List.finRange maxVeLoadParamChannel

/-- The test of the match scan. -/
def CaseLoadInfo.matchesKey (info : CaseLoadInfo) (thread process : BitVec 32) :
    Bool :=
  info.isUsed == 1 && thread == info.loadParam.threadChannelId &&
    process == info.processChannelId

/-- The slot that `update_case_load_param_sun55iw3` edits: the one that
matches, or else the first free one. -/
def findSlot (c : CaseLoads) (thread process : BitVec 32) :
    Option (Fin maxVeLoadParamChannel) :=
  match scanOrder.find? fun i => (c.loadInfos i).matchesKey thread process with
  | some i => some i
  | none => scanOrder.find? fun i => (c.loadInfos i).isUsed == 0

/-- `update_case_load_param_sun55iw3`. -/
def updateCaseLoadParam (c : CaseLoads) (p : CaseLoadParam)
    (process : BitVec 32) : CaseLoads × Int :=
  match findSlot c p.threadChannelId process with
  | none => (c, -1)
  | some i =>
    let info : CaseLoadInfo :=
      if p.isRemoveCurParam = 1 then .zero
      else { loadParam := p, isUsed := 1, processChannelId := process }
    ({ c with loadInfos := Function.update c.loadInfos i info }, 0)

/-! ## The frequency -/

/-- `VE_DECODER_FORMAT_H264` and its neighbours in the enumeration. -/
def veDecoderFormatH264 : BitVec 32 := 2
def veDecoderFormatH265 : BitVec 32 := 3
def veDecoderFormatVp9 : BitVec 32 := 4
def veDecoderFormatOther : BitVec 32 := 5
def veDecoderFormatMax : BitVec 32 := 0x100

/-- `VE_PERFORMANCE_MAX_FREQ`. -/
def vePerformanceMaxFreq : BitVec 32 := 900

/-- `struct performat_info` but for the level, which nothing reads. -/
structure PerformatInfo where
  codecFormat : BitVec 32
  startPixels : BitVec 32
  endPixels : BitVec 32
  veFreq : BitVec 32

/-- The four levels of a format, with the frequencies of the first two. -/
def performatLevels (codecFormat level1 level2 : BitVec 32) :
    List PerformatInfo :=
  [⟨codecFormat, 0, 1280 * 736 * 60, level1⟩,
    ⟨codecFormat, 1280 * 736 * 60 + 1, 1920 * 1088 * 30, level2⟩,
    ⟨codecFormat, 1920 * 1088 * 30 + 1, 1920 * 1088 * 60, 350⟩,
    ⟨codecFormat, 1920 * 1088 * 60 + 1, 7680 * 4320 * 60, vePerformanceMaxFreq⟩]

/-- `decoder_perform_sun55iw3`. -/
def decoderPerform : List PerformatInfo :=
  performatLevels veDecoderFormatH264 100 200 ++
    performatLevels veDecoderFormatH265 100 150 ++
    performatLevels veDecoderFormatVp9 150 200 ++
    [⟨veDecoderFormatOther, 0, 7680 * 4320 * 60, vePerformanceMaxFreq⟩]

/-- The table and the local variables of
`adjust_ve_freq_by_case_load_sun55iw3`. -/
structure LoadScan where
  loadInfos : Fin maxVeLoadParamChannel → CaseLoadInfo
  totalLoadPixels : BitVec 32
  decoderChannelNum : Nat
  encoderChannelNum : Nat
  hadDifferentCodecChannel : Bool
  previousCodecFormat : BitVec 32
  curCodecFormat : BitVec 32

/-- The body of the first loop.  Products and sums are those of 32-bit
words. -/
def scanSlot (a : LoadScan) (i : Fin maxVeLoadParamChannel) : LoadScan :=
  let info := a.loadInfos i
  if info.isUsed = 1 then
    let rate := if info.loadParam.frameRate.toInt ≤ 0 then 60
      else info.loadParam.frameRate
    let p := { info.loadParam with frameRate := rate }
    let previous := if a.previousCodecFormat = -1 then p.codecFormat
      else a.previousCodecFormat
    let isDecoder := p.codecFormat.toInt < veDecoderFormatMax.toInt
    { loadInfos := Function.update a.loadInfos i { info with loadParam := p }
      totalLoadPixels := a.totalLoadPixels + p.width * p.height * p.frameRate
      decoderChannelNum := a.decoderChannelNum + if isDecoder then 1 else 0
      encoderChannelNum := a.encoderChannelNum + if isDecoder then 0 else 1
      hadDifferentCodecChannel :=
        a.hadDifferentCodecChannel || previous != p.codecFormat
      previousCodecFormat := previous
      curCodecFormat := p.codecFormat }
  else a

/-- The first loop of `adjust_ve_freq_by_case_load_sun55iw3`. -/
def scanLoads (c : CaseLoads) : LoadScan :=
  scanOrder.foldl scanSlot
    { loadInfos := c.loadInfos, totalLoadPixels := 0
      decoderChannelNum := 0, encoderChannelNum := 0
      hadDifferentCodecChannel := false
      previousCodecFormat := -1, curCodecFormat := -1 }

/-- `adjust_ve_freq_by_case_load_sun55iw3`, and the frequency that it gives to
`setup_ve_freq` if it calls it. -/
@[irreducible] def adjustVeFreqByCaseLoad (c : CaseLoads) : CaseLoads × Option (BitVec 32) :=
  let a := scanLoads c
  let c := { c with loadInfos := a.loadInfos }
  if a.decoderChannelNum + a.encoderChannelNum = 0 then (c, none)
  else if a.encoderChannelNum > 0 ∨ a.decoderChannelNum > 2 ∨
      a.hadDifferentCodecChannel = true then (c, some c.userSettingVeFreq)
  else
    match decoderPerform.find? fun q => a.curCodecFormat == q.codecFormat &&
        a.totalLoadPixels ≥ q.startPixels && a.totalLoadPixels ≤ q.endPixels with
    | none => (c, none)
    | some q =>
      (c, some (if q.veFreq = vePerformanceMaxFreq then c.userSettingVeFreq
        else q.veFreq))

/-! ## The map -/

/-- The process channel and the thread channel. -/
abbrev LoadKey := BitVec 32 × BitVec 32

/-- The parameters of each stream. -/
abbrev LoadMap := LoadKey → Option CaseLoadParam

/-- A key is deleted, or it is overwritten, or it is inserted while there are
fewer than 16. -/
noncomputable def LoadMap.update (m : LoadMap) (p : CaseLoadParam)
    (process : BitVec 32) : LoadMap × Int :=
  open Classical in
  let k : LoadKey := (process, p.threadChannelId)
  if m k = none ∧ ¬ (keys m).ncard < maxVeLoadParamChannel then (m, -1)
  else if p.isRemoveCurParam = 1 then (Function.update m k none, 0)
  else (Function.update m k (some p), 0)

/-- A frame rate that is not positive becomes 60. -/
def CaseLoadParam.rated (p : CaseLoadParam) : CaseLoadParam :=
  if p.frameRate.toInt ≤ 0 then { p with frameRate := 60 } else p

/-- Only frame rates change. -/
def LoadMap.adjust (m : LoadMap) : LoadMap := fun k => (m k).map (·.rated)

/-- A slot of the table, as a slot of a map. -/
def CaseLoadInfo.entry (info : CaseLoadInfo) : Option (LoadKey × CaseLoadParam) :=
  if info.isUsed = 1 then
    some ((info.processChannelId, info.loadParam.threadChannelId), info.loadParam)
  else none

/-- The slots of the table. -/
def CaseLoads.slots (c : CaseLoads) :
    Slots (Fin maxVeLoadParamChannel) LoadKey CaseLoadParam :=
  fun i => (c.loadInfos i).entry

/-- A call of one of the two functions. -/
inductive LoadOp
  | update (p : CaseLoadParam) (process : BitVec 32)
  | adjust

/-- The table beside the map. -/
noncomputable def loadStep (s : CaseLoads × LoadMap) :
    LoadOp → Option (CaseLoads × LoadMap)
  | .update p process =>
    some ((updateCaseLoadParam s.1 p process).1, (s.2.update p process).1)
  | .adjust => some ((adjustVeFreqByCaseLoad s.1).1, s.2.adjust)

/-- The table stands for the map, no two used slots have the same key, every
update returns what the map says, and it returns -1 and leaves the table
alone exactly when the key is absent and every slot is in use. -/
structure LoadRefines (s : CaseLoads × LoadMap) : Prop where
  represents : Represents s.1.slots s.2
  result : ∀ p process,
    (updateCaseLoadParam s.1 p process).2 = (s.2.update p process).2
  refused : ∀ p process, updateCaseLoadParam s.1 p process = (s.1, -1) ↔
    s.2 (process, p.threadChannelId) = none ∧ ∀ i, (s.1.loadInfos i).isUsed = 1

/-! ## The two scans -/

/-- Every slot is used or free. -/
def CaseLoads.Flagged (c : CaseLoads) : Prop :=
  ∀ i, (c.loadInfos i).isUsed = 0 ∨ (c.loadInfos i).isUsed = 1

variable {c : CaseLoads} {m : LoadMap} {p : CaseLoadParam}
  {thread process : BitVec 32} {i : Fin maxVeLoadParamChannel}

theorem mem_scanOrder (i : Fin maxVeLoadParamChannel) : i ∈ scanOrder :=
  List.mem_finRange i

/-- A slot that matches is an entry of the key. -/
theorem slot_of_matches {info : CaseLoadInfo}
    (h : info.matchesKey thread process = true) :
    info.entry = some ((process, thread), info.loadParam) := by
  simp only [CaseLoadInfo.matchesKey, Bool.and_eq_true, beq_iff_eq] at h
  obtain ⟨⟨hused, hthread⟩, hprocess⟩ := h
  rw [CaseLoadInfo.entry, if_pos hused, hthread, hprocess]

theorem matches_of_slot {info : CaseLoadInfo} {q : CaseLoadParam}
    (h : info.entry = some ((process, thread), q)) :
    info.matchesKey thread process = true := by
  rw [CaseLoadInfo.entry] at h
  split_ifs at h with hused
  simp only [Option.some.injEq, Prod.mk.injEq] at h
  obtain ⟨⟨hprocess, hthread⟩, -⟩ := h
  simp [CaseLoadInfo.matchesKey, hused, hprocess, hthread]

/-- A slot is free when its flag is 0. -/
theorem slot_none_iff (hf : c.Flagged) :
    c.slots i = none ↔ (c.loadInfos i).isUsed = 0 := by
  rw [CaseLoads.slots, CaseLoadInfo.entry]
  rcases hf i with hfree | hused
  · simp [hfree]
  · simp [hused]

/-- The slot that an update edits: the one with its key when there is one,
else a free one when there is one. -/
theorem findSlot_cases (thread process : BitVec 32) (h : Represents c.slots m) (hf : c.Flagged) :
    (∃ i q, findSlot c thread process = some i ∧
      c.slots i = some ((process, thread), q)) ∨
    (∃ i, findSlot c thread process = some i ∧ c.slots i = none ∧
      m (process, thread) = none) ∨
    (findSlot c thread process = none ∧ m (process, thread) = none ∧
      ∀ i, (c.loadInfos i).isUsed = 1) := by
  unfold findSlot
  cases hmatch : scanOrder.find? fun i =>
      (c.loadInfos i).matchesKey thread process with
  | some i =>
    have hfound : (c.loadInfos i).matchesKey thread process = true := by
      simpa using List.find?_some hmatch
    exact Or.inl ⟨i, _, rfl, slot_of_matches hfound⟩
  | none =>
    have habsent : m (process, thread) = none := by
      rw [h.absent_iff]
      intro i q hi
      rw [List.find?_eq_none] at hmatch
      exact hmatch i (mem_scanOrder i) (matches_of_slot hi)
    cases hfree : scanOrder.find? fun i => (c.loadInfos i).isUsed == 0 with
    | some i =>
      have hfound : (c.loadInfos i).isUsed = 0 := by
        simpa using List.find?_some hfree
      exact Or.inr (Or.inl ⟨i, rfl, (slot_none_iff hf).mpr hfound, habsent⟩)
    | none =>
      refine Or.inr (Or.inr ⟨rfl, habsent, fun i => ?_⟩)
      rw [List.find?_eq_none] at hfree
      have hne := hfree i (mem_scanOrder i)
      exact (hf i).resolve_left fun hzero => hne (beq_iff_eq.mpr hzero)

/-- A slot is free exactly when the map has fewer than 16 keys. -/
theorem keys_lt_iff (h : Represents c.slots m) :
    (keys m).ncard < maxVeLoadParamChannel ↔ ∃ i, c.slots i = none := by
  have hfree := h.free_iff
  rwa [Nat.card_eq_fintype_card, Fintype.card_fin] at hfree

/-! ## An update -/

theorem slots_update (i : Fin maxVeLoadParamChannel) (info : CaseLoadInfo) :
    CaseLoads.slots { c with loadInfos := Function.update c.loadInfos i info } =
      Function.update c.slots i info.entry := by
  funext j
  show (Function.update c.loadInfos i info j).entry = _
  by_cases hji : j = i
  · rw [hji, Function.update_self, Function.update_self]
  · rw [Function.update_of_ne hji, Function.update_of_ne hji]
    rfl

/-- Deleting an absent key changes nothing. -/
theorem update_absent {k : LoadKey} (h : m k = none) :
    Function.update m k none = m := by
  rw [← h, Function.update_eq_self]

/-- A store of a flagged slot. -/
theorem CaseLoads.Flagged.update (hf : c.Flagged) (i : Fin maxVeLoadParamChannel)
    {info : CaseLoadInfo} (hinfo : info.isUsed = 0 ∨ info.isUsed = 1) :
    CaseLoads.Flagged { c with
      loadInfos := Function.update c.loadInfos i info } := by
  intro j
  show (Function.update c.loadInfos i info j).isUsed = 0 ∨
    (Function.update c.loadInfos i info j).isUsed = 1
  by_cases hji : j = i
  · rw [hji, Function.update_self]
    exact hinfo
  · rw [Function.update_of_ne hji]
    exact hf j

/-- No room: the key is absent and every slot is in use. -/
def NoRoom (c : CaseLoads) (m : LoadMap) (k : LoadKey) : Prop :=
  m k = none ∧ ∀ i, (c.loadInfos i).isUsed = 1

/-- An update that returns 0 does not return -1. -/
theorem refused_iff_of_room {k : LoadKey} {r : CaseLoads × Int}
    (hroom : ¬ NoRoom c m k) (hr : r.2 = 0) : r = (c, -1) ↔ NoRoom c m k := by
  constructor
  · intro heq
    subst heq
    cases hr
  · intro hno
    exact absurd hno hroom

/-- What an update does to the map, and what it returns. -/
theorem update_represents (h : Represents c.slots m) (hf : c.Flagged)
    (p : CaseLoadParam) (process : BitVec 32) :
    let r := updateCaseLoadParam c p process
    Represents r.1.slots (m.update p process).1 ∧ r.1.Flagged ∧
      r.2 = (m.update p process).2 ∧
      (r = (c, -1) ↔ NoRoom c m (process, p.threadChannelId)) := by
  rcases findSlot_cases p.threadChannelId process h hf
    with ⟨i, q, hfind, hi⟩ | ⟨i, hfind, hi, habsent⟩ | ⟨hfind, habsent, hfull⟩
  · -- the key has a slot
    have hpresent : m (process, p.threadChannelId) ≠ none := by
      rw [h.lookup_of_slot hi]
      exact Option.some_ne_none q
    have hroom : ¬ NoRoom c m (process, p.threadChannelId) :=
      fun hno => hpresent hno.1
    simp only [updateCaseLoadParam, hfind, LoadMap.update, hpresent, false_and,
      if_false]
    by_cases hremove : p.isRemoveCurParam = 1
    · simp only [hremove, if_true, slots_update]
      exact ⟨h.remove hi, hf.update i (Or.inl rfl), trivial,
        refused_iff_of_room hroom rfl⟩
    · simp only [hremove, if_false, slots_update]
      exact ⟨h.overwrite hi p, hf.update i (Or.inr rfl), trivial,
        refused_iff_of_room hroom rfl⟩
  · -- the key is absent and a slot is free
    have hlt : ¬ (m (process, p.threadChannelId) = none ∧
        ¬ (keys m).ncard < maxVeLoadParamChannel) := by
      intro hboth
      obtain ⟨-, hnone⟩ := hboth
      exact hnone ((keys_lt_iff h).mpr ⟨i, hi⟩)
    have hroom : ¬ NoRoom c m (process, p.threadChannelId) := by
      intro hno
      have hzero := (slot_none_iff hf).mp hi
      rw [hno.2 i] at hzero
      cases hzero
    simp only [updateCaseLoadParam, hfind, LoadMap.update]
    rw [if_neg hlt]
    by_cases hremove : p.isRemoveCurParam = 1
    · simp only [hremove, if_true, slots_update]
      refine ⟨?_, hf.update i (Or.inl rfl), trivial, refused_iff_of_room hroom rfl⟩
      rw [update_absent habsent, show CaseLoadInfo.zero.entry = none from rfl,
        ← hi, Function.update_eq_self]
      exact h
    · simp only [hremove, if_false, slots_update]
      exact ⟨h.insert hi habsent p, hf.update i (Or.inr rfl), trivial,
        refused_iff_of_room hroom rfl⟩
  · -- the key is absent and no slot is free
    have hge : ¬ (keys m).ncard < maxVeLoadParamChannel := by
      rw [keys_lt_iff h]
      intro hex
      obtain ⟨i, hi⟩ := hex
      rw [slot_none_iff hf, hfull i] at hi
      cases hi
    simp only [updateCaseLoadParam, hfind, LoadMap.update, habsent, hge,
      not_false_eq_true, and_self, if_true]
    exact ⟨h, hf, trivial, fun _ => ⟨habsent, hfull⟩, fun _ => trivial⟩

/-! ## An adjustment -/

/-- What the loop leaves in a slot. -/
def CaseLoadInfo.rated (info : CaseLoadInfo) : CaseLoadInfo :=
  if info.isUsed = 1 then { info with loadParam := info.loadParam.rated } else info

theorem scanSlot_loadInfos (a : LoadScan) (i : Fin maxVeLoadParamChannel) :
    (scanSlot a i).loadInfos =
      Function.update a.loadInfos i (a.loadInfos i).rated := by
  by_cases hused : (a.loadInfos i).isUsed = 1
  · by_cases hrate : (a.loadInfos i).loadParam.frameRate.toInt ≤ 0
    · simp only [scanSlot, CaseLoadInfo.rated, CaseLoadParam.rated, hused, hrate,
        if_true]
    · simp only [scanSlot, CaseLoadInfo.rated, CaseLoadParam.rated, hused, hrate,
        if_true, if_false]
  · simp only [scanSlot, CaseLoadInfo.rated, hused, if_false,
      Function.update_eq_self]

theorem rated_rated (info : CaseLoadInfo) : info.rated.rated = info.rated := by
  have hp : ∀ p : CaseLoadParam, p.rated.rated = p.rated := by
    intro p
    by_cases hrate : p.frameRate.toInt ≤ 0
    · have h60 : ¬ (60 : BitVec 32).toInt ≤ 0 := by decide
      simp only [CaseLoadParam.rated, hrate, if_true, h60, if_false]
    · simp only [CaseLoadParam.rated, hrate, if_false]
  unfold CaseLoadInfo.rated
  split_ifs with hused
  · simp only [hp]
  · rfl

/-- The loop rates the slots that it has visited. -/
theorem foldl_scanSlot (l : List (Fin maxVeLoadParamChannel)) (a : LoadScan)
    (j : Fin maxVeLoadParamChannel) :
    (l.foldl scanSlot a).loadInfos j =
      if j ∈ l then (a.loadInfos j).rated else a.loadInfos j := by
  induction l generalizing a with
  | nil => rfl
  | cons i l ih =>
    rw [List.foldl_cons, ih, scanSlot_loadInfos]
    by_cases hji : j = i
    · rw [hji, Function.update_self, rated_rated]
      simp
    · rw [Function.update_of_ne hji]
      simp [hji]

theorem adjust_loadInfos (c : CaseLoads) (i : Fin maxVeLoadParamChannel) :
    (adjustVeFreqByCaseLoad c).1.loadInfos i = (c.loadInfos i).rated := by
  have hstate : (adjustVeFreqByCaseLoad c).1 =
      { c with loadInfos := (scanLoads c).loadInfos } := by
    unfold adjustVeFreqByCaseLoad
    generalize scanLoads c = a
    dsimp only
    split_ifs
    · rfl
    · rfl
    · split <;> rfl
  rw [hstate]
  dsimp only
  rw [scanLoads, foldl_scanSlot, if_pos (mem_scanOrder i)]

/-- Only the frame rates of the map change. -/
theorem adjust_represents (h : Represents c.slots m) (hf : c.Flagged) :
    Represents (adjustVeFreqByCaseLoad c).1.slots m.adjust ∧
      (adjustVeFreqByCaseLoad c).1.Flagged := by
  have hthread : ∀ p : CaseLoadParam,
      p.rated.threadChannelId = p.threadChannelId := by
    intro p
    unfold CaseLoadParam.rated
    split_ifs <;> rfl
  constructor
  · have hslots : (adjustVeFreqByCaseLoad c).1.slots =
        fun i => (c.slots i).map fun x => (x.1, x.2.rated) := by
      funext i
      rw [CaseLoads.slots, adjust_loadInfos, CaseLoads.slots]
      rcases hf i with hfree | hused
      · have hne : (c.loadInfos i).isUsed ≠ 1 := by rw [hfree]; decide
        simp only [CaseLoadInfo.rated, CaseLoadInfo.entry, hne, if_false,
          Option.map_none]
      · simp only [CaseLoadInfo.rated, CaseLoadInfo.entry, hused, if_true,
          Option.map_some, hthread]
    rw [hslots]
    exact h.map _
  · intro i
    rw [adjust_loadInfos]
    unfold CaseLoadInfo.rated
    split_ifs <;> exact hf i

/-! ## Every run -/

/-- The table stands for the map in every state of a run, and every update
returns what the map says. -/
theorem caseLoads_refine (userSettingVeFreq : BitVec 32) (ops : List LoadOp) :
    Always loadStep LoadRefines ops (.zeroed userSettingVeFreq, fun _ => none) := by
  refine Always.mono (P := fun s => Represents s.1.slots s.2 ∧ s.1.Flagged) ?_
    (always_of_step ?_ ops ⟨?_, fun _ => Or.inl rfl⟩)
  · intro s hboth
    obtain ⟨c, m⟩ := s
    obtain ⟨h, hf⟩ := hboth
    exact {
      represents := h
      result := fun p process => (update_represents h hf p process).2.2.1
      refused := fun p process => (update_represents h hf p process).2.2.2 }
  · intro s op s' hboth hstep
    obtain ⟨c, m⟩ := s
    obtain ⟨h, hf⟩ := hboth
    cases op with
    | update p process =>
      rw [loadStep, Option.some.injEq] at hstep
      rw [← hstep]
      obtain ⟨hrep, hflag, -⟩ := update_represents h hf p process
      exact ⟨hrep, hflag⟩
    | adjust =>
      rw [loadStep, Option.some.injEq] at hstep
      rw [← hstep]
      exact adjust_represents h hf
  · exact Represents.empty

end LonganPi.Ve
