import LonganPi.Ve.CaseLoad

/-!
# The frequency for a load

A stream makes `width * height * frame_rate` pixels in a second.  The levels
of a format divide the sum over its streams, and the level gives the
frequency of the engine.  The sum is a 32-bit word in the driver.

* `levelFreq` is the frequency for an exact sum, where the top level has no
  end.
* `adjust_request` is what the driver asks for.
* `followsLoad_iff` says when that is the frequency for the exact sum.
-/

namespace LonganPi.Ve

/-! ## The exact load -/

/-- `LEVELE_MAX_END_PIXELS`. -/
def leveleMaxEndPixels : Nat := 7680 * 4320 * 60

/-- The slots in use. -/
def CaseLoads.used (c : CaseLoads) : List (Fin maxVeLoadParamChannel) :=
  scanOrder.filter fun i => (c.loadInfos i).isUsed = 1

/-- The pixels of a stream in a second. -/
def CaseLoadParam.load (p : CaseLoadParam) : Nat :=
  p.width.toNat * p.height.toNat * p.frameRate.toNat

/-- The sum over the slots in use. -/
def CaseLoads.totalLoad (c : CaseLoads) : Nat :=
  (c.used.map fun i => (c.loadInfos i).loadParam.load).sum

/-- The formats of the table of levels. -/
def decoderFormats : List (BitVec 32) :=
  [veDecoderFormatH264, veDecoderFormatH265, veDecoderFormatVp9,
    veDecoderFormatOther]

/-- One or two slots are in use, for streams of the format. -/
structure SameFormat (c : CaseLoads) (format : BitVec 32) : Prop where
  listed : format ∈ decoderFormats
  length : c.used.length = 1 ∨ c.used.length = 2
  codecFormat : ∀ i ∈ c.used, (c.loadInfos i).loadParam.codecFormat = format
  width : ∀ i ∈ c.used, 0 < (c.loadInfos i).loadParam.width.toInt
  height : ∀ i ∈ c.used, 0 < (c.loadInfos i).loadParam.height.toInt
  frameRate : ∀ i ∈ c.used, 0 < (c.loadInfos i).loadParam.frameRate.toInt

/-- The level of a format that contains a load. -/
def levelOf (format : BitVec 32) (load : Nat) : Option PerformatInfo :=
  decoderPerform.find? fun q => format == q.codecFormat &&
    q.startPixels.toNat ≤ load && load ≤ q.endPixels.toNat

/-- The frequency of a level. -/
def PerformatInfo.freq (q : PerformatInfo) (userSettingVeFreq : BitVec 32) :
    BitVec 32 :=
  if q.veFreq = vePerformanceMaxFreq then userSettingVeFreq else q.veFreq

/-- The frequency for a load.  A load above all levels is one of the top
level. -/
def levelFreq (userSettingVeFreq format : BitVec 32) (load : Nat) : BitVec 32 :=
  match levelOf format load with
  | some q => q.freq userSettingVeFreq
  | none => userSettingVeFreq

/-- The adjustment asks `setup_ve_freq` for the frequency of the exact
load. -/
def FollowsLoad (c : CaseLoads) (format : BitVec 32) : Prop :=
  (adjustVeFreqByCaseLoad c).2 =
    some (levelFreq c.userSettingVeFreq format c.totalLoad)

/-- The load is in the table of levels, or its low 32 bits are in a level
that has the frequency of the user. -/
def LoadFits (c : CaseLoads) (format : BitVec 32) : Prop :=
  c.totalLoad ≤ leveleMaxEndPixels ∨
    ∃ q, levelOf format (c.totalLoad % 2 ^ 32) = some q ∧
      (q.veFreq = vePerformanceMaxFreq ∨ q.veFreq = c.userSettingVeFreq)

instance (c : CaseLoads) (format : BitVec 32) :
    Decidable (FollowsLoad c format) :=
  inferInstanceAs (Decidable (_ = _))

variable {c : CaseLoads} {format : BitVec 32}
  {is : List (Fin maxVeLoadParamChannel)} {i : Fin maxVeLoadParamChannel}
  {a : LoadScan}

/-! ## The scan -/

/-- What the first loop has when it has visited `is`. -/
structure Scanned (c : CaseLoads) (format : BitVec 32)
    (is : List (Fin maxVeLoadParamChannel)) (a : LoadScan) : Prop where
  loadInfos : a.loadInfos = c.loadInfos
  total : a.totalLoadPixels.toNat =
    (is.map fun i => (c.loadInfos i).loadParam.load).sum % 2 ^ 32
  decoders : a.decoderChannelNum = is.length
  encoders : a.encoderChannelNum = 0
  same : a.hadDifferentCodecChannel = false
  previous : a.previousCodecFormat = -1 ∨ a.previousCodecFormat = format
  current : is ≠ [] → a.curCodecFormat = format

/-- One of the four formats is not the -1 that stands for no format. -/
theorem format_ne (h : format ∈ decoderFormats) : format ≠ -1 := by
  simp only [decoderFormats, List.mem_cons, List.not_mem_nil, or_false] at h
  rcases h with rfl | rfl | rfl | rfl
  all_goals decide

theorem format_decoder (h : format ∈ decoderFormats) :
    format.toInt < veDecoderFormatMax.toInt := by
  simp only [decoderFormats, List.mem_cons, List.not_mem_nil, or_false] at h
  rcases h with rfl | rfl | rfl | rfl
  all_goals decide

/-- A positive rate stays. -/
theorem rated_of_rate {info : CaseLoadInfo}
    (h : 0 < info.loadParam.frameRate.toInt) : info.rated = info := by
  have hpositive : ¬ info.loadParam.frameRate.toInt ≤ 0 := by omega
  simp only [CaseLoadInfo.rated, CaseLoadParam.rated, hpositive, if_false,
    ite_self]

/-- One more stream. -/
theorem Scanned.scanSlot (h : Scanned c format is a)
    (hlisted : format ∈ decoderFormats) (hused : (c.loadInfos i).isUsed = 1)
    (hformat : (c.loadInfos i).loadParam.codecFormat = format)
    (hrate : 0 < (c.loadInfos i).loadParam.frameRate.toInt) :
    Scanned c format (is ++ [i]) (scanSlot a i) := by
  have hloads : (LonganPi.Ve.scanSlot a i).loadInfos = c.loadInfos := by
    rw [scanSlot_loadInfos, h.loadInfos, rated_of_rate hrate,
      Function.update_eq_self]
  have hpositive : ¬ (c.loadInfos i).loadParam.frameRate.toInt ≤ 0 := by omega
  have hdecoder := format_decoder hlisted
  have hprevious : (if a.previousCodecFormat = -1 then format
      else a.previousCodecFormat) = format := by
    rcases h.previous with hnone | hsome
    · rw [if_pos hnone]
    · rw [hsome, if_neg (format_ne hlisted)]
  refine ⟨hloads, ?_, ?_, ?_, ?_, Or.inr ?_, fun _ => ?_⟩
  all_goals simp only [LonganPi.Ve.scanSlot, h.loadInfos, hused, hpositive,
    hformat, hprevious, hdecoder, if_true, if_false]
  · rw [BitVec.toNat_add, BitVec.toNat_mul, BitVec.toNat_mul, h.total,
      List.map_append, List.sum_append, List.map_singleton, List.sum_singleton,
      CaseLoadParam.load, Nat.mod_mul_mod, ← Nat.add_mod]
  · rw [h.decoders, List.length_append, List.length_singleton]
  · rw [h.encoders]
  · rw [h.same]
    simp

/-- A free slot. -/
theorem scanSlot_free (h : (a.loadInfos i).isUsed ≠ 1) : scanSlot a i = a := by
  rw [scanSlot, if_neg h]

/-- The loop visits the slots in use. -/
theorem Scanned.foldl (hsame : SameFormat c format)
    (l : List (Fin maxVeLoadParamChannel)) (h : Scanned c format is a)
    (hl : ∀ i ∈ l, (c.loadInfos i).isUsed = 1 → i ∈ c.used) :
    Scanned c format
      (is ++ l.filter fun i => (c.loadInfos i).isUsed = 1)
      (l.foldl LonganPi.Ve.scanSlot a) := by
  induction l generalizing is a with
  | nil => rwa [List.filter_nil, List.append_nil]
  | cons i l ih =>
    have hrest := fun j (hj : j ∈ l) => hl j (List.mem_cons_of_mem i hj)
    rw [List.foldl_cons]
    by_cases hused : (c.loadInfos i).isUsed = 1
    · have hi := hl i List.mem_cons_self hused
      have hnext := h.scanSlot hsame.listed hused (hsame.codecFormat i hi)
        (hsame.frameRate i hi)
      rw [List.filter_cons_of_pos (by simpa using hused), List.append_cons]
      exact ih hnext hrest
    · have hfree : LonganPi.Ve.scanSlot a i = a :=
        scanSlot_free (by rwa [h.loadInfos])
      rw [List.filter_cons_of_neg (by simpa using hused), hfree]
      exact ih h hrest

/-- What the first loop leaves. -/
theorem scanned_scanLoads (h : SameFormat c format) :
    Scanned c format c.used (scanLoads c) := by
  have hstart : Scanned c format [] ⟨c.loadInfos, 0, 0, 0, false, -1, -1⟩ :=
    ⟨rfl, rfl, rfl, rfl, rfl, Or.inl rfl, fun hne => absurd rfl hne⟩
  have hfold := hstart.foldl h scanOrder fun i hi hused =>
    List.mem_filter.mpr ⟨hi, by simpa using hused⟩
  rwa [List.nil_append] at hfold

/-! ## The request -/

/-- The driver looks up the low 32 bits of the sum. -/
theorem adjust_request (h : SameFormat c format) :
    (adjustVeFreqByCaseLoad c).2 =
      (levelOf format (c.totalLoad % 2 ^ 32)).map
        (·.freq c.userSettingVeFreq) := by
  have hscan := scanned_scanLoads h
  have hlength := h.length
  have hne : c.used ≠ [] := by
    intro hnil
    rw [hnil, List.length_nil] at hlength
    omega
  have hsome : ¬ (scanLoads c).decoderChannelNum +
      (scanLoads c).encoderChannelNum = 0 := by
    rw [hscan.decoders]
    omega
  have hfew : ¬ ((scanLoads c).encoderChannelNum > 0 ∨
      (scanLoads c).decoderChannelNum > 2 ∨
      (scanLoads c).hadDifferentCodecChannel = true) := by
    rw [hscan.decoders, hscan.encoders, hscan.same]
    simp only [Bool.false_eq_true, or_false]
    omega
  have hlevel : (decoderPerform.find? fun q =>
      (scanLoads c).curCodecFormat == q.codecFormat &&
        (scanLoads c).totalLoadPixels ≥ q.startPixels &&
        (scanLoads c).totalLoadPixels ≤ q.endPixels) =
      levelOf format (c.totalLoad % 2 ^ 32) := by
    rw [hscan.current hne, levelOf]
    simp only [ge_iff_le, BitVec.le_def, hscan.total]
    rfl
  unfold adjustVeFreqByCaseLoad
  simp only [if_neg hsome, if_neg hfew, hlevel]
  cases levelOf format (c.totalLoad % 2 ^ 32) with
  | none => rfl
  | some q => rfl

/-- The levels of a format have the loads up to the end of the top level. -/
theorem levelOf_isSome_iff (h : format ∈ decoderFormats) (load : Nat) :
    (levelOf format load).isSome ↔ load ≤ leveleMaxEndPixels := by
  have hlevel : (levelOf format load).isSome ↔ ∃ q ∈ decoderPerform,
      format = q.codecFormat ∧ q.startPixels.toNat ≤ load ∧
        load ≤ q.endPixels.toNat := by
    rw [levelOf, List.find?_isSome]
    simp only [Bool.and_eq_true, beq_iff_eq, decide_eq_true_eq, and_assoc]
  rw [hlevel]
  simp only [decoderFormats, List.mem_cons, List.not_mem_nil, or_false] at h
  rcases h with rfl | rfl | rfl | rfl
  all_goals
    simp only [decoderPerform, performatLevels, List.mem_append, List.mem_cons,
      List.not_mem_nil, or_false, or_and_right, exists_or, exists_eq_left,
      leveleMaxEndPixels]
    simp [veDecoderFormatH264, veDecoderFormatH265, veDecoderFormatVp9,
      veDecoderFormatOther] <;> omega

theorem levelFreq_of_le (h : format ∈ decoderFormats) (user : BitVec 32)
    {load : Nat} (hle : load ≤ leveleMaxEndPixels) :
    (levelOf format load).map (·.freq user) =
      some (levelFreq user format load) := by
  rw [← levelOf_isSome_iff h] at hle
  obtain ⟨q, hq⟩ := Option.isSome_iff_exists.mp hle
  rw [levelFreq, hq]
  rfl

theorem levelFreq_of_lt (h : format ∈ decoderFormats) (user : BitVec 32)
    {load : Nat} (hlt : leveleMaxEndPixels < load) :
    levelFreq user format load = user := by
  have hnone : levelOf format load = none := by
    rw [← Option.not_isSome_iff_eq_none, levelOf_isSome_iff h]
    omega
  rw [levelFreq, hnone]

/-- A level gives the frequency of the user when it is a top level, or when
the two are equal. -/
theorem freq_eq_iff (q : PerformatInfo) (user : BitVec 32) :
    q.freq user = user ↔ q.veFreq = vePerformanceMaxFreq ∨ q.veFreq = user := by
  rw [PerformatInfo.freq]
  split_ifs with hmax
  · simp [hmax]
  · simp [hmax]

/-- The driver asks for the frequency of the load exactly when the load is in
the table of levels, or its low 32 bits are in a level that has the frequency
of the user. -/
theorem followsLoad_iff (h : SameFormat c format) :
    FollowsLoad c format ↔ LoadFits c format := by
  rw [FollowsLoad, adjust_request h]
  by_cases hle : c.totalLoad ≤ leveleMaxEndPixels
  · have hmod : c.totalLoad % 2 ^ 32 = c.totalLoad := by
      rw [leveleMaxEndPixels] at hle
      exact Nat.mod_eq_of_lt (by omega)
    rw [hmod, levelFreq_of_le h.listed _ hle]
    exact ⟨fun _ => Or.inl hle, fun _ => rfl⟩
  · rw [levelFreq_of_lt h.listed _ (by omega), Option.map_eq_some_iff]
    simp only [freq_eq_iff, LoadFits, hle, false_or]

/-! ## A load of 2^32 pixels -/

/-- One H265 stream of 8192 by 8192 pixels, 64 times in a second. -/
def oneWideStream : CaseLoads where
  loadInfos := Function.update (fun _ => .zero) 0
    ⟨⟨8192, 8192, 64, veDecoderFormatH265, 0, 0⟩, 1, 0⟩
  userSettingVeFreq := 648

theorem oneWideStream_sameFormat :
    SameFormat oneWideStream veDecoderFormatH265 := by
  have hused : oneWideStream.used = [0] := by decide
  have hslot : oneWideStream.loadInfos 0 =
      ⟨⟨8192, 8192, 64, veDecoderFormatH265, 0, 0⟩, 1, 0⟩ := rfl
  have hone : ∀ P : Fin maxVeLoadParamChannel → Prop, P 0 →
      ∀ i ∈ oneWideStream.used, P i := by
    intro P h0 i hi
    rw [hused, List.mem_singleton] at hi
    rwa [hi]
  exact {
    listed := by decide
    length := Or.inl (by rw [hused]; rfl)
    codecFormat := hone _ rfl
    width := hone _ (by rw [hslot]; decide)
    height := hone _ (by rw [hslot]; decide)
    frameRate := hone _ (by rw [hslot]; decide) }

/-- The load is more than twice the end of the top level, and the driver asks
for the frequency of the lowest. -/
theorem wideStream_not_followed :
    ∃ (c : CaseLoads) (format : BitVec 32), SameFormat c format ∧
      ¬ FollowsLoad c format ∧ leveleMaxEndPixels < c.totalLoad ∧
      (adjustVeFreqByCaseLoad c).2 = some 100 := by
  refine ⟨oneWideStream, veDecoderFormatH265, oneWideStream_sameFormat, ?_⟩
  have hload : oneWideStream.totalLoad = 2 ^ 32 := by
    decide
  have hlow : (adjustVeFreqByCaseLoad oneWideStream).2 = some 100 := by
    rw [adjust_request oneWideStream_sameFormat, hload]
    rfl
  have htop : levelFreq oneWideStream.userSettingVeFreq veDecoderFormatH265
      oneWideStream.totalLoad = 648 := by
    rw [levelFreq_of_lt oneWideStream_sameFormat.listed _ (by rw [hload]; decide)]
    rfl
  refine ⟨?_, by rw [hload]; decide, hlow⟩
  rw [FollowsLoad, hlow, htop]
  decide

theorem followsLoad_iff_wide :
    FollowsLoad oneWideStream veDecoderFormatH265 ↔
      LoadFits oneWideStream veDecoderFormatH265 :=
  followsLoad_iff oneWideStream_sameFormat

end LonganPi.Ve
