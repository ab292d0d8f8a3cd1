import LonganPi.Iommu.PgtableOps

/-!
# `sunxi_iommu_map` and `sunxi_iommu_unmap`

The callbacks of `sunxi-iommu-v1.c` that the IOMMU core calls, and what they
do to one chunk.  A chunk is a range whose size is one of the advertised
page sizes and whose start is a multiple of it.  The core splits every
request into such chunks.

* `map_spec`: a call maps the chunk, or it fails and maps nothing.
* `map_ret_iff`: it fails only when the slab does not give it an L2 table.
* `unmap_spec`: a call returns, keeps the leaves outside the range, and
  clears those inside when their directory entries are valid.

`sunxi_tlb_invalid` and `sunxi_ptw_cache_invalid` are events.  They change
no memory, so they matter only to the caches of the device, which
`LonganPi.Iommu.Invalidation` models.
-/

namespace LonganPi.Iommu

/-! ## The callbacks -/

/-- `IOMMU_VERSION_V11`. -/
def iommuVersionV11 : Nat := 0x11

/-- `IOMMU_VERSION_V12`. -/
def iommuVersionV12 : Nat := 0x12

/-- `IOMMU_VERSION_V13`. -/
def iommuVersionV13 : Nat := 0x13

/-- `IOMMU_VERSION_V14`. -/
def iommuVersionV14 : Nat := 0x14

/-- `struct iommu_iotlb_gather`: the range that `iotlb_sync` will cover. -/
structure Gather where
  start : Nat
  stop : Nat
  deriving DecidableEq, Repr

/-- `iommu_iotlb_gather_init`: `start = ULONG_MAX`, `end = 0`. -/
def Gather.init : Gather := ⟨2 ^ 64 - 1, 0⟩

/-- The two `if`s with which an unmap widens the gathered range. -/
def Gather.widen (gather : Gather) (iovaStart iovaEnd : Nat) : Gather where
  start := if gather.start > iovaStart then iovaStart else gather.start
  stop := if gather.stop < iovaEnd then iovaEnd else gather.stop

/-- `sunxi_iommu_map`: the new state, the result, and what `*mapped` was set
to. -/
def sunxiIommuMap (L : PgtableLayout) (s : Pgtable)
    (iova paddr size prot : Nat) :
    Except Fault (Pgtable × Int × Option Nat) := do
  let iovaStart := iova &&& iommuPtMask
  let iovaEnd := spageAlign (iova + size)
  let (s, ret) ← sunxiPgtablePrepareL1Tables L s iovaStart iovaEnd
  if ret ≠ 0 then .ok (s, eNomem, none)
  else do
    let s ← sunxiPgtablePrepareL2Tables L s iovaStart iovaEnd paddr prot
    .ok (s, 0, some size)

/-- The loop of `sunxi_iommu_unmap`.  The result of `delete_l2_tables` is
stored in a `u32`. -/
def unmapLoop (L : PgtableLayout) (version iovaEnd : Nat) :
    Nat → Nat → Pgtable → Except Fault Pgtable
  | 0, iovaStart, s =>
    if iovaStart < iovaEnd then .error .fuel else .ok s
  | n + 1, iovaStart, s =>
    if iovaStart < iovaEnd then do
      let (s, ret) ← sunxiPgtableDeleteL2Tables L s iovaStart iovaEnd
      let iovaTailSize := (ret % 2 ^ 32).toNat
      let s := if version < iommuVersionV14
        then s.perform L (.ptwInvalid iovaStart 0) else s
      unmapLoop L version iovaEnd n (iovaStart + iovaTailSize) s
    else .ok s

/-- `sunxi_iommu_unmap`: the new state, the gathered range and the
result. -/
def sunxiIommuUnmap (L : PgtableLayout) (version : Nat) (s : Pgtable)
    (iova size : Nat) (gather : Gather) :
    Except Fault (Pgtable × Gather × Nat) := do
  let iovaStart := iova &&& iommuPtMask
  let iovaEnd := spageAlign (iova + size)
  let gather := gather.widen iovaStart iovaEnd
  let s := if version ≥ iommuVersionV12
    then s.perform L (.tlbInvalid iovaStart iovaEnd) else s
  let s := if version ≥ iommuVersionV14
    then s.perform L (.ptwInvalid iovaStart iovaEnd) else s
  let s ← unmapLoop L version iovaEnd (spanFuel L iovaStart iovaEnd)
    iovaStart s
  .ok (s, gather, size)

/-! ## Chunks -/

/-- The sizes of `pgsize_bitmap`. -/
def pgsizes : List Nat :=
  [0x1000, 0x4000, 0x10000, 0x40000, 0x100000, 0x400000, 0x1000000]

/-- One call of the IOMMU core covers one page of an advertised size. -/
structure Chunk (L : PgtableLayout) (iova size : Nat) : Prop where
  size_mem : size ∈ pgsizes
  aligned : iova % size = 0
  le : iova + size ≤ 2 ^ iommuVaBits L

instance (L : PgtableLayout) (iova size : Nat) :
    Decidable (Chunk L iova size) :=
  decidable_of_iff (size ∈ pgsizes ∧ iova % size = 0 ∧
      iova + size ≤ 2 ^ iommuVaBits L)
    ⟨fun h => ⟨h.1, h.2.1, h.2.2⟩, fun h => ⟨h.size_mem, h.aligned, h.le⟩⟩

variable {L : PgtableLayout} {s : Pgtable}

/-- Masking and aligning do not move the ends of a page range. -/
theorem PageRange.start_eq {start stop : Nat} (hr : PageRange L start stop) :
    start &&& iommuPtMask = start := by
  rcases hr with ⟨hal, -, hlt, hle⟩
  rw [and_iommuPtMask (by cases L <;> simp at hle <;> omega)]
  omega

theorem PageRange.stop_eq {start stop : Nat} (hr : PageRange L start stop) :
    spageAlign stop = stop := by
  have hle := hr.le
  exact spageAlign_of_aligned (by cases L <;> simp at hle <;> omega)
    hr.stop_aligned

namespace Chunk

variable {iova size : Nat}

/-- The advertised sizes as numbers. -/
theorem size_cases (hc : Chunk L iova size) :
    size = 4096 ∨ size = 16384 ∨ size = 65536 ∨ size = 262144 ∨
      size = 1048576 ∨ size = 4194304 ∨ size = 16777216 := by
  simpa [pgsizes] using hc.size_mem

theorem pageRange (hc : Chunk L iova size) :
    PageRange L iova (iova + size) := by
  have hal := hc.aligned
  have hle := hc.le
  rcases hc.size_cases with h | h | h | h | h | h | h <;> subst h <;>
    exact ⟨by omega, by omega, by omega, hle⟩

theorem size_le (hc : Chunk L iova size) : size ≤ 2 ^ 24 := by
  rcases hc.size_cases with h | h | h | h | h | h | h <;> omega

/-- Stepping through a chunk by `SPD_SIZE` meets every directory entry of
it: the chunk lies below one entry, or it is made of whole spans. -/
theorem stepped_on (hc : Chunk L iova size) {a : Nat} (hge : iova ≤ a)
    (hlt : a < iova + size) :
    ∃ k, iova + k * spdSize L ≤ iova + size ∧
      iopdeIndex L (iova + k * spdSize L) = iopdeIndex L a := by
  have hal := hc.aligned
  have hle := hc.le
  refine ⟨(a - iova) / spdSize L, ?_, ?_⟩
  · have := Nat.div_mul_le_self (a - iova) (spdSize L)
    omega
  · rw [iopdeIndex_eq, iopdeIndex_eq]
    have hdiv : (iova + (a - iova) / spdSize L * spdSize L) / spdSize L
        = a / spdSize L := by
      rcases hc.size_cases with h | h | h | h | h | h | h <;> subst h <;>
        cases L <;> simp only [spdSize_v1, spdSize_v2] <;> omega
    rw [hdiv]

end Chunk

/-! ## Map -/

/-- A call on a chunk returns.  It either maps the whole chunk, or it
answers `-ENOMEM` and has added empty tables only. -/
theorem map_spec {iova size : Nat} (paddr prot : Nat)
    (hwf : WellFormed L s) (hc : Chunk L iova size) :
    ∃ s', (sunxiIommuMap L s iova paddr size prot = .ok (s', eNomem, none) ∧
        Grows L s s') ∨
      (sunxiIommuMap L s iova paddr size prot = .ok (s', 0, some size) ∧
        WellFormed L s' ∧ ∀ a < 2 ^ iommuVaBits L, leafWord L s' a
          = if iova ≤ a ∧ a < iova + size then
              mappedLeaf L iova (cpuPhyToIommuPhy L paddr &&& iommuPtMask)
                prot a
            else leafWord L s a) := by
  obtain ⟨s₁, ret, hl1, hgrow, hret, hvalid⟩ :=
    prepareL1_spec iova (iova + size) hwf (by omega)
  unfold sunxiIommuMap
  simp only [hc.pageRange.start_eq, hc.pageRange.stop_eq, hl1, bind, Except.bind]
  rcases hret with h0 | hnomem
  · obtain ⟨s₂, hl2, hmaps⟩ := prepareL2_spec paddr prot
      hgrow.wellFormed hc.pageRange (fun a hge hlt => by
        obtain ⟨k, hk, hidx⟩ := hc.stepped_on hge hlt
        rw [← hidx]
        exact hvalid h0 k hk)
    refine ⟨s₂, Or.inr ⟨?_, hmaps.wellFormed, fun a ha => ?_⟩⟩
    · rw [if_neg (not_not.mpr h0), hl2]
    · rw [hmaps.leafWord_eq a ha, hgrow.leafWord_eq a]
  · refine ⟨s₁, Or.inl ⟨?_, hgrow⟩⟩
    rw [if_pos (by rw [hnomem]; decide)]

/-- The call answers 0 exactly when the slab gives it every L2 table that is
missing. -/
theorem map_ret_iff {iova paddr size prot : Nat} {s' : Pgtable} {ret : Int}
    {mapped : Option Nat} (hc : Chunk L iova size)
    (hrun : sunxiIommuMap L s iova paddr size prot = .ok (s', ret, mapped)) :
    ret = 0 ↔ SlabGives L s (missingTables L s iova (iova + size)) := by
  have hspan : iova + size < iova + 4096 * spdSize L := by
    have hsize := hc.size_le
    cases L <;> simp only [spdSize_v1, spdSize_v2] <;> omega
  unfold sunxiIommuMap sunxiPgtablePrepareL1Tables at hrun
  simp only [hc.pageRange.start_eq, hc.pageRange.stop_eq, bind,
    Except.bind] at hrun
  cases hl1 : prepareL1Loop L (iova + size) (spanFuel L iova (iova + size))
      iova s with
  | error e =>
    rw [hl1] at hrun
    cases hrun
  | ok r =>
    obtain ⟨s₁, ret₁⟩ := r
    have hiff := prepareL1Loop_iff hspan hl1
    simp only [hl1] at hrun
    by_cases h0 : ret₁ = 0
    · rw [if_neg (not_not.mpr h0)] at hrun
      cases hl2 : sunxiPgtablePrepareL2Tables L s₁ iova (iova + size) paddr
          prot with
      | error e =>
        rw [hl2] at hrun
        cases hrun
      | ok s₂ =>
        rw [hl2] at hrun
        cases hrun
        exact iff_of_true rfl (hiff.mp h0)
    · rw [if_pos h0] at hrun
      cases hrun
      exact iff_of_false (by decide) fun hgives => h0 (hiff.mpr hgives)

/-- Whether it maps or fails, a call on a chunk keeps the invariant. -/
theorem map_wellFormed {iova size : Nat} (paddr prot : Nat)
    (hwf : WellFormed L s) (hc : Chunk L iova size) :
    ∃ r, sunxiIommuMap L s iova paddr size prot = .ok r ∧
      WellFormed L r.1 := by
  rcases map_spec paddr prot hwf hc with ⟨s', ⟨heq, hgrow⟩ | ⟨heq, hwf', -⟩⟩
  · exact ⟨_, heq, hgrow.wellFormed⟩
  · exact ⟨_, heq, hwf'⟩

/-! ## Unmap -/

/-- Invalidations change nothing in memory. -/
structure SameMemory (s s' : Pgtable) : Prop where
  pgtable_eq : s'.pgtable = s.pgtable
  tables_eq : s'.tables = s.tables

theorem SameMemory.wellFormed {s' : Pgtable} (h : SameMemory s s')
    (hwf : WellFormed L s) : WellFormed L s' where
  zero_or_valid := by
    rw [h.pgtable_eq]
    exact hwf.zero_or_valid
  owns := by
    rw [h.pgtable_eq, h.tables_eq]
    exact hwf.owns
  aligned := by
    rw [h.tables_eq]
    exact hwf.aligned

theorem SameMemory.leafWord_eq {s' : Pgtable} (h : SameMemory s s')
    (iova : Nat) : leafWord L s' iova = leafWord L s iova := by
  unfold leafWord
  rw [h.pgtable_eq, h.tables_eq]

theorem sameMemory_ite {p : Prop} [Decidable p] {s' : Pgtable}
    (h : SameMemory s s') : SameMemory s (if p then s' else s) := by
  split_ifs
  · exact h
  · exact ⟨rfl, rfl⟩

/-- The number of bytes that one round of the unmap loop advances by when
the directory entry is not valid: `-EINVAL` read as a `u32`. -/
theorem eInval_u32 : (eInval % 2 ^ 32).toNat = 0xFFFFFFEA := by decide

/-- What an unmap leaves behind. -/
structure Unmaps (L : PgtableLayout) (s s' : Pgtable) (start stop : Nat) :
    Prop where
  wellFormed : WellFormed L s'
  outside : ∀ a < 2 ^ iommuVaBits L, ¬ (start ≤ a ∧ a < stop) →
    leafWord L s' a = leafWord L s a
  inside : (∀ a, start ≤ a → a < stop →
      IsValid (s.pgtable (iopdeIndex L a))) →
    ∀ a, start ≤ a → a < stop → leafWord L s' a = 0

theorem unmapLoop_done {version start stop n : Nat} (hge : stop ≤ start) :
    unmapLoop L version stop n start s = .ok s := by
  have hdone : ¬ start < stop := by omega
  cases n <;> unfold unmapLoop <;> rw [if_neg hdone]

/-- The range has no hole, or it is short enough for the jump over a hole to
end the loop. -/
theorem unmapLoop_spec {start stop n : Nat} (version : Nat)
    (hr : start < stop → PageRange L start stop)
    (hfuel : EnoughFuel L start stop n) :
    ∀ s, WellFormed L s →
      (∀ a, start ≤ a → a < stop → IsValid (s.pgtable (iopdeIndex L a))) ∨
        stop ≤ start + 2 ^ 24 →
      ∃ s', unmapLoop L version stop n start s = .ok s' ∧
        Unmaps L s s' start stop := by
  refine piece_induction (motive := fun n start => ∀ s, WellFormed L s →
    (∀ a, start ≤ a → a < stop → IsValid (s.pgtable (iopdeIndex L a))) ∨
      stop ≤ start + 2 ^ 24 →
    ∃ s', unmapLoop L version stop n start s = .ok s' ∧
      Unmaps L s s' start stop) ?_ ?_ n start hr hfuel
  · intro n start hge s hwf _
    exact ⟨s, unmapLoop_done hge, hwf, fun _ _ _ => rfl,
      fun _ a hge' hlt => by omega⟩
  · intro n start hrange ih s hwf hsize
    have hlt := hrange.lt
    have hss := lt_pieceEnd hrange
    have hend := pieceEnd_le L start stop
    unfold unmapLoop
    rw [if_pos hlt]
    by_cases hv : IsValid (s.pgtable (iopdeIndex L start))
    · set s₁ := s.performs L (deleteEvents L s start stop) with hs₁
      have hsame : SameMemory s₁ (if version < iommuVersionV14
          then s₁.perform L (.ptwInvalid start 0) else s₁) :=
        sameMemory_ite ⟨rfl, rfl⟩
      -- The later pieces lie below other directory entries.
      have hlater : (∀ a, start ≤ a → a < stop →
          IsValid (s.pgtable (iopdeIndex L a))) →
          ∀ b, pieceEnd L start stop ≤ b → b < stop →
            IsValid ((if version < iommuVersionV14
              then s₁.perform L (.ptwInvalid start 0) else s₁).pgtable
                (iopdeIndex L b)) := by
        intro hvalid b hgeb hltb
        rw [hsame.pgtable_eq, deleteEvents_pgtable
          (later_piece hrange hgeb hltb)]
        exact hvalid b (by omega) hltb
      obtain ⟨s', heq, hunmaps⟩ := ih _
        (hsame.wellFormed (deleteEvents_wellFormed hwf hrange hv))
        (hsize.imp hlater fun hshort => by omega)
      have hadvance : (((pieceEnd L start stop - start : Nat) : Int)
          % 2 ^ 32).toNat = pieceEnd L start stop - start := by
        have hspan : pieceEnd L start stop - start ≤ spdSize L := by
          unfold pieceEnd
          cases L <;> simp only [spdSize_v1, spdSize_v2] <;> omega
        cases L <;> simp only [spdSize_v1, spdSize_v2] at hspan <;> omega
      refine ⟨s', ?_, hunmaps.wellFormed, fun a ha hout => ?_,
        fun hvalid a hge hlt' => ?_⟩
      · simp only [deleteL2_eq hwf hrange hv, bind, Except.bind, hadvance]
        rw [show start + (pieceEnd L start stop - start)
          = pieceEnd L start stop by omega]
        exact heq
      · rw [hunmaps.outside a ha (by omega), hsame.leafWord_eq,
          leafWord_deleteEvents hwf hrange hv ha, if_neg (by omega)]
      · have ha : a < 2 ^ iommuVaBits L := Nat.lt_of_lt_of_le hlt' hrange.le
        by_cases hfirst : a < pieceEnd L start stop
        · rw [hunmaps.outside a ha (by omega), hsame.leafWord_eq,
            leafWord_deleteEvents hwf hrange hv ha,
            if_pos ⟨hge, hfirst⟩]
        · exact hunmaps.inside (hlater hvalid) a (by omega) hlt'
    · -- The jump over a hole is longer than the range, so the loop ends.
      have hhole : ¬ ∀ a, start ≤ a → a < stop →
          IsValid (s.pgtable (iopdeIndex L a)) :=
        fun hvalid => hv (hvalid start (Nat.le_refl _) hlt)
      have hshort := hsize.resolve_left hhole
      have hsame : SameMemory s (if version < iommuVersionV14
          then s.perform L (.ptwInvalid start 0) else s) :=
        sameMemory_ite ⟨rfl, rfl⟩
      refine ⟨_, ?_, hsame.wellFormed hwf, fun a _ _ => hsame.leafWord_eq a,
        fun hvalid => absurd hvalid hhole⟩
      simp only [deleteL2_invalid hv, bind, Except.bind, eInval_u32]
      exact unmapLoop_done (by omega)

/-- A call on a chunk returns the size, whatever the chunk maps. -/
theorem unmap_spec {iova size : Nat} (version : Nat) (gather : Gather)
    (hwf : WellFormed L s) (hc : Chunk L iova size) :
    ∃ s', sunxiIommuUnmap L version s iova size gather
        = .ok (s', gather.widen iova (iova + size), size) ∧
      Unmaps L s s' iova (iova + size) := by
  unfold sunxiIommuUnmap
  simp only [hc.pageRange.start_eq, hc.pageRange.stop_eq]
  set s₁ := if version ≥ iommuVersionV12
    then s.perform L (.tlbInvalid iova (iova + size)) else s with hs₁
  set s₂ := if version ≥ iommuVersionV14
    then s₁.perform L (.ptwInvalid iova (iova + size)) else s₁ with hs₂
  have h₁ : SameMemory s s₁ := sameMemory_ite ⟨rfl, rfl⟩
  have h₂ : SameMemory s₁ s₂ := sameMemory_ite ⟨rfl, rfl⟩
  have hsize := hc.size_le
  obtain ⟨s', heq, hunmaps⟩ := unmapLoop_spec version
    (fun _ => hc.pageRange) enoughFuel_spanFuel s₂
    (h₂.wellFormed (h₁.wellFormed hwf)) (Or.inr (by omega))
  refine ⟨s', ?_, hunmaps.wellFormed, fun a ha hout => ?_,
    fun hvalid => hunmaps.inside ?_⟩
  · simp only [heq, bind, Except.bind]
  · rw [hunmaps.outside a ha hout, h₂.leafWord_eq, h₁.leafWord_eq]
  · intro a hge hlt
    rw [h₂.pgtable_eq, h₁.pgtable_eq]
    exact hvalid a hge hlt

end LonganPi.Iommu
