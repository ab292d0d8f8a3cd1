import LonganPi.Iommu.StaleTranslation

/-!
# Unmapping on the single-page hardware

On V10 and V11 an invalidation removes one page from the TLB, or one span
from the PTW cache.  The unmap does none of the TLB, and `sunxi_zap_tlb` does
four: two pages from the start of the range and two from its end.

* `unmapLoop_invalidates` and `unmapLoop_frees`: the loop invalidates every
  span that it visits, so no freed table stays cached.
* `syncedClean_iff`: the TLB is clean exactly when the range has at most two
  pages.
-/

namespace LonganPi.Iommu

variable {L : PgtableLayout} {s : Pgtable}

/-! ## A device at rest -/

/-- The steps of the driver while the device does not walk. -/
def Machine.quietly (L : PgtableLayout) (version : Nat) (es : List Event)
    (m : Machine) : Machine :=
  es.foldl (fun m e => m.step L version e) m

/-- After the unmap and its sync, whatever the caches held before: no leaf
of the range is cached, and no entry whose table was freed. -/
def SyncedClean (L : PgtableLayout) (version : Nat) (s : Pgtable)
    (iova size : Nat) : Prop :=
  ∃ s', sunxiIommuUnmapAndSync L version s iova size = .ok s' ∧
    ∀ tlb ptw,
      (∀ a, iova ≤ a → a < iova + size →
        (Machine.quietly L version (stepsBetween s s')
          ⟨s, tlb, ptw⟩).tlb (a / 4096) = none) ∧
      ∀ i < numEntriesPde L, IsValid (s.pgtable i) →
        .freeTable (tableOf L (s.pgtable i)) ∈ stepsBetween s s' →
        (Machine.quietly L version (stepsBetween s s')
          ⟨s, tlb, ptw⟩).ptw i = none

section Quietly

variable {version : Nat} {es : List Event} {m : Machine}

/-- A page that one of the steps removes is gone at the end. -/
theorem quietly_tlb_of_mem {start stop page : Nat}
    (he : .tlbInvalid start stop ∈ es)
    (hrem : TlbRemoves version start stop page) :
    (m.quietly L version es).tlb page = none := by
  obtain ⟨pre, post, rfl⟩ := List.append_of_mem he
  have hkeep : ∀ {fs : List Event} {m : Machine}, m.tlb page = none →
      (fs.foldl (fun m e => m.step L version e) m).tlb page = none := by
    intro fs
    induction fs with
    | nil => exact fun h => h
    | cons f fs ih => exact fun h => ih (tlb_step h)
  unfold Machine.quietly
  rw [List.foldl_append, List.foldl_cons]
  apply hkeep
  show (if TlbRemoves version start stop page then none else _) = none
  rw [if_pos hrem]

/-- A directory entry that one of the steps removes is gone at the end. -/
theorem quietly_ptw_of_mem {start stop i : Nat}
    (he : .ptwInvalid start stop ∈ es)
    (hrem : PtwRemoves L version start stop i) :
    (m.quietly L version es).ptw i = none := by
  obtain ⟨pre, post, rfl⟩ := List.append_of_mem he
  unfold Machine.quietly
  rw [List.foldl_append, List.foldl_cons]
  apply quiet_ptw
  show (if PtwRemoves L version start stop i then none else _) = none
  rw [if_pos hrem]

end Quietly

/-! ## The loop -/

/-- Before V14 the loop invalidates the span of every address. -/
theorem unmapLoop_invalidates {version start stop n : Nat}
    (hold : version < iommuVersionV14)
    (hr : start < stop → PageRange L start stop)
    (hfuel : EnoughFuel L start stop n) :
    ∀ s, ∀ a, start ≤ a → a < stop →
      ∃ b, .ptwInvalid b 0 ∈ unmapLoopEvents L version stop n start s ∧
        b / spdSize L = a / spdSize L := by
  refine piece_induction (motive := fun n start => ∀ s, ∀ a, start ≤ a →
    a < stop →
    ∃ b, .ptwInvalid b 0 ∈ unmapLoopEvents L version stop n start s ∧
      b / spdSize L = a / spdSize L) ?_ ?_ n start hr hfuel
  · intro n start hge s a hgea hlta
    omega
  · intro n start hrange ih s a hge hlt
    unfold unmapLoopEvents
    simp only [if_pos hrange.lt, if_pos hold]
    by_cases hfirst : a < pieceEnd L start stop
    · refine ⟨start, by simp, ?_⟩
      unfold pieceEnd at hfirst
      cases L <;> simp only [spdSize_v1, spdSize_v2] at hfirst ⊢ <;> omega
    · obtain ⟨b, hmem, hspan⟩ := ih _ a (by omega) hlt
      exact ⟨b, List.mem_append_right _ hmem, hspan⟩

/-- The loop frees tables of the range only. -/
theorem unmapLoop_frees {version start stop n pa : Nat}
    (hr : start < stop → PageRange L start stop)
    (hfuel : EnoughFuel L start stop n) :
    ∀ s, WellFormed L s →
      (∀ a, start ≤ a → a < stop → IsValid (s.pgtable (iopdeIndex L a))) →
      .freeTable pa ∈ unmapLoopEvents L version stop n start s →
      ∃ a, start ≤ a ∧ a < stop ∧
        tableOf L (s.pgtable (iopdeIndex L a)) = pa := by
  refine piece_induction (motive := fun n start => ∀ s, WellFormed L s →
    (∀ a, start ≤ a → a < stop → IsValid (s.pgtable (iopdeIndex L a))) →
    .freeTable pa ∈ unmapLoopEvents L version stop n start s →
    ∃ a, start ≤ a ∧ a < stop ∧
      tableOf L (s.pgtable (iopdeIndex L a)) = pa) ?_ ?_ n start hr hfuel
  · intro n start hge s _ _ hmem
    have hdone : ¬ start < stop := by omega
    cases n <;> unfold unmapLoopEvents at hmem
    · cases hmem
    · rw [if_neg hdone] at hmem
      cases hmem
  · intro n start hrange ih s hwf hvalid hmem
    have hlt := hrange.lt
    have hss := lt_pieceEnd hrange
    obtain ⟨hwf', hpg⟩ :=
      unmapRound_spec version hwf hrange (hvalid start (Nat.le_refl _) hlt)
    unfold unmapLoopEvents at hmem
    rw [if_pos hlt] at hmem
    rcases List.mem_append.mp hmem with hround | hrest
    · refine ⟨start, Nat.le_refl _, hlt, ?_⟩
      rcases List.mem_append.mp hround with hdel | hinv
      · rcases List.mem_append.mp hdel with hstore | hfree
        · exact absurd (leafStores_clearing _ hstore) id
        · split_ifs at hfree
          · have hpa : pa = tableOf L (s.pgtable (iopdeIndex L start)) := by
              simpa using hfree
            exact hpa.symm
          · cases hfree
      · split_ifs at hinv <;> simp at hinv
    · obtain ⟨a, hge, hlta, htab⟩ := ih _ hwf' (fun a hge hlta => by
        rw [hpg _ (later_piece hrange hge hlta)]
        exact hvalid a (by omega) hlta) hrest
      rw [hpg _ (later_piece hrange hge hlta)] at htab
      exact ⟨a, by omega, hlta, htab⟩

/-! ## The sync -/

section SinglePage

variable {version iova size : Nat}

/-- The TLB invalidations of an unmap and its sync are the four of
`sunxi_zap_tlb`. -/
theorem tlbInvalid_mem_iff (hv : version ≤ iommuVersionV11)
    {start stop : Nat} :
    .tlbInvalid start stop ∈ unmapSyncEvents L version s iova size ↔
      stop = u32 iommuPtMask ∧ (start = iova ∨ start = iova + spageSize ∨
        start = iova + size ∨ start = iova + size + spageSize) := by
  have hnone : ∀ {n : Nat} {t : Pgtable}, .tlbInvalid start stop ∉
      unmapLoopEvents L version (iova + size) n iova t := by
    intro n t hmem
    -- A page that the invalidation would remove survives the loop.
    have hremoves : TlbRemoves version start stop (start / 4096) := by
      unfold TlbRemoves
      unfold iommuVersionV11 at hv
      unfold iommuVersionV12
      rw [if_neg (by omega)]
    exact unmapLoopEvents_survives start stop hmem hremoves
  have h12 : ¬ version ≥ iommuVersionV12 := by
    unfold iommuVersionV11 at hv
    unfold iommuVersionV12
    omega
  have h14 : ¬ version ≥ iommuVersionV14 := by
    unfold iommuVersionV11 at hv
    unfold iommuVersionV14
    omega
  unfold unmapSyncEvents preInvalidations zapEvents
  rw [if_neg h12, if_neg h14, if_neg h14, if_pos hv]
  simp only [List.nil_append, List.mem_append, hnone, false_or]
  simp
  tauto

/-- The spans of the range are invalidated, so a freed table is not
cached. -/
theorem sync_frees_uncached (hv : version ≤ iommuVersionV11)
    (hwf : WellFormed L s) (hr : PageRange L iova (iova + size))
    (hvalid : ∀ a, iova ≤ a → a < iova + size →
      IsValid (s.pgtable (iopdeIndex L a)))
    {m : Machine} {i : Nat} (hi : i < numEntriesPde L)
    (hvi : IsValid (s.pgtable i))
    (hfree : .freeTable (tableOf L (s.pgtable i))
      ∈ unmapSyncEvents L version s iova size) :
    (m.quietly L version (unmapSyncEvents L version s iova size)).ptw i
      = none := by
  have h14 : version < iommuVersionV14 := by
    unfold iommuVersionV11 at hv
    unfold iommuVersionV14
    omega
  have hsame := preInvalidations_sameMemory (L := L) (s := s) version iova
    (iova + size)
  -- Only the loop frees tables.
  have hloop : .freeTable (tableOf L (s.pgtable i))
      ∈ unmapLoopEvents L version (iova + size)
        (spanFuel L iova (iova + size)) iova
        (s.performs L (preInvalidations version iova (iova + size))) := by
    rcases List.mem_append.mp hfree with hpre | hrest
    · unfold preInvalidations at hpre
      split_ifs at hpre <;> simp at hpre
    · rcases List.mem_append.mp hrest with hloop | hzap
      · exact hloop
      · unfold zapEvents at hzap
        split_ifs at hzap <;> simp at hzap
  obtain ⟨a, hge, hlt, htab⟩ := unmapLoop_frees (fun _ => hr)
    enoughFuel_spanFuel _ (hsame.wellFormed hwf) (by
      rw [hsame.pgtable_eq]
      exact hvalid) hloop
  rw [hsame.pgtable_eq] at htab
  have hia : iopdeIndex L a = i := hwf.eq_of_same_table (iopdeIndex_lt L a)
    hi (hvalid a hge hlt) hvi htab
  obtain ⟨b, hmem, hspan⟩ := unmapLoop_invalidates h14 (fun _ => hr)
    enoughFuel_spanFuel
    (s.performs L (preInvalidations version iova (iova + size))) a hge hlt
  have hle := hr.le
  have hrem : PtwRemoves L version b 0 i := by
    unfold PtwRemoves
    rw [if_neg (by omega), hspan, ← hia, iopdeIndex_eq]
    cases L <;> simp only [spdSize_v1, spdSize_v2, iommuVaBits_v1,
      iommuVaBits_v2] at * <;> omega
  exact quietly_ptw_of_mem
    (List.mem_append_right _ (List.mem_append_left _ hmem)) hrem

/-- The third page of a longer range is none of the four. -/
theorem not_syncedClean (hv : version ≤ iommuVersionV11)
    (hwf : WellFormed L s) (hr : PageRange L iova (iova + size))
    (hvalid : ∀ a, iova ≤ a → a < iova + size →
      IsValid (s.pgtable (iopdeIndex L a)))
    (hlong : 2 * 4096 < size) : ¬ SyncedClean L version s iova size := by
  intro hsynced
  obtain ⟨s', heq, hclean⟩ := hsynced
  have hal := hr.start_aligned
  have hal' := hr.stop_aligned
  rw [unmapAndSync_eq hwf hr hvalid, Except.ok.injEq] at heq
  rw [← heq, stepsBetween_performs] at hclean
  have hsurv : Survives version ((iova + 2 * 4096) / 4096)
      (unmapSyncEvents L version s iova size) := by
    intro start stop hmem
    rw [tlbInvalid_mem_iff hv, spageSize_eq] at hmem
    unfold TlbRemoves
    unfold iommuVersionV11 at hv
    unfold iommuVersionV12
    rw [if_neg (by omega)]
    omega
  have hstale := (hclean (fun _ => some 0) fun _ => none).1
    (iova + 2 * 4096) (by omega) (by omega)
  unfold Machine.quietly at hstale
  rw [quiet_tlb hsurv] at hstale
  cases hstale

/-- On V10 and V11 an unmap of a mapped range and its sync clean the caches
exactly when the range has at most two pages. -/
theorem syncedClean_iff (hv : version ≤ iommuVersionV11)
    (hwf : WellFormed L s) (hr : PageRange L iova (iova + size))
    (hmapped : ∀ a, iova ≤ a → a < iova + size → leafWord L s a ≠ 0) :
    SyncedClean L version s iova size ↔ size ≤ 2 * 4096 := by
  have hvalid : ∀ a, iova ≤ a → a < iova + size →
      IsValid (s.pgtable (iopdeIndex L a)) := by
    intro a hge hlt
    by_contra hinvalid
    exact hmapped a hge hlt (leafWord_of_not_valid hinvalid)
  have h12 : ¬ version ≥ iommuVersionV12 := by
    unfold iommuVersionV11 at hv
    unfold iommuVersionV12
    omega
  constructor
  · intro hclean
    by_contra hlong
    exact not_syncedClean hv hwf hr hvalid (by omega) hclean
  · intro hshort
    refine ⟨_, unmapAndSync_eq hwf hr hvalid, fun tlb ptw => ?_⟩
    rw [stepsBetween_performs]
    refine ⟨fun a hge hlt => ?_, fun i hi hvi hfree =>
      sync_frees_uncached hv hwf hr hvalid hi hvi hfree⟩
    have hal := hr.start_aligned
    have hpage : a / 4096 = iova / 4096 ∨
        a / 4096 = (iova + spageSize) / 4096 := by
      rw [spageSize_eq]
      omega
    have hremoves : ∀ start, a / 4096 = start / 4096 →
        TlbRemoves version start (u32 iommuPtMask) (a / 4096) := by
      intro start h
      unfold TlbRemoves
      rw [if_neg h12]
      exact h
    rcases hpage with h | h
    · exact quietly_tlb_of_mem
        ((tlbInvalid_mem_iff hv).mpr ⟨rfl, Or.inl rfl⟩) (hremoves _ h)
    · exact quietly_tlb_of_mem
        ((tlbInvalid_mem_iff hv).mpr ⟨rfl, Or.inr (Or.inl rfl)⟩)
        (hremoves _ h)

/-- On V11, an unmap of the first of five mapped pages. -/
theorem syncedClean_onePage :
    SyncedClean .v1 iommuVersionV11 (fivePages iommuVersionV11)
      0x100000 0x1000 ↔ 0x1000 ≤ 2 * 4096 := by
  refine syncedClean_iff (Nat.le_refl _) (fivePages_wellFormed _)
    ⟨by decide, by decide, by decide, by decide⟩ fun a hge hlt => ?_
  have hpage : a / 4096 * 4096 = 0x100000 := by omega
  rw [leafWord_page, hpage]
  decide +kernel

/-- On V11, an unmap of all five pages leaves the third one cached. -/
theorem thirdPage_cached :
    ¬ SyncedClean .v1 iommuVersionV11 (fivePages iommuVersionV11)
      0x100000 0x5000 := by
  have hr : PageRange .v1 0x100000 (0x100000 + 0x5000) :=
    ⟨by decide, by decide, by decide, by decide⟩
  refine not_syncedClean (Nat.le_refl _) (fivePages_wellFormed _) hr
    (fun a hge hlt => ?_) (by decide)
  have hdir : iopdeIndex .v1 a = 1 := by
    rw [iopdeIndex_eq, spdSize_v1]
    omega
  rw [hdir]
  decide +kernel

end SinglePage

end LonganPi.Iommu
