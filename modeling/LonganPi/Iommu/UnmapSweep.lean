import LonganPi.Iommu.Invalidation

/-!
# The unmap loop over any range

`unmap_spec` is about chunks.  Here the range may be of any length and may
have holes.  A hole moves the cursor of the loop by `-EINVAL` read as a
`u32`, so it may leave the pages and land inside one.

* `delete_sweep` is one round from such a cursor.
* `unmapLoop_sweep` is the loop: it ends without a fault, it keeps the
  invariant, and every leaf of the range stays or becomes 0.
* `unmap_sweep` is the whole of `sunxi_iommu_unmap`.
-/

namespace LonganPi.Iommu

variable {L : PgtableLayout} {s : Pgtable}

/-! ## The cursor -/

/-- A range that ends with a page.  It may start anywhere. -/
structure CursorRange (L : PgtableLayout) (start stop : Nat) : Prop where
  stop_aligned : stop % 4096 = 0
  lt : start < stop
  le : stop ≤ 2 ^ iommuVaBits L

/-- `iova_tail_size` at any cursor. -/
def cursorStep (L : PgtableLayout) (start stop : Nat) : Nat :=
  min (stop - start) ((numEntriesPte L - iopteIndex L start) * 4096)

section Cursor

variable {start stop : Nat}

theorem iovaTail_cursor (hr : CursorRange L start stop) :
    iovaTail L start stop
      = (cursorStep L start stop / 4096, cursorStep L start stop) := by
  have hlt := hr.lt
  set count := numEntriesPte L - iopteIndex L start with hcountDef
  have hle : count ≤ 1024 := by
    rw [hcountDef]
    cases L <;> simp only [numEntriesPte_v1, numEntriesPte_v2] <;> omega
  have hcount : u32 count = count := by
    unfold u32
    omega
  have hsize : u32 (count * spageSize) = count * 4096 := by
    unfold u32
    rw [spageSize_eq]
    omega
  unfold iovaTail cursorStep
  simp only [← hcountDef, hcount, hsize]
  by_cases hover : start + count * 4096 > stop
  · have hrest : u32 (stop - start) = stop - start := by
      unfold u32
      omega
    rw [if_pos hover, hrest, Nat.min_eq_left (by omega), spageSize_eq]
  · rw [if_neg hover, Nat.min_eq_right (by omega),
      Nat.mul_div_cancel _ (by decide)]

/-- A step stays in the range and is at most one span long. -/
theorem cursorStep_le (hr : CursorRange L start stop) :
    start + cursorStep L start stop ≤ stop ∧
      cursorStep L start stop ≤ spdSize L := by
  have hlt := hr.lt
  unfold cursorStep
  cases L <;> simp only [numEntriesPte_v1, numEntriesPte_v2, spdSize_v1,
    spdSize_v2] <;> omega

/-- A step ends the range or leaves the span of the cursor. -/
theorem cursorStep_advances (hr : CursorRange L start stop) :
    stop ≤ start + cursorStep L start stop ∨
      start / spdSize L + 1 ≤ (start + cursorStep L start stop) / spdSize L := by
  have hlt := hr.lt
  unfold cursorStep
  rw [iopteIndex_eq]
  cases L <;> simp only [numEntriesPte_v1, numEntriesPte_v2, spdSize_v1,
    spdSize_v2] <;> omega

/-- The leaves of a step lie in one table. -/
theorem cursorStep_fits (L : PgtableLayout) (start stop : Nat) :
    iopteIndex L start + cursorStep L start stop / 4096
      ≤ numEntriesPte L := by
  have hidx := iopteIndex_lt L start
  unfold cursorStep
  omega

/-- Only whole pages of the range are written. -/
theorem mem_cursorStep (hr : CursorRange L start stop) {a : Nat}
    (ha : a < 2 ^ iommuVaBits L)
    (hdir : iopdeIndex L a = iopdeIndex L start)
    (hge : iopteIndex L start ≤ iopteIndex L a)
    (hlt : iopteIndex L a
      < iopteIndex L start + cursorStep L start stop / 4096) :
    start / 4096 ≤ a / 4096 ∧ a < stop := by
  rcases hr with ⟨hal, hss, hle⟩
  unfold cursorStep at hlt
  simp only [iopteIndex_eq, iopdeIndex_eq] at hdir hge hlt
  cases L <;> simp only [numEntriesPte_v1, numEntriesPte_v2, spdSize_v1,
    spdSize_v2, iommuVaBits_v1, iommuVaBits_v2] at * <;> omega

/-- A step of a full span starts in the first page of the span, and what its
directory entry covers lies in the range. -/
theorem cursorStep_full (hr : CursorRange L start stop)
    (hfull : cursorStep L start stop = spdSize L) :
    iopteIndex L start = 0 ∧ ∀ a < 2 ^ iommuVaBits L,
      iopdeIndex L a = iopdeIndex L start →
        start / 4096 ≤ a / 4096 ∧ a < stop := by
  rcases hr with ⟨hal, hss, hle⟩
  unfold cursorStep at hfull
  simp only [iopteIndex_eq, iopdeIndex_eq] at hfull ⊢
  cases L <;> simp only [numEntriesPte_v1, numEntriesPte_v2, spdSize_v1,
    spdSize_v2, iommuVaBits_v1, iommuVaBits_v2] at *
  all_goals
    constructor
    · omega
    · intro a ha hdir
      omega

end Cursor

/-! ## One round -/

/-- The steps that the loop may do: no TLB invalidation, and PTW
invalidations only before V14. -/
def Event.InLoop (version : Nat) : Event → Prop
  | .tlbInvalid _ _ => False
  | .ptwInvalid _ _ => version < iommuVersionV14
  | _ => True

/-- The steps keep the invariant, and a leaf that they change is one of the
range that they clear. -/
structure Sweeps (L : PgtableLayout) (version : Nat) (s : Pgtable)
    (start stop : Nat) (es : List Event) : Prop where
  wellFormed : WellFormed L (s.performs L es)
  leafWord_eq : ∀ a < 2 ^ iommuVaBits L,
    leafWord L (s.performs L es) a = leafWord L s a ∨
      leafWord L (s.performs L es) a = 0 ∧
        start / 4096 ≤ a / 4096 ∧ a < stop
  inLoop : ∀ e ∈ es, e.InLoop version

namespace Sweeps

variable {version start stop : Nat} {es : List Event}

theorem nil (hwf : WellFormed L s) : Sweeps L version s start stop [] :=
  ⟨hwf, fun _ _ => Or.inl rfl, by simp⟩

/-- A round and the rounds after it. -/
theorem append {next : Nat} {fs : List Event}
    (h : Sweeps L version s start stop es)
    (h' : Sweeps L version (s.performs L es) next stop fs)
    (hnext : start ≤ next) : Sweeps L version s start stop (es ++ fs) where
  wellFormed := by
    rw [performs_append]
    exact h'.wellFormed
  leafWord_eq a ha := by
    rw [performs_append]
    rcases h'.leafWord_eq a ha with hkeep | ⟨hzero, hge, hlt⟩
    · rw [hkeep]
      exact h.leafWord_eq a ha
    · exact Or.inr ⟨hzero, by omega, hlt⟩
  inLoop e he := by
    rcases List.mem_append.mp he with he | he
    · exact h.inLoop e he
    · exact h'.inLoop e he

/-- A PTW invalidation before V14 changes no leaf. -/
theorem ptwInvalid (hwf : WellFormed L s) (start stop iova iovaEnd : Nat) :
    Sweeps L version s start stop
      (if version < iommuVersionV14 then [.ptwInvalid iova iovaEnd]
        else []) := by
  by_cases hold : version < iommuVersionV14
  · have hsame : SameMemory s (s.performs L [.ptwInvalid iova iovaEnd]) :=
      ⟨rfl, rfl⟩
    rw [if_pos hold]
    refine ⟨hsame.wellFormed hwf, fun a _ => Or.inl (hsame.leafWord_eq a),
      fun e he => ?_⟩
    rw [List.mem_singleton.mp he]
    exact hold
  · rw [if_neg hold]
    exact nil hwf

end Sweeps

section Round

variable {version start stop : Nat}

theorem leafStores_inLoop {f : Nat → Nat} {count i pent : Nat} :
    ∀ e ∈ leafStores f count i pent, e.InLoop version := by
  induction count generalizing i pent with
  | zero => simp [leafStores]
  | succ count ih =>
    intro e he
    rcases List.mem_cons.mp he with rfl | he
    · trivial
    · exact ih e he

/-- Clearing the leaves of a step. -/
theorem stepStores_sweep (version : Nat) (hwf : WellFormed L s)
    (hr : CursorRange L start stop)
    (hv : IsValid (s.pgtable (iopdeIndex L start))) :
    Sweeps L version s start stop
      (leafStores (fun _ => 0) (cursorStep L start stop / 4096) 0
        (tableOf L (s.pgtable (iopdeIndex L start))
          + 4 * iopteIndex L start)) where
  wellFormed :=
    hwf.leafStores (iopdeIndex_lt L start) hv (cursorStep_fits L start stop)
  leafWord_eq a ha := by
    rw [leafWord_leafStores hwf (iopdeIndex_lt L start) hv
      (cursorStep_fits L start stop)]
    split_ifs with hin
    · exact Or.inr ⟨rfl, mem_cursorStep hr ha hin.1 hin.2.1 hin.2.2⟩
    · exact Or.inl rfl
  inLoop := leafStores_inLoop

/-- Giving back the table of a span that the step covered. -/
theorem stepRelease_sweep (version : Nat) (hwf : WellFormed L s)
    (hr : CursorRange L start stop)
    (hv : IsValid (s.pgtable (iopdeIndex L start)))
    (hfull : cursorStep L start stop = spdSize L) :
    Sweeps L version s start stop
      [.storeDent (iopdeIndex L start) 0,
        .freeTable (tableOf L (s.pgtable (iopdeIndex L start)))] where
  wellFormed := hwf.release (iopdeIndex_lt L start) hv
  leafWord_eq a ha := by
    have hrel := leafWord_release hwf (iopdeIndex_lt L start) hv a
    by_cases hdir : iopdeIndex L a = iopdeIndex L start
    · rw [if_pos hdir] at hrel
      exact Or.inr ⟨hrel, (cursorStep_full hr hfull).2 a ha hdir⟩
    · rw [if_neg hdir] at hrel
      exact Or.inl hrel
  inLoop e he := by
    rcases List.mem_cons.mp he with rfl | he
    · trivial
    · rw [List.mem_singleton.mp he]
      trivial

/-- A call on a valid entry does not fault, whatever the cursor. -/
theorem delete_sweep (version : Nat) (hwf : WellFormed L s)
    (hr : CursorRange L start stop)
    (hv : IsValid (s.pgtable (iopdeIndex L start))) :
    ∃ es, sunxiPgtableDeleteL2Tables L s start stop
        = .ok (s.performs L es, (cursorStep L start stop : Int)) ∧
      Sweeps L version s start stop es := by
  obtain ⟨t, ht⟩ := hwf.table_of_valid (iopdeIndex_lt L start) hv
  have hstore := storeLeaves_eq (i := 0) (f := fun _ => 0)
    (hwf.aligned _ _ ht) ht (cursorStep_fits L start stop)
  have hclear := stepStores_sweep version hwf hr hv
  set stores := leafStores (fun _ => 0) (cursorStep L start stop / 4096) 0
    (tableOf L (s.pgtable (iopdeIndex L start)) + 4 * iopteIndex L start)
    with hstores
  have hpg : (s.performs L stores).pgtable = s.pgtable :=
    performs_leafStores_pgtable
  have hptr : s.leafPtr L start
      = .ok (tableOf L (s.pgtable (iopdeIndex L start))
          + 4 * iopteIndex L start) := by
    unfold Pgtable.leafPtr
    rw [if_pos hv, iopteOffset_eq]
  unfold sunxiPgtableDeleteL2Tables
  simp only [if_pos hv, iovaTail_cursor hr, hptr, hstore, bind, Except.bind]
  by_cases hfull : cursorStep L start stop = spdSize L
  · have hv' : IsValid ((s.performs L stores).pgtable
        (iopdeIndex L start)) := by rwa [hpg]
    have hrel := stepRelease_sweep version hclear.wellFormed hr
      hv' hfull
    obtain ⟨t', ht'⟩ :=
      hclear.wellFormed.table_of_valid (iopdeIndex_lt L start) hv'
    rw [hpg] at hrel ht'
    refine ⟨_, ?_, hclear.append hrel (Nat.le_refl _)⟩
    rw [if_pos hfull, (cursorStep_full hr hfull).1, Nat.mul_zero,
      Nat.add_zero, performs_append]
    unfold sunxiFreeIopte
    simp only [perform_storeDent_tables, ht', performs_cons, performs_nil]
  · rw [if_neg hfull]
    exact ⟨_, rfl, hclear⟩

end Round

/-! ## The loop -/

/-- One round spends one unit of fuel and leaves the span of the cursor. -/
theorem EnoughFuel.next {start stop next n : Nat}
    (hfuel : EnoughFuel L start stop (n + 1)) (hlt : start < stop)
    (hnext : stop ≤ next ∨ start / spdSize L + 1 ≤ next / spdSize L) :
    EnoughFuel L next stop n := by
  intro hrest
  have hspan : start / spdSize L + 1 ≤ next / spdSize L := by omega
  have hrounds : start / spdSize L + (n + 1) ≤ next / spdSize L + n := by
    omega
  exact (hfuel hlt).trans (Nat.mul_le_mul_right _ hrounds)

/-- The loop ends without a fault, from any cursor. -/
theorem unmapLoop_sweep {start stop n : Nat} (version : Nat)
    (hal : stop % 4096 = 0) (hle : stop ≤ 2 ^ iommuVaBits L)
    (hfuel : EnoughFuel L start stop n) (hwf : WellFormed L s) :
    ∃ es, unmapLoop L version stop n start s = .ok (s.performs L es) ∧
      Sweeps L version s start stop es := by
  induction n generalizing start s with
  | zero =>
    have hdone : stop ≤ start := by
      by_contra hlt
      have hn := hfuel (by omega)
      cases L <;> simp only [spdSize_v1, spdSize_v2] at hn <;> omega
    exact ⟨[], unmapLoop_done hdone, Sweeps.nil hwf⟩
  | succ n ih =>
    by_cases hlt : start < stop
    · have hr : CursorRange L start stop := ⟨hal, hlt, hle⟩
      -- The rounds after one that did the steps `es` and moved to `next`.
      have hrest : ∀ es next, Sweeps L version s start stop es →
          start ≤ next →
          (stop ≤ next ∨ start / spdSize L + 1 ≤ next / spdSize L) →
          ∃ fs, unmapLoop L version stop n next
              ((s.performs L es).performs L
                (if version < iommuVersionV14 then [.ptwInvalid start 0]
                  else []))
              = .ok (s.performs L fs) ∧
            Sweeps L version s start stop fs := by
        intro es next hround hge hnext
        have hround' := hround.append (Sweeps.ptwInvalid hround.wellFormed
          start stop start 0) (Nat.le_refl _)
        rw [← performs_append]
        obtain ⟨fs, heq, hloop⟩ :=
          ih (hfuel.next hlt hnext) hround'.wellFormed
        refine ⟨_, ?_, hround'.append hloop hge⟩
        rw [heq]
        simp only [performs_append]
      have hptw : ∀ s₁ : Pgtable, (if version < iommuVersionV14
          then s₁.perform L (.ptwInvalid start 0) else s₁)
          = s₁.performs L (if version < iommuVersionV14
            then [.ptwInvalid start 0] else []) := by
        intro s₁
        split_ifs <;> rfl
      unfold unmapLoop
      rw [if_pos hlt]
      by_cases hv : IsValid (s.pgtable (iopdeIndex L start))
      · obtain ⟨es, heq, hround⟩ :=
          delete_sweep version hwf hr hv
        have hadvance : (((cursorStep L start stop : Nat) : Int)
            % 2 ^ 32).toNat = cursorStep L start stop := by
          have hspan := (cursorStep_le hr).2
          cases L <;> simp only [spdSize_v1, spdSize_v2] at hspan <;> omega
        simp only [heq, bind, Except.bind, hadvance, hptw]
        exact hrest es _ hround (Nat.le_add_right _ _)
          (cursorStep_advances hr)
      · -- A hole: `-EINVAL` read as a `u32`.
        simp only [deleteL2_invalid hv, bind, Except.bind, eInval_u32, hptw]
        refine hrest [] _ (Sweeps.nil hwf) (Nat.le_add_right _ _)
          (Or.inr ?_)
        cases L <;> simp only [spdSize_v1, spdSize_v2] <;> omega
    · exact ⟨[], unmapLoop_done (by omega), Sweeps.nil hwf⟩

/-! ## The callback -/

/-- `sunxi_iommu_unmap` on any page range: it returns the size, whatever the
range maps. -/
theorem unmap_sweep {iova size : Nat} (version : Nat) (gather : Gather)
    (hwf : WellFormed L s) (hr : PageRange L iova (iova + size)) :
    ∃ es, sunxiIommuUnmap L version s iova size gather
        = .ok ((s.performs L (preInvalidations version iova (iova + size))
            ).performs L es, gather.widen iova (iova + size), size) ∧
      Sweeps L version
        (s.performs L (preInvalidations version iova (iova + size)))
        iova (iova + size) es := by
  have hsame := preInvalidations_sameMemory (L := L) (s := s) version iova
    (iova + size)
  obtain ⟨es, heq, hloop⟩ := unmapLoop_sweep version hr.stop_aligned hr.le
    enoughFuel_spanFuel (hsame.wellFormed hwf)
  refine ⟨es, ?_, hloop⟩
  unfold sunxiIommuUnmap
  simp only [hr.start_eq, hr.stop_eq, unmapPrologue_eq, heq, bind,
    Except.bind]

end LonganPi.Iommu
