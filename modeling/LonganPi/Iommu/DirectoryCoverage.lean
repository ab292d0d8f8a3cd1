import LonganPi.Iommu.PgtableOps

/-!
# Which directory entries the first pass fills

`sunxi_pgtable_prepare_l1_tables` steps through the range by whole spans, from
a start that may lie inside one, and compares with `<=` against an end that
is exclusive.

* `CoversL1` says which entries the pass has to make valid and which it has
  to leave alone.
* `prepareL1_directory` is what it does: it visits the entries of
  `start + k * SPD_SIZE` up to and including `stop`.
* `coversL1_iff` compares the two.  The last span is missed when the range
  ends less far into its span than it starts, and the span behind the range
  is filled when both ends are boundaries.
-/

namespace LonganPi.Iommu

variable {L : PgtableLayout} {s : Pgtable} {start stop : Nat}

/-! ## What the pass is for -/

/-- The span of the directory entry `i` has an address of the range. -/
def Overlaps (L : PgtableLayout) (start stop i : Nat) : Prop :=
  i * spdSize L < stop ∧ start < (i + 1) * spdSize L

/-- From the directory `dir`, whatever the slab answers: on success the
entries of the range are valid, and nothing else has changed. -/
def CoversL1 (L : PgtableLayout) (dir : Nat → Nat) (start stop : Nat) :
    Prop :=
  ∀ s : Pgtable, s.pgtable = dir →
    ∃ s' ret, sunxiPgtablePrepareL1Tables L s start stop = .ok (s', ret) ∧
      (ret = 0 ∧
          (∀ i < numEntriesPde L, Overlaps L start stop i →
            IsValid (s'.pgtable i)) ∧
          (∀ i < numEntriesPde L, IsValid (dir i) → s'.pgtable i = dir i) ∧
          (∀ i < numEntriesPde L, ¬ Overlaps L start stop i →
            s'.pgtable i = dir i) ∨
        ret = eNomem ∧
          (∀ i < numEntriesPde L, IsValid (dir i) → s'.pgtable i = dir i) ∧
          (∀ i < numEntriesPde L, ¬ Overlaps L start stop i →
            s'.pgtable i = dir i))

/-! ## What the pass does -/

/-- The entry `i` is the one of a step of the loop. -/
def Visits (L : PgtableLayout) (start stop i : Nat) : Prop :=
  ∃ k, start + k * spdSize L ≤ stop ∧
    iopdeIndex L (start + k * spdSize L) = i

theorem step_succ (L : PgtableLayout) (start k : Nat) :
    start + (k + 1) * spdSize L = start + spdSize L + k * spdSize L := by
  rw [Nat.add_mul]
  omega

/-- The first step, and the steps from the next one on. -/
theorem visits_first {i : Nat} (h : Visits L start stop i) :
    i = iopdeIndex L start ∨ Visits L (start + spdSize L) stop i := by
  obtain ⟨k, hk, hi⟩ := h
  cases k with
  | zero =>
    rw [Nat.zero_mul, Nat.add_zero] at hi
    exact Or.inl hi.symm
  | succ k =>
    rw [step_succ] at hk hi
    exact Or.inr ⟨k, hk, hi⟩

theorem visits_later {i : Nat} (h : Visits L (start + spdSize L) stop i) :
    Visits L start stop i := by
  obtain ⟨k, hk, hi⟩ := h
  exact ⟨k + 1, by rwa [step_succ], by rwa [step_succ]⟩

theorem visits_self (hle : start ≤ stop) :
    Visits L start stop (iopdeIndex L start) :=
  ⟨0, by omega, by rw [Nat.zero_mul, Nat.add_zero]⟩

/-- Behind the end there is no step. -/
theorem not_visits {i : Nat} (hgt : ¬ start ≤ stop) :
    ¬ Visits L start stop i := by
  intro h
  obtain ⟨k, hk, -⟩ := h
  omega

/-- An allocation fills its entry, or it changes nothing. -/
theorem sunxiAllocIopte_directory (L : PgtableLayout) (s : Pgtable) (i : Nat) :
    ((sunxiAllocIopte L s i).2 = true →
      IsValid ((sunxiAllocIopte L s i).1.pgtable i)) ∧
    ((sunxiAllocIopte L s i).2 = false →
      (sunxiAllocIopte L s i).1.pgtable = s.pgtable) ∧
    ∀ j, j ≠ i → (sunxiAllocIopte L s i).1.pgtable j = s.pgtable j := by
  unfold sunxiAllocIopte kmemCacheZalloc
  cases hslab : s.slab with
  | nil => simp
  | cons o slab =>
    cases o with
    | none => simp
    | some pa =>
      by_cases hok : s.tables pa = none ∧ pa % ptSize L = 0 ∧ InPhysWindow L pa
      · simp only [if_pos hok, perform_storeDent_pgtable, Function.update_self]
        refine ⟨fun _ => isValid_iopteEntry hok.2.1, by simp,
          fun j hj => ?_⟩
        rw [Function.update_of_ne hj]
        rfl
      · simp [if_neg hok]

/-- The loop changes an entry only by filling it, and only one that it
visits.  When it succeeds, it has left none of them empty. -/
theorem prepareL1Loop_directory {n : Nat}
    (hfuel : stop < start + n * spdSize L) :
    ∃ s' ret, prepareL1Loop L stop n start s = .ok (s', ret) ∧
      (ret = 0 ∨ ret = eNomem) ∧
      (∀ i, IsValid (s.pgtable i) → s'.pgtable i = s.pgtable i) ∧
      (∀ i, ¬ Visits L start stop i → s'.pgtable i = s.pgtable i) ∧
      (ret = 0 → ∀ i, Visits L start stop i → IsValid (s'.pgtable i)) := by
  induction n generalizing start s with
  | zero =>
    have hgt : ¬ start ≤ stop := by omega
    refine ⟨s, 0, ?_, Or.inl rfl, fun _ _ => rfl, fun _ _ => rfl,
      fun _ i hi => absurd hi (not_visits hgt)⟩
    unfold prepareL1Loop
    rw [if_neg hgt]
  | succ n ih =>
    rw [step_succ] at hfuel
    unfold prepareL1Loop
    by_cases hle : start ≤ stop
    · rw [if_pos hle]
      by_cases hv : IsValid (s.pgtable (iopdeIndex L start))
      · obtain ⟨s', ret, heq, hret, hkeep, hout, hin⟩ :=
          ih (s := s) hfuel
        rw [if_pos hv]
        refine ⟨s', ret, heq, hret, hkeep,
          fun i hi => hout i fun h => hi (visits_later h), fun h0 i hi => ?_⟩
        rcases visits_first hi with rfl | hi'
        · rw [hkeep _ hv]
          exact hv
        · exact hin h0 i hi'
      · obtain ⟨hfill, hfail, hother⟩ :=
          sunxiAllocIopte_directory L s (iopdeIndex L start)
        rw [if_neg hv]
        cases halloc : sunxiAllocIopte L s (iopdeIndex L start) with
        | mk s₁ ok =>
          rw [halloc] at hfill hfail hother
          cases ok with
          | false =>
            have hsame : s₁.pgtable = s.pgtable := hfail rfl
            exact ⟨s₁, eNomem, rfl, Or.inr rfl, fun i _ => by rw [hsame],
              fun i _ => by rw [hsame], fun h0 => by simp [eNomem] at h0⟩
          | true =>
            obtain ⟨s', ret, heq, hret, hkeep, hout, hin⟩ :=
              ih (s := s₁) hfuel
            refine ⟨s', ret, heq, hret, fun i hi => ?_, fun i hi => ?_,
              fun h0 i hi => ?_⟩
            · have hne : i ≠ iopdeIndex L start := fun h => hv (h ▸ hi)
              rw [hkeep i (by rwa [hother i hne]), hother i hne]
            · have hne : i ≠ iopdeIndex L start := fun h =>
                hi (h ▸ visits_self hle)
              rw [hout i fun h => hi (visits_later h), hother i hne]
            · rcases visits_first hi with rfl | hi'
              · rw [hkeep _ (hfill rfl)]
                exact hfill rfl
              · exact hin h0 i hi'
    · rw [if_neg hle]
      exact ⟨s, 0, rfl, Or.inl rfl, fun _ _ => rfl, fun _ _ => rfl,
        fun _ i hi => absurd hi (not_visits hle)⟩

/-- `sunxi_pgtable_prepare_l1_tables`, on any directory. -/
theorem prepareL1_directory (s : Pgtable) (hle : start ≤ stop) :
    ∃ s' ret, sunxiPgtablePrepareL1Tables L s start stop = .ok (s', ret) ∧
      (ret = 0 ∨ ret = eNomem) ∧
      (∀ i, IsValid (s.pgtable i) → s'.pgtable i = s.pgtable i) ∧
      (∀ i, ¬ Visits L start stop i → s'.pgtable i = s.pgtable i) ∧
      (ret = 0 → ∀ i, Visits L start stop i → IsValid (s'.pgtable i)) := by
  apply prepareL1Loop_directory
  unfold spanFuel
  cases L <;> simp only [spdSize_v1, spdSize_v2] <;> omega

/-! ## A slab that never fails -/

/-- `n` tables, the first one at the `j`-th place of the window. -/
def freshSlab (L : PgtableLayout) : Nat → Nat → List (Option Nat)
  | _, 0 => []
  | j, n + 1 => some (sunxiPhysOffset + j * ptSize L) :: freshSlab L (j + 1) n

/-- A directory before any call, with enough tables in the slab. -/
def freshPgtable (L : PgtableLayout) (dir : Nat → Nat) : Pgtable where
  pgtable := dir
  tables := fun _ => none
  slab := freshSlab L 0 4098
  trace := []

theorem fresh_address {j : Nat} (hj : j < 4098) :
    (sunxiPhysOffset + j * ptSize L) % ptSize L = 0 ∧
      InPhysWindow L (sunxiPhysOffset + j * ptSize L) := by
  unfold InPhysWindow
  rw [sunxiPhysOffset_eq]
  cases L <;> simp only [ptSize_v1, ptSize_v2, iommuVaBits_v1,
    iommuVaBits_v2] <;> omega

/-- With a table for each round, the loop does not fail. -/
theorem prepareL1Loop_fresh {n j m : Nat} (hslab : s.slab = freshSlab L j m)
    (hfree : ∀ k ≥ j, s.tables (sunxiPhysOffset + k * ptSize L) = none)
    (hn : n ≤ m) (hm : j + m ≤ 4098) {s' : Pgtable} {ret : Int}
    (heq : prepareL1Loop L stop n start s = .ok (s', ret)) : ret = 0 := by
  induction n generalizing start s j m with
  | zero =>
    unfold prepareL1Loop at heq
    split_ifs at heq
    simp only [Except.ok.injEq, Prod.mk.injEq] at heq
    exact heq.2.symm
  | succ n ih =>
    unfold prepareL1Loop at heq
    by_cases hle : start ≤ stop
    · rw [if_pos hle] at heq
      by_cases hv : IsValid (s.pgtable (iopdeIndex L start))
      · rw [if_pos hv] at heq
        exact ih hslab hfree (by omega) hm heq
      · obtain ⟨m, rfl⟩ : ∃ m', m = m' + 1 := ⟨m - 1, by omega⟩
        have hok := fresh_address (L := L) (j := j) (by omega)
        have hnew := hfree j (Nat.le_refl _)
        rw [if_neg hv] at heq
        simp only [sunxiAllocIopte, kmemCacheZalloc, hslab, freshSlab,
          if_pos (And.intro hnew hok)] at heq
        refine ih (j := j + 1) (m := m) rfl (fun k hk => ?_) (by omega)
          (by omega) heq
        have hne : sunxiPhysOffset + k * ptSize L
            ≠ sunxiPhysOffset + j * ptSize L := by
          cases L <;> simp only [ptSize_v1, ptSize_v2] <;> omega
        rw [perform_storeDent_tables, perform_allocTable_tables,
          Function.update_of_ne hne]
        exact hfree k (by omega)
    · rw [if_neg hle] at heq
      simp only [Except.ok.injEq, Prod.mk.injEq] at heq
      exact heq.2.symm

theorem prepareL1_fresh (dir : Nat → Nat) (hr : PageRange L start stop)
    {s' : Pgtable} {ret : Int}
    (heq : sunxiPgtablePrepareL1Tables L (freshPgtable L dir) start stop
      = .ok (s', ret)) : ret = 0 := by
  refine prepareL1Loop_fresh (j := 0) (m := 4098) rfl (fun _ _ => rfl) ?_
    (by omega) heq
  have hle := hr.le
  unfold spanFuel
  cases L <;> simp only [spdSize_v1, spdSize_v2, iommuVaBits_v1,
    iommuVaBits_v2] at hle ⊢ <;> omega

/-! ## Visited and overlapping entries -/

/-- The range ends less far into its span than it starts, so the last step
falls short of the last span. -/
def MissesLast (L : PgtableLayout) (start stop : Nat) : Prop :=
  0 < stop % spdSize L ∧ stop % spdSize L < start % spdSize L

/-- Both ends are boundaries, so the last step lands behind the range. -/
def StepsBehind (L : PgtableLayout) (start stop : Nat) : Prop :=
  start % spdSize L = 0 ∧ stop % spdSize L = 0 ∧
    ¬ (start = 0 ∧ stop = 2 ^ iommuVaBits L)

theorem visits_of_overlaps (hr : PageRange L start stop) {i : Nat}
    (hi : i < numEntriesPde L) (h : Overlaps L start stop i) :
    Visits L start stop i ∨
      MissesLast L start stop ∧ i = iopdeIndex L stop := by
  rcases hr with ⟨-, -, hlt, hle⟩
  unfold Overlaps at h
  unfold Visits MissesLast
  rw [numEntriesPde_eq] at hi
  by_cases hlast : start + (i - start / spdSize L) * spdSize L ≤ stop
  · refine Or.inl ⟨_, hlast, ?_⟩
    rw [iopdeIndex_eq]
    cases L <;> simp only [spdSize_v1, spdSize_v2, iommuVaBits_v1,
      iommuVaBits_v2] at * <;> omega
  · right
    rw [iopdeIndex_eq]
    cases L <;> simp only [spdSize_v1, spdSize_v2, iommuVaBits_v1,
      iommuVaBits_v2] at * <;> omega

theorem overlaps_of_visits (hr : PageRange L start stop) {i : Nat}
    (h : Visits L start stop i) :
    Overlaps L start stop i ∨
      StepsBehind L start stop ∧ i = iopdeIndex L stop := by
  obtain ⟨k, hk, hi⟩ := h
  rcases hr with ⟨-, -, hlt, hle⟩
  unfold Overlaps StepsBehind
  rw [iopdeIndex_eq] at hi ⊢
  cases L <;> simp only [spdSize_v1, spdSize_v2, iommuVaBits_v1,
    iommuVaBits_v2] at * <;> omega

/-- The last span is not visited when the loop falls short of it. -/
theorem missesLast_spec (hr : PageRange L start stop)
    (h : MissesLast L start stop) :
    Overlaps L start stop (iopdeIndex L stop) ∧
      ¬ Visits L start stop (iopdeIndex L stop) := by
  rcases hr with ⟨-, -, hlt, hle⟩
  unfold MissesLast at h
  constructor
  · unfold Overlaps
    rw [iopdeIndex_eq]
    cases L <;> simp only [spdSize_v1, spdSize_v2, iommuVaBits_v1,
      iommuVaBits_v2] at * <;> omega
  · intro hvisit
    obtain ⟨k, hk, hi⟩ := hvisit
    simp only [iopdeIndex_eq] at hi
    cases L <;> simp only [spdSize_v1, spdSize_v2, iommuVaBits_v1,
      iommuVaBits_v2] at * <;> omega

/-- The span behind the range is visited when both ends are boundaries. -/
theorem stepsBehind_spec (hr : PageRange L start stop)
    (h : StepsBehind L start stop) :
    Visits L start stop (iopdeIndex L stop) ∧
      ¬ Overlaps L start stop (iopdeIndex L stop) := by
  rcases hr with ⟨-, -, hlt, hle⟩
  unfold StepsBehind at h
  constructor
  · refine ⟨(stop - start) / spdSize L, ?_, ?_⟩
    · exact Nat.add_le_of_le_sub' (Nat.le_of_lt hlt) (Nat.div_mul_le_self _ _)
    · simp only [iopdeIndex_eq]
      cases L <;> simp only [spdSize_v1, spdSize_v2] at * <;> omega
  · unfold Overlaps
    rw [iopdeIndex_eq]
    cases L <;> simp only [spdSize_v1, spdSize_v2, iommuVaBits_v1,
      iommuVaBits_v2] at * <;> omega

/-! ## The exact condition -/

/-- An empty entry that the pass misses or steps on too much shows when the
slab does not fail. -/
theorem isValid_of_coversL1 {dir : Nat → Nat} (hr : PageRange L start stop)
    (hcovers : CoversL1 L dir start stop)
    (hedge : MissesLast L start stop ∨ StepsBehind L start stop) :
    IsValid (dir (iopdeIndex L stop)) := by
  have hlast := iopdeIndex_lt L stop
  obtain ⟨s', ret, heq, hres⟩ := hcovers (freshPgtable L dir) rfl
  obtain ⟨s₁, ret₁, heq₁, -, -, hout, hin⟩ :=
    prepareL1_directory (L := L) (freshPgtable L dir) (Nat.le_of_lt hr.lt)
  have hpair := heq₁.symm.trans heq
  simp only [Except.ok.injEq, Prod.mk.injEq] at hpair
  obtain ⟨rfl, rfl⟩ := hpair
  have hret := prepareL1_fresh dir hr heq
  rcases hres with ⟨-, hfilled, -, hsame⟩ | ⟨hnomem, -⟩
  · rcases hedge with hmiss | hbehind
    · obtain ⟨hover, hvisit⟩ := missesLast_spec hr hmiss
      have hvalid := hfilled _ hlast hover
      rwa [hout _ hvisit] at hvalid
    · obtain ⟨hvisit, hover⟩ := stepsBehind_spec hr hbehind
      have hvalid := hin hret _ hvisit
      rwa [hsame _ hlast hover] at hvalid
  · rw [hret] at hnomem
    simp [eNomem] at hnomem

/-- The pass covers the range exactly when the entry that it misses or steps
on too much is valid already. -/
theorem coversL1_iff (dir : Nat → Nat) (hr : PageRange L start stop) :
    CoversL1 L dir start stop ↔
      (MissesLast L start stop ∨ StepsBehind L start stop →
        IsValid (dir (iopdeIndex L stop))) := by
  constructor
  · intro hcovers hedge
    exact isValid_of_coversL1 hr hcovers hedge
  · intro hedge s hs
    subst hs
    obtain ⟨s', ret, heq, hret, hkeep, hout, hin⟩ :=
      prepareL1_directory (L := L) s (Nat.le_of_lt hr.lt)
    have hsame : ∀ i < numEntriesPde L, ¬ Overlaps L start stop i →
        s'.pgtable i = s.pgtable i := by
      intro i hi hover
      by_cases hvisit : Visits L start stop i
      · rcases overlaps_of_visits hr hvisit with h | ⟨hbehind, rfl⟩
        · exact absurd h hover
        · exact hkeep _ (hedge (Or.inr hbehind))
      · exact hout i hvisit
    refine ⟨s', ret, heq, hret.imp (fun h0 => ?_) fun hnomem => ?_⟩
    · refine ⟨h0, fun i hi hover => ?_, fun i _ hv => hkeep i hv, hsame⟩
      rcases visits_of_overlaps hr hi hover with hvisit | ⟨hmiss, rfl⟩
      · exact hin h0 i hvisit
      · have hv := hedge (Or.inl hmiss)
        rwa [hkeep _ hv]
    · exact ⟨hnomem, fun i _ hv => hkeep i hv, hsame⟩

/-- One page of an empty directory. -/
theorem coversL1_onePage :
    CoversL1 .v1 (fun _ => 0) 0x100000 0x101000 ↔
      (MissesLast .v1 0x100000 0x101000 ∨ StepsBehind .v1 0x100000 0x101000 →
        IsValid 0) :=
  coversL1_iff _ ⟨by decide, by decide, by decide, by decide⟩

/-- A chunk of 1 MiB fills the span behind it, and two pages across a
boundary leave the second span empty. -/
theorem coversL1_fails :
    ¬ CoversL1 .v1 (fun _ => 0) 0x100000 0x200000 ∧
      ¬ CoversL1 .v1 (fun _ => 0) 0x1FF000 0x201000 := by
  constructor
  · intro hcovers
    have hv := isValid_of_coversL1
      ⟨by decide, by decide, by decide, by decide⟩ hcovers
      (Or.inr (by unfold StepsBehind; decide))
    exact not_isValid_zero hv
  · intro hcovers
    have hv := isValid_of_coversL1
      ⟨by decide, by decide, by decide, by decide⟩ hcovers
      (Or.inl (by unfold MissesLast; decide))
    exact not_isValid_zero hv

end LonganPi.Iommu
