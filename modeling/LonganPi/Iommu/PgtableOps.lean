import LonganPi.Iommu.PgtableSpec

/-!
# What the page-table functions do

One specification for each function of `LonganPi.Iommu.Pgtable`, stated on
page-aligned ranges of the aperture.

* The loops over a range work piece by piece.  A piece is the part of the
  range below one directory entry, and it ends at `pieceEnd`.
* `prepareL1_spec` says that the first pass only adds empty tables
  (`Grows`), and `prepareL1Loop_iff` that it fails only when the slab does
  not give it a table that is missing.
* `prepareL2_spec` gives every leaf of the range its word.
* `deleteL2_eq` is the exact list of events of one delete step, with
  `deleteEvents_wellFormed` and `leafWord_deleteEvents` for its effect.
* `clear_spec` says that no table is left.

Callers use the specifications and do not unfold the functions.
-/

namespace LonganPi.Iommu

open Ownership

variable {L : PgtableLayout} {s : Pgtable}

/-! ## Ranges and their pieces -/

/-- A page-aligned, non-empty range inside the aperture. -/
structure PageRange (L : PgtableLayout) (start stop : Nat) : Prop where
  start_aligned : start % 4096 = 0
  stop_aligned : stop % 4096 = 0
  lt : start < stop
  le : stop ≤ 2 ^ iommuVaBits L

/-- The end of the part of the range that the directory entry of `start`
covers. -/
def pieceEnd (L : PgtableLayout) (start stop : Nat) : Nat :=
  min stop ((start / spdSize L + 1) * spdSize L)

section Piece

variable {start stop : Nat}

theorem lt_pieceEnd (hr : PageRange L start stop) :
    start < pieceEnd L start stop := by
  have hlt := hr.lt
  unfold pieceEnd
  cases L <;> simp only [spdSize_v1, spdSize_v2] <;> omega

theorem pieceEnd_le (L : PgtableLayout) (start stop : Nat) :
    pieceEnd L start stop ≤ stop := Nat.min_le_left _ _

/-- A piece is a page range itself. -/
theorem PageRange.piece (hr : PageRange L start stop) :
    PageRange L start (pieceEnd L start stop) where
  start_aligned := hr.start_aligned
  stop_aligned := by
    have hstop := hr.stop_aligned
    unfold pieceEnd
    cases L <;> simp only [spdSize_v1, spdSize_v2] <;> omega
  lt := lt_pieceEnd hr
  le := Nat.le_trans (pieceEnd_le L start stop) hr.le

/-- What is left of a range after its first piece. -/
theorem PageRange.rest (hr : PageRange L start stop)
    (hlt : pieceEnd L start stop < stop) :
    PageRange L (pieceEnd L start stop) stop :=
  ⟨hr.piece.stop_aligned, hr.stop_aligned, hlt, hr.le⟩

/-- `iova_tail_count` and `iova_tail_size` measure the first piece. -/
theorem iovaTail_eq (hr : PageRange L start stop) :
    iovaTail L start stop = ((pieceEnd L start stop - start) / 4096,
      pieceEnd L start stop - start) := by
  rcases hr with ⟨hstart, hstop, hlt, hle⟩
  set count := numEntriesPte L - iopteIndex L start with hcountDef
  -- The span that is left below the directory entry fits a `u32`.
  have hspan : count * 4096
      = (start / spdSize L + 1) * spdSize L - start ∧ count ≤ 1024 := by
    rw [hcountDef, iopteIndex_eq]
    cases L <;> simp only [numEntriesPte_v1, numEntriesPte_v2, spdSize_v1,
      spdSize_v2] <;> omega
  have hcount : u32 count = count := by
    unfold u32
    omega
  have hsize : u32 (count * spageSize) = count * 4096 := by
    unfold u32
    rw [spageSize_eq]
    omega
  have hbase : start ≤ (start / spdSize L + 1) * spdSize L := by
    cases L <;> simp only [spdSize_v1, spdSize_v2] <;> omega
  unfold iovaTail pieceEnd
  simp only [← hcountDef, hcount, hsize]
  by_cases hover : start + count * 4096 > stop
  · have hrest : u32 (stop - start) = stop - start := by
      unfold u32
      omega
    rw [if_pos hover, hrest, Nat.min_eq_left (by omega), spageSize_eq]
  · rw [if_neg hover, Nat.min_eq_right (by omega), ← hspan.1,
      Nat.mul_div_cancel _ (by decide)]

/-- The leaves of a piece lie in one table. -/
theorem piece_fits (hr : PageRange L start stop) :
    iopteIndex L start + (pieceEnd L start stop - start) / 4096
      ≤ numEntriesPte L := by
  rcases hr with ⟨hstart, hstop, hlt, hle⟩
  unfold pieceEnd
  rw [iopteIndex_eq]
  cases L <;> simp only [numEntriesPte_v1, numEntriesPte_v2, spdSize_v1,
    spdSize_v2] <;> omega

/-- Directory index and slot tell which addresses lie in a piece. -/
theorem mem_piece_iff (hr : PageRange L start stop) {iova : Nat}
    (hiova : iova < 2 ^ iommuVaBits L) :
    (iopdeIndex L iova = iopdeIndex L start ∧
      iopteIndex L start ≤ iopteIndex L iova ∧
      iopteIndex L iova
        < iopteIndex L start + (pieceEnd L start stop - start) / 4096)
      ↔ start ≤ iova ∧ iova < pieceEnd L start stop := by
  rcases hr with ⟨hstart, hstop, hlt, hle⟩
  unfold pieceEnd
  simp only [iopteIndex_eq, iopdeIndex_eq]
  cases L <;> simp only [numEntriesPte_v1, numEntriesPte_v2, spdSize_v1,
    spdSize_v2, iommuVaBits_v1, iommuVaBits_v2] at hle hiova ⊢ <;> omega

/-- A piece of the full span starts at the first slot of its table and is
all that its directory entry covers. -/
theorem full_piece (hr : PageRange L start stop)
    (hfull : pieceEnd L start stop - start = spdSize L) :
    iopteIndex L start = 0 ∧ ∀ iova < 2 ^ iommuVaBits L,
      iopdeIndex L iova = iopdeIndex L start ↔
        start ≤ iova ∧ iova < pieceEnd L start stop := by
  rcases hr with ⟨hstart, hstop, hlt, hle⟩
  unfold pieceEnd at hfull ⊢
  simp only [iopteIndex_eq, iopdeIndex_eq]
  cases L <;> simp only [numEntriesPte_v1, numEntriesPte_v2, spdSize_v1,
    spdSize_v2, iommuVaBits_v1, iommuVaBits_v2] at hfull hle ⊢
  all_goals
    constructor
    · omega
    · intro iova hiova
      omega

/-- The slot of an address in a piece, counted from the first one. -/
theorem slot_sub (hr : PageRange L start stop) {iova : Nat}
    (hge : start ≤ iova) (hlt : iova < pieceEnd L start stop) :
    iopteIndex L iova - iopteIndex L start = (iova - start) / 4096 := by
  rcases hr with ⟨hstart, hstop, hss, hle⟩
  unfold pieceEnd at hlt
  simp only [iopteIndex_eq]
  cases L <;> simp only [numEntriesPte_v1, numEntriesPte_v2, spdSize_v1,
    spdSize_v2] at hlt ⊢ <;> omega

/-- What follows the first piece lies below other directory entries. -/
theorem later_piece (hr : PageRange L start stop) {iova : Nat}
    (hge : pieceEnd L start stop ≤ iova) (hlt : iova < stop) :
    iopdeIndex L iova ≠ iopdeIndex L start := by
  rcases hr with ⟨hstart, hstop, hss, hle⟩
  unfold pieceEnd at hge
  simp only [iopdeIndex_eq]
  cases L <;> simp only [spdSize_v1, spdSize_v2, iommuVaBits_v1,
    iommuVaBits_v2] at hge hle ⊢ <;> omega

/-- `n` rounds are enough to go through the pieces of the range. -/
def EnoughFuel (L : PgtableLayout) (start stop n : Nat) : Prop :=
  start < stop → stop ≤ (start / spdSize L + n) * spdSize L

theorem enoughFuel_spanFuel :
    EnoughFuel L start stop (spanFuel L start stop) := by
  intro hlt
  unfold spanFuel
  cases L <;> simp only [spdSize_v1, spdSize_v2] <;> omega

/-- Induction over the pieces of a range, for a loop with fuel. -/
theorem piece_induction {motive : Nat → Nat → Prop}
    (done : ∀ n start, stop ≤ start → motive n start)
    (piece : ∀ n start, PageRange L start stop →
      motive n (pieceEnd L start stop) → motive (n + 1) start)
    (n start : Nat) (hr : start < stop → PageRange L start stop)
    (hfuel : EnoughFuel L start stop n) : motive n start := by
  induction n generalizing start with
  | zero =>
    apply done
    by_contra hlt
    have hn := hfuel (by omega)
    cases L <;> simp only [spdSize_v1, spdSize_v2] at hn <;> omega
  | succ n ih =>
    by_cases hlt : start < stop
    · have hrange := hr hlt
      refine piece n start hrange (ih _ hrange.rest ?_)
      intro hrest
      have hn := hfuel hlt
      -- A piece that does not end the range ends at the next boundary.
      have hend : pieceEnd L start stop
          = (start / spdSize L + 1) * spdSize L := by
        unfold pieceEnd at hrest ⊢
        omega
      have hpos : 0 < spdSize L := by cases L <;> decide
      rw [hend, Nat.mul_div_cancel _ hpos, Nat.add_assoc, Nat.add_comm 1 n]
      exact hn
    · exact done _ _ (by omega)

end Piece

/-! ## `sunxi_pgtable_prepare_l1_tables` -/

/-- Empty tables were added, and nothing else happened. -/
structure Grows (L : PgtableLayout) (s s' : Pgtable) : Prop where
  wellFormed : WellFormed L s'
  keeps : ∀ i, IsValid (s.pgtable i) → IsValid (s'.pgtable i)
  leafWord_eq : ∀ iova, leafWord L s' iova = leafWord L s iova

theorem Grows.refl (hwf : WellFormed L s) : Grows L s s :=
  ⟨hwf, fun _ h => h, fun _ => rfl⟩

theorem Grows.trans {s₁ s₂ : Pgtable} (h₁ : Grows L s s₁)
    (h₂ : Grows L s₁ s₂) : Grows L s s₂ where
  wellFormed := h₂.wellFormed
  keeps i hv := h₂.keeps i (h₁.keeps i hv)
  leafWord_eq iova := (h₂.leafWord_eq iova).trans (h₁.leafWord_eq iova)

/-- What is left in the slab is not part of the invariant. -/
theorem grows_slab (hwf : WellFormed L s) (slab : List (Option Nat)) :
    Grows L s { s with slab } where
  wellFormed := ⟨hwf.zero_or_valid, hwf.owns, hwf.aligned⟩
  keeps _ h := h
  leafWord_eq _ := rfl

/-- An allocation either succeeds and makes the entry valid, or it leaves
the directory as it was. -/
theorem sunxiAllocIopte_spec (hwf : WellFormed L s) {i : Nat}
    (hi : i < numEntriesPde L) (hv : ¬ IsValid (s.pgtable i)) :
    Grows L s (sunxiAllocIopte L s i).1 ∧
      ((sunxiAllocIopte L s i).2 = true →
        IsValid ((sunxiAllocIopte L s i).1.pgtable i)) := by
  unfold sunxiAllocIopte kmemCacheZalloc
  cases hslab : s.slab with
  | nil => exact ⟨Grows.refl hwf, by simp⟩
  | cons o slab =>
    have hgrow := grows_slab hwf slab
    cases o with
    | none => exact ⟨hgrow, by simp⟩
    | some pa =>
      by_cases hok : s.tables pa = none ∧ pa % ptSize L = 0 ∧ InPhysWindow L pa
      · rcases hok with ⟨hfresh, hal, hw⟩
        simp only [if_pos (And.intro hfresh (And.intro hal hw))]
        have hself : ∀ {s₁ : Pgtable}, IsValid
            ((s₁.perform L (.storeDent i (iopteEntry L pa))).pgtable i) := by
          intro s₁
          rw [perform_storeDent_pgtable, Function.update_self]
          exact isValid_iopteEntry hal
        refine ⟨hgrow.trans ⟨hgrow.wellFormed.acquire hi hv hfresh hal hw,
          ?_, leafWord_acquire hgrow.wellFormed hv hfresh hal hw⟩,
          fun _ => hself⟩
        intro j hj
        by_cases hji : j = i
        · rw [hji]
          exact hself
        · rwa [perform_storeDent_pgtable, Function.update_of_ne hji]
      · simp only [if_neg hok]
        exact ⟨hgrow, by simp⟩

/-- The first pass adds tables.  When it succeeds, every entry that it
stepped on is valid. -/
theorem prepareL1Loop_spec {start stop n : Nat} (hwf : WellFormed L s)
    (hfuel : stop < start + n * spdSize L) :
    ∃ s' ret, prepareL1Loop L stop n start s = .ok (s', ret) ∧
      Grows L s s' ∧ (ret = 0 ∨ ret = eNomem) ∧
      (ret = 0 → ∀ k, start + k * spdSize L ≤ stop →
        IsValid (s'.pgtable (iopdeIndex L (start + k * spdSize L)))) := by
  induction n generalizing start s with
  | zero =>
    have hgt : ¬ start ≤ stop := by omega
    refine ⟨s, 0, ?_, Grows.refl hwf, Or.inl rfl, fun _ k hk => by omega⟩
    unfold prepareL1Loop
    rw [if_neg hgt]
  | succ n ih =>
    have hsucc : start + (n + 1) * spdSize L
        = start + spdSize L + n * spdSize L := by
      rw [Nat.add_mul]
      omega
    -- The rounds after one that made the entry of `start` valid.
    have hrest : ∀ {s₁ : Pgtable}, Grows L s s₁ →
        IsValid (s₁.pgtable (iopdeIndex L start)) →
        ∃ s' ret, prepareL1Loop L stop n (start + spdSize L) s₁
            = .ok (s', ret) ∧ Grows L s s' ∧ (ret = 0 ∨ ret = eNomem) ∧
          (ret = 0 → ∀ k, start + k * spdSize L ≤ stop →
            IsValid (s'.pgtable
              (iopdeIndex L (start + k * spdSize L)))) := by
      intro s₁ hgrow hv
      obtain ⟨s', ret, heq, hgrow', hret, hvalid⟩ :=
        ih hgrow.wellFormed (hsucc ▸ hfuel)
      refine ⟨s', ret, heq, hgrow.trans hgrow', hret, fun h0 k hk => ?_⟩
      cases k with
      | zero =>
        rw [Nat.zero_mul, Nat.add_zero]
        exact hgrow'.keeps _ hv
      | succ k =>
        have hk' : start + (k + 1) * spdSize L
            = start + spdSize L + k * spdSize L := by
          rw [Nat.add_mul]
          omega
        rw [hk'] at hk ⊢
        exact hvalid h0 k hk
    unfold prepareL1Loop
    by_cases hle : start ≤ stop
    · rw [if_pos hle]
      by_cases hv : IsValid (s.pgtable (iopdeIndex L start))
      · rw [if_pos hv]
        exact hrest (Grows.refl hwf) hv
      · rw [if_neg hv]
        obtain ⟨hgrow, hdone⟩ :=
          sunxiAllocIopte_spec hwf (iopdeIndex_lt L start) hv
        cases halloc : sunxiAllocIopte L s (iopdeIndex L start) with
        | mk s₁ ok =>
          rw [halloc] at hgrow hdone
          cases ok with
          | true => exact hrest hgrow (hdone rfl)
          | false =>
            exact ⟨s₁, eNomem, rfl, hgrow, Or.inr rfl, fun h0 => by
              simp [eNomem] at h0⟩
    · rw [if_neg hle]
      refine ⟨s, 0, rfl, Grows.refl hwf, Or.inl rfl, fun _ k hk => by omega⟩

/-- `sunxi_pgtable_prepare_l1_tables` returns, and it adds tables only. -/
theorem prepareL1_spec (start stop : Nat) (hwf : WellFormed L s)
    (hle : start ≤ stop) :
    ∃ s' ret, sunxiPgtablePrepareL1Tables L s start stop = .ok (s', ret) ∧
      Grows L s s' ∧ (ret = 0 ∨ ret = eNomem) ∧
      (ret = 0 → ∀ k, start + k * spdSize L ≤ stop →
        IsValid (s'.pgtable (iopdeIndex L (start + k * spdSize L)))) := by
  apply prepareL1Loop_spec hwf
  unfold spanFuel
  cases L <;> simp only [spdSize_v1, spdSize_v2] <;> omega

/-! ### What the first pass asks of the slab -/

/-- The directory entries that the first pass over `[start, stop]` steps
on, one for each directory span. -/
def spanDents (L : PgtableLayout) (start stop : Nat) : List Nat :=
  (List.range ((stop + spdSize L - start) / spdSize L)).map fun k =>
    iopdeIndex L (start + k * spdSize L)

/-- How many of them have no table. -/
def missingTables (L : PgtableLayout) (s : Pgtable) (start stop : Nat) :
    Nat :=
  (spanDents L start stop).countP fun i => ¬ IsValid (s.pgtable i)

/-- The slab can give the block at `pa` as a table. -/
def CanGive (L : PgtableLayout) (s : Pgtable) (pa : Nat) : Prop :=
  s.tables pa = none ∧ pa % ptSize L = 0 ∧ InPhysWindow L pa

/-- The slab answers its next `n` calls with `n` different tables. -/
def SlabGives (L : PgtableLayout) (s : Pgtable) (n : Nat) : Prop :=
  ∃ pas : List Nat, pas.length = n ∧ pas.map some <+: s.slab ∧ pas.Nodup ∧
    ∀ pa ∈ pas, CanGive L s pa

theorem slabGives_zero (L : PgtableLayout) (s : Pgtable) :
    SlabGives L s 0 :=
  ⟨[], rfl, List.nil_prefix, List.nodup_nil, by simp⟩

/-- The first of the calls must be answered with a table, and after it the
others. -/
theorem slabGives_succ {s₁ : Pgtable} {pa n : Nat} {slab : List (Option Nat)}
    {t : Nat → Nat} (hslab : s.slab = some pa :: slab)
    (hcan : CanGive L s pa) (hslab₁ : s₁.slab = slab)
    (htables : s₁.tables = Function.update s.tables pa (some t)) :
    SlabGives L s (n + 1) ↔ SlabGives L s₁ n := by
  have hcan₁ : ∀ pa', CanGive L s₁ pa' ↔ pa' ≠ pa ∧ CanGive L s pa' := by
    intro pa'
    unfold CanGive
    rw [htables]
    by_cases hpa : pa' = pa
    · simp [hpa]
    · simp [hpa]
  constructor
  · rintro ⟨pas, hlen, hpre, hnodup, hall⟩
    cases pas with
    | nil => cases hlen
    | cons pa' pas =>
      rw [hslab, List.map_cons, List.cons_prefix_cons] at hpre
      obtain ⟨hpa, hpre⟩ := hpre
      obtain rfl : pa' = pa := Option.some.inj hpa
      obtain ⟨hnot, hnodup⟩ := List.nodup_cons.mp hnodup
      refine ⟨pas, Nat.succ.inj hlen, hslab₁ ▸ hpre, hnodup, fun p hp => ?_⟩
      exact (hcan₁ p).mpr ⟨fun h => hnot (h ▸ hp),
        hall p (List.mem_cons_of_mem _ hp)⟩
  · rintro ⟨pas, hlen, hpre, hnodup, hall⟩
    refine ⟨pa :: pas, by simp [hlen], ?_, ?_, ?_⟩
    · rw [hslab, List.map_cons, List.cons_prefix_cons]
      exact ⟨rfl, hslab₁ ▸ hpre⟩
    · exact List.nodup_cons.mpr
        ⟨fun hp => ((hcan₁ pa).mp (hall pa hp)).1 rfl, hnodup⟩
    · intro p hp
      rcases List.mem_cons.mp hp with rfl | hp
      · exact hcan
      · exact ((hcan₁ p).mp (hall p hp)).2

/-- An answer that is not a table ends it. -/
theorem not_slabGives {n : Nat}
    (h : ∀ pa slab, s.slab = some pa :: slab → ¬ CanGive L s pa) :
    ¬ SlabGives L s (n + 1) := by
  rintro ⟨pas, hlen, hpre, -, hall⟩
  cases pas with
  | nil => cases hlen
  | cons pa pas =>
    obtain ⟨rest, hrest⟩ := hpre
    exact h pa _ hrest.symm (hall pa List.mem_cons_self)

/-- An allocation that is answered with a table succeeds with it. -/
theorem sunxiAllocIopte_gives {pa : Nat} {slab : List (Option Nat)} (i : Nat)
    (hslab : s.slab = some pa :: slab) (hcan : CanGive L s pa) :
    ∃ s₁, sunxiAllocIopte L s i = (s₁, true) ∧ s₁.slab = slab ∧
      s₁.tables = Function.update s.tables pa (some fun _ => 0) ∧
      ∀ j, j ≠ i → s₁.pgtable j = s.pgtable j := by
  unfold CanGive at hcan
  unfold sunxiAllocIopte kmemCacheZalloc
  simp only [hslab, if_pos hcan]
  exact ⟨_, rfl, rfl, rfl, fun j hj => Function.update_of_ne hj _ _⟩

/-- Otherwise it fails. -/
theorem sunxiAllocIopte_refuses (i : Nat)
    (h : ¬ ∃ pa slab, s.slab = some pa :: slab ∧ CanGive L s pa) :
    ∃ s₁, sunxiAllocIopte L s i = (s₁, false) := by
  unfold sunxiAllocIopte kmemCacheZalloc
  cases hslab : s.slab with
  | nil => exact ⟨_, rfl⟩
  | cons o slab =>
    cases o with
    | none => exact ⟨_, rfl⟩
    | some pa =>
      have hnot : ¬ CanGive L s pa := fun hcan => h ⟨pa, slab, hslab, hcan⟩
      unfold CanGive at hnot
      simp only [if_neg hnot]
      exact ⟨_, rfl⟩

theorem spanDents_of_lt {start stop : Nat} (h : stop < start) :
    spanDents L start stop = [] := by
  have hpos : 0 < spdSize L := by cases L <;> decide
  unfold spanDents
  rw [Nat.div_eq_of_lt (by omega)]
  rfl

theorem spanDents_cons {start stop : Nat} (h : start ≤ stop) :
    spanDents L start stop
      = iopdeIndex L start :: spanDents L (start + spdSize L) stop := by
  have hpos : 0 < spdSize L := by cases L <;> decide
  have hlen : (stop + spdSize L - start) / spdSize L
      = (stop + spdSize L - (start + spdSize L)) / spdSize L + 1 := by
    rw [← Nat.add_div_right _ hpos]
    congr 1
    omega
  unfold spanDents
  rw [hlen, List.range_succ_eq_map, List.map_cons, List.map_map, Nat.zero_mul,
    Nat.add_zero]
  refine congrArg _ (List.map_congr_left fun k _ => ?_)
  show iopdeIndex L (start + (k + 1) * spdSize L)
    = iopdeIndex L (start + spdSize L + k * spdSize L)
  rw [Nat.add_mul, Nat.one_mul]
  congr 1
  omega

/-- A range below the size of the directory steps on no entry twice. -/
theorem spanDents_ne {start stop i : Nat}
    (hspan : stop < start + 4096 * spdSize L)
    (hi : i ∈ spanDents L (start + spdSize L) stop) :
    i ≠ iopdeIndex L start := by
  unfold spanDents at hi
  obtain ⟨k, hk, rfl⟩ := List.mem_map.mp hi
  have hlt := List.mem_range.mp hk
  rw [iopdeIndex_eq, iopdeIndex_eq]
  cases L <;> simp only [spdSize_v1, spdSize_v2] at hlt hspan ⊢ <;> omega

/-- The first pass succeeds exactly when the slab gives it every table that
is missing. -/
theorem prepareL1Loop_iff {start stop n : Nat} {ret : Int} {s' : Pgtable}
    (hspan : stop < start + 4096 * spdSize L)
    (hrun : prepareL1Loop L stop n start s = .ok (s', ret)) :
    ret = 0 ↔ SlabGives L s (missingTables L s start stop) := by
  induction n generalizing start s with
  | zero =>
    unfold prepareL1Loop at hrun
    split_ifs at hrun with hle
    cases hrun
    unfold missingTables
    rw [spanDents_of_lt (by omega)]
    simp [slabGives_zero]
  | succ n ih =>
    unfold prepareL1Loop at hrun
    by_cases hle : start ≤ stop
    · rw [if_pos hle] at hrun
      have hspan' : stop < start + spdSize L + 4096 * spdSize L := by omega
      by_cases hv : IsValid (s.pgtable (iopdeIndex L start))
      · rw [if_pos hv] at hrun
        have hsame : missingTables L s start stop
            = missingTables L s (start + spdSize L) stop := by
          unfold missingTables
          rw [spanDents_cons hle, List.countP_cons_of_neg (by simpa using hv)]
        rw [hsame]
        exact ih hspan' hrun
      · rw [if_neg hv] at hrun
        have hmore : missingTables L s start stop
            = missingTables L s (start + spdSize L) stop + 1 := by
          unfold missingTables
          rw [spanDents_cons hle, List.countP_cons_of_pos (by simpa using hv)]
        rw [hmore]
        by_cases hgive : ∃ pa slab, s.slab = some pa :: slab ∧ CanGive L s pa
        · obtain ⟨pa, slab, hslab, hcan⟩ := hgive
          obtain ⟨s₁, halloc, hslab₁, htables, hpg⟩ :=
            sunxiAllocIopte_gives (iopdeIndex L start) hslab hcan
          rw [halloc] at hrun
          have hrest : missingTables L s (start + spdSize L) stop
              = missingTables L s₁ (start + spdSize L) stop := by
            refine List.countP_congr fun i hi => ?_
            rw [hpg i (spanDents_ne hspan hi)]
          rw [slabGives_succ hslab hcan hslab₁ htables, hrest]
          exact ih hspan' hrun
        · obtain ⟨s₁, halloc⟩ :=
            sunxiAllocIopte_refuses (iopdeIndex L start) hgive
          rw [halloc] at hrun
          cases hrun
          have hnot := not_slabGives
            (n := missingTables L s (start + spdSize L) stop)
            fun pa slab hslab hcan => hgive ⟨pa, slab, hslab, hcan⟩
          exact iff_of_false (by decide) hnot
    · rw [if_neg hle] at hrun
      cases hrun
      unfold missingTables
      rw [spanDents_of_lt (by omega)]
      simp [slabGives_zero]

/-! ## Writing the leaves of a piece -/

/-- The stores to the leaves of the first piece of a range. -/
def pieceStores (L : PgtableLayout) (s : Pgtable) (f : Nat → Nat)
    (start stop : Nat) : List Event :=
  leafStores f ((pieceEnd L start stop - start) / 4096) 0
    (tableOf L (s.pgtable (iopdeIndex L start)) + 4 * iopteIndex L start)

section PieceStores

variable {start stop : Nat} {f : Nat → Nat}

/-- Following the directory entry and storing the leaves does not fault. -/
theorem storeLeaves_piece (hwf : WellFormed L s)
    (hr : PageRange L start stop)
    (hv : IsValid (s.pgtable (iopdeIndex L start))) :
    (s.leafPtr L start >>= fun pent =>
        storeLeaves L f ((pieceEnd L start stop - start) / 4096) 0 pent s)
      = .ok (s.performs L (pieceStores L s f start stop)) := by
  obtain ⟨t, ht⟩ := hwf.table_of_valid (iopdeIndex_lt L start) hv
  unfold Pgtable.leafPtr
  rw [if_pos hv, iopteOffset_eq]
  exact storeLeaves_eq (hwf.aligned _ _ ht) ht (piece_fits hr)

theorem pieceStores_pgtable :
    (s.performs L (pieceStores L s f start stop)).pgtable = s.pgtable :=
  performs_leafStores_pgtable

theorem pieceStores_wellFormed (hwf : WellFormed L s)
    (hr : PageRange L start stop)
    (hv : IsValid (s.pgtable (iopdeIndex L start))) :
    WellFormed L (s.performs L (pieceStores L s f start stop)) :=
  hwf.leafStores (iopdeIndex_lt L start) hv (piece_fits hr)

/-- The addresses of the piece get the new words, one for each page. -/
theorem leafWord_pieceStores (hwf : WellFormed L s)
    (hr : PageRange L start stop)
    (hv : IsValid (s.pgtable (iopdeIndex L start))) {iova : Nat}
    (hiova : iova < 2 ^ iommuVaBits L) :
    leafWord L (s.performs L (pieceStores L s f start stop)) iova
      = if start ≤ iova ∧ iova < pieceEnd L start stop
        then u32 (f ((iova - start) / 4096)) else leafWord L s iova := by
  unfold pieceStores
  rw [leafWord_leafStores hwf (iopdeIndex_lt L start) hv (piece_fits hr)]
  simp only [mem_piece_iff hr hiova]
  split_ifs with hin
  · rw [Nat.zero_add, slot_sub hr hin.1 hin.2]
  · rfl

end PieceStores

/-! ## `sunxi_pgtable_prepare_l2_tables` -/

/-- The leaf that the range from `start` gets at `iova`.  Each piece of the
range starts a new run of leaves. -/
def mappedLeaf (L : PgtableLayout) (start paddr prot iova : Nat) : Nat :=
  let base := max start (iova / spdSize L * spdSize L)
  leafRun L (paddr + (base - start)) prot ((iova - base) / 4096)

/-- In the first piece the run starts with `paddr`. -/
theorem mappedLeaf_first {start stop paddr prot iova : Nat}
    (hlt : iova < pieceEnd L start stop) :
    mappedLeaf L start paddr prot iova
      = leafRun L paddr prot ((iova - start) / 4096) := by
  have hbase : max start (iova / spdSize L * spdSize L) = start := by
    unfold pieceEnd at hlt
    cases L <;> simp only [spdSize_v1, spdSize_v2] at hlt ⊢ <;> omega
  unfold mappedLeaf
  simp only [hbase, Nat.sub_self, Nat.add_zero]

/-- After the first piece the range goes on with the page that the piece
ended at. -/
theorem mappedLeaf_rest {start stop paddr prot iova : Nat}
    (hge : pieceEnd L start stop ≤ iova) (hlt : iova < stop)
    (hss : start < pieceEnd L start stop) :
    mappedLeaf L (pieceEnd L start stop)
        (paddr + (pieceEnd L start stop - start)) prot iova
      = mappedLeaf L start paddr prot iova := by
  have hend : pieceEnd L start stop ≤ iova / spdSize L * spdSize L := by
    unfold pieceEnd at hge ⊢
    cases L <;> simp only [spdSize_v1, spdSize_v2] at hge ⊢ <;> omega
  unfold mappedLeaf
  simp only [Nat.max_eq_right hend,
    Nat.max_eq_right (Nat.le_trans (Nat.le_of_lt hss) hend)]
  rw [Nat.add_assoc, show pieceEnd L start stop - start +
      (iova / spdSize L * spdSize L - pieceEnd L start stop)
      = iova / spdSize L * spdSize L - start by omega]

/-- What the second pass leaves behind. -/
structure Maps (L : PgtableLayout) (s s' : Pgtable)
    (start stop paddr prot : Nat) : Prop where
  wellFormed : WellFormed L s'
  pgtable_eq : s'.pgtable = s.pgtable
  leafWord_eq : ∀ iova < 2 ^ iommuVaBits L, leafWord L s' iova
    = if start ≤ iova ∧ iova < stop then mappedLeaf L start paddr prot iova
      else leafWord L s iova

theorem prepareL2Loop_spec {start stop prot n : Nat}
    (hr : start < stop → PageRange L start stop)
    (hfuel : EnoughFuel L start stop n) :
    ∀ s paddr, WellFormed L s →
      (∀ iova, start ≤ iova → iova < stop →
        IsValid (s.pgtable (iopdeIndex L iova))) →
      ∃ s', prepareL2Loop L stop prot n start paddr s = .ok s' ∧
        Maps L s s' start stop paddr prot := by
  refine piece_induction (motive := fun n start => ∀ s paddr,
    WellFormed L s → (∀ iova, start ≤ iova → iova < stop →
      IsValid (s.pgtable (iopdeIndex L iova))) →
    ∃ s', prepareL2Loop L stop prot n start paddr s = .ok s' ∧
      Maps L s s' start stop paddr prot) ?_ ?_ n start hr hfuel
  · intro n start hge s paddr hwf _
    have hdone : ¬ start < stop := by omega
    refine ⟨s, ?_, hwf, rfl, fun iova _ => ?_⟩
    · cases n <;> unfold prepareL2Loop <;> rw [if_neg hdone]
    · rw [if_neg (by omega)]
  · intro n start hrange ih s paddr hwf hvalid
    have hlt := hrange.lt
    have hss := lt_pieceEnd hrange
    have hend := pieceEnd_le L start stop
    have hv := hvalid start (Nat.le_refl _) hlt
    have hround := storeLeaves_piece
      (f := fun i => sunxiMkPte L paddr prot + spageSize * i) hwf hrange hv
    have hleaf := fun iova (hiova : iova < 2 ^ iommuVaBits L) =>
      leafWord_pieceStores
        (f := fun i => sunxiMkPte L paddr prot + spageSize * i)
        hwf hrange hv hiova
    set s₁ := s.performs L (pieceStores L s
      (fun i => sunxiMkPte L paddr prot + spageSize * i) start stop) with hs₁
    have hpg : s₁.pgtable = s.pgtable := pieceStores_pgtable
    obtain ⟨s', heq, hmaps⟩ := ih s₁
      (paddr + (pieceEnd L start stop - start))
      (pieceStores_wellFormed hwf hrange hv) (fun iova hge hlt' => by
        rw [hpg]
        exact hvalid iova (by omega) hlt')
    refine ⟨s', ?_, hmaps.wellFormed, hmaps.pgtable_eq.trans hpg, ?_⟩
    · unfold prepareL2Loop
      rw [if_pos hlt, iovaTail_eq hrange]
      simp only [← bind_assoc, hround]
      rw [show start + (pieceEnd L start stop - start)
        = pieceEnd L start stop by omega]
      exact heq
    · intro iova hiova
      rw [hmaps.leafWord_eq iova hiova, hleaf iova hiova]
      by_cases hfirst : start ≤ iova ∧ iova < pieceEnd L start stop
      · rw [if_neg (by omega), if_pos hfirst, if_pos (by omega),
          mappedLeaf_first hfirst.2]
        rfl
      · rw [if_neg hfirst]
        by_cases hlater : pieceEnd L start stop ≤ iova ∧ iova < stop
        · rw [if_pos hlater, if_pos (by omega),
            mappedLeaf_rest hlater.1 hlater.2 hss]
        · rw [if_neg hlater, if_neg (by omega)]

/-- `sunxi_pgtable_prepare_l2_tables` returns when the entries of the range
are valid, and gives each leaf of the range its word. -/
theorem prepareL2_spec {start stop : Nat} (paddr prot : Nat)
    (hwf : WellFormed L s) (hr : PageRange L start stop)
    (hvalid : ∀ iova, start ≤ iova → iova < stop →
      IsValid (s.pgtable (iopdeIndex L iova))) :
    ∃ s', sunxiPgtablePrepareL2Tables L s start stop paddr prot = .ok s' ∧
      Maps L s s' start stop (cpuPhyToIommuPhy L paddr &&& iommuPtMask)
        prot :=
  prepareL2Loop_spec (fun _ => hr) enoughFuel_spanFuel s _ hwf hvalid

/-! ## `sunxi_pgtable_delete_l2_tables` -/

/-- The steps of one call on a valid directory entry: clear the leaves of
the piece, and give the table back when the piece is all of it. -/
def deleteEvents (L : PgtableLayout) (s : Pgtable) (start stop : Nat) :
    List Event :=
  pieceStores L s (fun _ => 0) start stop ++
    if pieceEnd L start stop - start = spdSize L then
      [.storeDent (iopdeIndex L start) 0,
        .freeTable (tableOf L (s.pgtable (iopdeIndex L start)))]
    else []

section Delete

variable {start stop : Nat}

theorem deleteL2_invalid
    (hv : ¬ IsValid (s.pgtable (iopdeIndex L start))) :
    sunxiPgtableDeleteL2Tables L s start stop = .ok (s, eInval) := by
  unfold sunxiPgtableDeleteL2Tables
  simp only [if_neg hv]

/-- A call on a valid entry does not fault, and does the steps of
`deleteEvents`. -/
theorem deleteL2_eq (hwf : WellFormed L s) (hr : PageRange L start stop)
    (hv : IsValid (s.pgtable (iopdeIndex L start))) :
    sunxiPgtableDeleteL2Tables L s start stop
      = .ok (s.performs L (deleteEvents L s start stop),
          ((pieceEnd L start stop - start : Nat) : Int)) := by
  have hround := storeLeaves_piece (f := fun _ => 0) hwf hr hv
  have hptr : s.leafPtr L start
      = .ok (iopteOffset L (s.pgtable (iopdeIndex L start)) start) :=
    if_pos hv
  rw [hptr] at hround
  replace hround : storeLeaves L (fun _ => 0)
      ((pieceEnd L start stop - start) / 4096) 0
      (iopteOffset L (s.pgtable (iopdeIndex L start)) start) s
      = .ok (s.performs L (pieceStores L s (fun _ => 0) start stop)) := hround
  unfold sunxiPgtableDeleteL2Tables deleteEvents
  simp only [if_pos hv, iovaTail_eq hr, hptr, hround, bind, Except.bind]
  by_cases hfull : pieceEnd L start stop - start = spdSize L
  · -- The piece starts at slot 0, so `pent` is the table itself.
    have hidx := (full_piece hr hfull).1
    obtain ⟨t, ht⟩ := (pieceStores_wellFormed (f := fun _ => 0) hwf hr hv
      ).table_of_valid (iopdeIndex_lt L start)
        (by rwa [pieceStores_pgtable])
    rw [pieceStores_pgtable] at ht
    rw [if_pos hfull, if_pos hfull, iopteOffset_eq, hidx, Nat.mul_zero,
      Nat.add_zero, performs_append]
    unfold sunxiFreeIopte
    simp only [perform_storeDent_tables, ht, performs_cons, performs_nil]
  · rw [if_neg hfull, if_neg hfull, List.append_nil]

theorem deleteEvents_wellFormed (hwf : WellFormed L s)
    (hr : PageRange L start stop)
    (hv : IsValid (s.pgtable (iopdeIndex L start))) :
    WellFormed L (s.performs L (deleteEvents L s start stop)) := by
  have hwf' := pieceStores_wellFormed (f := fun _ => 0) hwf hr hv
  unfold deleteEvents
  rw [performs_append]
  split_ifs with hfull
  · have hrel := hwf'.release (iopdeIndex_lt L start)
      (by rwa [pieceStores_pgtable])
    rwa [pieceStores_pgtable] at hrel
  · exact hwf'

/-- One delete step clears the piece and keeps every other leaf. -/
theorem leafWord_deleteEvents (hwf : WellFormed L s)
    (hr : PageRange L start stop)
    (hv : IsValid (s.pgtable (iopdeIndex L start))) {iova : Nat}
    (hiova : iova < 2 ^ iommuVaBits L) :
    leafWord L (s.performs L (deleteEvents L s start stop)) iova
      = if start ≤ iova ∧ iova < pieceEnd L start stop then 0
        else leafWord L s iova := by
  have hwf' := pieceStores_wellFormed (f := fun _ => 0) hwf hr hv
  have hleaf := leafWord_pieceStores (f := fun _ => 0) hwf hr hv hiova
  unfold deleteEvents
  rw [performs_append]
  by_cases hfull : pieceEnd L start stop - start = spdSize L
  · have hrel := leafWord_release hwf' (iopdeIndex_lt L start)
      (by rwa [pieceStores_pgtable]) iova
    rw [pieceStores_pgtable] at hrel
    rw [if_pos hfull]
    refine hrel.trans ?_
    rw [hleaf]
    simp only [(full_piece hr hfull).2 iova hiova]
    split_ifs <;> rfl
  · rw [if_neg hfull, performs_nil, hleaf]
    split_ifs <;> rfl

/-- The entries of other directory spans are not touched. -/
theorem deleteEvents_pgtable {i : Nat} (hi : i ≠ iopdeIndex L start) :
    (s.performs L (deleteEvents L s start stop)).pgtable i
      = s.pgtable i := by
  unfold deleteEvents
  rw [performs_append]
  split_ifs with hfull
  · simp only [performs_cons, performs_nil, perform_freeTable_pgtable,
      perform_storeDent_pgtable]
    rw [Function.update_of_ne hi, pieceStores_pgtable]
  · rw [performs_nil, pieceStores_pgtable]

end Delete

/-! ## `sunxi_pgtable_clear` -/

/-- The first address below the directory entry `i`. -/
theorem clear_iova (L : PgtableLayout) {i : Nat} (hi : i < numEntriesPde L) :
    iopdeIndex L (i <<< iommuPdShift L) = i ∧
      iopteIndex L (i <<< iommuPdShift L) = 0 := by
  rw [iopdeIndex_eq, iopteIndex_eq, Nat.shiftLeft_eq]
  rw [numEntriesPde_eq] at hi
  cases L <;> simp only [iommuPdShift, numEntriesPte_v1, numEntriesPte_v2,
    spdSize_v1, spdSize_v2] <;> omega

/-- One round frees the table of its entry, if there is one. -/
theorem clearDent_spec (hwf : WellFormed L s) {i : Nat}
    (hi : i < numEntriesPde L) :
    ∃ s', clearDent L s i = .ok s' ∧ WellFormed L s' ∧
      s'.pgtable = Function.update s.pgtable i 0 := by
  obtain ⟨hdir, hslot⟩ := clear_iova L hi
  unfold clearDent
  simp only
  by_cases hv : IsValid (s.pgtable i)
  · obtain ⟨t, ht⟩ := hwf.table_of_valid hi hv
    have hptr : s.leafPtr L (i <<< iommuPdShift L)
        = .ok (tableOf L (s.pgtable i) + 4 * 0) := by
      unfold Pgtable.leafPtr
      rw [hdir, if_pos hv, iopteOffset_eq, hslot]
    have hall : 0 + numEntriesPte L ≤ numEntriesPte L := by omega
    have hstore := storeLeaves_eq (i := 0) (f := fun _ => 0)
      (hwf.aligned _ _ ht) ht hall
    have hwf' := hwf.leafStores (f := fun _ => 0) (j := 0) hi hv hall
    set s₁ := s.performs L (leafStores (fun _ => 0) (numEntriesPte L) 0
      (tableOf L (s.pgtable i) + 4 * 0)) with hs₁
    have hpg : s₁.pgtable = s.pgtable := performs_leafStores_pgtable
    obtain ⟨t', ht'⟩ := hwf'.table_of_valid hi (by rwa [hpg])
    have hrel := hwf'.release hi (by rwa [hpg])
    rw [hpg] at ht' hrel
    refine ⟨_, ?_, hrel, ?_⟩
    · rw [if_pos hv, hptr]
      simp only [bind, Except.bind, hstore]
      unfold sunxiFreeIopte
      simp only [Nat.mul_zero, Nat.add_zero, perform_storeDent_tables, ht']
    · rw [perform_freeTable_pgtable, perform_storeDent_pgtable, hpg]
  · have hzero : s.pgtable i = 0 :=
      (hwf.zero_or_valid i hi).resolve_right hv
    refine ⟨s, if_neg hv, hwf, ?_⟩
    rw [← hzero, Function.update_eq_self]

theorem clearLoop_spec {n i : Nat} (hwf : WellFormed L s)
    (hn : i + n ≤ numEntriesPde L) :
    ∃ s', clearLoop L n i s = .ok s' ∧ WellFormed L s' ∧
      ∀ j, s'.pgtable j = if i ≤ j ∧ j < i + n then 0 else s.pgtable j := by
  induction n generalizing i s with
  | zero =>
    exact ⟨s, rfl, hwf, fun j => by rw [if_neg (by omega)]⟩
  | succ n ih =>
    obtain ⟨s₁, heq, hwf₁, hpg⟩ := clearDent_spec hwf (i := i) (by omega)
    obtain ⟨s', heq', hwf', hzero⟩ := ih (i := i + 1) hwf₁ (by omega)
    refine ⟨s', ?_, hwf', fun j => ?_⟩
    · unfold clearLoop
      rw [heq]
      exact heq'
    · rw [hzero, hpg]
      by_cases hj : j = i
      · subst hj
        rw [if_neg (by omega), if_pos (by omega), Function.update_self]
      · rw [Function.update_of_ne hj]
        by_cases hin : i + 1 ≤ j ∧ j < i + 1 + n
        · rw [if_pos hin, if_pos (by omega)]
        · rw [if_neg hin, if_neg (by omega)]

/-- `sunxi_pgtable_clear` returns and leaves no table behind. -/
theorem clear_spec (hwf : WellFormed L s) :
    ∃ s', sunxiPgtableClear L s = .ok s' ∧ WellFormed L s' ∧
      (∀ i < numEntriesPde L, s'.pgtable i = 0) ∧
      ∀ pa, s'.tables pa = none := by
  obtain ⟨s', heq, hwf', hzero⟩ :=
    clearLoop_spec (n := numEntriesPde L) (i := 0) hwf (by omega)
  have hall : ∀ i < numEntriesPde L, s'.pgtable i = 0 := fun i hi => by
    rw [hzero, if_pos (by omega)]
  refine ⟨s', heq, hwf', hall, fun pa => ?_⟩
  by_contra hne
  obtain ⟨t, ht⟩ := Option.ne_none_iff_exists'.mp hne
  -- A table that is left has an owner, but every entry is 0.
  obtain ⟨i, hi⟩ := hwf'.owns.covered ht
  obtain ⟨hlt, hv, -⟩ := dentOwner_eq_some hi
  rw [hall i hlt] at hv
  exact not_isValid_zero hv

end LonganPi.Iommu
