import LonganPi.Iommu.PgtableSpec
import LonganPi.Lib.RunScan

/-!
# The dump of the page table

`sunxi_pgtable_dump` walks the whole directory and prints one line for a
region of pages.  The region that it is counting is a local variable over both
loops.  It is printed at an invalid directory entry, at an invalid leaf, at a
leaf with other access bits, and at the end.

The printed regions are the runs of a scan over the pages:

* `dumpLeaf_tracks` is one leaf, `dumpDent_tracks` one directory entry.
* `sunxiPgtableDump_runs` is the whole walk.
* `sunxiPgtableDump_covers` says that the regions are the valid pages, in
  order and each page once.
-/

namespace LonganPi.Iommu

open RunScan

/-! ## The source -/

/-- `DUMP_REGION_MAP` and `DUMP_REGION_RESERVE`. -/
def dumpRegionMap : Nat := 0
def dumpRegionReserve : Nat := 1

/-- `struct dump_region`. -/
structure DumpRegion where
  accessMask : Nat
  size : Nat
  type : Nat
  phys : Nat
  iova : Nat
  deriving DecidableEq, Repr

/-- A line of the dump, with what the format string shows. -/
inductive DumpLine where
  | mapped
  | reserved (iova size : Nat)
  | region (iova phys : Nat) (readable writable : Bool) (size : Nat)
  deriving DecidableEq, Repr

/-- The line of `__print_region`. -/
def DumpRegion.line (r : DumpRegion) : DumpLine :=
  if r.type = dumpRegionReserve then .reserved r.iova r.size
  else .region r.iova r.phys (r.accessMask &&& sunxiPtePageReadable != 0)
    (r.accessMask &&& sunxiPtePageWritable != 0) r.size

/-- The local variables of `sunxi_pgtable_dump`, and the regions that it has
given to `__print_region`. -/
structure DumpState where
  len : Nat
  active : DumpRegion
  printed : List DumpRegion

/-- `SUNXI_PTE_PAGE_READABLE | SUNXI_PTE_PAGE_WRITABLE` of a leaf. -/
def accessBits (pent : Nat) : Nat :=
  pent &&& (sunxiPtePageReadable ||| sunxiPtePageWritable)

/-- `__region_ended`. -/
def RegionEnded (pent : Nat) : Prop := pent &&& sunxiPtePageValid = 0

/-- `__access_mask_changed`. -/
def AccessMaskChanged (pent oldMask : Nat) : Prop := oldMask ≠ accessBits pent

instance (pent : Nat) : Decidable (RegionEnded pent) :=
  inferInstanceAs (Decidable (_ = _))

instance (pent oldMask : Nat) : Decidable (AccessMaskChanged pent oldMask) :=
  inferInstanceAs (Decidable (_ ≠ _))

section Dump

/- `emit len line` is how many characters `sysfs_emit_at` or `scnprintf` says
that it wrote, whichever `for_sysfs_show` selects. -/
variable (L : PgtableLayout) (emit : Nat → DumpLine → Nat)

/-- `__print_region`, whose result is a `u32`, for the active region. -/
def DumpState.printRegion (st : DumpState) : DumpState :=
  { st with
    len := u32 (st.len + emit st.len st.active.line)
    printed := st.printed ++ [st.active] }

/-- Print the active region and prepare the next one. -/
def DumpState.close (st : DumpState) : DumpState :=
  let st := st.printRegion emit
  { st with active := { st.active with size := 0, accessMask := 0 } }

/-- Count a valid leaf: mark the start of a region if there is none. -/
def DumpState.count (i j pent : Nat) (st : DumpState) : DumpState :=
  let active :=
    if st.active.size = 0 then
      { st.active with
        iova := i <<< iommuPdShift L + j <<< iommuPtShift
        phys := iommuPhyToCpuPhy L (iopteToPfn L pent)
        accessMask := accessBits pent }
    else st.active
  { st with active := { active with size := active.size + 1 <<< iommuPtShift } }

/-- The body of the inner loop for the leaf `pent` in slot `j` of the entry
`i`. -/
def dumpLeaf (i j pent : Nat) (st : DumpState) : DumpState :=
  let st :=
    if st.active.size ≠ 0 ∧ (RegionEnded pent ∨ st.active.accessMask ≠ 0 ∧
        AccessMaskChanged pent st.active.accessMask) then st.close emit
    else st
  if pent &&& sunxiPtePageValid ≠ 0 then st.count L i j pent else st

/-- The inner loop, with `n` rounds left. -/
def dumpLeaves (s : Pgtable) (i pent : Nat) :
    Nat → Nat → DumpState → Except Fault DumpState
  | 0, _, st => .ok st
  | n + 1, j, st => do
    let leaf ← s.readLeaf L (pent + 4 * j)
    dumpLeaves s i pent n (j + 1) (dumpLeaf L emit i j leaf st)

/-- The body of the outer loop. -/
def dumpDent (s : Pgtable) (i : Nat) (st : DumpState) :
    Except Fault DumpState :=
  if ¬ IsValid (s.pgtable i) then
    .ok (if st.active.size ≠ 0 then st.close emit else st)
  else dumpLeaves L emit s i (iopteOffset L (s.pgtable i) 0) (numEntriesPte L) 0 st

/-- The outer loop, with `n` rounds left. -/
def dumpDents (s : Pgtable) : Nat → Nat → DumpState → Except Fault DumpState
  | 0, _, st => .ok st
  | n + 1, i, st => do
    let st ← dumpDent L emit s i st
    dumpDents s n (i + 1) st

/-- `sunxi_pgtable_dump`: its result, and the regions that it has printed.
The source leaves `phys` and `iova` of the region uninitialised, and never
reads them before it sets them. -/
def sunxiPgtableDump (s : Pgtable) (len : Nat) :
    Except Fault (Nat × List DumpRegion) := do
  let st ← dumpDents L emit s (numEntriesPde L) 0
    { len := len + emit len .mapped, active := ⟨0, 0, dumpRegionMap, 0, 0⟩
      printed := [] }
  let st := if st.active.size ≠ 0 then st.printRegion emit else st
  .ok (st.len, st.printed)

end Dump

/-! ## The pages -/

variable {L : PgtableLayout} {emit : Nat → DumpLine → Nat} {s : Pgtable}
  {st : DumpState} {i j n p word : Nat} {t : Nat → Nat}

/-- The pages of the address space. -/
def numPages (L : PgtableLayout) : Nat := numEntriesPde L * numEntriesPte L

/-- The leaf of a page, if it is valid. -/
def pageLeaf (L : PgtableLayout) (s : Pgtable) (p : Nat) : Option Nat :=
  let word := leafWord L s (p * spageSize)
  if word &&& sunxiPtePageValid ≠ 0 then some word else none

/-- When the dump counts a leaf to the region of another one. -/
def SameRegion (first pent : Nat) : Prop :=
  accessBits first = 0 ∨ accessBits first = accessBits pent

instance : DecidableRel SameRegion := fun _ _ =>
  inferInstanceAs (Decidable (_ ∨ _))

/-- The region of a run. -/
def regionOf (L : PgtableLayout) (r : Run Nat) : DumpRegion where
  accessMask := accessBits r.first
  size := r.length * spageSize
  type := dumpRegionMap
  phys := leafPhys L r.first
  iova := r.start * spageSize

theorem page_indices (hj : j < numEntriesPte L) (hi : i < numEntriesPde L) :
    iopdeIndex L ((i * numEntriesPte L + j) * spageSize) = i ∧
      iopteIndex L ((i * numEntriesPte L + j) * spageSize) = j := by
  rw [iopdeIndex_eq, iopteIndex_eq]
  cases L <;> simp at hi hj ⊢ <;> omega

theorem page_iova (i j : Nat) :
    i <<< iommuPdShift L + j <<< iommuPtShift =
      (i * numEntriesPte L + j) * spageSize := by
  rw [Nat.shiftLeft_eq, Nat.shiftLeft_eq]
  cases L <;> simp [iommuPdShift, iommuPtShift] <;> omega

/-- The leaf of a page lies in the page's slot. -/
theorem pageLeaf_of_table (hj : j < numEntriesPte L) (hi : i < numEntriesPde L)
    (hv : IsValid (s.pgtable i)) (ht : s.tables (tableOf L (s.pgtable i)) = some t) :
    pageLeaf L s (i * numEntriesPte L + j) =
      if t j &&& sunxiPtePageValid ≠ 0 then some (t j) else none := by
  obtain ⟨hpde, hpte⟩ := page_indices hj hi
  unfold pageLeaf
  rw [leafWord_of_table (t := t) (by rwa [hpde]) (by rwa [hpde]), hpte]

/-- No page below an invalid entry is valid. -/
theorem pageLeaf_of_not_valid (hi : i < numEntriesPde L)
    (hv : ¬ IsValid (s.pgtable i)) (hlow : i * numEntriesPte L ≤ p)
    (hhigh : p < i * numEntriesPte L + numEntriesPte L) :
    pageLeaf L s p = none := by
  have hp : i * numEntriesPte L + (p - i * numEntriesPte L) = p := by omega
  obtain ⟨hpde, -⟩ := page_indices (L := L) (i := i)
    (j := p - i * numEntriesPte L) (by omega) hi
  rw [hp] at hpde
  unfold pageLeaf
  rw [leafWord_of_not_valid (by rwa [hpde])]
  rfl

/-! ## The walk is the scan -/

/-- The local variables stand for the scan of the pages before `p`. -/
structure Tracks (L : PgtableLayout) (s : Pgtable) (p : Nat) (st : DumpState)
    (scan : State Nat) : Prop where
  scanned : Scanned SameRegion (pageLeaf L s) p scan
  printed : st.printed = scan.out.map (regionOf L)
  type : st.active.type = dumpRegionMap
  idle : scan.pending = none → st.active.size = 0
  active : ∀ r, scan.pending = some r → st.active = regionOf L r

theorem Tracks.size_ne_zero {scan : State Nat} (h : Tracks L s p st scan)
    {r : Run Nat} (hr : scan.pending = some r) : st.active.size ≠ 0 := by
  have hpos := h.scanned.runs.nonempty r (by simp [State.runs, hr])
  rw [h.active r hr]
  simp only [regionOf, spageSize_eq]
  omega

/-- Pages without a valid leaf close the region. -/
theorem Tracks.gap (emit : Nat → DumpLine → Nat) {scan : State Nat} {k : Nat}
    (h : Tracks L s p st scan)
    (hgap : ∀ q, p ≤ q → q < p + k → pageLeaf L s q = none) (hk : 0 < k) :
    Tracks L s (p + k) (if st.active.size ≠ 0 then st.close emit else st)
      scan.flush := by
  have hscanned := h.scanned.gap hgap hk
  cases hpending : scan.pending with
  | none =>
    have hsize : ¬ st.active.size ≠ 0 := not_not.mpr (h.idle hpending)
    rw [if_neg hsize]
    refine ⟨hscanned, ?_, h.type, fun _ => h.idle hpending, fun r hr => ?_⟩
    · rw [h.printed, State.flush, State.runs, hpending, Option.toList_none,
        List.append_nil]
    · cases hr
  | some r =>
    rw [if_pos (h.size_ne_zero hpending)]
    refine ⟨hscanned, ?_, h.type, fun _ => rfl, fun r hr => ?_⟩
    · show st.printed ++ [st.active] = _
      rw [h.printed, h.active r hpending, State.flush, State.runs, hpending,
        Option.toList_some, List.map_append, List.map_singleton]
    · cases hr

/-- The first leaf of a region. -/
theorem count_of_idle (word : Nat) (st : DumpState)
    (hp : p = i * numEntriesPte L + j) (hsize : st.active.size = 0)
    (htype : st.active.type = dumpRegionMap) :
    st.count L i j word = { st with active := regionOf L ⟨p, 1, word⟩ } := by
  unfold DumpState.count
  rw [if_pos hsize]
  simp only [hsize, htype, page_iova, ← hp, regionOf, leafPhys, spageSize,
    Nat.zero_add, Nat.one_mul]

/-- One more leaf of a region. -/
theorem count_of_active {r : Run Nat} (hactive : st.active = regionOf L r)
    (hsize : st.active.size ≠ 0) :
    st.count L i j word =
      { st with active := regionOf L ⟨r.start, r.length + 1, r.first⟩ } := by
  unfold DumpState.count
  rw [if_neg hsize]
  simp only [hactive, regionOf, spageSize, Nat.add_mul, Nat.one_mul]

/-- A valid leaf continues the region, or it opens the next one. -/
theorem Tracks.push {scan : State Nat} (h : Tracks L s p st scan)
    (hp : p = i * numEntriesPte L + j) (hword : pageLeaf L s p = some word)
    (hvalid : word &&& sunxiPtePageValid ≠ 0) :
    Tracks L s (p + 1) (dumpLeaf L emit i j word st)
      (scan.push SameRegion p word) := by
  have hscanned := h.scanned.push hword
  have hended : ¬ RegionEnded word := hvalid
  unfold dumpLeaf
  simp only [if_pos hvalid, hended, false_or]
  unfold State.push at hscanned ⊢
  cases hpending : scan.pending with
  | none =>
    have hsize := h.idle hpending
    rw [hpending] at hscanned
    rw [if_neg fun hboth => hboth.1 hsize, count_of_idle word st hp hsize h.type]
    exact ⟨hscanned, h.printed, rfl, fun hr => (by cases hr),
      fun r hr => by rw [← Option.some.inj hr]⟩
  | some r =>
    have hactive := h.active r hpending
    have hsize := h.size_ne_zero hpending
    have hmask : st.active.accessMask = accessBits r.first := by
      rw [hactive]
      rfl
    rw [hpending] at hscanned
    simp only [hmask, AccessMaskChanged]
    dsimp only at hscanned ⊢
    by_cases hsame : SameRegion r.first word
    · have hkeep : ¬ (st.active.size ≠ 0 ∧ accessBits r.first ≠ 0 ∧
          accessBits r.first ≠ accessBits word) := by
        intro hboth
        exact hsame.elim hboth.2.1 hboth.2.2
      rw [if_pos hsame] at hscanned ⊢
      rw [if_neg hkeep, count_of_active hactive hsize]
      exact ⟨hscanned, h.printed, rfl, fun hr => (by cases hr),
        fun r' hr' => by rw [← Option.some.inj hr']⟩
    · have hchange : st.active.size ≠ 0 ∧ accessBits r.first ≠ 0 ∧
          accessBits r.first ≠ accessBits word :=
        ⟨hsize, fun hzero => hsame (Or.inl hzero),
          fun heq => hsame (Or.inr heq)⟩
      rw [if_neg hsame] at hscanned ⊢
      have hclosed := count_of_idle word (st.close emit) hp rfl h.type
      rw [if_pos hchange, hclosed]
      refine ⟨hscanned, ?_, rfl, fun hr => (by cases hr),
        fun r' hr' => by rw [← Option.some.inj hr']⟩
      show st.printed ++ [st.active] = _
      rw [h.printed, hactive, List.map_append, List.map_singleton]

/-- One leaf is one page of the scan. -/
theorem dumpLeaf_tracks (emit : Nat → DumpLine → Nat) {scan : State Nat}
    (h : Tracks L s p st scan) (hp : p = i * numEntriesPte L + j)
    (hword : pageLeaf L s p =
      if word &&& sunxiPtePageValid ≠ 0 then some word else none) :
    ∃ scan', Tracks L s (p + 1) (dumpLeaf L emit i j word st) scan' := by
  by_cases hvalid : word &&& sunxiPtePageValid ≠ 0
  · rw [if_pos hvalid] at hword
    exact ⟨_, h.push hp hword hvalid⟩
  · have hended : RegionEnded word := not_not.mp hvalid
    rw [if_neg hvalid] at hword
    have hgap := h.gap emit (k := 1) (fun q hle hlt => by
      obtain rfl : q = p := by omega
      exact hword) Nat.one_pos
    unfold dumpLeaf
    simp only [if_neg hvalid, hended, true_or, and_true]
    exact ⟨_, hgap⟩

/-- The inner loop. -/
theorem dumpLeaves_tracks (hs : Walkable L s) (hi : i < numEntriesPde L)
    (hv : IsValid (s.pgtable i)) (n : Nat) {j : Nat} {st : DumpState}
    {scan : State Nat} (hj : j + n = numEntriesPte L)
    (h : Tracks L s (i * numEntriesPte L + j) st scan) :
    ∃ st' scan', dumpLeaves L emit s i (tableOf L (s.pgtable i)) n j st = .ok st' ∧
      Tracks L s (i * numEntriesPte L + numEntriesPte L) st' scan' := by
  obtain ⟨t, ht⟩ := hs.table i hi hv
  induction n generalizing j st scan with
  | zero =>
    rw [Nat.add_zero] at hj
    rw [hj] at h
    exact ⟨st, scan, rfl, h⟩
  | succ n ih =>
    have hlt : j < numEntriesPte L := by omega
    obtain ⟨scan₁, h₁⟩ := dumpLeaf_tracks emit h rfl
      (pageLeaf_of_table hlt hi hv ht)
    obtain ⟨st', scan', hrun, hend⟩ := ih (j := j + 1) (by omega) h₁
    refine ⟨st', scan', ?_, hend⟩
    rw [dumpLeaves, hs.readLeaf_eq ht hlt]
    exact hrun

/-- The body of the outer loop. -/
theorem dumpDent_tracks (hs : Walkable L s) (emit : Nat → DumpLine → Nat)
    (hi : i < numEntriesPde L) {scan : State Nat}
    (h : Tracks L s (i * numEntriesPte L) st scan) :
    ∃ st' scan', dumpDent L emit s i st = .ok st' ∧
      Tracks L s ((i + 1) * numEntriesPte L) st' scan' := by
  have hpos : 0 < numEntriesPte L := by cases L <;> decide
  rw [Nat.add_mul, Nat.one_mul]
  unfold dumpDent
  by_cases hv : IsValid (s.pgtable i)
  · rw [if_neg (not_not.mpr hv)]
    exact dumpLeaves_tracks hs hi hv _ (Nat.zero_add _) h
  · rw [if_pos hv]
    exact ⟨_, _, rfl, h.gap emit (fun q hle hlt =>
      pageLeaf_of_not_valid hi hv hle hlt) hpos⟩

/-- The outer loop. -/
theorem dumpDents_tracks (hs : Walkable L s) (emit : Nat → DumpLine → Nat)
    (n : Nat) {i : Nat} {st : DumpState} {scan : State Nat}
    (hi : i + n = numEntriesPde L)
    (h : Tracks L s (i * numEntriesPte L) st scan) :
    ∃ st' scan', dumpDents L emit s n i st = .ok st' ∧
      Tracks L s (numPages L) st' scan' := by
  induction n generalizing i st scan with
  | zero =>
    rw [Nat.add_zero] at hi
    rw [hi] at h
    exact ⟨st, scan, rfl, h⟩
  | succ n ih =>
    obtain ⟨st₁, scan₁, hdent, h₁⟩ :=
      dumpDent_tracks hs emit (by omega) h
    obtain ⟨st', scan', hrun, hend⟩ := ih (i := i + 1) (by omega) h₁
    refine ⟨st', scan', ?_, hend⟩
    rw [dumpDents, hdent]
    exact hrun

/-- The printed regions are the runs of the pages. -/
theorem sunxiPgtableDump_runs (hs : Walkable L s)
    (emit : Nat → DumpLine → Nat) (len : Nat) :
    ∃ len' l, sunxiPgtableDump L emit s len = .ok (len', l.map (regionOf L)) ∧
      Runs SameRegion (pageLeaf L s) (numPages L) l := by
  have hstart : Tracks L s (0 * numEntriesPte L)
      { len := len + emit len .mapped, active := ⟨0, 0, dumpRegionMap, 0, 0⟩
        printed := [] } (⟨[], none⟩ : State Nat) := by
    rw [Nat.zero_mul]
    exact ⟨Scanned.nil, rfl, rfl, fun _ => rfl, fun r hr => (by cases hr)⟩
  obtain ⟨st, scan, hrun, hend⟩ :=
    dumpDents_tracks hs emit _ (Nat.zero_add _) hstart
  have hruns := hend.scanned.runs
  unfold sunxiPgtableDump
  rw [hrun]
  cases hpending : scan.pending with
  | none =>
    have hsize : ¬ st.active.size ≠ 0 := not_not.mpr (hend.idle hpending)
    refine ⟨st.len, scan.runs, ?_, hruns⟩
    rw [State.runs, hpending, Option.toList_none, List.append_nil, ← hend.printed]
    simp only [bind, Except.bind, if_neg hsize]
  | some r =>
    have hsize := hend.size_ne_zero hpending
    refine ⟨(st.printRegion emit).len, scan.runs, ?_, hruns⟩
    rw [State.runs, hpending, Option.toList_some, List.map_append,
      List.map_singleton, ← hend.printed, ← hend.active r hpending]
    simp only [bind, Except.bind, if_pos hsize]
    rfl

/-! ## What the dump covers -/

/-- The regions are the bytes of the valid pages, in order and each byte
once. -/
structure CoversPages (L : PgtableLayout) (s : Pgtable)
    (regions : List DumpRegion) : Prop where
  nonempty : ∀ r ∈ regions, 0 < r.size
  ascending : regions.Pairwise fun r r' => r.iova < r'.iova
  disjoint : regions.Pairwise fun r r' => r.iova + r.size ≤ r'.iova
  covers : ∀ iova, (∃ r ∈ regions, r.iova ≤ iova ∧ iova < r.iova + r.size) ↔
    iova < 2 ^ iommuVaBits L ∧ leafWord L s iova &&& sunxiPtePageValid ≠ 0

theorem pageLeaf_isSome_iff : (pageLeaf L s p).isSome ↔
    leafWord L s (p * spageSize) &&& sunxiPtePageValid ≠ 0 := by
  unfold pageLeaf
  dsimp only
  split_ifs with hvalid
  · exact ⟨fun _ => hvalid, fun _ => rfl⟩
  · exact ⟨fun hsome => (by cases hsome), fun hne => absurd hne hvalid⟩

/-- An address lies in the region of a run when its page lies in the run. -/
theorem regionOf_contains (r : Run Nat) (iova : Nat) :
    (regionOf L r).iova ≤ iova ∧ iova < (regionOf L r).iova + (regionOf L r).size ↔
      r.start ≤ iova / spageSize ∧ iova / spageSize < r.stop := by
  simp only [regionOf, Run.stop, spageSize_eq]
  omega

theorem CoversPages.of_runs {l : List (Run Nat)}
    (h : Runs SameRegion (pageLeaf L s) (numPages L) l) :
    CoversPages L s (l.map (regionOf L)) where
  nonempty := by
    simp only [List.forall_mem_map]
    intro r hr
    have hpos := h.nonempty r hr
    simp only [regionOf, spageSize_eq]
    omega
  ascending := by
    rw [List.pairwise_map]
    refine h.ascending.imp_of_mem fun hr hr' hle => ?_
    have hpos := h.nonempty _ hr
    simp only [regionOf, Run.stop, spageSize_eq] at hle ⊢
    omega
  disjoint := by
    rw [List.pairwise_map]
    refine h.ascending.imp fun hle => ?_
    simp only [regionOf, Run.stop, spageSize_eq] at hle ⊢
    omega
  covers iova := by
    have hpages : iova / spageSize < numPages L ↔ iova < 2 ^ iommuVaBits L := by
      unfold numPages
      cases L <;> simp <;> omega
    have hcovers := h.covers (iova / spageSize)
    have hword : leafWord L s (iova / spageSize * spageSize) = leafWord L s iova :=
      (leafWord_page iova).symm
    rw [pageLeaf_isSome_iff, hword, hpages] at hcovers
    rw [← hcovers]
    simp only [List.mem_map, exists_exists_and_eq_and, regionOf_contains]

/-- The dump ends, and the regions that it prints are the valid pages. -/
theorem sunxiPgtableDump_covers (hs : Walkable L s)
    (emit : Nat → DumpLine → Nat) (len : Nat) :
    ∃ len' regions, sunxiPgtableDump L emit s len = .ok (len', regions) ∧
      CoversPages L s regions := by
  obtain ⟨len', l, hrun, hruns⟩ := sunxiPgtableDump_runs hs emit len
  exact ⟨len', l.map (regionOf L), hrun, .of_runs hruns⟩

/-- A directory whose first entry has a table with the words `leaves`. -/
def oneTable (leaves : Nat → Nat) : Pgtable where
  pgtable := Function.update (fun _ => 0) 0 (iopteEntry .v1 sunxiPhysOffset)
  tables := Function.update (fun _ => none) sunxiPhysOffset (some leaves)
  slab := []
  trace := []

theorem oneTable_entry (leaves : Nat → Nat) :
    (oneTable leaves).pgtable 0 = iopteEntry .v1 sunxiPhysOffset := by
  simp only [oneTable, Function.update_self]

theorem oneTable_table (leaves : Nat → Nat) :
    (oneTable leaves).tables (tableOf .v1 ((oneTable leaves).pgtable 0)) =
      some leaves := by
  rw [oneTable_entry, tableOf_iopteEntry (by decide) (by decide)]
  simp only [oneTable, Function.update_self]

theorem oneTable_walkable (leaves : Nat → Nat) :
    Walkable .v1 (oneTable leaves) where
  table i _ hv := by
    by_cases hi : i = 0
    · rw [hi]
      exact ⟨leaves, oneTable_table leaves⟩
    · simp only [oneTable, Function.update_of_ne hi] at hv
      exact absurd hv not_isValid_zero
  aligned pa t ht := by
    by_cases hpa : pa = sunxiPhysOffset
    · rw [hpa]
      decide
    · simp only [oneTable, Function.update_of_ne hpa] at ht
      cases ht

theorem sunxiPgtableDump_covers_oneTable :
    ∃ len' regions, sunxiPgtableDump .v1 (fun _ _ => 0)
        (oneTable (leafRun .v1 sunxiPhysOffset iommuRead)) 0 =
        .ok (len', regions) ∧
      CoversPages .v1 (oneTable (leafRun .v1 sunxiPhysOffset iommuRead)) regions :=
  sunxiPgtableDump_covers (oneTable_walkable _) (fun _ _ => 0) 0

end LonganPi.Iommu
