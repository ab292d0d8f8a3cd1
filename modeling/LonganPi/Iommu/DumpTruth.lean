import LonganPi.Iommu.PgtableDump

/-!
# What a dumped region says

A line of the dump gives the physical address and the access bits of the first
page of a region, and its size.  A reader takes the region to be contiguous in
physical memory, with the same rights on every page.

The dump looks at neither: it ends a region when the access bits change, but
not when the physical addresses do, and a region that starts without access
bits takes every valid page.  `dumpTruthful_iff` says for which tables its
lines are right all the same.
-/

namespace LonganPi.Iommu

open RunScan

variable {L : PgtableLayout} {emit : Nat → DumpLine → Nat} {s : Pgtable}
  {p word len : Nat}

/-- Every page of the region translates into it, and has its access bits. -/
def RegionTrue (L : PgtableLayout) (s : Pgtable) (r : DumpRegion) : Prop :=
  ∀ d, d % spageSize = 0 → d < r.size →
    sunxiPgtableIovaToPhys L s (r.iova + d) = .ok (r.phys + d) ∧
      accessBits (leafWord L s (r.iova + d)) = r.accessMask

/-- The dump ends, and all its regions are true. -/
def DumpTruthful (L : PgtableLayout) (emit : Nat → DumpLine → Nat)
    (s : Pgtable) (len : Nat) : Prop :=
  ∃ len' regions, sunxiPgtableDump L emit s len = .ok (len', regions) ∧
    ∀ r ∈ regions, RegionTrue L s r

/-- A leaf is `d` pages after another one in physical memory, with the same
rights. -/
def Follows (L : PgtableLayout) (first word d : Nat) : Prop :=
  leafPhys L word = leafPhys L first + d * spageSize ∧
    accessBits word = accessBits first

/-- Two valid neighbours are contiguous and have the same rights when the
dump counts them to one region. -/
def ContiguousMerges (L : PgtableLayout) (s : Pgtable) : Prop :=
  ∀ p a b, p + 1 < numPages L → pageLeaf L s p = some a →
    pageLeaf L s (p + 1) = some b → SameRegion a b → Follows L a b 1

/-! ## A region and its run -/

/-- A valid leaf is the word of its page. -/
theorem leafWord_of_pageLeaf (h : pageLeaf L s p = some word) :
    leafWord L s (p * spageSize) = word ∧ word ≠ 0 := by
  unfold pageLeaf at h
  dsimp only at h
  split_ifs at h with hvalid
  obtain rfl := Option.some.inj h
  refine ⟨rfl, fun hzero => hvalid ?_⟩
  rw [hzero, Nat.zero_and]

/-- A valid page translates to the address in its leaf. -/
theorem iovaToPhys_of_pageLeaf (hs : Walkable L s)
    (h : pageLeaf L s p = some word) :
    sunxiPgtableIovaToPhys L s (p * spageSize) = .ok (leafPhys L word) := by
  obtain ⟨hword, hne⟩ := leafWord_of_pageLeaf h
  have hoffset : iovaPageOft (p * spageSize) = 0 := by
    rw [iovaPageOft_eq, spageSize_eq]
    omega
  rw [hs.iovaToPhys_eq, hword, if_pos hne, hoffset, Nat.add_zero]
  rfl

/-- What the region of a run says about one of its pages. -/
theorem page_true_iff (hs : Walkable L s) {r : Run Nat} {d : Nat}
    (h : pageLeaf L s (r.start + d) = some word) :
    (sunxiPgtableIovaToPhys L s ((regionOf L r).iova + d * spageSize) =
        .ok ((regionOf L r).phys + d * spageSize) ∧
      accessBits (leafWord L s ((regionOf L r).iova + d * spageSize)) =
        (regionOf L r).accessMask) ↔
      Follows L r.first word d := by
  have haddr : (regionOf L r).iova + d * spageSize =
      (r.start + d) * spageSize := by
    rw [Nat.add_mul]
    rfl
  rw [haddr, iovaToPhys_of_pageLeaf hs h, (leafWord_of_pageLeaf h).1,
    Except.ok.injEq]
  rfl

/-- A region is true when its run is uniform. -/
theorem regionTrue_iff (hs : Walkable L s) {r : Run Nat}
    (hpages : ∀ d < r.length, ∃ a, pageLeaf L s (r.start + d) = some a) :
    RegionTrue L s (regionOf L r) ↔ ∀ d < r.length,
      ∃ a, pageLeaf L s (r.start + d) = some a ∧ Follows L r.first a d := by
  constructor
  · intro htrue d hd
    obtain ⟨a, ha⟩ := hpages d hd
    have hsize : d * spageSize < (regionOf L r).size := by
      simp only [regionOf, spageSize_eq]
      omega
    have hpage := htrue (d * spageSize) (Nat.mul_mod_left d spageSize) hsize
    exact ⟨a, ha, (page_true_iff hs ha).mp hpage⟩
  · intro huniform d hal hd
    have hdiv : d / spageSize * spageSize = d :=
      Nat.div_mul_cancel (Nat.dvd_of_mod_eq_zero hal)
    have hlt : d / spageSize < r.length := by
      simp only [regionOf, spageSize_eq] at hd ⊢
      omega
    obtain ⟨a, ha, hfollows⟩ := huniform (d / spageSize) hlt
    have hpage := (page_true_iff hs ha).mpr hfollows
    rwa [hdiv] at hpage

/-! ## The merge test -/

/-- The regions are true exactly when neighbours that the dump merges are
contiguous and have the same rights. -/
theorem uniform_iff_contiguousMerges {l : List (Run Nat)}
    (h : Runs SameRegion (pageLeaf L s) (numPages L) l) :
    Uniform (Follows L) (pageLeaf L s) l ↔ ContiguousMerges L s := by
  refine h.uniform_iff (fun a => ?_) (fun f a d hfa b => ?_) fun f a d hfa b => ?_
  · rw [Follows, Nat.zero_mul, Nat.add_zero]
    exact ⟨rfl, rfl⟩
  · rw [SameRegion, SameRegion, hfa.2]
  · rw [Follows, Follows, hfa.1, hfa.2, Nat.add_mul, Nat.one_mul, Nat.add_assoc]

theorem regions_true_iff (hs : Walkable L s) {l : List (Run Nat)}
    (h : Runs SameRegion (pageLeaf L s) (numPages L) l) :
    (∀ r ∈ l.map (regionOf L), RegionTrue L s r) ↔ ContiguousMerges L s := by
  rw [← uniform_iff_contiguousMerges h, List.forall_mem_map]
  refine forall₂_congr fun r hr => regionTrue_iff hs fun d hd => ?_
  have hpage := ((h.covers (r.start + d)).mp
    ⟨r, hr, by omega, by rw [Run.stop]; omega⟩).2
  exact Option.isSome_iff_exists.mp hpage

/-- The dump tells the truth exactly when any two valid neighbours that it
merges are contiguous and have the same rights. -/
theorem dumpTruthful_iff (hs : Walkable L s) (emit : Nat → DumpLine → Nat)
    (len : Nat) : DumpTruthful L emit s len ↔ ContiguousMerges L s := by
  obtain ⟨len', l, hrun, hruns⟩ := sunxiPgtableDump_runs hs emit len
  rw [← regions_true_iff hs hruns]
  constructor
  · intro htruthful
    obtain ⟨len₁, regions, hrun₁, htrue⟩ := htruthful
    rw [hrun, Except.ok.injEq, Prod.mk.injEq] at hrun₁
    rwa [hrun₁.2]
  · intro htrue
    exact ⟨len', _, hrun, htrue⟩

/-! ## Two scattered pages -/

/-- Two readable pages, 256 MiB apart in physical memory. -/
def scatteredLeaves (j : Nat) : Nat :=
  if j = 1 then sunxiMkPte .v1 0x40000000 iommuRead
  else if j = 2 then sunxiMkPte .v1 0x50000000 iommuRead
  else 0

theorem dumpTruthful_iff_scattered :
    DumpTruthful .v1 (fun _ _ => 0) (oneTable scatteredLeaves) 0 ↔
      ContiguousMerges .v1 (oneTable scatteredLeaves) :=
  dumpTruthful_iff (oneTable_walkable _) (fun _ _ => 0) 0

theorem scattered_pageLeaf {j : Nat} (hj : j < 256) :
    pageLeaf .v1 (oneTable scatteredLeaves) j =
      if scatteredLeaves j &&& sunxiPtePageValid ≠ 0 then
        some (scatteredLeaves j) else none := by
  have hvalid : IsValid ((oneTable scatteredLeaves).pgtable 0) := by
    rw [oneTable_entry]
    exact isValid_iopteEntry (by decide)
  have hpage := pageLeaf_of_table (L := .v1) (i := 0) hj (by decide) hvalid
    (oneTable_table scatteredLeaves)
  rwa [Nat.zero_mul, Nat.zero_add] at hpage

/-- One region for both pages, with the address of the first. -/
theorem scattered_not_truthful : Walkable .v1 (oneTable scatteredLeaves) ∧
    ¬ DumpTruthful .v1 (fun _ _ => 0) (oneTable scatteredLeaves) 0 := by
  have hs := oneTable_walkable scatteredLeaves
  refine ⟨hs, fun htruthful => ?_⟩
  obtain ⟨len', l, hrun, hruns⟩ :=
    sunxiPgtableDump_runs hs (fun _ _ => 0) 0
  obtain ⟨len₁, regions, hrun₁, htrue⟩ := htruthful
  rw [hrun, Except.ok.injEq, Prod.mk.injEq] at hrun₁
  rw [← hrun₁.2, regions_true_iff hs hruns] at htrue
  have hfollows := htrue 1 (scatteredLeaves 1) (scatteredLeaves 2) (by decide)
    (scattered_pageLeaf (by decide)) (scattered_pageLeaf (by decide))
    (by decide)
  exact absurd hfollows.1 (by decide)

end LonganPi.Iommu
