import LonganPi.Iommu.LeafRuns
import LonganPi.Iommu.TableOwnership

/-!
# The page table refines a map of pages

What the page table is for: a partial map from IO pages to physical pages
with rights.  `IoMap` is that map, with the two operations that the IOMMU
core asks for.  `Matches` relates it to the words of the page table, and
`exec_matches` is the simulation: every call that is allowed on the map has
its effect on the page table.

`pgtable_refines` packs it for whole runs, and `Refines` states what can be
seen from outside: the answers of `sunxi_pgtable_iova_to_phys` and the
access bits of the leaves.  `Call.Answers` fixes the results: a map fails
only when the slab refuses it an L2 table.
-/

namespace LonganPi.Iommu

variable {L : PgtableLayout} {s : Pgtable}

/-! ## The abstract map -/

/-- What an IO page is mapped to: a physical page and the rights. -/
structure IoPage where
  phys : Nat
  read : Bool
  write : Bool
  deriving DecidableEq, Repr

/-- The map of IO pages. -/
abbrev IoMap := Nat → Option IoPage

namespace IoMap

/-- Nothing is mapped. -/
def empty : IoMap := fun _ => none

/-- Map the pages of a range to the physical pages from `paddr` on. -/
def map (m : IoMap) (iova paddr size prot : Nat) : IoMap := fun page =>
  if iova / 4096 ≤ page ∧ page < (iova + size) / 4096 then
    some { phys := paddr / 4096 + (page - iova / 4096)
           read := prot &&& iommuRead ≠ 0
           write := prot &&& iommuWrite ≠ 0 }
  else m page

/-- Unmap the pages of a range. -/
def unmap (m : IoMap) (iova size : Nat) : IoMap := fun page =>
  if iova / 4096 ≤ page ∧ page < (iova + size) / 4096 then none else m page

/-- Every page of the range is mapped. -/
def Mapped (m : IoMap) (iova size : Nat) : Prop :=
  ∀ page, iova / 4096 ≤ page → page < (iova + size) / 4096 → m page ≠ none

/-- No page of the range is mapped. -/
def Unmapped (m : IoMap) (iova size : Nat) : Prop :=
  ∀ page, iova / 4096 ≤ page → page < (iova + size) / 4096 → m page = none

/-- The physical address of an IO address, 0 when it is not mapped. -/
def translate (m : IoMap) (iova : Nat) : Nat :=
  match m (iova / 4096) with
  | some p => p.phys * 4096 + iova % 4096
  | none => 0

end IoMap

/-! ## Calls on the map -/

/-- The call is one that the IOMMU core makes: a chunk of the aperture, a
physical chunk of the window that is aligned alike, and no page that is
mapped twice or unmapped twice. -/
def Call.Allowed (L : PgtableLayout) (m : IoMap) : Call → Prop
  | .map iova paddr size _ =>
    Chunk L iova size ∧ paddr % size = 0 ∧ sunxiPhysOffset ≤ paddr ∧
      paddr + size ≤ sunxiPhysOffset + 2 ^ iommuVaBits L ∧
      m.Unmapped iova size
  | .unmap iova size => Chunk L iova size ∧ m.Mapped iova size
  | .clear => True

/-- The result is one that the core expects of the call in the state `s`.  A
map succeeds when the slab gives every L2 table that it needs, and answers
`-ENOMEM` only when the slab does not. -/
def Call.Answers (L : PgtableLayout) (s : Pgtable) (ret : Int) :
    Call → Prop
  | .map iova _ size _ =>
    (ret = 0 ∧ SlabGives L s (missingTables L s iova (iova + size))) ∨
      (ret = eNomem ∧ ¬ SlabGives L s (missingTables L s iova (iova + size)))
  | .unmap _ size => ret = size
  | .clear => ret = 0

/-- What the call does to the map.  A map that failed does nothing. -/
def Call.effect (m : IoMap) (ret : Int) : Call → IoMap
  | .map iova paddr size prot =>
    if ret = 0 then m.map iova paddr size prot else m
  | .unmap iova size => m.unmap iova size
  | .clear => .empty

/-- The rights and the validity of a leaf are those of the page. -/
def RightsMatch : Option IoPage → Nat → Prop
  | none, w => w = 0
  | some p, w => w &&& sunxiPtePageValid ≠ 0 ∧
      (w &&& sunxiPtePageReadable ≠ 0 ↔ p.read = true) ∧
      (w &&& sunxiPtePageWritable ≠ 0 ↔ p.write = true)

/-- The page table translates every address of the aperture as the map
does. -/
def Refines (L : PgtableLayout) (s : Pgtable) (m : IoMap) : Prop :=
  ∀ iova < 2 ^ iommuVaBits L,
    sunxiPgtableIovaToPhys L s iova = .ok (m.translate iova) ∧
      RightsMatch (m (iova / 4096)) (leafWord L s iova)

/-- The page table follows the map through the calls, as long as they are
allowed. -/
def Simulates (L : PgtableLayout) (version : Nat) :
    List Call → Pgtable → IoMap → Prop
  | [], s, m => Refines L s m
  | c :: calls, s, m => Refines L s m ∧
      (c.Allowed L m → ∃ s' ret, c.exec L version s = .ok (s', ret) ∧
        c.Answers L s ret ∧ Simulates L version calls s' (c.effect m ret))

/-! ## The simulation relation -/

/-- The leaf word of a page. -/
structure LeafMatches (L : PgtableLayout) (p : IoPage) (w : Nat) : Prop where
  lt : w < 2 ^ 32
  phys : leafPhys L w = p.phys * 4096
  rights : RightsMatch (some p) w

/-- The page table and the map agree on every page. -/
structure Matches (L : PgtableLayout) (s : Pgtable) (m : IoMap) : Prop where
  wellFormed : WellFormed L s
  unmapped : ∀ iova < 2 ^ iommuVaBits L, m (iova / 4096) = none →
    leafWord L s iova = 0
  mapped : ∀ iova < 2 ^ iommuVaBits L, ∀ p, m (iova / 4096) = some p →
    LeafMatches L p (leafWord L s iova)

theorem LeafMatches.ne_zero {p : IoPage} {w : Nat} (h : LeafMatches L p w) :
    w ≠ 0 := by
  intro heq
  subst heq
  exact h.rights.1 (Nat.zero_and _)

/-- What the relation means for `sunxi_pgtable_iova_to_phys`. -/
theorem Matches.refines {m : IoMap} (h : Matches L s m) : Refines L s m := by
  intro iova hiova
  rw [sunxiPgtableIovaToPhys_eq h.wellFormed]
  unfold IoMap.translate
  cases hm : m (iova / 4096) with
  | none =>
    have hzero := h.unmapped iova hiova hm
    rw [hzero]
    exact ⟨rfl, rfl⟩
  | some p =>
    have hleaf := h.mapped iova hiova p hm
    refine ⟨?_, hleaf.rights⟩
    have hoff : iova % 4096 < 4096 := Nat.mod_lt _ (by decide)
    rw [if_pos hleaf.ne_zero, iovaPageOft_eq,
      iommuPhyToCpuPhy_add (iopteToPfn_aligned hleaf.lt) hoff]
    exact congrArg (fun x => Except.ok (x + iova % 4096)) hleaf.phys

/-- A mapped page has a valid directory entry. -/
theorem Matches.isValid {m : IoMap} (h : Matches L s m) {iova : Nat}
    (hiova : iova < 2 ^ iommuVaBits L) (hm : m (iova / 4096) ≠ none) :
    IsValid (s.pgtable (iopdeIndex L iova)) := by
  obtain ⟨p, hp⟩ := Option.ne_none_iff_exists'.mp hm
  by_contra hv
  exact (h.mapped iova hiova p hp).ne_zero (leafWord_of_not_valid hv)

theorem matches_alloc (L : PgtableLayout) (slab : List (Option Nat)) :
    Matches L (sunxiPgtableAlloc slab) IoMap.empty where
  wellFormed := wellFormed_alloc L slab
  unmapped _ _ _ := leafWord_of_not_valid not_isValid_zero
  mapped _ _ _ h := by simp [IoMap.empty] at h

/-! ## The leaves of a chunk -/

section ChunkLeaf

variable {iova paddr size a : Nat}

/-- A chunk and its physical pages are a run of the second pass. -/
private theorem chunk_runArgs (hc : Chunk L iova size) (hpal : paddr % size = 0)
    (hlo : sunxiPhysOffset ≤ paddr)
    (hhi : paddr + size ≤ sunxiPhysOffset + 2 ^ iommuVaBits L) :
    RunArgs L iova (iova + size) paddr where
  start_aligned := hc.pageRange.start_aligned
  stop_aligned := hc.pageRange.stop_aligned
  le := Nat.le_add_right _ _
  stop_le := hc.le
  paddr_aligned := by
    rcases hc.size_cases with h | h | h | h | h | h | h <;> subst h <;> omega
  window_lo := hlo
  window_hi := by omega

/-- The physical pages are aligned alike, so no 4 GiB boundary is inside. -/
private theorem chunk_boundaries (hc : Chunk L iova size)
    (hpal : paddr % size = 0) :
    BoundariesStartTables L iova (iova + size) paddr := by
  intro _ a hgt hlt hbound
  rcases hc.size_cases with h | h | h | h | h | h | h <;> subst h <;> omega

/-- Every leaf that a map of the chunk writes is the leaf of its page. -/
theorem mappedLeaf_matches (prot : Nat) (hc : Chunk L iova size)
    (hpal : paddr % size = 0) (hlo : sunxiPhysOffset ≤ paddr)
    (hhi : paddr + size ≤ sunxiPhysOffset + 2 ^ iommuVaBits L)
    (hge : iova ≤ a) (hlt : a < iova + size) :
    LeafMatches L
      { phys := paddr / 4096 + (a / 4096 - iova / 4096)
        read := prot &&& iommuRead ≠ 0
        write := prot &&& iommuWrite ≠ 0 }
      (mappedLeaf L iova (cpuPhyToIommuPhy L paddr &&& iommuPtMask) prot
        a) := by
  have hargs := chunk_runArgs hc hpal hlo hhi
  have hcarry := (noCarry_iff hargs).mpr (chunk_boundaries hc hpal) a hge hlt
  obtain ⟨hlt32, hvalid, hread, hwrite⟩ := mappedLeaf_rights hargs prot hge hlt
  refine ⟨hlt32, ?_, hvalid, ?_, ?_⟩
  · have hpage := hargs.paddr_aligned
    have hstart := hargs.start_aligned
    rw [(mappedLeaf_phys_iff hargs prot hge hlt).mpr hcarry]
    show _ = (paddr / 4096 + (a / 4096 - iova / 4096)) * 4096
    omega
  · rw [hread]
    simp
  · rw [hwrite]
    simp

end ChunkLeaf

/-! ## The simulation -/

/-- An address lies in a chunk when its page does. -/
theorem mem_chunk_iff {iova size a : Nat} (hc : Chunk L iova size) :
    (iova ≤ a ∧ a < iova + size) ↔
      iova / 4096 ≤ a / 4096 ∧ a / 4096 < (iova + size) / 4096 := by
  rcases hc.pageRange with ⟨hstart, hstop, -, -⟩
  omega

/-- Adding empty tables keeps the relation. -/
theorem Matches.grows {s' : Pgtable} {m : IoMap} (h : Matches L s m)
    (hgrow : Grows L s s') : Matches L s' m where
  wellFormed := hgrow.wellFormed
  unmapped iova hiova hm := by
    rw [hgrow.leafWord_eq]
    exact h.unmapped iova hiova hm
  mapped iova hiova p hm := by
    rw [hgrow.leafWord_eq]
    exact h.mapped iova hiova p hm

/-- A map of unmapped pages maps them. -/
theorem map_matches {m : IoMap} {iova paddr size prot : Nat} {s' : Pgtable}
    (h : Matches L s m) (hc : Chunk L iova size) (hpal : paddr % size = 0)
    (hlo : sunxiPhysOffset ≤ paddr)
    (hhi : paddr + size ≤ sunxiPhysOffset + 2 ^ iommuVaBits L)
    (hwf' : WellFormed L s')
    (hleaf : ∀ a < 2 ^ iommuVaBits L, leafWord L s' a
      = if iova ≤ a ∧ a < iova + size then
          mappedLeaf L iova (cpuPhyToIommuPhy L paddr &&& iommuPtMask) prot a
        else leafWord L s a) :
    Matches L s' (m.map iova paddr size prot) where
  wellFormed := hwf'
  unmapped a ha hm := by
    unfold IoMap.map at hm
    rw [hleaf a ha]
    split_ifs at hm with hin
    rw [if_neg (by rwa [mem_chunk_iff hc])]
    exact h.unmapped a ha hm
  mapped a ha p hm := by
    unfold IoMap.map at hm
    rw [hleaf a ha]
    split_ifs at hm with hin
    · have hmem := (mem_chunk_iff hc).mpr hin
      rw [if_pos hmem, ← Option.some.inj hm]
      exact mappedLeaf_matches prot hc hpal hlo hhi hmem.1 hmem.2
    · rw [if_neg (by rwa [mem_chunk_iff hc])]
      exact h.mapped a ha p hm

/-- An unmap of mapped pages unmaps them. -/
theorem unmap_matches {m : IoMap} {iova size : Nat} {s' : Pgtable}
    (h : Matches L s m) (hc : Chunk L iova size) (hm : m.Mapped iova size)
    (hunmaps : Unmaps L s s' iova (iova + size)) :
    Matches L s' (m.unmap iova size) := by
  have hvalid : ∀ a, iova ≤ a → a < iova + size →
      IsValid (s.pgtable (iopdeIndex L a)) := by
    intro a hge hlt
    have hin := (mem_chunk_iff hc).mp ⟨hge, hlt⟩
    exact h.isValid (Nat.lt_of_lt_of_le hlt hc.le) (hm _ hin.1 hin.2)
  constructor
  · exact hunmaps.wellFormed
  · intro a ha hnone
    unfold IoMap.unmap at hnone
    by_cases hin : iova ≤ a ∧ a < iova + size
    · exact hunmaps.inside hvalid a hin.1 hin.2
    · rw [if_neg (by rwa [← mem_chunk_iff hc])] at hnone
      rw [hunmaps.outside a ha hin]
      exact h.unmapped a ha hnone
  · intro a ha p hsome
    unfold IoMap.unmap at hsome
    split_ifs at hsome with hin
    rw [hunmaps.outside a ha (by rwa [mem_chunk_iff hc])]
    exact h.mapped a ha p hsome

/-- One allowed call does to the page table what it does to the map. -/
theorem exec_matches (version : Nat) {m : IoMap} {c : Call}
    (h : Matches L s m) (hc : c.Allowed L m) :
    ∃ s' ret, c.exec L version s = .ok (s', ret) ∧ c.Answers L s ret ∧
      Matches L s' (c.effect m ret) := by
  cases c with
  | map iova paddr size prot =>
    rcases hc with ⟨hchunk, hpal, hlo, hhi, -⟩
    rcases map_spec paddr prot h.wellFormed hchunk with
      ⟨s', ⟨heq, hgrow⟩ | ⟨heq, hwf', hleaf⟩⟩
    · refine ⟨s', eNomem, by simp [Call.exec, heq, bind, Except.bind],
        Or.inr ⟨rfl, fun hgives => ?_⟩, h.grows hgrow⟩
      have h0 := (map_ret_iff hchunk heq).mpr hgives
      cases h0
    · exact ⟨s', 0, by simp [Call.exec, heq, bind, Except.bind],
        Or.inl ⟨rfl, (map_ret_iff hchunk heq).mp rfl⟩,
        map_matches h hchunk hpal hlo hhi hwf' hleaf⟩
  | unmap iova size =>
    rcases hc with ⟨hchunk, hmapped⟩
    obtain ⟨s', heq, hunmaps⟩ :=
      unmap_spec version Gather.init h.wellFormed hchunk
    exact ⟨s', size, by simp [Call.exec, heq, bind, Except.bind], rfl,
      unmap_matches h hchunk hmapped hunmaps⟩
  | clear =>
    obtain ⟨s', heq, hwf', hzero, -⟩ := clear_spec h.wellFormed
    refine ⟨s', 0, by simp [Call.exec, heq, bind, Except.bind], rfl, hwf',
      fun a _ _ => ?_, fun a _ p hm => by simp [Call.effect, IoMap.empty] at hm⟩
    rw [leafWord_of_not_valid]
    rw [hzero _ (iopdeIndex_lt L a)]
    exact not_isValid_zero

/-- The page table follows the map from any matching pair of states. -/
theorem simulates_of_matches (version : Nat) {m : IoMap} (calls : List Call)
    (h : Matches L s m) : Simulates L version calls s m := by
  induction calls generalizing s m with
  | nil => exact h.refines
  | cons c calls ih =>
    refine ⟨h.refines, fun hc => ?_⟩
    obtain ⟨s', ret, heq, hret, h'⟩ := exec_matches version h hc
    exact ⟨s', ret, heq, hret, ih h'⟩

/-- From the zeroed directory, through every sequence of allowed calls and
every pattern of allocation failures, the page table translates as the map
does. -/
theorem pgtable_refines (L : PgtableLayout) (version : Nat)
    (slab : List (Option Nat)) (calls : List Call) :
    Simulates L version calls (sunxiPgtableAlloc slab) IoMap.empty :=
  simulates_of_matches version calls (matches_alloc L slab)

-- A chunk at the top of the aperture, half of it unmapped with smaller
-- chunks.  The first pass wraps and gives directory entry 0 a table too.
example : (do
    let s ← execAll .v2 iommuVersionV14
      [.map 0x3FFFF0000 0x400010000 0x10000 3, .unmap 0x3FFFF4000 0x4000]
      (sunxiPgtableAlloc [some 0x50000000, some 0x60000000])
    let a ← sunxiPgtableIovaToPhys .v2 s 0x3FFFF1234
    let b ← sunxiPgtableIovaToPhys .v2 s 0x3FFFF5234
    Except.ok (a, b)).toOption = some (0x400011234, 0) := by decide +kernel

end LonganPi.Iommu
