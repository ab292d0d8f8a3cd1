import LonganPi.Iommu.Driver

/-!
# The L2 tables belong to the directory

Runs of calls on one page table, and what holds of its L2 tables after each
of them.

`Call` is what the IOMMU core and the driver ask of a page table.  The
chunks may lie anywhere in the aperture: a map may cover pages that are
mapped, and an unmap may cover pages and spans that are not.  The slab may
fail at any call.

`tables_owned` is the result.  Its run ends in `.ok`, so no table was freed
that was not allocated and no leaf was accessed through an invalid entry:
these are faults of the model.
-/

namespace LonganPi.Iommu

variable {L : PgtableLayout} {s : Pgtable}

/-! ## Runs of calls -/

/-- A call on the page table. -/
inductive Call where
  /-- `sunxi_iommu_map`. -/
  | map (iova paddr size prot : Nat)
  /-- `sunxi_iommu_unmap`. -/
  | unmap (iova size : Nat)
  /-- `sunxi_pgtable_clear`. -/
  | clear
  deriving DecidableEq, Repr

/-- Do one call.  The number is its result. -/
def Call.exec (L : PgtableLayout) (version : Nat) (s : Pgtable) :
    Call → Except Fault (Pgtable × Int)
  | .map iova paddr size prot => do
    let (s, ret, _) ← sunxiIommuMap L s iova paddr size prot
    .ok (s, ret)
  | .unmap iova size => do
    let (s, _, ret) ← sunxiIommuUnmap L version s iova size Gather.init
    .ok (s, ret)
  | .clear => do
    let s ← sunxiPgtableClear L s
    .ok (s, 0)

/-- Do the calls one after another. -/
def execAll (L : PgtableLayout) (version : Nat) :
    List Call → Pgtable → Except Fault Pgtable
  | [], s => .ok s
  | c :: calls, s => do
    let (s, _) ← c.exec L version s
    execAll L version calls s

/-- The call covers one chunk. -/
def Call.Chunked (L : PgtableLayout) : Call → Prop
  | .map iova _ size _ => Chunk L iova size
  | .unmap iova size => Chunk L iova size
  | .clear => True

instance (L : PgtableLayout) (c : Call) : Decidable (c.Chunked L) :=
  match c with
  | .map iova _ size _ => inferInstanceAs (Decidable (Chunk L iova size))
  | .unmap iova size => inferInstanceAs (Decidable (Chunk L iova size))
  | .clear => inferInstanceAs (Decidable True)

/-! ## The invariant over a run -/

/-- Every call on a chunk returns and keeps the invariant. -/
theorem exec_wellFormed (version : Nat) (hwf : WellFormed L s) {c : Call}
    (hc : c.Chunked L) :
    ∃ s' ret, c.exec L version s = .ok (s', ret) ∧ WellFormed L s' := by
  cases c with
  | map iova paddr size prot =>
    obtain ⟨⟨s', ret, mapped⟩, heq, hwf'⟩ := map_wellFormed paddr prot hwf hc
    exact ⟨s', ret, by simp [Call.exec, heq, bind, Except.bind], hwf'⟩
  | unmap iova size =>
    obtain ⟨s', heq, hunmaps⟩ := unmap_spec version Gather.init hwf hc
    exact ⟨s', size, by simp [Call.exec, heq, bind, Except.bind],
      hunmaps.wellFormed⟩
  | clear =>
    obtain ⟨s', heq, hwf', -⟩ := clear_spec hwf
    exact ⟨s', 0, by simp [Call.exec, heq, bind, Except.bind], hwf'⟩

theorem execAll_wellFormed (version : Nat) {calls : List Call}
    (hwf : WellFormed L s) (hcalls : ∀ c ∈ calls, c.Chunked L) :
    ∃ s', execAll L version calls s = .ok s' ∧ WellFormed L s' := by
  induction calls generalizing s with
  | nil => exact ⟨s, rfl, hwf⟩
  | cons c calls ih =>
    obtain ⟨s₁, ret, heq, hwf₁⟩ :=
      exec_wellFormed version hwf (hcalls c List.mem_cons_self)
    obtain ⟨s', heq', hwf'⟩ :=
      ih hwf₁ fun c hc => hcalls c (List.mem_cons_of_mem _ hc)
    refine ⟨s', ?_, hwf'⟩
    simp only [execAll, heq, bind, Except.bind]
    exact heq'

/-- The state after a run.  A run on chunks does not fault, so the default
is never taken there. -/
def pgtableAfter (L : PgtableLayout) (version : Nat)
    (slab : List (Option Nat)) (calls : List Call) : Pgtable :=
  match execAll L version calls (sunxiPgtableAlloc slab) with
  | .ok s => s
  | .error _ => sunxiPgtableAlloc slab

theorem wellFormed_pgtableAfter (version : Nat) (slab : List (Option Nat))
    {calls : List Call} (hcalls : ∀ c ∈ calls, c.Chunked L) :
    WellFormed L (pgtableAfter L version slab calls) := by
  obtain ⟨s, heq, hwf⟩ :=
    execAll_wellFormed version (wellFormed_alloc L slab) hcalls
  unfold pgtableAfter
  rwa [heq]

/-! ## Ownership -/

/-- The directory entries and the allocated L2 tables, in the terms of the
source. -/
structure TablesOwned (L : PgtableLayout) (s : Pgtable) : Prop where
  /-- Every directory entry is 0 or valid. -/
  zero_or_valid : ∀ i < numEntriesPde L,
    s.pgtable i = 0 ∨ IsValid (s.pgtable i)
  /-- `iopte_offset` of a valid entry is a leaf of an allocated table. -/
  decodes : ∀ i < numEntriesPde L, IsValid (s.pgtable i) → ∀ iova,
    ∃ t, s.tables (leafTable L (iopteOffset L (s.pgtable i) iova)) = some t
  /-- Two valid entries do not decode to one table. -/
  distinct : ∀ i < numEntriesPde L, ∀ j < numEntriesPde L,
    IsValid (s.pgtable i) → IsValid (s.pgtable j) →
    iopteOffset L (s.pgtable i) 0 = iopteOffset L (s.pgtable j) 0 → i = j
  /-- Every allocated table is referenced by exactly one entry. -/
  referenced : ∀ pa t, s.tables pa = some t →
    ∃! i, i < numEntriesPde L ∧ IsValid (s.pgtable i) ∧
      iopteOffset L (s.pgtable i) 0 = pa

theorem WellFormed.tablesOwned (hwf : WellFormed L s) : TablesOwned L s where
  zero_or_valid := hwf.zero_or_valid
  decodes i hi hv iova := by
    obtain ⟨t, ht⟩ := hwf.table_of_valid hi hv
    rw [iopteOffset_eq, leafTable_add (hwf.aligned _ _ ht)
      (iopteIndex_lt L iova)]
    exact ⟨t, ht⟩
  distinct i hi j hj hvi hvj h := hwf.eq_of_same_table hi hj hvi hvj h
  referenced pa t ht := by
    obtain ⟨i, hi, honly⟩ := hwf.owns.existsUnique_owner ht
    refine ⟨i, dentOwner_eq_some hi, fun j hj => honly j ?_⟩
    rcases hj with ⟨hlt, hv, hpa⟩
    exact (dentOwner_of_valid hlt hv).trans (congrArg some hpa)

/-- After every run of calls on chunks, whatever the slab answers, the
directory owns the tables; and a `sunxi_pgtable_clear` at that point leaves
no table. -/
theorem tables_owned (L : PgtableLayout) (version : Nat)
    (slab : List (Option Nat)) (calls : List Call)
    (hcalls : ∀ c ∈ calls, c.Chunked L) :
    ∃ s, execAll L version calls (sunxiPgtableAlloc slab) = .ok s ∧
      TablesOwned L s ∧
      ∃ s', sunxiPgtableClear L s = .ok s' ∧ ∀ pa, s'.tables pa = none := by
  obtain ⟨s, heq, hwf⟩ :=
    execAll_wellFormed version (wellFormed_alloc L slab) hcalls
  obtain ⟨s', hclear, -, -, hnone⟩ := clear_spec hwf
  exact ⟨s, heq, hwf.tablesOwned, s', hclear, hnone⟩

/-- A run with a hole, a failed allocation and a chunk of sixteen spans. -/
theorem tables_owned_run :
    ∃ s, execAll .v1 iommuVersionV14
        [.unmap 0x200000 0x100000, .map 0x1000 0x40001000 0x1000 3,
          .map 0x1000000 0x41000000 0x1000000 1, .unmap 0 0x100000, .clear]
        (sunxiPgtableAlloc [some 0x50000000, none]) = .ok s ∧
      TablesOwned .v1 s ∧
      ∃ s', sunxiPgtableClear .v1 s = .ok s' ∧
        ∀ pa, s'.tables pa = none :=
  tables_owned _ _ _ _ (by decide)

end LonganPi.Iommu
