import LonganPi.Iommu.TableOwnership
import LonganPi.Lib.Interleaving

/-!
# Unmapping beside a device that walks the page table

The device keeps leaves in its TLB and directory entries in its PTW cache,
and it may walk the page table between any two steps of the driver.  The
driver invalidates both caches while it clears the leaves.

* `Walk` is one walk of the device, and `Machine.step` is one step of the
  driver as the device sees it.
* `sunxiIommuUnmapAndSync` is `sunxi_iommu_unmap` followed by
  `sunxi_iommu_iotlb_sync`, and `NoStale` says that no interleaving of its
  steps with walks leaves a stale entry.
* `Unreachable` is the invariant that carries the positive part: no walk can
  find a leaf for the address, neither through the page table nor through a
  cached directory entry.

From version V14 on the caches are invalidated only before the leaves are
cleared, so a walk in between brings an entry back.  On V12 and V13 they
are invalidated once more, but only at the two ends of the range.
-/

namespace LonganPi.Iommu

open Interleaving Relation

variable {L : PgtableLayout} {s : Pgtable}

/-! ## The steps of the driver -/

/-- A `size_t` subtraction. -/
def usub (a b : Nat) : Nat := (a + (2 ^ 64 - b)) % 2 ^ 64

/-- The invalidations of `sunxi_zap_tlb`. -/
def zapEvents (L : PgtableLayout) (version iova size : Nat) : List Event :=
  if version ≤ iommuVersionV11 then
    [.tlbInvalid iova (u32 iommuPtMask),
      .tlbInvalid (iova + spageSize) (u32 iommuPtMask),
      .tlbInvalid (iova + size) (u32 iommuPtMask),
      .tlbInvalid (iova + size + spageSize) (u32 iommuPtMask),
      .ptwInvalid iova 0,
      .ptwInvalid (iova + spdSize L) 0,
      .ptwInvalid (iova + size) 0,
      .ptwInvalid (iova + size + spdSize L) 0]
  else if version ≤ iommuVersionV13 then
    [.tlbInvalid iova (iova + 2 * spageSize),
      .tlbInvalid (usub (iova + size) spageSize)
        (iova + size + 8 * spageSize),
      .ptwInvalid iova 0,
      .ptwInvalid (iova + size) 0,
      .ptwInvalid (iova + spdSize L) 0,
      .ptwInvalid (iova + size + spdSize L) 0,
      .ptwInvalid (iova + size + 2 * spdSize L) 0]
  else
    [.tlbInvalid iova (iova + 2 * spageSize),
      .tlbInvalid (usub (iova + size) spageSize)
        (iova + size + 8 * spageSize),
      .ptwInvalid iova (iova + spdSize L),
      .ptwInvalid (usub (iova + size) (spdSize L)) (iova + size)]

/-- `sunxi_zap_tlb`. -/
def sunxiZapTlb (L : PgtableLayout) (version : Nat) (s : Pgtable)
    (iova size : Nat) : Pgtable :=
  s.performs L (zapEvents L version iova size)

/-- `sunxi_iommu_iotlb_sync`. -/
def sunxiIommuIotlbSync (L : PgtableLayout) (version : Nat) (s : Pgtable)
    (gather : Gather) : Pgtable :=
  if version ≥ iommuVersionV14 then s
  else sunxiZapTlb L version s gather.start (gather.stop - gather.start)

/-- An unmap and the sync of the range that it gathered. -/
def sunxiIommuUnmapAndSync (L : PgtableLayout) (version : Nat) (s : Pgtable)
    (iova size : Nat) : Except Fault Pgtable := do
  let (s, gather, _) ← sunxiIommuUnmap L version s iova size Gather.init
  .ok (sunxiIommuIotlbSync L version s gather)

/-! ## The device -/

/-- The memory and the two caches of the device. -/
structure Machine where
  mem : Pgtable
  /-- The cached leaves, by page number. -/
  tlb : Nat → Option Nat
  /-- The cached directory entries, by directory index. -/
  ptw : Nat → Option Nat

/-- The directory entry that a walk at `iova` goes through: the cached one
if there is one, else the one of the page table if it is valid. -/
def Machine.dirEntry (L : PgtableLayout) (m : Machine) (iova : Nat) :
    Option Nat :=
  match m.ptw (iopdeIndex L iova) with
  | some ent => some ent
  | none =>
    if IsValid (m.mem.pgtable (iopdeIndex L iova)) then
      some (m.mem.pgtable (iopdeIndex L iova))
    else none

/-- The leaf of `iova` through the directory entry `ent` may read as `w`.
A table that was freed may hold anything. -/
def Machine.LeafAt (L : PgtableLayout) (m : Machine) (ent iova w : Nat) :
    Prop :=
  ∀ t, m.mem.tables (leafTable L (iopteOffset L ent iova)) = some t →
    w = t (leafSlot L (iopteOffset L ent iova))

/-- Put a directory entry into the PTW cache. -/
def Machine.cacheDent (m : Machine) (i ent : Nat) : Machine :=
  { m with ptw := Function.update m.ptw i (some ent) }

/-- Put a leaf into the TLB. -/
def Machine.cacheLeaf (m : Machine) (page w : Nat) : Machine :=
  { m with tlb := Function.update m.tlb page (some w) }

/-- One walk of the device at an address of the aperture.  It caches the
directory entry, and the leaf when that is valid. -/
inductive Walk (L : PgtableLayout) : Machine → Machine → Prop
  | dent {m : Machine} {iova ent : Nat} : iova < 2 ^ iommuVaBits L →
      m.dirEntry L iova = some ent →
      Walk L m (m.cacheDent (iopdeIndex L iova) ent)
  | leaf {m : Machine} {iova ent w : Nat} : iova < 2 ^ iommuVaBits L →
      m.dirEntry L iova = some ent → m.LeafAt L ent iova w →
      w &&& sunxiPtePageValid ≠ 0 →
      Walk L m ((m.cacheDent (iopdeIndex L iova) ent).cacheLeaf
        (iova / 4096) w)

/-- The pages that `sunxi_tlb_invalid(start, stop)` removes: a closed range
from version V12 on, one page before. -/
def TlbRemoves (version start stop page : Nat) : Prop :=
  if version ≥ iommuVersionV12 then start ≤ page * 4096 ∧ page * 4096 ≤ stop
  else page = start / 4096

/-- The directory entries that `sunxi_ptw_cache_invalid(start, stop)`
removes: those of a closed range from version V14 on, before that the one
that `start` lies below. -/
def PtwRemoves (L : PgtableLayout) (version start stop i : Nat) : Prop :=
  if version ≥ iommuVersionV14 then
    start / spdSize L ≤ i ∧ i ≤ stop / spdSize L
  else i = start / spdSize L

instance (version start stop page : Nat) :
    Decidable (TlbRemoves version start stop page) :=
  inferInstanceAs (Decidable (ite _ _ _))

instance (L : PgtableLayout) (version start stop i : Nat) :
    Decidable (PtwRemoves L version start stop i) :=
  inferInstanceAs (Decidable (ite _ _ _))

/-- One step of the driver. -/
def Machine.step (L : PgtableLayout) (version : Nat) (e : Event)
    (m : Machine) : Machine where
  mem := m.mem.perform L e
  tlb := match e with
    | .tlbInvalid start stop => fun page =>
      if TlbRemoves version start stop page then none else m.tlb page
    | _ => m.tlb
  ptw := match e with
    | .ptwInvalid start stop => fun i =>
      if PtwRemoves L version start stop i then none else m.ptw i
    | _ => m.ptw

/-- The steps that lead from `s` to `s'`. -/
def stepsBetween (s s' : Pgtable) : List Event := s'.trace.drop s.trace.length

/-- After the unmap and its sync, whatever the caches held before and
however the device walked in between: no leaf of the range is cached, and no
cached directory entry points to a table that the unmap freed. -/
def NoStale (L : PgtableLayout) (version : Nat) (s : Pgtable)
    (iova size : Nat) : Prop :=
  ∃ s', sunxiIommuUnmapAndSync L version s iova size = .ok s' ∧
    ∀ tlb ptw m', Interleaved (Machine.step L version) (Walk L)
        (stepsBetween s s') ⟨s, tlb, ptw⟩ m' →
      (∀ a, iova ≤ a → a < iova + size → m'.tlb (a / 4096) = none) ∧
      ∀ i ent, m'.ptw i = some ent →
        .freeTable (tableOf L ent) ∉ stepsBetween s s'

theorem stepsBetween_performs (es : List Event) :
    stepsBetween s (s.performs L es) = es := by
  unfold stepsBetween
  rw [performs_trace, List.drop_left]

/-! ## The steps of an unmap -/

/-- The steps of the unmap loop on a range whose directory entries are
valid. -/
def unmapLoopEvents (L : PgtableLayout) (version stop : Nat) :
    Nat → Nat → Pgtable → List Event
  | 0, _, _ => []
  | n + 1, start, s =>
    if start < stop then
      let round := deleteEvents L s start stop ++
        if version < iommuVersionV14 then [.ptwInvalid start 0] else []
      round ++ unmapLoopEvents L version stop n (pieceEnd L start stop)
        (s.performs L round)
    else []

/-- The invalidations before the loop. -/
def preInvalidations (version iova stop : Nat) : List Event :=
  (if version ≥ iommuVersionV12 then [.tlbInvalid iova stop] else []) ++
    if version ≥ iommuVersionV14 then [.ptwInvalid iova stop] else []

/-- The steps of an unmap and its sync. -/
def unmapSyncEvents (L : PgtableLayout) (version : Nat) (s : Pgtable)
    (iova size : Nat) : List Event :=
  preInvalidations version iova (iova + size) ++
    (unmapLoopEvents L version (iova + size)
        (spanFuel L iova (iova + size)) iova
        (s.performs L (preInvalidations version iova (iova + size))) ++
      if version ≥ iommuVersionV14 then []
      else zapEvents L version iova size)

theorem unmapPrologue_eq (version iova stop : Nat) :
    (if version ≥ iommuVersionV14 then
        (if version ≥ iommuVersionV12
          then s.perform L (.tlbInvalid iova stop) else s).perform L
          (.ptwInvalid iova stop)
      else if version ≥ iommuVersionV12
        then s.perform L (.tlbInvalid iova stop) else s)
      = s.performs L (preInvalidations version iova stop) := by
  unfold preInvalidations
  split_ifs <;> rfl

theorem preInvalidations_sameMemory (version iova stop : Nat) :
    SameMemory s (s.performs L (preInvalidations version iova stop)) := by
  unfold preInvalidations
  split_ifs <;> exact ⟨rfl, rfl⟩

/-- One round on a valid entry keeps the invariant and the later entries. -/
theorem unmapRound_spec {start stop : Nat} (version : Nat) (hwf : WellFormed L s)
    (hr : PageRange L start stop)
    (hv : IsValid (s.pgtable (iopdeIndex L start))) :
    WellFormed L (s.performs L (deleteEvents L s start stop ++
        if version < iommuVersionV14 then [.ptwInvalid start 0] else [])) ∧
      ∀ i, i ≠ iopdeIndex L start →
        (s.performs L (deleteEvents L s start stop ++
          if version < iommuVersionV14 then [.ptwInvalid start 0]
          else [])).pgtable i = s.pgtable i := by
  have hsame : SameMemory (s.performs L (deleteEvents L s start stop))
      (s.performs L (deleteEvents L s start stop ++
        if version < iommuVersionV14 then [.ptwInvalid start 0] else [])) := by
    rw [performs_append]
    split_ifs <;> exact ⟨rfl, rfl⟩
  refine ⟨hsame.wellFormed (deleteEvents_wellFormed hwf hr hv),
    fun i hi => ?_⟩
  rw [hsame.pgtable_eq, deleteEvents_pgtable hi]

theorem unmapLoop_eq {start stop n : Nat} (version : Nat)
    (hr : start < stop → PageRange L start stop)
    (hfuel : EnoughFuel L start stop n) :
    ∀ s, WellFormed L s → (∀ a, start ≤ a → a < stop →
        IsValid (s.pgtable (iopdeIndex L a))) →
      unmapLoop L version stop n start s
        = .ok (s.performs L (unmapLoopEvents L version stop n start s)) := by
  refine piece_induction (motive := fun n start => ∀ s, WellFormed L s →
    (∀ a, start ≤ a → a < stop → IsValid (s.pgtable (iopdeIndex L a))) →
    unmapLoop L version stop n start s
      = .ok (s.performs L (unmapLoopEvents L version stop n start s)))
    ?_ ?_ n start hr hfuel
  · intro n start hge s _ _
    have hdone : ¬ start < stop := by omega
    rw [unmapLoop_done hge]
    cases n <;> unfold unmapLoopEvents
    · rfl
    · rw [if_neg hdone]
      rfl
  · intro n start hrange ih s hwf hvalid
    have hlt := hrange.lt
    have hss := lt_pieceEnd hrange
    have hend := pieceEnd_le L start stop
    have hv := hvalid start (Nat.le_refl _) hlt
    obtain ⟨hwf', hpg⟩ := unmapRound_spec version hwf hrange hv
    have hrest := ih _ hwf' fun a hge hlt' => by
      rw [hpg _ (later_piece hrange hge hlt')]
      exact hvalid a (by omega) hlt'
    have hadvance : (((pieceEnd L start stop - start : Nat) : Int)
        % 2 ^ 32).toNat = pieceEnd L start stop - start := by
      have := hrange.le
      have hspan : pieceEnd L start stop - start ≤ spdSize L := by
        unfold pieceEnd
        cases L <;> simp only [spdSize_v1, spdSize_v2] <;> omega
      cases L <;> simp only [spdSize_v1, spdSize_v2] at hspan <;> omega
    unfold unmapLoop unmapLoopEvents
    rw [if_pos hlt, if_pos hlt]
    simp only [deleteL2_eq hwf hrange hv, bind, Except.bind, hadvance]
    rw [show start + (pieceEnd L start stop - start)
      = pieceEnd L start stop by omega, performs_append, ← hrest]
    congr 1
    rw [performs_append]
    split_ifs <;> rfl

theorem iotlbSync_eq (version iova size : Nat) :
    sunxiIommuIotlbSync L version s ⟨iova, iova + size⟩
      = s.performs L (if version ≥ iommuVersionV14 then []
          else zapEvents L version iova size) := by
  unfold sunxiIommuIotlbSync sunxiZapTlb
  simp only [Nat.add_sub_cancel_left]
  split_ifs <;> rfl

/-- On a mapped range the unmap and its sync do the steps of
`unmapSyncEvents`. -/
theorem unmapAndSync_eq {version iova size : Nat} (hwf : WellFormed L s)
    (hr : PageRange L iova (iova + size))
    (hvalid : ∀ a, iova ≤ a → a < iova + size →
      IsValid (s.pgtable (iopdeIndex L a))) :
    sunxiIommuUnmapAndSync L version s iova size
      = .ok (s.performs L (unmapSyncEvents L version s iova size)) := by
  have hsame := preInvalidations_sameMemory (L := L) (s := s) version iova
    (iova + size)
  have hloop := unmapLoop_eq version (fun _ => hr)
    enoughFuel_spanFuel _ (hsame.wellFormed hwf) (by
      rw [hsame.pgtable_eq]
      exact hvalid)
  have hgather : Gather.init.widen iova (iova + size)
      = ⟨iova, iova + size⟩ := by
    rcases hr with ⟨-, -, hlt, hle⟩
    unfold Gather.init Gather.widen
    have hstart : 2 ^ 64 - 1 > iova := by
      cases L <;> simp at hle <;> omega
    have hstop : 0 < iova + size := by omega
    rw [if_pos hstart, if_pos hstop]
  unfold sunxiIommuUnmapAndSync sunxiIommuUnmap unmapSyncEvents
  simp only [hr.start_eq, hr.stop_eq, unmapPrologue_eq, hloop, hgather, bind,
    Except.bind, iotlbSync_eq]
  rw [performs_append, performs_append]

end LonganPi.Iommu
