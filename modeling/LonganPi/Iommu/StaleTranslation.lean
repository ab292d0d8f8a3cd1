import LonganPi.Iommu.Invalidation

/-!
# Which unmaps leave no stale translation

The proofs behind `NoStale`, in three parts.

* `Unreachable m a`: no walk can find a leaf for `a`.  Every step that only
  clears or invalidates keeps it, and so does every walk.  A round of the
  unmap loop on V12 and V13 establishes it, because the PTW cache is
  invalidated after the leaves are cleared.
* With `Unreachable` for the whole range, the two TLB invalidations of
  `sunxi_zap_tlb` clear the first three pages and the last one for good.
* A walk between the first invalidation and the first store caches a leaf
  that is still valid.  Nothing after it removes the leaf when the page is
  not one of those four, or when the version is V14 or later.

`noStale_iff` puts the parts together.
-/

namespace LonganPi.Iommu

open Interleaving Relation

variable {L : PgtableLayout} {s : Pgtable}

/-! ## Addresses that no walk can translate -/

/-- No walk finds a valid leaf for `a`: neither through the directory entry
of the page table nor through a cached one. -/
def Unreachable (L : PgtableLayout) (m : Machine) (a : Nat) : Prop :=
  ∀ ent, m.ptw (iopdeIndex L a) = some ent ∨
      IsValid (m.mem.pgtable (iopdeIndex L a)) ∧
        m.mem.pgtable (iopdeIndex L a) = ent →
    ∀ w, m.LeafAt L ent a w → w &&& sunxiPtePageValid = 0

/-- The step clears a leaf or invalidates a cache. -/
def Event.Clearing : Event → Prop
  | .storeLeaf _ val => val = 0
  | .tlbInvalid _ _ => True
  | .ptwInvalid _ _ => True
  | _ => False

/-- A walk goes through a cached entry or through a valid one. -/
theorem dirEntry_cases {m : Machine} {iova ent : Nat}
    (h : m.dirEntry L iova = some ent) :
    m.ptw (iopdeIndex L iova) = some ent ∨
      IsValid (m.mem.pgtable (iopdeIndex L iova)) ∧
        m.mem.pgtable (iopdeIndex L iova) = ent := by
  unfold Machine.dirEntry at h
  cases hptw : m.ptw (iopdeIndex L iova) with
  | some ent' =>
    rw [hptw] at h
    exact Or.inl h
  | none =>
    rw [hptw] at h
    simp only at h
    split_ifs at h with hv
    exact Or.inr ⟨hv, Option.some.inj h⟩

/-- Caching the entry of a walk gives other walks nothing new. -/
theorem Unreachable.cacheDent {m : Machine} {a iova ent : Nat}
    (h : Unreachable L m a) (hent : m.dirEntry L iova = some ent) :
    Unreachable L (m.cacheDent (iopdeIndex L iova) ent) a := by
  intro ent' hent' w hw
  refine h ent' ?_ w hw
  rcases hent' with hptw | hcur
  · by_cases hsame : iopdeIndex L a = iopdeIndex L iova
    · have heq : ent = ent' := by
        unfold Machine.cacheDent at hptw
        simp only [hsame, Function.update_self] at hptw
        exact Option.some.inj hptw
      rw [hsame, ← heq]
      exact dirEntry_cases hent
    · unfold Machine.cacheDent at hptw
      simp only [Function.update_of_ne hsame] at hptw
      exact Or.inl hptw
  · exact Or.inr hcur

theorem Unreachable.walk {a : Nat} {m m' : Machine} (hwalk : Walk L m m')
    (h : Unreachable L m a) : Unreachable L m' a := by
  cases hwalk with
  | dent _ hent => exact h.cacheDent hent
  | leaf _ hent _ _ => exact h.cacheDent hent

/-- Clearing a leaf leaves each leaf as it was, or 0. -/
theorem leafAt_storeLeaf_zero {m : Machine} {version addr ent a w : Nat}
    (hw : (m.step L version (.storeLeaf addr 0)).LeafAt L ent a w) :
    m.LeafAt L ent a w ∨ w = 0 := by
  by_cases htab : leafTable L (iopteOffset L ent a) = leafTable L addr
  · cases hold : m.mem.tables (leafTable L addr) with
    | none =>
      left
      intro t ht
      rw [htab, hold] at ht
      cases ht
    | some t =>
      have hnew : (m.step L version (.storeLeaf addr 0)).mem.tables
          (leafTable L (iopteOffset L ent a))
          = some (Function.update t (leafSlot L addr) 0) := by
        rw [htab]
        simp [Machine.step, Pgtable.perform, Event.apply, hold]
      have hval := hw _ hnew
      by_cases hslot : leafSlot L (iopteOffset L ent a) = leafSlot L addr
      · right
        rw [hval, hslot, Function.update_self]
      · left
        intro t' ht'
        rw [htab, hold] at ht'
        rw [hval, Function.update_of_ne hslot, Option.some.inj ht']
  · left
    intro t ht
    apply hw
    rw [← ht]
    simp [Machine.step, Pgtable.perform, Event.apply,
      Function.update_of_ne htab]

/-- Removing cached entries gives walks nothing new. -/
theorem Unreachable.of_ptw_le {m m' : Machine} {a : Nat}
    (h : Unreachable L m a) (hpg : m'.mem.pgtable = m.mem.pgtable)
    (htab : m'.mem.tables = m.mem.tables)
    (hptw : ∀ i ent, m'.ptw i = some ent → m.ptw i = some ent) :
    Unreachable L m' a := by
  intro ent hent w hw
  refine h ent ?_ w ?_
  · rcases hent with hcached | hcur
    · exact Or.inl (hptw _ _ hcached)
    · rw [hpg] at hcur
      exact Or.inr hcur
  · intro t ht
    exact hw t (by rwa [htab])

theorem Unreachable.clearing {version a : Nat} {m : Machine} {e : Event}
    (he : e.Clearing) (h : Unreachable L m a) :
    Unreachable L (m.step L version e) a := by
  cases e with
  | storeLeaf addr val =>
    have hzero : val = 0 := he
    subst hzero
    intro ent hent w hw
    rcases leafAt_storeLeaf_zero hw with hold | hzero
    · exact h ent hent w hold
    · rw [hzero, Nat.zero_and]
  | tlbInvalid start stop => exact h.of_ptw_le rfl rfl fun _ _ h => h
  | ptwInvalid start stop =>
    refine h.of_ptw_le rfl rfl fun i ent hi => ?_
    simp only [Machine.step] at hi
    split_ifs at hi
    exact hi
  | storeDent i val => exact absurd he id
  | allocTable pa => exact absurd he id
  | freeTable pa => exact absurd he id

/-- A cleared leaf is unreachable once the cached directory entry is gone:
walks then go through the page table. -/
theorem unreachable_of_leafWord {m : Machine} {a : Nat}
    (hwf : WellFormed L m.mem) (hleaf : leafWord L m.mem a = 0)
    (hptw : m.ptw (iopdeIndex L a) = none) : Unreachable L m a := by
  intro ent hcase w hw
  rcases hcase with hcached | ⟨hv, rfl⟩
  · rw [hptw] at hcached
    cases hcached
  · obtain ⟨t, ht⟩ := hwf.table_of_valid (iopdeIndex_lt L a) hv
    have htab : leafTable L (iopteOffset L
        (m.mem.pgtable (iopdeIndex L a)) a)
        = tableOf L (m.mem.pgtable (iopdeIndex L a)) := by
      rw [iopteOffset_eq, leafTable_add (hwf.aligned _ _ ht)
        (iopteIndex_lt L a)]
    have hslot : leafSlot L (iopteOffset L
        (m.mem.pgtable (iopdeIndex L a)) a) = iopteIndex L a := by
      rw [iopteOffset_eq, leafSlot_add (hwf.aligned _ _ ht)
        (iopteIndex_lt L a)]
    have hval := hw t (by rwa [htab])
    rw [hslot, ← leafWord_of_table hv ht, hleaf] at hval
    rw [hval, Nat.zero_and]

/-! ## The loop of a short unmap on V12 and V13 -/

/-- Walks do not change the memory. -/
theorem walk_mem {m m' : Machine} (h : Walk L m m') : m'.mem = m.mem := by
  cases h <;> rfl

/-- A run changes the memory by the steps of the driver alone. -/
theorem interleaved_mem {version : Nat} {es : List Event} {m m' : Machine}
    (h : Interleaved (Machine.step L version) (Walk L) es m m') :
    m'.mem = m.mem.performs L es := by
  have hwalks : ∀ {m m' : Machine}, ReflTransGen (Walk L) m m' →
      m'.mem = m.mem := by
    intro m m' hsteps
    exact Interleaved.preserves_env (P := fun x => x.mem = m.mem)
      (fun _ _ hw hx => (walk_mem hw).trans hx) hsteps rfl
  induction h with
  | done hsteps => exact hwalks hsteps
  | step hsteps _ ih =>
    rw [ih, performs_cons, ← hwalks hsteps]
    rfl

/-- Clearing steps keep an address unreachable, beside any walks. -/
theorem Unreachable.interleaved {version a : Nat} {es : List Event}
    {m m' : Machine} (h : Unreachable L m a)
    (hrun : Interleaved (Machine.step L version) (Walk L) es m m')
    (hes : ∀ e ∈ es, e.Clearing) : Unreachable L m' a :=
  hrun.preserves (P := fun x => Unreachable L x a)
    (fun _ _ hw h => h.walk hw) (fun e he _ h => h.clearing (hes e he)) h

theorem leafStores_clearing {count i pent : Nat} :
    ∀ e ∈ leafStores (fun _ => 0) count i pent, e.Clearing := by
  induction count generalizing i pent with
  | zero => simp [leafStores]
  | succ count ih =>
    intro e he
    rcases List.mem_cons.mp he with rfl | he
    · rfl
    · exact ih e he

/-- A piece of a short range is not a whole span, so its table stays. -/
theorem short_piece {start stop : Nat} (hshort : stop ≤ start + 4 * 4096) :
    pieceEnd L start stop - start ≠ spdSize L := by
  have hend := pieceEnd_le L start stop
  cases L <;> simp only [spdSize_v1, spdSize_v2] <;> omega

theorem unmapRound_clearing {start stop version : Nat}
    (hshort : stop ≤ start + 4 * 4096) :
    ∀ e ∈ deleteEvents L s start stop ++
        (if version < iommuVersionV14 then [.ptwInvalid start 0] else []),
      e.Clearing := by
  intro e he
  unfold deleteEvents at he
  rw [if_neg (short_piece hshort), List.append_nil] at he
  rcases List.mem_append.mp he with he | he
  · exact leafStores_clearing e he
  · split_ifs at he
    · rw [List.mem_singleton.mp he]
      trivial
    · cases he

theorem unmapLoopEvents_clearing {stop version n start : Nat}
    (hshort : stop ≤ start + 4 * 4096) :
    ∀ e ∈ unmapLoopEvents L version stop n start s, e.Clearing := by
  induction n generalizing start s with
  | zero => simp [unmapLoopEvents]
  | succ n ih =>
    intro e he
    unfold unmapLoopEvents at he
    by_cases hlt : start < stop
    · rw [if_pos hlt] at he
      rcases List.mem_append.mp he with he | he
      · exact unmapRound_clearing hshort e he
      · have hpe : start ≤ pieceEnd L start stop := by
          unfold pieceEnd
          cases L <;> simp only [spdSize_v1, spdSize_v2] <;> omega
        exact ih (by omega) e he
    · rw [if_neg hlt] at he
      cases he

/-- After a round, the addresses of its piece are unreachable. -/
theorem unmapRound_unreachable {version start stop a : Nat} {m m' : Machine}
    (hold : version < iommuVersionV14) (hwf : WellFormed L m.mem)
    (hr : PageRange L start stop)
    (hv : IsValid (m.mem.pgtable (iopdeIndex L start)))
    (hrun : Interleaved (Machine.step L version) (Walk L)
      (deleteEvents L m.mem start stop ++
        if version < iommuVersionV14 then [.ptwInvalid start 0] else [])
      m m')
    (hge : start ≤ a) (hlt : a < pieceEnd L start stop) :
    Unreachable L m' a := by
  have hapt : a < 2 ^ iommuVaBits L := Nat.lt_of_lt_of_le hlt hr.piece.le
  rw [if_pos hold] at hrun
  obtain ⟨m₁, hdel, hinv⟩ := Interleaved.append_iff.mp hrun
  have hmem := interleaved_mem hdel
  refine hinv.establishes [] []
    (P := fun x => Unreachable L x a) (Q := fun x => x.mem = m₁.mem)
    (fun _ _ hw hx => (walk_mem hw).trans hx) (by simp) ?_
    (fun _ _ hw h => h.walk hw) (by simp) rfl
  intro x hx
  have hsame : SameMemory m₁.mem
      (x.step L version (.ptwInvalid start 0)).mem := by
    rw [← hx]
    exact ⟨rfl, rfl⟩
  apply unreachable_of_leafWord
  · apply hsame.wellFormed
    rw [hmem]
    exact deleteEvents_wellFormed hwf hr hv
  · rw [hsame.leafWord_eq, hmem, leafWord_deleteEvents hwf hr hv hapt,
      if_pos ⟨hge, hlt⟩]
  · have hdir := ((mem_piece_iff hr hapt).mpr ⟨hge, hlt⟩).1
    have hspan : iopdeIndex L start = start / spdSize L := by
      have hlt := hr.lt
      have hle := hr.le
      rw [iopdeIndex_eq]
      cases L <;> simp only [spdSize_v1, spdSize_v2, iommuVaBits_v1,
        iommuVaBits_v2] at hle ⊢ <;> omega
    have hremoves : PtwRemoves L version start 0 (iopdeIndex L a) := by
      unfold PtwRemoves
      rw [if_neg (by omega), hdir, hspan]
    simp only [Machine.step]
    rw [if_pos hremoves]

/-- After the loop of a short unmap, the whole range is unreachable. -/
theorem unmapLoop_unreachable {version start stop n : Nat}
    (hold : version < iommuVersionV14)
    (hr : start < stop → PageRange L start stop)
    (hfuel : EnoughFuel L start stop n) :
    ∀ m m', WellFormed L m.mem →
      (∀ a, start ≤ a → a < stop →
        IsValid (m.mem.pgtable (iopdeIndex L a))) →
      stop ≤ start + 4 * 4096 →
      Interleaved (Machine.step L version) (Walk L)
        (unmapLoopEvents L version stop n start m.mem) m m' →
      ∀ a, start ≤ a → a < stop → Unreachable L m' a := by
  refine piece_induction (motive := fun n start => ∀ m m',
    WellFormed L m.mem → (∀ a, start ≤ a → a < stop →
      IsValid (m.mem.pgtable (iopdeIndex L a))) →
    stop ≤ start + 4 * 4096 →
    Interleaved (Machine.step L version) (Walk L)
      (unmapLoopEvents L version stop n start m.mem) m m' →
    ∀ a, start ≤ a → a < stop → Unreachable L m' a) ?_ ?_ n start hr hfuel
  · intro n start hge m m' _ _ _ _ a hgea hlta
    omega
  · intro n start hrange ih m m' hwf hvalid hshort hrun a hge hlt
    have hss := lt_pieceEnd hrange
    have hv := hvalid start (Nat.le_refl _) hrange.lt
    obtain ⟨hwf', hpg⟩ := unmapRound_spec version hwf hrange hv
    unfold unmapLoopEvents at hrun
    rw [if_pos hrange.lt] at hrun
    obtain ⟨m₁, hround, hrest⟩ := Interleaved.append_iff.mp hrun
    have hmem := interleaved_mem hround
    rw [← hmem] at hrest hwf' hpg
    by_cases hfirst : a < pieceEnd L start stop
    · exact (unmapRound_unreachable hold hwf hrange hv hround hge
        hfirst).interleaved hrest (unmapLoopEvents_clearing (by omega))
    · refine ih m₁ m' hwf' (fun b hgeb hltb => ?_) (by omega) hrest a
        (by omega) hlt
      rw [hpg _ (later_piece hrange hgeb hltb)]
      exact hvalid b (by omega) hltb

/-! ## Short unmaps on V12 and V13 -/

/-- Two addresses of a page have the same leaf. -/
theorem leafAt_same_page {a b : Nat} (m : Machine) (ent w : Nat)
    (h : a / 4096 = b / 4096) :
    iopdeIndex L a = iopdeIndex L b ∧
      (m.LeafAt L ent a w ↔ m.LeafAt L ent b w) := by
  have hdir : iopdeIndex L a = iopdeIndex L b := by
    simp only [iopdeIndex_eq]
    cases L <;> simp only [spdSize_v1, spdSize_v2] <;> omega
  have hslot : iopteIndex L a = iopteIndex L b := by
    rw [iopteIndex_eq, iopteIndex_eq, h]
  refine ⟨hdir, ?_⟩
  unfold Machine.LeafAt
  rw [iopteOffset_eq, iopteOffset_eq, hslot]

/-- An unreachable page that is not cached stays so through a walk. -/
theorem tlb_walk {m m' : Machine} {a : Nat} (hwalk : Walk L m m')
    (hun : Unreachable L m a) (hnone : m.tlb (a / 4096) = none) :
    m'.tlb (a / 4096) = none := by
  cases hwalk with
  | dent _ _ => exact hnone
  | @leaf iova ent w _ hent hw hvalid =>
    by_cases hpage : a / 4096 = iova / 4096
    · exfalso
      obtain ⟨hdir, hleaf⟩ := leafAt_same_page (L := L) m ent w hpage
      refine hvalid (hun ent ?_ w (hleaf.mpr hw))
      rw [hdir]
      exact dirEntry_cases hent
    · simp only [Machine.cacheLeaf, Machine.cacheDent,
        Function.update_of_ne hpage]
      exact hnone

/-- A driver step never fills the TLB. -/
theorem tlb_step {version page : Nat} {m : Machine} {e : Event}
    (h : m.tlb page = none) : (m.step L version e).tlb page = none := by
  cases e <;> simp only [Machine.step] <;> try exact h
  split_ifs
  · rfl
  · exact h

/-- The invalidations of `sunxi_zap_tlb` on V12 and V13: two of the TLB,
and then some of the PTW cache. -/
theorem zapEvents_old {version iova size : Nat}
    (hlo : iommuVersionV12 ≤ version) (hhi : version ≤ iommuVersionV13)
    (hr : PageRange L iova (iova + size)) :
    ∃ rest, zapEvents L version iova size
        = .tlbInvalid iova (iova + 2 * 4096) ::
          .tlbInvalid (iova + size - 4096) (iova + size + 8 * 4096) :: rest ∧
      (∀ e ∈ rest, e.Clearing) ∧
      ∀ e ∈ rest, ∀ start stop, e ≠ .tlbInvalid start stop := by
  have hsub : usub (iova + size) spageSize = iova + size - 4096 := by
    have hlt := hr.lt
    have hle := hr.le
    have hal := hr.stop_aligned
    unfold usub
    rw [spageSize_eq]
    cases L <;> simp at hle <;> omega
  have hnew : ¬ version ≤ iommuVersionV11 := by
    unfold iommuVersionV12 at hlo
    unfold iommuVersionV11
    omega
  unfold zapEvents
  rw [if_neg hnew, if_pos hhi, hsub, spageSize_eq]
  refine ⟨_, rfl, fun e he => ?_, fun e he => ?_⟩ <;>
    simp only [List.mem_cons, List.not_mem_nil, or_false] at he <;>
    rcases he with rfl | rfl | rfl | rfl | rfl
  · trivial
  · trivial
  · trivial
  · trivial
  · trivial
  all_goals
    intro start stop h
    cases h

/-- The page is not cached and cannot be cached again. -/
def Gone (L : PgtableLayout) (a : Nat) (m : Machine) : Prop :=
  Unreachable L m a ∧ m.tlb (a / 4096) = none

theorem Gone.walk {a : Nat} {m m' : Machine} (hwalk : Walk L m m')
    (h : Gone L a m) : Gone L a m' :=
  ⟨h.1.walk hwalk, tlb_walk hwalk h.1 h.2⟩

theorem Gone.clearing {version a : Nat} {m : Machine} {e : Event}
    (he : e.Clearing) (h : Gone L a m) : Gone L a (m.step L version e) :=
  ⟨h.1.clearing he, tlb_step h.2⟩

/-- Invalidating a page that is unreachable removes it for good. -/
theorem gone_of_tlbInvalid {version start stop a : Nat} {m : Machine}
    (hlo : iommuVersionV12 ≤ version) (hun : Unreachable L m a)
    (hstart : start ≤ a / 4096 * 4096) (hstop : a / 4096 * 4096 ≤ stop) :
    Gone L a (m.step L version (.tlbInvalid start stop)) := by
  have hin : TlbRemoves version start stop (a / 4096) := by
    unfold TlbRemoves
    rw [if_pos hlo]
    exact ⟨hstart, hstop⟩
  refine ⟨hun.clearing trivial, ?_⟩
  simp only [Machine.step]
  rw [if_pos hin]

/-- The sync of a short unmap removes every page of the range for good. -/
theorem zap_clears {version iova size a : Nat} {m m' : Machine}
    (hlo : iommuVersionV12 ≤ version) (hhi : version ≤ iommuVersionV13)
    (hr : PageRange L iova (iova + size)) (hshort : size ≤ 4 * 4096)
    (hun : Unreachable L m a)
    (hrun : Interleaved (Machine.step L version) (Walk L)
      (zapEvents L version iova size) m m')
    (hge : iova ≤ a) (hlt : a < iova + size) : Gone L a m' := by
  obtain ⟨rest, hlist, hclear, -⟩ := zapEvents_old hlo hhi hr
  have hal := hr.start_aligned
  have hal' := hr.stop_aligned
  rw [hlist] at hrun
  have hkeep : ∀ {es : List Event}, (∀ e ∈ es, e.Clearing) →
      ∀ e ∈ es, ∀ x, Gone L a x → Gone L a (x.step L version e) :=
    fun hes e he _ hx => hx.clearing (hes e he)
  by_cases hfirst : a < iova + 3 * 4096
  · refine Interleaved.establishes (Q := fun x => Unreachable L x a) [] _ hrun
      (fun _ _ hw hx => hx.walk hw) (by simp)
      (fun x hx => gone_of_tlbInvalid hlo hx (by omega) (by omega))
      (fun _ _ hw hx => hx.walk hw) (hkeep ?_) hun
    intro e he
    rcases List.mem_cons.mp he with rfl | he
    · trivial
    · exact hclear e he
  · refine Interleaved.establishes (Q := fun x => Unreachable L x a)
      [.tlbInvalid iova (iova + 2 * 4096)] rest hrun
      (fun _ _ hw hx => hx.walk hw) ?_
      (fun x hx => gone_of_tlbInvalid hlo hx (by omega) (by omega))
      (fun _ _ hw hx => hx.walk hw) (hkeep hclear) hun
    intro e he x hx
    rw [List.mem_singleton.mp he]
    exact hx.clearing trivial

/-- On V12 and V13 an unmap of at most four pages leaves nothing stale. -/
theorem short_unmap_clean {version iova size : Nat} {tlb ptw} {m' : Machine}
    (hlo : iommuVersionV12 ≤ version) (hhi : version ≤ iommuVersionV13)
    (hwf : WellFormed L s) (hr : PageRange L iova (iova + size))
    (hvalid : ∀ a, iova ≤ a → a < iova + size →
      IsValid (s.pgtable (iopdeIndex L a)))
    (hshort : size ≤ 4 * 4096)
    (hrun : Interleaved (Machine.step L version) (Walk L)
      (unmapSyncEvents L version s iova size) ⟨s, tlb, ptw⟩ m') :
    (∀ a, iova ≤ a → a < iova + size → m'.tlb (a / 4096) = none) ∧
      ∀ pa, .freeTable pa ∉ unmapSyncEvents L version s iova size := by
  have hold : version < iommuVersionV14 := by
    unfold iommuVersionV13 at hhi
    unfold iommuVersionV14
    omega
  have hnew : ¬ version ≥ iommuVersionV14 := by omega
  obtain ⟨rest, hlist, hclear, -⟩ := zapEvents_old hlo hhi hr
  unfold unmapSyncEvents at hrun ⊢
  rw [if_neg hnew] at hrun ⊢
  constructor
  · intro a hge hlt
    obtain ⟨m₁, hpre, hafter⟩ := Interleaved.append_iff.mp hrun
    obtain ⟨m₂, hloop, hzap⟩ := Interleaved.append_iff.mp hafter
    have hmem := interleaved_mem hpre
    have hsame := preInvalidations_sameMemory (L := L) (s := s) version iova
      (iova + size)
    rw [← hmem] at hsame hloop
    have hun := unmapLoop_unreachable hold (fun _ => hr)
      enoughFuel_spanFuel m₁ m₂ (hsame.wellFormed hwf) (by
        rw [hsame.pgtable_eq]
        exact hvalid) (by omega) hloop a hge hlt
    exact (zap_clears hlo hhi hr hshort hun hzap hge hlt).2
  · -- A short unmap frees no table at all.
    intro pa hfree
    rcases List.mem_append.mp hfree with hpre | hafter
    · unfold preInvalidations at hpre
      rw [if_pos hlo, if_neg hnew] at hpre
      simp at hpre
    · rcases List.mem_append.mp hafter with hloop | hzap
      · exact unmapLoopEvents_clearing (by omega) _ hloop
      · rw [hlist] at hzap
        simp only [List.mem_cons, reduceCtorEq, false_or] at hzap
        exact hclear _ hzap

/-! ## A walk that brings an entry back -/

/-- No invalidation among the steps removes the page. -/
def Survives (version page : Nat) (es : List Event) : Prop :=
  ∀ start stop, .tlbInvalid start stop ∈ es →
    ¬ TlbRemoves version start stop page

/-- Without walks, a cached leaf stays until an invalidation removes it. -/
theorem quiet_tlb {version page : Nat} {es : List Event} {m : Machine}
    (hes : Survives version page es) :
    (es.foldl (fun m e => m.step L version e) m).tlb page = m.tlb page := by
  induction es generalizing m with
  | nil => rfl
  | cons e es ih =>
    rw [List.foldl_cons, ih fun start stop he =>
      hes start stop (List.mem_cons_of_mem _ he)]
    cases e <;> simp only [Machine.step]
    rw [if_neg (hes _ _ List.mem_cons_self)]

/-- Without walks, an empty PTW cache stays empty. -/
theorem quiet_ptw {version i : Nat} {es : List Event} {m : Machine}
    (hm : m.ptw i = none) :
    (es.foldl (fun m e => m.step L version e) m).ptw i = none := by
  induction es generalizing m with
  | nil => exact hm
  | cons e es ih =>
    apply ih
    cases e <;> simp only [Machine.step] <;> try exact hm
    split_ifs
    · rfl
    · exact hm

/-- The unmap loop does not touch the TLB. -/
theorem unmapLoopEvents_survives {version stop n start page : Nat} :
    Survives version page (unmapLoopEvents L version stop n start s) := by
  have hstores : ∀ {count i pent : Nat} {a b : Nat},
      .tlbInvalid a b ∉ leafStores (fun _ => 0) count i pent := by
    intro count
    induction count with
    | zero => simp [leafStores]
    | succ count ih => simp [leafStores, ih]
  intro a b hmem
  exfalso
  induction n generalizing start s with
  | zero => simp [unmapLoopEvents] at hmem
  | succ n ih =>
    unfold unmapLoopEvents at hmem
    by_cases hlt : start < stop
    · rw [if_pos hlt] at hmem
      rcases List.mem_append.mp hmem with hround | hrest
      · rcases List.mem_append.mp hround with hdel | hinv
        · rcases List.mem_append.mp hdel with hst | hfree
          · exact hstores hst
          · split_ifs at hfree <;> simp at hfree
        · split_ifs at hinv <;> simp at hinv
      · exact ih hrest
    · rw [if_neg hlt] at hmem
      cases hmem

/-- A device with empty caches walks at `a` after the first invalidations.
When nothing later removes the page, its leaf is still cached at the end. -/
theorem stale_walk {version iova size a : Nat} (hwf : WellFormed L s)
    (hr : PageRange L iova (iova + size))
    (hlt : a < iova + size)
    (hleaf : leafWord L s a &&& sunxiPtePageValid ≠ 0)
    (hsurvives : ¬ version ≥ iommuVersionV14 →
      Survives version (a / 4096) (zapEvents L version iova size)) :
    ∃ m', Interleaved (Machine.step L version) (Walk L)
        (unmapSyncEvents L version s iova size)
        ⟨s, fun _ => none, fun _ => none⟩ m' ∧
      m'.tlb (a / 4096) ≠ none := by
  set pre := preInvalidations version iova (iova + size) with hpre
  set rest := unmapLoopEvents L version (iova + size)
      (spanFuel L iova (iova + size)) iova (s.performs L pre) ++
    (if version ≥ iommuVersionV14 then [] else zapEvents L version iova size)
    with hrest
  set m₁ := pre.foldl (fun m e => m.step L version e)
    (⟨s, fun _ => none, fun _ => none⟩ : Machine) with hm₁
  have hrun₁ : Interleaved (Machine.step L version) (Walk L) pre
      ⟨s, fun _ => none, fun _ => none⟩ m₁ := Interleaved.quiet _ _
  have hmem := interleaved_mem hrun₁
  have hsame : SameMemory s m₁.mem := by
    rw [hmem]
    exact preInvalidations_sameMemory version iova (iova + size)
  have hptw : m₁.ptw (iopdeIndex L a) = none := quiet_ptw rfl
  -- The walk goes through the page table, which is as it was.
  have hv : IsValid (s.pgtable (iopdeIndex L a)) := by
    by_contra hv
    rw [leafWord_of_not_valid hv, Nat.zero_and] at hleaf
    exact hleaf rfl
  obtain ⟨t, ht⟩ := hwf.table_of_valid (iopdeIndex_lt L a) hv
  have hent : m₁.dirEntry L a = some (s.pgtable (iopdeIndex L a)) := by
    unfold Machine.dirEntry
    rw [hptw, hsame.pgtable_eq]
    exact if_pos hv
  have hat : m₁.LeafAt L (s.pgtable (iopdeIndex L a)) a (leafWord L s a) := by
    intro t' ht'
    rw [hsame.tables_eq, iopteOffset_eq, leafTable_add (hwf.aligned _ _ ht)
      (iopteIndex_lt L a)] at ht'
    rw [iopteOffset_eq, leafSlot_add (hwf.aligned _ _ ht)
      (iopteIndex_lt L a)]
    exact leafWord_of_table hv ht'
  have hwalk := Walk.leaf (Nat.lt_of_lt_of_le hlt hr.le) hent hat hleaf
  set m₂ := (m₁.cacheDent (iopdeIndex L a)
    (s.pgtable (iopdeIndex L a))).cacheLeaf (a / 4096) (leafWord L s a)
    with hm₂
  have hsurv : Survives version (a / 4096) rest := by
    intro start stop he
    rcases List.mem_append.mp he with hloop | hzap
    · exact unmapLoopEvents_survives _ _ hloop
    · split_ifs at hzap with hnew
      · cases hzap
      · exact hsurvives hnew _ _ hzap
  refine ⟨rest.foldl (fun m e => m.step L version e) m₂,
    Interleaved.append_iff.mpr ⟨m₁, hrun₁,
      Interleaved.after_env (.single hwalk) (Interleaved.quiet _ _)⟩, ?_⟩
  rw [quiet_tlb hsurv, hm₂]
  simp [Machine.cacheLeaf]

/-- A stale leaf after some interleaving refutes `NoStale`. -/
theorem not_noStale_of_walk {version iova size a : Nat}
    (hwf : WellFormed L s) (hr : PageRange L iova (iova + size))
    (hvalid : ∀ a, iova ≤ a → a < iova + size →
      IsValid (s.pgtable (iopdeIndex L a)))
    (hge : iova ≤ a) (hlt : a < iova + size)
    (hleaf : leafWord L s a &&& sunxiPtePageValid ≠ 0)
    (hsurvives : ¬ version ≥ iommuVersionV14 →
      Survives version (a / 4096) (zapEvents L version iova size)) :
    ¬ NoStale L version s iova size := by
  intro hex
  obtain ⟨s', heq, hclean⟩ := hex
  rw [unmapAndSync_eq hwf hr hvalid, Except.ok.injEq] at heq
  obtain ⟨m', hrun, hstale⟩ := stale_walk hwf hr hlt hleaf hsurvives
  rw [← heq, stepsBetween_performs] at hclean
  exact hstale ((hclean _ _ m' hrun).1 a hge hlt)

/-- The sync on V12 and V13 leaves the fourth page of five or more. -/
theorem fourth_page_survives {version iova size : Nat}
    (hlo : iommuVersionV12 ≤ version) (hold : ¬ version ≥ iommuVersionV14)
    (hr : PageRange L iova (iova + size)) (hlong : 4 * 4096 < size) :
    Survives version ((iova + 3 * 4096) / 4096)
      (zapEvents L version iova size) := by
  have hhi : version ≤ iommuVersionV13 := by
    unfold iommuVersionV14 at hold
    unfold iommuVersionV13
    omega
  obtain ⟨rest, hlist, -, hnone⟩ := zapEvents_old hlo hhi hr
  have hal := hr.start_aligned
  have hal' := hr.stop_aligned
  intro start stop hmem
  rw [hlist] at hmem
  unfold TlbRemoves
  rw [if_pos hlo]
  simp only [List.mem_cons, Event.tlbInvalid.injEq] at hmem
  rcases hmem with ⟨hstart, hstop⟩ | ⟨hstart, hstop⟩ | hrest
  · omega
  · omega
  · exact absurd rfl (hnone _ hrest start stop)

/-! ## The exact condition -/

/-- From V12 on, unmapping a mapped range leaves nothing stale exactly when
the version is V12 or V13 and the range has at most four pages. -/
theorem noStale_iff {version iova size : Nat}
    (hlo : iommuVersionV12 ≤ version) (hwf : WellFormed L s)
    (hr : PageRange L iova (iova + size))
    (hmapped : ∀ a, iova ≤ a → a < iova + size →
      leafWord L s a &&& sunxiPtePageValid ≠ 0) :
    NoStale L version s iova size ↔
      version ≤ iommuVersionV13 ∧ size ≤ 4 * 4096 := by
  have hvalid : ∀ a, iova ≤ a → a < iova + size →
      IsValid (s.pgtable (iopdeIndex L a)) := by
    intro a hge hlt
    by_contra hv
    have hleaf := hmapped a hge hlt
    rw [leafWord_of_not_valid hv, Nat.zero_and] at hleaf
    exact hleaf rfl
  constructor
  · intro hclean
    by_contra hcond
    by_cases hnew : version ≥ iommuVersionV14
    · have hss := hr.lt
      exact not_noStale_of_walk hwf hr hvalid (Nat.le_refl _) hss
        (hmapped iova (Nat.le_refl _) hss) (fun h => absurd hnew h) hclean
    · have hlong : 4 * 4096 < size := by
        by_contra hshort
        apply hcond
        unfold iommuVersionV14 at hnew
        unfold iommuVersionV13
        omega
      have hin : iova + 3 * 4096 < iova + size := by omega
      exact not_noStale_of_walk hwf hr hvalid (Nat.le_add_right _ _) hin
        (hmapped _ (Nat.le_add_right _ _) hin)
        (fun hold => fourth_page_survives hlo hold hr hlong) hclean
  · intro hboth
    obtain ⟨hhi, hshort⟩ := hboth
    refine ⟨_, unmapAndSync_eq hwf hr hvalid, fun tlb ptw m' hrun => ?_⟩
    rw [stepsBetween_performs] at hrun ⊢
    obtain ⟨htlb, hfree⟩ :=
      short_unmap_clean hlo hhi hwf hr hvalid hshort hrun
    exact ⟨htlb, fun _ ent _ => hfree (tableOf L ent)⟩

/-- The five pages from `0x100000` on, mapped by a chunk of four pages and a
chunk of one. -/
def fivePages (version : Nat) : Pgtable :=
  pgtableAfter .v1 version [some 0x50000000]
    [.map 0x100000 0x40100000 0x4000 3, .map 0x104000 0x40104000 0x1000 3]

theorem fivePages_wellFormed (version : Nat) :
    WellFormed .v1 (fivePages version) :=
  wellFormed_pgtableAfter version _ (by decide)

/-- On V12, an unmap of the first of the pages leaves nothing stale. -/
theorem noStale_onePage :
    NoStale .v1 iommuVersionV12 (fivePages iommuVersionV12) 0x100000 0x1000 ↔
      iommuVersionV12 ≤ iommuVersionV13 ∧ 0x1000 ≤ 4 * 4096 := by
  refine noStale_iff (by decide) (fivePages_wellFormed _)
    ⟨by decide, by decide, by decide, by decide⟩ fun a hge hlt => ?_
  have hpage : a / 4096 * 4096 = 0x100000 := by omega
  rw [leafWord_page, hpage]
  decide +kernel

/-- On V12, an unmap of all five pages leaves a stale leaf for the fourth
one after some walk. -/
theorem stale_fivePages :
    ¬ NoStale .v1 iommuVersionV12 (fivePages iommuVersionV12)
      0x100000 0x5000 := by
  have hr : PageRange .v1 0x100000 (0x100000 + 0x5000) :=
    ⟨by decide, by decide, by decide, by decide⟩
  have hlo : iommuVersionV12 ≤ iommuVersionV12 := Nat.le_refl _
  refine not_noStale_of_walk (fivePages_wellFormed _) hr (fun a hge hlt => ?_)
    (Nat.le_add_right 0x100000 (3 * 4096)) (by decide) (by decide +kernel)
    (fun hold => fourth_page_survives hlo hold hr (by decide))
  have hdir : iopdeIndex .v1 a = 1 := by
    rw [iopdeIndex_eq, spdSize_v1]
    omega
  rw [hdir]
  decide +kernel

end LonganPi.Iommu
