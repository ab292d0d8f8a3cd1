import LonganPi.Ve.DmaBufHeap

/-!
# The list of DMA buffers in every run

A run is any sequence of calls of `map_dma_buf_addr` and `unmap_dma_buf_addr`
after `bMemDevAttachFlag` is set, with any outcome of what they call.

* `DmaBufCall.live` says what a call does to the live mappings.
* `ListIs` says that the ring in memory has exactly these entries, and that
  exactly their resources are held.
* `list_faithful` is the result.
-/

namespace LonganPi.Ve

open Transition

/-- A call, with what the kernel returns to it.  `owner` is the serial of the
file, and `bufInfo` the block that `kmalloc` returns. -/
inductive DmaBufCall
  | map (fd tgid : Int) (filp owner bufInfo : Nat) (o : MapOutcome)
  | unmap (unmapAll : Bool) (fd tgid : Int) (filp : Nat)

/-- The live mappings after a call, the oldest first.  An unmap without
`unmap_all` ends the oldest one with its key. -/
def DmaBufCall.live (es : List DmaBufInfo) : DmaBufCall → List DmaBufInfo
  | .map fd tgid filp owner _ (.mapped b a t dmaAddress) =>
    es ++ [⟨fd, dmaAddress, some b, some a, some t, tgid, filp, owner⟩]
  | .map .. => es
  | .unmap false fd tgid filp => es.eraseP fun e => e.key = ⟨filp, tgid, fd⟩
  | .unmap true _ tgid filp =>
    es.filter fun e => ¬ (e.pId = tgid ∧ e.filp = filp)

/-- What the call does in memory. -/
def dmaBufCall (head fuel : Nat) (s : DmaBufHeap) :
    DmaBufCall → Option DmaBufHeap
  | .map fd tgid filp owner bufInfo o =>
    (DmaBufHeap.mapDmaBufAddr head s bufInfo o fd tgid filp owner).map Prod.fst
  | .unmap unmapAll fd tgid filp =>
    DmaBufHeap.unmapDmaBufAddr head fuel s unmapAll fd tgid filp

/-- What `kmalloc` returns to the call is not in use. -/
def DmaBufCall.KmallocUnused (s : DmaBufHeap) : DmaBufCall → Prop
  | .map _ _ _ _ bufInfo _ => s.Unused bufInfo
  | .unmap .. => True

/-- `kmalloc` returns blocks that are not in use along the run. -/
def KmallocUnused (head fuel : Nat) : List DmaBufCall → DmaBufHeap → Prop
  | [], _ => True
  | c :: cs, s => c.KmallocUnused s ∧
    match dmaBufCall head fuel s c with
    | some s' => KmallocUnused head fuel cs s'
    | none => True

/-- The ring has exactly these entries, in this order, and what is held is
what they stand for.  Nothing was released twice. -/
structure ListIs (head : Nat) (es : List DmaBufInfo) (s : DmaBufHeap) :
    Prop where
  holds : ∃ nodes, DmaBufHeap.Holds head s nodes ∧ nodes.map Prod.snd = es
  attached : s.bMemDevAttachFlag = true
  full : ∀ e ∈ es, e.Full
  ledger : s.ledger = ⟨↑(es.flatMap DmaBufInfo.grants), 0⟩

theorem listIs_attached (head : Nat) : ListIs head [] (.attached head) where
  holds := ⟨[], DmaBufHeap.holds_attached head, rfl⟩
  attached := rfl
  full _ h := by cases h
  ledger := rfl

variable {head fuel filp n : Nat} {fd tgid : Int} {unmapAll : Bool}
  {es : List DmaBufInfo} {L : Ledger (Nat × DmaGrant)} {s : DmaBufHeap}
  {m : Multiset (Nat × DmaGrant)} {c : DmaBufCall}

/-! ## What an unmap leaves -/

theorem DmaBufInfo.fits_all_iff {e : DmaBufInfo} :
    e.fits true fd tgid filp = true ↔ e.pId = tgid ∧ e.filp = filp := by
  simp only [DmaBufInfo.fits, if_true, Bool.and_eq_true, beq_iff_eq, true_and]
  exact and_congr_right fun _ => eq_comm

/-- The entries that stay are the mappings that stay live. -/
theorem unmapEntries_live :
    (unmapEntries unmapAll fd tgid filp es L).1
      = DmaBufCall.live es (.unmap unmapAll fd tgid filp) := by
  induction es generalizing L with
  | nil => cases unmapAll <;> rfl
  | cons e es ih =>
    rw [unmapEntries]
    cases unmapAll with
    | false =>
      by_cases hfits : e.fits false fd tgid filp = true
      · have hkey := DmaBufInfo.fits_iff.mp hfits
        rw [if_pos hfits, if_neg (by decide), DmaBufCall.live,
          List.eraseP_cons_of_pos (by simpa using hkey)]
      · have hkey := mt DmaBufInfo.fits_iff.mpr hfits
        rw [if_neg hfits, DmaBufCall.live,
          List.eraseP_cons_of_neg (by simpa using hkey)]
        exact congrArg (e :: ·) ih
    | true =>
      by_cases hfits : e.fits true fd tgid filp = true
      · have hkey := DmaBufInfo.fits_all_iff.mp hfits
        rw [if_pos hfits, if_pos rfl, DmaBufCall.live,
          List.filter_cons_of_neg (by simpa using hkey), ih]
        rfl
      · have hkey := mt DmaBufInfo.fits_all_iff.mpr hfits
        rw [if_neg hfits, DmaBufCall.live,
          List.filter_cons_of_pos (by simp only [hkey]; rfl)]
        exact congrArg (e :: ·) ih

/-- An unmap adds no entry. -/
theorem mem_of_mem_live {e : DmaBufInfo}
    (h : e ∈ DmaBufCall.live es (.unmap unmapAll fd tgid filp)) : e ∈ es := by
  cases unmapAll with
  | false => exact List.mem_of_mem_eraseP h
  | true => exact List.mem_of_mem_filter h

/-- Each entry that goes is released once. -/
theorem unmapEntries_ledger (hfull : ∀ e ∈ es, e.Full)
    (hL : L = ⟨↑(es.flatMap DmaBufInfo.grants) + m, n⟩) :
    (unmapEntries unmapAll fd tgid filp es L).2 =
      ⟨↑((unmapEntries unmapAll fd tgid filp es L).1.flatMap
        DmaBufInfo.grants) + m, n⟩ := by
  induction es generalizing L m with
  | nil => exact hL
  | cons e es ih =>
    have hrest : ∀ x ∈ es, x.Full := fun x hx => hfull x (.tail _ hx)
    rw [List.flatMap_cons, ← Multiset.coe_add, Multiset.add_assoc] at hL
    have hput : e.put L = ⟨↑(es.flatMap DmaBufInfo.grants) + m, n⟩ := by
      rw [(hfull e (.head _)).put_eq, hL, Ledger.releaseAll_eq]
    rw [unmapEntries]
    split_ifs with hfits hall
    · exact ih hrest hput
    · exact hput
    · have hskip : L = ⟨↑(es.flatMap DmaBufInfo.grants) + (↑e.grants + m), n⟩ := by
        rw [hL, ← Multiset.add_assoc, ← Multiset.add_assoc,
          Multiset.add_comm (e.grants : Multiset (Nat × DmaGrant))]
      have hih := ih hrest hskip
      dsimp only
      rw [hih, List.flatMap_cons, ← Multiset.coe_add, ← Multiset.add_assoc,
        Multiset.add_comm (e.grants : Multiset (Nat × DmaGrant))]

/-! ## One call -/

theorem length_live_le (c : DmaBufCall) (es : List DmaBufInfo) :
    (c.live es).length ≤ es.length + 1 := by
  unfold DmaBufCall.live
  split
  · simp
  · omega
  · exact Nat.le_succ_of_le List.length_eraseP_le
  · exact Nat.le_succ_of_le (List.length_filter_le _ _)

/-- The new entry is live, and three resources more are held. -/
theorem ListIs.mapped {bufInfo : Nat} (h : ListIs head es s)
    (hfree : s.Unused bufInfo) (b a t : Nat) (dmaAddress : BitVec 64)
    (fd tgid : Int) (filp owner : Nat) :
    ∃ s' ret, DmaBufHeap.mapDmaBufAddr head s bufInfo (.mapped b a t dmaAddress)
        fd tgid filp owner = some (s', 0, ret) ∧
      ListIs head (es ++ [⟨fd, dmaAddress, some b, some a, some t, tgid, filp,
        owner⟩]) s' := by
  obtain ⟨nodes, hholds, rfl⟩ := h.holds
  obtain ⟨s', hrun, hholds', hflag, hledger⟩ := DmaBufHeap.mapDmaBufAddr_mapped
    hholds hfree b a t dmaAddress fd tgid filp owner
  refine ⟨s', _, hrun, ⟨_, hholds', List.map_append⟩, hflag.trans h.attached,
    fun e he => ?_, ?_⟩
  · rcases List.mem_append.mp he with he | he
    · exact h.full e he
    · rw [List.mem_singleton.mp he]
      exact ⟨rfl, rfl, rfl⟩
  · rw [hledger, h.ledger, List.flatMap_append, List.flatMap_singleton,
      ← Multiset.coe_add, Multiset.add_comm]
    rfl

/-- The loop ends, and what it takes out is released. -/
theorem ListIs.unmapped (h : ListIs head es s) (hfuel : es.length < fuel)
    (unmapAll : Bool) (fd tgid : Int) (filp : Nat) :
    ∃ s', DmaBufHeap.unmapDmaBufAddr head fuel s unmapAll fd tgid filp
        = some s' ∧
      ListIs head (DmaBufCall.live es (.unmap unmapAll fd tgid filp)) s' := by
  obtain ⟨nodes, hholds, rfl⟩ := h.holds
  rw [List.length_map] at hfuel
  obtain ⟨s', hrun, hpost⟩ := DmaBufHeap.unmapDmaBufAddr_spec hholds h.attached
    hfuel unmapAll fd tgid filp
  obtain ⟨nodes', hholds', hlive⟩ := hpost.holds
  rw [unmapEntries_live] at hlive
  refine ⟨s', hrun, ⟨nodes', hholds', hlive⟩, hpost.attached, fun e he => ?_, ?_⟩
  · exact h.full e (mem_of_mem_live he)
  · have hheld : s.ledger
        = ⟨↑((nodes.map Prod.snd).flatMap DmaBufInfo.grants) + 0, 0⟩ := by
      rw [Multiset.add_zero, h.ledger]
    rw [hpost.ledger, unmapEntries_ledger h.full hheld, Multiset.add_zero,
      unmapEntries_live]

/-- A call returns, and it keeps the list in memory the list of the live
mappings. -/
theorem dmaBufCall_spec (h : ListIs head es s) (hfree : c.KmallocUnused s)
    (hfuel : es.length < fuel) :
    ∃ s', dmaBufCall head fuel s c = some s' ∧ ListIs head (c.live es) s' := by
  cases c with
  | map fd tgid filp owner bufInfo o =>
    by_cases ho : ∃ b a t dmaAddress, o = .mapped b a t dmaAddress
    · obtain ⟨b, a, t, dmaAddress, rfl⟩ := ho
      obtain ⟨s', ret, hrun, hlist⟩ :=
        h.mapped hfree b a t dmaAddress fd tgid filp owner
      exact ⟨s', by rw [dmaBufCall, hrun]; rfl, hlist⟩
    · have hfail : ∀ b a t dmaAddress, o ≠ .mapped b a t dmaAddress :=
        fun b a t dmaAddress heq => ho ⟨b, a, t, dmaAddress, heq⟩
      refine ⟨s, ?_, ?_⟩
      · rw [dmaBufCall, DmaBufHeap.mapDmaBufAddr_failed hfree hfail]
        rfl
      · cases o with
        | mapped b a t dmaAddress => exact absurd rfl (hfail b a t dmaAddress)
        | _ => exact h
  | unmap unmapAll fd tgid filp => exact h.unmapped hfuel unmapAll fd tgid filp

/-! ## Every run -/

/-- In every run the list in memory is the list of the live mappings. -/
theorem run_listIs (calls : List DmaBufCall) (h : ListIs head es s)
    (hfree : KmallocUnused head fuel calls s)
    (hfuel : es.length + calls.length < fuel) :
    ∃ s', run (dmaBufCall head fuel) calls s = some s' ∧
      ListIs head (calls.foldl DmaBufCall.live es) s' := by
  induction calls generalizing es s with
  | nil => exact ⟨s, rfl, h⟩
  | cons c calls ih =>
    rw [List.length_cons] at hfuel
    obtain ⟨hunused, hrest⟩ := hfree
    obtain ⟨s', hcall, hlist⟩ := dmaBufCall_spec h hunused
      (show es.length < fuel by omega)
    rw [hcall] at hrest
    have hlen := length_live_le c es
    obtain ⟨t, hrun, hresult⟩ := ih hlist hrest (by omega)
    refine ⟨t, ?_, hresult⟩
    rw [run, hcall]
    exact hrun

/-- Every sequence of calls returns, and it leaves a ring whose nodes are
exactly the live mappings, with exactly their resources held. -/
theorem list_faithful (head fuel : Nat) (calls : List DmaBufCall)
    (hfree : KmallocUnused head fuel calls (.attached head))
    (hfuel : calls.length < fuel) :
    ∃ s, run (dmaBufCall head fuel) calls (.attached head) = some s ∧
      ListIs head (calls.foldl DmaBufCall.live []) s := by
  apply run_listIs calls (listIs_attached head) hfree
  rwa [List.length_nil, Nat.zero_add]

/-- Two mappings of one fd, one that fails, and an unmap: the younger one
stays. -/
theorem list_faithful_sameFd :
    ∃ s, run (dmaBufCall 1 5)
        [.map 5 9 64 0 0x1000 (.mapped 7 8 9 0x10000),
          .map 5 9 64 0 0x2000 (.noTable 7 10),
          .map 5 9 64 0 0x2000 (.mapped 7 11 12 0x20000),
          .unmap false 5 9 64] (.attached 1) = some s ∧
      ListIs 1 [⟨5, 0x20000, some 7, some 11, some 12, 9, 64, 0⟩] s :=
  list_faithful 1 5 _
    ⟨⟨rfl, rfl⟩, ⟨rfl, rfl⟩, ⟨rfl, rfl⟩, trivial, trivial⟩ (by decide)

end LonganPi.Ve
