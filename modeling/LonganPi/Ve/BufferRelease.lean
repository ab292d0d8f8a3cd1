import LonganPi.Ve.DmaBuf

/-!
# What a closed file leaves in the list of DMA buffers

Files, processes and fds are arbitrary, and so is the order of the calls.
`Released` says that a file that was closed has no entry in the list, that
everything taken through it was released, and that nothing was released
twice.

`Outstanding` is what the callers can count themselves: for each file, process
and fd the mappings that were made and not unmapped yet.

* `bufStep_count`: the list holds exactly the outstanding mappings.
* `released_iff`: the property holds along a run exactly when every file that
  is closed has nothing outstanding, since `cedardev_release` does not look at
  the list.
-/

namespace LonganPi.Ve

open Transition

/-- What an entry is matched by. -/
structure BufKey where
  filp : Nat
  tgid : Int
  fd : Int
  deriving DecidableEq, Repr

/-- The key of an entry. -/
def DmaBufInfo.key (e : DmaBufInfo) : BufKey := ⟨e.filp, e.pId, e.fd⟩

/-- The mappings of each key that are not unmapped yet. -/
abbrev Outstanding := BufKey → Nat

/-- A call, with what the kernel returns to it. -/
inductive BufOp
  | openFile (filp : Nat)
  | map (filp : Nat) (tgid : Int) (parm : Option Int) (o : MapOutcome)
      (copiedOut : Bool)
  | unmap (filp : Nat) (tgid : Int) (parm : Option Int)
  | closeFile (filp : Nat) (interrupted : Bool)

/-- The count after a call, from the call alone. -/
def Outstanding.after (t : Outstanding) : BufOp → Outstanding
  | .map filp tgid (some fd) (.mapped ..) _ =>
    Function.update t ⟨filp, tgid, fd⟩ (t ⟨filp, tgid, fd⟩ + 1)
  | .unmap filp tgid (some fd) =>
    Function.update t ⟨filp, tgid, fd⟩ (t ⟨filp, tgid, fd⟩ - 1)
  | _ => t

/-- What the call does to the driver.  The file of a call is open. -/
def bufCall (s : DmaBufs) : BufOp → Option DmaBufs
  | .openFile filp =>
    if s.files filp = none then some (openDmaFile s filp) else none
  | .map filp tgid parm o copiedOut =>
    (s.files filp).map fun owner =>
      (ioctlMapDmaBuf s filp owner tgid parm o copiedOut).1
  | .unmap filp tgid parm =>
    (s.files filp).map fun _ => (ioctlUnmapDmaBuf s filp tgid parm).1
  | .closeFile filp interrupted =>
    (s.files filp).map fun _ => (releaseDmaFile s filp interrupted).1

/-- The driver beside the count. -/
def bufStep (s : DmaBufs × Outstanding) (op : BufOp) :
    Option (DmaBufs × Outstanding) :=
  (bufCall s.1 op).map fun d => (d, s.2.after op)

/-- The file with this serial was opened and is closed. -/
def DmaBufs.Closed (s : DmaBufs) (k : Nat) : Prop :=
  k < s.opened ∧ ∀ filp, s.files filp ≠ some k

/-- A closed file has no entry and holds nothing, and nothing was released
twice. -/
structure Released (s : DmaBufs × Outstanding) : Prop where
  noEntry : ∀ k, s.1.Closed k → ∀ e ∈ s.1.list, e.owner ≠ k
  noGrant : ∀ k, s.1.Closed k → ∀ g, (k, g) ∉ s.1.ledger.held
  once : s.1.ledger.overReleased = 0

/-- A file that is closed has nothing outstanding. -/
def closeGuard (s : DmaBufs × Outstanding) : BufOp → Prop
  | .closeFile filp _ => ∀ tgid fd, s.2 ⟨filp, tgid, fd⟩ = 0
  | _ => True

/-! ## The list and the ledger -/

/-- What an entry stands for. -/
def DmaBufInfo.grants (e : DmaBufInfo) : List (Nat × DmaGrant) :=
  match e.dmaBuf, e.attachment, e.sgt with
  | some b, some a, some t =>
    [(e.owner, .mapping a t), (e.owner, .attachment a), (e.owner, .ref b)]
  | _, _, _ => []

/-- An entry as `map_dma_buf_addr` makes it. -/
def DmaBufInfo.Full (e : DmaBufInfo) : Prop :=
  e.dmaBuf.isSome ∧ e.attachment.isSome ∧ e.sgt.isSome

theorem DmaBufInfo.Full.put_eq {e : DmaBufInfo} (he : e.Full)
    (L : Ledger (Nat × DmaGrant)) : e.put L = L.releaseAll e.grants := by
  obtain ⟨fd, addr, b, a, t, pId, filp, owner⟩ := e
  obtain ⟨hb, ha, ht⟩ := he
  obtain ⟨b, rfl⟩ := Option.isSome_iff_exists.mp hb
  obtain ⟨a, rfl⟩ := Option.isSome_iff_exists.mp ha
  obtain ⟨t, rfl⟩ := Option.isSome_iff_exists.mp ht
  rfl

theorem DmaBufInfo.owner_of_mem_grants {e : DmaBufInfo} {k : Nat} {g : DmaGrant}
    (h : (k, g) ∈ e.grants) : e.owner = k := by
  unfold DmaBufInfo.grants at h
  split at h
  · simp only [List.mem_cons, Prod.mk.injEq, List.not_mem_nil, or_false] at h
    rcases h with h | h | h <;> exact h.1.symm
  · cases h

/-- The test is on the key. -/
theorem DmaBufInfo.fits_iff {fd tgid : Int} {filp : Nat} {e : DmaBufInfo} :
    e.fits false fd tgid filp = true ↔ e.key = ⟨filp, tgid, fd⟩ := by
  simp only [DmaBufInfo.fits, DmaBufInfo.key, Bool.false_eq_true, if_false,
    Bool.and_eq_true, beq_iff_eq, BufKey.mk.injEq]
  constructor
  · intro hboth
    obtain ⟨⟨hfd, hpid⟩, hfilp⟩ := hboth
    exact ⟨hfilp.symm, hpid, hfd⟩
  · intro hboth
    obtain ⟨hfilp, hpid, hfd⟩ := hboth
    exact ⟨⟨hfd, hpid⟩, hfilp.symm⟩

/-- An unmap removes the first entry of its key, or nothing when there is
none. -/
theorem unmapEntries_cases (fd tgid : Int) (filp : Nat) (es : List DmaBufInfo)
    (L : Ledger (Nat × DmaGrant)) :
    (unmapEntries false fd tgid filp es L = (es, L) ∧
      ∀ e ∈ es, e.key ≠ ⟨filp, tgid, fd⟩) ∨
    ∃ l₁ e l₂, es = l₁ ++ e :: l₂ ∧ e.key = ⟨filp, tgid, fd⟩ ∧
      unmapEntries false fd tgid filp es L = (l₁ ++ l₂, e.put L) := by
  induction es with
  | nil => exact Or.inl ⟨rfl, fun _ h => by cases h⟩
  | cons e es ih =>
    unfold unmapEntries
    by_cases hfits : e.fits false fd tgid filp = true
    · rw [if_pos hfits, if_neg (by decide)]
      exact Or.inr ⟨[], e, es, rfl, DmaBufInfo.fits_iff.mp hfits, rfl⟩
    · rw [if_neg hfits]
      have hne : e.key ≠ ⟨filp, tgid, fd⟩ := fun h =>
        hfits (DmaBufInfo.fits_iff.mpr h)
      rcases ih with ⟨hsame, hnone⟩ | ⟨l₁, x, l₂, rfl, hkey, hrun⟩
      · refine Or.inl ⟨by rw [hsame], fun y hy => ?_⟩
        rcases List.mem_cons.mp hy with rfl | hy
        · exact hne
        · exact hnone y hy
      · exact Or.inr ⟨e :: l₁, x, l₂, rfl, hkey, by rw [hrun]; rfl⟩

/-! ## The invariant -/

/-- The entries of a key. -/
def DmaBufs.count (s : DmaBufs) (k : BufKey) : Nat :=
  s.list.countP fun e => e.key = k

/-- The files are numbered, and the list holds exactly what is outstanding,
for files that are open. -/
structure BufInv (s : DmaBufs) (t : Outstanding) : Prop where
  flag : s.bMemDevAttachFlag = false → s.list = []
  full : ∀ e ∈ s.list, e.Full
  live : ∀ e ∈ s.list, s.files e.filp = some e.owner
  count : ∀ k, s.count k = t k
  ledger : s.ledger = ⟨↑(s.list.flatMap DmaBufInfo.grants), 0⟩
  serial : ∀ filp k, s.files filp = some k → k < s.opened
  distinct : ∀ f f' k, s.files f = some k → s.files f' = some k → f = f'

theorem bufInv_init : BufInv DmaBufs.init fun _ => 0 where
  flag _ := rfl
  full _ h := by cases h
  live _ h := by cases h
  count _ := rfl
  ledger := rfl
  serial _ _ h := by cases h
  distinct _ _ _ h := by cases h

variable {s s' : DmaBufs} {t : Outstanding} {k owner filp : Nat} {tgid fd : Int}

/-- Under the invariant a closed file has released everything. -/
theorem BufInv.released (h : BufInv s t) : Released (s, t) where
  noEntry k hk e he howner := hk.2 e.filp (by rw [h.live e he, howner])
  noGrant k hk g hg := by
    rw [h.ledger] at hg
    obtain ⟨e, he, hge⟩ := List.mem_flatMap.mp hg
    refine hk.2 e.filp ?_
    rw [h.live e he, DmaBufInfo.owner_of_mem_grants hge]
  once := by rw [h.ledger]

/-- Nothing is outstanding for a file exactly when the list has no entry of
it. -/
theorem BufInv.outstanding_iff (h : BufInv s t) (hopen : s.files filp = some k) :
    (∀ tgid fd, t ⟨filp, tgid, fd⟩ = 0) ↔ ∀ e ∈ s.list, e.owner ≠ k := by
  constructor
  · intro hzero e he howner
    have hfilp : e.filp = filp := by
      refine h.distinct _ _ k ?_ hopen
      rw [h.live e he, howner]
    have hcount : s.count e.key = 0 := by
      rw [h.count, DmaBufInfo.key, hfilp]
      exact hzero _ _
    rw [DmaBufs.count, List.countP_eq_zero] at hcount
    exact hcount e he (by simp)
  · intro hnone tgid fd
    rw [← h.count, DmaBufs.count, List.countP_eq_zero]
    intro e he hkey
    have hfilp : e.filp = filp := congrArg BufKey.filp (of_decide_eq_true hkey)
    refine hnone e he (Option.some.inj ?_)
    rw [← h.live e he, hfilp, hopen]

/-! ## One call -/

/-- A mapping is a new entry, with the three resources it stands for. -/
theorem BufInv.mapped (h : BufInv s t) (hopen : s.files filp = some owner)
    (hflag : s.bMemDevAttachFlag = true) (b a sg : Nat) (dmaAddress : BitVec 64) :
    BufInv (mapDmaBufAddr s (.mapped b a sg dmaAddress) fd tgid filp owner).1
      (Function.update t ⟨filp, tgid, fd⟩ (t ⟨filp, tgid, fd⟩ + 1)) where
  flag hf := by cases hflag.symm.trans hf
  full e he := by
    rcases List.mem_append.mp he with he | he
    · exact h.full e he
    · rw [List.mem_singleton.mp he]
      exact ⟨rfl, rfl, rfl⟩
  live e he := by
    rcases List.mem_append.mp he with he | he
    · exact h.live e he
    · rw [List.mem_singleton.mp he]
      exact hopen
  count k := by
    show List.countP _ (s.list ++ [_]) = _
    rw [List.countP_append, ← DmaBufs.count, h.count, List.countP_singleton]
    by_cases hk : k = ⟨filp, tgid, fd⟩
    · rw [hk, Function.update_self]
      simp [DmaBufInfo.key]
    · rw [Function.update_of_ne hk]
      simp [DmaBufInfo.key, Ne.symm hk]
  ledger := by
    simp only [mapDmaBufAddr, h.ledger, Ledger.acquire, List.flatMap_append,
      List.flatMap_singleton, DmaBufInfo.grants]
    rw [← Multiset.coe_add, Multiset.add_comm]
    rfl
  serial := h.serial
  distinct := h.distinct

theorem BufInv.unmapped (h : BufInv s t) :
    BufInv (unmapDmaBufAddr s false fd tgid filp)
      (Function.update t ⟨filp, tgid, fd⟩ (t ⟨filp, tgid, fd⟩ - 1)) := by
  have hnone : (∀ e ∈ s.list, e.key ≠ ⟨filp, tgid, fd⟩) →
      Function.update t ⟨filp, tgid, fd⟩ (t ⟨filp, tgid, fd⟩ - 1) = t := by
    intro hkeys
    have hzero : t ⟨filp, tgid, fd⟩ = 0 := by
      rw [← h.count, DmaBufs.count, List.countP_eq_zero]
      exact fun e he hkey => hkeys e he (of_decide_eq_true hkey)
    rw [hzero, Nat.zero_sub, ← hzero, Function.update_eq_self]
  unfold unmapDmaBufAddr
  split_ifs with hflag
  · rcases unmapEntries_cases fd tgid filp s.list s.ledger with
      ⟨hsame, hkeys⟩ | ⟨l₁, e, l₂, hlist, hkey, hrun⟩
    · rw [hnone hkeys, hsame]
      exact h
    · have hmem : ∀ x ∈ l₁ ++ l₂, x ∈ s.list := by
        intro x hx
        rw [hlist, List.mem_append]
        exact (List.mem_append.mp hx).imp_right (List.mem_cons_of_mem e)
      have hfull : e.Full := h.full e (by rw [hlist]; simp)
      rw [hrun]
      exact {
        flag := fun hf => by cases hflag.symm.trans hf
        full := fun x hx => h.full x (hmem x hx)
        live := fun x hx => h.live x (hmem x hx)
        count := fun k => by
          have hcount := h.count k
          rw [DmaBufs.count, hlist, List.countP_append, List.countP_cons, hkey] at hcount
          show List.countP _ (l₁ ++ l₂) = _
          rw [List.countP_append]
          by_cases hk : k = ⟨filp, tgid, fd⟩
          · rw [hk] at hcount ⊢
            rw [Function.update_self, ← hcount]
            simp
          · rw [Function.update_of_ne hk, ← hcount]
            simp [Ne.symm hk]
        ledger := by
          show e.put s.ledger = _
          rw [hfull.put_eq, h.ledger, hlist]
          have hperm : (↑((l₁ ++ e :: l₂).flatMap DmaBufInfo.grants) :
              Multiset (Nat × DmaGrant)) =
              ↑e.grants + ↑((l₁ ++ l₂).flatMap DmaBufInfo.grants) := by
            rw [Multiset.coe_add, Multiset.coe_eq_coe]
            exact (List.perm_middle (a := e)).flatMap_right _
          rw [hperm, Ledger.releaseAll_eq]
        serial := h.serial
        distinct := h.distinct }
  · have hnil : s.list = [] := h.flag (by simpa using hflag)
    rw [hnone (by rw [hnil]; simp)]
    exact h

theorem BufInv.opened (h : BufInv s t) (hfree : s.files filp = none) :
    BufInv (openDmaFile s filp) t where
  flag := h.flag
  full := h.full
  live e he := by
    have hlive := h.live e he
    show Function.update s.files filp (some s.opened) e.filp = _
    rw [Function.update_of_ne, hlive]
    intro hfilp
    rw [hfilp, hfree] at hlive
    cases hlive
  count := h.count
  ledger := h.ledger
  serial f k hf := by
    show k < s.opened + 1
    change Function.update s.files filp (some s.opened) f = some k at hf
    by_cases hff : f = filp
    · rw [hff, Function.update_self, Option.some.injEq] at hf
      omega
    · rw [Function.update_of_ne hff] at hf
      exact Nat.lt_succ_of_lt (h.serial f k hf)
  distinct f f' k hf hf' := by
    change Function.update s.files filp (some s.opened) f = some k at hf
    change Function.update s.files filp (some s.opened) f' = some k at hf'
    have hnew : ∀ g, s.files g = some k → some s.opened ≠ some k := by
      intro g hg hk
      have hlt := h.serial g k hg
      rw [Option.some.inj hk] at hlt
      exact Nat.lt_irrefl _ hlt
    by_cases hff : f = filp <;> by_cases hff' : f' = filp
    · rw [hff, hff']
    · rw [hff, Function.update_self] at hf
      rw [Function.update_of_ne hff'] at hf'
      exact absurd hf (hnew f' hf')
    · rw [Function.update_of_ne hff] at hf
      rw [hff', Function.update_self] at hf'
      exact absurd hf' (hnew f hf)
    · rw [Function.update_of_ne hff] at hf
      rw [Function.update_of_ne hff'] at hf'
      exact h.distinct f f' k hf hf'

/-- All that a close does. -/
theorem releaseDmaFile_eq (s : DmaBufs) (filp : Nat) (interrupted : Bool) :
    (releaseDmaFile s filp interrupted).1 =
      { s with files := Function.update s.files filp none } := by
  unfold releaseDmaFile
  split_ifs <;> rfl

theorem files_of_update {f : Nat}
    (hf : Function.update s.files filp none f = some k) :
    f ≠ filp ∧ s.files f = some k := by
  by_cases hff : f = filp
  · rw [hff, Function.update_self] at hf
    cases hf
  · rw [Function.update_of_ne hff] at hf
    exact ⟨hff, hf⟩

theorem BufInv.closed (h : BufInv s t) (hopen : s.files filp = some k)
    (hnone : ∀ e ∈ s.list, e.owner ≠ k) :
    BufInv { s with files := Function.update s.files filp none } t where
  flag := h.flag
  full := h.full
  live e he := by
    have hlive := h.live e he
    show Function.update s.files filp none e.filp = _
    rw [Function.update_of_ne, hlive]
    intro hfilp
    rw [hfilp, hopen, Option.some.injEq] at hlive
    exact hnone e he hlive.symm
  count := h.count
  ledger := h.ledger
  serial f k' hf := h.serial f k' (files_of_update hf).2
  distinct f f' k' hf hf' :=
    h.distinct f f' k' (files_of_update hf).2 (files_of_update hf').2

/-- The serial of a file that is being closed is closed afterwards. -/
theorem BufInv.closed_of_close (h : BufInv s t) (hopen : s.files filp = some k) :
    DmaBufs.Closed { s with files := Function.update s.files filp none } k := by
  refine ⟨h.serial filp k hopen, fun f hf => ?_⟩
  obtain ⟨hff, hf⟩ := files_of_update hf
  exact hff (h.distinct f filp k hf hopen)

/-- A guarded call keeps the invariant. -/
theorem bufCall_inv {op : BufOp} (h : BufInv s t) (hcall : bufCall s op = some s')
    (hguard : closeGuard (s, t) op) : BufInv s' (t.after op) := by
  cases op with
  | openFile filp =>
    rw [bufCall] at hcall
    split_ifs at hcall with hfree
    obtain rfl := Option.some.inj hcall
    exact h.opened hfree
  | map filp tgid parm o copiedOut =>
    rw [bufCall] at hcall
    obtain ⟨owner, hopen, rfl⟩ := Option.map_eq_some_iff.mp hcall
    have hset : BufInv { s with bMemDevAttachFlag := true } t :=
      { h with flag := fun hf => by cases hf }
    cases parm with
    | none => exact hset
    | some fd =>
      have hstate : (ioctlMapDmaBuf s filp owner tgid (some fd) o copiedOut).1 =
          (mapDmaBufAddr { s with bMemDevAttachFlag := true } o fd tgid filp
            owner).1 := by
        simp only [ioctlMapDmaBuf]
        split_ifs <;> rfl
      rw [hstate]
      cases o with
      | noMem => exact hset
      | noBuf => exact hset
      | noAttachment b =>
        simp only [mapDmaBufAddr, Ledger.release_acquire]
        exact hset
      | noTable b a =>
        simp only [mapDmaBufAddr, Ledger.release_acquire]
        exact hset
      | mapped b a sg dmaAddress => exact hset.mapped hopen rfl b a sg dmaAddress
  | unmap filp tgid parm =>
    rw [bufCall] at hcall
    obtain ⟨owner, hopen, rfl⟩ := Option.map_eq_some_iff.mp hcall
    cases parm with
    | none => exact h
    | some fd => exact h.unmapped
  | closeFile filp interrupted =>
    rw [bufCall] at hcall
    obtain ⟨k, hopen, rfl⟩ := Option.map_eq_some_iff.mp hcall
    rw [releaseDmaFile_eq]
    exact h.closed hopen ((h.outstanding_iff hopen).mp hguard)

/-! ## Every run -/

/-- The invariant of a run. -/
def BufRunInv (s : DmaBufs × Outstanding) : Prop := BufInv s.1 s.2

/-- In a guarded run the list holds exactly the outstanding mappings. -/
theorem bufStep_count {s s' : DmaBufs × Outstanding} {op : BufOp}
    (h : BufRunInv s) (hguard : closeGuard s op) (hstep : bufStep s op = some s') :
    BufRunInv s' := by
  obtain ⟨d, hcall, rfl⟩ := Option.map_eq_some_iff.mp hstep
  exact bufCall_inv h hcall hguard

/-- A call leaves a released state exactly under the guard. -/
theorem released_step_iff {s s' : DmaBufs × Outstanding} {op : BufOp}
    (h : BufRunInv s) (hstep : bufStep s op = some s') :
    Released s' ↔ closeGuard s op := by
  constructor
  · intro hreleased
    obtain ⟨d, hcall, rfl⟩ := Option.map_eq_some_iff.mp hstep
    cases op with
    | openFile filp => trivial
    | map filp tgid parm o copiedOut => trivial
    | unmap filp tgid parm => trivial
    | closeFile filp interrupted =>
      rw [bufCall] at hcall
      obtain ⟨k, hopen, rfl⟩ := Option.map_eq_some_iff.mp hcall
      refine (BufInv.outstanding_iff h hopen).mpr ?_
      have hclosed := BufInv.closed_of_close h hopen
      rw [← releaseDmaFile_eq s.1 filp interrupted] at hclosed
      have hnone := hreleased.noEntry k hclosed
      rwa [releaseDmaFile_eq] at hnone
  · intro hguard
    exact BufInv.released (bufStep_count h hguard hstep)

/-- Closed files have released everything in every state of a run exactly
when every file that is closed has nothing outstanding.  Whatever is
outstanding, a close leaves the entries of the other files alone. -/
theorem released_iff (ops : List BufOp) :
    (Always bufStep Released ops (DmaBufs.init, fun _ => 0) ↔
      Guarded bufStep closeGuard ops (DmaBufs.init, fun _ => 0)) ∧
    ∀ s filp interrupted k,
      (releaseDmaFile s filp interrupted).1.list.filter (fun e => e.owner ≠ k) =
        s.list.filter (fun e => e.owner ≠ k) := by
  constructor
  · refine always_iff_guarded (I := BufRunInv) ?_ ?_
      (show BufRunInv (DmaBufs.init, fun _ => 0) from bufInv_init)
      bufInv_init.released ops
    · intro s op s' h _ hstep
      exact released_step_iff h hstep
    · intro s op s' h _ hstep hreleased
      exact bufStep_count h ((released_step_iff h hstep).mp hreleased) hstep
  · intro s filp interrupted k
    rw [releaseDmaFile_eq]

/-- A file maps one buffer and is closed: the entry stays. -/
theorem close_leaves_mapping :
    ¬ Always bufStep Released
      [.openFile 64, .map 64 1 (some 5) (.mapped 7 8 9 0x1000) true,
        .closeFile 64 false] (DmaBufs.init, fun _ => 0) := by
  intro h
  have hreleased := h.of_run rfl
  refine hreleased.noEntry 0 ⟨by decide, fun f hf => ?_⟩ _ (.head _) rfl
  obtain ⟨hff, hf⟩ := files_of_update (s := openDmaFile .init 64) hf
  change Function.update (fun _ => none) 64 (some 0) f = some 0 at hf
  rw [Function.update_of_ne hff] at hf
  cases hf

end LonganPi.Ve
