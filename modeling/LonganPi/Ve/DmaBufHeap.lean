import LonganPi.Lib.RingList
import LonganPi.Ve.BufferRelease

/-!
# The list of DMA buffers in memory

`LonganPi.Ve.DmaBuf` has `cedar_devp->list` as a list.  Here it is what the
source makes of it: blocks from `kmalloc` with two pointers in front, linked
into a ring with `cedar_devp->list` as the head, and walked by a loop that
frees blocks on its way.

A read of a block that is not in use is a fault, which is `none`.  So is a
loop that takes more than `fuel` rounds.

* `Holds` ties a heap to the entries of the list.
* `mapDmaBufAddr_spec` and `unmapDmaBufAddr_spec` say that the two helpers do
  to the entries what the model over lists does.
* `list_faithful` is about every sequence of calls.
-/

namespace LonganPi.Ve

open RingList Transition

/-! ## The list operations -/

/-- `AW_LIST_LOCATION1`. -/
def awListLocation1 : Nat := 0x00100100

/-- `AW_LIST_LOCATION2`. -/
def awListLocation2 : Nat := 0x00200200

/-- `__aw_list_add`. -/
def awListAdd (m : Links Nat) (newList awPrev awNext : Nat) :
    Option (Links Nat) := do
  let m ← setPrev m awNext newList
  let m ← setNext m newList awNext
  let m ← setPrev m newList awPrev
  setNext m awPrev newList

/-- `aw_mem_list_add_tail`. -/
def awMemListAddTail (m : Links Nat) (newList head : Nat) :
    Option (Links Nat) := do
  let awPrev ← prevOf m head
  awListAdd m newList awPrev head

/-- `__aw_mem_list_del`. -/
def awMemListUnlink (m : Links Nat) (awPrev awNext : Nat) :
    Option (Links Nat) := do
  let m ← setPrev m awNext awPrev
  setNext m awPrev awNext

/-- `aw_mem_list_del`. -/
def awMemListDel (m : Links Nat) (entry : Nat) : Option (Links Nat) := do
  let awPrev ← prevOf m entry
  let awNext ← nextOf m entry
  let m ← awMemListUnlink m awPrev awNext
  let m ← setNext m entry awListLocation1
  setPrev m entry awListLocation2

/-- `aw_mem_list_for_each_safe`. -/
def awMemListForEachSafe {σ : Type} (links : σ → Links Nat)
    (body : Nat → σ → Option (σ × Bool)) (head fuel : Nat) (s : σ) :
    Option σ := do
  let awPos ← nextOf (links s) head
  let awN ← nextOf (links s) awPos
  forEachSafe links body head fuel awPos awN s

/-! ## The heap -/

/-- The blocks of the list, and the resources.  `links` is the field `i_list`
of each block, and `infos` the other fields. -/
structure DmaBufHeap where
  links : Links Nat
  infos : Nat → Option DmaBufInfo
  bMemDevAttachFlag : Bool
  ledger : Ledger (Nat × DmaGrant)

namespace DmaBufHeap

/-- After `AW_MEM_INIT_LIST_HEAD`, with `bMemDevAttachFlag` set. -/
def attached (head : Nat) : DmaBufHeap where
  links := Function.update (fun _ => none) head (some ⟨head, head⟩)
  infos := fun _ => none
  bMemDevAttachFlag := true
  ledger := .empty

/-- A `struct dma_buf_info` of zeros. -/
def zeroInfo : DmaBufInfo where
  fd := 0
  addr := 0
  dmaBuf := none
  attachment := none
  sgt := none
  pId := 0
  filp := 0
  owner := 0

/-- There is no block at `p`. -/
def Unused (s : DmaBufHeap) (p : Nat) : Prop :=
  s.links p = none ∧ s.infos p = none

instance (s : DmaBufHeap) (p : Nat) : Decidable (s.Unused p) :=
  inferInstanceAs (Decidable (_ ∧ _))

/-- `kmalloc` and `memset`, when the block is at `p`. -/
def kmalloc (s : DmaBufHeap) (p : Nat) : DmaBufHeap :=
  { s with
    links := Function.update s.links p (some ⟨0, 0⟩)
    infos := Function.update s.infos p (some zeroInfo) }

/-- `kfree`. -/
def kfree (s : DmaBufHeap) (p : Nat) : Option DmaBufHeap :=
  if (s.links p).isSome ∧ (s.infos p).isSome then
    some { s with
      links := Function.update s.links p none
      infos := Function.update s.infos p none }
  else none

/-- `map_dma_buf_addr`, its result and what it stores in `*addr`.  `bufInfo`
is the block that `kmalloc` returns. -/
def mapDmaBufAddr (head : Nat) (s : DmaBufHeap) (bufInfo : Nat)
    (o : MapOutcome) (fd tgid : Int) (filp owner : Nat) :
    Option (DmaBufHeap × Int × Option (BitVec 32)) :=
  match o with
  | .noMem => some (s, -1, none)
  | .noBuf => do
    let s ← (s.kmalloc bufInfo).kfree bufInfo
    some (s, -1, none)
  | .noAttachment b => do
    let s := s.kmalloc bufInfo
    let L := s.ledger.acquire (owner, .ref b)
    let s ← { s with ledger := L.release (owner, .ref b) }.kfree bufInfo
    some (s, -1, none)
  | .noTable b a => do
    let s := s.kmalloc bufInfo
    let L := (s.ledger.acquire (owner, .ref b)).acquire (owner, .attachment a)
    let L := L.release (owner, .attachment a)
    let s ← { s with ledger := L.release (owner, .ref b) }.kfree bufInfo
    some (s, -1, none)
  | .mapped b a t dmaAddress => do
    let s := s.kmalloc bufInfo
    let L := (s.ledger.acquire (owner, .ref b)).acquire (owner, .attachment a)
    let L := L.acquire (owner, .mapping a t)
    let info : DmaBufInfo :=
      { fd := fd, addr := dmaAddress, dmaBuf := some b, attachment := some a
        sgt := some t, pId := tgid, filp := filp, owner := owner }
    let s := { s with
      infos := Function.update s.infos bufInfo (some info), ledger := L }
    let links ← awMemListAddTail s.links bufInfo head
    some ({ s with links := links }, 0, some (dmaAddress.setWidth 32))

/-- The body of the loop of `unmap_dma_buf_addr`. -/
def unmapBody (unmapAll : Bool) (fd tgid : Int) (filp pos : Nat)
    (s : DmaBufHeap) : Option (DmaBufHeap × Bool) := do
  let bufInfo ← s.infos pos
  if bufInfo.fits unmapAll fd tgid filp then
    let links ← awMemListDel s.links pos
    let s ← { s with
      links := links, ledger := bufInfo.put s.ledger }.kfree pos
    some (s, !unmapAll)
  else some (s, false)

/-- `unmap_dma_buf_addr`. -/
def unmapDmaBufAddr (head fuel : Nat) (s : DmaBufHeap) (unmapAll : Bool)
    (fd tgid : Int) (filp : Nat) : Option DmaBufHeap :=
  if s.bMemDevAttachFlag then
    awMemListForEachSafe links (unmapBody unmapAll fd tgid filp) head fuel s
  else some s

end DmaBufHeap

/-! ## The list operations keep the ring -/

section Ring

variable {m : Links Nat} {head x : Nat} {l l₁ l₂ : List Nat}

/-- A new node is the last one. -/
theorem awMemListAddTail_spec (h : Ring m head l) (hx : x ∉ head :: l)
    (hused : (m x).isSome) :
    ∃ m', awMemListAddTail m x head = some m' ∧ Ring m' head (l ++ [x]) ∧
      ∀ a, (m' a).isSome = (m a).isSome := by
  have hring : Ring m head (l ++ []) := by rwa [List.append_nil]
  obtain ⟨p, hp⟩ := exists_getLast? head l
  obtain ⟨hnext, hprev⟩ := hring.adjacent hp rfl
  obtain ⟨m₁, hm₁, hn₁, hp₁, hs₁⟩ := setPrev_spec x (isSome_of_prev hprev)
  obtain ⟨m₂, hm₂, hn₂, hp₂, hs₂⟩ := setNext_spec head
    (show (m₁ x).isSome by rwa [hs₁])
  obtain ⟨m₃, hm₃, hn₃, hp₃, hs₃⟩ := setPrev_spec p
    (show (m₂ x).isSome by rwa [hs₂, hs₁])
  obtain ⟨m₄, hm₄, hn₄, hp₄, hs₄⟩ := setNext_spec x
    (show (m₃ p).isSome by
      rw [hs₃, hs₂, hs₁]
      exact isSome_of_next hnext)
  refine ⟨m₄, ?_, ?_, fun a => by rw [hs₄, hs₃, hs₂, hs₁]⟩
  · simp only [awMemListAddTail, awListAdd, hprev, hm₁, hm₂, hm₃,
      Option.bind_eq_bind, Option.bind_some]
    exact hm₄
  · refine hring.insert (by rwa [List.append_nil]) hp rfl ?_ ?_
    · rw [hn₄, hn₃, hn₂, hn₁]
    · rw [hp₄, hp₃, hp₂, hp₁]

/-- A node at any place is taken out. -/
theorem awMemListDel_spec (h : Ring m head (l₁ ++ x :: l₂)) :
    ∃ m', awMemListDel m x = some m' ∧ Ring m' head (l₁ ++ l₂) ∧
      ∀ a, (m' a).isSome = (m a).isSome := by
  obtain ⟨p, hp⟩ := exists_getLast? head l₁
  obtain ⟨n, hn⟩ := exists_head? head l₂
  obtain ⟨hpnext, hxprev⟩ := h.adjacent hp rfl
  obtain ⟨hxnext, hnprev⟩ := h.adjacent_next hn
  obtain ⟨m₁, hm₁, hn₁, hp₁, hs₁⟩ := setPrev_spec p (isSome_of_prev hnprev)
  obtain ⟨m₂, hm₂, hn₂, hp₂, hs₂⟩ := setNext_spec n
    (show (m₁ p).isSome by
      rw [hs₁]
      exact isSome_of_next hpnext)
  obtain ⟨m₃, hm₃, hn₃, hp₃, hs₃⟩ := setNext_spec awListLocation1
    (show (m₂ x).isSome by
      rw [hs₂, hs₁]
      exact isSome_of_next hxnext)
  obtain ⟨m₄, hm₄, hn₄, hp₄, hs₄⟩ := setPrev_spec awListLocation2
    (show (m₃ x).isSome by
      rw [hs₃, hs₂, hs₁]
      exact isSome_of_next hxnext)
  refine ⟨m₄, ?_, ?_, fun a => by rw [hs₄, hs₃, hs₂, hs₁]⟩
  · simp only [awMemListDel, awMemListUnlink, hxprev, hxnext, hm₁, hm₂, hm₃,
      Option.bind_eq_bind, Option.bind_some]
    exact hm₄
  · apply h.remove hxprev hxnext
    · intro a ha
      rw [hn₄, hn₃, Function.update_of_ne ha, hn₂, hn₁]
    · intro a ha
      rw [hp₄, Function.update_of_ne ha, hp₃, hp₂, hp₁]

end Ring

namespace DmaBufHeap

variable {head : Nat} {s : DmaBufHeap} {nodes : List (Nat × DmaBufInfo)}

/-! ## The heap of a list -/

/-- The ring has these nodes, each with its entry, and there is no other
block. -/
structure Holds (head : Nat) (s : DmaBufHeap)
    (nodes : List (Nat × DmaBufInfo)) : Prop where
  ring : Ring s.links head (nodes.map Prod.fst)
  info : ∀ x ∈ nodes, s.infos x.1 = some x.2
  infos : ∀ p, (s.infos p).isSome → p ∈ nodes.map Prod.fst
  links : ∀ p, (s.links p).isSome → p ∈ head :: nodes.map Prod.fst

theorem holds_attached (head : Nat) : Holds head (attached head) [] where
  ring := by
    refine ⟨List.nodup_singleton head, List.isChain_pair.mpr ⟨?_, ?_⟩⟩
    · simp [nextOf, attached]
    · simp [prevOf, attached]
  info _ h := by cases h
  infos _ h := by cases h
  links p h := by
    by_contra hp
    rw [List.map_nil, List.mem_singleton] at hp
    simp [attached, Function.update_of_ne hp] at h

variable {kept rest : List (Nat × DmaBufInfo)} {x : Nat × DmaBufInfo}
  {p owner filp : Nat} {fd tgid : Int} {unmapAll : Bool}

theorem Holds.notMem (h : Holds head s nodes) (hfree : s.Unused p) :
    p ∉ head :: nodes.map Prod.fst := by
  intro hp
  have hring : Ring s.links head ([] ++ nodes.map Prod.fst) := h.ring
  rcases List.mem_cons.mp hp with rfl | hp
  · obtain ⟨n, hn⟩ := exists_head? p (nodes.map Prod.fst)
    have hadj : Adjacent s.links p n := hring.adjacent rfl hn
    have hused := isSome_of_next hadj.1
    rw [hfree.1] at hused
    cases hused
  · obtain ⟨x, hx, rfl⟩ := List.mem_map.mp hp
    have hinfo := h.info x hx
    rw [hfree.2] at hinfo
    cases hinfo

/-- A block that is given back is as if it had never been there. -/
theorem kfree_kmalloc (hfree : s.Unused p) (L : Ledger (Nat × DmaGrant)) :
    { s.kmalloc p with ledger := L }.kfree p = some { s with ledger := L } := by
  unfold kfree kmalloc
  rw [if_pos (by simp only [Function.update_self]; decide)]
  simp only [Function.update_idem]
  rw [← hfree.1, ← hfree.2, Function.update_eq_self, Function.update_eq_self]

/-- A mapping that fails leaves everything as it was. -/
theorem mapDmaBufAddr_failed (hfree : s.Unused p) {o : MapOutcome}
    (ho : ∀ b a t dmaAddress, o ≠ .mapped b a t dmaAddress) :
    mapDmaBufAddr head s p o fd tgid filp owner = some (s, -1, none) := by
  cases o with
  | noMem => rfl
  | noBuf =>
    have hback : (s.kmalloc p).kfree p = some s := kfree_kmalloc hfree s.ledger
    simp only [mapDmaBufAddr, hback]
    rfl
  | noAttachment b =>
    simp only [mapDmaBufAddr, Ledger.release_acquire, kfree_kmalloc hfree]
    rfl
  | noTable b a =>
    simp only [mapDmaBufAddr, Ledger.release_acquire, kfree_kmalloc hfree]
    rfl
  | mapped b a t dmaAddress => exact absurd rfl (ho b a t dmaAddress)

/-- A mapping is the last entry, with three resources. -/
theorem mapDmaBufAddr_mapped (h : Holds head s nodes) (hfree : s.Unused p)
    (b a t : Nat) (dmaAddress : BitVec 64) (fd tgid : Int) (filp owner : Nat) :
    ∃ s', mapDmaBufAddr head s p (.mapped b a t dmaAddress) fd tgid filp owner
        = some (s', 0, some (dmaAddress.setWidth 32)) ∧
      Holds head s' (nodes ++ [(p, ⟨fd, dmaAddress, some b, some a, some t,
        tgid, filp, owner⟩)]) ∧
      s'.bMemDevAttachFlag = s.bMemDevAttachFlag ∧
      s'.ledger = ((s.ledger.acquire (owner, .ref b)).acquire
        (owner, .attachment a)).acquire (owner, .mapping a t) := by
  have hnew := h.notMem hfree
  obtain ⟨m', hm', hring, hused⟩ := awMemListAddTail_spec
    (h.ring.update hnew (some ⟨0, 0⟩)) hnew (by simp)
  have hkeep : ∀ y ∈ nodes, y.1 ≠ p := fun y hy hyp =>
    hnew (.tail _ (hyp ▸ List.mem_map_of_mem hy))
  refine ⟨⟨m', Function.update (s.kmalloc p).infos p (some ⟨fd, dmaAddress,
      some b, some a, some t, tgid, filp, owner⟩), s.bMemDevAttachFlag,
      ((s.ledger.acquire (owner, .ref b)).acquire
        (owner, .attachment a)).acquire (owner, .mapping a t)⟩, ?_,
    ⟨?_, fun y hy => ?_, fun q hq => ?_, fun q hq => ?_⟩, rfl, rfl⟩
  · simp only [mapDmaBufAddr, kmalloc, hm']
    rfl
  · rw [List.map_append]
    exact hring
  · dsimp only
    rcases List.mem_append.mp hy with hy | hy
    · rw [Function.update_of_ne (hkeep y hy)]
      show Function.update s.infos p (some zeroInfo) y.1 = some y.2
      rw [Function.update_of_ne (hkeep y hy), h.info y hy]
    · rw [List.mem_singleton.mp hy, Function.update_self]
  · rw [List.map_append, List.mem_append]
    by_cases hqp : q = p
    · rw [hqp]
      exact Or.inr (.head _)
    · refine Or.inl (h.infos q ?_)
      simpa only [kmalloc, Function.update_of_ne hqp] using hq
  · rw [List.map_append, ← List.cons_append, List.mem_append]
    by_cases hqp : q = p
    · rw [hqp]
      exact Or.inr (.head _)
    · refine Or.inl (h.links q ?_)
      dsimp only at hq
      rwa [hused, Function.update_of_ne hqp] at hq

/-- What the body does to an entry that fits: it is gone, and its resources
are given back. -/
theorem unmapBody_fits (h : Holds head s (kept ++ x :: rest))
    (hfits : x.2.fits unmapAll fd tgid filp = true) :
    ∃ s', unmapBody unmapAll fd tgid filp x.1 s = some (s', !unmapAll) ∧
      Holds head s' (kept ++ rest) ∧
      s'.bMemDevAttachFlag = s.bMemDevAttachFlag ∧
      s'.ledger = x.2.put s.ledger := by
  have hring := h.ring
  rw [List.map_append, List.map_cons] at hring
  obtain ⟨m', hm', hring', hused⟩ := awMemListDel_spec hring
  have hinfo := h.info x (by simp)
  have hnodup := hring.nodup
  rw [← List.cons_append, List.nodup_middle, List.nodup_cons] at hnodup
  have hkeep : ∀ y ∈ kept ++ rest, y.1 ≠ x.1 := by
    intro y hy hyx
    apply hnodup.1
    rw [List.cons_append, ← List.map_append, ← hyx]
    exact .tail _ (List.mem_map_of_mem hy)
  have hsplit : ∀ q, q ≠ x.1 → q ∈ (kept ++ x :: rest).map Prod.fst →
      q ∈ (kept ++ rest).map Prod.fst := by
    intro q hqx hq
    simp only [List.map_append, List.map_cons, List.mem_append,
      List.mem_cons] at hq ⊢
    rcases hq with hq | hq | hq
    · exact Or.inl hq
    · exact absurd hq hqx
    · exact Or.inr hq
  refine ⟨⟨Function.update m' x.1 none, Function.update s.infos x.1 none,
    s.bMemDevAttachFlag, x.2.put s.ledger⟩, ?_,
    ⟨?_, fun y hy => ?_, fun q hq => ?_, fun q hq => ?_⟩, rfl, rfl⟩
  · have hlink : (m' x.1).isSome := by
      obtain ⟨n, hn⟩ := exists_head? head (rest.map Prod.fst)
      rw [hused]
      exact isSome_of_next (hring.adjacent_next hn).1
    simp only [unmapBody, hinfo, hfits, hm', kfree, hlink, if_true, and_self,
      Option.isSome_some, Option.bind_eq_bind, Option.bind_some]
  · rw [List.map_append]
    exact hring'.update hnodup.1 none
  · dsimp only
    rw [Function.update_of_ne (hkeep y hy)]
    apply h.info y
    rw [List.mem_append, List.mem_cons]
    exact (List.mem_append.mp hy).imp_right Or.inr
  · by_cases hqx : q = x.1
    · simp [hqx] at hq
    · dsimp only at hq
      rw [Function.update_of_ne hqx] at hq
      exact hsplit q hqx (h.infos q hq)
  · by_cases hqx : q = x.1
    · simp [hqx] at hq
    · dsimp only at hq
      rw [Function.update_of_ne hqx, hused] at hq
      rcases List.mem_cons.mp (h.links q hq) with hq | hq
      · rw [hq]
        exact .head _
      · exact .tail _ (hsplit q hqx hq)

theorem unmapBody_skip (h : Holds head s (kept ++ x :: rest))
    (hfits : ¬ x.2.fits unmapAll fd tgid filp = true) :
    unmapBody unmapAll fd tgid filp x.1 s = some (s, false) := by
  have hinfo := h.info x (by simp)
  simp only [unmapBody, hinfo, Option.bind_eq_bind, Option.bind_some]
  rw [if_neg hfits]

/-- The entries before the cursor are kept, and what is still to come is what
the model over lists does to the entries behind it. -/
structure UnmapInv (head : Nat) (unmapAll : Bool) (fd tgid : Int) (filp : Nat)
    (result : List DmaBufInfo × Ledger (Nat × DmaGrant))
    (kept rest : List (Nat × DmaBufInfo)) (s : DmaBufHeap) : Prop where
  holds : Holds head s (kept ++ rest)
  attached : s.bMemDevAttachFlag = true
  result : result =
    (kept.map Prod.snd ++ (unmapEntries unmapAll fd tgid filp
        (rest.map Prod.snd) s.ledger).1,
      (unmapEntries unmapAll fd tgid filp (rest.map Prod.snd) s.ledger).2)

/-- What the loop leaves. -/
structure UnmapPost (head : Nat)
    (result : List DmaBufInfo × Ledger (Nat × DmaGrant)) (s : DmaBufHeap) :
    Prop where
  holds : ∃ nodes, Holds head s nodes ∧ nodes.map Prod.snd = result.1
  attached : s.bMemDevAttachFlag = true
  ledger : s.ledger = result.2

variable {result : List DmaBufInfo × Ledger (Nat × DmaGrant)}

/-- One round. -/
theorem unmapBody_spec
    (h : UnmapInv head unmapAll fd tgid filp result kept (x :: rest) s) :
    (∃ s', unmapBody unmapAll fd tgid filp x.1 s = some (s', true) ∧
        UnmapPost head result s') ∨
      ∃ s' kept', unmapBody unmapAll fd tgid filp x.1 s = some (s', false) ∧
        UnmapInv head unmapAll fd tgid filp result kept' rest s' := by
  have hresult := h.result
  rw [List.map_cons, unmapEntries] at hresult
  by_cases hfits : x.2.fits unmapAll fd tgid filp = true
  · rw [if_pos hfits] at hresult
    obtain ⟨s', hrun, hholds, hflag, hledger⟩ := unmapBody_fits h.holds hfits
    rw [← hledger] at hresult
    cases unmapAll with
    | false =>
      rw [if_neg (by decide), ← List.map_append] at hresult
      refine Or.inl ⟨s', hrun, ⟨⟨_, hholds, ?_⟩, hflag.trans h.attached, ?_⟩⟩
      · rw [hresult]
      · rw [hresult]
    | true =>
      rw [if_pos rfl] at hresult
      exact Or.inr ⟨s', kept, hrun, hholds, hflag.trans h.attached, hresult⟩
  · rw [if_neg hfits] at hresult
    refine Or.inr ⟨s, kept ++ [x], unmapBody_skip h.holds hfits, ?_,
      h.attached, ?_⟩
    · rw [List.append_assoc]
      exact h.holds
    · rw [hresult, List.map_append, List.append_assoc]
      rfl

/-- The invariant at the addresses that the loop goes through. -/
def UnmapAt (head : Nat) (unmapAll : Bool) (fd tgid : Int) (filp : Nat)
    (result : List DmaBufInfo × Ledger (Nat × DmaGrant)) (ks rs : List Nat)
    (s : DmaBufHeap) : Prop :=
  ∃ kept rest, kept.map Prod.fst = ks ∧ rest.map Prod.fst = rs ∧
    UnmapInv head unmapAll fd tgid filp result kept rest s

section Rounds

variable {ks rs : List Nat} {pos : Nat}

theorem UnmapAt.ring
    (h : UnmapAt head unmapAll fd tgid filp result ks rs s) :
    RingList.Ring s.links head (ks ++ rs) := by
  obtain ⟨kept, rest, rfl, rfl, hinv⟩ := h
  rw [← List.map_append]
  exact hinv.holds.ring

theorem UnmapAt.body
    (h : UnmapAt head unmapAll fd tgid filp result ks (pos :: rs) s) :
    (∃ s', unmapBody unmapAll fd tgid filp pos s = some (s', true) ∧
        UnmapPost head result s') ∨
      ∃ s' ks', unmapBody unmapAll fd tgid filp pos s = some (s', false) ∧
        UnmapAt head unmapAll fd tgid filp result ks' rs s' := by
  obtain ⟨kept, rest, rfl, hrest, hinv⟩ := h
  obtain ⟨x, rest, rfl, rfl, rfl⟩ := List.map_eq_cons_iff.mp hrest
  rcases unmapBody_spec hinv with hstop | ⟨s', kept', hrun, hinv'⟩
  · exact Or.inl hstop
  · exact Or.inr ⟨s', _, hrun, kept', rest, rfl, rfl, hinv'⟩

theorem UnmapAt.done
    (h : UnmapAt head unmapAll fd tgid filp result ks [] s) :
    UnmapPost head result s := by
  obtain ⟨kept, rest, rfl, hrest, hinv⟩ := h
  obtain rfl := List.map_eq_nil_iff.mp hrest
  have hholds := hinv.holds
  rw [List.append_nil] at hholds
  refine ⟨⟨kept, hholds, ?_⟩, hinv.attached, ?_⟩
  · rw [hinv.result]
    exact (List.append_nil _).symm
  · rw [hinv.result]
    rfl

/-- The loop does to the entries what the model over lists does, in a round
for each entry at most. -/
theorem unmapDmaBufAddr_spec {fuel : Nat} (h : Holds head s nodes)
    (hflag : s.bMemDevAttachFlag = true) (hfuel : nodes.length < fuel)
    (unmapAll : Bool) (fd tgid : Int) (filp : Nat) :
    ∃ s', unmapDmaBufAddr head fuel s unmapAll fd tgid filp = some s' ∧
      UnmapPost head (unmapEntries unmapAll fd tgid filp (nodes.map Prod.snd)
        s.ledger) s' := by
  obtain ⟨pos, hpos⟩ := exists_head? head (nodes.map Prod.fst)
  have hring : RingList.Ring s.links head ([] ++ nodes.map Prod.fst) := h.ring
  have hfirst : Adjacent s.links head pos := hring.adjacent rfl hpos
  obtain ⟨nx, hnx⟩ := hring.exists_next hpos
  have hstart : UnmapAt head unmapAll fd tgid filp
      (unmapEntries unmapAll fd tgid filp (nodes.map Prod.snd) s.ledger)
      [] (nodes.map Prod.fst) s := ⟨[], nodes, rfl, rfl, h, hflag, rfl⟩
  have hloop : ∃ s', forEachSafe links (unmapBody unmapAll fd tgid filp) head
      fuel pos nx s = some s' ∧ UnmapPost head (unmapEntries unmapAll fd tgid
        filp (nodes.map Prod.snd) s.ledger) s' :=
    forEachSafe_rule UnmapAt.ring UnmapAt.body UnmapAt.done hstart
      (by rwa [List.length_map]) hpos hnx
  obtain ⟨s', hloop, hpost⟩ := hloop
  refine ⟨s', ?_, hpost⟩
  rw [unmapDmaBufAddr, if_pos hflag, awMemListForEachSafe, hfirst.1]
  simp only [Option.bind_eq_bind, Option.bind_some, hnx]
  exact hloop

end Rounds

end DmaBufHeap

end LonganPi.Ve
