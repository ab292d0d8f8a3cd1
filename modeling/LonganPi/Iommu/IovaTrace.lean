import LonganPi.Lib.LinkedList
import LonganPi.Lib.Transition

/-!
# The IOVA trace of the IOMMU drivers

With `CONFIG_AW_IOMMU_IOVA_TRACE` the drivers keep one list of the live IOVA
allocations and one of the freed ones.  `sunxi_iommu_alloc_iova` and
`sunxi_iommu_free_iova` are the hooks that edit them, and the debugfs file and
the fault handler print them.

A node comes from `kmalloc`, which says nothing about its content, and no
branch of the two hooks stores the `next` of a new node.

* `alloc_shape` and `free_shape`: the edited list ends where the new block
  happened to point to.
* `iovaLists_iff`: so the lists are those of the trace in every state of a
  run exactly when every block arrives with a null `next`.
* `shows_of_guarded`: then both walks print the trace.
-/

namespace LonganPi.Iommu

open LinkedList Transition

/-! ## The hooks -/

/-- `struct sunxi_iommu_iova_info` but for its `next`. -/
structure IovaRecord where
  devName : String
  iova : BitVec 64
  size : BitVec 64
  timestamp : Int
  deriving DecidableEq, Repr

/-- `struct sunxi_iommu_iova_info`. -/
abbrev IovaInfo := Node Nat IovaRecord

/-- The three files that have the hooks. -/
inductive DriverVersion
  | v1 | v2 | v3
  deriving DecidableEq, Repr

/-- The globals and the blocks they lead to.  `allocated` counts the calls
of `kmalloc`: no walk that ends takes more steps. -/
structure IovaLists where
  heap : Heap Nat IovaRecord
  infoHead : Option Nat
  infoTail : Option Nat
  infoHeadFree : Option Nat
  infoTailFree : Option Nat
  allocated : Nat

/-- The globals as they are loaded. -/
def IovaLists.init : IovaLists := ⟨fun _ => none, none, none, none, none, 0⟩

/-- `kmalloc` returns the block `block`, with `raw` in it. -/
def IovaLists.kmalloc (m : IovaLists) (block : Nat) (raw : IovaInfo) :
    IovaLists :=
  { m with
    heap := Function.update m.heap block (some raw)
    allocated := m.allocated + 1 }

/-- The stores of the four members of a node. -/
def setRecord (heap : Heap Nat IovaRecord) (block : Nat) (r : IovaRecord) :
    Option (Heap Nat IovaRecord) :=
  (heap block).map fun node =>
    Function.update heap block (some { node with data := r })

/-- `sunxi_iommu_alloc_iova`.  `none` is a store through a pointer to no
block. -/
def sunxiIommuAllocIova (m : IovaLists) (block : Nat) (raw : IovaInfo)
    (devName : String) (iova size : BitVec 64) (seconds : Int) :
    Option IovaLists := do
  let m := m.kmalloc block raw
  let (heap, head, tail) ← linkLast m.heap m.infoHead m.infoTail block
  let heap ← setRecord heap block ⟨devName, iova, size, seconds⟩
  some { m with heap := heap, infoHead := head, infoTail := tail }

/-- The test of the search loop. -/
def IovaRecord.fits (iova size : BitVec 64) (r : IovaRecord) : Bool :=
  r.iova == iova && r.size == size

/-- Free head, free tail and free middle, and the `kfree`: the new blocks,
head and tail. -/
def unlinkInfo (heap : Heap Nat IovaRecord)
    (infoHead infoTail infoP infoPrev : Option Nat) :
    Option (Heap Nat IovaRecord × Option Nat × Option Nat) := do
  let p ← infoP
  let node ← heap p
  if infoP = infoHead then
    some (Function.update heap p none, node.next, infoTail)
  else do
    let prev ← infoPrev
    if infoP = infoTail then do
      let heap ← setNext heap prev none
      some (Function.update heap p none, infoHead, infoPrev)
    else do
      let heap ← setNext heap prev node.next
      some (Function.update heap p none, infoHead, infoTail)

/-- `sunxi_iommu_free_iova`.  The search may end at null, and then the copy of
the record reads through null. -/
def sunxiIommuFreeIova (v : DriverVersion) (m : IovaLists) (block : Nat)
    (raw : IovaInfo) (iova size : BitVec 64) : Option IovaLists :=
  -- `v2` has no early return
  if v ≠ .v2 ∧ m.infoHead = none then some m
  else do
    let (infoP, infoPrev) ← find m.heap (IovaRecord.fits iova size)
      (m.allocated + 1) m.infoHead m.infoHead
    let m := m.kmalloc block raw
    let (heap, headFree, tailFree) ←
      linkLast m.heap m.infoHeadFree m.infoTailFree block
    let p ← infoP
    let node ← heap p
    let heap ← setRecord heap block node.data
    let (heap, head, tail) ←
      unlinkInfo heap m.infoHead m.infoTail infoP infoPrev
    some { m with
      heap := heap, infoHead := head, infoTail := tail
      infoHeadFree := headFree, infoTailFree := tailFree }

/-- `iova_show`: the rows of the live list. -/
def iovaShow (m : IovaLists) : Option (List IovaRecord) :=
  contents m.heap m.allocated m.infoHead

/-- `iova_show_on_irq`: the rows of both lists. -/
def iovaShowOnIrq (m : IovaLists) :
    Option (List IovaRecord × List IovaRecord) := do
  let live ← contents m.heap m.allocated m.infoHead
  let freed ← contents m.heap m.allocated m.infoHeadFree
  some (live, freed)

/-! ## The trace

What the lists are for: the live allocations and the freed records, each in
the order of their events. -/

/-- The live allocations and the freed records. -/
structure IovaTrace where
  live : List IovaRecord
  freed : List IovaRecord
  deriving DecidableEq, Repr

/-- A new allocation is the last one. -/
def IovaTrace.alloc (t : IovaTrace) (r : IovaRecord) : IovaTrace :=
  { t with live := t.live ++ [r] }

/-- The first allocation that fits goes to the end of the freed records. -/
def IovaTrace.free (t : IovaTrace) (iova size : BitVec 64) : IovaTrace where
  live := t.live.eraseP (IovaRecord.fits iova size)
  freed := t.freed ++ (t.live.find? (IovaRecord.fits iova size)).toList

/-- A call of a hook, with the block that `kmalloc` gives it. -/
inductive IovaEvent
  | alloc (block : Nat) (raw : IovaInfo) (devName : String)
      (iova size : BitVec 64) (seconds : Int)
  | free (block : Nat) (raw : IovaInfo) (iova size : BitVec 64)

/-- The content of the block that `kmalloc` gives the call. -/
def IovaEvent.raw : IovaEvent → IovaInfo
  | .alloc _ raw .. => raw
  | .free _ raw .. => raw

/-- The driver beside the trace it should hold.  No driver is left after a
fault. -/
abbrev IovaSystem := Option IovaLists × IovaTrace

/-- The driver as it is loaded, and nothing allocated. -/
def IovaSystem.init : IovaSystem := (some .init, ⟨[], []⟩)

/-- `kmalloc` gives a block that is not in use, and a free names a recorded
allocation. -/
def iovaStep (v : DriverVersion) : IovaSystem → IovaEvent → Option IovaSystem
  | (none, _), _ => none
  | (some m, t), .alloc block raw devName iova size seconds =>
    if m.heap block = none then
      some (sunxiIommuAllocIova m block raw devName iova size seconds,
        t.alloc ⟨devName, iova, size, seconds⟩)
    else none
  | (some m, t), .free block raw iova size =>
    if m.heap block = none ∧ t.live.any (IovaRecord.fits iova size) then
      some (sunxiIommuFreeIova v m block raw iova size, t.free iova size)
    else none

/-- The lists of the driver are those of the trace. -/
structure ListsHold (m : IovaLists) (t : IovaTrace) : Prop where
  live : ∃ l, Seg m.heap m.infoHead l none ∧ l.map Prod.snd = t.live
  tail : ∀ l, Seg m.heap m.infoHead l none → IsTail m.infoTail l
  freed : ∃ l, Seg m.heap m.infoHeadFree l none ∧ l.map Prod.snd = t.freed
  unreachable : ∀ a, m.heap a = none →
    ¬ Reaches m.heap m.infoHead a ∧ ¬ Reaches m.heap m.infoHeadFree a

/-- No call has faulted, and the lists are those of the trace. -/
def IovaSystem.Holds : IovaSystem → Prop
  | (none, _) => False
  | (some m, t) => ListsHold m t

/-! ## The shape of the two lists -/

/-- The nodes of the two lists, and where each list ends. -/
structure Shape (m : IovaLists) (t : IovaTrace)
    (ls fs : List (Nat × IovaRecord)) (ql qf : Option Nat) : Prop where
  live : Seg m.heap m.infoHead ls ql
  liveData : ls.map Prod.snd = t.live
  liveTail : IsTail m.infoTail ls
  freed : Seg m.heap m.infoHeadFree fs qf
  freedData : fs.map Prod.snd = t.freed
  freedTail : IsTail m.infoTailFree fs
  apart : ∀ x ∈ ls, ∀ y ∈ fs, x.1 ≠ y.1
  bound : ls.length + fs.length ≤ m.allocated

/-- Both lists end in null. -/
def Terminated : IovaSystem → Prop
  | (none, _) => False
  | (some m, t) => ∃ ls fs, Shape m t ls fs none none

theorem terminated_init : Terminated IovaSystem.init :=
  ⟨[], [], rfl, rfl, isTail_nil _, rfl, rfl, isTail_nil _, by simp, by simp⟩

variable {m : IovaLists} {t : IovaTrace} {ls fs : List (Nat × IovaRecord)}
  {ql qf : Option Nat} {block : Nat} {raw : IovaInfo}

/-- The lists are those of the trace exactly when both end in null. -/
theorem Shape.listsHold_iff (hs : Shape m t ls fs ql qf) :
    ListsHold m t ↔ ql = none ∧ qf = none := by
  constructor
  · intro hh
    obtain ⟨l, hl, hldata⟩ := hh.live
    obtain ⟨f, hf, hfdata⟩ := hh.freed
    refine ⟨(hs.live.unique hl ?_).2, (hs.freed.unique hf ?_).2⟩
    · rw [← List.length_map Prod.snd, hs.liveData, ← hldata, List.length_map]
    · rw [← List.length_map Prod.snd, hs.freedData, ← hfdata, List.length_map]
  · intro hends
    obtain ⟨rfl, rfl⟩ := hends
    refine ⟨⟨ls, hs.live, hs.liveData⟩, fun l hl => ?_,
      ⟨fs, hs.freed, hs.freedData⟩, fun a ha => ⟨fun hr => ?_, fun hr => ?_⟩⟩
    · have hle := (hs.live.isPrefix hl).eq_of_length_le
        (hl.isPrefix hs.live).length_le
      rw [hle]
      exact hs.liveTail
    · obtain ⟨x, hx, rfl⟩ := hs.live.mem_of_reaches hr
      obtain ⟨nx, hnx⟩ := hs.live.live hx
      cases ha.symm.trans hnx
    · obtain ⟨x, hx, rfl⟩ := hs.freed.mem_of_reaches hr
      obtain ⟨nx, hnx⟩ := hs.freed.live hx
      cases ha.symm.trans hnx

/-- Both walks print the trace. -/
theorem show_shape (hs : Shape m t ls fs none none) :
    iovaShow m = some t.live ∧ iovaShowOnIrq m = some (t.live, t.freed) := by
  have hbound := hs.bound
  have hlive := contents_spec hs.live (show ls.length ≤ m.allocated by omega)
  have hfreed := contents_spec hs.freed (show fs.length ≤ m.allocated by omega)
  rw [hs.liveData] at hlive
  rw [hs.freedData] at hfreed
  refine ⟨hlive, ?_⟩
  simp only [iovaShowOnIrq, hlive, hfreed, Option.bind_eq_bind, Option.bind_some]

/-- A block that is not in use is in neither list. -/
theorem fresh_of_seg {h : Heap Nat IovaRecord} {p q : Option Nat}
    {l : List (Nat × IovaRecord)} (hs : Seg h p l q) (hblock : h block = none) :
    ∀ x ∈ l, x.1 ≠ block := by
  intro x hx heq
  subst heq
  obtain ⟨nx, hnx⟩ := hs.live hx
  cases hblock.symm.trans hnx

/-! ## Allocation -/

/-- The new block is linked behind the last node and filled: the list ends
where the block pointed to. -/
theorem link_fill (raw : IovaInfo) {h : Heap Nat IovaRecord}
    {head tail : Option Nat} {l : List (Nat × IovaRecord)} (hs : Seg h head l none)
    (htail : IsTail tail l) (hblock : h block = none) (r : IovaRecord) :
    ∃ h₁ h' head',
      linkLast (Function.update h block (some raw)) head tail block =
          some (h₁, head', some block) ∧
        setRecord h₁ block r = some h' ∧
        Seg h' head' (l ++ [(block, r)]) raw.next ∧
        (∀ a, a ≠ block → (∀ y ∈ l, y.1 ≠ a) → h₁ a = h a) ∧
        ∀ a, a ≠ block → (∀ y ∈ l, y.1 ≠ a) → h' a = h a := by
  have hfresh := fresh_of_seg hs hblock
  obtain ⟨h₁, head', hlink, hseg, hkeep⟩ :=
    linkLast_spec (block, raw.data) raw.next
      (hs.update (n := some raw) hfresh) htail (Function.update_self _ _ _)
      hfresh
  have hat : h₁ block = some ⟨raw.data, raw.next⟩ := (Seg.concat_iff.mp hseg).2
  have hframe : ∀ a, a ≠ block → (∀ y ∈ l, y.1 ≠ a) → h₁ a = h a := by
    intro a ha hl
    rw [hkeep a hl, Function.update_of_ne ha]
  refine ⟨h₁, _, head', hlink, ?_, hseg.setLast hfresh r, hframe, ?_⟩
  · rw [setRecord, hat]
    rfl
  · intro a ha hl
    rw [Function.update_of_ne ha, hframe a ha hl]

theorem alloc_shape (raw : IovaInfo) (hs : Shape m t ls fs none none)
    (hblock : m.heap block = none) (devName : String) (iova size : BitVec 64) (seconds : Int) :
    ∃ m' ls', sunxiIommuAllocIova m block raw devName iova size seconds = some m' ∧
      Shape m' (t.alloc ⟨devName, iova, size, seconds⟩) ls' fs raw.next none := by
  have hfreed := fresh_of_seg hs.freed hblock
  obtain ⟨h₁, h', head', hlink, hset, hseg, -, hkeep⟩ :=
    link_fill raw hs.live hs.liveTail hblock
      ⟨devName, iova, size, seconds⟩
  refine ⟨⟨h', head', some block, m.infoHeadFree, m.infoTailFree,
    m.allocated + 1⟩, ls ++ [(block, ⟨devName, iova, size, seconds⟩)], ?_, ?_⟩
  · simp only [sunxiIommuAllocIova, IovaLists.kmalloc, hlink, hset,
      Option.bind_eq_bind, Option.bind_some]
  · exact {
      live := hseg
      liveData := by
        rw [List.map_append, hs.liveData]
        rfl
      liveTail := isTail_concat ls (block, _)
      freed := hs.freed.frame fun y hy => hkeep y.1 (hfreed y hy)
        fun x hx => hs.apart x hx y hy
      freedData := hs.freedData
      freedTail := hs.freedTail
      apart := by
        intro x hx y hy
        rw [List.mem_append, List.mem_singleton] at hx
        rcases hx with hx | rfl
        · exact hs.apart x hx y hy
        · exact (hfreed y hy).symm
      bound := by
        have hbound := hs.bound
        rw [List.length_append]
        show _ ≤ m.allocated + 1
        rw [List.length_singleton]
        omega }

/-! ## Free -/

/-- Free tail and free middle: the node behind `b` goes out of the list. -/
theorem unlinkInfo_behind {h : Heap Nat IovaRecord} {head tail : Option Nat}
    {l₁ l₂ : List (Nat × IovaRecord)} {b x : Nat × IovaRecord}
    (hs : Seg h head (l₁ ++ b :: x :: l₂) none)
    (htail : IsTail tail (l₁ ++ b :: x :: l₂)) :
    ∃ h' tail',
      unlinkInfo h head tail (some x.1) (some b.1) = some (h', head, tail') ∧
        Seg h' head (l₁ ++ b :: l₂) none ∧ IsTail tail' (l₁ ++ b :: l₂) ∧
        ∀ a, (∀ y ∈ l₁ ++ b :: x :: l₂, y.1 ≠ a) → h' a = h a := by
  have hnodup := hs.nodup
  rw [List.map_append, List.nodup_append] at hnodup
  obtain ⟨nx, hb, hx, hlast, hseg⟩ := hs.unlink
  have hframe : ∀ a, (∀ y ∈ l₁ ++ b :: x :: l₂, y.1 ≠ a) →
      Function.update (Function.update h b.1 (some ⟨b.2, nx⟩)) x.1 none a =
        h a := by
    intro a ha
    rw [Function.update_of_ne (ha x (by simp)).symm,
      Function.update_of_ne (ha b (by simp)).symm]
  have hne : some x.1 ≠ head := by
    intro hhead
    cases l₁ with
    | nil =>
      have hbx : x.1 = b.1 := Option.some.inj (hhead.trans hs.1)
      simp [hbx] at hnodup
    | cons y l₁ =>
      have hyx : x.1 = y.1 := Option.some.inj (hhead.trans hs.1)
      exact hnodup.2.2 y.1 (by simp) x.1 (by simp) hyx.symm
  rcases List.eq_nil_or_concat l₂ with rfl | ⟨l₂, c, rfl⟩
  · -- free tail
    obtain rfl := hlast rfl
    obtain rfl : tail = some x.1 := htail x (by simp)
    refine ⟨_, some b.1, ?_, hseg, isTail_concat l₁ b, hframe⟩
    simp only [unlinkInfo, hx, hne, if_true, if_false, setNext, hb,
      Option.bind_eq_bind, Option.bind_some, Option.map_some]
  · -- free middle
    rw [List.concat_eq_append] at *
    obtain rfl : tail = some c.1 := by
      refine htail c ?_
      rw [show l₁ ++ b :: x :: (l₂ ++ [c]) = (l₁ ++ b :: x :: l₂) ++ [c] by simp,
        List.getLast?_concat]
      rfl
    have hxt : some x.1 ≠ some c.1 := by
      intro hxc
      have hcons := hnodup.2.1
      simp [Option.some.inj hxc] at hcons
    refine ⟨_, some c.1, ?_, hseg, ?_, hframe⟩
    · simp only [unlinkInfo, hx, hne, hxt, if_false, setNext, hb,
        Option.bind_eq_bind, Option.bind_some, Option.map_some]
    · rw [show l₁ ++ b :: (l₂ ++ [c]) = (l₁ ++ b :: l₂) ++ [c] by simp]
      exact isTail_concat _ c

/-- In each of the three cases the node goes out of the list, and no node
outside it changes. -/
theorem unlinkInfo_spec {h : Heap Nat IovaRecord} {head tail : Option Nat}
    {l₁ l₂ : List (Nat × IovaRecord)} {x : Nat × IovaRecord}
    (hs : Seg h head (l₁ ++ x :: l₂) none) (htail : IsTail tail (l₁ ++ x :: l₂)) :
    ∃ h' head' tail',
      unlinkInfo h head tail (some x.1)
          ((l₁.getLast?.map Prod.fst).or head) = some (h', head', tail') ∧
        Seg h' head' (l₁ ++ l₂) none ∧ IsTail tail' (l₁ ++ l₂) ∧
        ∀ a, (∀ y ∈ l₁ ++ x :: l₂, y.1 ≠ a) → h' a = h a := by
  rcases List.eq_nil_or_concat l₁ with rfl | ⟨l₁, b, rfl⟩
  · -- free head
    obtain ⟨hhead, nx, hx, hseg⟩ := hs.tail
    refine ⟨_, nx, tail, ?_, hseg, ?_, fun a ha => ?_⟩
    · simp only [unlinkInfo, hhead, hx, Option.bind_eq_bind, Option.bind_some,
        if_true]
    · intro y hy
      cases l₂ with
      | nil => cases hy
      | cons z l₂ =>
        refine htail y ?_
        rw [List.nil_append] at hy ⊢
        rwa [List.getLast?_cons_cons]
    · exact Function.update_of_ne (ha x (by simp)).symm _ _
  · rw [List.concat_eq_append, List.append_assoc, List.singleton_append] at hs htail
    rw [List.concat_eq_append, List.getLast?_concat, List.append_assoc,
      List.append_assoc]
    obtain ⟨h', tail', hrun, hrest⟩ := unlinkInfo_behind hs htail
    exact ⟨h', head, tail', hrun, hrest⟩

/-- The first node that fits, in the list and in the trace. -/
theorem first_fits {iova size : BitVec 64}
    (hmem : (ls.map Prod.snd).any (IovaRecord.fits iova size)) :
    ∃ l₁ x l₂, ls = l₁ ++ x :: l₂ ∧ x.2.fits iova size = true ∧
      (∀ y ∈ l₁, y.2.fits iova size = false) ∧
      (ls.map Prod.snd).find? (IovaRecord.fits iova size) = some x.2 ∧
      (ls.map Prod.snd).eraseP (IovaRecord.fits iova size) =
        (l₁ ++ l₂).map Prod.snd := by
  induction ls with
  | nil => cases hmem
  | cons z ls ih =>
    rw [List.map_cons] at hmem ⊢
    cases hz : z.2.fits iova size with
    | true =>
      refine ⟨[], z, ls, rfl, hz, by simp, ?_, ?_⟩
      · rw [List.find?_cons_of_pos hz]
      · rw [List.eraseP_cons_of_pos hz]
        rfl
    | false =>
      rw [List.any_cons, hz, Bool.false_or] at hmem
      obtain ⟨l₁, x, l₂, rfl, hx, hmiss, hfind, herase⟩ := ih hmem
      refine ⟨z :: l₁, x, l₂, rfl, hx, ?_, ?_, ?_⟩
      · intro y hy
        rcases List.mem_cons.mp hy with rfl | hy
        · exact hz
        · exact hmiss y hy
      · rw [List.find?_cons_of_neg (by rw [hz]; decide), hfind]
      · rw [List.eraseP_cons_of_neg (by rw [hz]; decide), herase]
        rfl

theorem free_shape (v : DriverVersion) (raw : IovaInfo)
    (hs : Shape m t ls fs none none)
    (hblock : m.heap block = none) {iova size : BitVec 64}
    (hmem : t.live.any (IovaRecord.fits iova size)) :
    ∃ m' ls' fs', sunxiIommuFreeIova v m block raw iova size = some m' ∧
      Shape m' (t.free iova size) ls' fs' none raw.next := by
  rw [← hs.liveData] at hmem
  obtain ⟨l₁, x, l₂, rfl, hx, hmiss, hfirst, herase⟩ := first_fits hmem
  have hlive := fresh_of_seg hs.live hblock
  have hmemx : x ∈ l₁ ++ x :: l₂ := by simp
  have hxblock : x.1 ≠ block := hlive x hmemx
  -- the search
  have hhead : m.infoHead ≠ none := by
    intro hnone
    cases l₁ with
    | nil => cases hnone.symm.trans hs.live.1
    | cons y l₁ => cases hnone.symm.trans hs.live.1
  have hfind := find_spec m.infoHead hs.live hmiss hx
    (show l₁.length < m.allocated + 1 by
      have hbound := hs.bound
      simp only [List.length_append, List.length_cons] at hbound
      omega)
  -- the record goes to the end of the free list
  obtain ⟨h₁, h₂, headFree, hlink, hset, hseg, hkeep₁, hkeep₂⟩ :=
    link_fill raw hs.freed hs.freedTail hblock x.2
  obtain ⟨nx, hnx⟩ := hs.live.live hmemx
  have hnode : h₁ x.1 = some ⟨x.2, nx⟩ :=
    (hkeep₁ x.1 hxblock fun y hy => (hs.apart x hmemx y hy).symm).trans hnx
  have hsegl : Seg h₂ m.infoHead (l₁ ++ x :: l₂) none :=
    hs.live.frame fun z hz => hkeep₂ z.1 (hlive z hz)
      fun y hy => (hs.apart z hz y hy).symm
  -- the node goes out of the live list
  obtain ⟨h₃, head', tail', hunlink, hseg', htail', hkeep₃⟩ :=
    unlinkInfo_spec hsegl hs.liveTail
  refine ⟨⟨h₃, head', tail', headFree, some block, m.allocated + 1⟩, l₁ ++ l₂,
    fs ++ [(block, x.2)], ?_, ?_⟩
  · rw [sunxiIommuFreeIova, if_neg fun hc => hhead hc.2]
    simp only [hfind, IovaLists.kmalloc, hlink, hnode, hset, hunlink,
      Option.bind_eq_bind, Option.bind_some]
  · exact {
      live := hseg'
      liveData := by rw [IovaTrace.free, ← hs.liveData, herase]
      liveTail := htail'
      freed := hseg.frame fun y hy => hkeep₃ y.1 fun z hz => by
        rw [List.mem_append, List.mem_singleton] at hy
        rcases hy with hy | rfl
        · exact hs.apart z hz y hy
        · exact hlive z hz
      freedData := by
        rw [IovaTrace.free, ← hs.liveData, hfirst, List.map_append, hs.freedData]
        rfl
      freedTail := isTail_concat fs (block, x.2)
      apart := by
        intro z hz y hy
        have hz' : z ∈ l₁ ++ x :: l₂ := by
          rw [List.mem_append] at hz ⊢
          exact hz.imp_right (List.mem_cons_of_mem x)
        rw [List.mem_append, List.mem_singleton] at hy
        rcases hy with hy | rfl
        · exact hs.apart z hz' y hy
        · exact hlive z hz'
      bound := by
        have hbound := hs.bound
        simp only [List.length_append, List.length_cons, List.length_nil] at hbound ⊢
        omega }

/-! ## Every run -/

/-- A call keeps the lists exactly when its block arrives with a null
`next`. -/
theorem iovaStep_holds {v : DriverVersion} {s s' : IovaSystem} {e : IovaEvent}
    (hs : Terminated s) (hstep : iovaStep v s e = some s') :
    (s'.Holds ↔ e.raw.next = none) ∧ (e.raw.next = none → Terminated s') := by
  obtain ⟨_ | m, t⟩ := s
  · cases hs
  obtain ⟨ls, fs, hshape⟩ := hs
  cases e with
  | alloc block raw devName iova size seconds =>
    rw [iovaStep] at hstep
    split_ifs at hstep with hblock
    obtain rfl := Option.some.inj hstep
    obtain ⟨m', ls', hrun, hshape'⟩ :=
      alloc_shape raw hshape hblock devName iova size seconds
    rw [hrun]
    refine ⟨hshape'.listsHold_iff.trans (by simp [IovaEvent.raw]), ?_⟩
    intro hnext
    rw [show raw.next = none from hnext] at hshape'
    exact ⟨ls', fs, hshape'⟩
  | free block raw iova size =>
    rw [iovaStep] at hstep
    split_ifs at hstep with hcond
    obtain rfl := Option.some.inj hstep
    obtain ⟨m', ls', fs', hrun, hshape'⟩ :=
      free_shape v raw hshape hcond.1 hcond.2
    rw [hrun]
    refine ⟨hshape'.listsHold_iff.trans (by simp [IovaEvent.raw]), ?_⟩
    intro hnext
    rw [show raw.next = none from hnext] at hshape'
    exact ⟨ls', fs', hshape'⟩

/-- The lists are those of the trace in every state of a run exactly when
every block of the run arrives with a null `next`. -/
theorem iovaLists_iff (v : DriverVersion) (events : List IovaEvent) :
    Always (iovaStep v) IovaSystem.Holds events .init ↔
      Guarded (iovaStep v) (fun _ e => e.raw.next = none) events .init := by
  refine always_iff_guarded (I := Terminated) ?_ ?_ terminated_init ?_ events
  · intro s e s' hs _ hstep
    exact (iovaStep_holds hs hstep).1
  · intro s e s' hs _ hstep hholds
    obtain ⟨hiff, hkeep⟩ := iovaStep_holds hs hstep
    exact hkeep (hiff.mp hholds)
  · obtain ⟨ls, fs, hshape⟩ := terminated_init
    exact hshape.listsHold_iff.mpr ⟨rfl, rfl⟩

/-- Both walks return, and print the trace. -/
def IovaSystem.Shows : IovaSystem → Prop
  | (none, _) => False
  | (some m, t) =>
    iovaShow m = some t.live ∧ iovaShowOnIrq m = some (t.live, t.freed)

/-- What the debugfs file and the fault handler print in such a run. -/
theorem shows_of_guarded (v : DriverVersion) {events : List IovaEvent}
    (h : Guarded (iovaStep v) (fun _ e => e.raw.next = none) events .init) :
    Always (iovaStep v) IovaSystem.Shows events .init := by
  refine Always.mono ?_ (always_of_guarded (P := Terminated) ?_ terminated_init h)
  · intro s hs
    obtain ⟨_ | m, t⟩ := s
    · cases hs
    · obtain ⟨ls, fs, hshape⟩ := hs
      exact show_shape hshape
  · intro s e s' hs hnext hstep
    exact (iovaStep_holds hs hstep).2 hnext

/-- `kmalloc` gives the first allocation a block that points to itself: the
list has no end. -/
theorem alloc_links_junk :
    ¬ Always (iovaStep .v1) IovaSystem.Holds
      [.alloc 1 ⟨⟨"", 0, 0, 0⟩, some 1⟩ "1c0e000.ve" 0x1000 0x1000 7] .init := by
  intro h
  have hstep : iovaStep .v1 .init (.alloc 1 ⟨⟨"", 0, 0, 0⟩, some 1⟩
    "1c0e000.ve" 0x1000 0x1000 7) = some _ := rfl
  have hholds := (h.2 _ hstep).head
  cases (iovaStep_holds terminated_init hstep).1.mp hholds

end LonganPi.Iommu
