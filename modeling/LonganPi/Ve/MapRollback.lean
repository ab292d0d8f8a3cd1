import LonganPi.Ve.DmaBufHeap

/-!
# What a failed mapping leaves behind

The two ioctls that map a buffer can fail at six places.  The last one is the
`copy_to_user` of the address, when the entry is in the list already.

* `NothingLeft` says that the list and the resources are as before.
* `leavesNothing_iff` says at which of the six places that holds, for every
  list before the call.
-/

namespace LonganPi.Ve

namespace DmaBufHeap

/-- What `IOCTL_MAP_DMA_BUF` and `IOCTL_GET_IOMMU_ADDR` do.  `parm` is the fd
that `copy_from_user` reads, unless it fails, and `copiedOut` the success of
`copy_to_user`. -/
def mapIoctl (head : Nat) (s : DmaBufHeap) (bufInfo filp owner : Nat)
    (tgid : Int) (parm : Option Int) (o : MapOutcome) (copiedOut : Bool) :
    Option (DmaBufHeap × Int) :=
  let s := { s with bMemDevAttachFlag := true }
  match parm with
  | none => some (s, eFault)
  | some fd => do
    let r ← mapDmaBufAddr head s bufInfo o fd tgid filp owner
    if r.2.1 ≠ 0 then some (r.1, eFault)
    else if copiedOut = false then some (r.1, eFault)
    else some (r.1, 0)

/-- `IOCTL_MAP_DMA_BUF`. -/
def ioctlMapDmaBuf := mapIoctl

/-- `IOCTL_GET_IOMMU_ADDR`. -/
def ioctlGetIommuAddr := mapIoctl

/-- The list is the same, and so are the references, the attachments and the
mappings. -/
structure NothingLeft (head : Nat) (s s' : DmaBufHeap) : Prop where
  list : ∀ nodes, Holds head s nodes ↔ Holds head s' nodes
  ledger : s'.ledger = s.ledger

/-- A call that returns an error leaves nothing behind. -/
def LeavesNothing (head : Nat) (s : DmaBufHeap)
    (r : Option (DmaBufHeap × Int)) : Prop :=
  ∃ s' ret, r = some (s', ret) ∧ (ret < 0 → NothingLeft head s s')

/-- The mapping is made, and its address does not reach the user. -/
def LostReply (parm : Option Int) (o : MapOutcome) (copiedOut : Bool) : Prop :=
  parm ≠ none ∧ (∃ b a t dmaAddress, o = .mapped b a t dmaAddress) ∧
    copiedOut = false

variable {head bufInfo filp owner : Nat} {s : DmaBufHeap} {tgid : Int}
  {nodes : List (Nat × DmaBufInfo)} {o : MapOutcome} {copiedOut : Bool}

theorem eFault_neg : eFault < 0 := by decide

/-- The flag is no part of the list. -/
theorem nothingLeft_flag (head : Nat) (s : DmaBufHeap) (flag : Bool) :
    NothingLeft head s { s with bMemDevAttachFlag := flag } where
  list _ := ⟨fun h => ⟨h.ring, h.info, h.infos, h.links⟩,
    fun h => ⟨h.ring, h.info, h.infos, h.links⟩⟩
  ledger := rfl

/-- A list with one entry more is not the same list. -/
theorem Holds.not_concat {s' : DmaBufHeap} {info : DmaBufInfo}
    (h : Holds head s nodes) (h' : Holds head s' (nodes ++ [(bufInfo, info)]))
    (hfree : s.Unused bufInfo) : ¬ NothingLeft head s s' := by
  intro hsame
  have hold := (hsame.list nodes).mp h
  have hinfo : s'.infos bufInfo = some info :=
    h'.info (bufInfo, info) (List.mem_append_right _ (.head _))
  have hmem := hold.infos bufInfo (by rw [hinfo]; rfl)
  exact h.notMem hfree (.tail _ hmem)

/-- The result of a mapping that is made, with the list after it. -/
theorem mapIoctl_mapped (h : Holds head s nodes) (hfree : s.Unused bufInfo)
    (b a t : Nat) (dmaAddress : BitVec 64) (fd : Int) :
    ∃ s', mapIoctl head s bufInfo filp owner tgid (some fd)
        (.mapped b a t dmaAddress) copiedOut
        = some (s', if copiedOut = false then eFault else 0) ∧
      Holds head s' (nodes ++ [(bufInfo, ⟨fd, dmaAddress, some b, some a,
        some t, tgid, filp, owner⟩)]) := by
  have hset : Holds head { s with bMemDevAttachFlag := true } nodes :=
    ((nothingLeft_flag head s true).list nodes).mp h
  obtain ⟨s', hrun, hholds, -, -⟩ := mapDmaBufAddr_mapped hset hfree b a t
    dmaAddress fd tgid filp owner
  refine ⟨s', ?_, hholds⟩
  simp only [mapIoctl, hrun, Option.bind_eq_bind, Option.bind_some]
  rw [if_neg (by decide)]
  split_ifs <;> rfl

/-- Every way to fail before that gives everything back. -/
theorem mapIoctl_failed (hfree : s.Unused bufInfo) (parm : Option Int)
    (ho : parm = none ∨ ∀ b a t dmaAddress, o ≠ .mapped b a t dmaAddress) :
    mapIoctl head s bufInfo filp owner tgid parm o copiedOut
      = some ({ s with bMemDevAttachFlag := true }, eFault) := by
  cases parm with
  | none => rfl
  | some fd =>
    have hfail := ho.resolve_left (by simp)
    have hset : Unused { s with bMemDevAttachFlag := true } bufInfo := hfree
    simp only [mapIoctl, mapDmaBufAddr_failed hset hfail, Option.bind_eq_bind,
      Option.bind_some]
    rw [if_pos (by decide)]

/-- What both ioctls leave behind. -/
theorem mapIoctl_leaves_iff (h : Holds head s nodes)
    (hfree : s.Unused bufInfo) (parm : Option Int) :
    LeavesNothing head s
        (mapIoctl head s bufInfo filp owner tgid parm o copiedOut) ↔
      ¬ LostReply parm o copiedOut := by
  by_cases hmapped : parm ≠ none ∧ ∃ b a t dmaAddress,
      o = .mapped b a t dmaAddress
  · obtain ⟨hparm, b, a, t, dmaAddress, rfl⟩ := hmapped
    obtain ⟨fd, rfl⟩ := Option.ne_none_iff_exists'.mp hparm
    obtain ⟨s', hrun, hholds⟩ := mapIoctl_mapped h hfree b a t dmaAddress fd
    rw [hrun]
    cases copiedOut with
    | true =>
      refine iff_of_true ⟨s', _, rfl, fun hret => ?_⟩ fun hlost => ?_
      · rw [if_neg (by decide)] at hret
        exact absurd hret (by decide)
      · cases hlost.2.2
    | false =>
      apply iff_of_false
      · intro hnothing
        obtain ⟨t', ret, heq, hleft⟩ := hnothing
        obtain ⟨rfl, rfl⟩ := Prod.mk.inj (Option.some.inj heq)
        exact h.not_concat hholds hfree (hleft eFault_neg)
      · exact fun hnot => hnot ⟨hparm, ⟨b, a, t, dmaAddress, rfl⟩, rfl⟩
  · have hearly : parm = none ∨ ∀ b a t dmaAddress,
        o ≠ .mapped b a t dmaAddress := by
      by_cases hparm : parm = none
      · exact Or.inl hparm
      · exact Or.inr fun b a t dmaAddress heq =>
          hmapped ⟨hparm, b, a, t, dmaAddress, heq⟩
    rw [mapIoctl_failed hfree parm hearly]
    refine iff_of_true ⟨_, _, rfl, fun _ => nothingLeft_flag head s true⟩ ?_
    exact fun hlost => hmapped ⟨hlost.1, hlost.2.1⟩

/-- An ioctl that fails leaves nothing behind exactly when it is not the copy
of the address to the user that fails. -/
theorem leavesNothing_iff (h : Holds head s nodes) (hfree : s.Unused bufInfo)
    (filp owner : Nat) (tgid : Int) (parm : Option Int) (o : MapOutcome)
    (copiedOut : Bool) :
    (LeavesNothing head s (ioctlMapDmaBuf head s bufInfo filp owner tgid parm o
        copiedOut) ↔ ¬ LostReply parm o copiedOut) ∧
      (LeavesNothing head s (ioctlGetIommuAddr head s bufInfo filp owner tgid
        parm o copiedOut) ↔ ¬ LostReply parm o copiedOut) :=
  ⟨mapIoctl_leaves_iff h hfree parm, mapIoctl_leaves_iff h hfree parm⟩

/-- The first mapping, with every step a success. -/
theorem leavesNothing_first :
    (LeavesNothing 1 (attached 1) (ioctlMapDmaBuf 1 (attached 1) 0x1000 64 0 9
        (some 5) (.mapped 7 8 9 0x10000) true) ↔
      ¬ LostReply (some 5) (.mapped 7 8 9 0x10000) true) ∧
      (LeavesNothing 1 (attached 1) (ioctlGetIommuAddr 1 (attached 1) 0x1000 64
        0 9 (some 5) (.mapped 7 8 9 0x10000) true) ↔
      ¬ LostReply (some 5) (.mapped 7 8 9 0x10000) true) :=
  leavesNothing_iff (holds_attached 1) ⟨rfl, rfl⟩ 64 0 9 (some 5)
    (.mapped 7 8 9 0x10000) true

/-- The first mapping, with an address that does not reach the user. -/
theorem lost_reply_leaves_entry :
    ¬ LeavesNothing 1 (attached 1) (ioctlMapDmaBuf 1 (attached 1) 0x1000 64 0 9
      (some 5) (.mapped 7 8 9 0x10000) false) := by
  intro hnothing
  obtain ⟨t', ret, heq, hleft⟩ := hnothing
  obtain ⟨s', hrun, hholds⟩ := mapIoctl_mapped (holds_attached 1)
    (show Unused (attached 1) 0x1000 from ⟨rfl, rfl⟩) 7 8 9 0x10000 5
  obtain ⟨rfl, rfl⟩ := Prod.mk.inj (Option.some.inj (heq.symm.trans hrun))
  exact (holds_attached 1).not_concat hholds ⟨rfl, rfl⟩ (hleft eFault_neg)

end DmaBufHeap

end LonganPi.Ve
