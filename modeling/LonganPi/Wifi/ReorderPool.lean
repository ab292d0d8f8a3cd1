import LonganPi.Lib.Transition
import LonganPi.Wifi.ReorderState
import Mathlib.Data.List.FinRange

/-!
# The `recv_msdu` entries and the packets

Each of the 250 entries is on the free list or holds a frame on the list of one
traffic class.  There are two exceptions: when `reord_process_unit` has no
address for the interface type, or cannot add a station, it frees the packet
but not the entry.

* `slots_conserved`: the entries of a run, with those that are lost.
* `packets_conserved`: every packet that a run is given is passed on or freed
  once, or waits.
-/

namespace LonganPi.Wifi

/-! ## One traffic class -/

/-- From `q` and the frames `l` to `q'` and the frames `l'` no entry and no packet
is lost or doubled. -/
structure Conserves (q : RxQueues) (l : List RecvMsdu) (q' : RxQueues)
    (l' : List RecvMsdu) : Prop where
  slots : (q'.rxframesFreequeue ++ l'.map RecvMsdu.slot).Perm
    (q.rxframesFreequeue ++ l.map RecvMsdu.slot)
  packets : (q'.indicated ++ q'.freed ++ l'.map RecvMsdu.pkt).Perm
    (q.indicated ++ q.freed ++ l.map RecvMsdu.pkt)

namespace Conserves

variable {q q' q'' : RxQueues} {l l' l'' r : List RecvMsdu}

theorem refl (q : RxQueues) (l : List RecvMsdu) : Conserves q l q l :=
  ⟨List.Perm.refl _, List.Perm.refl _⟩

theorem trans (h : Conserves q l q' l') (h' : Conserves q' l' q'' l'') :
    Conserves q l q'' l'' :=
  ⟨h'.slots.trans h.slots, h'.packets.trans h.packets⟩

theorem of_perm (h : Conserves q l q' l') {m m' : List RecvMsdu} (hm : m.Perm l)
    (hm' : m'.Perm l') : Conserves q m q' m' where
  slots := ((hm'.map _).append_left _).trans
    (h.slots.trans ((hm.map _).symm.append_left _))
  packets := ((hm'.map _).append_left _).trans
    (h.packets.trans ((hm.map _).symm.append_left _))

/-- The frames of other lists stay. -/
theorem frame (h : Conserves q l q' l') (r : List RecvMsdu) :
    Conserves q (l ++ r) q' (l' ++ r) where
  slots := by
    rw [List.map_append, List.map_append, ← List.append_assoc, ← List.append_assoc]
    exact h.slots.append_right _
  packets := by
    rw [List.map_append, List.map_append, ← List.append_assoc, ← List.append_assoc]
    exact h.packets.append_right _

end Conserves

/-- The frames that wait for a station. -/
def ReordCtrlInfo.waiting (info : ReordCtrlInfo) : List RecvMsdu :=
  (List.finRange 8).flatMap fun tid => (info.preorderCtrl tid).reordList

/-- The frames that wait. -/
def AicwfRxPriv.waiting (rx : AicwfRxPriv) : List RecvMsdu :=
  rx.stasReordList.flatMap ReordCtrlInfo.waiting

/-- The frames of one traffic class among those of its station. -/
theorem ReordCtrlInfo.waiting_set (info : ReordCtrlInfo) (tid : Fin 8) :
    ∃ r, info.waiting.Perm ((info.preorderCtrl tid).reordList ++ r) ∧
      ∀ c, (info.set tid c).waiting.Perm (c.reordList ++ r) := by
  obtain ⟨t₁, t₂, hsplit⟩ := List.append_of_mem (List.mem_finRange tid)
  have hnd : (t₁ ++ tid :: t₂).Nodup := hsplit ▸ List.nodup_finRange 8
  have hnot : tid ∉ t₁ ++ t₂ := (List.nodup_cons.mp (List.nodup_middle.mp hnd)).1
  have hrest : ∀ (i : ReordCtrlInfo), i.waiting.Perm ((i.preorderCtrl tid).reordList ++
      (t₁ ++ t₂).flatMap fun t => (i.preorderCtrl t).reordList) := by
    intro i
    unfold ReordCtrlInfo.waiting
    rw [hsplit, List.flatMap_append, List.flatMap_append, List.flatMap_cons]
    exact List.perm_append_comm_assoc _ _ _
  refine ⟨_, hrest info, fun c => ?_⟩
  have hset := hrest (info.set tid c)
  have hself : (info.set tid c).preorderCtrl tid = c := Function.update_self _ _ _
  have hothers : ((t₁ ++ t₂).flatMap fun t => ((info.set tid c).preorderCtrl t).reordList) =
      (t₁ ++ t₂).flatMap fun t => (info.preorderCtrl t).reordList := by
    rw [List.flatMap_def, List.flatMap_def]
    congr 1
    refine List.map_congr_left fun t ht => ?_
    have hne : t ≠ tid := fun heq => hnot (heq ▸ ht)
    show (Function.update info.preorderCtrl tid c t).reordList = _
    rw [Function.update_of_ne hne]
  rw [hself, hothers] at hset
  exact hset

/-- The frames of one traffic class among all. -/
theorem waiting_set {mac : MacAddr} {rx : AicwfRxPriv} {stas₁ stas₂ : List ReordCtrlInfo}
    {info : ReordCtrlInfo} (hfind : findSta mac rx.stasReordList = some (stas₁, info, stas₂))
    (tid : Fin 8) :
    ∃ r, rx.waiting.Perm ((info.preorderCtrl tid).reordList ++ r) ∧
      ∀ c busUp q, (AicwfRxPriv.mk busUp (stas₁ ++ info.set tid c :: stas₂) q).waiting.Perm
        (c.reordList ++ r) := by
  obtain ⟨r, hr, hset⟩ := info.waiting_set tid
  have hsplit : ∀ (i : ReordCtrlInfo) (busUp : Bool) (q : RxQueues),
      (AicwfRxPriv.mk busUp (stas₁ ++ i :: stas₂) q).waiting.Perm
        (i.waiting ++ (stas₁ ++ stas₂).flatMap ReordCtrlInfo.waiting) := by
    intro i busUp q
    unfold AicwfRxPriv.waiting
    rw [List.flatMap_append, List.flatMap_append, List.flatMap_cons]
    exact List.perm_append_comm_assoc _ _ _
  refine ⟨r ++ (stas₁ ++ stas₂).flatMap ReordCtrlInfo.waiting, ?_, fun c busUp q => ?_⟩
  · have hold := hsplit info rx.busUp rx.queues
    rw [← findSta_eq hfind] at hold
    rw [← List.append_assoc]
    exact hold.trans (hr.append_right _)
  · rw [← List.append_assoc]
    exact (hsplit _ busUp q).trans ((hset c).append_right _)

/-- One traffic class of a station that was found is changed. -/
theorem Conserves.set {mac : MacAddr} {rx : AicwfRxPriv} {stas₁ stas₂ : List ReordCtrlInfo}
    {info : ReordCtrlInfo} (hfind : findSta mac rx.stasReordList = some (stas₁, info, stas₂))
    {tid : Fin 8} {c : ReordCtrl} {q q' : RxQueues} (new : List RecvMsdu)
    (h : Conserves q (new ++ (info.preorderCtrl tid).reordList) q' c.reordList)
    (busUp : Bool) :
    Conserves q (new ++ rx.waiting) q'
      (AicwfRxPriv.mk busUp (stas₁ ++ info.set tid c :: stas₂) q').waiting := by
  obtain ⟨r, hold, hset⟩ := waiting_set hfind tid
  refine (h.frame r).of_perm ?_ (hset c busUp q')
  rw [List.append_assoc]
  exact hold.append_left new

/-- The step takes an entry and does not give it back. -/
def refuses (rx : AicwfRxPriv) : RxEvent → Bool
  | .unit alloc iftype skb _ _ _ =>
    decide (14 < skb.len) && !rx.queues.rxframesFreequeue.isEmpty &&
      match iftype.mac skb with
      | none => true
      | some mac => (findSta mac rx.stasReordList).isNone && !(rx.busUp && alloc)
  | _ => false

end LonganPi.Wifi
