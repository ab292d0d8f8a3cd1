import LonganPi.Lib.Transition
import LonganPi.Wifi.CmdMove
import Mathlib.Data.List.Nodup
import Mathlib.Tactic.SplitIfs

/-!
# The commands and who has them

`QueueOk` is about the queue, and `HoldOk` about the threads and the worker.
Together they say that at most one command was sent and is not confirmed, that
it is the first of the queue, and that one thread or the worker waits for it.
The lemmas here are about changes of one command and one hold.
-/

namespace LonganPi.Wifi

open CmdMgr

/-! ## Who has a command -/

/-- What a thread or the worker has of a command. -/
inductive Hold where
  | nothing
  /-- It is not queued. -/
  | fresh (slot : Nat)
  /-- It is queued, and will be sent. -/
  | chosen (slot : Nat)
  /-- It is queued, is not marked as one to be sent any more, and will be sent. -/
  | pushing (slot : Nat)
  | waiting (slot : Nat)

def Hold.slot? : Hold → Option Nat
  | .nothing => none
  | .fresh slot => some slot
  | .chosen slot => some slot
  | .pushing slot => some slot
  | .waiting slot => some slot

def Caller.hold : Caller → Hold
  | .idle => .nothing
  | .allocated slot => .fresh slot
  | .ready slot => .fresh slot
  | .passed slot => .fresh slot
  | .pushing slot => .pushing slot
  | .deferring => .nothing
  | .waiting slot => .waiting slot

def Worker.hold : Worker → Hold
  | .idle => .nothing
  | .looping => .nothing
  | .chosen slot => .chosen slot
  | .waiting slot => .waiting slot

/-- The threads, and the worker as `none`. -/
def CmdMgr.hold (m : CmdMgr) : Option Nat → Hold
  | none => m.worker.hold
  | some t => (m.callers t).hold

variable {forced : Nat → Bool} {m m' : CmdMgr} {slot s : Nat}

theorem hold_some {t : Nat} {c : Caller} (h : m.callers t = c) : m.hold (some t) = c.hold := by
  rw [← h]
  rfl

theorem hold_none {w : Worker} (h : m.worker = w) : m.hold none = w.hold := by
  rw [← h]
  rfl

/-- Only threads send without the worker. -/
theorem hold_pushing {i : Option Nat} (h : m.hold i = .pushing s) :
    ∃ t, m.callers t = .pushing s := by
  cases i with
  | none =>
    cases hworker : m.worker with
    | idle => rw [hold_none hworker] at h; cases h
    | looping => rw [hold_none hworker] at h; cases h
    | chosen a => rw [hold_none hworker] at h; cases h
    | waiting a => rw [hold_none hworker] at h; cases h
  | some t =>
    refine ⟨t, ?_⟩
    cases hcaller : m.callers t with
    | idle => rw [hold_some hcaller] at h; cases h
    | allocated a => rw [hold_some hcaller] at h; cases h
    | ready a => rw [hold_some hcaller] at h; cases h
    | passed a => rw [hold_some hcaller] at h; cases h
    | pushing a => rw [hold_some hcaller] at h; cases h; rfl
    | deferring => rw [hold_some hcaller] at h; cases h
    | waiting a => rw [hold_some hcaller] at h; cases h

theorem hold_waiting {t : Nat} (h : m.hold (some t) = .waiting s) : m.callers t = .waiting s := by
  cases hcaller : m.callers t with
  | idle => rw [hold_some hcaller] at h; cases h
  | allocated a => rw [hold_some hcaller] at h; cases h
  | ready a => rw [hold_some hcaller] at h; cases h
  | passed a => rw [hold_some hcaller] at h; cases h
  | pushing a => rw [hold_some hcaller] at h; cases h
  | deferring => rw [hold_some hcaller] at h; cases h
  | waiting a => rw [hold_some hcaller] at h; cases h; rfl

theorem callers_setCaller_self (m : CmdMgr) (t : Nat) (c : Caller) :
    (m.setCaller t c).callers t = c := Function.update_self ..

theorem callers_setCaller_of_ne {t t' : Nat} (h : t' ≠ t) (m : CmdMgr) (c : Caller) :
    (m.setCaller t c).callers t' = m.callers t' := Function.update_of_ne h ..

/-- What a command is on the queue. -/
def RwnxCmd.enqueued (cmd : RwnxCmd) (tkn : BitVec 32) (defer : Bool) : RwnxCmd :=
  { cmd with
    waitPush := cmd.waitPush || defer, waitCfm := true, tkn := tkn
    result := eIntr, complete := false }

theorem cmdArray_enqueue (m : CmdMgr) (s : Nat) (defer : Bool) :
    (m.enqueue s defer).cmdArray
      = Function.update m.cmdArray s ((m.cmdArray s).enqueued m.nextTkn defer) := rfl

theorem cmdArray_enqueue_self (m : CmdMgr) (s : Nat) (defer : Bool) :
    (m.enqueue s defer).cmdArray s = (m.cmdArray s).enqueued m.nextTkn defer := by
  rw [cmdArray_enqueue]
  exact Function.update_self ..

theorem cmdArray_enqueue_of_ne (h : s ≠ slot) (m : CmdMgr) (defer : Bool) :
    (m.enqueue slot defer).cmdArray s = m.cmdArray s := by
  rw [cmdArray_enqueue]
  exact Function.update_of_ne h ..

/-! ## The queue -/

/-- Only the first command of the queue may have been sent. -/
structure QueueOk (m : CmdMgr) : Prop where
  nodup : m.cmds.Nodup
  size : m.queueSz = BitVec.ofNat 32 m.cmds.length
  bound : m.cmds.length ≤ 16
  waitCfm : ∀ s ∈ m.cmds, (m.cmdArray s).waitCfm = true
  pending : ∀ s ∈ m.cmds, (m.cmdArray s).complete = false
  later : ∀ s ∈ m.cmds.tail, (m.cmdArray s).waitPush = true
  unsent : ∀ s, (m.cmdArray s).waitPush = true → s ∈ m.cmds ∧ (m.cmdArray s).used = true
  done : ∀ s, (m.cmdArray s).complete = true → (m.cmdArray s).done = true

theorem queueOk_init : QueueOk rwnxCmdMgrInit where
  nodup := List.nodup_nil
  size := rfl
  bound := Nat.zero_le _
  waitCfm _ hs := absurd hs List.not_mem_nil
  pending _ hs := absurd hs List.not_mem_nil
  later _ hs := absurd hs List.not_mem_nil
  unsent _ hs := absurd hs Bool.false_ne_true
  done _ hs := absurd hs Bool.false_ne_true

namespace QueueOk

/-- A command that was sent is the first one. -/
theorem cmds_eq (h : QueueOk m) (hs : s ∈ m.cmds) (hpush : (m.cmdArray s).waitPush = false) :
    m.cmds = s :: m.cmds.tail := by
  cases hcmds : m.cmds with
  | nil =>
    rw [hcmds] at hs
    cases hs
  | cons a l =>
    rw [hcmds] at hs
    cases hs with
    | head => rfl
    | tail _ hl =>
      have hlater := h.later s (by rw [hcmds]; exact hl)
      rw [hpush] at hlater
      cases hlater

/-- The commands behind the first one are not it. -/
theorem notMem_tail (h : QueueOk m)
    (hpush : (m.cmdArray s).waitPush = false) : s ∉ m.cmds.tail := by
  intro htail
  have hlater := h.later s htail
  rw [hpush] at hlater
  cases hlater

theorem congr (h : QueueOk m) (hcmds : m'.cmds = m.cmds) (hsz : m'.queueSz = m.queueSz)
    (harr : m'.cmdArray = m.cmdArray) : QueueOk m' where
  nodup := hcmds ▸ h.nodup
  size := by rw [hsz, hcmds, h.size]
  bound := hcmds ▸ h.bound
  waitCfm := by
    rw [hcmds, harr]
    exact h.waitCfm
  pending := by
    rw [hcmds, harr]
    exact h.pending
  later := by
    rw [hcmds, harr]
    exact h.later
  unsent := by
    rw [hcmds, harr]
    exact h.unsent
  done := by
    rw [harr]
    exact h.done

/-- A command that the queue does not have, or that was sent, is taken or freed. -/
theorem update (h : QueueOk m) (slot : Nat) {c : RwnxCmd} (hcmds : m'.cmds = m.cmds)
    (hsz : m'.queueSz = m.queueSz) (harr : m'.cmdArray = Function.update m.cmdArray slot c)
    (hpush : c.waitPush = (m.cmdArray slot).waitPush)
    (hcfm : c.waitCfm = (m.cmdArray slot).waitCfm)
    (hcomplete : c.complete = (m.cmdArray slot).complete)
    (hdone : c.done = (m.cmdArray slot).done)
    (hused : (m.cmdArray slot).waitPush = true → c.used = true) : QueueOk m' where
  nodup := hcmds ▸ h.nodup
  size := by rw [hsz, hcmds, h.size]
  bound := hcmds ▸ h.bound
  waitCfm s hs := by
    by_cases hne : s = slot
    · rw [harr, hne, Function.update_self, hcfm]
      exact h.waitCfm slot (hne ▸ hcmds ▸ hs)
    · rw [harr, Function.update_of_ne hne]
      exact h.waitCfm s (hcmds ▸ hs)
  pending s hs := by
    by_cases hne : s = slot
    · rw [harr, hne, Function.update_self, hcomplete]
      exact h.pending slot (hne ▸ hcmds ▸ hs)
    · rw [harr, Function.update_of_ne hne]
      exact h.pending s (hcmds ▸ hs)
  later s hs := by
    by_cases hne : s = slot
    · rw [harr, hne, Function.update_self, hpush]
      exact h.later slot (hne ▸ hcmds ▸ hs)
    · rw [harr, Function.update_of_ne hne]
      exact h.later s (hcmds ▸ hs)
  unsent s hs := by
    rw [hcmds]
    by_cases hne : s = slot
    · rw [harr, hne, Function.update_self] at hs ⊢
      rw [hpush] at hs
      exact ⟨(h.unsent slot hs).1, hused hs⟩
    · rw [harr, Function.update_of_ne hne] at hs ⊢
      exact h.unsent s hs
  done s hs := by
    by_cases hne : s = slot
    · rw [harr, hne, Function.update_self] at hs ⊢
      rw [hcomplete] at hs
      rw [hdone]
      exact h.done slot hs
    · rw [harr, Function.update_of_ne hne] at hs ⊢
      exact h.done s hs

/-- A command comes to the end of the queue.  It waits to be sent unless it is
the only one. -/
theorem enqueue (h : QueueOk m) {defer : Bool} (hnew : slot ∉ m.cmds)
    (hused : (m.cmdArray slot).used = true) (hlen : m.cmds.length < 16)
    (honly : defer = true ∨ m.cmds = []) : QueueOk (m.enqueue slot defer) := by
  have hpush : (m.cmdArray slot).waitPush = false := by
    cases hp : (m.cmdArray slot).waitPush with
    | false => rfl
    | true => exact absurd (h.unsent slot hp).1 hnew
  have hself := cmdArray_enqueue_self m slot defer
  have hother : ∀ s, s ≠ slot → (m.enqueue slot defer).cmdArray s = m.cmdArray s :=
    fun s hs => cmdArray_enqueue_of_ne hs m defer
  have hcmds : (m.enqueue slot defer).cmds = m.cmds ++ [slot] := rfl
  exact
    { nodup := by
        rw [hcmds]
        refine List.nodup_append.mpr ⟨h.nodup, List.nodup_singleton slot, ?_⟩
        intro a ha b hb hab
        rw [List.mem_singleton.mp hb] at hab
        exact hnew (hab ▸ ha)
      size := by
        show m.queueSz + 1 = BitVec.ofNat 32 (m.cmds ++ [slot]).length
        rw [h.size, List.length_append, List.length_singleton, BitVec.ofNat_add]
        rfl
      bound := by
        rw [hcmds, List.length_append, List.length_singleton]
        omega
      waitCfm := fun s hs => by
        by_cases hne : s = slot
        · rw [hne, hself]
          rfl
        · rw [hother s hne]
          rw [hcmds] at hs
          rcases List.mem_append.mp hs with hold | hold
          · exact h.waitCfm s hold
          · exact absurd (List.mem_singleton.mp hold) hne
      pending := fun s hs => by
        by_cases hne : s = slot
        · rw [hne, hself]
          rfl
        · rw [hother s hne]
          rw [hcmds] at hs
          rcases List.mem_append.mp hs with hold | hold
          · exact h.pending s hold
          · exact absurd (List.mem_singleton.mp hold) hne
      later := fun s hs => by
        rw [hcmds] at hs
        by_cases hnil : m.cmds = []
        · rw [hnil] at hs
          cases hs
        · rw [List.tail_append_of_ne_nil hnil] at hs
          by_cases hne : s = slot
          · rw [hne, hself]
            rcases honly with hdefer | hempty
            · show ((m.cmdArray slot).waitPush || defer) = true
              rw [hdefer, Bool.or_true]
            · exact absurd hempty hnil
          · rw [hother s hne]
            rcases List.mem_append.mp hs with hold | hold
            · exact h.later s hold
            · exact absurd (List.mem_singleton.mp hold) hne
      unsent := fun s hs => by
        by_cases hne : s = slot
        · rw [hne, hself, hcmds]
          exact ⟨List.mem_append.mpr (Or.inr (List.mem_singleton.mpr rfl)), hused⟩
        · rw [hother s hne] at hs ⊢
          exact ⟨List.mem_append.mpr (Or.inl (h.unsent s hs).1), (h.unsent s hs).2⟩
      done := fun s hs => by
        by_cases hne : s = slot
        · rw [hne, hself] at hs
          cases hs
        · rw [hother s hne] at hs ⊢
          exact h.done s hs }

/-- A command that was sent leaves the queue. -/
theorem remove (h : QueueOk m) {c : RwnxCmd} (hs : slot ∈ m.cmds)
    (hpush : (m.cmdArray slot).waitPush = false) (hcmds : m'.cmds = m.cmds.erase slot)
    (hsz : m'.queueSz = m.queueSz - 1) (harr : m'.cmdArray = Function.update m.cmdArray slot c)
    (hpush' : c.waitPush = false) (hdone : c.done = true) : QueueOk m' := by
  have hother : ∀ s, s ≠ slot → m'.cmdArray s = m.cmdArray s := fun s hne => by
    rw [harr, Function.update_of_ne hne]
  have hcons := h.cmds_eq hs hpush
  have htail : m'.cmds = m.cmds.tail := by
    rw [hcmds]
    conv_lhs => rw [hcons]
    exact List.erase_cons_head slot m.cmds.tail
  have hmem : ∀ s, s ∈ m'.cmds → s ≠ slot := by
    intro s hs' heq
    rw [htail, heq] at hs'
    exact h.notMem_tail hpush hs'
  have hlen : m.cmds.length = m.cmds.tail.length + 1 := by
    conv_lhs => rw [hcons]
    exact List.length_cons
  exact
    { nodup := htail ▸ h.nodup.tail
      size := by
        rw [hsz, h.size, htail, hlen, BitVec.ofNat_add]
        exact BitVec.add_sub_cancel _ _
      bound := by
        have hbound := h.bound
        rw [htail]
        omega
      waitCfm := fun s hs' => by
        rw [hother s (hmem s hs')]
        exact h.waitCfm s (List.mem_of_mem_tail (htail ▸ hs'))
      pending := fun s hs' => by
        rw [hother s (hmem s hs')]
        exact h.pending s (List.mem_of_mem_tail (htail ▸ hs'))
      later := fun s hs' => by
        have hs₁ := List.mem_of_mem_tail hs'
        rw [hother s (hmem s hs₁)]
        exact h.later s (htail ▸ hs₁)
      unsent := fun s hs' => by
        have hne : s ≠ slot := by
          rintro rfl
          rw [harr, Function.update_self, hpush'] at hs'
          cases hs'
        rw [hother s hne] at hs' ⊢
        have hold := h.unsent s hs'
        rw [htail]
        refine ⟨?_, hold.2⟩
        have hin := hold.1
        rw [hcons] at hin
        exact (List.mem_cons.mp hin).resolve_left hne
      done := fun s hs' => by
        by_cases hne : s = slot
        · rw [hne, harr, Function.update_self]
          exact hdone
        · rw [hother s hne] at hs' ⊢
          exact h.done s hs' }

/-- The worker sends the first command. -/
theorem push (h : QueueOk m) {c : RwnxCmd} (hhead : m.cmds.head? = some slot)
    (hcmds : m'.cmds = m.cmds) (hsz : m'.queueSz = m.queueSz)
    (harr : m'.cmdArray = Function.update m.cmdArray slot c) (hpush : c.waitPush = false)
    (hcfm : c.waitCfm = (m.cmdArray slot).waitCfm)
    (hcomplete : c.complete = (m.cmdArray slot).complete)
    (hdone : c.done = (m.cmdArray slot).done) : QueueOk m' := by
  have hcons : m.cmds = slot :: m.cmds.tail := (List.cons_head?_tail hhead).symm
  have hnot : slot ∉ m.cmds.tail := by
    have hnodup := h.nodup
    rw [hcons] at hnodup
    exact (List.nodup_cons.mp hnodup).1
  exact
    { nodup := hcmds ▸ h.nodup
      size := by rw [hsz, hcmds, h.size]
      bound := hcmds ▸ h.bound
      waitCfm := fun s hs => by
        by_cases hne : s = slot
        · rw [harr, hne, Function.update_self, hcfm]
          exact h.waitCfm slot (hne ▸ hcmds ▸ hs)
        · rw [harr, Function.update_of_ne hne]
          exact h.waitCfm s (hcmds ▸ hs)
      pending := fun s hs => by
        by_cases hne : s = slot
        · rw [harr, hne, Function.update_self, hcomplete]
          exact h.pending slot (hne ▸ hcmds ▸ hs)
        · rw [harr, Function.update_of_ne hne]
          exact h.pending s (hcmds ▸ hs)
      later := fun s hs => by
        rw [hcmds] at hs
        have hne : s ≠ slot := by
          rintro rfl
          exact hnot hs
        rw [harr, Function.update_of_ne hne]
        exact h.later s hs
      unsent := fun s hs => by
        by_cases hne : s = slot
        · rw [harr, hne, Function.update_self, hpush] at hs
          cases hs
        · rw [harr, Function.update_of_ne hne] at hs ⊢
          rw [hcmds]
          exact h.unsent s hs
      done := fun s hs => by
        by_cases hne : s = slot
        · rw [harr, hne, Function.update_self] at hs ⊢
          rw [hcomplete] at hs
          rw [hdone]
          exact h.done slot hs
        · rw [harr, Function.update_of_ne hne] at hs ⊢
          exact h.done s hs }

end QueueOk

/-! ## The holds -/

/-- What is true of the command of a hold. -/
def Fits (m : CmdMgr) : Hold → Prop
  | .nothing => True
  | .fresh s => (m.cmdArray s).used = true ∧ (m.cmdArray s).waitPush = false ∧
      (m.crashed = false → s ∉ m.cmds)
  | .chosen s => (m.cmdArray s).used = true ∧ (m.cmdArray s).waitPush = true ∧
      m.cmds.head? = some s
  | .pushing s => (m.cmdArray s).used = true ∧ (m.cmdArray s).waitPush = false ∧ s ∈ m.cmds
  | .waiting s => (m.cmdArray s).used = true ∧ (m.cmdArray s).waitPush = false ∧
      (s ∈ m.cmds ∨ (m.cmdArray s).complete = true)

/-- A command has one holder.  Until a crash the first command of the queue, if
it was sent, has somebody who waits for it. -/
structure HoldOk (m : CmdMgr) : Prop where
  fits : ∀ i, Fits m (m.hold i)
  unique : ∀ {i j s}, (m.hold i).slot? = some s → (m.hold j).slot? = some s → i = j
  owner : m.crashed = false → ∀ s ∈ m.cmds, (m.cmdArray s).waitPush = false →
    ∃ i, m.hold i = .pushing s ∨ m.hold i = .waiting s
  used : m.crashed = false → ∀ s ∈ m.cmds, (m.cmdArray s).used = true

theorem holdOk_init : HoldOk rwnxCmdMgrInit where
  fits i := by
    cases i with
    | none => trivial
    | some t => trivial
  unique {i j s} hi _ := by
    cases i with
    | none => cases hi
    | some t => cases hi
  owner _ _ hs := absurd hs List.not_mem_nil
  used _ _ hs := absurd hs List.not_mem_nil

/-- A step changes at most the hold of `i` and the command `slot`. -/
structure Frame (m m' : CmdMgr) (i : Option Nat) (slot : Nat) : Prop where
  hold : ∀ j, j ≠ i → m'.hold j = m.hold j
  cmd : ∀ s, s ≠ slot → m'.cmdArray s = m.cmdArray s
  mem : ∀ s, s ≠ slot → (s ∈ m'.cmds ↔ s ∈ m.cmds)
  head : ∀ s, s ≠ slot → m.cmds.head? = some s → m'.cmds.head? = some s
  crashed : m'.crashed = false → m.crashed = false

/-- A step of a thread. -/
theorem Frame.caller (t slot : Nat) {x : Caller} {c : RwnxCmd}
    (hcallers : m'.callers = Function.update m.callers t x) (hworker : m'.worker = m.worker)
    (harr : m'.cmdArray = Function.update m.cmdArray slot c)
    (hmem : ∀ s, s ≠ slot → (s ∈ m'.cmds ↔ s ∈ m.cmds))
    (hhead : ∀ s, s ≠ slot → m.cmds.head? = some s → m'.cmds.head? = some s)
    (hcr : m'.crashed = false → m.crashed = false) : Frame m m' (some t) slot where
  hold j hj := by
    cases j with
    | none => exact congrArg Worker.hold hworker
    | some t' =>
      have ht : t' ≠ t := fun heq => hj (congrArg some heq)
      exact hold_some (by rw [hcallers, Function.update_of_ne ht])
  cmd s hs := by rw [harr, Function.update_of_ne hs]
  mem := hmem
  head := hhead
  crashed := hcr

/-- A step of the worker. -/
theorem Frame.worker (slot : Nat) {c : RwnxCmd} (hcallers : m'.callers = m.callers)
    (harr : m'.cmdArray = Function.update m.cmdArray slot c)
    (hmem : ∀ s, s ≠ slot → (s ∈ m'.cmds ↔ s ∈ m.cmds))
    (hhead : ∀ s, s ≠ slot → m.cmds.head? = some s → m'.cmds.head? = some s)
    (hcr : m'.crashed = false → m.crashed = false) : Frame m m' none slot where
  hold j hj := by
    cases j with
    | none => exact absurd rfl hj
    | some t' => exact hold_some (by rw [hcallers])
  cmd s hs := by rw [harr, Function.update_of_ne hs]
  mem := hmem
  head := hhead
  crashed := hcr

/-- No other than `i` has the command, and `i` has no other command. -/
def Sole (m : CmdMgr) (i : Option Nat) (slot : Nat) : Prop :=
  (∀ j, (m.hold j).slot? = some slot → j = i) ∧ ∀ s, (m.hold i).slot? = some s → s = slot

theorem Fits.used {x : Hold} (h : Fits m x) (hx : x.slot? = some s) :
    (m.cmdArray s).used = true := by
  cases x with
  | nothing => cases hx
  | fresh a => exact Option.some.inj hx ▸ h.1
  | chosen a => exact Option.some.inj hx ▸ h.1
  | pushing a => exact Option.some.inj hx ▸ h.1
  | waiting a => exact Option.some.inj hx ▸ h.1

/-- The other commands fit as before. -/
theorem Fits.of_frame {i : Option Nat} {x : Hold} (h : Fits m x) (hf : Frame m m' i slot)
    (hx : x.slot? ≠ some slot) : Fits m' x := by
  cases x with
  | nothing => trivial
  | fresh s =>
    have hne : s ≠ slot := fun heq => hx (congrArg some heq)
    show (m'.cmdArray s).used = true ∧ _
    rw [hf.cmd s hne, hf.mem s hne]
    exact ⟨h.1, h.2.1, fun hcr => h.2.2 (hf.crashed hcr)⟩
  | chosen s =>
    have hne : s ≠ slot := fun heq => hx (congrArg some heq)
    show (m'.cmdArray s).used = true ∧ _
    rw [hf.cmd s hne]
    exact ⟨h.1, h.2.1, hf.head s hne h.2.2⟩
  | pushing s =>
    have hne : s ≠ slot := fun heq => hx (congrArg some heq)
    show (m'.cmdArray s).used = true ∧ _
    rw [hf.cmd s hne, hf.mem s hne]
    exact h
  | waiting s =>
    have hne : s ≠ slot := fun heq => hx (congrArg some heq)
    show (m'.cmdArray s).used = true ∧ _
    rw [hf.cmd s hne, hf.mem s hne]
    exact h

namespace HoldOk

/-- Nothing changes that the holds depend on. -/
theorem congr (h : HoldOk m) (hhold : m'.hold = m.hold) (hcmds : m'.cmds = m.cmds)
    (harr : m'.cmdArray = m.cmdArray) (hcr : m'.crashed = m.crashed) : HoldOk m' where
  fits i := by
    have hfits := h.fits i
    rw [hhold]
    unfold Fits at hfits ⊢
    rw [hcmds, harr, hcr]
    exact hfits
  unique {i j s} hi hj := by
    rw [hhold] at hi hj
    exact h.unique hi hj
  owner hcr' s hs hpush := by
    rw [hhold]
    exact h.owner (hcr ▸ hcr') s (hcmds ▸ hs) (harr ▸ hpush)
  used hcr' s hs := by
    rw [harr]
    exact h.used (hcr ▸ hcr') s (hcmds ▸ hs)

/-- A step of `i` on its command `slot`, which no other has. -/
theorem of_frame (h : HoldOk m) {i : Option Nat} (hf : Frame m m' i slot)
    (hsole : Sole m i slot) (hafter : ∀ s, (m'.hold i).slot? = some s → s = slot)
    (hfits : Fits m' (m'.hold i))
    (howner : m'.crashed = false → slot ∈ m'.cmds → (m'.cmdArray slot).waitPush = false →
      m'.hold i = .pushing slot ∨ m'.hold i = .waiting slot)
    (hused : m'.crashed = false → slot ∈ m'.cmds → (m'.cmdArray slot).used = true) :
    HoldOk m' := by
  have hne : ∀ j s, j ≠ i → (m'.hold j).slot? = some s → s ≠ slot := by
    intro j s hj hs heq
    rw [hf.hold j hj, heq] at hs
    exact hj (hsole.1 j hs)
  exact
    { fits := fun j => by
        by_cases hj : j = i
        · rw [hj]
          exact hfits
        · rw [hf.hold j hj]
          exact (h.fits j).of_frame hf fun hs => hj (hsole.1 j hs)
      unique := fun {j k s} hj hk => by
        by_cases hji : j = i
        · by_cases hki : k = i
          · rw [hji, hki]
          · rw [hji] at hj
            exact absurd (hafter s hj) (hne k s hki hk)
        · by_cases hki : k = i
          · rw [hki] at hk
            exact absurd (hafter s hk) (hne j s hji hj)
          · rw [hf.hold j hji] at hj
            rw [hf.hold k hki] at hk
            exact h.unique hj hk
      owner := fun hcr s hs hpush => by
        by_cases heq : s = slot
        · rw [heq] at hs hpush ⊢
          exact ⟨i, howner hcr hs hpush⟩
        · rw [hf.cmd s heq] at hpush
          obtain ⟨j, hj⟩ := h.owner (hf.crashed hcr) s ((hf.mem s heq).mp hs) hpush
          have hji : j ≠ i := by
            rintro rfl
            refine heq (hsole.2 s ?_)
            rcases hj with hj | hj
            · rw [hj]
              rfl
            · rw [hj]
              rfl
          refine ⟨j, ?_⟩
          rw [hf.hold j hji]
          exact hj
      used := fun hcr s hs => by
        by_cases heq : s = slot
        · rw [heq] at hs ⊢
          exact hused hcr hs
        · rw [hf.cmd s heq]
          exact h.used (hf.crashed hcr) s ((hf.mem s heq).mp hs) }

/-- A holder has its command alone. -/
theorem sole (h : HoldOk m) {i : Option Nat} (hi : (m.hold i).slot? = some slot) :
    Sole m i slot where
  left _ hj := h.unique hj hi
  right _ hs := Option.some.inj (hs.symm.trans hi)

theorem sole_of_caller (h : HoldOk m) {t : Nat} {x : Caller} (hcaller : m.callers t = x)
    (hx : x.hold.slot? = some slot) : Sole m (some t) slot :=
  h.sole (by rw [hold_some hcaller, hx])

theorem sole_of_worker (h : HoldOk m) {x : Worker} (hworker : m.worker = x)
    (hx : x.hold.slot? = some slot) : Sole m none slot :=
  h.sole (by rw [hold_none hworker, hx])

/-- A step of a thread on its command. -/
theorem caller (h : HoldOk m) (t slot : Nat) {x : Caller} {c : RwnxCmd}
    (hcallers : m'.callers = Function.update m.callers t x) (hworker : m'.worker = m.worker)
    (harr : m'.cmdArray = Function.update m.cmdArray slot c)
    (hmem : ∀ s, s ≠ slot → (s ∈ m'.cmds ↔ s ∈ m.cmds))
    (hhead : ∀ s, s ≠ slot → m.cmds.head? = some s → m'.cmds.head? = some s)
    (hcr : m'.crashed = false → m.crashed = false) (hsole : Sole m (some t) slot)
    (hafter : ∀ s, x.hold.slot? = some s → s = slot)
    (hfits : m'.cmdArray slot = c → Fits m' x.hold)
    (howner : m'.crashed = false → slot ∈ m'.cmds → c.waitPush = false →
      x.hold = .pushing slot ∨ x.hold = .waiting slot)
    (hused : m'.crashed = false → slot ∈ m'.cmds → c.used = true) : HoldOk m' := by
  have hself : m'.cmdArray slot = c := by rw [harr, Function.update_self]
  have hhold : m'.hold (some t) = x.hold := hold_some (by rw [hcallers, Function.update_self])
  refine h.of_frame (Frame.caller t slot hcallers hworker harr hmem hhead hcr) hsole ?_ ?_ ?_ ?_
  · rw [hhold]
    exact hafter
  · rw [hhold]
    exact hfits hself
  · rw [hhold, hself]
    exact howner
  · rw [hself]
    exact hused

/-- A step of the worker on its command. -/
theorem worker (h : HoldOk m) (slot : Nat) {x : Worker} {c : RwnxCmd}
    (hcallers : m'.callers = m.callers)
    (hworker : m'.worker = x) (harr : m'.cmdArray = Function.update m.cmdArray slot c)
    (hmem : ∀ s, s ≠ slot → (s ∈ m'.cmds ↔ s ∈ m.cmds))
    (hhead : ∀ s, s ≠ slot → m.cmds.head? = some s → m'.cmds.head? = some s)
    (hcr : m'.crashed = false → m.crashed = false) (hsole : Sole m none slot)
    (hafter : ∀ s, x.hold.slot? = some s → s = slot)
    (hfits : m'.cmdArray slot = c → Fits m' x.hold)
    (howner : m'.crashed = false → slot ∈ m'.cmds → c.waitPush = false →
      x.hold = .pushing slot ∨ x.hold = .waiting slot)
    (hused : m'.crashed = false → slot ∈ m'.cmds → c.used = true) : HoldOk m' := by
  have hself : m'.cmdArray slot = c := by rw [harr, Function.update_self]
  have hhold : m'.hold none = x.hold := hold_none hworker
  refine h.of_frame (Frame.worker slot hcallers harr hmem hhead hcr) hsole ?_ ?_ ?_ ?_
  · rw [hhold]
    exact hafter
  · rw [hhold]
    exact hfits hself
  · rw [hhold, hself]
    exact howner
  · rw [hself]
    exact hused

end HoldOk

end LonganPi.Wifi
