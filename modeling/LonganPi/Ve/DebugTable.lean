import LonganPi.Lib.Ownership
import LonganPi.Lib.Transition
import LonganPi.Ve.DebugInfo

/-!
# The debug-info table in every state

The table owns its buffers in the sense of `Ownership.Owns`: each pointer is
live, belongs to one slot, and no buffer is lost.  `TableOk` adds what the
readers of the table rely on: a slot with a key has a buffer of its length,
and a key is in one slot only.

A copy breaks this in two ways.  When the payload cannot be read, the slot
keeps the pointer to the buffer that was just freed.  When there is no
memory, the slot keeps its key and its length without a buffer.
`debugGuard` excludes the two, and `table_safe_iff` says that nothing else
has to be excluded.
-/

namespace LonganPi.Ve

open Ownership Transition

/-- The key of a slot. -/
def DebugHeadInfo.key (h : DebugHeadInfo) : BitVec 32 × BitVec 32 :=
  (h.pid, h.tid)

namespace DebugTable

variable {s s' : DebugTable}

/-- The buffer of a slot. -/
def buffer (s : DebugTable) (i : Slot) : Option Nat := (s.debugInfo i).data

/-- The key of a slot. -/
def key (s : DebugTable) (i : Slot) : BitVec 32 × BitVec 32 :=
  (s.debugInfo i).headInfo.key

/-- What the calls rely on. -/
structure TableOk (s : DebugTable) : Prop where
  /-- A pointer is live. -/
  live : ∀ i a, s.buffer i = some a → ∃ size, s.heap a = some size
  /-- A buffer belongs to one slot. -/
  alone : ∀ i j a, s.buffer i = some a → s.buffer j = some a → i = j
  /-- A slot with a key has a buffer of its length. -/
  keyed : ∀ i, (s.debugInfo i).headInfo.pid ≠ 0 →
    (s.debugInfo i).headInfo.tid ≠ 0 →
    ∃ a, s.buffer i = some a ∧
      s.heap a = some (s.debugInfo i).headInfo.length.toNat
  /-- A key is in one slot. -/
  distinct : ∀ i j, s.key i = s.key j → s.key i ≠ (0, 0) → i = j

/-- The table is in order as long as there is one, and there was no bad
access. -/
structure TableSafe (s : DebugTable) : Prop where
  table : s.exited = false → s.TableOk
  doubleFree : s.doubleFree = false
  badRead : s.badRead = false

/-- The table owns the buffers. -/
def TableInv (s : DebugTable) : Prop :=
  s.exited = false → Owns s.buffer s.heap

/-! ## Slots -/

theorem setSlot_buffer (i : Slot) (d : VeDebugInfo) :
    (s.setSlot i d).buffer = Function.update s.buffer i d.data := by
  funext j
  by_cases hji : j = i
  · subst hji
    simp [buffer, setSlot]
  · simp [buffer, setSlot, hji]

/-- `findSlot` finds a slot with the key. -/
theorem findSlot_some {pid tid : BitVec 32} {i : Slot}
    (h : s.findSlot pid tid = some i) : s.key i = (pid, tid) := by
  have hi := List.find?_some h
  simp only [decide_eq_true_eq] at hi
  exact Prod.ext hi.1 hi.2

/-- `findSlot` fails only when no slot has the key. -/
theorem findSlot_none {pid tid : BitVec 32}
    (h : s.findSlot pid tid = none) (i : Slot) : s.key i ≠ (pid, tid) := by
  have hi := List.find?_eq_none.mp h i (List.mem_finRange i)
  simp only [decide_eq_true_eq] at hi
  intro hkey
  exact hi ⟨congrArg Prod.fst hkey, congrArg Prod.snd hkey⟩

/-- The slot of a copy gets the head that the user gave.  It had the same
key before, or it was free and no slot had the key. -/
theorem curIndex_some {head headInfo : DebugHeadInfo} {i : Slot}
    (h : s.curIndex head = some (i, headInfo)) :
    headInfo = head ∧
      (s.key i = head.key ∨ ∀ j, s.key j ≠ head.key) := by
  unfold curIndex at h
  cases hmatch : s.findSlot head.pid head.tid with
  | some j =>
    rw [hmatch] at h
    obtain ⟨rfl, rfl⟩ := Prod.ext_iff.mp (Option.some.inj h)
    have hkey := findSlot_some hmatch
    refine ⟨?_, Or.inl hkey⟩
    have hpid : (s.debugInfo j).headInfo.pid = head.pid :=
      congrArg Prod.fst hkey
    have htid : (s.debugInfo j).headInfo.tid = head.tid :=
      congrArg Prod.snd hkey
    show DebugHeadInfo.mk _ _ _ = head
    rw [hpid, htid]
  | none =>
    rw [hmatch] at h
    have hnone := findSlot_none hmatch
    cases hfree : s.findSlot 0 0 with
    | none =>
      rw [hfree] at h
      cases h
    | some j =>
      rw [hfree] at h
      obtain ⟨rfl, rfl⟩ := Prod.ext_iff.mp (Option.some.inj h)
      exact ⟨rfl, Or.inr hnone⟩

/-- So no other slot has the key of a copy, unless it is the key of the free
slots. -/
theorem curIndex_distinct (hok : s.TableOk) {head headInfo : DebugHeadInfo}
    {i j : Slot} (h : s.curIndex head = some (i, headInfo)) (hji : j ≠ i)
    (hkey : s.key j = head.key) : head.key = (0, 0) := by
  by_contra hne
  rcases (curIndex_some h).2 with hsame | hnone
  · refine hji (hok.distinct j i ?_ ?_)
    · rw [hkey, hsame]
    · rwa [hkey]
  · exact hnone j hkey

/-! ## Buffers -/

/-- A free of an owned buffer is no double free. -/
theorem vfree_owned {own : Slot → Option Nat} (ho : Owns own s.heap)
    (i : Slot) : s.vfree (own i) = { s with heap := dropped own s.heap i } := by
  unfold vfree dropped
  cases hi : own i with
  | none => rfl
  | some a =>
    obtain ⟨size, hsize⟩ := ho.live hi
    simp only [hsize]

/-- A buffer of `vmalloc` was not in use. -/
theorem vmallocResult_some {length : BitVec 32} {outcome : Option Nat}
    {a : Nat} (h : s.vmallocResult length outcome = some a) :
    s.heap a = none := by
  unfold vmallocResult at h
  cases outcome with
  | none => cases h
  | some b =>
    dsimp only at h
    split_ifs at h with hb
    rw [← Option.some.inj h]
    exact hb.2

/-- A new slot keeps the table in order when its key is new and its buffer
has its length. -/
theorem TableOk.setSlot (hok : s.TableOk) {i : Slot} {d : VeDebugInfo}
    (hslot : s'.debugInfo = Function.update s.debugInfo i d)
    (ho : Owns s'.buffer s'.heap)
    (hframe : ∀ j a, j ≠ i → s.buffer j = some a → s'.heap a = s.heap a)
    (hkeyed : d.headInfo.pid ≠ 0 → d.headInfo.tid ≠ 0 →
      ∃ a, d.data = some a ∧ s'.heap a = some d.headInfo.length.toNat)
    (hdistinct : ∀ j, j ≠ i → s.key j = d.headInfo.key →
      d.headInfo.key = (0, 0)) : s'.TableOk := by
  have hself : s'.debugInfo i = d := by rw [hslot, Function.update_self]
  have hother : ∀ {j}, j ≠ i → s'.debugInfo j = s.debugInfo j := by
    intro j hji
    rw [hslot, Function.update_of_ne hji]
  refine ⟨fun j a hj => ho.live hj, fun j k a hj hk => ho.unique hj hk, ?_, ?_⟩
  · intro j hpid htid
    by_cases hji : j = i
    · subst hji
      rw [hself] at hpid htid
      rw [buffer, hself]
      exact hkeyed hpid htid
    · rw [hother hji] at hpid htid
      obtain ⟨a, ha, hsize⟩ := hok.keyed j hpid htid
      rw [buffer, hother hji]
      exact ⟨a, ha, (hframe j a hji ha).trans hsize⟩
  · intro j k hjk hne
    unfold key at hjk hne
    by_cases hji : j = i <;> by_cases hki : k = i
    · rw [hji, hki]
    · rw [hji, hself] at hjk hne
      rw [hother hki] at hjk
      exact absurd (hdistinct k hki hjk.symm) hne
    · rw [hki, hself, hother hji] at hjk
      rw [hother hji, hjk] at hne
      exact absurd (hdistinct j hji hjk) hne
    · rw [hother hji] at hjk hne
      rw [hother hki] at hjk
      exact hok.distinct j k hjk hne

/-- The order of the table depends on the slots and the heap alone. -/
theorem TableOk.congr (hok : s.TableOk) (hslot : s'.debugInfo = s.debugInfo)
    (hheap : s'.heap = s.heap) : s'.TableOk := by
  have hbuffer : s'.buffer = s.buffer := by
    unfold buffer
    rw [hslot]
  have hkey : s'.key = s.key := by
    unfold key
    rw [hslot]
  refine ⟨?_, ?_, ?_, ?_⟩
  · rw [hbuffer, hheap]
    exact hok.live
  · rw [hbuffer]
    exact hok.alone
  · rw [hslot, hbuffer, hheap]
    exact hok.keyed
  · rw [hkey]
    exact hok.distinct

/-! ## Copy -/

section Copy

variable {head headInfo : DebugHeadInfo} {i : Slot} {outcome : Option Nat}
  {payloadOk : Bool}

/-- The buffer that `vmalloc` gives to a copy into slot `i`, after the old
one is gone. -/
def copyBuffer (s : DebugTable) (i : Slot) (length : BitVec 32)
    (outcome : Option Nat) : Option Nat :=
  (s.vfree (s.buffer i)).vmallocResult length outcome

/-- The condition on a copy that finds a slot.  With a buffer the payload
can be read, and without one the key is not complete. -/
def copyGuard (s : DebugTable) (head : DebugHeadInfo) (outcome : Option Nat)
    (payloadOk : Bool) : Prop :=
  ∀ i headInfo, s.curIndex head = some (i, headInfo) →
    if (s.copyBuffer i head.length outcome).isSome then payloadOk = true
    else head.pid = 0 ∨ head.tid = 0

/-- A copy that finds no slot changes nothing. -/
theorem copy_noSlot (hcur : s.curIndex head = none) :
    (ioctlProcInfoCopy s (some head) outcome payloadOk).1 = s := by
  simp only [ioctlProcInfoCopy, hcur]

/-- The table with the head of slot `i` in place and no buffer. -/
def withoutBuffer (s : DebugTable) (i : Slot) (head : DebugHeadInfo) :
    DebugTable :=
  { s with
    heap := dropped s.buffer s.heap i
    debugInfo := Function.update s.debugInfo i ⟨head, none⟩ }

/-- A copy without memory. -/
theorem copy_noMemory (ho : Owns s.buffer s.heap)
    (hcur : s.curIndex head = some (i, headInfo))
    (hbuf : s.copyBuffer i head.length outcome = none) :
    (ioctlProcInfoCopy s (some head) outcome payloadOk).1
      = s.withoutBuffer i head := by
  obtain ⟨rfl, -⟩ := curIndex_some hcur
  have hfree := vfree_owned ho i
  rw [copyBuffer, hfree] at hbuf
  unfold buffer at hbuf hfree
  simp only [ioctlProcInfoCopy, hcur, hfree, hbuf]
  rfl

/-- The table after `vmalloc` gave the buffer `a` to slot `i`. -/
def withBuffer (s : DebugTable) (i : Slot) (head : DebugHeadInfo) (a : Nat) :
    DebugTable :=
  { s with
    heap := Function.update (dropped s.buffer s.heap i) a
      (some head.length.toNat)
    debugInfo := Function.update s.debugInfo i ⟨head, some a⟩ }

theorem withBuffer_live (s : DebugTable) (i : Slot) (head : DebugHeadInfo)
    (a : Nat) : (s.withBuffer i head a).heap a = some head.length.toNat :=
  Function.update_self _ _ _

/-- A copy with memory.  A payload that cannot be read frees the buffer. -/
theorem copy_memory (ho : Owns s.buffer s.heap)
    (hcur : s.curIndex head = some (i, headInfo)) {a : Nat}
    (hbuf : s.copyBuffer i head.length outcome = some a) :
    (ioctlProcInfoCopy s (some head) outcome payloadOk).1
      = if payloadOk then s.withBuffer i head a
        else (s.withBuffer i head a).vfree (some a) := by
  obtain ⟨rfl, -⟩ := curIndex_some hcur
  have hfree := vfree_owned ho i
  rw [copyBuffer, hfree] at hbuf
  unfold buffer at hbuf hfree
  simp only [ioctlProcInfoCopy, hcur, hfree, hbuf]
  cases payloadOk <;> rfl

/-- The new buffer is none of those that are left. -/
theorem copyBuffer_fresh (ho : Owns s.buffer s.heap) {a : Nat}
    (hbuf : s.copyBuffer i head.length outcome = some a) :
    dropped s.buffer s.heap i a = none := by
  have hnone := vmallocResult_some hbuf
  rwa [vfree_owned ho i] at hnone

theorem withoutBuffer_owns (ho : Owns s.buffer s.heap) (i : Slot)
    (head : DebugHeadInfo) :
    Owns (s.withoutBuffer i head).buffer (s.withoutBuffer i head).heap := by
  show Owns (s.setSlot i ⟨head, none⟩).buffer _
  rw [setSlot_buffer]
  exact ho.drop i

theorem withBuffer_owns (ho : Owns s.buffer s.heap) {a : Nat}
    (hbuf : s.copyBuffer i head.length outcome = some a) :
    Owns (s.withBuffer i head a).buffer (s.withBuffer i head a).heap := by
  have hown := (ho.drop i).acquire (i := i) head.length.toNat
    (Function.update_self i none s.buffer) (copyBuffer_fresh ho hbuf)
  rw [Function.update_idem] at hown
  show Owns (s.setSlot i ⟨head, some a⟩).buffer _
  rw [setSlot_buffer]
  exact hown

/-- Without memory the table stays in order when the key is not complete. -/
theorem noMemory_ok_iff (ho : Owns s.buffer s.heap) (hok : s.TableOk)
    (hcur : s.curIndex head = some (i, headInfo))
    (hbuf : s.copyBuffer i head.length outcome = none) :
    (ioctlProcInfoCopy s (some head) outcome payloadOk).1.TableOk ↔
      head.pid = 0 ∨ head.tid = 0 := by
  rw [copy_noMemory ho hcur hbuf]
  constructor
  · intro hok'
    by_contra hids
    rw [not_or] at hids
    have hself : (s.withoutBuffer i head).debugInfo i = ⟨head, none⟩ :=
      Function.update_self _ _ _
    obtain ⟨a, ha, -⟩ := hok'.keyed i
      (by rw [hself]; exact hids.1) (by rw [hself]; exact hids.2)
    rw [buffer, hself] at ha
    cases ha
  · intro hids
    refine hok.setSlot rfl (withoutBuffer_owns ho i head) ?_ ?_
      fun j hji => curIndex_distinct hok hcur hji
    · intro j a hji hj
      exact ho.dropped_of_ne hj hji
    · intro hpid htid
      exact absurd hids (not_or.mpr ⟨hpid, htid⟩)

/-- With memory and a payload the table stays in order. -/
theorem withBuffer_ok (ho : Owns s.buffer s.heap) (hok : s.TableOk)
    (hcur : s.curIndex head = some (i, headInfo)) {a : Nat}
    (hbuf : s.copyBuffer i head.length outcome = some a) :
    (s.withBuffer i head a).TableOk := by
  refine hok.setSlot rfl (withBuffer_owns ho hbuf) ?_ ?_
    fun j hji => curIndex_distinct hok hcur hji
  · intro j b hji hj
    have hsame := ho.dropped_of_ne hj hji
    have hba : b ≠ a := by
      intro heq
      subst heq
      obtain ⟨size, hsize⟩ := ho.live hj
      rw [← hsame, copyBuffer_fresh ho hbuf] at hsize
      cases hsize
    exact (Function.update_of_ne hba _ _).trans hsame
  · intro _ _
    exact ⟨a, rfl, Function.update_self _ _ _⟩

/-- A buffer that is freed stays in its slot. -/
theorem badPayload_not_ok (s : DebugTable) (i : Slot) (head : DebugHeadInfo)
    (a : Nat) : ¬ ((s.withBuffer i head a).vfree (some a)).TableOk := by
  intro hok
  simp only [vfree, withBuffer_live] at hok
  obtain ⟨size, hsize⟩ := hok.live i a (by simp [buffer, withBuffer])
  simp at hsize

/-- A copy keeps the table in order exactly when it meets its condition. -/
theorem copy_ok_iff (ho : Owns s.buffer s.heap) (hok : s.TableOk) :
    (ioctlProcInfoCopy s (some head) outcome payloadOk).1.TableOk ↔
      s.copyGuard head outcome payloadOk := by
  unfold copyGuard
  cases hcur : s.curIndex head with
  | none =>
    rw [copy_noSlot hcur]
    exact iff_of_true hok fun _ _ h => by cases h
  | some cur =>
    rcases cur with ⟨i, headInfo⟩
    have hguard : (∀ j hd, some (i, headInfo) = some (j, hd) →
          if (s.copyBuffer j head.length outcome).isSome then payloadOk = true
          else head.pid = 0 ∨ head.tid = 0) ↔
        if (s.copyBuffer i head.length outcome).isSome then payloadOk = true
        else head.pid = 0 ∨ head.tid = 0 := by
      refine ⟨fun h => h i headInfo rfl, fun h j hd hj => ?_⟩
      obtain ⟨rfl, rfl⟩ := Prod.ext_iff.mp (Option.some.inj hj)
      exact h
    rw [hguard]
    cases hbuf : s.copyBuffer i head.length outcome with
    | none =>
      rw [noMemory_ok_iff ho hok hcur hbuf]
      simp
    | some a =>
      rw [copy_memory ho hcur hbuf]
      cases payloadOk with
      | true => simpa using withBuffer_ok ho hok hcur hbuf
      | false => simpa using badPayload_not_ok s i head a

/-- A copy that leaves the table in order owns its buffers. -/
theorem copy_owns (ho : Owns s.buffer s.heap)
    (hok' : (ioctlProcInfoCopy s (some head) outcome payloadOk).1.TableOk) :
    Owns (ioctlProcInfoCopy s (some head) outcome payloadOk).1.buffer
      (ioctlProcInfoCopy s (some head) outcome payloadOk).1.heap := by
  cases hcur : s.curIndex head with
  | none => rwa [copy_noSlot hcur]
  | some cur =>
    rcases cur with ⟨i, headInfo⟩
    cases hbuf : s.copyBuffer i head.length outcome with
    | none =>
      rw [copy_noMemory ho hcur hbuf]
      exact withoutBuffer_owns ho i head
    | some a =>
      rw [copy_memory ho hcur hbuf] at hok' ⊢
      cases payloadOk with
      | true => exact withBuffer_owns ho hbuf
      | false => exact absurd hok' (badPayload_not_ok s i head a)

/-- No copy frees a buffer twice, and no copy reads one. -/
theorem copy_frame (ho : Owns s.buffer s.heap) (head : DebugHeadInfo)
    (outcome : Option Nat) (payloadOk : Bool) :
    (ioctlProcInfoCopy s (some head) outcome payloadOk).1.doubleFree
        = s.doubleFree ∧
      (ioctlProcInfoCopy s (some head) outcome payloadOk).1.badRead
        = s.badRead ∧
      (ioctlProcInfoCopy s (some head) outcome payloadOk).1.exited
        = s.exited := by
  cases hcur : s.curIndex head with
  | none =>
    rw [copy_noSlot hcur]
    exact ⟨rfl, rfl, rfl⟩
  | some cur =>
    rcases cur with ⟨i, headInfo⟩
    cases hbuf : s.copyBuffer i head.length outcome with
    | none =>
      rw [copy_noMemory ho hcur hbuf]
      exact ⟨rfl, rfl, rfl⟩
    | some a =>
      rw [copy_memory ho hcur hbuf]
      cases payloadOk with
      | true => exact ⟨rfl, rfl, rfl⟩
      | false =>
        simp only [vfree, withBuffer_live]
        exact ⟨rfl, rfl, rfl⟩

end Copy

/-! ## Stop, show and exit -/

/-- A stop empties a slot or changes nothing. -/
theorem stop_cases (ho : Owns s.buffer s.heap) (head : Option DebugHeadInfo) :
    (ioctlProcInfoStop s head).1 = s ∨
      ∃ i, (ioctlProcInfoStop s head).1 = s.withoutBuffer i ⟨0, 0, 0⟩ := by
  cases head with
  | none => exact Or.inl rfl
  | some head =>
    cases hmatch : s.findSlot head.pid head.tid with
    | none =>
      simp only [ioctlProcInfoStop, hmatch]
      exact Or.inl trivial
    | some i =>
      have hfree := vfree_owned ho i
      unfold buffer at hfree
      simp only [ioctlProcInfoStop, hmatch, hfree]
      exact Or.inr ⟨i, rfl⟩

/-- An empty slot keeps the table in order. -/
theorem emptySlot_ok (ho : Owns s.buffer s.heap) (hok : s.TableOk) (i : Slot) :
    (s.withoutBuffer i ⟨0, 0, 0⟩).TableOk := by
  refine hok.setSlot rfl (withoutBuffer_owns ho i _) ?_ ?_ ?_
  · intro j a hji hj
    exact ho.dropped_of_ne hj hji
  · intro hpid _
    exact absurd rfl hpid
  · intro _ _ _
    rfl

/-- `ve_info_show` reads only the buffers of slots with a key. -/
theorem showLoop_ok (hok : s.TableOk) (is : List Slot) (nTotalSize : Nat) :
    showLoop s is nTotalSize = false := by
  induction is generalizing nTotalSize with
  | nil => rfl
  | cons i is ih =>
    unfold showLoop
    dsimp only
    split_ifs with hids hpage
    · rfl
    · obtain ⟨a, ha, hsize⟩ := hok.keyed i hids.1 hids.2
      unfold buffer at ha
      rw [ih, Bool.or_false]
      simp [badSlot, ha, hsize]
    · exact ih _

/-- The exit frees the buffers of the slots that are left, each once, and
then no buffer is live. -/
theorem exitLoop_frees {is : List Slot} (hnd : is.Nodup)
    (ho : Owns (fun i => if i ∈ is then s.buffer i else none) s.heap) :
    (exitLoop is s).doubleFree = s.doubleFree ∧
      (exitLoop is s).badRead = s.badRead ∧
      ∀ a, (exitLoop is s).heap a = none := by
  induction is generalizing s with
  | nil =>
    refine ⟨rfl, rfl, fun a => ?_⟩
    by_contra hlive
    obtain ⟨size, hsize⟩ := Option.ne_none_iff_exists'.mp hlive
    obtain ⟨i, hi⟩ := ho.covered hsize
    simp at hi
  | cons i is ih =>
    obtain ⟨hnot, hnd'⟩ := List.nodup_cons.mp hnd
    have hfree := vfree_owned ho i
    simp only [List.mem_cons_self, if_true] at hfree
    have hrest : Function.update
        (fun j => if j ∈ i :: is then s.buffer j else none) i none
          = fun j => if j ∈ is then s.buffer j else none := by
      funext j
      by_cases hji : j = i
      · subst hji
        simp [hnot]
      · simp [hji]
    have hdrop := ho.drop i
    rw [hrest] at hdrop
    have hcons : exitLoop (i :: is) s = exitLoop is { s with
        heap := dropped (fun j => if j ∈ i :: is then s.buffer j else none)
          s.heap i } := by
      show exitLoop is (s.vfree (s.buffer i)) = _
      rw [hfree]
    rw [hcons]
    exact ih hnd' hdrop

/-- `cedardev_exit` frees every buffer once. -/
theorem cedardevExit_frees (ho : Owns s.buffer s.heap) :
    (cedardevExit s).doubleFree = s.doubleFree ∧
      (cedardevExit s).badRead = s.badRead ∧
      ∀ a, (cedardevExit s).heap a = none := by
  refine exitLoop_frees (List.nodup_finRange _) ?_
  simpa using ho

/-! ## Runs -/

/-- The condition on a call under which the table stays in order. -/
def debugGuard (s : DebugTable) : DebugOp → Prop
  | .copy (some head) outcome payloadOk => s.copyGuard head outcome payloadOk
  | _ => True

/-- A step keeps the table in order exactly when it meets the condition, and
then the table still owns its buffers. -/
theorem debugStep_safe_iff (hinv : s.TableInv) (hsafe : s.TableSafe)
    {op : DebugOp} (hstep : debugStep s op = some s') :
    (s'.TableSafe ↔ s.debugGuard op) ∧ (s'.TableSafe → s'.TableInv) := by
  unfold debugStep at hstep
  cases hexit : s.exited with
  | true => simp [hexit] at hstep
  | false =>
    have ho := hinv hexit
    have hok := hsafe.table hexit
    rw [hexit, if_neg (by simp)] at hstep
    cases op with
    | copy head outcome payloadOk =>
      cases head with
      | none =>
        obtain rfl := Option.some.inj hstep
        exact ⟨iff_of_true hsafe trivial, fun _ => hinv⟩
      | some head =>
        obtain rfl := Option.some.inj hstep
        obtain ⟨hdouble, hread, hexit'⟩ :=
          copy_frame ho head outcome payloadOk
        rw [hexit] at hexit'
        constructor
        · rw [debugGuard, ← copy_ok_iff ho hok]
          exact ⟨fun h => h.table hexit', fun h =>
            ⟨fun _ => h, hdouble.trans hsafe.doubleFree,
              hread.trans hsafe.badRead⟩⟩
        · exact fun h _ => copy_owns ho (h.table hexit')
    | stop head =>
      have hs' := Option.some.inj hstep
      rcases stop_cases ho head with hsame | ⟨i, hempty⟩
      · rw [hsame] at hs'
        subst hs'
        exact ⟨iff_of_true hsafe trivial, fun _ => hinv⟩
      · rw [hempty] at hs'
        subst hs'
        exact ⟨iff_of_true ⟨fun _ => emptySlot_ok ho hok i,
          hsafe.doubleFree, hsafe.badRead⟩ trivial,
          fun _ _ => withoutBuffer_owns ho i _⟩
    | infoShow =>
      obtain rfl := Option.some.inj hstep
      have hread : (veInfoShow s).badRead = false := by
        show (s.badRead || showLoop s _ 0) = false
        rw [hsafe.badRead, showLoop_ok hok]
        rfl
      exact ⟨iff_of_true ⟨fun _ => hok.congr rfl rfl, hsafe.doubleFree,
        hread⟩ trivial,
        fun _ => hinv⟩
    | exit =>
      obtain rfl := Option.some.inj hstep
      obtain ⟨hdouble, hread, -⟩ := cedardevExit_frees ho
      have hgone : (cedardevExit s).exited ≠ false := by
        show true ≠ false
        decide
      exact ⟨iff_of_true ⟨fun h => absurd h hgone,
        hdouble.trans hsafe.doubleFree, hread.trans hsafe.badRead⟩ trivial,
        fun _ h => absurd h hgone⟩

theorem init_safe : init.TableSafe where
  table _ := by
    refine ⟨?_, ?_, ?_, ?_⟩
    · intro i a h
      cases h
    · intro i j a h
      cases h
    · intro i h
      exact absurd rfl h
    · intro i j _ h
      exact absurd rfl h
  doubleFree := rfl
  badRead := rfl

theorem init_inv : init.TableInv := fun _ => owns_empty

end DebugTable

open DebugTable

/-- The debug-info table is in order in every state of a run exactly when
each copy that finds a slot either gets a buffer and its payload, or gets no
buffer and has a key with an id of 0. -/
theorem debugTable_safe_iff (ops : List DebugOp) :
    Always debugStep TableSafe ops init ↔ Guarded debugStep debugGuard ops init :=
  always_iff_guarded (I := TableInv)
    (fun _ _ _ hinv hsafe hstep => (debugStep_safe_iff hinv hsafe hstep).1)
    (fun _ _ _ hinv hsafe hstep => (debugStep_safe_iff hinv hsafe hstep).2)
    init_inv init_safe ops

/-- A copy whose payload cannot be read leaves a pointer to a freed buffer,
which the next stop frees again. -/
theorem copy_stop_doubleFree : ¬ Always debugStep TableSafe
    [.copy (some ⟨1, 1, 16⟩) (some 0x1000) false,
      .stop (some ⟨1, 1, 16⟩)] init := by
  intro h
  have hsafe := (h.of_run rfl).doubleFree
  revert hsafe
  decide

end LonganPi.Ve
