import LonganPi.Iommu.Pgtable
import LonganPi.Lib.Ownership

/-!
# The invariant of the page table

What holds of the memory of `LonganPi.Iommu.Pgtable` between two calls, and
what a walk of it finds.

* `WellFormed` says that the directory entries own the L2 tables.
* `leafWord` is the leaf that a walk of the table finds for an address.
* The last sections say what the three building blocks of every function do
  to both: writing a run of leaves, giving an entry a fresh table, and
  giving a table back.

The functions themselves are specified in `LonganPi.Iommu.PgtableOps`, from
these blocks.
-/

namespace LonganPi.Iommu

open Ownership

variable {L : PgtableLayout} {s : Pgtable}

/-! ## Replaying events -/

/-- Do the events one after another. -/
def Pgtable.performs (L : PgtableLayout) (s : Pgtable) (evs : List Event) :
    Pgtable :=
  evs.foldl (Pgtable.perform L) s

@[simp] theorem performs_nil (s : Pgtable) : s.performs L [] = s := rfl

@[simp] theorem performs_cons (s : Pgtable) (e : Event) (evs : List Event) :
    s.performs L (e :: evs) = (s.perform L e).performs L evs := rfl

theorem performs_append (s : Pgtable) (evs evs' : List Event) :
    s.performs L (evs ++ evs') = (s.performs L evs).performs L evs' :=
  List.foldl_append

theorem performs_trace (s : Pgtable) (evs : List Event) :
    (s.performs L evs).trace = s.trace ++ evs := by
  induction evs generalizing s with
  | nil => simp
  | cons e evs ih =>
    rw [performs_cons, ih]
    simp [Pgtable.perform]

@[simp] theorem perform_storeDent_pgtable (s : Pgtable) (i val : Nat) :
    (s.perform L (.storeDent i val)).pgtable
      = Function.update s.pgtable i val := rfl

@[simp] theorem perform_storeDent_tables (s : Pgtable) (i val : Nat) :
    (s.perform L (.storeDent i val)).tables = s.tables := rfl

@[simp] theorem perform_freeTable_pgtable (s : Pgtable) (pa : Nat) :
    (s.perform L (.freeTable pa)).pgtable = s.pgtable := rfl

@[simp] theorem perform_freeTable_tables (s : Pgtable) (pa : Nat) :
    (s.perform L (.freeTable pa)).tables
      = Function.update s.tables pa none := rfl

@[simp] theorem perform_allocTable_pgtable (s : Pgtable) (pa : Nat) :
    (s.perform L (.allocTable pa)).pgtable = s.pgtable := rfl

@[simp] theorem perform_allocTable_tables (s : Pgtable) (pa : Nat) :
    (s.perform L (.allocTable pa)).tables
      = Function.update s.tables pa (some fun _ => 0) := rfl

@[simp] theorem perform_storeLeaf_pgtable (s : Pgtable) (addr val : Nat) :
    (s.perform L (.storeLeaf addr val)).pgtable = s.pgtable := rfl

/-! ## The invariant -/

/-- The table that the directory entry `i` owns, if it is valid. -/
def dentOwner (L : PgtableLayout) (pgtable : Nat → Nat) (i : Nat) :
    Option Nat :=
  if i < numEntriesPde L ∧ IsValid (pgtable i) then
    some (tableOf L (pgtable i))
  else none

/-- The directory entries own the allocated tables. -/
structure WellFormed (L : PgtableLayout) (s : Pgtable) : Prop where
  /-- Every directory entry is 0 or valid. -/
  zero_or_valid : ∀ i < numEntriesPde L,
    s.pgtable i = 0 ∨ IsValid (s.pgtable i)
  /-- Valid entries and allocated tables correspond one to one. -/
  owns : Owns (dentOwner L s.pgtable) s.tables
  /-- Tables are aligned to their size. -/
  aligned : ∀ pa t, s.tables pa = some t → pa % ptSize L = 0

theorem dentOwner_of_valid {pgtable : Nat → Nat} {i : Nat}
    (hi : i < numEntriesPde L) (hv : IsValid (pgtable i)) :
    dentOwner L pgtable i = some (tableOf L (pgtable i)) :=
  if_pos ⟨hi, hv⟩

theorem dentOwner_of_not_valid {pgtable : Nat → Nat} {i : Nat}
    (hv : ¬ IsValid (pgtable i)) : dentOwner L pgtable i = none :=
  if_neg fun h => hv h.2

theorem dentOwner_eq_some {pgtable : Nat → Nat} {i pa : Nat}
    (h : dentOwner L pgtable i = some pa) :
    i < numEntriesPde L ∧ IsValid (pgtable i) ∧
      tableOf L (pgtable i) = pa := by
  unfold dentOwner at h
  split_ifs at h with hc
  exact ⟨hc.1, hc.2, by simpa using h⟩

/-- Storing an entry changes what that entry owns, and nothing else. -/
theorem dentOwner_update {pgtable : Nat → Nat} {i val : Nat}
    {o : Option Nat} (ho : dentOwner L (fun _ => val) i = o) :
    dentOwner L (Function.update pgtable i val)
      = Function.update (dentOwner L pgtable) i o := by
  funext j
  by_cases hj : j = i
  · subst hj
    rw [Function.update_self, ← ho]
    unfold dentOwner
    rw [Function.update_self]
  · rw [Function.update_of_ne hj]
    unfold dentOwner
    rw [Function.update_of_ne hj]

namespace WellFormed

/-- A valid entry points to an allocated table. -/
theorem table_of_valid (hwf : WellFormed L s) {i : Nat}
    (hi : i < numEntriesPde L) (hv : IsValid (s.pgtable i)) :
    ∃ t, s.tables (tableOf L (s.pgtable i)) = some t :=
  hwf.owns.live (dentOwner_of_valid hi hv)

/-- Valid entries at different places point to different tables. -/
theorem eq_of_same_table (hwf : WellFormed L s) {i j : Nat}
    (hi : i < numEntriesPde L) (hj : j < numEntriesPde L)
    (hvi : IsValid (s.pgtable i)) (hvj : IsValid (s.pgtable j))
    (h : tableOf L (s.pgtable i) = tableOf L (s.pgtable j)) : i = j :=
  hwf.owns.unique (dentOwner_of_valid hi hvi)
    (by rw [h]; exact dentOwner_of_valid hj hvj)

end WellFormed

/-- The zeroed directory is well formed. -/
theorem wellFormed_alloc (L : PgtableLayout) (slab : List (Option Nat)) :
    WellFormed L (sunxiPgtableAlloc slab) where
  zero_or_valid _ _ := Or.inl rfl
  owns := by
    have h : dentOwner L (sunxiPgtableAlloc slab).pgtable = fun _ => none :=
      funext fun _ => dentOwner_of_not_valid not_isValid_zero
    rw [h]
    exact owns_empty
  aligned _ _ h := by simp [sunxiPgtableAlloc] at h

/-! ## The leaf of an address -/

/-- The leaf that a walk of the page table finds for `iova`: 0 when the
directory entry is not valid. -/
def leafWord (L : PgtableLayout) (s : Pgtable) (iova : Nat) : Nat :=
  if IsValid (s.pgtable (iopdeIndex L iova)) then
    match s.tables (tableOf L (s.pgtable (iopdeIndex L iova))) with
    | some t => t (iopteIndex L iova)
    | none => 0
  else 0

theorem leafWord_of_table {iova : Nat} {t : Nat → Nat}
    (hv : IsValid (s.pgtable (iopdeIndex L iova)))
    (ht : s.tables (tableOf L (s.pgtable (iopdeIndex L iova))) = some t) :
    leafWord L s iova = t (iopteIndex L iova) := by
  unfold leafWord
  rw [if_pos hv, ht]

theorem leafWord_of_not_valid {iova : Nat}
    (hv : ¬ IsValid (s.pgtable (iopdeIndex L iova))) :
    leafWord L s iova = 0 := if_neg hv

/-- The leaf of an address is that of the first byte of its page. -/
theorem leafWord_page (a : Nat) :
    leafWord L s a = leafWord L s (a / 4096 * 4096) := by
  have hdir : iopdeIndex L a = iopdeIndex L (a / 4096 * 4096) := by
    simp only [iopdeIndex_eq]
    cases L <;> simp only [spdSize_v1, spdSize_v2] <;> omega
  have hslot : iopteIndex L a = iopteIndex L (a / 4096 * 4096) := by
    rw [iopteIndex_eq, iopteIndex_eq, Nat.mul_div_cancel _ (by decide)]
  unfold leafWord
  rw [hdir, hslot]

/-- A leaf pointer falls apart into its table and its slot. -/
theorem leafTable_add {pa idx : Nat} (hal : pa % ptSize L = 0)
    (hidx : idx < numEntriesPte L) : leafTable L (pa + 4 * idx) = pa := by
  unfold leafTable
  cases L <;> simp at hal hidx ⊢ <;> omega

theorem leafSlot_add {pa idx : Nat} (hal : pa % ptSize L = 0)
    (hidx : idx < numEntriesPte L) : leafSlot L (pa + 4 * idx) = idx := by
  unfold leafSlot
  cases L <;> simp at hal hidx ⊢ <;> omega

/-- A walk finds a table behind every valid entry.  Entries may share
tables. -/
structure Walkable (L : PgtableLayout) (s : Pgtable) : Prop where
  table : ∀ i < numEntriesPde L, IsValid (s.pgtable i) →
    ∃ t, s.tables (tableOf L (s.pgtable i)) = some t
  aligned : ∀ pa t, s.tables pa = some t → pa % ptSize L = 0

theorem WellFormed.walkable (hwf : WellFormed L s) : Walkable L s where
  table _ hi hv := hwf.table_of_valid hi hv
  aligned := hwf.aligned

/-- A read of a leaf of an allocated table. -/
theorem Walkable.readLeaf_eq (hs : Walkable L s) {pa idx : Nat} {t : Nat → Nat}
    (ht : s.tables pa = some t) (hidx : idx < numEntriesPte L) :
    s.readLeaf L (pa + 4 * idx) = .ok (t idx) := by
  unfold Pgtable.readLeaf
  rw [leafTable_add (hs.aligned _ _ ht) hidx,
    leafSlot_add (hs.aligned _ _ ht) hidx, ht]

/-- `sunxi_pgtable_iova_to_phys` reads `leafWord` and decodes it. -/
theorem Walkable.iovaToPhys_eq (hs : Walkable L s) (iova : Nat) :
    sunxiPgtableIovaToPhys L s iova = .ok
      (if leafWord L s iova ≠ 0 then
        iommuPhyToCpuPhy L
          (iopteToPfn L (leafWord L s iova) + iovaPageOft iova)
      else 0) := by
  unfold sunxiPgtableIovaToPhys
  by_cases hv : IsValid (s.pgtable (iopdeIndex L iova))
  · obtain ⟨t, ht⟩ := hs.table _ (iopdeIndex_lt L iova) hv
    have hread : s.readLeaf L
        (iopteOffset L (s.pgtable (iopdeIndex L iova)) iova)
        = .ok (leafWord L s iova) := by
      rw [iopteOffset_eq, hs.readLeaf_eq ht (iopteIndex_lt L iova),
        leafWord_of_table hv ht]
    rw [if_pos hv]
    simp only [Pgtable.leafPtr, if_pos hv, hread, bind, Except.bind]
    split_ifs <;> rfl
  · rw [if_neg hv, leafWord_of_not_valid hv]
    rfl

theorem sunxiPgtableIovaToPhys_eq (hwf : WellFormed L s) (iova : Nat) :
    sunxiPgtableIovaToPhys L s iova = .ok
      (if leafWord L s iova ≠ 0 then
        iommuPhyToCpuPhy L
          (iopteToPfn L (leafWord L s iova) + iovaPageOft iova)
      else 0) :=
  hwf.walkable.iovaToPhys_eq iova

/-! ## Writing a run of leaves -/

/-- The events of `storeLeaves`. -/
def leafStores (f : Nat → Nat) : Nat → Nat → Nat → List Event
  | 0, _, _ => []
  | count + 1, i, pent =>
    .storeLeaf pent (u32 (f i)) :: leafStores f count (i + 1) (pent + 4)

/-- The words of a table after `count` leaves from slot `idx` were
written. -/
def tableAfter (f : Nat → Nat) (i idx count : Nat) (t : Nat → Nat) :
    Nat → Nat :=
  fun j => if idx ≤ j ∧ j < idx + count then u32 (f (i + (j - idx))) else t j

/-- Storing one leaf of an allocated table. -/
theorem perform_storeLeaf_tables {pa idx val : Nat} {t : Nat → Nat}
    (hal : pa % ptSize L = 0) (ht : s.tables pa = some t)
    (hidx : idx < numEntriesPte L) :
    (s.perform L (.storeLeaf (pa + 4 * idx) val)).tables
      = Function.update s.tables pa (some (Function.update t idx val)) := by
  unfold Pgtable.perform Event.apply
  simp only [leafTable_add hal hidx, leafSlot_add hal hidx, ht,
    Option.map_some]

theorem performs_leafStores_tables {pa idx count i : Nat} {f t : Nat → Nat}
    (hal : pa % ptSize L = 0) (ht : s.tables pa = some t)
    (hb : idx + count ≤ numEntriesPte L) :
    (s.performs L (leafStores f count i (pa + 4 * idx))).tables
      = Function.update s.tables pa (some (tableAfter f i idx count t)) := by
  induction count generalizing i idx s t with
  | zero =>
    have hsame : tableAfter f i idx 0 t = t := by
      funext j
      exact if_neg (by omega)
    rw [hsame]
    simp [leafStores, ← ht]
  | succ count ih =>
    have hlt : idx < numEntriesPte L := by omega
    set s₁ := s.perform L (.storeLeaf (pa + 4 * idx) (u32 (f i))) with hs₁
    have htab : s₁.tables
        = Function.update s.tables pa
            (some (Function.update t idx (u32 (f i)))) :=
      perform_storeLeaf_tables hal ht hlt
    have ht₁ : s₁.tables pa = some (Function.update t idx (u32 (f i))) := by
      rw [htab, Function.update_self]
    have hptr : pa + 4 * idx + 4 = pa + 4 * (idx + 1) := by omega
    have hbound : idx + 1 + count ≤ numEntriesPte L := by omega
    have hrun := ih (i := i + 1) ht₁ hbound
    -- The first leaf is the one that the later rounds do not write.
    have hsplit : tableAfter f (i + 1) (idx + 1) count
        (Function.update t idx (u32 (f i)))
        = tableAfter f i idx (count + 1) t := by
      funext j
      unfold tableAfter
      by_cases hj : j = idx
      · subst hj
        rw [if_neg (by omega), if_pos (by omega), Function.update_self,
          Nat.sub_self, Nat.add_zero]
      · by_cases hin : idx + 1 ≤ j ∧ j < idx + 1 + count
        · rw [if_pos hin, if_pos (by omega)]
          have : i + 1 + (j - (idx + 1)) = i + (j - idx) := by omega
          rw [this]
        · rw [if_neg hin, if_neg (by omega), Function.update_of_ne hj]
    simp only [leafStores, performs_cons, hptr]
    rw [← hs₁, hrun, htab, hsplit, Function.update_idem]

theorem performs_leafStores_pgtable {f : Nat → Nat} {count i pent : Nat} :
    (s.performs L (leafStores f count i pent)).pgtable = s.pgtable := by
  induction count generalizing i pent s with
  | zero => rfl
  | succ count ih =>
    simp only [leafStores, performs_cons, ih, perform_storeLeaf_pgtable]

/-- Writing a run of leaves into an allocated table does not fault: it does
the events of `leafStores`. -/
theorem storeLeaves_eq {pa idx count i : Nat} {f t : Nat → Nat}
    (hal : pa % ptSize L = 0) (ht : s.tables pa = some t)
    (hb : idx + count ≤ numEntriesPte L) :
    storeLeaves L f count i (pa + 4 * idx) s
      = .ok (s.performs L (leafStores f count i (pa + 4 * idx))) := by
  induction count generalizing i idx s t with
  | zero => rfl
  | succ count ih =>
    have hlt : idx < numEntriesPte L := by omega
    have hwrite : s.writeLeaf L (pa + 4 * idx) (f i)
        = .ok (s.perform L (.storeLeaf (pa + 4 * idx) (u32 (f i)))) := by
      unfold Pgtable.writeLeaf
      rw [leafTable_add hal hlt, ht]
    have ht₁ : (s.perform L (.storeLeaf (pa + 4 * idx) (u32 (f i)))).tables pa
        = some (Function.update t idx (u32 (f i))) := by
      rw [perform_storeLeaf_tables hal ht hlt, Function.update_self]
    have hptr : pa + 4 * idx + 4 = pa + 4 * (idx + 1) := by omega
    simp only [storeLeaves, leafStores, performs_cons, hwrite, hptr, bind,
      Except.bind]
    exact ih ht₁ (by omega)

/-- Writing leaves keeps the invariant. -/
theorem WellFormed.leafStores (hwf : WellFormed L s) {i j idx count : Nat}
    {f : Nat → Nat} (hi : i < numEntriesPde L) (hv : IsValid (s.pgtable i))
    (hb : idx + count ≤ numEntriesPte L) :
    WellFormed L (s.performs L
      (leafStores f count j (tableOf L (s.pgtable i) + 4 * idx))) := by
  obtain ⟨t, ht⟩ := hwf.table_of_valid hi hv
  have htab := performs_leafStores_tables (f := f) (i := j)
    (hwf.aligned _ _ ht) ht hb
  constructor
  · rw [performs_leafStores_pgtable]
    exact hwf.zero_or_valid
  · rw [performs_leafStores_pgtable, htab]
    exact hwf.owns.store _ ht
  · intro pa t' ht'
    rw [htab] at ht'
    by_cases hpa : pa = tableOf L (s.pgtable i)
    · rw [hpa]
      exact hwf.aligned _ _ ht
    · rw [Function.update_of_ne hpa] at ht'
      exact hwf.aligned _ _ ht'

/-- Writing leaves through the entry `i` changes the leaves of that entry
in the slots written, and no other leaf. -/
theorem leafWord_leafStores (hwf : WellFormed L s) {i j idx count : Nat}
    {f : Nat → Nat} (hi : i < numEntriesPde L) (hv : IsValid (s.pgtable i))
    (hb : idx + count ≤ numEntriesPte L) (iova : Nat) :
    leafWord L (s.performs L
        (leafStores f count j (tableOf L (s.pgtable i) + 4 * idx))) iova
      = if iopdeIndex L iova = i ∧ idx ≤ iopteIndex L iova ∧
          iopteIndex L iova < idx + count
        then u32 (f (j + (iopteIndex L iova - idx)))
        else leafWord L s iova := by
  obtain ⟨t, ht⟩ := hwf.table_of_valid hi hv
  have htab := performs_leafStores_tables (f := f) (i := j)
    (hwf.aligned _ _ ht) ht hb
  by_cases hvi : IsValid (s.pgtable (iopdeIndex L iova))
  · obtain ⟨t', ht'⟩ := hwf.table_of_valid (iopdeIndex_lt L iova) hvi
    by_cases hsame : iopdeIndex L iova = i
    · -- The walk goes through the table that was written.
      subst hsame
      rw [leafWord_of_table (t := tableAfter f j idx count t)
        (by rwa [performs_leafStores_pgtable])
        (by rw [performs_leafStores_pgtable, htab, Function.update_self]),
        leafWord_of_table hvi ht]
      unfold tableAfter
      simp only [true_and]
    · have hne : tableOf L (s.pgtable (iopdeIndex L iova))
          ≠ tableOf L (s.pgtable i) := fun h =>
        hsame (hwf.eq_of_same_table (iopdeIndex_lt L iova) hi hvi hv h)
      rw [leafWord_of_table (t := t')
        (by rwa [performs_leafStores_pgtable])
        (by rw [performs_leafStores_pgtable, htab,
          Function.update_of_ne hne, ht']),
        leafWord_of_table hvi ht', if_neg fun h => hsame h.1]
  · have hne : iopdeIndex L iova ≠ i := fun h => hvi (h ▸ hv)
    rw [leafWord_of_not_valid (by rwa [performs_leafStores_pgtable]),
      leafWord_of_not_valid hvi, if_neg fun h => hne h.1]

/-! ## Giving an entry a fresh table -/

/-- The table is zeroed and the entry made for it decodes to it, so the
entry owns it. -/
theorem WellFormed.acquire (hwf : WellFormed L s) {i pa : Nat}
    (hi : i < numEntriesPde L) (hv : ¬ IsValid (s.pgtable i))
    (hfresh : s.tables pa = none) (hal : pa % ptSize L = 0)
    (hw : InPhysWindow L pa) :
    WellFormed L ((s.perform L (.allocTable pa)).perform L
      (.storeDent i (iopteEntry L pa))) := by
  have hvalid := isValid_iopteEntry (L := L) hal
  constructor
  · intro j hj
    rw [perform_storeDent_pgtable, perform_allocTable_pgtable]
    by_cases hji : j = i
    · rw [hji, Function.update_self]
      exact Or.inr hvalid
    · rw [Function.update_of_ne hji]
      exact hwf.zero_or_valid j hj
  · have hown : dentOwner L (fun _ => iopteEntry L pa) i = some pa := by
      rw [dentOwner_of_valid hi hvalid, tableOf_iopteEntry hal hw]
    rw [perform_storeDent_pgtable, perform_storeDent_tables,
      perform_allocTable_pgtable, perform_allocTable_tables,
      dentOwner_update hown]
    exact hwf.owns.acquire _ (dentOwner_of_not_valid hv) hfresh
  · intro pa' t' ht'
    rw [perform_storeDent_tables, perform_allocTable_tables] at ht'
    by_cases hpa : pa' = pa
    · rw [hpa]
      exact hal
    · rw [Function.update_of_ne hpa] at ht'
      exact hwf.aligned _ _ ht'

/-- A fresh table maps nothing, so no leaf changes. -/
theorem leafWord_acquire (hwf : WellFormed L s) {i pa : Nat}
    (hv : ¬ IsValid (s.pgtable i)) (hfresh : s.tables pa = none)
    (hal : pa % ptSize L = 0) (hw : InPhysWindow L pa) (iova : Nat) :
    leafWord L ((s.perform L (.allocTable pa)).perform L
      (.storeDent i (iopteEntry L pa))) iova = leafWord L s iova := by
  by_cases hsame : iopdeIndex L iova = i
  · subst hsame
    rw [leafWord_of_not_valid hv, leafWord_of_table (t := fun _ => 0)]
    · rw [perform_storeDent_pgtable, Function.update_self]
      exact isValid_iopteEntry hal
    · rw [perform_storeDent_pgtable, Function.update_self,
        tableOf_iopteEntry hal hw, perform_storeDent_tables,
        perform_allocTable_tables, Function.update_self]
  · have hpg : ((s.perform L (.allocTable pa)).perform L
        (.storeDent i (iopteEntry L pa))).pgtable (iopdeIndex L iova)
        = s.pgtable (iopdeIndex L iova) := by
      rw [perform_storeDent_pgtable, Function.update_of_ne hsame,
        perform_allocTable_pgtable]
    by_cases hvi : IsValid (s.pgtable (iopdeIndex L iova))
    · obtain ⟨t, ht⟩ := hwf.table_of_valid (iopdeIndex_lt L iova) hvi
      have hne : tableOf L (s.pgtable (iopdeIndex L iova)) ≠ pa := by
        intro h
        rw [h, hfresh] at ht
        cases ht
      rw [leafWord_of_table hvi ht, leafWord_of_table (t := t)]
      · rwa [hpg]
      · rw [hpg, perform_storeDent_tables, perform_allocTable_tables,
          Function.update_of_ne hne, ht]
    · rw [leafWord_of_not_valid hvi, leafWord_of_not_valid (by rwa [hpg])]

/-! ## Giving a table back -/

/-- Clearing the entry and freeing its table keeps the invariant. -/
theorem WellFormed.release (hwf : WellFormed L s) {i : Nat}
    (hi : i < numEntriesPde L) (hv : IsValid (s.pgtable i)) :
    WellFormed L ((s.perform L (.storeDent i 0)).perform L
      (.freeTable (tableOf L (s.pgtable i)))) := by
  constructor
  · intro j hj
    rw [perform_freeTable_pgtable, perform_storeDent_pgtable]
    by_cases hji : j = i
    · rw [hji, Function.update_self]
      exact Or.inl rfl
    · rw [Function.update_of_ne hji]
      exact hwf.zero_or_valid j hj
  · have hown : dentOwner L (fun _ => 0) i = none :=
      dentOwner_of_not_valid not_isValid_zero
    rw [perform_freeTable_pgtable, perform_storeDent_pgtable,
      perform_freeTable_tables, perform_storeDent_tables,
      dentOwner_update hown]
    exact hwf.owns.release (dentOwner_of_valid hi hv)
  · intro pa t ht
    rw [perform_freeTable_tables, perform_storeDent_tables] at ht
    by_cases hpa : pa = tableOf L (s.pgtable i)
    · rw [hpa, Function.update_self] at ht
      cases ht
    · rw [Function.update_of_ne hpa] at ht
      exact hwf.aligned _ _ ht

/-- The leaves below the entry are gone, the others stay. -/
theorem leafWord_release (hwf : WellFormed L s) {i : Nat}
    (hi : i < numEntriesPde L) (hv : IsValid (s.pgtable i)) (iova : Nat) :
    leafWord L ((s.perform L (.storeDent i 0)).perform L
        (.freeTable (tableOf L (s.pgtable i)))) iova
      = if iopdeIndex L iova = i then 0 else leafWord L s iova := by
  by_cases hsame : iopdeIndex L iova = i
  · rw [if_pos hsame, leafWord_of_not_valid]
    rw [perform_freeTable_pgtable, perform_storeDent_pgtable, hsame,
      Function.update_self]
    exact not_isValid_zero
  · have hpg : ((s.perform L (.storeDent i 0)).perform L
        (.freeTable (tableOf L (s.pgtable i)))).pgtable (iopdeIndex L iova)
        = s.pgtable (iopdeIndex L iova) := by
      rw [perform_freeTable_pgtable, perform_storeDent_pgtable,
        Function.update_of_ne hsame]
    rw [if_neg hsame]
    by_cases hvi : IsValid (s.pgtable (iopdeIndex L iova))
    · obtain ⟨t, ht⟩ := hwf.table_of_valid (iopdeIndex_lt L iova) hvi
      have hne : tableOf L (s.pgtable (iopdeIndex L iova))
          ≠ tableOf L (s.pgtable i) := fun h =>
        hsame (hwf.eq_of_same_table (iopdeIndex_lt L iova) hi hvi hv h)
      rw [leafWord_of_table hvi ht, leafWord_of_table (t := t)]
      · rwa [hpg]
      · rw [hpg, perform_freeTable_tables, perform_storeDent_tables,
          Function.update_of_ne hne, ht]
    · rw [leafWord_of_not_valid hvi, leafWord_of_not_valid (by rwa [hpg])]

end LonganPi.Iommu
