import LonganPi.Errno
import LonganPi.Iommu.Entry
import Mathlib.Data.BitVec

/-!
# The reserved regions of the device tree

A device may have two properties of 64-bit values, `sunxi-iova-reserve` and
`sunxi-iova-premap`.  Each pair of values is a region.  The driver reads the
properties of every device into one list, and gives a copy of the list to
whoever asks for the reserved regions.

The buffer has room for 8 regions, which are 16 values.  The read is limited to
8 values.

* `initReserveMem_eq` is what the driver registers.
* `registersAll_iff` says when that is every region.
-/

namespace LonganPi.Iommu

/-! ## The source -/

/-- `IOMMU_RESV_RESERVED` and `IOMMU_RESV_DIRECT` of the kernel's
`linux/iommu.h`. -/
inductive ResvType where
  | reserved
  | direct
  deriving DecidableEq, Repr

/-- `struct iommu_resv_region`. -/
structure ResvRegion where
  start : BitVec 64
  length : BitVec 64
  prot : Nat
  type : ResvType
  deriving DecidableEq, Repr

/-- What the function prints. -/
inductive ResvMessage where
  | oddSize (count : Int) (name : String)
  | noMemory
  | overlap (walkStart walkEnd regionStart regionEnd : BitVec 64)
  deriving DecidableEq, Repr

/-- A node of the device tree: its properties of `u64` values. -/
abbrev OfNode := String → Option (List (BitVec 64))

/-- The list, the messages, and how many allocations there have been. -/
structure ResvScan where
  rsvList : List ResvRegion
  log : List ResvMessage
  allocs : Nat

/-- `supported_region`. -/
def supportedRegion : List (String × ResvType) :=
  [("sunxi-iova-reserve", .reserved), ("sunxi-iova-premap", .direct)]

/-- `REGION_CNT_MAX`. -/
def regionCntMax : Nat := 8

/-- `prot` of `sunxi_iommu_check_cmd`. -/
def resvProt : Nat := iommuWrite ||| iommuRead

/-- The test for the overlap warning. -/
def ResvRegion.Overlaps (walk region : ResvRegion) : Prop :=
  ¬ (walk.start > region.start + region.length ∨
    walk.start + walk.length < region.start)

instance (walk region : ResvRegion) : Decidable (walk.Overlaps region) :=
  inferInstanceAs (Decidable (¬ _))

/-- The warnings about a new region. -/
def overlapWarnings (rsvList : List ResvRegion) (region : ResvRegion) :
    List ResvMessage :=
  (rsvList.filter fun walk => walk.Overlaps region).map fun walk =>
    .overlap walk.start (walk.start + walk.length) region.start
      (region.start + region.length)

section Source

/- `read vals szMin szMax array` is `of_property_read_variable_u64_array` for a
property with the values `vals`: the result, and the buffer after it.
`alloc n` says whether allocation number `n` succeeds. -/
variable (read : List (BitVec 64) → Nat → Nat → (Nat → BitVec 64) →
  Int × (Nat → BitVec 64)) (alloc : Nat → Bool)

/-- One round of the loop over the regions of a property. -/
def addRegion (region : ResvRegion) (st : ResvScan) : ResvScan :=
  if alloc st.allocs then
    { rsvList := st.rsvList ++ [region]
      log := st.log ++ overlapWarnings st.rsvList region
      allocs := st.allocs + 1 }
  else { st with log := st.log ++ [.noMemory], allocs := st.allocs + 1 }

/-- The region of two neighbours in the buffer. -/
def regionAt (array : Nat → BitVec 64) (type : ResvType) (j : Nat) :
    ResvRegion :=
  ⟨array (j * 2), array (j * 2 + 1), resvProt, type⟩

/-- The loop over the regions, with `n` rounds left. -/
def addRegions (array : Nat → BitVec 64) (type : ResvType) :
    Nat → Nat → ResvScan → ResvScan
  | 0, _, st => st
  | n + 1, j, st =>
    addRegions array type n (j + 1) (addRegion alloc (regionAt array type j) st)

/-- One round of the loop over `supported_region`, with the buffer that the
rounds share. -/
def checkProperty (node : OfNode) (st : ResvScan × (Nat → BitVec 64))
    (p : String × ResvType) : ResvScan × (Nat → BitVec 64) :=
  match node p.1 with
  | none => st
  | some vals =>
    let (count, array) := read vals 0 regionCntMax st.2
    if count ≤ 0 then (st.1, array)
    else if count % 2 ≠ 0 then
      ({ st.1 with log := st.1.log ++ [.oddSize count p.1] }, array)
    else (addRegions alloc array p.2 (count / 2).toNat 0 st.1, array)

/-- `sunxi_iommu_check_cmd`.  The buffer comes from `kzalloc`. -/
def sunxiIommuCheckCmd (node : OfNode) (st : ResvScan) : ResvScan × Int :=
  let ok := alloc st.allocs
  let st := { st with allocs := st.allocs + 1 }
  if ok then
    ((supportedRegion.foldl (checkProperty read alloc node) (st, fun _ => 0)).1, 0)
  else (st, eNomem)

/-- `__init_reserve_mem`: `bus_for_each_dev` stops at the first device with an
error. -/
def initReserveMem : List OfNode → ResvScan → ResvScan × Int
  | [], st => (st, 0)
  | node :: devs, st =>
    let (st, ret) := sunxiIommuCheckCmd read alloc node st
    if ret ≠ 0 then (st, ret) else initReserveMem devs st

/-- The loop of `sunxi_iommu_get_resv_regions`.  The source does not check the
allocation, so `none` is the access through a null pointer. -/
def copyRegions : List ResvRegion → ResvScan → List ResvRegion →
    Option (ResvScan × List ResvRegion)
  | [], st, head => some (st, head)
  | entry :: rest, st, head =>
    if alloc st.allocs then
      copyRegions rest { st with allocs := st.allocs + 1 } (head ++ [entry])
    else none

/-- `sunxi_iommu_get_resv_regions`. -/
def sunxiIommuGetResvRegions (devs : List OfNode) (st : ResvScan)
    (head : List ResvRegion) : Option (ResvScan × List ResvRegion) :=
  let st := if st.rsvList = [] then (initReserveMem read alloc devs st).1 else st
  copyRegions alloc st.rsvList st head

end Source

/-! ## What the properties say -/

/-- A region for each pair of values. -/
def pairRegions (type : ResvType) : List (BitVec 64) → List ResvRegion
  | start :: length :: rest =>
    ⟨start, length, resvProt, type⟩ :: pairRegions type rest
  | _ => []

/-- The values of a property that come in pairs. -/
def OfNode.pairs (node : OfNode) (name : String) : List (BitVec 64) :=
  match node name with
  | some vals => if vals.length % 2 = 0 then vals else []
  | none => []

/-- The regions of a device. -/
def OfNode.regions (node : OfNode) : List ResvRegion :=
  supportedRegion.flatMap fun p => pairRegions p.2 (node.pairs p.1)

/-- The old regions are followed by those of every device. -/
def RegistersAll (read : List (BitVec 64) → Nat → Nat → (Nat → BitVec 64) →
    Int × (Nat → BitVec 64)) (alloc : Nat → Bool) (devs : List OfNode)
    (st : ResvScan) : Prop :=
  (initReserveMem read alloc devs st).1.rsvList =
    st.rsvList ++ devs.flatMap OfNode.regions

/-- Properties with an even number of values have at most 8. -/
def ShortProperties (devs : List OfNode) : Prop :=
  ∀ node ∈ devs, ∀ p ∈ supportedRegion, (node.pairs p.1).length ≤ regionCntMax

/-- What the kernel says about `of_property_read_variable_u64_array` without a
minimum: it fills the buffer and returns the number of values, or it returns an
error when there are more than the maximum.  A property without values may be
an error as well. -/
structure ReadsProperty (read : List (BitVec 64) → Nat → Nat →
    (Nat → BitVec 64) → Int × (Nat → BitVec 64)) : Prop where
  empty : ∀ szMax array, (read [] 0 szMax array).1 ≤ 0
  count : ∀ vals szMax array, vals ≠ [] → vals.length ≤ szMax →
    (read vals 0 szMax array).1 = vals.length
  array : ∀ vals szMax array, vals ≠ [] → vals.length ≤ szMax →
    ∀ i (h : i < vals.length), (read vals 0 szMax array).2 i = vals[i]
  long : ∀ vals szMax array, szMax < vals.length →
    (read vals 0 szMax array).1 < 0

variable {read : List (BitVec 64) → Nat → Nat → (Nat → BitVec 64) →
    Int × (Nat → BitVec 64)} {alloc : Nat → Bool} {node : OfNode}
  {devs : List OfNode} {st : ResvScan} {array : Nat → BitVec 64}
  {type : ResvType} {vals : List (BitVec 64)} {p : String × ResvType}

/-! ## One property -/

theorem addRegions_rsvList (halloc : ∀ n, alloc n = true) (n j : Nat)
    (st : ResvScan) :
    (addRegions alloc array type n j st).rsvList =
      st.rsvList ++ (List.range' j n).map (regionAt array type) := by
  induction n generalizing j st with
  | zero => simp [addRegions]
  | succ n ih =>
    rw [addRegions, ih, addRegion, if_pos (halloc _), List.range'_succ,
      List.map_cons, List.append_assoc, List.singleton_append]

/-- The buffer holds the values from slot `2 * j` on, so the loop finds their
pairs. -/
theorem regionAt_pairs (type : ResvType) (j : Nat) (heven : vals.length % 2 = 0)
    (h : ∀ i (hi : i < vals.length), array (2 * j + i) = vals[i]) :
    (List.range' j (vals.length / 2)).map (regionAt array type) =
      pairRegions type vals := by
  induction vals using pairRegions.induct generalizing j with
  | case1 start length rest ih =>
    have hlen : (start :: length :: rest).length / 2 = rest.length / 2 + 1 := by
      simp only [List.length_cons]
      omega
    have hstart := h 0 (by simp)
    have hlength := h 1 (by simp)
    have hpairs : rest.length % 2 = 0 := by
      simp only [List.length_cons] at heven
      omega
    have hrest := ih (j + 1) hpairs fun i hi => by
      have hi' := h (i + 2) (by simpa using hi)
      rwa [show 2 * j + (i + 2) = 2 * (j + 1) + i by omega] at hi'
    rw [hlen, List.range'_succ, List.map_cons, hrest, pairRegions, regionAt,
      Nat.mul_comm j 2]
    rw [hlength]
    rw [Nat.add_zero] at hstart
    rw [hstart]
    rfl
  | case2 vals hshort =>
    have hnil : vals = [] := by
      match vals, hshort with
      | [], _ => rfl
      | [_], _ => simp at heven
      | a :: b :: rest, hshort => exact absurd rfl (hshort a b rest)
    rw [hnil]
    rfl

theorem length_pairRegions (type : ResvType) (vals : List (BitVec 64)) :
    (pairRegions type vals).length = vals.length / 2 := by
  induction vals using pairRegions.induct with
  | case1 start length rest ih =>
    simp only [pairRegions, List.length_cons, ih]
    omega
  | case2 vals hshort =>
    match vals, hshort with
    | [], _ => rfl
    | [_], _ => simp [pairRegions]
    | a :: b :: rest, hshort => exact absurd rfl (hshort a b rest)

/-- What the driver registers for a property. -/
def OfNode.registered (node : OfNode) (p : String × ResvType) :
    List ResvRegion :=
  if (node.pairs p.1).length ≤ regionCntMax then pairRegions p.2 (node.pairs p.1)
  else []

theorem registered_of_nil (h : node.pairs p.1 = []) : node.registered p = [] := by
  simp [OfNode.registered, h, pairRegions]

theorem pairs_of_even (h : node p.1 = some vals) (heven : vals.length % 2 = 0) :
    node.pairs p.1 = vals := by
  simp [OfNode.pairs, h, heven]

theorem pairs_of_odd (h : node p.1 = some vals) (hodd : vals.length % 2 ≠ 0) :
    node.pairs p.1 = [] := by
  simp [OfNode.pairs, h, hodd]

theorem checkProperty_rsvList (hread : ReadsProperty read)
    (halloc : ∀ n, alloc n = true) (node : OfNode)
    (st : ResvScan × (Nat → BitVec 64)) (p : String × ResvType) :
    (checkProperty read alloc node st p).1.rsvList =
      st.1.rsvList ++ node.registered p := by
  unfold checkProperty
  cases hvals : node p.1 with
  | none =>
    rw [registered_of_nil (by simp [OfNode.pairs, hvals]), List.append_nil]
  | some vals =>
    dsimp only
    by_cases hempty : vals = []
    · subst hempty
      rw [if_pos (hread.empty regionCntMax st.2),
        registered_of_nil (pairs_of_even hvals rfl), List.append_nil]
    by_cases hlong : regionCntMax < vals.length
    · -- the kernel returns an error
      have hcount := hread.long vals regionCntMax st.2 hlong
      have hnone : node.registered p = [] := by
        by_cases heven : vals.length % 2 = 0
        · rw [OfNode.registered, pairs_of_even hvals heven, if_neg (by omega)]
        · exact registered_of_nil (pairs_of_odd hvals heven)
      rw [if_pos (by omega), hnone, List.append_nil]
    · have hle : vals.length ≤ regionCntMax := by omega
      have hcount := hread.count vals regionCntMax st.2 hempty hle
      have hpos := List.length_pos_iff.mpr hempty
      rw [hcount, if_neg (by omega)]
      by_cases heven : vals.length % 2 = 0
      · have hhalf : ((vals.length : Int) / 2).toNat = vals.length / 2 := by
          omega
        have hpairs := regionAt_pairs p.2 0 heven fun i hi => by
          rw [Nat.mul_zero, Nat.zero_add]
          exact hread.array vals regionCntMax st.2 hempty hle i hi
        rw [if_neg (by omega), hhalf, OfNode.registered,
          pairs_of_even hvals heven, if_pos hle, addRegions_rsvList halloc,
          hpairs]
      · rw [if_pos (by omega), registered_of_nil (pairs_of_odd hvals heven),
          List.append_nil]

/-! ## All devices -/

theorem foldl_checkProperty (hread : ReadsProperty read)
    (halloc : ∀ n, alloc n = true) (node : OfNode)
    (l : List (String × ResvType)) (st : ResvScan × (Nat → BitVec 64)) :
    (l.foldl (checkProperty read alloc node) st).1.rsvList =
      st.1.rsvList ++ l.flatMap node.registered := by
  induction l generalizing st with
  | nil => simp
  | cons p l ih =>
    rw [List.foldl_cons, ih, checkProperty_rsvList hread halloc,
      List.append_assoc, List.flatMap_cons]

/-- The driver registers the regions of the properties that it can read. -/
theorem initReserveMem_eq (hread : ReadsProperty read)
    (halloc : ∀ n, alloc n = true) (devs : List OfNode) (st : ResvScan) :
    (initReserveMem read alloc devs st).1.rsvList = st.rsvList ++
        devs.flatMap (fun node => supportedRegion.flatMap node.registered) ∧
      (initReserveMem read alloc devs st).2 = 0 := by
  induction devs generalizing st with
  | nil => simp [initReserveMem]
  | cons node devs ih =>
    have hcmd : sunxiIommuCheckCmd read alloc node st =
        ((supportedRegion.foldl (checkProperty read alloc node)
          ({ st with allocs := st.allocs + 1 }, fun _ => 0)).1, 0) := by
      unfold sunxiIommuCheckCmd
      rw [halloc]
      rfl
    unfold initReserveMem
    rw [hcmd]
    obtain ⟨hlist, hret⟩ := ih (supportedRegion.foldl
      (checkProperty read alloc node)
      ({ st with allocs := st.allocs + 1 }, fun _ => 0)).1
    refine ⟨?_, hret⟩
    show (initReserveMem read alloc devs _).1.rsvList = _
    rw [hlist, foldl_checkProperty hread halloc, List.append_assoc,
      List.flatMap_cons]

/-- Shorter parts give the same whole only when they are the same. -/
theorem flatMap_eq_iff {α β : Type*} {f g : α → List β} (l : List α)
    (hle : ∀ a, (f a).length ≤ (g a).length) :
    l.flatMap f = l.flatMap g ↔ ∀ a ∈ l, f a = g a := by
  induction l with
  | nil => simp
  | cons a l ih =>
    have hrest : ∀ l : List α,
        (l.flatMap f).length ≤ (l.flatMap g).length := by
      intro l
      induction l with
      | nil => simp
      | cons b l ih' =>
        rw [List.flatMap_cons, List.flatMap_cons, List.length_append,
          List.length_append]
        exact Nat.add_le_add (hle b) ih'
    rw [List.flatMap_cons, List.flatMap_cons, List.forall_mem_cons, ← ih]
    constructor
    · intro heq
      have hlength := congrArg List.length heq
      rw [List.length_append, List.length_append] at hlength
      have ha := hle a
      have hl := hrest l
      exact List.append_inj heq (by omega)
    · intro hboth
      rw [hboth.1, hboth.2]

theorem length_registered_le (node : OfNode) (p : String × ResvType) :
    (node.registered p).length ≤ (pairRegions p.2 (node.pairs p.1)).length := by
  unfold OfNode.registered
  split_ifs
  · exact Nat.le_refl _
  · exact Nat.zero_le _

/-- A property is lost when it is too long. -/
theorem registered_eq_iff (node : OfNode) (p : String × ResvType) :
    node.registered p = pairRegions p.2 (node.pairs p.1) ↔
      (node.pairs p.1).length ≤ regionCntMax := by
  unfold OfNode.registered
  split_ifs with hle
  · exact ⟨fun _ => hle, fun _ => rfl⟩
  · refine ⟨fun hnil => ?_, fun hle' => absurd hle' hle⟩
    have hlength := congrArg List.length hnil
    rw [length_pairRegions, List.length_nil, regionCntMax] at *
    omega

/-- No region is lost when no property has more than 8 values. -/
theorem registered_all_iff (devs : List OfNode) :
    devs.flatMap (fun node => supportedRegion.flatMap node.registered) =
        devs.flatMap OfNode.regions ↔
      ShortProperties devs := by
  have hle : ∀ node : OfNode,
      (supportedRegion.flatMap node.registered).length ≤ node.regions.length := by
    intro node
    simp only [supportedRegion, OfNode.regions, List.flatMap_cons,
      List.length_append]
    have h₀ := length_registered_le node ("sunxi-iova-reserve", .reserved)
    have h₁ := length_registered_le node ("sunxi-iova-premap", .direct)
    exact Nat.add_le_add h₀ (Nat.add_le_add h₁ (Nat.le_refl _))
  rw [flatMap_eq_iff devs hle]
  refine forall₂_congr fun node _ => ?_
  rw [OfNode.regions, flatMap_eq_iff _ (length_registered_le node)]
  exact forall₂_congr fun p _ => registered_eq_iff node p

/-- The driver registers every region exactly when no property has more than 8
values. -/
theorem registersAll_iff (hread : ReadsProperty read)
    (halloc : ∀ n, alloc n = true) (devs : List OfNode) (st : ResvScan) :
    RegistersAll read alloc devs st ↔ ShortProperties devs := by
  rw [RegistersAll, (initReserveMem_eq hread halloc devs st).1,
    List.append_cancel_left_eq, registered_all_iff]

/-! ## A property of five regions -/

/-- `of_property_read_variable_u64_array` as the kernel has it, with
`-EOVERFLOW` for a property that does not fit. -/
def ofPropertyReadVariableU64Array (vals : List (BitVec 64)) (szMin szMax : Nat)
    (array : Nat → BitVec 64) : Int × (Nat → BitVec 64) :=
  if vals.length < szMin ∨ szMax < vals.length then (-75, array)
  else (vals.length, fun i => vals.getD i (array i))

theorem ofProperty_reads : ReadsProperty ofPropertyReadVariableU64Array where
  empty szMax array := by simp [ofPropertyReadVariableU64Array]
  count vals szMax array _ hle := by
    rw [ofPropertyReadVariableU64Array, if_neg (by omega)]
  array vals szMax array _ hle i hi := by
    rw [ofPropertyReadVariableU64Array, if_neg (by omega)]
    simp [hi]
  long vals szMax array hlt := by
    rw [ofPropertyReadVariableU64Array, if_pos (Or.inr hlt)]
    show (-75 : Int) < 0
    decide

/-- Five forbidden ranges of 4 KiB. -/
def fiveRanges : OfNode := fun name =>
  if name = "sunxi-iova-reserve" then
    some [0x1000, 0x1000, 0x4000, 0x1000, 0x8000, 0x1000, 0xc000, 0x1000,
      0x10000, 0x1000]
  else none

theorem registersAll_iff_five :
    RegistersAll ofPropertyReadVariableU64Array (fun _ => true) [fiveRanges]
        ⟨[], [], 0⟩ ↔ ShortProperties [fiveRanges] :=
  registersAll_iff ofProperty_reads (fun _ => rfl) [fiveRanges] ⟨[], [], 0⟩

/-- The property fits into the buffer, and no region is registered. -/
theorem fiveRanges_lost :
    (fiveRanges.pairs "sunxi-iova-reserve").length = 10 ∧
    (initReserveMem ofPropertyReadVariableU64Array (fun _ => true) [fiveRanges]
      ⟨[], [], 0⟩).1.rsvList = [] ∧
    ¬ RegistersAll ofPropertyReadVariableU64Array (fun _ => true) [fiveRanges]
      ⟨[], [], 0⟩ := by
  have hten : (fiveRanges.pairs "sunxi-iova-reserve").length = 10 := by decide
  have hlist := (initReserveMem_eq ofProperty_reads (fun _ => rfl) [fiveRanges]
    ⟨[], [], 0⟩).1
  have hnone : supportedRegion.flatMap fiveRanges.registered = [] := by decide
  have hregions : fiveRanges.regions ≠ [] := by decide
  rw [List.flatMap_singleton, hnone, List.append_nil] at hlist
  refine ⟨hten, hlist, fun hall => hregions ?_⟩
  rw [RegistersAll, hlist, List.flatMap_singleton, List.nil_append] at hall
  exact hall.symm

/-! ## The copies -/

theorem copyRegions_eq (halloc : ∀ n, alloc n = true) (l : List ResvRegion)
    (st : ResvScan) (head : List ResvRegion) :
    ∃ st', copyRegions alloc l st head = some (st', head ++ l) ∧
      st'.rsvList = st.rsvList := by
  induction l generalizing st head with
  | nil => exact ⟨st, by rw [copyRegions, List.append_nil], rfl⟩
  | cons entry l ih =>
    obtain ⟨st', hrun, hlist⟩ :=
      ih { st with allocs := st.allocs + 1 } (head ++ [entry])
    refine ⟨st', ?_, hlist⟩
    rw [copyRegions, if_pos (halloc _), hrun, List.append_assoc,
      List.singleton_append]

/-- The first device that asks gets the regions of all devices, and every
later one gets the same list. -/
theorem getResvRegions_eq (hread : ReadsProperty read)
    (halloc : ∀ n, alloc n = true) (hshort : ShortProperties devs)
    (st : ResvScan) (head : List ResvRegion) :
    ∃ st', sunxiIommuGetResvRegions read alloc devs st head =
        some (st', head ++ st'.rsvList) ∧
      st'.rsvList =
        if st.rsvList = [] then devs.flatMap OfNode.regions else st.rsvList := by
  have hinit := (initReserveMem_eq hread halloc devs st).1
  rw [(registered_all_iff devs).mpr hshort] at hinit
  unfold sunxiIommuGetResvRegions
  split_ifs with hempty
  · obtain ⟨st', hrun, hlist⟩ := copyRegions_eq halloc
      (initReserveMem read alloc devs st).1.rsvList
      (initReserveMem read alloc devs st).1 head
    refine ⟨st', by rw [hlist]; exact hrun, ?_⟩
    rw [hlist, hinit, hempty, List.nil_append]
  · obtain ⟨st', hrun, hlist⟩ := copyRegions_eq halloc st.rsvList st head
    exact ⟨st', by rw [hlist]; exact hrun, hlist⟩

end LonganPi.Iommu
