import LonganPi.Ve.DebugTable

/-!
# The page of `ve_info`

`ve_info_show` prints a header of 34 bytes into a page of 4096, and copies the
buffers of the debug-info table behind it.  It stops before the sum of their
lengths is larger than a page.  The sum does not count the header, and it is an
`int`.

* `showEntries_page` is what the loop leaves in the page.
* `showLoop_eq_any` connects it with the loop of `DebugInfo`, which only looks
  for bad reads.
* `showsPrefix_iff` says for which tables the output fits.
-/

namespace LonganPi.Ve

/-- `"********* ve proc info **********\n"`. -/
def showHeader : List (BitVec 8) :=
  "********* ve proc info **********\n".toList.map fun c =>
    BitVec.ofNat 8 c.toNat

/-- The local variables of `ve_info_show`, and its copies into the page: the
offset of each, and the bytes.  The zero that `sprintf` puts behind the header
is not part of the output. -/
structure ShowState where
  count : Nat
  nTotalSize : BitVec 32
  writes : List (Nat × List (BitVec 8))

/-- The test for an entry in use. -/
def VeDebugInfo.shown (d : VeDebugInfo) : Bool :=
  d.headInfo.pid ≠ 0 ∧ d.headInfo.tid ≠ 0

section Source

/- `mem data k` is byte `k` behind the pointer `data`. -/
variable (s : DebugTable) (mem : Option Nat → Nat → BitVec 8)

/-- The bytes that `memcpy` takes from an entry. -/
def VeDebugInfo.bytes (d : VeDebugInfo) : List (BitVec 8) :=
  (List.range d.headInfo.length.toNat).map (mem d.data)

/-- The loop of `ve_info_show` over the entries.  `nTotalSize` is extended by
its sign before it is compared with `PAGE_SIZE`. -/
def showEntries : List VeDebugInfo → ShowState → ShowState
  | [], st => st
  | d :: ds, st =>
    if d.shown then
      let nTotalSize := st.nTotalSize + d.headInfo.length
      if (nTotalSize.signExtend 64).toNat > pageSize then { st with nTotalSize }
      else showEntries ds {
        count := st.count + d.headInfo.length.toNat
        nTotalSize
        writes := st.writes ++ [(st.count, d.bytes mem)] }
    else showEntries ds st

/-- The entries in slot order. -/
def DebugTable.entries : List VeDebugInfo :=
  (List.finRange maxVeDebugInfoNum).map s.debugInfo

/-- `ve_info_show`, with the page that it fills. -/
def veInfoShowPage : ShowState :=
  showEntries mem s.entries
    { count := showHeader.length, nTotalSize := 0, writes := [(0, showHeader)] }

end Source

/-! ## The page -/

/-- A byte of the page after some copies. -/
def pageByte (writes : List (Nat × List (BitVec 8))) (p : Nat) :
    Option (BitVec 8) :=
  writes.foldl (fun b w =>
    if w.1 ≤ p ∧ p < w.1 + w.2.length then w.2[p - w.1]? else b) none

/-- The entries that have an owner, in slot order. -/
def DebugTable.shownEntries (s : DebugTable) : List VeDebugInfo :=
  s.entries.filter VeDebugInfo.shown

/-- The output is the header and the data of the first entries, it fits into
the page, and the result is its length. -/
structure ShowsPrefix (s : DebugTable) (mem : Option Nat → Nat → BitVec 8) :
    Prop where
  inPage : ∀ p, (pageByte (veInfoShowPage s mem).writes p).isSome → p < pageSize
  result : ∀ p, (pageByte (veInfoShowPage s mem).writes p).isSome ↔
    p < (veInfoShowPage s mem).count
  result_le : (veInfoShowPage s mem).count ≤ pageSize
  output : ∃ k, ∀ p, pageByte (veInfoShowPage s mem).writes p =
    (showHeader ++ (s.shownEntries.take k).flatMap (·.bytes mem))[p]?

/-- A copy of the entry is a bad read. -/
def DebugTable.badEntry (s : DebugTable) (d : VeDebugInfo) : Bool :=
  match d.data with
  | none => true
  | some a =>
    match s.heap a with
    | none => true
    | some size => size < d.headInfo.length.toNat

/-- The sums of the lengths of the first entries. -/
def DebugTable.lengthSums (s : DebugTable) : List Nat :=
  (s.shownEntries.map (·.headInfo.length.toNat)).scanl (· + ·) 0

/-- The first sum that does not fit behind the header does not fit into a page
either, nor does it wrap. -/
def FitsPage (s : DebugTable) : Prop :=
  ∀ t, s.lengthSums.find? (fun t => pageSize < showHeader.length + t) = some t →
    pageSize < t ∧ t < 2 ^ 32

variable {s : DebugTable} {mem : Option Nat → Nat → BitVec 8}
  {ds : List VeDebugInfo} {d : VeDebugInfo} {st : ShowState}
  {out : List (BitVec 8)} {total : Nat}

theorem length_showHeader : showHeader.length = 34 := by decide

theorem length_bytes (d : VeDebugInfo) :
    (d.bytes mem).length = d.headInfo.length.toNat := by
  rw [VeDebugInfo.bytes, List.length_map, List.length_range]

/-- The comparison with the page size sees the sum modulo `2 ^ 32`. -/
theorem signExtend_gt_iff (n : BitVec 32) :
    (n.signExtend 64).toNat > pageSize ↔ n.toNat > pageSize := by
  have hlt := n.isLt
  rw [BitVec.toNat_signExtend, pageSize]
  by_cases hneg : n.msb = true
  · have hge := BitVec.le_toNat_of_msb_true hneg
    simp [hneg]
    omega
  · simp [hneg]
    omega

/-! ## The copies -/

/-- The page holds the bytes of `out`, and `count` is their number. -/
structure PageHolds (st : ShowState) (out : List (BitVec 8)) : Prop where
  bytes : ∀ p, pageByte st.writes p = out[p]?
  count : st.count = out.length

theorem PageHolds.copy (h : PageHolds st out) (l : List (BitVec 8))
    (n : BitVec 32) :
    PageHolds ⟨st.count + l.length, n, st.writes ++ [(st.count, l)]⟩
      (out ++ l) where
  bytes p := by
    have hold := h.bytes p
    unfold pageByte at hold ⊢
    rw [List.foldl_append, hold, h.count]
    show (if out.length ≤ p ∧ p < out.length + l.length then
      l[p - out.length]? else out[p]?) = _
    split_ifs with hin
    · rw [List.getElem?_append_right hin.1]
    · by_cases hlt : p < out.length
      · rw [List.getElem?_append_left hlt]
      · rw [List.getElem?_eq_none (by omega),
          List.getElem?_eq_none (by rw [List.length_append]; omega)]
  count := by rw [List.length_append, h.count]

theorem pageHolds_header :
    PageHolds ⟨showHeader.length, 0, [(0, showHeader)]⟩ showHeader where
  bytes p := by
    show (if 0 ≤ p ∧ p < 0 + showHeader.length then showHeader[p - 0]?
      else none) = _
    split_ifs with hin
    · rw [Nat.sub_zero]
    · rw [List.getElem?_eq_none (by omega)]
  count := rfl

/-! ## The loop -/

/-- The entries that the loop copies. -/
def copiedEntries : List VeDebugInfo → BitVec 32 → List VeDebugInfo
  | [], _ => []
  | d :: ds, n =>
    if d.shown then
      if (n + d.headInfo.length).toNat > pageSize then []
      else d :: copiedEntries ds (n + d.headInfo.length)
    else copiedEntries ds n

/-- They are the first entries in use. -/
theorem copiedEntries_prefix (ds : List VeDebugInfo) (n : BitVec 32) :
    copiedEntries ds n <+: ds.filter VeDebugInfo.shown := by
  induction ds generalizing n with
  | nil => exact List.prefix_refl _
  | cons d ds ih =>
    unfold copiedEntries
    by_cases hshown : d.shown = true
    · rw [if_pos hshown, List.filter_cons_of_pos hshown]
      split_ifs
      · exact List.nil_prefix
      · exact List.cons_prefix_cons.mpr ⟨rfl, ih _⟩
    · rw [if_neg hshown, List.filter_cons_of_neg hshown]
      exact ih n

/-- The loop puts their data behind the bytes that the page holds. -/
theorem showEntries_page (mem : Option Nat → Nat → BitVec 8)
    (ds : List VeDebugInfo) (h : PageHolds st out) :
    PageHolds (showEntries mem ds st)
      (out ++ (copiedEntries ds st.nTotalSize).flatMap (·.bytes mem)) := by
  induction ds generalizing st out with
  | nil => rwa [copiedEntries, List.flatMap_nil, List.append_nil]
  | cons d ds ih =>
    unfold showEntries copiedEntries
    simp only [signExtend_gt_iff]
    split_ifs with hshown hlarge
    · rw [List.flatMap_nil, List.append_nil]
      exact ⟨h.bytes, h.count⟩
    · have hcopy := h.copy (d.bytes mem) (st.nTotalSize + d.headInfo.length)
      rw [length_bytes] at hcopy
      rw [List.flatMap_cons, ← List.append_assoc]
      exact ih hcopy
    · exact ih h

/-- `showLoop` looks for a bad read among them. -/
theorem showLoop_eq_any (s : DebugTable) (is : List Slot) (n : BitVec 32) :
    showLoop s is n.toNat =
      (copiedEntries (is.map s.debugInfo) n).any s.badEntry := by
  induction is generalizing n with
  | nil => rfl
  | cons i is ih =>
    have hshown : (s.debugInfo i).shown = true ↔
        (s.debugInfo i).headInfo.pid ≠ 0 ∧ (s.debugInfo i).headInfo.tid ≠ 0 :=
      decide_eq_true_iff
    unfold showLoop
    rw [List.map_cons, copiedEntries]
    simp only [hshown, ← BitVec.toNat_add]
    split_ifs
    · rfl
    · rw [List.any_cons, ih]
      rfl
    · exact ih n

theorem le_showEntries_count (mem : Option Nat → Nat → BitVec 8)
    (ds : List VeDebugInfo) (st : ShowState) :
    st.count ≤ (showEntries mem ds st).count := by
  induction ds generalizing st with
  | nil => exact Nat.le_refl _
  | cons d ds ih =>
    unfold showEntries
    dsimp only
    split_ifs
    · exact Nat.le_refl _
    · refine Nat.le_trans ?_ (ih _)
      exact Nat.le_add_right _ _
    · exact ih st

/-- As long as the output fits, the sum is the one of the lengths.  The first
sum that does not fit must end the loop. -/
theorem showEntries_fits_iff (mem : Option Nat → Nat → BitVec 8)
    (ds : List VeDebugInfo)
    (hsum : st.nTotalSize.toNat = total)
    (hcount : st.count = showHeader.length + total)
    (hfits : showHeader.length + total ≤ pageSize) :
    (showEntries mem ds st).count ≤ pageSize ↔
      ∀ t, (((ds.filter VeDebugInfo.shown).map
          (·.headInfo.length.toNat)).scanl (· + ·) total).find?
          (fun t => pageSize < showHeader.length + t) = some t →
        pageSize < t ∧ t < 2 ^ 32 := by
  induction ds generalizing st total with
  | nil =>
    rw [List.filter_nil, List.map_nil, List.scanl_nil,
      List.find?_cons_of_neg (by simpa using hfits)]
    constructor
    · intro _ t ht
      cases ht
    · intro _
      show st.count ≤ pageSize
      omega
  | cons d ds ih =>
    unfold showEntries
    by_cases hshown : d.shown = true
    · have hlength := d.headInfo.length.isLt
      have hnext : (st.nTotalSize + d.headInfo.length).toNat =
          (total + d.headInfo.length.toNat) % 2 ^ 32 := by
        rw [BitVec.toNat_add, hsum]
      rw [if_pos hshown, List.filter_cons_of_pos hshown, List.map_cons,
        List.scanl_cons, List.find?_cons_of_neg (by simpa using hfits)]
      dsimp only
      simp only [signExtend_gt_iff, hnext]
      rw [pageSize, length_showHeader] at *
      by_cases hover : 4096 < 34 + (total + d.headInfo.length.toNat)
      · -- this is the first sum that does not fit
        have hfind : ∀ l : List Nat, ((l.scanl (· + ·)
            (total + d.headInfo.length.toNat)).find?
            fun t => 4096 < 34 + t) = some (total + d.headInfo.length.toNat) := by
          intro l
          cases l <;> simp [List.scanl_cons, hover]
        rw [hfind]
        simp only [Option.some.injEq, forall_eq']
        split_ifs with hlarge
        · show st.count ≤ 4096 ↔ _
          omega
        · have hle := le_showEntries_count mem ds
            { count := st.count + d.headInfo.length.toNat
              nTotalSize := st.nTotalSize + d.headInfo.length
              writes := st.writes ++ [(st.count, d.bytes mem)] }
          dsimp only at hle
          omega
      · rw [if_neg (by omega)]
        exact ih (by rw [hnext, Nat.mod_eq_of_lt (by omega)])
          (by dsimp only; omega) (by omega)
    · rw [if_neg hshown, List.filter_cons_of_neg hshown]
      exact ih hsum hcount hfits

/-- The output is a prefix in the page exactly when the first sum of lengths
that does not fit behind the header does not fit into a page either, nor does
it wrap. -/
theorem showsPrefix_iff (s : DebugTable) (mem : Option Nat → Nat → BitVec 8) :
    ShowsPrefix s mem ↔ FitsPage s := by
  have hcount : (veInfoShowPage s mem).count ≤ pageSize ↔ FitsPage s :=
    showEntries_fits_iff mem s.entries rfl rfl (by decide)
  have hpage := showEntries_page mem s.entries pageHolds_header
  have hprefix := copiedEntries_prefix s.entries 0
  have hresult : ∀ p, (pageByte (veInfoShowPage s mem).writes p).isSome ↔
      p < (veInfoShowPage s mem).count := by
    intro p
    have hbyte := hpage.bytes p
    have hlen := hpage.count
    rw [veInfoShowPage, hbyte, hlen]
    simp
  rw [← hcount]
  constructor
  · intro h
    exact h.result_le
  · intro hle
    exact {
      inPage := fun p hp => by
        have hlt := (hresult p).mp hp
        omega
      result := hresult
      result_le := hle
      output := ⟨_, fun p => by
        have hbyte := hpage.bytes p
        rw [List.prefix_iff_eq_take.mp hprefix] at hbyte
        exact hbyte⟩ }

/-- One entry of 4096 bytes, as `IOCTL_PROC_INFO_COPY` stores it. -/
def pageEntry : DebugTable :=
  (ioctlProcInfoCopy .init (some ⟨1, 1, 4096⟩) (some 0) true).1

/-- The entry is a page long and has a live buffer, and its data end 34 bytes
behind the page. -/
theorem pageEntry_overflow :
    (∀ d ∈ pageEntry.shownEntries, pageEntry.badEntry d = false) ∧
      (veInfoShowPage pageEntry fun _ _ => 0).count = 4130 ∧
      ¬ ShowsPrefix pageEntry fun _ _ => 0 := by
  have hcopied : copiedEntries pageEntry.entries 0 = [⟨⟨1, 1, 4096⟩, some 0⟩] := by
    decide
  have hcount : (veInfoShowPage pageEntry fun _ _ => 0).count = 4130 := by
    have hlen := (showEntries_page (fun _ _ => 0) pageEntry.entries
      pageHolds_header).count
    rw [veInfoShowPage, hlen, hcopied, List.flatMap_singleton,
      List.length_append, length_bytes, length_showHeader]
    rfl
  refine ⟨by decide, hcount, fun h => ?_⟩
  have hle := h.result_le
  rw [hcount] at hle
  exact absurd hle (by decide)

end LonganPi.Ve
