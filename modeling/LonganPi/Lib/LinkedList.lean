import Mathlib.Data.List.Nodup
import Mathlib.Logic.Function.Basic

/-!
# Singly linked lists in a heap

A heap is a partial map from addresses to nodes, and a node is its data and a
`next` pointer.  `none` is the null pointer.  `Seg h p l q` says that the
nodes from `p` up to `q` are those of `l`, in that order.

* The nodes of a segment are determined by its start and its length
  (`Seg.unique`), so a list that ends in null has no node twice
  (`Seg.nodup`) and reaches only its own nodes (`Seg.mem_of_reaches`).
* A store outside a segment keeps it (`Seg.frame`).
* `linkLast_spec`, `Seg.unlink` and `Seg.tail` are the three edits: a node
  behind the last one, a node out from behind another, and the first node
  out.
* `find_spec` and `contents_spec` are the two walks.
-/

namespace LinkedList

variable {α ρ : Type*}

/-- A node of a singly linked list. -/
structure Node (α ρ : Type*) where
  data : ρ
  next : Option α
  deriving DecidableEq, Repr

/-- The blocks in use. -/
abbrev Heap (α ρ : Type*) := α → Option (Node α ρ)

/-! ## Segments -/

/-- The nodes from `p` up to `q` are those of the list. -/
def Seg (h : Heap α ρ) : Option α → List (α × ρ) → Option α → Prop
  | p, [], q => p = q
  | p, x :: l, q => p = some x.1 ∧ ∃ nx, h x.1 = some ⟨x.2, nx⟩ ∧ Seg h nx l q

/-- The walk from `p` comes to the address `a`. -/
def Reaches (h : Heap α ρ) (p : Option α) (a : α) : Prop :=
  ∃ l, Seg h p l (some a)

namespace Seg

variable {h h' : Heap α ρ} {p q q' : Option α} {l l₁ l₂ : List (α × ρ)}

theorem append_iff :
    Seg h p (l₁ ++ l₂) q ↔ ∃ m, Seg h p l₁ m ∧ Seg h m l₂ q := by
  induction l₁ generalizing p with
  | nil => exact ⟨fun hs => ⟨p, rfl, hs⟩, fun ⟨_, hm, hs⟩ => hm ▸ hs⟩
  | cons x l₁ ih =>
    constructor
    · intro hboth
      obtain ⟨hp, nx, hx, hs⟩ := hboth
      obtain ⟨m, hl, hr⟩ := ih.mp hs
      exact ⟨m, ⟨hp, nx, hx, hl⟩, hr⟩
    · intro hex
      obtain ⟨m, ⟨hp, nx, hx, hl⟩, hr⟩ := hex
      exact ⟨hp, nx, hx, ih.mpr ⟨m, hl, hr⟩⟩

/-- A segment with a node behind it. -/
theorem concat_iff {x : α × ρ} :
    Seg h p (l ++ [x]) q ↔ Seg h p l (some x.1) ∧ h x.1 = some ⟨x.2, q⟩ := by
  rw [append_iff]
  constructor
  · intro hex
    obtain ⟨m, hs, hm, nx, hx, hq⟩ := hex
    exact ⟨hm ▸ hs, hx.trans (by rw [show nx = q from hq])⟩
  · intro hboth
    obtain ⟨hs, hx⟩ := hboth
    exact ⟨some x.1, hs, rfl, q, hx, rfl⟩

/-- Only the nodes of the segment matter. -/
theorem frame (hs : Seg h p l q) (hsame : ∀ x ∈ l, h' x.1 = h x.1) :
    Seg h' p l q := by
  induction l generalizing p with
  | nil => exact hs
  | cons x l ih =>
    obtain ⟨hp, nx, hx, hrest⟩ := hs
    refine ⟨hp, nx, ?_, ih hrest fun y hy => hsame y (.tail _ hy)⟩
    rw [hsame x (.head _), hx]

/-- A segment is determined by its start and its length. -/
theorem unique (h₁ : Seg h p l₁ q) (h₂ : Seg h p l₂ q')
    (hlen : l₁.length = l₂.length) : l₁ = l₂ ∧ q = q' := by
  induction l₁ generalizing p l₂ with
  | nil =>
    obtain rfl := List.length_eq_zero_iff.mp hlen.symm
    exact ⟨rfl, (show p = q from h₁).symm.trans h₂⟩
  | cons x l₁ ih =>
    cases l₂ with
    | nil => cases hlen
    | cons y l₂ =>
      obtain ⟨hpx, nx, hx, hs₁⟩ := h₁
      obtain ⟨hpy, ny, hy, hs₂⟩ := h₂
      have haddr : x.1 = y.1 := Option.some.inj (hpx.symm.trans hpy)
      rw [haddr, hy, Option.some.injEq, Node.mk.injEq] at hx
      obtain ⟨hdata, hnext⟩ := hx
      subst hnext
      obtain ⟨rfl, hq⟩ := ih hs₁ hs₂ (Nat.succ.inj hlen)
      exact ⟨by rw [Prod.ext haddr hdata.symm], hq⟩

/-- Every segment from the start of a list that ends in null is a prefix of
it. -/
theorem isPrefix (hs : Seg h p l none) (hs' : Seg h p l₁ q) : l₁ <+: l := by
  induction l₁ generalizing p l with
  | nil => exact List.nil_prefix
  | cons y l₁ ih =>
    obtain ⟨hpy, ny, hy, hs₁⟩ := hs'
    cases l with
    | nil => cases (show p = none from hs).symm.trans hpy
    | cons x l =>
      obtain ⟨hpx, nx, hx, hs₂⟩ := hs
      have haddr : x.1 = y.1 := Option.some.inj (hpx.symm.trans hpy)
      rw [haddr, hy, Option.some.injEq, Node.mk.injEq] at hx
      obtain ⟨hdata, hnext⟩ := hx
      subst hnext
      rw [show y = x from Prod.ext haddr.symm hdata]
      exact List.prefix_cons_inj x |>.mpr (ih hs₂ hs₁)

/-- A list that ends in null reaches only its own nodes. -/
theorem mem_of_reaches {a : α} (hs : Seg h p l none) (hr : Reaches h p a) :
    ∃ x ∈ l, x.1 = a := by
  obtain ⟨l₁, hs₁⟩ := hr
  obtain ⟨l₂, rfl⟩ := hs.isPrefix hs₁
  obtain ⟨m, hs₁', hs₂⟩ := append_iff.mp hs
  obtain rfl := (hs₁.unique hs₁' rfl).2
  cases l₂ with
  | nil => cases (show some a = none from hs₂)
  | cons x l₂ =>
    exact ⟨x, List.mem_append_right l₁ (.head _), (Option.some.inj hs₂.1).symm⟩

/-- The nodes of a segment are in use. -/
theorem live (hs : Seg h p l q) {x : α × ρ} (hx : x ∈ l) :
    ∃ nx, h x.1 = some ⟨x.2, nx⟩ := by
  obtain ⟨l₁, l₂, rfl⟩ := List.append_of_mem hx
  obtain ⟨m, -, -, nx, hnx, -⟩ := append_iff.mp hs
  exact ⟨nx, hnx⟩

/-- A list that ends in null has no node twice. -/
theorem nodup (hs : Seg h p l none) : (l.map Prod.fst).Nodup := by
  induction l generalizing p with
  | nil => exact List.nodup_nil
  | cons x l ih =>
    obtain ⟨hp, nx, hx, hrest⟩ := hs
    rw [List.map_cons, List.nodup_cons]
    refine ⟨fun hmem => ?_, ih hrest⟩
    -- from a second visit of `x` the rest of the list would be as long as
    -- all of it
    obtain ⟨y, hy, hyx⟩ := List.mem_map.mp hmem
    obtain ⟨l₁, l₂, rfl⟩ := List.append_of_mem hy
    obtain ⟨m, -, hsuffix⟩ := append_iff.mp hrest
    have hm : m = some x.1 := hsuffix.1.trans (by rw [hyx])
    rw [hm] at hsuffix
    have hfull : Seg h (some x.1) (x :: (l₁ ++ y :: l₂)) none :=
      ⟨rfl, nx, hx, hrest⟩
    have hlen := (hsuffix.isPrefix hfull).length_le
    simp only [List.length_cons, List.length_append] at hlen
    omega

variable [DecidableEq α]

/-- A store outside a segment keeps it. -/
theorem update (hs : Seg h p l q) {a : α} {n : Option (Node α ρ)}
    (ha : ∀ x ∈ l, x.1 ≠ a) : Seg (Function.update h a n) p l q :=
  hs.frame fun x hx => Function.update_of_ne (ha x hx) _ _

/-- The first node out of the list. -/
theorem tail {x : α × ρ} (hs : Seg h p (x :: l) none) :
    p = some x.1 ∧ ∃ nx, h x.1 = some ⟨x.2, nx⟩ ∧
      Seg (Function.update h x.1 none) nx l none := by
  obtain ⟨hp, nx, hx, hrest⟩ := id hs
  refine ⟨hp, nx, hx, hrest.update fun y hy hyx => ?_⟩
  have hnodup := hs.nodup
  rw [List.map_cons, List.nodup_cons, ← hyx] at hnodup
  exact hnodup.1 (List.mem_map_of_mem hy)

/-- The node `x` out of the list, from behind `b`. -/
theorem unlink {b x : α × ρ} (hs : Seg h p (l₁ ++ b :: x :: l₂) none) :
    ∃ nx, h b.1 = some ⟨b.2, some x.1⟩ ∧ h x.1 = some ⟨x.2, nx⟩ ∧
      (l₂ = [] → nx = none) ∧
      Seg (Function.update (Function.update h b.1 (some ⟨b.2, nx⟩)) x.1 none)
        p (l₁ ++ b :: l₂) none := by
  have hnodup := hs.nodup
  simp only [List.map_append, List.map_cons, List.nodup_append, List.nodup_cons,
    List.mem_cons, not_or] at hnodup
  obtain ⟨-, ⟨⟨hbx, hb₂⟩, hx₂, -⟩, hapart⟩ := hnodup
  obtain ⟨m, hs₁, hm, nb, hb, hnb, nx, hx, hs₂⟩ := append_iff.mp hs
  refine ⟨nx, hb.trans (by rw [hnb]), hx, fun hnil => ?_, ?_⟩
  · rw [hnil] at hs₂
    exact hs₂
  · rw [append_iff]
    refine ⟨some b.1, ?_, rfl, nx, ?_, ?_⟩
    · rw [hm] at hs₁
      refine (hs₁.update fun y hy => ?_).update fun y hy => ?_
      · exact hapart _ (List.mem_map_of_mem hy) _ (Or.inl rfl)
      · exact hapart _ (List.mem_map_of_mem hy) _ (Or.inr (Or.inl rfl))
    · rw [Function.update_of_ne hbx, Function.update_self]
    · refine (hs₂.update fun y hy hyb => ?_).update fun y hy hyx => ?_
      · exact hb₂ (hyb ▸ List.mem_map_of_mem hy)
      · exact hx₂ (hyx ▸ List.mem_map_of_mem hy)

/-- The data of the last node is stored. -/
theorem setLast {x : α × ρ} (hs : Seg h p (l ++ [x]) q)
    (ha : ∀ y ∈ l, y.1 ≠ x.1) (r : ρ) :
    Seg (Function.update h x.1 (some ⟨r, q⟩)) p (l ++ [(x.1, r)]) q :=
  concat_iff.mpr ⟨(concat_iff.mp hs).1.update ha, Function.update_self _ _ _⟩

end Seg

/-! ## A node behind the last one -/

/-- The tail pointer of a list that is not empty. -/
def IsTail (tail : Option α) (l : List (α × ρ)) : Prop :=
  ∀ x ∈ l.getLast?, tail = some x.1

theorem isTail_nil (tail : Option α) : IsTail tail ([] : List (α × ρ)) := by
  intro x hx
  cases hx

theorem isTail_concat (l : List (α × ρ)) (x : α × ρ) :
    IsTail (some x.1) (l ++ [x]) := by
  intro y hy
  rw [List.getLast?_concat, Option.mem_some_iff] at hy
  rw [hy]

section LinkLast

variable [DecidableEq α] {h : Heap α ρ} {l : List (α × ρ)}

/-- `p->next = q`, for a `p` that is in use. -/
def setNext (h : Heap α ρ) (p : α) (q : Option α) : Option (Heap α ρ) :=
  (h p).map fun n => Function.update h p (some { n with next := q })

/-- The node `a` is put behind the last one: the new heap, head and tail. -/
def linkLast (h : Heap α ρ) (head tail : Option α) (a : α) :
    Option (Heap α ρ × Option α × Option α) :=
  match head, tail with
  | none, _ => some (h, some a, some a)
  | some _, none => none
  | some p, some t => (setNext h t (some a)).map fun h' => (h', some p, some a)

/-- The new list ends where the new node points to. -/
theorem linkLast_spec {head tail : Option α} (x : α × ρ) (nx : Option α)
    (hs : Seg h head l none) (htail : IsTail tail l)
    (hx : h x.1 = some ⟨x.2, nx⟩) (hnew : ∀ y ∈ l, y.1 ≠ x.1) :
    ∃ h' head', linkLast h head tail x.1 = some (h', head', some x.1) ∧
      Seg h' head' (l ++ [x]) nx ∧
      ∀ a, (∀ y ∈ l, y.1 ≠ a) → h' a = h a := by
  rcases List.eq_nil_or_concat l with rfl | ⟨l, b, rfl⟩
  · refine ⟨h, some x.1, ?_, ⟨rfl, nx, hx, rfl⟩, fun _ _ => rfl⟩
    rw [show head = none from hs]
    rfl
  · rw [List.concat_eq_append] at *
    have hhead : ∃ p, head = some p := by
      cases l with
      | nil => exact ⟨_, hs.1⟩
      | cons y l => exact ⟨_, hs.1⟩
    obtain ⟨p, rfl⟩ := hhead
    obtain rfl : tail = some b.1 := htail b (by rw [List.getLast?_concat]; rfl)
    obtain ⟨hs', hb⟩ := Seg.concat_iff.mp hs
    have hbx : b.1 ≠ x.1 := hnew b (by simp)
    have hfresh : ∀ y ∈ l, y.1 ≠ b.1 := by
      intro y hy hyb
      have hnodup := hs.nodup
      rw [List.map_append, List.nodup_append] at hnodup
      exact hnodup.2.2 _ (List.mem_map_of_mem hy) _ (.head _) hyb
    refine ⟨Function.update h b.1 (some ⟨b.2, some x.1⟩), some p, ?_, ?_, ?_⟩
    · simp only [linkLast, setNext, hb, Option.map_some]
    · refine Seg.concat_iff.mpr ⟨Seg.concat_iff.mpr ⟨hs'.update hfresh, ?_⟩, ?_⟩
      · exact Function.update_self _ _ _
      · rw [Function.update_of_ne hbx.symm, hx]
    · intro a ha
      exact Function.update_of_ne (ha b (by simp)).symm _ _

end LinkLast

/-! ## Walks -/

section Walk

variable {h : Heap α ρ} {l l₁ l₂ : List (α × ρ)} {p q : Option α}

/-- The walk that stops at the first node with `good` data or at null: that
node, and the one before it.  `none` when the walk leaves the blocks in use
or takes more than `n` steps. -/
def find (h : Heap α ρ) (good : ρ → Bool) :
    Nat → Option α → Option α → Option (Option α × Option α)
  | _, none, prev => some (none, prev)
  | 0, some _, _ => none
  | n + 1, some a, prev =>
    match h a with
    | none => none
    | some node =>
      if good node.data then some (some a, prev)
      else find h good n node.next (some a)

/-- The data of every node up to null. -/
def contents (h : Heap α ρ) : Nat → Option α → Option (List ρ)
  | _, none => some []
  | 0, some _ => none
  | n + 1, some a =>
    match h a with
    | none => none
    | some node => (contents h n node.next).map (node.data :: ·)

/-- The walk comes to the first node that fits. -/
theorem find_spec {good : ρ → Bool} {x : α × ρ} {n : Nat} (prev : Option α)
    (hs : Seg h p (l₁ ++ x :: l₂) q) (hmiss : ∀ y ∈ l₁, good y.2 = false)
    (hhit : good x.2 = true) (hn : l₁.length < n) :
    find h good n p prev =
      some (some x.1, (l₁.getLast?.map Prod.fst).or prev) := by
  induction l₁ generalizing p prev n with
  | nil =>
    obtain ⟨rfl, nx, hx, -⟩ := hs
    obtain ⟨n, rfl⟩ : ∃ k, n = k + 1 := ⟨n - 1, by omega⟩
    simp only [find, hx, hhit, if_true]
    rfl
  | cons y l₁ ih =>
    obtain ⟨rfl, ny, hy, hrest⟩ := hs
    rw [List.length_cons] at hn
    obtain ⟨n, rfl⟩ : ∃ k, n = k + 1 := ⟨n - 1, by omega⟩
    have hrec := ih (some y.1) hrest (fun z hz => hmiss z (.tail _ hz))
      (show l₁.length < n by omega)
    simp only [find, hy, hmiss y (.head _), Bool.false_eq_true, if_false, hrec]
    rw [List.getLast?_cons]
    cases l₁.getLast? <;> rfl

/-- The walk over a list that ends in null returns. -/
theorem contents_spec {n : Nat} (hs : Seg h p l none) (hn : l.length ≤ n) :
    contents h n p = some (l.map Prod.snd) := by
  induction l generalizing p n with
  | nil =>
    rw [show p = none from hs]
    cases n <;> rfl
  | cons x l ih =>
    obtain ⟨rfl, nx, hx, hrest⟩ := hs
    rw [List.length_cons] at hn
    obtain ⟨n, rfl⟩ : ∃ k, n = k + 1 := ⟨n - 1, by omega⟩
    simp only [contents, hx, ih hrest (show l.length ≤ n by omega)]
    rfl

end Walk

end LinkedList
