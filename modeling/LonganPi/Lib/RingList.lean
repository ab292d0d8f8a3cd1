import Mathlib.Data.List.Chain
import Mathlib.Data.List.Nodup
import Mathlib.Logic.Function.Basic

/-!
# Circular doubly linked lists

The links of a list are a `next` and a `prev` address at each of its nodes.
One node is the head, which stands for no element: an empty list is a head
that points to itself.  `Ring m head l` says that the nodes behind the head
are those of `l`, in that order, and that they lead back to the head in both
directions.

* `Ring.insert` and `Ring.remove` are the two edits, at any place.  They look
  at the links afterwards and not at the order of the stores.
* `forEachSafe` is the loop that reads the next node before the body runs, so
  that the body may free its own node.  `forEachSafe_rule` is its rule: the
  nodes before the cursor are those that were kept.
-/

namespace RingList

variable {α σ : Type*}

/-- The two pointers of a node. -/
structure Link (α : Type*) where
  next : α
  prev : α
  deriving DecidableEq, Repr

/-- The nodes in use. -/
abbrev Links (α : Type*) := α → Option (Link α)

/-- `a->next`. -/
def nextOf (m : Links α) (a : α) : Option α := (m a).map Link.next

/-- `a->prev`. -/
def prevOf (m : Links α) (a : α) : Option α := (m a).map Link.prev

/-- `b` is behind `a`, seen from both sides. -/
def Adjacent (m : Links α) (a b : α) : Prop :=
  nextOf m a = some b ∧ prevOf m b = some a

/-- The nodes of the ring are the head and those of the list. -/
structure Ring (m : Links α) (head : α) (l : List α) : Prop where
  nodup : (head :: l).Nodup
  linked : (head :: (l ++ [head])).IsChain (Adjacent m)

/-! ## Stores -/

section Store

variable [DecidableEq α] {m : Links α} {a b : α}

/-- `a->next = b`, for an `a` that is in use. -/
def setNext (m : Links α) (a b : α) : Option (Links α) :=
  (m a).map fun n => Function.update m a (some { n with next := b })

/-- `a->prev = b`, for an `a` that is in use. -/
def setPrev (m : Links α) (a b : α) : Option (Links α) :=
  (m a).map fun n => Function.update m a (some { n with prev := b })

theorem nextOf_update (m : Links α) (a : α) (n : Link α) :
    nextOf (Function.update m a (some n))
      = Function.update (nextOf m) a (some n.next) :=
  Function.comp_update (Option.map Link.next) m a (some n)

theorem prevOf_update (m : Links α) (a : α) (n : Link α) :
    prevOf (Function.update m a (some n))
      = Function.update (prevOf m) a (some n.prev) :=
  Function.comp_update (Option.map Link.prev) m a (some n)

theorem isSome_update {n : Link α} (ha : (m a).isSome) (c : α) :
    (Function.update m a (some n) c).isSome = (m c).isSome := by
  by_cases hc : c = a
  · rw [hc, Function.update_self, ha, Option.isSome_some]
  · rw [Function.update_of_ne hc]

theorem setNext_spec (b : α) (ha : (m a).isSome) :
    ∃ m', setNext m a b = some m' ∧
      nextOf m' = Function.update (nextOf m) a (some b) ∧
      prevOf m' = prevOf m ∧ ∀ c, (m' c).isSome = (m c).isSome := by
  obtain ⟨n, hn⟩ := Option.isSome_iff_exists.mp ha
  have hprev : some n.prev = prevOf m a := by rw [prevOf, hn, Option.map_some]
  refine ⟨_, by rw [setNext, hn, Option.map_some], nextOf_update m a _, ?_,
    isSome_update ha⟩
  rw [prevOf_update, hprev, Function.update_eq_self]

theorem setPrev_spec (b : α) (ha : (m a).isSome) :
    ∃ m', setPrev m a b = some m' ∧
      nextOf m' = nextOf m ∧
      prevOf m' = Function.update (prevOf m) a (some b) ∧
      ∀ c, (m' c).isSome = (m c).isSome := by
  obtain ⟨n, hn⟩ := Option.isSome_iff_exists.mp ha
  have hnext : some n.next = nextOf m a := by rw [nextOf, hn, Option.map_some]
  refine ⟨_, by rw [setPrev, hn, Option.map_some], ?_, prevOf_update m a _,
    isSome_update ha⟩
  rw [nextOf_update, hnext, Function.update_eq_self]

end Store

/-! ## Chains of links -/

section Chain

variable {m m' : Links α} {a b c : α} {l : List α}

theorem Adjacent.next_eq (h : Adjacent m a b) (h' : nextOf m a = some c) :
    c = b := Option.some.inj (h'.symm.trans h.1)

theorem Adjacent.prev_eq (h : Adjacent m a b) (h' : prevOf m b = some c) :
    c = a := Option.some.inj (h'.symm.trans h.2)

/-- A chain reads the `next` of all its nodes but the last, and the `prev` of
all but the first. -/
theorem chain_frame (h : l.IsChain (Adjacent m))
    (hnext : ∀ a ∈ l.dropLast, nextOf m' a = nextOf m a)
    (hprev : ∀ a ∈ l.tail, prevOf m' a = prevOf m a) :
    l.IsChain (Adjacent m') := by
  induction l with
  | nil => exact List.isChain_nil
  | cons a l ih =>
    cases l with
    | nil => exact List.isChain_singleton a
    | cons b l =>
      obtain ⟨hab, hrest⟩ := List.isChain_cons_cons.mp h
      rw [List.dropLast_cons_cons] at hnext
      rw [List.tail_cons] at hprev
      refine List.isChain_cons_cons.mpr ⟨⟨?_, ?_⟩, ih hrest ?_ ?_⟩
      · rw [hnext a (.head _), hab.1]
      · rw [hprev b (.head _), hab.2]
      · exact fun c hc => hnext c (.tail _ hc)
      · exact fun c hc => hprev c (.tail _ hc)

end Chain

/-! ## Edits -/

section Edit

variable {m m' : Links α} {head p n x : α} {l l₁ l₂ : List α}

theorem exists_getLast? (head : α) (l : List α) :
    ∃ p, p ∈ (head :: l).getLast? :=
  ⟨_, List.getLast?_eq_some_getLast (List.cons_ne_nil head l)⟩

theorem exists_head? (head : α) (l : List α) :
    ∃ n, n ∈ (l ++ [head]).head? := by
  cases l with
  | nil => exact ⟨head, rfl⟩
  | cons a l => exact ⟨a, rfl⟩

theorem mem_of_head?_concat (h : n ∈ (l ++ [head]).head?) :
    n = head ∧ l = [] ∨ n ∈ l := by
  cases l with
  | nil => exact Or.inl ⟨(Option.some.inj h).symm, rfl⟩
  | cons a l =>
    rw [List.cons_append, List.head?_cons, Option.mem_some_iff] at h
    exact Or.inr (h ▸ List.mem_cons_self)

/-- The links of a ring at any place. -/
theorem Ring.adjacent (h : Ring m head (l₁ ++ l₂))
    (hp : p ∈ (head :: l₁).getLast?) (hn : n ∈ (l₂ ++ [head]).head?) :
    Adjacent m p n := by
  have hlinked := h.linked
  rw [List.append_assoc, ← List.cons_append, List.isChain_append] at hlinked
  exact hlinked.2.2 p hp n hn

theorem Ring.adjacent_next (h : Ring m head (l₁ ++ x :: l₂))
    (hn : n ∈ (l₂ ++ [head]).head?) : Adjacent m x n := by
  have hring : Ring m head ((l₁ ++ [x]) ++ l₂) := by
    rwa [List.append_assoc]
  apply hring.adjacent _ hn
  rw [← List.cons_append, List.getLast?_concat]
  rfl

/-- What is before the gap between `p` and `n`, and what is behind it, stay
linked when only the gap changes. -/
theorem chains_frame (m' : Links α) (hnodup : (head :: (l₁ ++ l₂)).Nodup)
    (hp : p ∈ (head :: l₁).getLast?) (hn : n ∈ (l₂ ++ [head]).head?)
    (h₁ : (head :: l₁).IsChain (Adjacent m))
    (h₂ : (l₂ ++ [head]).IsChain (Adjacent m))
    (hnext : ∀ a ∈ head :: (l₁ ++ l₂), a ≠ p → nextOf m' a = nextOf m a)
    (hprev : ∀ a ∈ head :: (l₁ ++ l₂), a ≠ n → prevOf m' a = prevOf m a) :
    (head :: l₁).IsChain (Adjacent m') ∧
      (l₂ ++ [head]).IsChain (Adjacent m') := by
  rw [← List.cons_append] at hnodup hnext hprev
  have hapart := (List.nodup_append.mp hnodup).2.2
  have hring : (l₂ ++ [head]).Nodup := by
    rw [List.nodup_append]
    exact ⟨(List.nodup_append.mp hnodup).2.1, List.nodup_singleton _,
      fun a ha b hb => List.mem_singleton.mp hb ▸
        (hapart head (.head _) a ha).symm⟩
  constructor
  · apply chain_frame h₁
    · intro a ha
      apply hnext a (List.mem_append_left _ ((List.dropLast_subset _) ha))
      have hfront := (List.nodup_append.mp hnodup).1
      rw [← List.dropLast_append_getLast? p hp, List.nodup_append] at hfront
      exact hfront.2.2 a ha p (.head _)
    · intro a ha
      rw [List.tail_cons] at ha
      apply hprev a (List.mem_append_left _ (.tail _ ha))
      rcases mem_of_head?_concat hn with ⟨rfl, -⟩ | hmem
      · exact fun haeq =>
          (List.nodup_cons.mp (List.nodup_append.mp hnodup).1).1 (haeq ▸ ha)
      · exact hapart a (.tail _ ha) n hmem
  · apply chain_frame h₂
    · intro a ha
      rw [List.dropLast_concat] at ha
      apply hnext a (List.mem_append_right _ ha)
      exact (hapart p (List.mem_of_mem_getLast? hp) a ha).symm
    · intro a ha
      have hback : l₂ ++ [head] = n :: (l₂ ++ [head]).tail :=
        (List.cons_head?_tail hn).symm
      apply hprev a
      · rcases List.mem_append.mp (List.mem_of_mem_tail ha) with hmem | hmem
        · exact List.mem_append_right _ hmem
        · rw [List.mem_singleton.mp hmem]
          exact .head _
      · rw [hback, List.nodup_cons] at hring
        exact fun haeq => hring.1 (haeq ▸ ha)

/-- Only the nodes of the ring matter. -/
theorem Ring.frame (h : Ring m head l)
    (hsame : ∀ a ∈ head :: l, m' a = m a) : Ring m' head l := by
  have hmem : ∀ a ∈ head :: (l ++ [head]), a ∈ head :: l := by
    intro a ha
    rw [← List.cons_append] at ha
    rcases List.mem_append.mp ha with ha | ha
    · exact ha
    · rw [List.mem_singleton.mp ha]
      exact .head _
  refine ⟨h.nodup, chain_frame h.linked (fun a ha => ?_) fun a ha => ?_⟩
  · rw [nextOf, nextOf, hsame a (hmem a ((List.dropLast_subset _) ha))]
  · rw [prevOf, prevOf, hsame a (hmem a (List.mem_of_mem_tail ha))]

theorem isSome_of_next {a b : α} (h : nextOf m a = some b) : (m a).isSome := by
  rw [← Option.isSome_map, ← nextOf, h, Option.isSome_some]

theorem isSome_of_prev {a b : α} (h : prevOf m a = some b) : (m a).isSome := by
  rw [← Option.isSome_map, ← prevOf, h, Option.isSome_some]

variable [DecidableEq α]

/-- A store outside a ring keeps it. -/
theorem Ring.update (h : Ring m head l) (hx : x ∉ head :: l)
    (v : Option (Link α)) : Ring (Function.update m x v) head l := by
  apply h.frame
  intro a ha
  have hax : a ≠ x := fun hax => hx (hax ▸ ha)
  rw [Function.update_of_ne hax]

/-- A new node between `p` and `n`. -/
theorem Ring.insert (h : Ring m head (l₁ ++ l₂)) (hx : x ∉ head :: (l₁ ++ l₂))
    (hp : p ∈ (head :: l₁).getLast?) (hn : n ∈ (l₂ ++ [head]).head?)
    (hnext : nextOf m' =
      Function.update (Function.update (nextOf m) x (some n)) p (some x))
    (hprev : prevOf m' =
      Function.update (Function.update (prevOf m) n (some x)) x (some p)) :
    Ring m' head (l₁ ++ x :: l₂) := by
  have hlinked := h.linked
  rw [List.append_assoc, ← List.cons_append, List.isChain_append] at hlinked
  have hne : ∀ a ∈ head :: (l₁ ++ l₂), a ≠ x := fun a ha hax => hx (hax ▸ ha)
  have hxp : x ≠ p := by
    have hmem := List.mem_of_mem_getLast? hp
    rw [← List.cons_append] at hne
    exact (hne p (List.mem_append_left _ hmem)).symm
  have hxn : n ≠ x := by
    rcases mem_of_head?_concat hn with ⟨rfl, -⟩ | hmem
    · exact hne n (.head _)
    · exact hne n (.tail _ (List.mem_append_right _ hmem))
  obtain ⟨h₁, h₂⟩ := chains_frame m' h.nodup hp hn hlinked.1 hlinked.2.1
    (fun a ha hap => by
      rw [hnext, Function.update_of_ne hap, Function.update_of_ne (hne a ha)])
    (fun a ha han => by
      rw [hprev, Function.update_of_ne (hne a ha), Function.update_of_ne han])
  have hpx : Adjacent m' p x := by
    constructor
    · rw [hnext, Function.update_self]
    · rw [hprev, Function.update_self]
  have hxnext : Adjacent m' x n := by
    constructor
    · rw [hnext, Function.update_of_ne hxp, Function.update_self]
    · rw [hprev, Function.update_of_ne hxn, Function.update_self]
  constructor
  · rw [← List.cons_append, List.nodup_middle, List.nodup_cons]
    exact ⟨hx, h.nodup⟩
  · rw [List.append_assoc, ← List.cons_append, List.isChain_append]
    refine ⟨h₁, ?_, ?_⟩
    · rw [List.cons_append, List.isChain_cons]
      refine ⟨fun y hy => ?_, h₂⟩
      rw [Option.mem_unique hy hn]
      exact hxnext
    · intro q hq y hy
      rw [Option.mem_unique hq hp, ← Option.some.inj hy]
      exact hpx

/-- A node out of the ring.  Its own links do not matter any more. -/
theorem Ring.remove (h : Ring m head (l₁ ++ x :: l₂))
    (hp : prevOf m x = some p) (hn : nextOf m x = some n)
    (hnext : ∀ a, a ≠ x → nextOf m' a = Function.update (nextOf m) p (some n) a)
    (hprev : ∀ a, a ≠ x → prevOf m' a = Function.update (prevOf m) n (some p) a) :
    Ring m' head (l₁ ++ l₂) := by
  have hnodup := h.nodup
  rw [← List.cons_append, List.nodup_middle, List.nodup_cons] at hnodup
  have hne : ∀ a ∈ head :: (l₁ ++ l₂), a ≠ x := fun a ha hax =>
    hnodup.1 (hax ▸ ha)
  have hlast : p ∈ (head :: l₁).getLast? := by
    obtain ⟨q, hq⟩ := exists_getLast? head l₁
    rwa [(h.adjacent hq rfl).prev_eq hp]
  have hfirst : n ∈ (l₂ ++ [head]).head? := by
    obtain ⟨q, hq⟩ := exists_head? head l₂
    rwa [(h.adjacent_next hq).next_eq hn]
  have hpx : p ≠ x := by
    have hmem := List.mem_of_mem_getLast? hlast
    rw [← List.cons_append] at hne
    exact hne p (List.mem_append_left _ hmem)
  have hnx : n ≠ x := by
    rcases mem_of_head?_concat hfirst with ⟨rfl, -⟩ | hmem
    · exact hne n (.head _)
    · exact hne n (.tail _ (List.mem_append_right _ hmem))
  have hlinked := h.linked
  rw [List.append_assoc, ← List.cons_append, List.isChain_append] at hlinked
  obtain ⟨h₁, h₂⟩ := chains_frame m' hnodup.2 hlast hfirst hlinked.1
    hlinked.2.1.tail
    (fun a ha hap => by rw [hnext a (hne a ha), Function.update_of_ne hap])
    (fun a ha han => by rw [hprev a (hne a ha), Function.update_of_ne han])
  refine ⟨hnodup.2, ?_⟩
  rw [List.append_assoc, ← List.cons_append, List.isChain_append]
  refine ⟨h₁, h₂, fun q hq y hy => ?_⟩
  rw [Option.mem_unique hq hlast, Option.mem_unique hy hfirst]
  constructor
  · rw [hnext p hpx, Function.update_self]
  · rw [hprev n hnx, Function.update_self]

end Edit

/-! ## The loop -/

section Loop

/-- The loop over the nodes from `pos`, where `nx` is the node behind it.  The
body says whether to stop.  `none` when a node is read that is not in use, or
when the loop takes more than `fuel` rounds. -/
def forEachSafe (links : σ → Links α) (body : α → σ → Option (σ × Bool))
    [DecidableEq α] (head : α) : Nat → α → α → σ → Option σ
  | 0, _, _, _ => none
  | fuel + 1, pos, nx, s =>
    if pos = head then some s
    else
      match body pos s with
      | none => none
      | some (s', true) => some s'
      | some (s', false) =>
        match nextOf (links s') nx with
        | none => none
        | some nx' => forEachSafe links body head fuel nx nx' s'

variable {m : Links α} {head pos nx : α} {l kept rest : List α} {fuel : Nat}

/-- The node that the cursor is at has a next one. -/
theorem Ring.exists_next (h : Ring m head (kept ++ rest))
    (hpos : pos ∈ (rest ++ [head]).head?) : ∃ n, nextOf m pos = some n := by
  cases rest with
  | nil =>
    obtain rfl := Option.some.inj hpos
    have hring : Ring m head ([] ++ (kept ++ [])) := h
    obtain ⟨n, hn⟩ := exists_head? head (kept ++ [])
    exact ⟨n, (hring.adjacent rfl hn).1⟩
  | cons x rest =>
    obtain rfl := Option.some.inj hpos
    obtain ⟨n, hn⟩ := exists_head? head rest
    exact ⟨n, (h.adjacent_next hn).1⟩

variable {links : σ → Links α} {body : α → σ → Option (σ × Bool)}
  [DecidableEq α] {Inv : List α → List α → σ → Prop} {Post : σ → Prop} {s : σ}

/-- The nodes before the cursor are those that the body kept, and those behind
it are all there.  When the body keeps that, or stops with the result, the
loop returns with the result. -/
theorem forEachSafe_rule
    (hring : ∀ {kept rest s}, Inv kept rest s →
      Ring (links s) head (kept ++ rest))
    (hbody : ∀ {kept x rest s}, Inv kept (x :: rest) s →
      (∃ s', body x s = some (s', true) ∧ Post s') ∨
        ∃ s' kept', body x s = some (s', false) ∧ Inv kept' rest s')
    (hdone : ∀ {kept s}, Inv kept [] s → Post s)
    (h : Inv kept rest s) (hfuel : rest.length < fuel)
    (hpos : pos ∈ (rest ++ [head]).head?)
    (hnx : nextOf (links s) pos = some nx) :
    ∃ s', forEachSafe links body head fuel pos nx s = some s' ∧ Post s' := by
  induction rest generalizing kept s fuel pos nx with
  | nil =>
    obtain rfl := Option.some.inj hpos
    obtain ⟨fuel, rfl⟩ : ∃ k, fuel = k + 1 := ⟨fuel - 1, by omega⟩
    refine ⟨s, ?_, hdone h⟩
    rw [forEachSafe, if_pos rfl]
  | cons x rest ih =>
    obtain rfl := Option.some.inj hpos
    obtain ⟨fuel, rfl⟩ : ∃ k, fuel = k + 1 := ⟨fuel - 1, by omega⟩
    rw [List.length_cons] at hfuel
    have hhead : x ≠ head := by
      have hnodup := (hring h).nodup
      rw [List.nodup_cons] at hnodup
      exact fun hx => hnodup.1 (hx ▸ List.mem_append_right _ (.head _))
    rcases hbody h with ⟨s', hrun, hpost⟩ | ⟨s', kept', hrun, hinv⟩
    · refine ⟨s', ?_, hpost⟩
      rw [forEachSafe, if_neg hhead, hrun]
    · -- the node that was read before the body ran is the next one, and it
      -- is still in use
      obtain ⟨n, hn⟩ := exists_head? head rest
      obtain rfl := (hring h).adjacent_next hn |>.next_eq hnx
      obtain ⟨nx', hnx'⟩ := (hring hinv).exists_next hn
      obtain ⟨t, hloop, hpost⟩ := ih hinv (show rest.length < fuel by omega)
        hn hnx'
      refine ⟨t, ?_, hpost⟩
      rw [forEachSafe, if_neg hhead, hrun]
      simp only [hnx']
      exact hloop

end Loop

end RingList
