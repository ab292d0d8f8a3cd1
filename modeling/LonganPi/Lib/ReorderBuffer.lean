import Mathlib.Data.List.Nodup
import Mathlib.Data.List.Sort
import Mathlib.Tactic.SplitIfs

/-!
# A reorder buffer over unbounded numbers

A receiver gets numbered items out of order and passes them on in order.  The
head is the next number it waits for.  Items from the head on are kept, sorted
by number, until the gap before them is closed.  An item that is `w` or more
ahead moves the head, which gives up the gap.  A timeout gives it up too.  An
item behind the head is passed on at once.

* `Ok.step`: the kept items are sorted, and lie behind the head and inside of
  the window.
* `delivered_sorted`: when no item comes behind the head, the items are passed
  on with increasing numbers.
* `recovery`: when every item comes at most `w` late and no timeout is taken,
  the items that are passed on are the ones before the first gap, each once and
  in order, and the others are kept.
-/

namespace ReorderBuffer

variable {α : Type*}

/-- The next number, the items kept back, and the items passed on. -/
structure Buffer (α : Type*) where
  head : Option ℕ
  pending : List (ℕ × α)
  delivered : List (ℕ × α)

/-- What can happen to a buffer. -/
inductive Event (α : Type*) where
  | receive (x : ℕ × α)
  | timeout

/-- A buffer that waits for its first item. -/
def Buffer.empty : Buffer α := ⟨none, [], []⟩

/-- Increasing numbers. -/
def Sorted (l : List (ℕ × α)) : Prop := l.Pairwise fun x y => x.1 < y.1

/-- `x` at its place, or `none` when its number is there. -/
def insert (x : ℕ × α) : List (ℕ × α) → Option (List (ℕ × α))
  | [] => some [x]
  | y :: l =>
    if y.1 < x.1 then (insert x l).map (y :: ·)
    else if y.1 = x.1 then none
    else some (x :: y :: l)

/-- The head after the items without a gap before them. -/
def advance : ℕ → List (ℕ × α) → ℕ
  | h, [] => h
  | h, x :: l => if x.1 ≤ h then advance (if x.1 = h then h + 1 else h) l else h

/-- The head after an item with the number `n`. -/
def slide (w h n : ℕ) : ℕ :=
  if n = h then h + 1 else if h + w ≤ n then n + 1 - w else h

/-- The item is behind the head. -/
def behind (h : ℕ) (x : ℕ × α) : Bool := decide (x.1 < h)

theorem behind_of_lt {h : ℕ} {x : ℕ × α} (hlt : x.1 < h) : behind h x = true :=
  decide_eq_true hlt

/-- Passes on what is behind the new head. -/
def release (b : Buffer α) (h : ℕ) (l : List (ℕ × α)) : Buffer α where
  head := some (advance h l)
  pending := l.dropWhile (behind (advance h l))
  delivered := b.delivered ++ l.takeWhile (behind (advance h l))

/-- An item with a number that is kept already is dropped. -/
def receive (w : ℕ) (b : Buffer α) (x : ℕ × α) : Buffer α :=
  let h := b.head.getD x.1
  if x.1 < h then { b with delivered := b.delivered ++ [x] }
  else
    match insert x b.pending with
    | none => b
    | some l => release b (slide w h x.1) l

/-- The gap before the first kept item is given up. -/
def timeout (b : Buffer α) : Buffer α :=
  match b.pending with
  | [] => b
  | x :: l => release b x.1 (x :: l)

def step (w : ℕ) (b : Buffer α) : Event α → Buffer α
  | .receive x => receive w b x
  | .timeout => timeout b

def run (w : ℕ) (es : List (Event α)) (b : Buffer α) : Buffer α :=
  es.foldl (step w) b

/-! ## Insertion -/

theorem insert_perm {x : ℕ × α} {l l' : List (ℕ × α)} (h : insert x l = some l') :
    l'.Perm (x :: l) := by
  induction l generalizing l' with
  | nil =>
    rw [← Option.some.inj h]
  | cons y l ih =>
    unfold insert at h
    split_ifs at h with hlt heq
    · obtain ⟨l₁, hl₁, rfl⟩ := Option.map_eq_some_iff.mp h
      exact ((ih hl₁).cons y).trans (List.Perm.swap x y l)
    · rw [← Option.some.inj h]

theorem Sorted.insert {x : ℕ × α} {l l' : List (ℕ × α)} (hl : Sorted l)
    (h : insert x l = some l') : Sorted l' := by
  induction l generalizing l' with
  | nil =>
    rw [← Option.some.inj h]
    exact List.pairwise_singleton _ _
  | cons y l ih =>
    obtain ⟨hfirst, hrest⟩ := List.pairwise_cons.mp hl
    unfold ReorderBuffer.insert at h
    split_ifs at h with hlt heq
    · obtain ⟨l₁, hl₁, rfl⟩ := Option.map_eq_some_iff.mp h
      refine List.pairwise_cons.mpr ⟨fun z hz => ?_, ih hrest hl₁⟩
      rcases List.mem_cons.mp ((insert_perm hl₁).mem_iff.mp hz) with rfl | hin
      · exact hlt
      · exact hfirst z hin
    · rw [← Option.some.inj h]
      refine List.pairwise_cons.mpr ⟨fun z hz => ?_, hl⟩
      rcases List.mem_cons.mp hz with rfl | hin
      · omega
      · have := hfirst z hin
        omega

/-- Only a number that is there is refused. -/
theorem mem_of_insert_eq_none {x : ℕ × α} {l : List (ℕ × α)}
    (h : insert x l = none) : x.1 ∈ l.map Prod.fst := by
  induction l with
  | nil => cases h
  | cons y l ih =>
    unfold insert at h
    split_ifs at h with hlt heq
    · exact List.mem_cons_of_mem _ (ih (Option.map_eq_none_iff.mp h))
    · exact heq ▸ List.mem_cons_self

/-! ## The head -/

theorem le_advance (h : ℕ) (l : List (ℕ × α)) : h ≤ advance h l := by
  induction l generalizing h with
  | nil => exact le_refl h
  | cons x l ih =>
    unfold advance
    split_ifs with hle heq
    · have := ih (h + 1)
      omega
    · exact ih h
    · exact le_refl h

/-- The new head is not among the items. -/
theorem ne_advance {h : ℕ} {l : List (ℕ × α)} (hl : Sorted l) :
    ∀ x ∈ l, x.1 ≠ advance h l := by
  induction l generalizing h with
  | nil =>
    intro x hx
    cases hx
  | cons y l ih =>
    obtain ⟨hfirst, hrest⟩ := List.pairwise_cons.mp hl
    intro x hx
    unfold advance
    rcases List.mem_cons.mp hx with rfl | hin
    · split_ifs with hle heq
      · have := le_advance (h + 1) l
        omega
      · have := le_advance h l
        omega
      · omega
    · split_ifs with hle heq
      · exact ih hrest x hin
      · exact ih hrest x hin
      · have := hfirst x hin
        omega

/-- Every number that the head passes is one of an item. -/
theorem mem_of_lt_advance {h n : ℕ} {l : List (ℕ × α)} (hle : h ≤ n)
    (hlt : n < advance h l) : n ∈ l.map Prod.fst := by
  induction l generalizing h with
  | nil =>
    have : n < h := hlt
    omega
  | cons x l ih =>
    unfold advance at hlt
    split_ifs at hlt with hxh heq
    · by_cases hnh : n = h
      · rw [hnh, ← heq]
        exact List.mem_cons_self
      · exact List.mem_cons_of_mem _ (ih (by omega) hlt)
    · exact List.mem_cons_of_mem _ (ih hle hlt)
    · omega

theorem advance_le {h m : ℕ} {l : List (ℕ × α)} (hh : h ≤ m)
    (hl : ∀ x ∈ l, x.1 < m) : advance h l ≤ m := by
  induction l generalizing h with
  | nil => exact hh
  | cons x l ih =>
    have hx := hl x List.mem_cons_self
    have hl' : ∀ y ∈ l, y.1 < m := fun y hy => hl y (List.mem_cons_of_mem _ hy)
    unfold advance
    split_ifs with hle heq
    · exact ih (by omega) hl'
    · exact ih hh hl'
    · exact hh

theorem lt_slide_add {w h n : ℕ} (hw : 0 < w) : n < slide w h n + w := by
  unfold slide
  split_ifs <;> omega

theorem le_slide (w h n : ℕ) : h ≤ slide w h n := by
  unfold slide
  split_ifs <;> omega

theorem slide_le {w h n : ℕ} (hle : h ≤ n) : slide w h n ≤ n + 1 := by
  unfold slide
  split_ifs <;> omega

/-! ## The items on the two sides of the head -/

theorem lt_of_mem_takeWhile {h : ℕ} {l : List (ℕ × α)} {x : ℕ × α}
    (hx : x ∈ l.takeWhile (behind h)) : x.1 < h := by
  induction l with
  | nil => cases hx
  | cons y l ih =>
    by_cases hlt : behind h y = true
    · rw [List.takeWhile_cons_of_pos hlt] at hx
      rcases List.mem_cons.mp hx with rfl | hin
      · exact of_decide_eq_true hlt
      · exact ih hin
    · rw [List.takeWhile_cons_of_neg hlt] at hx
      cases hx

theorem le_of_mem_dropWhile {h : ℕ} {l : List (ℕ × α)} (hl : Sorted l) {x : ℕ × α}
    (hx : x ∈ l.dropWhile (behind h)) : h ≤ x.1 := by
  induction l with
  | nil => cases hx
  | cons y l ih =>
    obtain ⟨hfirst, hrest⟩ := List.pairwise_cons.mp hl
    by_cases hlt : behind h y = true
    · rw [List.dropWhile_cons_of_pos hlt] at hx
      exact ih hrest hx
    · rw [List.dropWhile_cons_of_neg hlt] at hx
      have hle : h ≤ y.1 := not_lt.mp fun h' => hlt (decide_eq_true h')
      rcases List.mem_cons.mp hx with rfl | hin
      · exact hle
      · have := hfirst x hin
        omega

theorem Sorted.dropWhile {l : List (ℕ × α)} (hl : Sorted l) (p : ℕ × α → Bool) :
    Sorted (l.dropWhile p) :=
  List.Pairwise.sublist (List.dropWhile_sublist p) hl

theorem Sorted.takeWhile {l : List (ℕ × α)} (hl : Sorted l) (p : ℕ × α → Bool) :
    Sorted (l.takeWhile p) :=
  List.Pairwise.sublist (List.takeWhile_sublist p) hl

/-- A release neither loses nor adds an item. -/
theorem release_append (b : Buffer α) (h : ℕ) (l : List (ℕ × α)) :
    (release b h l).delivered ++ (release b h l).pending = b.delivered ++ l := by
  show b.delivered ++ l.takeWhile (behind (advance h l)) ++
    l.dropWhile (behind (advance h l)) = _
  rw [List.append_assoc, List.takeWhile_append_dropWhile]

/-! ## The window -/

/-- The kept items are sorted and inside of the window. -/
structure Ok (w : ℕ) (b : Buffer α) : Prop where
  sorted : Sorted b.pending
  fresh : b.head = none → b.pending = []
  window : ∀ h, b.head = some h → ∀ x ∈ b.pending, h < x.1 ∧ x.1 < h + w

/-- The window, with the head of a first item. -/
theorem Ok.window_getD {w : ℕ} {b : Buffer α} (hb : Ok w b) (n : ℕ) :
    ∀ x ∈ b.pending, b.head.getD n < x.1 ∧ x.1 < b.head.getD n + w := by
  intro x hx
  cases hhead : b.head with
  | none =>
    rw [hb.fresh hhead] at hx
    cases hx
  | some h => exact hb.window h hhead x hx

theorem Ok.empty (w : ℕ) : Ok w (Buffer.empty : Buffer α) :=
  ⟨List.Pairwise.nil, fun _ => rfl, fun _ h => by cases h⟩

theorem Ok.release {w h : ℕ} {b : Buffer α} {l : List (ℕ × α)} (hl : Sorted l)
    (hw : ∀ x ∈ l, x.1 < h + w) : Ok w (release b h l) := by
  refine ⟨hl.dropWhile _, fun hnone => (by cases hnone), fun h' hh' x hx => ?_⟩
  obtain rfl := Option.some.inj hh'
  have hmem := (List.dropWhile_sublist _).subset hx
  have hle := le_of_mem_dropWhile hl hx
  have hne := ne_advance (h := h) hl x hmem
  have hadv := le_advance h l
  have hwin := hw x hmem
  omega

theorem Ok.receive {w : ℕ} (hw : 0 < w) {b : Buffer α} (hb : Ok w b) (x : ℕ × α) :
    Ok w (receive w b x) := by
  unfold ReorderBuffer.receive
  simp only
  split_ifs with hlate
  · exact ⟨hb.sorted, hb.fresh, hb.window⟩
  · cases hins : ReorderBuffer.insert x b.pending with
    | none => exact hb
    | some l =>
      apply Ok.release (hb.sorted.insert hins)
      intro y hy
      rcases List.mem_cons.mp ((insert_perm hins).mem_iff.mp hy) with rfl | hin
      · exact lt_slide_add hw
      · have hslide := le_slide w (b.head.getD x.1) x.1
        have hwin := hb.window_getD x.1 y hin
        omega

theorem Ok.timeout {w : ℕ} {b : Buffer α} (hb : Ok w b) : Ok w (timeout b) := by
  unfold ReorderBuffer.timeout
  cases hpend : b.pending with
  | nil => exact hb
  | cons x l =>
    have hl : Sorted (x :: l) := hpend ▸ hb.sorted
    apply Ok.release hl
    intro y hy
    cases hhead : b.head with
    | none =>
      rw [hb.fresh hhead] at hpend
      cases hpend
    | some h =>
      have hx := (hb.window h hhead x (hpend ▸ List.mem_cons_self)).1
      have hy' := (hb.window h hhead y (hpend ▸ hy)).2
      omega

theorem Ok.step {w : ℕ} (hw : 0 < w) {b : Buffer α} (hb : Ok w b) (e : Event α) :
    Ok w (step w b e) := by
  cases e with
  | receive x => exact hb.receive hw x
  | timeout => exact hb.timeout

/-- The head never moves back. -/
theorem le_head_receive {w : ℕ} {b : Buffer α} {x : ℕ × α} {h : ℕ}
    (hhead : (receive w b x).head = some h) : b.head.getD x.1 ≤ h := by
  have hold : b.head = some h → b.head.getD x.1 ≤ h := by
    intro hb
    rw [hb]
    exact le_refl h
  unfold receive at hhead
  simp only at hhead
  split_ifs at hhead with hlate
  · exact hold hhead
  · cases hins : insert x b.pending with
    | none =>
      rw [hins] at hhead
      exact hold hhead
    | some l =>
      rw [hins] at hhead
      rw [← Option.some.inj hhead]
      exact (le_slide w _ _).trans (le_advance _ l)

theorem Ok.le_head_timeout {w h h' : ℕ} {b : Buffer α} (hb : Ok w b)
    (hhead : b.head = some h) (hhead' : (ReorderBuffer.timeout b).head = some h') :
    h ≤ h' := by
  unfold ReorderBuffer.timeout at hhead'
  cases hpend : b.pending with
  | nil =>
    rw [hpend, hhead] at hhead'
    exact (Option.some.inj hhead').le
  | cons x l =>
    rw [hpend] at hhead'
    rw [← Option.some.inj hhead']
    have hx := hb.window h hhead x (hpend ▸ List.mem_cons_self)
    exact hx.1.le.trans (le_advance x.1 _)

/-! ## The order of what is passed on -/

/-- What was passed on is in order and behind the head. -/
structure InOrder (b : Buffer α) : Prop where
  sorted : Sorted b.delivered
  fresh : b.head = none → b.delivered = []
  behind : ∀ h, b.head = some h → ∀ x ∈ b.delivered, x.1 < h

theorem Sorted.append {l₁ l₂ : List (ℕ × α)} (h₁ : Sorted l₁) (h₂ : Sorted l₂) {h : ℕ}
    (hlo : ∀ x ∈ l₁, x.1 < h) (hhi : ∀ x ∈ l₂, h ≤ x.1) : Sorted (l₁ ++ l₂) := by
  refine List.pairwise_append.mpr ⟨h₁, h₂, fun x hx y hy => ?_⟩
  have hx' := hlo x hx
  have hy' := hhi y hy
  omega

/-- A release passes on items that are not behind the old head `h₀`. -/
theorem InOrder.release {h₀ h : ℕ} {b : Buffer α} {l : List (ℕ × α)}
    (hb : Sorted b.delivered) (hlo : ∀ x ∈ b.delivered, x.1 < h₀) (hle : h₀ ≤ h)
    (hl : Sorted l) (hhi : ∀ x ∈ l, h₀ ≤ x.1) : InOrder (release b h l) := by
  refine ⟨hb.append (hl.takeWhile _) hlo fun x hx =>
    hhi x ((List.takeWhile_sublist _).subset hx), fun hnone => (by cases hnone),
    fun h' hh' x hx => ?_⟩
  obtain rfl := Option.some.inj hh'
  rcases List.mem_append.mp hx with hold | hnew
  · have := hlo x hold
    have := le_advance h l
    omega
  · exact lt_of_mem_takeWhile hnew

/-- No item of the events comes behind the head. -/
def InTime (w : ℕ) : List (Event α) → Buffer α → Prop
  | [], _ => True
  | e :: es, b =>
    (∀ x, e = .receive x → b.head.getD x.1 ≤ x.1) ∧ InTime w es (step w b e)

theorem InOrder.step {w : ℕ} {b : Buffer α} (hb : InOrder b) (hok : Ok w b)
    {e : Event α} (htime : ∀ x, e = .receive x → b.head.getD x.1 ≤ x.1) :
    InOrder (step w b e) := by
  cases e with
  | receive x =>
    have hx : b.head.getD x.1 ≤ x.1 := htime x rfl
    show InOrder (receive w b x)
    unfold receive
    rw [if_neg (not_lt.mpr hx)]
    cases hins : ReorderBuffer.insert x b.pending with
    | none => exact hb
    | some l =>
      refine InOrder.release hb.sorted (fun y hy => ?_) (le_slide w _ _)
        (hok.sorted.insert hins) fun y hy => ?_
      · cases hhead : b.head with
        | none =>
          rw [hb.fresh hhead] at hy
          cases hy
        | some h => exact hb.behind h hhead y hy
      · rcases List.mem_cons.mp ((insert_perm hins).mem_iff.mp hy) with rfl | hin
        · exact hx
        · cases hhead : b.head with
          | none =>
            rw [hok.fresh hhead] at hin
            cases hin
          | some h => exact (hok.window h hhead y hin).1.le
  | timeout =>
    show InOrder (timeout b)
    unfold timeout
    cases hpend : b.pending with
    | nil => exact hb
    | cons x l =>
      have hl : Sorted (x :: l) := hpend ▸ hok.sorted
      cases hhead : b.head with
      | none =>
        rw [hok.fresh hhead] at hpend
        cases hpend
      | some h =>
        have hwin := hok.window h hhead
        rw [hpend] at hwin
        exact InOrder.release hb.sorted (hb.behind h hhead)
          (hwin x List.mem_cons_self).1.le hl fun y hy => (hwin y hy).1.le

/-- When no item comes behind the head, the numbers that are passed on
increase. -/
theorem delivered_sorted {w : ℕ} (hw : 0 < w) {es : List (Event α)} {b : Buffer α}
    (hok : Ok w b) (hb : InOrder b) (htime : InTime w es b) :
    Sorted (run w es b).delivered := by
  induction es generalizing b with
  | nil => exact hb.sorted
  | cons e es ih => exact ih (hok.step hw e) (hb.step hok htime.1) htime.2

theorem InOrder.empty : InOrder (Buffer.empty : Buffer α) :=
  ⟨List.Pairwise.nil, fun _ => rfl, fun _ h => by cases h⟩

/-! ## Recovery of the order -/

/-- After the numbers `seen`, the number `n` is new, and every number that it
is `w` or more ahead of is among them.  The first number is `base`. -/
structure Admissible (w base : ℕ) (seen : List ℕ) (n : ℕ) : Prop where
  le : base ≤ n
  fresh : n ∉ seen
  reach : ∀ m, base ≤ m → m + w ≤ n → m ∈ seen
  first : seen = [] → n = base

/-- The numbers of a list are displaced by less than `w`. -/
def Displaced (w base : ℕ) : List ℕ → List (ℕ × α) → Prop
  | _, [] => True
  | seen, x :: xs =>
    Admissible w base seen x.1 ∧ Displaced w base (seen ++ [x.1]) xs

/-- The state after the items `seen`: what is before the first gap is passed
on, and the rest is kept. -/
structure Recovered (base : ℕ) (seen : List (ℕ × α)) (b : Buffer α) : Prop where
  inOrder : InOrder b
  sorted : Sorted b.pending
  perm : (b.delivered ++ b.pending).Perm seen
  fresh : b.head = none → seen = []
  above : ∀ h, b.head = some h → base ≤ h ∧ ∀ x ∈ b.pending, h < x.1
  closed : ∀ h, b.head = some h → ∀ n, base ≤ n → n < h → n ∈ seen.map Prod.fst

/-- The head itself is the first number that is missing. -/
theorem Recovered.head_not_mem {base h : ℕ} {seen : List (ℕ × α)} {b : Buffer α}
    (hb : Recovered base seen b) (hhead : b.head = some h) :
    h ∉ seen.map Prod.fst := by
  intro hmem
  obtain ⟨x, hx, hxh⟩ := List.mem_map.mp hmem
  rcases List.mem_append.mp (hb.perm.mem_iff.mpr hx) with hdel | hpend
  · have := hb.inOrder.behind h hhead x hdel
    omega
  · have := (hb.above h hhead).2 x hpend
    omega

/-- An admissible item is inside of the window. -/
theorem Recovered.window {w base h : ℕ} {seen : List (ℕ × α)} {b : Buffer α}
    (hb : Recovered base seen b) (hhead : b.head = some h) {n : ℕ}
    (hn : Admissible w base (seen.map Prod.fst) n) : h ≤ n ∧ n < h + w := by
  constructor
  · by_contra hlt
    exact hn.fresh (hb.closed h hhead n hn.le (by omega))
  · by_contra hfar
    exact hb.head_not_mem hhead (hn.reach h (hb.above h hhead).1 (by omega))

theorem slide_eq_of_lt {w h n : ℕ} (hlt : n < h + w) :
    slide w h n = if n = h then h + 1 else h := by
  unfold slide
  split_ifs
  · rfl
  · omega
  · rfl

theorem Recovered.insert {base : ℕ} {seen : List (ℕ × α)} {b : Buffer α}
    (hb : Recovered base seen b) {x : ℕ × α} (hfresh : x.1 ∉ seen.map Prod.fst) :
    ∃ l, insert x b.pending = some l := by
  cases hins : ReorderBuffer.insert x b.pending with
  | some l => exact ⟨l, rfl⟩
  | none =>
    obtain ⟨y, hy, hyx⟩ := List.mem_map.mp (mem_of_insert_eq_none hins)
    refine absurd ?_ hfresh
    rw [← hyx]
    exact List.mem_map_of_mem (hb.perm.mem_iff.mp (List.mem_append_right _ hy))

/-- The release after the item `x`, with the head `h₀` before it and the head
`h` that is at most one further. -/
theorem Recovered.release {base h₀ h : ℕ} {seen l : List (ℕ × α)} {b : Buffer α}
    (hb : Recovered base seen b) {x : ℕ × α} (hl : Sorted l)
    (hperm : l.Perm (x :: b.pending)) (hx : h₀ ≤ x.1) (hbase : base ≤ h₀)
    (hh : h = if x.1 = h₀ then h₀ + 1 else h₀)
    (hlo : ∀ y ∈ b.delivered, y.1 < h₀) (hhi : ∀ y ∈ b.pending, h₀ ≤ y.1)
    (hclosed : ∀ n, base ≤ n → n < h₀ → n ∈ seen.map Prod.fst) :
    Recovered base (seen ++ [x]) (release b h l) := by
  have hle : h₀ ≤ h := by rw [hh]; split_ifs <;> omega
  have hl' : ∀ y ∈ l, h₀ ≤ y.1 := by
    intro y hy
    rcases List.mem_cons.mp (hperm.mem_iff.mp hy) with rfl | hin
    · exact hx
    · exact hhi y hin
  have hsplit : (b.delivered ++ l).Perm (seen ++ [x]) := calc
    (b.delivered ++ l).Perm (b.delivered ++ x :: b.pending) := hperm.append_left _
    List.Perm _ (x :: (b.delivered ++ b.pending)) := List.perm_middle
    List.Perm _ (x :: seen) := hb.perm.cons x
    List.Perm _ (seen ++ [x]) := (List.perm_append_singleton x seen).symm
  refine ⟨InOrder.release hb.inOrder.sorted hlo hle hl hl', hl.dropWhile _, ?_,
    fun hnone => (by cases hnone), fun h' hh' => ⟨?_, fun y hy => ?_⟩,
    fun h' hh' n hn hlt => ?_⟩
  · rw [release_append]
    exact hsplit
  · obtain rfl := Option.some.inj hh'
    have := le_advance h l
    omega
  · obtain rfl := Option.some.inj hh'
    have := le_of_mem_dropWhile hl hy
    have := ne_advance (h := h) hl y ((List.dropWhile_sublist _).subset hy)
    omega
  · obtain rfl := Option.some.inj hh'
    rw [List.map_append]
    by_cases hold : n < h₀
    · exact List.mem_append_left _ (hclosed n hn hold)
    · by_cases hnx : n = x.1
      · exact List.mem_append_right _ (by rw [hnx]; exact List.mem_singleton_self _)
      · have hhn : h ≤ n := by rw [hh]; split_ifs <;> omega
        obtain ⟨y, hy, hyn⟩ := List.mem_map.mp (mem_of_lt_advance hhn hlt)
        have hmem := hsplit.mem_iff.mp (List.mem_append_right b.delivered hy)
        rw [← List.map_append, ← hyn]
        exact List.mem_map_of_mem hmem

theorem Recovered.receive {w base : ℕ} {seen : List (ℕ × α)} {b : Buffer α}
    (hb : Recovered base seen b) {x : ℕ × α}
    (hx : Admissible w base (seen.map Prod.fst) x.1) :
    Recovered base (seen ++ [x]) (receive w b x) := by
  obtain ⟨l, hl⟩ := hb.insert hx.fresh
  have hsorted := hb.sorted.insert hl
  unfold ReorderBuffer.receive
  rw [hl]
  cases hhead : b.head with
  | none =>
    have hseen := hb.fresh hhead
    have hnil := List.append_eq_nil_iff.mp (hseen ▸ hb.perm).eq_nil
    have hbase : x.1 = base := hx.first (by rw [hseen]; rfl)
    show Recovered base _ (if x.1 < x.1 then _ else _)
    rw [if_neg (lt_irrefl _)]
    have hslide : slide w x.1 x.1 = x.1 + 1 := if_pos rfl
    refine hb.release hsorted (insert_perm hl) (le_refl x.1) hbase.ge
      (by rw [if_pos rfl]; exact hslide) ?_ ?_ fun n hn hlt => by omega
    · rw [hnil.1]
      intro y hy
      cases hy
    · rw [hnil.2]
      intro y hy
      cases hy
  | some h =>
    obtain ⟨hle, hlt⟩ := hb.window hhead hx
    show Recovered base _ (if x.1 < h then _ else _)
    rw [if_neg (not_lt.mpr hle)]
    exact hb.release hsorted (insert_perm hl) hle (hb.above h hhead).1 (slide_eq_of_lt hlt)
      (hb.inOrder.behind h hhead) (fun y hy => ((hb.above h hhead).2 y hy).le)
      (hb.closed h hhead)

theorem Recovered.run {w base : ℕ} {seen : List (ℕ × α)} {b : Buffer α}
    (hb : Recovered base seen b) {xs : List (ℕ × α)}
    (hxs : Displaced w base (seen.map Prod.fst) xs) :
    Recovered base (seen ++ xs) (run w (xs.map .receive) b) := by
  induction xs generalizing seen b with
  | nil =>
    rw [List.append_nil]
    exact hb
  | cons x xs ih =>
    have hrest : Displaced w base ((seen ++ [x]).map Prod.fst) xs := by
      rw [List.map_append]
      exact hxs.2
    have := ih (hb.receive hxs.1) hrest
    rwa [List.append_assoc] at this

theorem Recovered.empty (base : ℕ) : Recovered base [] (Buffer.empty : Buffer α) :=
  ⟨InOrder.empty, List.Pairwise.nil, List.Perm.refl _, fun _ => rfl,
    fun _ h => (by cases h), fun _ h => (by cases h)⟩

/-- What is passed on has the numbers from `base` up to the head. -/
theorem Recovered.delivered_eq {base h : ℕ} {seen : List (ℕ × α)} {b : Buffer α}
    (hb : Recovered base seen b) (hhead : b.head = some h)
    (hseen : ∀ x ∈ seen, base ≤ x.1) :
    b.delivered.map Prod.fst = List.range' base (h - base) := by
  have hsorted : (b.delivered.map Prod.fst).Pairwise (· < ·) :=
    List.pairwise_map.mpr hb.inOrder.sorted
  have hmem : ∀ n, n ∈ b.delivered.map Prod.fst ↔ n ∈ List.range' base (h - base) := by
    intro n
    have hbase := (hb.above h hhead).1
    rw [List.mem_range'_1]
    constructor
    · intro hn
      obtain ⟨x, hx, rfl⟩ := List.mem_map.mp hn
      have := hb.inOrder.behind h hhead x hx
      have := hseen x (hb.perm.mem_iff.mp (List.mem_append_left _ hx))
      omega
    · intro hn
      obtain ⟨x, hx, hxn⟩ := List.mem_map.mp (hb.closed h hhead n hn.1 (by omega))
      rcases List.mem_append.mp (hb.perm.mem_iff.mpr hx) with hdel | hpend
      · exact hxn ▸ List.mem_map_of_mem hdel
      · have := (hb.above h hhead).2 x hpend
        omega
  have hperm := (List.perm_ext_iff_of_nodup
    (hsorted.imp fun hlt => Nat.ne_of_lt hlt) List.nodup_range').mpr hmem
  exact hperm.eq_of_pairwise (fun a b _ _ hab hba => absurd hab (lt_asymm hba)) hsorted
    List.pairwise_lt_range'

theorem Displaced.le {w base : ℕ} {seen : List ℕ} {xs : List (ℕ × α)}
    (h : Displaced w base seen xs) : ∀ x ∈ xs, base ≤ x.1 := by
  induction xs generalizing seen with
  | nil =>
    intro x hx
    cases hx
  | cons y xs ih =>
    intro x hx
    rcases List.mem_cons.mp hx with rfl | hin
    · exact h.1.le
    · exact ih h.2 x hin

/-- Items that are displaced by less than `w` are passed on in order up to the
first number that is missing, and the others are kept. -/
theorem recovery {w base : ℕ} {xs : List (ℕ × α)} (hxs : Displaced w base [] xs) :
    let b := run w (xs.map .receive) Buffer.empty
    (b.delivered ++ b.pending).Perm xs ∧ Sorted b.pending ∧
      ∃ k, b.delivered.map Prod.fst = List.range' base k ∧
        base + k ∉ xs.map Prod.fst ∧ ∀ x ∈ b.pending, base + k < x.1 := by
  intro b
  have hb : Recovered base xs b := (Recovered.empty base).run hxs
  refine ⟨hb.perm, hb.sorted, ?_⟩
  cases hhead : b.head with
  | none =>
    have hseen := hb.fresh hhead
    have hnil := List.append_eq_nil_iff.mp (hseen ▸ hb.perm).eq_nil
    refine ⟨0, by rw [hnil.1]; rfl, by rw [hseen]; exact List.not_mem_nil, ?_⟩
    rw [hnil.2]
    intro x hx
    cases hx
  | some h =>
    have hbase := (hb.above h hhead).1
    have hk : base + (h - base) = h := by omega
    refine ⟨h - base, hb.delivered_eq hhead hxs.le, ?_, ?_⟩
    · rw [hk]
      exact hb.head_not_mem hhead
    · rw [hk]
      exact (hb.above h hhead).2

end ReorderBuffer
