import Mathlib.Data.List.Basic
import Mathlib.Data.Set.Function
import Mathlib.Logic.Function.Basic

/-!
# Memory behind an address map

A memory of cells that programs reach through addresses.  The map from
addresses to cells need not be one to one: two addresses that reach one cell
are aliases.

* `fill_of_not_mem` is the frame rule: a fill changes only the cells that its
  addresses reach.
* `read_fill` reads a filled address back, also through an alias, when the
  filled addresses reach different cells.
* `fill_restore` needs no such condition: writing back what was read restores
  the memory, whatever the aliases are.
-/

namespace AliasedMemory

variable {Addr Cell V : Type*} [DecidableEq Cell] {view : Addr → Cell}
  {mem : Cell → V} {f : Addr → V} {as : List Addr}

/-- The value at an address. -/
def read (view : Addr → Cell) (mem : Cell → V) (a : Addr) : V := mem (view a)

/-- One write through the map. -/
def write (view : Addr → Cell) (mem : Cell → V) (a : Addr) (v : V) : Cell → V :=
  Function.update mem (view a) v

/-- Write `f` to the addresses of a list, one after another. -/
def fill (view : Addr → Cell) (f : Addr → V) :
    List Addr → (Cell → V) → Cell → V
  | [], mem => mem
  | a :: as, mem => fill view f as (write view mem a (f a))

@[simp] theorem fill_nil : fill view f [] mem = mem := rfl

@[simp] theorem fill_cons (a : Addr) :
    fill view f (a :: as) mem = fill view f as (write view mem a (f a)) := rfl

/-- A cell that no address of the list reaches keeps its value. -/
theorem fill_of_not_mem {c : Cell} (hc : ∀ a ∈ as, view a ≠ c) :
    fill view f as mem c = mem c := by
  induction as generalizing mem with
  | nil => rfl
  | cons a as ih =>
    rw [fill_cons, ih fun b hb => hc b (List.mem_cons_of_mem a hb)]
    exact Function.update_of_ne (Ne.symm (hc a List.mem_cons_self)) _ _

/-- When all writes to a cell agree, the cell holds what they wrote. -/
theorem fill_of_agree {c : Cell} {v : V} (hc : ∃ a ∈ as, view a = c)
    (hv : ∀ a ∈ as, view a = c → f a = v) : fill view f as mem c = v := by
  induction as generalizing mem with
  | nil => simp at hc
  | cons a as ih =>
    rw [fill_cons]
    by_cases hlater : ∃ b ∈ as, view b = c
    · exact ih hlater fun b hb => hv b (List.mem_cons_of_mem a hb)
    · have hself : view a = c := by
        obtain ⟨b, hb, hbc⟩ := hc
        rcases List.mem_cons.mp hb with rfl | hb
        · exact hbc
        · exact absurd ⟨b, hb, hbc⟩ hlater
      rw [fill_of_not_mem fun b hb hbc => hlater ⟨b, hb, hbc⟩, write, hself,
        Function.update_self]
      exact hv a List.mem_cons_self hself

/-- An address that reaches the cell of a filled one reads what was filled
in. -/
theorem read_fill {a b : Addr} (hinj : Set.InjOn view {x | x ∈ as})
    (ha : a ∈ as) (hb : view b = view a) :
    read view (fill view f as mem) b = f a := by
  unfold read
  apply fill_of_agree ⟨a, ha, hb.symm⟩
  intro x hx hxc
  rw [hinj hx ha (hxc.trans hb)]

/-- An address that reaches no filled cell reads what was there. -/
theorem read_fill_of_apart {b : Addr} (hb : ∀ a ∈ as, view a ≠ view b) :
    read view (fill view f as mem) b = read view mem b :=
  fill_of_not_mem hb

/-- Two memories that differ in cells of the list at most become equal when
the old values are written back. -/
theorem fill_restore {mem' : Cell → V}
    (h : ∀ c, (∀ a ∈ as, view a ≠ c) → mem' c = mem c) :
    fill view (read view mem) as mem' = mem := by
  funext c
  by_cases hc : ∃ a ∈ as, view a = c
  · apply fill_of_agree hc
    intro a _ hac
    exact congrArg mem hac
  · have hnone : ∀ a ∈ as, view a ≠ c := fun a ha hac => hc ⟨a, ha, hac⟩
    rw [fill_of_not_mem hnone, h c hnone]

/-- Saving, filling and writing back leaves the memory as it was. -/
theorem fill_read_fill : fill view (read view mem) as (fill view f as mem) = mem :=
  fill_restore fun _ hc => fill_of_not_mem hc

end AliasedMemory
