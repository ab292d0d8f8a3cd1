import Mathlib.Data.List.Basic

/-!
# Frames in a stream

Frames follow each other in a stream.  Each starts with a header of fixed length,
from which the length of the rest is read.

`Splits` says that a stream is some frames and the start of one more.  A receiver
that takes a frame from the front takes the first of these (`Splits.uncons`), and
what it keeps in the end is that start (`Splits.eq_nil`).  So the
frames do not depend on the pieces in which it is given the stream.
-/

/-- A header of `hdr` items, from which `size` reads how many follow. -/
structure Framing (α : Type*) where
  hdr : Nat
  size : List α → Nat

namespace Framing

variable {α : Type*} (F : Framing α)

/-- How long the frame is that starts so, as far as one can tell. -/
def need (p : List α) : Nat :=
  if p.length < F.hdr then F.hdr else F.hdr + F.size (p.take F.hdr)

def IsFrame (f : List α) : Prop := F.hdr ≤ f.length ∧ f.length = F.need f

/-- The start of a frame to which something is missing. -/
def IsPartial (r : List α) : Prop := r.length < F.need r

/-- The header, when it is complete, announces at most `n` items. -/
def Fits (n : Nat) (p : List α) : Prop := F.hdr ≤ p.length → F.size (p.take F.hdr) ≤ n

instance (f : List α) : Decidable (F.IsFrame f) :=
  inferInstanceAs (Decidable (_ ∧ _))

instance (r : List α) : Decidable (F.IsPartial r) :=
  inferInstanceAs (Decidable (_ < _))

instance (n : Nat) (p : List α) : Decidable (F.Fits n p) :=
  inferInstanceAs (Decidable (_ → _))

variable {F} {n : Nat} {f g p q r xs ys : List α} {fs : List (List α)}

theorem need_of_lt (h : p.length < F.hdr) : F.need p = F.hdr := if_pos h

theorem need_of_le (h : F.hdr ≤ p.length) : F.need p = F.hdr + F.size (p.take F.hdr) :=
  if_neg (Nat.not_lt.mpr h)

/-- What follows the header does not change it. -/
theorem take_hdr_of_start (h : p <+: q) (hp : F.hdr ≤ p.length) :
    q.take F.hdr = p.take F.hdr := by
  obtain ⟨t, rfl⟩ := h
  exact List.take_append_of_le_length hp

theorem need_of_start (h : p <+: q) (hp : F.hdr ≤ p.length) : F.need q = F.need p := by
  rw [need_of_le hp, need_of_le (Nat.le_trans hp h.length_le), take_hdr_of_start h hp]

theorem Fits.of_start (hq : F.Fits n q) (h : p <+: q) : F.Fits n p := by
  intro hp
  rw [← take_hdr_of_start h hp]
  exact hq (Nat.le_trans hp h.length_le)

theorem IsPartial.of_start (hq : F.IsPartial q) (h : p <+: q) : F.IsPartial p := by
  show p.length < F.need p
  rcases Nat.lt_or_ge p.length F.hdr with hp | hp
  · rw [need_of_lt hp]
    exact hp
  · rw [← need_of_start h hp]
    exact Nat.lt_of_le_of_lt h.length_le hq

theorem IsFrame.not_isPartial (hf : F.IsFrame f) (h : f <+: xs) : ¬ F.IsPartial xs := by
  intro hxs
  have hfp : f.length < F.need f := hxs.of_start h
  have heq := hf.2
  omega

/-- A stream starts with one frame only. -/
theorem IsFrame.append_inj (hf : F.IsFrame f) (hg : F.IsFrame g) (h : f ++ xs = g ++ ys) :
    f = g ∧ xs = ys := by
  have hfx : f <+: f ++ xs := List.prefix_append f xs
  have hgx : g <+: f ++ xs := h ▸ List.prefix_append g ys
  have hlen : f.length = g.length := by
    rw [hf.2, hg.2, ← need_of_start hfx hf.1, ← need_of_start hgx hg.1]
  exact List.append_inj h hlen

/-! ## Streams -/

/-- The stream is the frames `fs` and the start `r` of one more, and no header
announces more than `n` items. -/
structure Splits (F : Framing α) (n : Nat) (xs : List α) (fs : List (List α)) (r : List α) :
    Prop where
  eq : xs = fs.flatten ++ r
  isFrame : ∀ f ∈ fs, F.IsFrame f
  fits : ∀ f ∈ fs, F.Fits n f
  isPartial : F.IsPartial r
  restFits : F.Fits n r

namespace Splits

theorem cons_eq (h : Splits F n xs (f :: fs) r) : xs = f ++ (fs.flatten ++ r) := by
  rw [h.eq, List.flatten_cons, List.append_assoc]

/-- The frame at the front is the first one. -/
theorem uncons (h : Splits F n (f ++ xs) fs r) (hf : F.IsFrame f) :
    ∃ fs', fs = f :: fs' ∧ Splits F n xs fs' r := by
  cases fs with
  | nil =>
    have hr : f ++ xs = r := h.eq
    exact absurd h.isPartial (hf.not_isPartial (hr ▸ List.prefix_append f xs))
  | cons g fs =>
    obtain ⟨hg, hframes⟩ := List.forall_mem_cons.mp h.isFrame
    obtain ⟨rfl, hxs⟩ := hf.append_inj hg h.cons_eq
    exact ⟨fs, rfl, hxs, hframes, (List.forall_mem_cons.mp h.fits).2, h.isPartial, h.restFits⟩

/-- No header that one comes to announces too much. -/
theorem fits_of_start (h : Splits F n xs fs r) (hp : p <+: xs) : F.Fits n p := by
  refine Fits.of_start ?_ hp
  cases fs with
  | nil =>
    have hxs : xs = r := h.eq
    rw [hxs]
    exact h.restFits
  | cons f fs =>
    intro hlen
    have hf := (List.forall_mem_cons.mp h.isFrame).1
    have hpre : f <+: xs := h.cons_eq ▸ List.prefix_append _ _
    rw [take_hdr_of_start hpre hf.1]
    exact (List.forall_mem_cons.mp h.fits).1 hf.1

/-- What is no frame yet is all that is left. -/
theorem eq_nil (h : Splits F n p fs r) (hp : F.IsPartial p) : fs = [] ∧ p = r := by
  cases fs with
  | nil => exact ⟨rfl, h.eq⟩
  | cons f fs =>
    have hf := (List.forall_mem_cons.mp h.isFrame).1
    exact absurd hp (hf.not_isPartial (h.cons_eq ▸ List.prefix_append _ _))

end Splits

end Framing
