/-
Ranges of a memory and layouts: ranges that lie inside it and pairwise apart.

Results:
- `apart_iff_disjoint`: nonempty ranges are apart exactly when no offset is in both;
- `layout_append`: a layout of two lists is a layout of each, with every range of the one apart from those of the other.
-/
import Mathlib.Order.CompletePartialOrder
import Mathlib.Order.Interval.Set.Disjoint
import Mathlib.Tactic.Common

namespace Ranges

structure Range where
  start : ℕ
  len : ℕ
deriving DecidableEq

def Range.Within (r : Range) (size : ℕ) : Prop := r.start + r.len ≤ size

/-- one ends before the other starts -/
def Range.Apart (r s : Range) : Prop := r.start + r.len ≤ s.start ∨ s.start + s.len ≤ r.start

instance (r : Range) (size : ℕ) : Decidable (r.Within size) := inferInstanceAs (Decidable (_ ≤ _))
instance (r s : Range) : Decidable (r.Apart s) := inferInstanceAs (Decidable (_ ∨ _))

/-- the offsets in a range -/
def Range.offsets (r : Range) : Set ℕ := Set.Ico r.start (r.start + r.len)

theorem apart_iff_disjoint {r s : Range} (hr : 0 < r.len) (hs : 0 < s.len) :
    r.Apart s ↔ Disjoint r.offsets s.offsets := by
  rw [Range.offsets, Range.offsets, Set.Ico_disjoint_Ico, Range.Apart]
  omega

/-- the ranges fit a memory of the size beside each other -/
structure Layout (size : ℕ) (rs : List Range) : Prop where
  within : ∀ r ∈ rs, r.Within size
  apart : rs.Pairwise Range.Apart

theorem layout_append {size : ℕ} {rs ss : List Range} :
    Layout size (rs ++ ss) ↔ Layout size rs ∧ Layout size ss ∧ ∀ r ∈ rs, ∀ s ∈ ss, r.Apart s := by
  constructor
  · intro h
    obtain ⟨hrs, hss, hcross⟩ := List.pairwise_append.mp h.apart
    exact ⟨⟨fun r hr => h.within r (List.mem_append_left _ hr), hrs⟩,
      ⟨fun s hs => h.within s (List.mem_append_right _ hs), hss⟩, hcross⟩
  · rintro ⟨hrs, hss, hcross⟩
    refine ⟨?_, List.pairwise_append.mpr ⟨hrs.apart, hss.apart, hcross⟩⟩
    intro r hr
    exact (List.mem_append.mp hr).elim (hrs.within r) (hss.within r)

end Ranges
