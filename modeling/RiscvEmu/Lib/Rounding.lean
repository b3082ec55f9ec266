/-
Rounding to an integer.

A rounding answers one of the two integers around its argument; besides floor and ceiling there are the three that look at
the sign or at the nearer neighbour. Results:
- `IsRounding.neg`, `IsRounding.pos`: what is rounded below zero is negative, what is rounded above zero is positive;
- `nearestEven_isRounding` and its siblings: the five modes are roundings.
-/
import Mathlib.Algebra.Order.Floor.Ring
import Mathlib.Algebra.Order.Round
import Mathlib.Tactic.Linarith

namespace Rounding

variable {α : Type} [Field α] [LinearOrder α] [FloorRing α]

/-- an integer next to x, for every x -/
def IsRounding (f : α → ℤ) : Prop := ∀ x, ⌊x⌋ ≤ f x ∧ f x ≤ ⌈x⌉

def towardZero (x : α) : ℤ := if 0 ≤ x then ⌊x⌋ else ⌈x⌉

/-- the nearer neighbour, of two at one distance the one `up` selects -/
def nearest (up : α → Bool) (x : α) : ℤ :=
  if x - ⌊x⌋ < 1 / 2 then ⌊x⌋
  else if 1 / 2 < x - ⌊x⌋ then ⌊x⌋ + 1
  else if up x then ⌊x⌋ + 1 else ⌊x⌋

/-- ties to even -/
def nearestEven (x : α) : ℤ := nearest (fun x => ⌊x⌋ % 2 = 1) x

/-- ties away from zero -/
def nearestAway (x : α) : ℤ := nearest (fun x => 0 ≤ x) x

section
variable {f : α → ℤ} {x : α}

theorem IsRounding.neg (h : IsRounding f) (hneg : f x < 0) : x < 0 := by
  have hfloor := (h x).1
  exact Int.floor_lt_zero.1 (lt_of_le_of_lt hfloor hneg)

theorem IsRounding.pos (h : IsRounding f) (hpos : 0 < f x) : 0 < x := by
  have hceil := (h x).2
  exact Int.ceil_pos.1 (lt_of_lt_of_le hpos hceil)

end

variable [IsStrictOrderedRing α]

theorem floor_isRounding : IsRounding (fun x : α => ⌊x⌋) := fun x => ⟨le_rfl, Int.floor_le_ceil x⟩

theorem ceil_isRounding : IsRounding (fun x : α => ⌈x⌉) := fun x => ⟨Int.floor_le_ceil x, le_rfl⟩

theorem towardZero_isRounding : IsRounding (towardZero : α → ℤ) := by
  intro x
  unfold towardZero
  split_ifs
  · exact floor_isRounding x
  · exact ceil_isRounding x

/-- where the floor is not the nearer one, the ceiling is above it -/
theorem nearest_isRounding (up : α → Bool) : IsRounding (nearest up) := by
  intro x
  have hfloor := floor_isRounding x
  unfold nearest
  by_cases hlow : x - ⌊x⌋ < 1 / 2
  · rw [if_pos hlow]
    exact hfloor
  · have hlt : (⌊x⌋ : α) < x := by linarith
    have hceil : ⌊x⌋ + 1 ≤ ⌈x⌉ := Int.lt_ceil.2 hlt
    rw [if_neg hlow]
    split_ifs
    · exact ⟨by omega, hceil⟩
    · exact ⟨by omega, hceil⟩
    · exact hfloor

theorem nearestEven_isRounding : IsRounding (nearestEven : α → ℤ) := nearest_isRounding _

theorem nearestAway_isRounding : IsRounding (nearestAway : α → ℤ) := nearest_isRounding _

end Rounding
