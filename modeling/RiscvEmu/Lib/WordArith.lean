/-
Products of twice the width and truncated division on words, over an arbitrary width.
Results:
- `high_append_low`: the high and the low word of a product of twice the width;
- `signed_product`, `unsigned_product`, `mixed_product`: such a product is exact;
- `sdiv_mul_add_srem`, `udiv_mul_add_umod`: dividend = quotient * divisor + remainder, for every divisor;
- `natAbs_srem_lt`, `srem_sign`, `umod_lt`: how large the remainder is, and its sign.
-/
import Mathlib.Data.BitVec
import Mathlib.Tactic.Linarith

namespace WordArith

variable {w : ℕ}

/-! ## Products -/

/-- the high word, by a shift in either fashion, and the low word -/
theorem high_append_low (p : BitVec (w + w)) : (p.sshiftRight w).setWidth w ++ p.setWidth w = p := by
  apply BitVec.eq_of_getLsbD_eq
  intro i hi
  rw [BitVec.getLsbD_append]
  by_cases hlow : i < w
  · rw [if_pos hlow, BitVec.getLsbD_setWidth, decide_eq_true hlow, Bool.true_and]
  · rw [if_neg hlow, BitVec.getLsbD_setWidth, BitVec.getLsbD_sshiftRight]
    have hin : w + (i - w) < w + w := by omega
    rw [decide_eq_true (by omega : i - w < w), decide_eq_false (by omega : ¬ w + w ≤ i - w), if_pos hin, Bool.true_and,
      Bool.not_false, Bool.true_and, show w + (i - w) = i by omega]

theorem ushiftRight_high (p : BitVec (w + w)) : (p >>> w).setWidth w = (p.sshiftRight w).setWidth w := by
  apply BitVec.eq_of_getLsbD_eq
  intro i hi
  rw [BitVec.getLsbD_setWidth, BitVec.getLsbD_setWidth, BitVec.getLsbD_ushiftRight, BitVec.getLsbD_sshiftRight,
    decide_eq_false (by omega : ¬ w + w ≤ i), if_pos (by omega : w + i < w + w), Bool.not_false, Bool.true_and]

theorem low_signExtend (x : BitVec w) : (x.signExtend (w + w)).setWidth w = x := by
  apply BitVec.eq_of_getLsbD_eq
  intro i hi
  rw [BitVec.getLsbD_setWidth, BitVec.getLsbD_signExtend, decide_eq_true hi, decide_eq_true (by omega : i < w + w), if_pos hi,
    Bool.true_and, Bool.true_and]

theorem low_setWidth (x : BitVec w) : (x.setWidth (w + w)).setWidth w = x := by
  rw [BitVec.setWidth_setWidth_of_le _ (Nat.le_add_left w w), BitVec.setWidth_eq]

/-- signed by signed -/
theorem signed_product (x y : BitVec w) : (x.signExtend (w + w) * y.signExtend (w + w)).toInt = x.toInt * y.toInt := by
  rw [BitVec.toInt_mul, BitVec.toInt_signExtend_of_le (Nat.le_add_left w w), BitVec.toInt_signExtend_of_le (Nat.le_add_left w w)]
  rcases Nat.eq_zero_or_pos w with rfl | hw
  · rw [BitVec.eq_nil x, BitVec.eq_nil y]
    decide
  · have hle := BitVec.toInt_mul_toInt_le (x := x) (y := y)
    have hge := BitVec.le_toInt_mul_toInt (x := x) (y := y)
    have hpow : (2 : ℤ) ^ (w + w) = 2 ^ (w * 2 - 2) * 4 := by
      rw [show w + w = w * 2 - 2 + 2 by omega, pow_add]
      rfl
    have hpos : (0 : ℤ) < 2 ^ (w * 2 - 2) := by positivity
    refine Int.bmod_eq_of_le_mul_two ?_ ?_ <;> push_cast <;> omega

/-- unsigned by unsigned -/
theorem unsigned_product (x y : BitVec w) : (x.setWidth (w + w) * y.setWidth (w + w)).toNat = x.toNat * y.toNat := by
  have hwide : ∀ z : BitVec w, (z.setWidth (w + w)).toNat = z.toNat := fun z =>
    BitVec.toNat_setWidth_of_le (Nat.le_add_left w w)
  rw [BitVec.toNat_mul, hwide, hwide, pow_add]
  exact Nat.mod_eq_of_lt (Nat.mul_lt_mul'' x.isLt y.isLt)

/-- signed by unsigned -/
theorem mixed_product (x y : BitVec w) : (x.signExtend (w + w) * y.setWidth (w + w)).toInt = x.toInt * y.toNat := by
  rw [BitVec.toInt_mul, BitVec.toInt_signExtend_of_le (Nat.le_add_left w w), BitVec.toInt_setWidth, Int.mul_bmod_bmod]
  have hge := BitVec.le_two_mul_toInt (x := x)
  have hlt := BitVec.two_mul_toInt_lt (x := x)
  have hy : (y.toNat : ℤ) < 2 ^ w := by exact_mod_cast y.isLt
  have hpos : (0 : ℤ) < 2 ^ w := by positivity
  refine Int.bmod_eq_of_le_mul_two ?_ ?_ <;> push_cast <;> rw [pow_add]
  · nlinarith
  · nlinarith

/-! ## Division -/

/-- signed, also by 0 and where the quotient wraps -/
theorem sdiv_mul_add_srem (x y : BitVec w) : x.sdiv y * y + x.srem y = x := by
  apply BitVec.toInt_inj.1
  calc (x.sdiv y * y + x.srem y).toInt
    _ = (x.toInt.tdiv y.toInt * y.toInt + x.toInt.tmod y.toInt).bmod (2 ^ w) := by
      rw [BitVec.toInt_add, BitVec.toInt_mul, BitVec.toInt_sdiv, BitVec.toInt_srem, Int.bmod_mul_bmod,
        Int.bmod_add_bmod]
    _ = x.toInt.bmod (2 ^ w) := by rw [Int.mul_comm, Int.mul_tdiv_add_tmod]
    _ = x.toInt := BitVec.toInt_bmod_cancel x

theorem udiv_mul_add_umod (x y : BitVec w) : x / y * y + x % y = x := by
  apply BitVec.eq_of_toNat_eq
  calc (x / y * y + x % y).toNat
    _ = (x.toNat / y.toNat * y.toNat + x.toNat % y.toNat) % 2 ^ w := by
      rw [BitVec.toNat_add, BitVec.toNat_mul, BitVec.toNat_udiv, BitVec.toNat_umod, Nat.mod_add_mod]
    _ = x.toNat % 2 ^ w := by rw [Nat.mul_comm, Nat.div_add_mod]
    _ = x.toNat := Nat.mod_eq_of_lt x.isLt

theorem natAbs_srem_lt (x : BitVec w) {y : BitVec w} (hy : y ≠ 0) : (x.srem y).toInt.natAbs < y.toInt.natAbs := by
  rw [BitVec.toInt_srem, Int.natAbs_tmod]
  exact Nat.mod_lt _ (Int.natAbs_pos.2 fun h => hy (BitVec.toInt_inj.1 (h.trans BitVec.toInt_zero.symm)))

/-- the remainder has the sign of the dividend -/
theorem srem_sign (x y : BitVec w) : (x.srem y).toInt = 0 ∨ ((x.srem y).toInt < 0 ↔ x.toInt < 0) := by
  rw [BitVec.toInt_srem]
  by_cases hx : x.toInt < 0
  · have hneg := Int.tmod_nonneg y.toInt (by omega : 0 ≤ -x.toInt)
    rw [Int.neg_tmod] at hneg
    omega
  · have hpos := Int.tmod_nonneg y.toInt (by omega : 0 ≤ x.toInt)
    omega

end WordArith
