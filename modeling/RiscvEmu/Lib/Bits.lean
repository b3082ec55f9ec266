/-
Flags and fields of a machine word.

Code that keeps flags in a word tests a flag with `x &&& 1 <<< k ≠ 0`, sets it with `|||` and clears it with
`&&& ~~~`. Results, at any width:
- `and_bit_ne_zero`: the test is bit k;
- `getLsbD_putBit`: setting or clearing a flag changes that bit only;
- `ite_bit`, `ite_or_bit`, `shift_field`, `put_field`: copying flags and fields bit by bit is masking;
- `toNat_and_mask`, `toNat_and_not_mask`: masking the low bits is a remainder, clearing them rounds down;
- `and_field_eq`: the test that a field is all ones;
- `put_and_mask`, `put_and_not_mask`: a field given a value;
- `append_inj`, `setWidth_append`, `ite_sub_eq_signExtend`, `ite_or_eq_signExtend`: concatenation by shifts, sign extension by a
  subtraction or a disjunction;
- `even_add`, `even_signExtend`, `even_and_not_one`: even words.
-/
import Mathlib.Data.BitVec
import Mathlib.Tactic.Common

namespace Bits

variable {w : ℕ}

theorem getLsbD_bit {k i : ℕ} (hi : i < w) : (1#w <<< k).getLsbD i = decide (i = k) := by
  rw [← BitVec.twoPow_eq, BitVec.getLsbD_twoPow]
  by_cases hk : k = i
  · simp [hk, hi]
  · simp [hk, Ne.symm hk]

theorem and_bit_ne_zero (x : BitVec w) {k : ℕ} : x &&& 1#w <<< k ≠ 0 ↔ x.getLsbD k = true := by
  rw [← BitVec.twoPow_eq, BitVec.and_twoPow]
  split_ifs with h
  · have hk : k < w := BitVec.lt_of_getLsbD h
    simp only [h, iff_true]
    intro hz
    have := congrArg (fun y : BitVec w => y.getLsbD k) hz
    simp [hk] at this
  · simp [h]

theorem and_bit_eq_zero (x : BitVec w) {k : ℕ} : x &&& 1#w <<< k = 0 ↔ x.getLsbD k = false := by
  rw [← Bool.not_eq_true, ← and_bit_ne_zero, not_not]

/-- flag k of x given the value b -/
def putBit (x : BitVec w) (k : ℕ) (b : Bool) : BitVec w := if b then x ||| 1#w <<< k else x &&& ~~~(1#w <<< k)

theorem getLsbD_putBit (x : BitVec w) (k : ℕ) (b : Bool) {i : ℕ} (hi : i < w) :
    (putBit x k b).getLsbD i = if i = k then b else x.getLsbD i := by
  unfold putBit
  cases b with
  | false =>
    rw [if_neg Bool.false_ne_true, BitVec.getLsbD_and, BitVec.getLsbD_not, getLsbD_bit hi]
    by_cases hk : i = k
    · simp only [hk, decide_true, Bool.not_true, Bool.and_false, if_true]
    · simp only [hk, decide_false, Bool.not_false, Bool.and_true, if_false, hi, decide_true]
  | true =>
    rw [if_pos rfl, BitVec.getLsbD_or, getLsbD_bit hi]
    by_cases hk : i = k
    · simp only [hk, decide_true, Bool.or_true, if_true]
    · simp only [hk, decide_false, Bool.or_false, if_false]

/-- a flag set or cleared by a test of another word -/
theorem ite_eq_putBit (x y : BitVec w) (j k : ℕ) :
    (if y &&& 1#w <<< j ≠ 0 then x ||| 1#w <<< k else x &&& ~~~(1#w <<< k)) = putBit x k (y.getLsbD j) := by
  unfold putBit
  by_cases h : y.getLsbD j = true
  · rw [if_pos ((and_bit_ne_zero y).2 h), if_pos h]
  · rw [if_neg (fun hn => h ((and_bit_ne_zero y).1 hn)), if_neg h]

theorem ite_bit (x : BitVec w) (k : ℕ) : (if x &&& 1#w <<< k ≠ 0 then 1#w <<< k else 0) = x &&& 1#w <<< k := by
  by_cases h : x.getLsbD k = true
  · rw [if_pos ((and_bit_ne_zero x).2 h), ← BitVec.twoPow_eq, BitVec.and_twoPow, if_pos h]
  · rw [if_neg (fun hn => h ((and_bit_ne_zero x).1 hn)), ← BitVec.twoPow_eq,
      BitVec.and_twoPow, if_neg h]
    rfl

theorem ite_or_bit (m x : BitVec w) (k : ℕ) :
    (if x &&& 1#w <<< k ≠ 0 then m ||| 1#w <<< k else m) = m ||| x &&& 1#w <<< k := by
  have hb := ite_bit x k
  by_cases h : x &&& 1#w <<< k ≠ 0
  · rw [if_pos h] at hb ⊢
    rw [← hb]
  · rw [if_neg h] at hb ⊢
    rw [← hb]
    exact BitVec.or_zero.symm

theorem shift_field (x f : BitVec w) (k : ℕ) : ((x &&& f <<< k) >>> k) <<< k = x &&& f <<< k := by
  apply BitVec.eq_of_getLsbD_eq
  intro i hi
  by_cases hk : i < k
  · simp [hk]
  · have : k + (i - k) = i := by omega
    simp [hk, hi, this]

theorem put_field (x f : BitVec w) (k : ℕ) : (x >>> k &&& f) <<< k = x &&& f <<< k := by
  apply BitVec.eq_of_getLsbD_eq
  intro i hi
  by_cases hk : i < k
  · simp [hk]
  · have : k + (i - k) = i := by omega
    simp [hk, hi, this]

/-- masking with the low k bits is the remainder by 2^k -/
theorem toNat_and_mask (x m : BitVec w) {k : ℕ} (hm : m.toNat = 2 ^ k - 1) : (x &&& m).toNat = x.toNat % 2 ^ k := by
  rw [BitVec.toNat_and, hm, Nat.and_two_pow_sub_one_eq_mod]

/-- masking with the low k bits keeps the low k bits -/
theorem and_mask_eq_setWidth (x m : BitVec w) {k : ℕ} (hm : m.toNat = 2 ^ k - 1) (hk : k ≤ w) :
    x &&& m = (x.setWidth k).setWidth w := by
  have hpow : 2 ^ k ≤ 2 ^ w := Nat.pow_le_pow_right (by decide) hk
  have hlt : x.toNat % 2 ^ k < 2 ^ k := Nat.mod_lt _ (Nat.two_pow_pos k)
  refine BitVec.eq_of_toNat_eq ?_
  rw [toNat_and_mask x m hm, BitVec.toNat_setWidth, BitVec.toNat_setWidth]
  exact (Nat.mod_eq_of_lt (lt_of_lt_of_le hlt hpow)).symm

/-- a field is all ones -/
theorem and_field_eq (x f : BitVec w) {e k : ℕ} (hf : f.toNat = 2 ^ e - 1) (hw : e + k ≤ w) :
    x &&& f <<< k = f <<< k ↔ x.toNat / 2 ^ k % 2 ^ e = 2 ^ e - 1 := by
  have hshift : ∀ y : BitVec w, y.toNat < 2 ^ e → (y <<< k).toNat = y.toNat * 2 ^ k := by
    intro y hy
    have hlt : y.toNat * 2 ^ k < 2 ^ w := by
      calc y.toNat * 2 ^ k
        _ < 2 ^ e * 2 ^ k := Nat.mul_lt_mul_of_pos_right hy (Nat.two_pow_pos k)
        _ = 2 ^ (e + k) := (pow_add 2 e k).symm
        _ ≤ 2 ^ w := Nat.pow_le_pow_right (by decide) hw
    rw [BitVec.toNat_shiftLeft, Nat.shiftLeft_eq, Nat.mod_eq_of_lt hlt]
  have hfield : (x >>> k &&& f).toNat = x.toNat / 2 ^ k % 2 ^ e := by
    rw [toNat_and_mask _ f hf, BitVec.toNat_ushiftRight, Nat.shiftRight_eq_div_pow]
  have hlt : (x >>> k &&& f).toNat < 2 ^ e := hfield ▸ Nat.mod_lt _ (Nat.two_pow_pos e)
  have hf' : f.toNat < 2 ^ e := by rw [hf]; exact Nat.sub_lt (Nat.two_pow_pos e) Nat.one_pos
  rw [← put_field, BitVec.toNat_eq, hshift _ hlt, hshift _ hf', Nat.mul_left_inj (Nat.two_pow_pos k).ne', hfield, hf]

/-- clearing the k low bits -/
theorem toNat_and_not_mask (x m : BitVec w) {k : ℕ} (hm : m.toNat = 2 ^ k - 1) :
    (x &&& ~~~m).toNat = x.toNat / 2 ^ k * 2 ^ k := by
  have hshift : x &&& ~~~m = (x >>> k) <<< k := by
    apply BitVec.eq_of_getLsbD_eq
    intro i hi
    have hbit : m.getLsbD i = decide (i < k) := by rw [← BitVec.testBit_toNat, hm, Nat.testBit_two_pow_sub_one]
    rw [BitVec.getLsbD_and, BitVec.getLsbD_not, hbit, BitVec.getLsbD_shiftLeft, BitVec.getLsbD_ushiftRight]
    by_cases hlow : i < k
    · simp [hlow]
    · simp [hlow, hi, Nat.add_sub_cancel' (Nat.not_lt.1 hlow)]
  have hle := Nat.div_mul_le_self x.toNat (2 ^ k)
  have hlt := x.isLt
  rw [hshift, BitVec.toNat_shiftLeft, BitVec.toNat_ushiftRight, Nat.shiftRight_eq_div_pow, Nat.shiftLeft_eq,
    Nat.mod_eq_of_lt (by omega)]

/-- a field given a value, seen through its mask -/
theorem put_and_mask (x v m : BitVec w) : (x &&& ~~~m ||| v &&& m) &&& m = v &&& m := by
  apply BitVec.eq_of_getLsbD_eq
  intro i hi
  simp only [BitVec.getLsbD_and, BitVec.getLsbD_or, BitVec.getLsbD_not]
  cases m.getLsbD i <;> simp

/-- and beside it -/
theorem put_and_not_mask (x v m : BitVec w) : (x &&& ~~~m ||| v &&& m) &&& ~~~m = x &&& ~~~m := by
  apply BitVec.eq_of_getLsbD_eq
  intro i hi
  simp only [BitVec.getLsbD_and, BitVec.getLsbD_or, BitVec.getLsbD_not]
  cases m.getLsbD i <;> simp

theorem append_inj {m n : ℕ} {x x' : BitVec m} {y y' : BitVec n} : x ++ y = x' ++ y' ↔ x = x' ∧ y = y' := by
  constructor
  · intro h
    have hl := congrArg (BitVec.extractLsb' n m) h
    have hr := congrArg (BitVec.extractLsb' 0 n) h
    rw [BitVec.extractLsb'_append_eq_left, BitVec.extractLsb'_append_eq_left] at hl
    rw [BitVec.extractLsb'_append_eq_right, BitVec.extractLsb'_append_eq_right] at hr
    exact ⟨hl, hr⟩
  · rintro ⟨rfl, rfl⟩
    rfl

/-- a concatenation, widened, is a disjunction of shifted parts -/
theorem setWidth_append {m n v : ℕ} (x : BitVec m) (y : BitVec n) :
    (x ++ y).setWidth v = x.setWidth v <<< n ||| y.setWidth v := by
  apply BitVec.eq_of_getLsbD_eq
  intro i hi
  rw [BitVec.getLsbD_setWidth, BitVec.getLsbD_append, BitVec.getLsbD_or, BitVec.getLsbD_shiftLeft,
    BitVec.getLsbD_setWidth, BitVec.getLsbD_setWidth]
  by_cases hn : i < n
  · simp [hi, hn]
  · have hy : y.getLsbD i = false := BitVec.getLsbD_of_ge y i (Nat.le_of_not_lt hn)
    have hlt : i - n < v := by omega
    simp [hi, hn, hy, hlt]

/-- sign extension as a test of the sign bit and a subtraction -/
theorem ite_sub_eq_signExtend {v : ℕ} (x : BitVec w) (h : w < v) :
    (if x.msb then x.setWidth v - BitVec.ofNat v (2 ^ w) else x.setWidth v) = x.signExtend v := by
  have hpow : 2 ^ w < 2 ^ v := Nat.pow_lt_pow_right (by decide) h
  have hx := x.isLt
  apply BitVec.eq_of_toNat_eq
  rw [BitVec.toNat_signExtend, BitVec.toNat_setWidth]
  split_ifs
  · rw [BitVec.toNat_sub, BitVec.toNat_setWidth, BitVec.toNat_ofNat, Nat.mod_eq_of_lt hpow,
      Nat.mod_eq_of_lt (hx.trans hpow), Nat.mod_eq_of_lt (by omega)]
    omega
  · rw [BitVec.toNat_setWidth, Nat.add_zero]

/-- sign extension as a test of the sign bit and a disjunction -/
theorem ite_or_eq_signExtend {v : ℕ} (x : BitVec w) :
    (if x.msb then x.setWidth v ||| BitVec.allOnes v <<< w else x.setWidth v) = x.signExtend v := by
  apply BitVec.eq_of_getLsbD_eq
  intro i hi
  rw [BitVec.getLsbD_signExtend]
  by_cases hw : i < w
  · split_ifs <;> simp [hi, hw]
  · have hx : x.getLsbD i = false := BitVec.getLsbD_of_ge x i (Nat.le_of_not_lt hw)
    split_ifs with hm
    · simp [hi, hw, hm]
    · simp [hi, hm, hx]

/-- the sign bit of a widened word -/
theorem setWidth_and_signBit {v : ℕ} (x : BitVec w) (h : w < v) :
    x.setWidth v &&& 1#v <<< (w - 1) ≠ 0 ↔ x.msb = true := by
  have hlt : w - 1 < v := by omega
  rw [and_bit_ne_zero, BitVec.getLsbD_setWidth, BitVec.msb_eq_getLsbD_last, decide_eq_true hlt, Bool.true_and]

/-! ## Even words -/

theorem low_bit_eq_zero (x : BitVec w) : x &&& 1#w = 0 ↔ x.getLsbD 0 = false := by
  have h := and_bit_eq_zero x (k := 0)
  rwa [BitVec.shiftLeft_zero] at h

theorem even_add {x y : BitVec w} (hx : x &&& 1#w = 0) (hy : y &&& 1#w = 0) : (x + y) &&& 1#w = 0 := by
  rw [low_bit_eq_zero] at hx hy ⊢
  by_cases hw : 0 < w
  · rw [BitVec.getLsbD_add hw, hx, hy]
    simp
  · exact BitVec.getLsbD_of_ge _ _ (by omega)

theorem even_signExtend {n : ℕ} (x : BitVec n) : (x ++ 0#1).signExtend w &&& 1#w = 0 := by
  rw [low_bit_eq_zero, BitVec.getLsbD_signExtend, BitVec.getLsbD_append]
  simp

theorem even_and_not_one {x : BitVec w} (hx : x &&& 1#w = 0) : x &&& ~~~1#w = x := by
  have hb := (low_bit_eq_zero x).1 hx
  apply BitVec.eq_of_getLsbD_eq
  intro i hi
  rw [BitVec.getLsbD_and, BitVec.getLsbD_not, BitVec.getLsbD_one]
  by_cases h : i = 0
  · subst h
    rw [hb]
    rfl
  · simp [hi, h]

end Bits
