/-
The four formats as binary interchange formats.

f_extension.c tests NaNs, infinities and signs by masks. Results:
- `isNan_eq`, `isInf_eq`, `isNegative_eq`: the masks say what the fields of the pattern say;
- `ComparesIeee`: what the comparisons of the library have to do with the numbers;
- `totalLe_antisymm` and its siblings: the total order of the patterns that are not NaN.
-/
import RiscvEmu.FExtension
import RiscvEmu.Lib.Bits
import RiscvEmu.Lib.Ieee

namespace RiscvEmu

namespace Fmt

def format : Fmt → Ieee.Format
  | S => ⟨8, 23, by decide⟩
  | D => ⟨11, 52, by decide⟩
  | H => ⟨5, 10, by decide⟩
  | Q => ⟨15, 112, by decide⟩

theorem width_eq (fmt : Fmt) : fmt.width = fmt.format.expWidth + fmt.format.mantWidth + 1 := by cases fmt <;> rfl

theorem expBits_eq (fmt : Fmt) :
    fmt.expBits = BitVec.ofNat fmt.width (2 ^ fmt.format.expWidth - 1) <<< fmt.format.mantWidth := by
  cases fmt <;> rfl

theorem mantBits_toNat (fmt : Fmt) : fmt.mantBits.toNat = 2 ^ fmt.format.mantWidth - 1 := by cases fmt <;> rfl

theorem signBit_eq (fmt : Fmt) : fmt.signBit = BitVec.ofNat fmt.width 1 <<< (fmt.format.expWidth + fmt.format.mantWidth) := by
  cases fmt <;> rfl

end Fmt

section
variable {fmt : Fmt} (x : BitVec fmt.width)

theorem expBits_iff : x &&& fmt.expBits = fmt.expBits ↔
    Ieee.expField fmt.format x.toNat = 2 ^ fmt.format.expWidth - 1 := by
  have hf : (BitVec.ofNat fmt.width (2 ^ fmt.format.expWidth - 1)).toNat = 2 ^ fmt.format.expWidth - 1 := by
    cases fmt <;> rfl
  rw [fmt.expBits_eq]
  exact Bits.and_field_eq x _ hf (by rw [fmt.width_eq]; omega)

theorem mantBits_iff : x &&& fmt.mantBits = 0 ↔ Ieee.mantissa fmt.format x.toNat = 0 := by
  rw [BitVec.toNat_eq, Bits.toNat_and_mask x _ fmt.mantBits_toNat]
  rfl

theorem isNan_eq : isNan x = Ieee.isNan fmt.format x.toNat := by
  have hmant : x &&& fmt.mantBits ≠ 0 ↔ Ieee.mantissa fmt.format x.toNat ≠ 0 := not_congr (mantBits_iff x)
  rw [Bool.eq_iff_iff, isNan, Ieee.isNan, Bool.and_eq_true, decide_eq_true_eq, decide_eq_true_eq, decide_eq_true_eq,
    expBits_iff, hmant]

theorem isInf_eq : isInf x = Ieee.isInf fmt.format x.toNat := by
  rw [Bool.eq_iff_iff, isInf, Ieee.isInf, Bool.and_eq_true, decide_eq_true_eq, decide_eq_true_eq, decide_eq_true_eq,
    expBits_iff, mantBits_iff]

theorem isNegative_eq : isNegative x = Ieee.isNegative fmt.format x.toNat := by
  have hlt : x.toNat < 2 ^ (fmt.format.expWidth + fmt.format.mantWidth + 1) := fmt.width_eq ▸ x.isLt
  rw [Bool.eq_iff_iff, isNegative, Ieee.isNegative, decide_eq_true_eq, decide_eq_true_eq, fmt.signBit_eq,
    Bits.and_bit_ne_zero, ← BitVec.testBit_toNat]
  exact ⟨Nat.ge_two_pow_of_testBit, fun hle => Nat.testBit_of_two_pow_le_and_two_pow_add_one_gt hle hlt⟩

/-- the number, the infinities included -/
def ieeeValue : WithBot (WithTop ℚ) := Ieee.extended fmt.format x.toNat

end

/-- softfloat's eq and lt are the comparison of numbers on operands that are not NaN -/
structure ComparesIeee [SoftFloat] (fmt : Fmt) : Prop where
  eq : ∀ a b : BitVec fmt.width, isNan a = false → isNan b = false →
    (((SoftFloat.ops fmt).eq a b).1 = true ↔ ieeeValue a = ieeeValue b)
  lt : ∀ a b : BitVec fmt.width, isNan a = false → isNan b = false →
    (((SoftFloat.ops fmt).lt a b).1 = true ↔ ieeeValue a < ieeeValue b)

/-- the total order: -0 is before +0 -/
def totalLe {fmt : Fmt} (a b : BitVec fmt.width) : Prop :=
  ieeeValue a < ieeeValue b ∨ ieeeValue a = ieeeValue b ∧ (isNegative b = true → isNegative a = true)

section
variable {fmt : Fmt} {a b c : BitVec fmt.width}

theorem totalLe_iff : totalLe a b ↔ Ieee.totalLe fmt.format a.toNat b.toNat := by
  rw [totalLe, Ieee.totalLe, isNegative_eq, isNegative_eq]
  rfl

theorem totalLe_refl (a : BitVec fmt.width) : totalLe a a := totalLe_iff.2 (Ieee.totalLe_refl _)

theorem totalLe_trans (hab : totalLe a b) (hbc : totalLe b c) : totalLe a c :=
  totalLe_iff.2 (Ieee.totalLe_trans (totalLe_iff.1 hab) (totalLe_iff.1 hbc))

theorem totalLe_total (a b : BitVec fmt.width) : totalLe a b ∨ totalLe b a := by
  rw [totalLe_iff, totalLe_iff]
  exact Ieee.totalLe_total _ _

theorem totalLe_antisymm (ha : isNan a = false) (hb : isNan b = false) (hab : totalLe a b) (hba : totalLe b a) : a = b := by
  have hlt : ∀ x : BitVec fmt.width, x.toNat < 2 ^ (fmt.format.expWidth + fmt.format.mantWidth + 1) := fun x =>
    fmt.width_eq ▸ x.isLt
  rw [isNan_eq] at ha hb
  exact BitVec.eq_of_toNat_eq
    (Ieee.totalLe_antisymm (hlt a) (hlt b) ha hb (totalLe_iff.1 hab) (totalLe_iff.1 hba))

end

end RiscvEmu
