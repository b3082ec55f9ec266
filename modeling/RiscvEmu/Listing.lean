/-
The words of the instruction listing, in the fields exec and disasm decode.

`listed` and `mnemonic` speak of rows; here they are read opcode by opcode. Results:
- `covers_iff`, `listed_iff`, `named_iff`: a row in the fields of the code, and the rows of an opcode;
- `opRows_iff`, `fpRows_iff`, `systemRows_iff`, ..: the fields the rows of an opcode leave.
-/
import RiscvEmu.Decode
import RiscvEmu.Lib.Bits
import RiscvEmu.Lib.Rv32Listing

namespace RiscvEmu

open Rv32Listing

theorem bits3_cases :
    ∀ x : BitVec 3, x = 0#3 ∨ x = 1#3 ∨ x = 2#3 ∨ x = 3#3 ∨ x = 4#3 ∨ x = 5#3 ∨ x = 6#3 ∨ x = 7#3 := by decide

section
variable {ins : Word} {l : List Row}

theorem covers_iff (r : Row) : covers ins r = true ↔
    r.funct3.all (getFunct3 ins = ·) ∧ r.funct7.all (getFunct7 ins = ·) ∧ r.funct5.all (ins.extractLsb' 27 5 = ·) ∧
      r.fmt.all (ins.extractLsb' 25 2 = ·) ∧ r.rs2.all (getRs2 ins = ·) ∧ r.rs1.all (getRs1 ins = ·) ∧
      r.rd.all (getRd ins = ·) := by
  simp only [covers, Bool.and_eq_true, and_assoc]
  rfl

theorem modeKnown_iff (r : Row) :
    modeKnown ins r = true ↔ (r.rounds = true → getFunct3 ins ≠ 5 ∧ getFunct3 ins ≠ 6) := by
  have hmode : modeKnown ins r = (!r.rounds || (getFunct3 ins != 5 && getFunct3 ins != 6)) := rfl
  rw [hmode]
  cases r.rounds <;> simp

theorem listed_iff (h : rows (getOpcode ins) = l) :
    listed ins = true ↔ ∃ r ∈ l, covers ins r = true ∧ modeKnown ins r = true := by
  subst h
  simp only [listed, List.any_eq_true, Bool.and_eq_true]
  rfl

/-- where no row has a rounding mode -/
theorem listed_iff_covers (h : rows (getOpcode ins) = l) (hl : ∀ r ∈ l, r.rounds = false) :
    listed ins = true ↔ ∃ r ∈ l, covers ins r = true := by
  rw [listed_iff h]
  refine exists_congr fun r => and_congr_right fun hr => and_iff_left ?_
  rw [modeKnown_iff, hl r hr]
  exact fun hx => absurd hx Bool.false_ne_true

theorem named_iff (h : rows (getOpcode ins) ++ rows64 (getOpcode ins) = l) :
    (mnemonic ins).isSome = true ↔ ∃ r ∈ l, covers ins r = true := by
  subst h
  simp only [mnemonic_isSome, List.any_eq_true]
  rfl

theorem unnamed_iff (h : rows (getOpcode ins) ++ rows64 (getOpcode ins) = l) :
    (mnemonic ins).isSome = false ↔ ¬ ∃ r ∈ l, covers ins r = true := by
  rw [← named_iff h, Bool.not_eq_true]

/-! ## The rows of an opcode -/

theorem opRows_iff : (∃ r ∈ opRows, covers ins r = true) ↔ getFunct7 ins = 0b0000000#7 ∨ getFunct7 ins = 0b0000001#7 ∨
    getFunct7 ins = 0b0000111#7 ∧ (getFunct3 ins = 5#3 ∨ getFunct3 ins = 7#3) ∨
      getFunct7 ins = 0b0100000#7 ∧ (getFunct3 ins = 0#3 ∨ getFunct3 ins = 5#3) := by
  simp [opRows, covers_iff]
  rcases bits3_cases (getFunct3 ins) with h | h | h | h | h | h | h | h <;> simp [h]
  all_goals grind

theorem opImmRows_iff : (∃ r ∈ opImmRows, covers ins r = true) ↔ (getFunct3 ins = 1#3 → getFunct7 ins = 0b0000000#7) ∧
    (getFunct3 ins = 5#3 → getFunct7 ins = 0b0000000#7 ∨ getFunct7 ins = 0b0100000#7) := by
  simp [opImmRows, covers_iff]
  rcases bits3_cases (getFunct3 ins) with h | h | h | h | h | h | h | h <;> simp [h]

theorem loadRows_iff : (∃ r ∈ loadRows, covers ins r = true) ↔ getFunct3 ins ∈ [0#3, 1, 2, 4, 5] := by
  simp [loadRows, covers_iff]

theorem storeRows_iff : (∃ r ∈ storeRows, covers ins r = true) ↔ getFunct3 ins ∈ [0#3, 1, 2] := by
  simp [storeRows, covers_iff]

theorem branchRows_iff : (∃ r ∈ branchRows, covers ins r = true) ↔ getFunct3 ins ∈ [0#3, 1, 4, 5, 6, 7] := by
  simp [branchRows, covers_iff]

theorem miscMemRows_iff : (∃ r ∈ miscMemRows, covers ins r = true) ↔ getFunct3 ins ∈ [0#3, 1] := by
  simp [miscMemRows, covers_iff]

theorem amoRows_iff : (∃ r ∈ amoRows, covers ins r = true) ↔ getFunct3 ins = 2#3 ∧
    (ins.extractLsb' 27 5 = 2#5 ∧ getRs2 ins = 0#5 ∨ ins.extractLsb' 27 5 ∈ [3#5, 1, 0, 4, 12, 8, 16, 20, 24, 28]) := by
  simp [amoRows, covers_iff]
  by_cases h : getFunct3 ins = 2#3 <;> simp [h]

theorem fpLoadRows_iff : (∃ r ∈ fpLoadRows, covers ins r = true) ↔ getFunct3 ins ∈ [1#3, 2, 3, 4] := by
  simp [fpLoadRows, covers_iff]

theorem fpStoreRows_iff : (∃ r ∈ fpStoreRows, covers ins r = true) ↔ getFunct3 ins ∈ [1#3, 2, 3, 4] := by
  simp [fpStoreRows, covers_iff]

/-- the formats a conversion goes between are different -/
theorem fcvt_formats_iff : ∀ (fmt : BitVec 2) (rs2 : Reg), rs2 < 4 ∧ rs2.setWidth 2 ≠ fmt ↔
    fmt = 0#2 ∧ (rs2 = 1#5 ∨ rs2 = 2#5 ∨ rs2 = 3#5) ∨ fmt = 1#2 ∧ (rs2 = 0#5 ∨ rs2 = 2#5 ∨ rs2 = 3#5) ∨
      fmt = 2#2 ∧ (rs2 = 0#5 ∨ rs2 = 1#5 ∨ rs2 = 3#5) ∨ fmt = 3#2 ∧ (rs2 = 0#5 ∨ rs2 = 1#5 ∨ rs2 = 2#5) := by decide

/-- FP-OP, RV64 included, by its operation -/
theorem fpRows_iff : (∃ r ∈ fpRows ++ fpRows64, covers ins r = true) ↔
    match ins.extractLsb' 27 5 with
    | 0#5 | 1#5 | 2#5 | 3#5 => True
    | 4#5 | 20#5 => (getFunct3 ins).toNat < 3
    | 5#5 => (getFunct3 ins).toNat < 2
    | 8#5 => getRs2 ins < 4 ∧ (getRs2 ins).setWidth 2 ≠ ins.extractLsb' 25 2
    | 11#5 => getRs2 ins = 0
    | 24#5 | 26#5 => getRs2 ins < 4
    | 28#5 => getRs2 ins = 0 ∧ (getFunct3 ins = 1 ∨ getFunct3 ins = 0 ∧ ins.extractLsb' 25 2 ≠ 3)
    | 30#5 => getRs2 ins = 0 ∧ getFunct3 ins = 0 ∧ ins.extractLsb' 25 2 ≠ 3
    | _ => False := by
  have hthree : ∀ x : BitVec 3, x.toNat < 3 ↔ x = 0#3 ∨ x = 1#3 ∨ x = 2#3 := by decide
  have htwo : ∀ x : BitVec 3, x.toNat < 2 ↔ x = 0#3 ∨ x = 1#3 := by decide
  have hfour : ∀ x : Reg, x < 4 ↔ x = 0#5 ∨ x = 1#5 ∨ x = 2#5 ∨ x = 3#5 := by decide
  have hquad : ∀ x : BitVec 2, x ≠ 3#2 ↔ x = 0#2 ∨ x = 1#2 ∨ x = 2#2 := by decide
  rw [fcvt_formats_iff]
  simp only [hthree, htwo, hfour]
  simp only [fpRows, fpRows64, fcvtRow, List.cons_append, List.nil_append, List.mem_cons, List.not_mem_nil,
    exists_eq_or_imp, covers_iff, Option.all_some, Option.all_none, decide_eq_true_eq,
    and_true, true_and, or_false]
  by_cases h5 : ins.extractLsb' 27 5 ∈ [0#5, 1, 2, 3, 4, 5, 8, 11, 20, 24, 26, 28, 30]
  · simp only [List.mem_cons, List.not_mem_nil, or_false] at h5
    -- the rows of one operation are left
    rcases h5 with h5 | h5 | h5 | h5 | h5 | h5 | h5 | h5 | h5 | h5 | h5 | h5 | h5 <;> simp [h5]
    · simp only [and_or_left, or_assoc]
    · exact or_comm.trans (or_congr_left or_comm |>.trans or_assoc)
    · have := hquad (ins.extractLsb' 25 2)
      grind
    · have := hquad (ins.extractLsb' 25 2)
      grind
  · simp at h5
    simp [h5]

/-! ## SYSTEM -/

/-- the immediate of SYSTEM is funct7 and rs2 -/
theorem getImm12_eq_append (ins : Word) : getImm12 ins = getFunct7 ins ++ getRs2 ins := by
  have h : ins.extractLsb' 25 7 ++ ins.extractLsb' 20 5 = ins.extractLsb' 20 12 :=
    BitVec.extractLsb'_append_extractLsb'_eq_extractLsb' rfl
  exact h.symm

theorem bareRow_covers_iff (name : String) (f7 : BitVec 7) (rs2 : BitVec 5) :
    covers ins (bareRow name f7 rs2) = true ↔
      getFunct3 ins = 0#3 ∧ getRd ins = 0#5 ∧ getRs1 ins = 0#5 ∧ getImm12 ins = f7 ++ rs2 := by
  rw [covers_iff, getImm12_eq_append, Bits.append_inj]
  simp only [bareRow, Option.all_some, Option.all_none, decide_eq_true_eq, true_and]
  grind

/-- the privileged instructions, fence aside all without operands, and the CSR instructions -/
theorem systemRows_iff : (∃ r ∈ systemRows, covers ins r = true) ↔
    getFunct3 ins ∈ [1#3, 2, 3, 5, 6, 7] ∨ getFunct3 ins = 0#3 ∧ getRd ins = 0#5 ∧ (getFunct7 ins = 0b0001001#7 ∨
      getRs1 ins = 0#5 ∧ getImm12 ins ∈ [0x000#12, 0x001, 0x102, 0x302, 0x702, 0x104, 0x105]) := by
  simp only [systemRows, List.mem_cons, exists_eq_or_imp, bareRow_covers_iff]
  simp [covers_iff]
  rcases bits3_cases (getFunct3 ins) with h | h | h | h | h | h | h | h <;> simp [h]
  grind

end

end RiscvEmu
