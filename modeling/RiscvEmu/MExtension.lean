/-
Multiply and divide are exact.

The eight routines read both operands before they write rd, so one law over the operands covers every aliasing of the registers.
Division of the host is partial: `hostDiv` and its like have no value where C leaves the result undefined. Results:
- `mulh_append_mul`, `mulu_append_mul`, `mulsu_append_mul`: the two words of each product of twice the width;
- `ExactDivision.of_routines`: quotient and remainder, with the architecture's results where the host has none;
- `HostDivides.of_routines`: the routines ask the host for no division that is undefined;
- `m_extension_exact`: all of it, for the words m_ins_optable dispatches.
-/
import RiscvEmu.Atomic
import RiscvEmu.CompressedFp
import RiscvEmu.Lib.WordArith

namespace RiscvEmu

open WordArith

/-! ## The laws -/

/-- what an instruction leaves in rd -/
def ROp.result (s : Machine) (rs2 rs1 rd : Reg) (op : ROp) : Word := regRead (op.exec s rs2 rs1 rd) rd

/-- the high and low words of the products, r having the results -/
structure ExactProducts (v1 v2 : Word) (r : ROp → Word) : Prop where
  signed : (r .mulh ++ r .mul).toInt = v1.toInt * v2.toInt
  unsigned : (r .mulu ++ r .mul).toNat = v1.toNat * v2.toNat
  mixed : (r .mulsu ++ r .mul).toInt = v1.toInt * v2.toNat

structure ExactDivision (v1 v2 : Word) (r : ROp → Word) : Prop where
  signed : r .div * v2 + r .rem = v1
  unsigned : r .divu * v2 + r .remu = v1
  remainder : v2 ≠ 0 → (r .rem).toInt.natAbs < v2.toInt.natAbs
  remainderSign : v2 ≠ 0 → (r .rem).toInt = 0 ∨ ((r .rem).toInt < 0 ↔ v1.toInt < 0)
  remainderUnsigned : v2 ≠ 0 → (r .remu).toNat < v2.toNat
  byZero : v2 = 0 → r .div = -1 ∧ r .rem = v1 ∧ r .divu = -1 ∧ r .remu = v1
  overflow : v1 = BitVec.intMin 32 → v2 = -1 → r .div = BitVec.intMin 32 ∧ r .rem = 0

/-! ## Division of the host -/

/-- C's / and % on int32_t -/
def hostDiv (v1 v2 : Word) : Option Word := if v2 = 0 ∨ v1 = BitVec.intMin 32 ∧ v2 = -1 then none else some (v1.sdiv v2)
def hostRem (v1 v2 : Word) : Option Word := if v2 = 0 ∨ v1 = BitVec.intMin 32 ∧ v2 = -1 then none else some (v1.srem v2)

/-- and on uint32_t -/
def hostDivu (v1 v2 : Word) : Option Word := if v2 = 0 then none else some (v1 / v2)
def hostRemu (v1 v2 : Word) : Option Word := if v2 = 0 then none else some (v1 % v2)

/-- a routine that may have no value -/
def aluRHost (f : Word → Word → Option Word) (s : Machine) (rs2 rs1 rd : Reg) : Option Machine :=
  (f (regRead s rs1) (regRead s rs2)).map (regWrite s rd)

/-- the divisions, dividing on the host -/
def insmRDivHost := aluRHost fun v1 v2 =>
  if v2 = 0 then some 0xFFFFFFFF else if v1 = BitVec.intMin 32 ∧ v2 = -1 then some (BitVec.intMin 32) else hostDiv v1 v2
def insmRDivuHost := aluRHost fun v1 v2 => if v2 = 0 then some 0xFFFFFFFF else hostDivu v1 v2
def insmRRemHost := aluRHost fun v1 v2 =>
  if v2 = 0 then some v1 else if v1 = BitVec.intMin 32 ∧ v2 = -1 then some 0 else hostRem v1 v2
def insmRRemuHost := aluRHost fun v1 v2 => if v2 = 0 then some v1 else hostRemu v1 v2

/-- every division asked of the host has a value, that of the routine -/
structure HostDivides (s : Machine) (rs2 rs1 rd : Reg) : Prop where
  div : insmRDivHost s rs2 rs1 rd = some (insmRDiv s rs2 rs1 rd)
  divu : insmRDivuHost s rs2 rs1 rd = some (insmRDivu s rs2 rs1 rd)
  rem : insmRRemHost s rs2 rs1 rd = some (insmRRem s rs2 rs1 rd)
  remu : insmRRemuHost s rs2 rs1 rd = some (insmRRemu s rs2 rs1 rd)

/-! ## Products -/

section
variable (v1 v2 : Word)

theorem mulh_append_mul : (((v1.signExtend 64 * v2.signExtend 64).sshiftRight 32).setWidth 32 ++ v1 * v2).toInt =
    v1.toInt * v2.toInt := by
  have hlow : (v1.signExtend 64 * v2.signExtend 64).setWidth 32 = v1 * v2 := by
    rw [BitVec.setWidth_mul _ _ (by decide), low_signExtend, low_signExtend]
  rw [← hlow, high_append_low]
  exact signed_product v1 v2

theorem mulu_append_mul : (((v1.setWidth 64 * v2.setWidth 64) >>> 32).setWidth 32 ++ v1 * v2).toNat =
    v1.toNat * v2.toNat := by
  have hlow : (v1.setWidth 64 * v2.setWidth 64).setWidth 32 = v1 * v2 := by
    rw [BitVec.setWidth_mul _ _ (by decide), low_setWidth, low_setWidth]
  rw [← hlow, ushiftRight_high, high_append_low]
  exact unsigned_product v1 v2

theorem mulsu_append_mul : (((v1.signExtend 64 * v2.setWidth 64).sshiftRight 32).setWidth 32 ++ v1 * v2).toInt =
    v1.toInt * v2.toNat := by
  have hlow : (v1.signExtend 64 * v2.setWidth 64).setWidth 32 = v1 * v2 := by
    rw [BitVec.setWidth_mul _ _ (by decide), low_signExtend, low_setWidth]
  rw [← hlow, high_append_low]
  exact mixed_product v1 v2

end

/-! ## The routines -/

section
variable {s : Machine} {rs2 rs1 rd : Reg}

theorem regRead_regWrite_self (hrd : rd ≠ 0) (v : Word) : regRead (regWrite s rd v) rd = v := by
  unfold regRead regWrite writeGpr
  rw [if_neg hrd, if_neg hrd]
  exact Function.update_self ..

/-- a routine leaves its value in rd -/
theorem ROp.result_eq (op : ROp) {routine : Machine → Reg → Reg → Reg → Machine} {f : Word → Word → Word}
    (hop : ∀ rd, op.exec s rs2 rs1 rd = routine s rs2 rs1 rd) (hf : routine = aluR f) (hrd : rd ≠ 0) :
    op.result s rs2 rs1 rd = f (regRead s rs1) (regRead s rs2) := by
  rw [result, hop, hf]
  exact regRead_regWrite_self hrd _

/-- and touches nothing else -/
theorem ROp.exec_frame (op : ROp) {v : Word} (hop : ∀ rd, op.exec s rs2 rs1 rd = regWrite s rd v) (hrd : rd ≠ 0)
    (rd' : Reg) : op.exec s rs2 rs1 rd' = regWrite s rd' (op.result s rs2 rs1 rd) := by
  rw [result, hop, hop, regRead_regWrite_self hrd]

variable {rd : ROp → Reg}

theorem ExactProducts.of_routines (hrd : ∀ op, rd op ≠ 0) :
    ExactProducts (regRead s rs1) (regRead s rs2) fun op => op.result s rs2 rs1 (rd op) := by
  have hmul := ROp.result_eq .mul (fun _ => (rfl : _ = insmRMul s rs2 rs1 _)) rfl (hrd .mul)
  have hmulh := ROp.result_eq .mulh (fun _ => (rfl : _ = insmRMulh s rs2 rs1 _)) rfl (hrd .mulh)
  have hmulu := ROp.result_eq .mulu (fun _ => (rfl : _ = insmRMulu s rs2 rs1 _)) rfl (hrd .mulu)
  have hmulsu := ROp.result_eq .mulsu (fun _ => (rfl : _ = insmRMulsu s rs2 rs1 _)) rfl (hrd .mulsu)
  refine ⟨?_, ?_, ?_⟩
  · rw [hmul, hmulh]
    exact mulh_append_mul _ _
  · rw [hmul, hmulu]
    exact mulu_append_mul _ _
  · rw [hmul, hmulsu]
    exact mulsu_append_mul _ _

/-- quotient and remainder, case by case as the routines have them -/
theorem ExactDivision.of_cases {v1 v2 : Word} {r : ROp → Word}
    (hdiv : r .div = if v2 = 0 then 0xFFFFFFFF else if v1 = BitVec.intMin 32 ∧ v2 = -1 then BitVec.intMin 32 else v1.sdiv v2)
    (hrem : r .rem = if v2 = 0 then v1 else if v1 = BitVec.intMin 32 ∧ v2 = -1 then 0 else v1.srem v2)
    (hdivu : r .divu = if v2 = 0 then 0xFFFFFFFF else v1 / v2) (hremu : r .remu = if v2 = 0 then v1 else v1 % v2) :
    ExactDivision v1 v2 r := by
  by_cases hzero : v2 = 0
  · subst hzero
    rw [if_pos rfl] at hdiv hrem hdivu hremu
    refine ⟨?_, ?_, fun h => absurd rfl h, fun h => absurd rfl h, fun h => absurd rfl h,
      fun _ => ⟨hdiv, hrem, hdivu, hremu⟩, fun _ h => absurd h (by decide)⟩
    · rw [hrem]
      exact (congrArg (· + v1) BitVec.mul_zero).trans (BitVec.zero_add v1)
    · rw [hremu]
      exact (congrArg (· + v1) BitVec.mul_zero).trans (BitVec.zero_add v1)
  · rw [if_neg hzero] at hdiv hrem hdivu hremu
    have hunsigned : r .divu * v2 + r .remu = v1 := by rw [hdivu, hremu, udiv_mul_add_umod]
    have hlt : (r .remu).toNat < v2.toNat := by
      rw [hremu, BitVec.toNat_umod]
      exact Nat.mod_lt _ (BitVec.toNat_pos_of_ne_zero hzero)
    by_cases hover : v1 = BitVec.intMin 32 ∧ v2 = -1
    · rw [if_pos hover] at hdiv hrem
      obtain ⟨rfl, rfl⟩ := hover
      refine ⟨?_, hunsigned, fun _ => ?_, fun _ => .inl ?_, fun _ => hlt, fun h => absurd h hzero,
        fun _ _ => ⟨hdiv, hrem⟩⟩
      · rw [hdiv, hrem]
        decide
      · rw [hrem]
        decide
      · rw [hrem]
        rfl
    · rw [if_neg hover] at hdiv hrem
      refine ⟨?_, hunsigned, fun hne => ?_, fun _ => ?_, fun _ => hlt, fun h => absurd h hzero,
        fun h1 h2 => absurd ⟨h1, h2⟩ hover⟩
      · rw [hdiv, hrem, sdiv_mul_add_srem]
      · rw [hrem]
        exact natAbs_srem_lt _ hne
      · rw [hrem]
        exact srem_sign _ _

theorem ExactDivision.of_routines (hrd : ∀ op, rd op ≠ 0) :
    ExactDivision (regRead s rs1) (regRead s rs2) fun op => op.result s rs2 rs1 (rd op) := by
  have hdiv := ROp.result_eq .div (fun _ => (rfl : _ = insmRDiv s rs2 rs1 _)) rfl (hrd .div)
  have hrem := ROp.result_eq .rem (fun _ => (rfl : _ = insmRRem s rs2 rs1 _)) rfl (hrd .rem)
  have hdivu := ROp.result_eq .divu (fun _ => (rfl : _ = insmRDivu s rs2 rs1 _)) rfl (hrd .divu)
  have hremu := ROp.result_eq .remu (fun _ => (rfl : _ = insmRRemu s rs2 rs1 _)) rfl (hrd .remu)
  exact .of_cases hdiv hrem hdivu hremu

end

/-- the branches before a division leave only operands it is defined for -/
theorem HostDivides.of_routines (s : Machine) (rs2 rs1 rd : Reg) : HostDivides s rs2 rs1 rd := by
  refine ⟨?_, ?_, ?_, ?_⟩
  · unfold insmRDivHost insmRDiv aluRHost aluR hostDiv
    dsimp only
    split_ifs with hz ho hundef
    · rfl
    · rfl
    · exact absurd hundef (not_or.2 ⟨hz, ho⟩)
    · rfl
  · unfold insmRDivuHost insmRDivu aluRHost aluR hostDivu
    dsimp only
    split_ifs <;> rfl
  · unfold insmRRemHost insmRRem aluRHost aluR hostRem
    dsimp only
    split_ifs with hz ho hundef
    · rfl
    · rfl
    · exact absurd hundef (not_or.2 ⟨hz, ho⟩)
    · rfl
  · unfold insmRRemuHost insmRRemu aluRHost aluR hostRemu
    dsimp only
    split_ifs <;> rfl

/-! ## The table -/

theorem decode_m {ins : Word} (hop : getOpcode ins = 0b0110011) (h7 : getFunct7 ins = 0b0000001) :
    decode ins = .alu (mOp (getFunct3 ins)) (getRs2 ins) (getRs1 ins) (getRd ins) := by
  rw [decode, hop]
  exact if_pos h7

theorem mOp_frame (s : Machine) (rs2 rs1 : Reg) {rd : Reg} (hrd : rd ≠ 0) (rd' : Reg) (f : BitVec 3) :
    (mOp f).exec s rs2 rs1 rd' = regWrite s rd' ((mOp f).result s rs2 rs1 rd) := by
  unfold mOp
  split <;> exact ROp.exec_frame _ (fun _ => rfl) hrd rd'

/-- **Multiply and divide are exact**, whatever registers they name. -/
theorem m_extension_exact (s : Machine) (rs2 rs1 : Reg) (rd : ROp → Reg) (hrd : ∀ op, rd op ≠ 0) :
    let r := fun op : ROp => op.result s rs2 rs1 (rd op)
    ExactProducts (regRead s rs1) (regRead s rs2) r ∧ ExactDivision (regRead s rs1) (regRead s rs2) r ∧
      (∀ rd', HostDivides s rs2 rs1 rd') ∧
      (∀ f rd', (mOp f).exec s rs2 rs1 rd' = regWrite s rd' (r (mOp f))) ∧
      ∀ ins, getOpcode ins = 0b0110011 → getFunct7 ins = 0b0000001 →
        decode ins = .alu (mOp (getFunct3 ins)) (getRs2 ins) (getRs1 ins) (getRd ins) :=
  ⟨.of_routines hrd, .of_routines hrd, .of_routines s rs2 rs1, fun f rd' => mOp_frame s rs2 rs1 (hrd _) rd' f,
    fun _ hop h7 => decode_m hop h7⟩

/-- rd is one of the operands -/
theorem m_extension_exact_amoMachine : ExactProducts (regRead amoMachine 5) (regRead amoMachine 6) fun op => op.result amoMachine 6 5 5 :=
  (m_extension_exact amoMachine 6 5 (fun _ => 5) fun _ => by decide).1

end RiscvEmu
