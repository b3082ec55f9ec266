/-
RV32IM with 16-bit instructions in between: the integer architecture with multiply and divide, as a transition system.

Multiply and divide are given by the integers the operands stand for. One hart fetches from the memory it writes, so the
fences order what is in order already. A parcel of 2 or 4 bytes holds an instruction; what
it does is the same but for the address of the next one, so `step` takes the length. Results:
- `step_base`: a 4-byte RV32I instruction is `Rv32i.step`;
- `high_signed`, `high_unsigned`: the high word of a product of twice the width, by a shift;
- `sdiv_eq`, `srem_eq`: truncated division, where the quotient wraps too.
-/
import RiscvEmu.Lib.Rv32i
import RiscvEmu.Lib.WordArith

namespace Rv32im

open Rv32i

/-! ## Instructions -/

inductive MulDivOp where
  | mul | mulh | mulhsu | mulhu | div | divu | rem | remu
deriving DecidableEq, Repr

/-- of memory accesses, and of writes to instructions -/
inductive FenceOp where
  | fence | fenceI
deriving DecidableEq, Repr

inductive Instr where
  | base (i : Rv32i.Instr)
  | mulDiv (o : MulDivOp) (rd rs1 rs2 : BitVec 5)
  | fence (o : FenceOp) (imm : BitVec 12) (rs1 rd : BitVec 5)
deriving DecidableEq, Repr

def MulDivOp.funct3 : MulDivOp → BitVec 3
  | .mul => 0b000
  | .mulh => 0b001
  | .mulhsu => 0b010
  | .mulhu => 0b011
  | .div => 0b100
  | .divu => 0b101
  | .rem => 0b110
  | .remu => 0b111

def FenceOp.funct3 : FenceOp → BitVec 3
  | .fence => 0b000
  | .fenceI => 0b001

def Instr.encode : Instr → BitVec 32
  | .base i => i.encode
  | .fence o imm rs1 rd => iType imm rs1 o.funct3 rd 0b0001111
  | .mulDiv o rd rs1 rs2 => rType 0b0000001 rs2 rs1 o.funct3 rd 0b0110011

/-! ## Meaning -/

def MulDivOp.eval (a b : BitVec 32) : MulDivOp → BitVec 32
  | .mul => BitVec.ofInt 32 (a.toInt * b.toInt)
  | .mulh => BitVec.ofInt 32 (a.toInt * b.toInt / 2 ^ 32)
  | .mulhsu => BitVec.ofInt 32 (a.toInt * b.toNat / 2 ^ 32)
  | .mulhu => BitVec.ofNat 32 (a.toNat * b.toNat / 2 ^ 32)
  | .div => if b = 0 then -1 else BitVec.ofInt 32 (a.toInt.tdiv b.toInt)
  | .divu => if b = 0 then -1 else BitVec.ofNat 32 (a.toNat / b.toNat)
  | .rem => if b = 0 then a else BitVec.ofInt 32 (a.toInt.tmod b.toInt)
  | .remu => if b = 0 then a else BitVec.ofNat 32 (a.toNat % b.toNat)

/-- an instruction in a parcel of len bytes -/
def step (len : BitVec 32) (s : State) : Instr → State
  | .base (.jal rd offset) => (s.write rd (s.pc + len)).jump (s.pc + (offset ++ 0#1).signExtend 32)
  | .base (.jalr rd rs1 imm) => (s.write rd (s.pc + len)).jump ((s.regs rs1 + imm.signExtend 32) &&& ~~~1)
  | .base (.branch c rs1 rs2 offset) =>
    s.jump (if c.holds (s.regs rs1) (s.regs rs2) then s.pc + (offset ++ 0#1).signExtend 32 else s.pc + len)
  | .base i => (Rv32i.step s i).jump (s.pc + len)
  | .mulDiv o rd rs1 rs2 => (s.write rd (o.eval (s.regs rs1) (s.regs rs2))).jump (s.pc + len)
  | .fence .. => s.jump (s.pc + len)

def Instr.access (s : State) : Instr → Option (BitVec 32 × ℕ)
  | .base i => i.access s
  | .mulDiv .. | .fence .. => none

theorem step_base (s : State) (i : Rv32i.Instr) : step 4 s (.base i) = Rv32i.step s i := by
  cases i <;> rfl

/-! ## The operations on words -/

section
variable {w : ℕ}

/-- truncation forgets which integer a word stands for -/
theorem setWidth_eq_ofInt (q : BitVec (w + w)) : q.setWidth w = BitVec.ofInt w q.toInt := by
  apply BitVec.toInt_inj.1
  have hdvd : 2 ^ w ∣ 2 ^ (w + w) := Nat.pow_dvd_pow 2 (Nat.le_add_left w w)
  rw [BitVec.toInt_setWidth, BitVec.toInt_ofInt, BitVec.toInt_eq_toNat_bmod, Int.bmod_bmod_of_dvd hdvd]

theorem high_signed (p : BitVec (w + w)) : (p.sshiftRight w).setWidth w = BitVec.ofInt w (p.toInt / 2 ^ w) := by
  rw [setWidth_eq_ofInt, BitVec.toInt_sshiftRight, Int.shiftRight_eq_div_pow]
  norm_cast

theorem high_unsigned (p : BitVec (w + w)) : (p >>> w).setWidth w = BitVec.ofNat w (p.toNat / 2 ^ w) := by
  apply BitVec.eq_of_toNat_eq
  rw [BitVec.toNat_setWidth, BitVec.toNat_ofNat, BitVec.toNat_ushiftRight, Nat.shiftRight_eq_div_pow]

theorem sdiv_eq (x y : BitVec w) : x.sdiv y = BitVec.ofInt w (x.toInt.tdiv y.toInt) := by
  apply BitVec.toInt_inj.1
  rw [BitVec.toInt_sdiv, BitVec.toInt_ofInt]

theorem srem_eq (x y : BitVec w) : x.srem y = BitVec.ofInt w (x.toInt.tmod y.toInt) := by
  rw [← BitVec.toInt_srem, BitVec.ofInt_toInt]

theorem udiv_eq (x y : BitVec w) : x / y = BitVec.ofNat w (x.toNat / y.toNat) := by
  rw [← BitVec.toNat_udiv, BitVec.ofNat_toNat, BitVec.setWidth_eq]

theorem umod_eq (x y : BitVec w) : x % y = BitVec.ofNat w (x.toNat % y.toNat) := by
  rw [← BitVec.toNat_umod, BitVec.ofNat_toNat, BitVec.setWidth_eq]

end

end Rv32im
