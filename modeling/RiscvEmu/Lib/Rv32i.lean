/-
RV32I: the computational, control-transfer, load and store instructions, as the unprivileged architecture defines them.

An instruction carries its operands and its immediate at the width the encoding has for it. `Instr.encode` is the word
that stands for it, field by field; `step` is what it does to the registers, to memory and to pc where no exception is
possible: instructions may start at any even address, and the accesses are aligned. Results:
- `uType_opcode`, `uType_rd`, `iType_funct3`, `iType_rs1`, `rType_rs2`, `rType_funct7`: the fields of a word. The
  formats nest, so a field of one is a field of the formats built on it;
- `uType_imm`, `iType_imm`, `sType_imm`, `bType_imm`, `jType_imm`: the immediate the parts of a format make up.
-/
import RiscvEmu.Lib.Bytes

namespace Rv32i

open Bytes

/-! ## Instructions -/

inductive AluOp where
  | add | sub | sll | slt | sltu | xor | srl | sra | or | and
deriving DecidableEq, Repr

/-- the operations with a 12-bit immediate -/
inductive ImmOp where
  | addi | slti | sltiu | xori | ori | andi
deriving DecidableEq, Repr

inductive ShiftOp where
  | slli | srli | srai
deriving DecidableEq, Repr

inductive Cond where
  | beq | bne | blt | bge | bltu | bgeu
deriving DecidableEq, Repr

inductive LoadOp where
  | lb | lh | lw | lbu | lhu
deriving DecidableEq, Repr

inductive StoreOp where
  | sb | sh | sw
deriving DecidableEq, Repr

/-- offsets of branches and jumps are given in half-words -/
inductive Instr where
  | op (o : AluOp) (rd rs1 rs2 : BitVec 5)
  | opImm (o : ImmOp) (rd rs1 : BitVec 5) (imm : BitVec 12)
  | shift (o : ShiftOp) (rd rs1 shamt : BitVec 5)
  | lui (rd : BitVec 5) (imm : BitVec 20)
  | auipc (rd : BitVec 5) (imm : BitVec 20)
  | jal (rd : BitVec 5) (offset : BitVec 20)
  | jalr (rd rs1 : BitVec 5) (imm : BitVec 12)
  | branch (c : Cond) (rs1 rs2 : BitVec 5) (offset : BitVec 12)
  | load (o : LoadOp) (rd rs1 : BitVec 5) (imm : BitVec 12)
  | store (o : StoreOp) (rs1 rs2 : BitVec 5) (imm : BitVec 12)
deriving DecidableEq, Repr

/-! ## Encoding -/

def uType (imm : BitVec 20) (rd : BitVec 5) (opcode : BitVec 7) : BitVec 32 := imm ++ rd ++ opcode

def iType (imm : BitVec 12) (rs1 : BitVec 5) (funct3 : BitVec 3) (rd : BitVec 5) (opcode : BitVec 7) : BitVec 32 :=
  uType (imm ++ rs1 ++ funct3) rd opcode

def rType (funct7 : BitVec 7) (rs2 rs1 : BitVec 5) (funct3 : BitVec 3) (rd : BitVec 5) (opcode : BitVec 7) : BitVec 32 :=
  iType (funct7 ++ rs2) rs1 funct3 rd opcode

/-- imm[11:5] and imm[4:0] -/
def sType (imm : BitVec 12) (rs2 rs1 : BitVec 5) (funct3 : BitVec 3) (opcode : BitVec 7) : BitVec 32 :=
  rType (imm.extractLsb' 5 7) rs2 rs1 funct3 (imm.extractLsb' 0 5) opcode

/-- imm[12|10:5] and imm[4:1|11] -/
def bType (imm : BitVec 13) (rs2 rs1 : BitVec 5) (funct3 : BitVec 3) (opcode : BitVec 7) : BitVec 32 :=
  rType (imm.extractLsb' 12 1 ++ imm.extractLsb' 5 6) rs2 rs1 funct3 (imm.extractLsb' 1 4 ++ imm.extractLsb' 11 1) opcode

/-- imm[20|10:1|11|19:12] -/
def jType (imm : BitVec 21) (rd : BitVec 5) (opcode : BitVec 7) : BitVec 32 :=
  uType (imm.extractLsb' 20 1 ++ imm.extractLsb' 1 10 ++ imm.extractLsb' 11 1 ++ imm.extractLsb' 12 8) rd opcode

def AluOp.funct7 : AluOp → BitVec 7
  | .sub | .sra => 0b0100000
  | _ => 0b0000000

def AluOp.funct3 : AluOp → BitVec 3
  | .add | .sub => 0b000
  | .sll => 0b001
  | .slt => 0b010
  | .sltu => 0b011
  | .xor => 0b100
  | .srl | .sra => 0b101
  | .or => 0b110
  | .and => 0b111

/-- the operation on the register and the immediate -/
def ImmOp.alu : ImmOp → AluOp
  | .addi => .add
  | .slti => .slt
  | .sltiu => .sltu
  | .xori => .xor
  | .ori => .or
  | .andi => .and

def ShiftOp.alu : ShiftOp → AluOp
  | .slli => .sll
  | .srli => .srl
  | .srai => .sra

def Cond.funct3 : Cond → BitVec 3
  | .beq => 0b000
  | .bne => 0b001
  | .blt => 0b100
  | .bge => 0b101
  | .bltu => 0b110
  | .bgeu => 0b111

def LoadOp.funct3 : LoadOp → BitVec 3
  | .lb => 0b000
  | .lh => 0b001
  | .lw => 0b010
  | .lbu => 0b100
  | .lhu => 0b101

def StoreOp.funct3 : StoreOp → BitVec 3
  | .sb => 0b000
  | .sh => 0b001
  | .sw => 0b010

def Instr.encode : Instr → BitVec 32
  | .op o rd rs1 rs2 => rType o.funct7 rs2 rs1 o.funct3 rd 0b0110011
  | .opImm o rd rs1 imm => iType imm rs1 o.alu.funct3 rd 0b0010011
  | .shift o rd rs1 shamt => rType o.alu.funct7 shamt rs1 o.alu.funct3 rd 0b0010011
  | .lui rd imm => uType imm rd 0b0110111
  | .auipc rd imm => uType imm rd 0b0010111
  | .jal rd offset => jType (offset ++ 0#1) rd 0b1101111
  | .jalr rd rs1 imm => iType imm rs1 0b000 rd 0b1100111
  | .branch c rs1 rs2 offset => bType (offset ++ 0#1) rs2 rs1 c.funct3 0b1100011
  | .load o rd rs1 imm => iType imm rs1 o.funct3 rd 0b0000011
  | .store o rs1 rs2 imm => sType imm rs2 rs1 o.funct3 0b0100011

-- beq x1, x2, 0xACE and jal x1, 0x2468A
example : Instr.encode (.branch .beq 1 2 0x567) = 0x2C2087E3 := by decide
example : Instr.encode (.jal 1 0x12345) = 0x68A240EF := by decide

/-! ## Meaning -/

/-- x0 is zero in every state -/
@[ext] structure State where
  regs : BitVec 5 → BitVec 32
  zero : regs 0 = 0
  pc : BitVec 32
  mem : BitVec 32 → BitVec 8

/-- a write of a register; x0 takes none -/
def State.write (s : State) (rd : BitVec 5) (v : BitVec 32) : State where
  regs := if rd = 0 then s.regs else Function.update s.regs rd v
  zero := by
    split_ifs with h
    · exact s.zero
    · rw [Function.update_of_ne (Ne.symm h), s.zero]
  pc := s.pc
  mem := s.mem

def State.jump (s : State) (pc : BitVec 32) : State := { s with pc := pc }

def AluOp.eval (a b : BitVec 32) : AluOp → BitVec 32
  | .add => a + b
  | .sub => a - b
  | .sll => a <<< (b.toNat % 32)
  | .slt => if a.toInt < b.toInt then 1 else 0
  | .sltu => if a.toNat < b.toNat then 1 else 0
  | .xor => a ^^^ b
  | .srl => a >>> (b.toNat % 32)
  | .sra => a.sshiftRight (b.toNat % 32)
  | .or => a ||| b
  | .and => a &&& b

def Cond.holds (a b : BitVec 32) : Cond → Bool
  | .beq => a = b
  | .bne => a ≠ b
  | .blt => a.toInt < b.toInt
  | .bge => a.toInt ≥ b.toInt
  | .bltu => a.toNat < b.toNat
  | .bgeu => a.toNat ≥ b.toNat

def LoadOp.read (mem : BitVec 32 → BitVec 8) (addr : BitVec 32) : LoadOp → BitVec 32
  | .lb => (mem addr).signExtend 32
  | .lh => (loadLE mem addr 2).signExtend 32
  | .lw => loadLE mem addr 4
  | .lbu => (mem addr).setWidth 32
  | .lhu => (loadLE mem addr 2).setWidth 32

def LoadOp.width : LoadOp → ℕ
  | .lb | .lbu => 1
  | .lh | .lhu => 2
  | .lw => 4

def StoreOp.width : StoreOp → ℕ
  | .sb => 1
  | .sh => 2
  | .sw => 4

/-- the memory after a store of the low bytes of v -/
def StoreOp.write (mem : BitVec 32 → BitVec 8) (addr v : BitVec 32) (o : StoreOp) : BitVec 32 → BitVec 8 :=
  storeLE mem addr o.width (v.setWidth (8 * o.width))

def step (s : State) : Instr → State
  | .op o rd rs1 rs2 => (s.write rd (o.eval (s.regs rs1) (s.regs rs2))).jump (s.pc + 4)
  | .opImm o rd rs1 imm => (s.write rd (o.alu.eval (s.regs rs1) (imm.signExtend 32))).jump (s.pc + 4)
  | .shift o rd rs1 shamt => (s.write rd (o.alu.eval (s.regs rs1) (shamt.setWidth 32))).jump (s.pc + 4)
  | .lui rd imm => (s.write rd (imm ++ 0#12)).jump (s.pc + 4)
  | .auipc rd imm => (s.write rd (s.pc + (imm ++ 0#12))).jump (s.pc + 4)
  | .jal rd offset => (s.write rd (s.pc + 4)).jump (s.pc + (offset ++ 0#1).signExtend 32)
  | .jalr rd rs1 imm => (s.write rd (s.pc + 4)).jump ((s.regs rs1 + imm.signExtend 32) &&& ~~~1)
  | .branch c rs1 rs2 offset =>
    s.jump (if c.holds (s.regs rs1) (s.regs rs2) then s.pc + (offset ++ 0#1).signExtend 32 else s.pc + 4)
  | .load o rd rs1 imm => (s.write rd (o.read s.mem (s.regs rs1 + imm.signExtend 32))).jump (s.pc + 4)
  | .store o rs1 rs2 imm =>
    { s with mem := o.write s.mem (s.regs rs1 + imm.signExtend 32) (s.regs rs2) }.jump (s.pc + 4)

/-- the address and the width of a load or store -/
def Instr.access (s : State) : Instr → Option (BitVec 32 × ℕ)
  | .load o _ rs1 imm => some (s.regs rs1 + imm.signExtend 32, o.width)
  | .store o rs1 _ imm => some (s.regs rs1 + imm.signExtend 32, o.width)
  | _ => none

def Instr.isStore : Instr → Bool
  | .store .. => true
  | _ => false

/-! ## Fields -/

section
variable (funct7 : BitVec 7) (rs2 rs1 rd : BitVec 5) (funct3 : BitVec 3) (opcode : BitVec 7)

theorem uType_opcode (imm : BitVec 20) : (uType imm rd opcode).extractLsb' 0 7 = opcode := by
  simp (disch := omega) only [uType, BitVec.extractLsb'_append_eq_right]

theorem uType_rd (imm : BitVec 20) : (uType imm rd opcode).extractLsb' 7 5 = rd := by
  simp (disch := omega) only [uType, BitVec.extractLsb'_append_eq_of_le, BitVec.extractLsb'_append_eq_of_add_le]
  exact BitVec.extractLsb'_eq_self

theorem uType_imm (imm : BitVec 20) : (uType imm rd opcode).extractLsb' 12 20 = imm := by
  simp (disch := omega) only [uType, BitVec.extractLsb'_append_eq_of_le]
  exact BitVec.extractLsb'_eq_self

theorem iType_funct3 (imm : BitVec 12) : (iType imm rs1 funct3 rd opcode).extractLsb' 12 3 = funct3 := by
  simp (disch := omega) only [iType, uType, BitVec.extractLsb'_append_eq_of_le, BitVec.extractLsb'_append_eq_of_add_le]
  exact BitVec.extractLsb'_eq_self

theorem iType_rs1 (imm : BitVec 12) : (iType imm rs1 funct3 rd opcode).extractLsb' 15 5 = rs1 := by
  simp (disch := omega) only [iType, uType, BitVec.extractLsb'_append_eq_of_le, BitVec.extractLsb'_append_eq_of_add_le]
  exact BitVec.extractLsb'_eq_self

theorem iType_imm (imm : BitVec 12) : (iType imm rs1 funct3 rd opcode).extractLsb' 20 12 = imm := by
  simp (disch := omega) only [iType, uType, BitVec.extractLsb'_append_eq_of_le]
  exact BitVec.extractLsb'_eq_self

theorem rType_rs2 : (rType funct7 rs2 rs1 funct3 rd opcode).extractLsb' 20 5 = rs2 := by
  simp (disch := omega) only [rType, iType, uType, BitVec.extractLsb'_append_eq_of_le,
    BitVec.extractLsb'_append_eq_of_add_le]
  exact BitVec.extractLsb'_eq_self

theorem rType_funct7 : (rType funct7 rs2 rs1 funct3 rd opcode).extractLsb' 25 7 = funct7 := by
  simp (disch := omega) only [rType, iType, uType, BitVec.extractLsb'_append_eq_of_le]
  exact BitVec.extractLsb'_eq_self

/-- the two parts of a store offset -/
theorem sType_imm (imm : BitVec 12) : (sType imm rs2 rs1 funct3 opcode).extractLsb' 25 7 ++
    (sType imm rs2 rs1 funct3 opcode).extractLsb' 7 5 = imm := by
  unfold sType
  rw [rType_funct7]
  have hlow : (rType (imm.extractLsb' 5 7) rs2 rs1 funct3 (imm.extractLsb' 0 5) opcode).extractLsb' 7 5 =
      imm.extractLsb' 0 5 := uType_rd _ _ _
  rw [hlow, BitVec.extractLsb'_append_extractLsb'_eq_extractLsb' (show 5 = 0 + 5 from rfl)]
  exact BitVec.extractLsb'_eq_self

/-- the four parts of a branch offset, and its bit 0 -/
theorem bType_imm (imm : BitVec 13) :
    let w := bType imm rs2 rs1 funct3 opcode
    w.extractLsb' 31 1 ++ w.extractLsb' 7 1 ++ w.extractLsb' 25 6 ++ w.extractLsb' 8 4 ++ imm.extractLsb' 0 1 = imm := by
  intro w
  have h31 : w.extractLsb' 31 1 = imm.extractLsb' 12 1 := by
    simp (disch := omega) only [w, bType, rType, iType, uType, BitVec.extractLsb'_append_eq_of_le]
    exact BitVec.extractLsb'_eq_self
  have h25 : w.extractLsb' 25 6 = imm.extractLsb' 5 6 := by
    simp (disch := omega) only [w, bType, rType, iType, uType, BitVec.extractLsb'_append_eq_of_le,
      BitVec.extractLsb'_append_eq_of_add_le]
    exact BitVec.extractLsb'_eq_self
  have h8 : w.extractLsb' 8 4 = imm.extractLsb' 1 4 := by
    simp (disch := omega) only [w, bType, rType, iType, uType, BitVec.extractLsb'_append_eq_of_le,
      BitVec.extractLsb'_append_eq_of_add_le]
    exact BitVec.extractLsb'_eq_self
  have h7 : w.extractLsb' 7 1 = imm.extractLsb' 11 1 := by
    simp (disch := omega) only [w, bType, rType, iType, uType, BitVec.extractLsb'_append_eq_of_le,
      BitVec.extractLsb'_append_eq_of_add_le]
    exact BitVec.extractLsb'_eq_self
  rw [h31, h25, h8, h7, BitVec.extractLsb'_append_extractLsb'_eq_extractLsb' (show 12 = 11 + 1 from rfl),
    BitVec.extractLsb'_append_extractLsb'_eq_extractLsb' (show 11 = 5 + 6 from rfl),
    BitVec.extractLsb'_append_extractLsb'_eq_extractLsb' (show 5 = 1 + 4 from rfl),
    BitVec.extractLsb'_append_extractLsb'_eq_extractLsb' (show 1 = 0 + 1 from rfl)]
  exact BitVec.extractLsb'_eq_self

/-- the four parts of a jump offset, and its bit 0 -/
theorem jType_imm (imm : BitVec 21) :
    let w := jType imm rd opcode
    w.extractLsb' 31 1 ++ w.extractLsb' 12 8 ++ w.extractLsb' 20 1 ++ w.extractLsb' 21 10 ++ imm.extractLsb' 0 1 =
      imm := by
  intro w
  have h31 : w.extractLsb' 31 1 = imm.extractLsb' 20 1 := by
    simp (disch := omega) only [w, jType, uType, BitVec.extractLsb'_append_eq_of_le]
    exact BitVec.extractLsb'_eq_self
  have h12 : w.extractLsb' 12 8 = imm.extractLsb' 12 8 := by
    simp (disch := omega) only [w, jType, uType, BitVec.extractLsb'_append_eq_of_le,
      BitVec.extractLsb'_append_eq_of_add_le]
    exact BitVec.extractLsb'_eq_self
  have h20 : w.extractLsb' 20 1 = imm.extractLsb' 11 1 := by
    simp (disch := omega) only [w, jType, uType, BitVec.extractLsb'_append_eq_of_le,
      BitVec.extractLsb'_append_eq_of_add_le]
    exact BitVec.extractLsb'_eq_self
  have h21 : w.extractLsb' 21 10 = imm.extractLsb' 1 10 := by
    simp (disch := omega) only [w, jType, uType, BitVec.extractLsb'_append_eq_of_le,
      BitVec.extractLsb'_append_eq_of_add_le]
    exact BitVec.extractLsb'_eq_self
  rw [h31, h12, h20, h21, BitVec.extractLsb'_append_extractLsb'_eq_extractLsb' (show 20 = 12 + 8 from rfl),
    BitVec.extractLsb'_append_extractLsb'_eq_extractLsb' (show 12 = 11 + 1 from rfl),
    BitVec.extractLsb'_append_extractLsb'_eq_extractLsb' (show 11 = 1 + 10 from rfl),
    BitVec.extractLsb'_append_extractLsb'_eq_extractLsb' (show 1 = 0 + 1 from rfl)]
  exact BitVec.extractLsb'_eq_self

end

end Rv32i
