/-
The decoder on the standard RV32I encodings.

The formats scatter the immediates; get_.. and the immediate macros of exec.c put them together again with shifts, masks
and a test of the sign bit. Results:
- `iImm_eq`, `sImm_eq`, `bImm_eq`, `jImm_eq`, `uImm_eq`: the immediates are the sign extensions of the parts;
- `decode_encode`: an encoded instruction decodes to the leaf of exec that stands for it.
-/
import RiscvEmu.Decode
import RiscvEmu.Lib.Bits
import RiscvEmu.Lib.Rv32i

namespace RiscvEmu

/-! ## Immediates -/

section
variable (ins : Word)

/-- a field of the word, widened -/
theorem setWidth_field (k n : ℕ) :
    (ins.extractLsb' k n).setWidth 32 = ins >>> k &&& (BitVec.allOnes n).setWidth 32 := by
  apply BitVec.eq_of_getLsbD_eq
  intro i hi
  simp only [BitVec.getLsbD_and, BitVec.getLsbD_setWidth, BitVec.getLsbD_ushiftRight, BitVec.getLsbD_allOnes,
    BitVec.getLsbD_extractLsb', hi, decide_true, Bool.true_and]
  exact Bool.and_comm _ _

theorem signExtend12_setWidth (x : BitVec 12) : signExtend12 (x.setWidth 32) = x.signExtend 32 := by
  have hmsb : x.setWidth 32 &&& (0x800 : Word) ≠ 0 ↔ x.msb = true := Bits.setWidth_and_signBit x (by decide)
  simp only [signExtend12, hmsb]
  exact Bits.ite_or_eq_signExtend x

theorem signExtend13_setWidth (x : BitVec 13) : signExtend13 (x.setWidth 32) = x.signExtend 32 := by
  have hmsb : x.setWidth 32 &&& (0x1000 : Word) ≠ 0 ↔ x.msb = true := Bits.setWidth_and_signBit x (by decide)
  simp only [signExtend13, hmsb]
  exact Bits.ite_or_eq_signExtend x

theorem signExtend21_setWidth (x : BitVec 21) : signExtend21 (x.setWidth 32) = x.signExtend 32 := by
  have hmsb : x.setWidth 32 &&& (0x100000 : Word) ≠ 0 ↔ x.msb = true := Bits.setWidth_and_signBit x (by decide)
  simp only [signExtend21, hmsb]
  exact Bits.ite_or_eq_signExtend x

theorem iImm_eq : iImm ins = (ins.extractLsb' 20 12).signExtend 32 := by
  rw [← signExtend12_setWidth, setWidth_field]
  rfl

theorem sImm_eq : sImm ins = (ins.extractLsb' 25 7 ++ ins.extractLsb' 7 5).signExtend 32 := by
  have himm : (ins >>> 25 &&& 0x7F) <<< 5 ||| ins >>> 7 &&& 0x1F =
      (ins.extractLsb' 25 7 ++ ins.extractLsb' 7 5).setWidth 32 := by
    rw [Bits.setWidth_append, setWidth_field, setWidth_field]
    rfl
  rw [sImm, himm]
  exact signExtend12_setWidth _

/-- four parts, each shifted past the next -/
theorem gather (x y z u : Word) (k m n : ℕ) :
    (((x <<< k ||| y) <<< m ||| z) <<< n ||| u) <<< 1 ||| (0#1).setWidth 32 =
      x <<< (k + m + n + 1) ||| y <<< (m + n + 1) ||| z <<< (n + 1) ||| u <<< 1 := by
  have hz : (0#1).setWidth 32 = 0#32 := rfl
  simp only [BitVec.shiftLeft_or_distrib, ← BitVec.shiftLeft_add, hz, BitVec.or_zero]

theorem or_last (x y z u : Word) : x ||| y ||| z ||| u = x ||| z ||| u ||| y := by ac_rfl

theorem or_swap (x y z u : Word) : x ||| y ||| z ||| u = x ||| u ||| z ||| y := by ac_rfl

/-- imm[12|11|10:5|4:1] at ins[31|7|30:25|11:8] -/
def branchImm := ins.extractLsb' 31 1 ++ ins.extractLsb' 7 1 ++ ins.extractLsb' 25 6 ++ ins.extractLsb' 8 4 ++ 0#1

/-- imm[20|19:12|11|10:1] at ins[31|19:12|20|30:21] -/
def jumpImm := ins.extractLsb' 31 1 ++ ins.extractLsb' 12 8 ++ ins.extractLsb' 20 1 ++ ins.extractLsb' 21 10 ++ 0#1

theorem bImm_eq : bImm ins = (branchImm ins).signExtend 32 := by
  have h12 : (ins.extractLsb' 31 1).setWidth 32 = ins >>> 31 &&& 0x1 := setWidth_field ins 31 1
  have h11 : (ins.extractLsb' 7 1).setWidth 32 = ins >>> 7 &&& 0x1 := setWidth_field ins 7 1
  have h5 : (ins.extractLsb' 25 6).setWidth 32 = ins >>> 25 &&& 0x3F := setWidth_field ins 25 6
  have h1 : (ins.extractLsb' 8 4).setWidth 32 = ins >>> 8 &&& 0xF := setWidth_field ins 8 4
  have himm : (branchImm ins).setWidth 32 = (ins >>> 31 &&& 0x1) <<< 12 ||| (ins >>> 25 &&& 0x3F) <<< 5
      ||| (ins >>> 8 &&& 0xF) <<< 1 ||| (ins >>> 7 &&& 0x1) <<< 11 := by
    simp only [branchImm, Bits.setWidth_append]
    rw [h12, h11, h5, h1]
    exact (gather _ _ _ _ _ _ _).trans (or_last _ _ _ _)
  rw [bImm, ← himm]
  exact signExtend13_setWidth _

theorem jImm_eq : jImm ins = (jumpImm ins).signExtend 32 := by
  have h20 : (ins.extractLsb' 31 1).setWidth 32 = ins >>> 31 &&& 0x1 := setWidth_field ins 31 1
  have h12 : (ins.extractLsb' 12 8).setWidth 32 = ins >>> 12 &&& 0xFF := setWidth_field ins 12 8
  have h11 : (ins.extractLsb' 20 1).setWidth 32 = ins >>> 20 &&& 0x1 := setWidth_field ins 20 1
  have h1 : (ins.extractLsb' 21 10).setWidth 32 = ins >>> 21 &&& 0x3FF := setWidth_field ins 21 10
  have himm : (jumpImm ins).setWidth 32 = (ins >>> 31 &&& 0x1) <<< 20 ||| (ins >>> 21 &&& 0x3FF) <<< 1
      ||| (ins >>> 20 &&& 0x1) <<< 11 ||| (ins >>> 12 &&& 0xFF) <<< 12 := by
    rw [jumpImm, Bits.setWidth_append, Bits.setWidth_append, Bits.setWidth_append, Bits.setWidth_append]
    rw [h20, h12, h11, h1]
    exact (gather _ _ _ _ _ _ _).trans (or_swap _ _ _ _)
  rw [jImm, ← himm]
  exact signExtend21_setWidth _

theorem uImm_eq : uImm ins = ins.extractLsb' 12 20 ++ 0#12 := by
  apply BitVec.eq_of_getLsbD_eq
  intro i hi
  have hmask : (0xFFFFF000 : Word) = BitVec.allOnes 32 <<< 12 := by decide
  rw [uImm, hmask, BitVec.getLsbD_and, BitVec.getLsbD_shiftLeft, BitVec.getLsbD_append, BitVec.getLsbD_extractLsb']
  by_cases h : i < 12
  · simp [h]
  · have hk : 12 + (i - 12) = i := by omega
    have hlt : i - 12 < 20 := by omega
    have hones : (BitVec.allOnes 32).getLsbD (i - 12) = true := by
      rw [BitVec.getLsbD_allOnes, decide_eq_true (by omega)]
    simp only [hones, h, hi, hk, hlt, decide_true, decide_false, Bool.not_false, Bool.and_true, Bool.true_and, if_false]

end

/-- a shift amount, the low five bits of an immediate -/
theorem shamt_eq (funct7 : BitVec 7) (shamt : BitVec 5) :
    (funct7 ++ shamt).signExtend 32 &&& (0x1F : Word) = shamt.setWidth 32 := by
  have hmask : (0x1F : Word) = (BitVec.allOnes 5).setWidth 32 := by decide
  apply BitVec.eq_of_getLsbD_eq
  intro i hi
  rw [hmask, BitVec.getLsbD_and, BitVec.getLsbD_signExtend, BitVec.getLsbD_append, BitVec.getLsbD_setWidth,
    BitVec.getLsbD_setWidth, BitVec.getLsbD_allOnes]
  by_cases h : i < 5
  · have hlt : i < 7 + 5 := by omega
    simp only [hi, h, hlt, decide_true, Bool.true_and, Bool.and_true, if_true]
  · have hs : shamt.getLsbD i = false := BitVec.getLsbD_of_ge shamt i (Nat.le_of_not_lt h)
    simp only [hi, h, hs, decide_true, decide_false, Bool.and_false]

/-! ## Instructions -/

def ROp.ofIsa : Rv32i.AluOp → ROp
  | .add => .add
  | .sub => .sub
  | .sll => .sll
  | .slt => .slt
  | .sltu => .sltu
  | .xor => .xor
  | .srl => .srl
  | .sra => .sra
  | .or => .or
  | .and => .and

def IOp.ofImmOp : Rv32i.ImmOp → IOp
  | .addi => .addi
  | .slti => .slti
  | .sltiu => .sltiu
  | .xori => .xori
  | .ori => .ori
  | .andi => .andi

def IOp.ofShiftOp : Rv32i.ShiftOp → IOp
  | .slli => .slli
  | .srli => .srli
  | .srai => .srai

def BranchOp.ofIsa : Rv32i.Cond → BranchOp
  | .beq => .beq
  | .bne => .bne
  | .blt => .blt
  | .bge => .bge
  | .bltu => .bltu
  | .bgeu => .bgeu

def LoadOp.ofIsa : Rv32i.LoadOp → LoadOp
  | .lb => .lb
  | .lh => .lh
  | .lw => .lw
  | .lbu => .lbu
  | .lhu => .lhu

def StoreOp.ofIsa : Rv32i.StoreOp → StoreOp
  | .sb => .sb
  | .sh => .sh
  | .sw => .sw

/-- the leaf that stands for an instruction -/
def Insn.ofIsa : Rv32i.Instr → Insn
  | .op o rd rs1 rs2 => .alu (.ofIsa o) rs2 rs1 rd
  | .opImm o rd rs1 imm => .aluImm (.ofImmOp o) (imm.signExtend 32) rs1 rd
  | .shift o rd rs1 shamt => .aluImm (.ofShiftOp o) (shamt.setWidth 32) rs1 rd
  | .lui rd imm => .lui (imm ++ 0#12) rd
  | .auipc rd imm => .auipc (imm ++ 0#12) rd
  | .jal rd offset => .jal ((offset ++ 0#1).signExtend 32) rd
  | .jalr rd rs1 imm => .jalr (imm.signExtend 32) rs1 rd
  | .branch c rs1 rs2 offset => .branch (.ofIsa c) ((offset ++ 0#1).signExtend 32) rs2 rs1
  | .load o rd rs1 imm => .load (.ofIsa o) (imm.signExtend 32) rs1 rd
  | .store o rs1 rs2 imm => .store (.ofIsa o) (imm.signExtend 32) rs2 rs1

section
variable (rd rs1 rs2 : BitVec 5)

theorem decode_op (o : Rv32i.AluOp) :
    decode (Rv32i.rType o.funct7 rs2 rs1 o.funct3 rd 0b0110011) = .alu (.ofIsa o) rs2 rs1 rd := by
  generalize hw : Rv32i.rType o.funct7 rs2 rs1 o.funct3 rd 0b0110011 = w
  have hop : getOpcode w = 0b0110011 := hw ▸ Rv32i.uType_opcode _ _ _
  have h3 : getFunct3 w = o.funct3 := hw ▸ Rv32i.iType_funct3 _ _ _ _ _
  have h7 : getFunct7 w = o.funct7 := hw ▸ Rv32i.rType_funct7 _ _ _ _ _ _
  have hrs2 : getRs2 w = rs2 := hw ▸ Rv32i.rType_rs2 _ _ _ _ _ _
  have hrs1 : getRs1 w = rs1 := hw ▸ Rv32i.iType_rs1 _ _ _ _ _
  have hrd : getRd w = rd := hw ▸ Rv32i.uType_rd _ _ _
  simp only [decode, hop, decodeR, h3, h7, hrs1, hrs2, hrd]
  cases o <;> rfl

theorem decode_opImm (o : Rv32i.ImmOp) (imm : BitVec 12) :
    decode (Rv32i.iType imm rs1 o.alu.funct3 rd 0b0010011) = .aluImm (.ofImmOp o) (imm.signExtend 32) rs1 rd := by
  generalize hw : Rv32i.iType imm rs1 o.alu.funct3 rd 0b0010011 = w
  have hop : getOpcode w = 0b0010011 := hw ▸ Rv32i.uType_opcode _ _ _
  have h3 : getFunct3 w = o.alu.funct3 := hw ▸ Rv32i.iType_funct3 _ _ _ _ _
  have hrs1 : getRs1 w = rs1 := hw ▸ Rv32i.iType_rs1 _ _ _ _ _
  have hrd : getRd w = rd := hw ▸ Rv32i.uType_rd _ _ _
  have himm : w.extractLsb' 20 12 = imm := hw ▸ Rv32i.iType_imm _ _ _ _ _
  simp only [decode, hop, decodeI, h3, iImm_eq, himm, hrs1, hrd]
  cases o <;> rfl

theorem decode_shift (o : Rv32i.ShiftOp) (shamt : BitVec 5) :
    decode (Rv32i.rType o.alu.funct7 shamt rs1 o.alu.funct3 rd 0b0010011) =
      .aluImm (.ofShiftOp o) (shamt.setWidth 32) rs1 rd := by
  generalize hw : Rv32i.rType o.alu.funct7 shamt rs1 o.alu.funct3 rd 0b0010011 = w
  have hop : getOpcode w = 0b0010011 := hw ▸ Rv32i.uType_opcode _ _ _
  have h3 : getFunct3 w = o.alu.funct3 := hw ▸ Rv32i.iType_funct3 _ _ _ _ _
  have h7 : getFunct7 w = o.alu.funct7 := hw ▸ Rv32i.rType_funct7 _ _ _ _ _ _
  have hrs1 : getRs1 w = rs1 := hw ▸ Rv32i.iType_rs1 _ _ _ _ _
  have hrd : getRd w = rd := hw ▸ Rv32i.uType_rd _ _ _
  have himm : w.extractLsb' 20 12 = o.alu.funct7 ++ shamt := hw ▸ Rv32i.iType_imm _ _ _ _ _
  simp only [decode, hop, decodeI, h3, h7, iImm_eq, himm, shamt_eq, hrs1, hrd]
  cases o <;> rfl

theorem decode_lui (imm : BitVec 20) : decode (Rv32i.uType imm rd 0b0110111) = .lui (imm ++ 0#12) rd := by
  generalize hw : Rv32i.uType imm rd 0b0110111 = w
  have hop : getOpcode w = 0b0110111 := hw ▸ Rv32i.uType_opcode _ _ _
  have hrd : getRd w = rd := hw ▸ Rv32i.uType_rd _ _ _
  have himm : w.extractLsb' 12 20 = imm := hw ▸ Rv32i.uType_imm _ _ _
  simp only [decode, hop, uImm_eq, himm, hrd]
  rfl

theorem decode_auipc (imm : BitVec 20) : decode (Rv32i.uType imm rd 0b0010111) = .auipc (imm ++ 0#12) rd := by
  generalize hw : Rv32i.uType imm rd 0b0010111 = w
  have hop : getOpcode w = 0b0010111 := hw ▸ Rv32i.uType_opcode _ _ _
  have hrd : getRd w = rd := hw ▸ Rv32i.uType_rd _ _ _
  have himm : w.extractLsb' 12 20 = imm := hw ▸ Rv32i.uType_imm _ _ _
  simp only [decode, hop, uImm_eq, himm, hrd]
  rfl

theorem decode_jal (offset : BitVec 20) :
    decode (Rv32i.jType (offset ++ 0#1) rd 0b1101111) = .jal ((offset ++ 0#1).signExtend 32) rd := by
  have himm := Rv32i.jType_imm rd 0b1101111 (offset ++ 0#1)
  have hlow : (offset ++ 0#1).extractLsb' 0 1 = 0#1 := BitVec.extractLsb'_append_eq_right
  simp only [hlow] at himm
  generalize hw : Rv32i.jType (offset ++ 0#1) rd 0b1101111 = w at himm ⊢
  have hop : getOpcode w = 0b1101111 := hw ▸ Rv32i.uType_opcode _ _ _
  have hrd : getRd w = rd := hw ▸ Rv32i.uType_rd _ _ _
  have hoff : jumpImm w = offset ++ 0#1 := himm
  simp only [decode, hop, jImm_eq, hoff, hrd]
  rfl

theorem decode_jalr (imm : BitVec 12) :
    decode (Rv32i.iType imm rs1 0b000 rd 0b1100111) = .jalr (imm.signExtend 32) rs1 rd := by
  generalize hw : Rv32i.iType imm rs1 0b000 rd 0b1100111 = w
  have hop : getOpcode w = 0b1100111 := hw ▸ Rv32i.uType_opcode _ _ _
  have hrs1 : getRs1 w = rs1 := hw ▸ Rv32i.iType_rs1 _ _ _ _ _
  have hrd : getRd w = rd := hw ▸ Rv32i.uType_rd _ _ _
  have himm : w.extractLsb' 20 12 = imm := hw ▸ Rv32i.iType_imm _ _ _ _ _
  simp only [decode, hop, iImm_eq, himm, hrs1, hrd]
  rfl

theorem decode_branch (c : Rv32i.Cond) (offset : BitVec 12) :
    decode (Rv32i.bType (offset ++ 0#1) rs2 rs1 c.funct3 0b1100011) =
      .branch (.ofIsa c) ((offset ++ 0#1).signExtend 32) rs2 rs1 := by
  have himm := Rv32i.bType_imm rs2 rs1 c.funct3 0b1100011 (offset ++ 0#1)
  have hlow : (offset ++ 0#1).extractLsb' 0 1 = 0#1 := BitVec.extractLsb'_append_eq_right
  simp only [hlow] at himm
  generalize hw : Rv32i.bType (offset ++ 0#1) rs2 rs1 c.funct3 0b1100011 = w at himm ⊢
  have hop : getOpcode w = 0b1100011 := hw ▸ Rv32i.uType_opcode _ _ _
  have h3 : getFunct3 w = c.funct3 := hw ▸ Rv32i.iType_funct3 _ _ _ _ _
  have hrs1 : getRs1 w = rs1 := hw ▸ Rv32i.iType_rs1 _ _ _ _ _
  have hrs2 : getRs2 w = rs2 := hw ▸ Rv32i.rType_rs2 _ _ _ _ _ _
  have hoff : branchImm w = offset ++ 0#1 := himm
  simp only [decode, hop, decodeBranch, h3, bImm_eq, hoff, hrs1, hrs2]
  cases c <;> rfl

theorem decode_load (o : Rv32i.LoadOp) (imm : BitVec 12) :
    decode (Rv32i.iType imm rs1 o.funct3 rd 0b0000011) = .load (.ofIsa o) (imm.signExtend 32) rs1 rd := by
  generalize hw : Rv32i.iType imm rs1 o.funct3 rd 0b0000011 = w
  have hop : getOpcode w = 0b0000011 := hw ▸ Rv32i.uType_opcode _ _ _
  have h3 : getFunct3 w = o.funct3 := hw ▸ Rv32i.iType_funct3 _ _ _ _ _
  have hrs1 : getRs1 w = rs1 := hw ▸ Rv32i.iType_rs1 _ _ _ _ _
  have hrd : getRd w = rd := hw ▸ Rv32i.uType_rd _ _ _
  have himm : w.extractLsb' 20 12 = imm := hw ▸ Rv32i.iType_imm _ _ _ _ _
  simp only [decode, hop, decodeLoad, h3, iImm_eq, himm, hrs1, hrd]
  cases o <;> rfl

theorem decode_store (o : Rv32i.StoreOp) (imm : BitVec 12) :
    decode (Rv32i.sType imm rs2 rs1 o.funct3 0b0100011) = .store (.ofIsa o) (imm.signExtend 32) rs2 rs1 := by
  have himm := Rv32i.sType_imm rs2 rs1 o.funct3 0b0100011 imm
  generalize hw : Rv32i.sType imm rs2 rs1 o.funct3 0b0100011 = w at himm ⊢
  have hop : getOpcode w = 0b0100011 := hw ▸ Rv32i.uType_opcode _ _ _
  have h3 : getFunct3 w = o.funct3 := hw ▸ Rv32i.iType_funct3 _ _ _ _ _
  have hrs1 : getRs1 w = rs1 := hw ▸ Rv32i.iType_rs1 _ _ _ _ _
  have hrs2 : getRs2 w = rs2 := hw ▸ Rv32i.rType_rs2 _ _ _ _ _ _
  simp only [decode, hop, decodeStore, h3, sImm_eq, himm, hrs1, hrs2]
  cases o <;> rfl

end

/-- an encoded instruction decodes to the leaf that stands for it -/
theorem decode_encode (i : Rv32i.Instr) : decode i.encode = .ofIsa i := by
  cases i with
  | op o rd rs1 rs2 => exact decode_op rd rs1 rs2 o
  | opImm o rd rs1 imm => exact decode_opImm rd rs1 o imm
  | shift o rd rs1 shamt => exact decode_shift rd rs1 o shamt
  | lui rd imm => exact decode_lui rd imm
  | auipc rd imm => exact decode_auipc rd imm
  | jal rd offset => exact decode_jal rd offset
  | jalr rd rs1 imm => exact decode_jalr rd rs1 imm
  | branch c rs1 rs2 offset => exact decode_branch rs1 rs2 c offset
  | load o rd rs1 imm => exact decode_load rd rs1 o imm
  | store o rs1 rs2 imm => exact decode_store rs1 rs2 o imm

/-- an encoded instruction is 32 bits long -/
theorem encode_low (i : Rv32i.Instr) : i.encode.extractLsb' 0 2 = 3 := by
  have hop : i.encode.extractLsb' 0 2 = (i.encode.extractLsb' 0 7).extractLsb' 0 2 := by
    rw [BitVec.extractLsb'_extractLsb'_of_le (by decide)]
  rw [hop]
  cases i <;> exact congrArg (BitVec.extractLsb' 0 2) (Rv32i.uType_opcode _ _ _)

end RiscvEmu
