/-
exec.c: the 32-bit decoder and the dispatch of one instruction.

exec is one switch on the opcode. Here the switch is in two: `decode` names the leaf a word ends in, `Insn.run` does what
the leaf does. A fatal error of the emulator is a leaf as well.
-/
import RiscvEmu.CExtension
import RiscvEmu.Insn

namespace RiscvEmu

/-- the instructions under the test of mstatus.FS -/
inductive FpInsn where
  | load (op : FLoadOp) (imm : Word) (rs1 rd : Reg)
  | store (op : FStoreOp) (imm : Word) (rs1 rs2 : Reg)
  | fma (subop : BitVec 2)
  | fpop
  | fatal (f : Fatal)
deriving DecidableEq, Repr

inductive Insn where
  | alu (op : ROp) (rs2 rs1 rd : Reg)
  | aluImm (op : IOp) (imm : Word) (rs1 rd : Reg)
  | load (op : LoadOp) (imm : Word) (rs1 rd : Reg)
  | store (op : StoreOp) (imm : Word) (rs2 rs1 : Reg)
  | fp (i : FpInsn)
  | atomic (a : AInsn) (rs1 rs2 rd : Reg)
  | branch (op : BranchOp) (imm : Word) (rs2 rs1 : Reg)
  | jal (imm : Word) (rd : Reg)
  | lui (imm : Word) (rd : Reg)
  | auipc (imm : Word) (rd : Reg)
  | jalr (imm : Word) (rs1 rd : Reg)
  | ecall | ebreak
  | sret | mret | mnret
  | sctrclr | wfi | sfenceVma
  | zicsr (op : CsrOp) (rs1 rd : Reg) (csr : Csr)
  | fence | fenceI
  | illegal
  | fatal (f : Fatal)
deriving DecidableEq, Repr

/-! ## Fields -/

section
variable (ins : Word)

def getOpcode : BitVec 7 := ins.extractLsb' 0 7
def getFunct3 : BitVec 3 := ins.extractLsb' 12 3
def getFunct7 : BitVec 7 := ins.extractLsb' 25 7
def getRs1 : Reg := ins.extractLsb' 15 5
def getRs2 : Reg := ins.extractLsb' 20 5
def getRd : Reg := ins.extractLsb' 7 5

theorem getOpcode_low : (getOpcode ins).extractLsb' 0 2 = ins.extractLsb' 0 2 :=
  BitVec.extractLsb'_extractLsb'_of_le (by decide)

/-- (ins >> 20) & 0xFFF -/
def getImm12 : Csr := ins.extractLsb' 20 12

def iImm : Word := signExtend12 (ins >>> 20 &&& 0xFFF)

def sImm : Word := signExtend12 ((ins >>> 25 &&& 0x7F) <<< 5 ||| ins >>> 7 &&& 0x1F)

def bImm : Word :=
  signExtend13 ((ins >>> 31 &&& 0x1) <<< 12 ||| (ins >>> 25 &&& 0x3F) <<< 5 ||| (ins >>> 8 &&& 0xF) <<< 1
    ||| (ins >>> 7 &&& 0x1) <<< 11)

def jImm : Word :=
  signExtend21 ((ins >>> 31 &&& 0x1) <<< 20 ||| (ins >>> 21 &&& 0x3FF) <<< 1 ||| (ins >>> 20 &&& 0x1) <<< 11
    ||| (ins >>> 12 &&& 0xFF) <<< 12)

def uImm : Word := ins &&& 0xFFFFF000

/-! ## The switch -/

/-- the column of m_ins_optable -/
def mOp : BitVec 3 → ROp
  | 0#3 => .mul
  | 1#3 => .mulh
  | 2#3 => .mulsu
  | 3#3 => .mulu
  | 4#3 => .div
  | 5#3 => .divu
  | 6#3 => .rem
  | _ => .remu

def decodeR : Insn :=
  let funct3 := getFunct3 ins
  let funct7 := getFunct7 ins
  let r (op : ROp) : Insn := .alu op (getRs2 ins) (getRs1 ins) (getRd ins)
  let plain (op : ROp) : Insn := if funct7 = 0b0000000 then r op else .fatal ⟨"invalid R-type funct7", []⟩
  if funct7 = 0b0000001 then r (mOp funct3)
  else if funct7 = 0b0000111 then
    if funct3 = 0b101 then r .czeroEqz
    else if funct3 = 0b111 then r .czeroNez
    else .fatal ⟨"invalid ZICOND funct3", []⟩
  else
    match funct3 with
    | 0#3 => if funct7 = 0b0000000 then r .add else if funct7 = 0b0100000 then r .sub
        else .fatal ⟨"invalid R-type funct7", []⟩
    | 1#3 => plain .sll
    | 2#3 => plain .slt
    | 3#3 => plain .sltu
    | 4#3 => plain .xor
    | 5#3 => if funct7 = 0b0000000 then r .srl else if funct7 = 0b0100000 then r .sra
        else .fatal ⟨"invalid R-type funct7", []⟩
    | 6#3 => plain .or
    | _ => plain .and

def decodeI : Insn :=
  let funct7 := getFunct7 ins
  let imm := iImm ins
  let shamt := imm &&& 0x1F
  let i (op : IOp) (imm : Word) : Insn := .aluImm op imm (getRs1 ins) (getRd ins)
  match getFunct3 ins with
  | 0#3 => i .addi imm
  | 1#3 => if funct7 ≠ 0b0000000 then .illegal else i .slli shamt
  | 2#3 => i .slti imm
  | 3#3 => i .sltiu imm
  | 4#3 => i .xori imm
  | 5#3 => if funct7 = 0b0000000 then i .srli shamt else if funct7 = 0b0100000 then i .srai shamt
      else .fatal ⟨"invalid SRLI/SRAI funct7", []⟩
  | 6#3 => i .ori imm
  | _ => i .andi imm

def decodeLoad : Insn :=
  let load (op : LoadOp) : Insn := .load op (iImm ins) (getRs1 ins) (getRd ins)
  match getFunct3 ins with
  | 0#3 => load .lb
  | 1#3 => load .lh
  | 2#3 => load .lw
  | 4#3 => load .lbu
  | 5#3 => load .lhu
  | _ => .fatal ⟨"invalid load instruction", []⟩

def decodeStore : Insn :=
  let store (op : StoreOp) : Insn := .store op (sImm ins) (getRs2 ins) (getRs1 ins)
  match getFunct3 ins with
  | 0#3 => store .sb
  | 1#3 => store .sh
  | 2#3 => store .sw
  | _ => .fatal ⟨"invalid store instruction", []⟩

def decodeFLoad : FpInsn :=
  let load (op : FLoadOp) : FpInsn := .load op (iImm ins) (getRs1 ins) (getRd ins)
  match getFunct3 ins with
  | 1#3 => load .flh
  | 2#3 => load .flw
  | 3#3 => load .fld
  | 4#3 => load .flq
  | _ => .fatal ⟨"invalid FP load instruction", []⟩

def decodeFStore : FpInsn :=
  let store (op : FStoreOp) : FpInsn := .store op (sImm ins) (getRs1 ins) (getRs2 ins)
  match getFunct3 ins with
  | 1#3 => store .fsh
  | 2#3 => store .fsw
  | 3#3 => store .fsd
  | 4#3 => store .fsq
  | _ => .fatal ⟨"invalid FP store instruction", []⟩

def decodeAtomic : Insn :=
  let atomic (a : AInsn) : Insn := .atomic a (getRs1 ins) (getRs2 ins) (getRd ins)
  if getFunct3 ins = 0x2 then
    match ins.extractLsb' 27 5 with
    | 0x00#5 => atomic (.amo .amoadd)
    | 0x01#5 => atomic (.amo .amoswap)
    | 0x02#5 => atomic .lr
    | 0x03#5 => atomic .sc
    | 0x04#5 => atomic (.amo .amoxor)
    | 0x08#5 => atomic (.amo .amoor)
    | 0x0C#5 => atomic (.amo .amoand)
    | 0x10#5 => atomic (.amo .amomin)
    | 0x14#5 => atomic (.amo .amomax)
    | 0x18#5 => atomic (.amo .amominu)
    | 0x1C#5 => atomic (.amo .amomaxu)
    | _ => .fatal ⟨"invalid atomic instruction", []⟩
  else .fatal ⟨"invalid atomic instruction", []⟩

def decodeBranch : Insn :=
  let branch (op : BranchOp) : Insn := .branch op (bImm ins) (getRs2 ins) (getRs1 ins)
  match getFunct3 ins with
  | 0#3 => branch .beq
  | 1#3 => branch .bne
  | 4#3 => branch .blt
  | 5#3 => branch .bge
  | 6#3 => branch .bltu
  | 7#3 => branch .bgeu
  | _ => .fatal ⟨"invalid branch instruction", []⟩

/-- SYSTEM with funct3 = 0 -/
def decodePrivileged : Insn :=
  let imm := getImm12 ins
  let rs1 := getRs1 ins
  let rd := getRd ins
  if rs1 = 0 ∧ rd = 0 then
    match imm with
    | 0x000#12 => .ecall
    | 0x001#12 => .ebreak
    | 0x102#12 => .sret
    | 0x302#12 => .mret
    | 0x702#12 => .mnret
    | 0x104#12 => .sctrclr
    | 0x105#12 => .wfi
    | imm => if getFunct7 ins = 0b0001001 then .sfenceVma
        else .fatal ⟨"illegal system instruction imm=0x%x", [imm.setWidth 32]⟩
  else if getFunct7 ins = 0b0001001 then
    if rd ≠ 0 then .fatal ⟨"sfence.vma: rd must be 0, got rd=%d", [rd.setWidth 32]⟩ else .sfenceVma
  else .fatal ⟨"illegal system instruction imm=0x%x rs1=%d rd=%d",
    [imm.setWidth 32, rs1.setWidth 32, rd.setWidth 32]⟩

def decodeSystem : Insn :=
  let zicsr (op : CsrOp) : Insn := .zicsr op (getRs1 ins) (getRd ins) (getImm12 ins)
  match getFunct3 ins with
  | 0#3 => decodePrivileged ins
  | 1#3 => zicsr .rw
  | 2#3 => zicsr .rs
  | 3#3 => zicsr .rc
  | 5#3 => zicsr .rwi
  | 6#3 => zicsr .rsi
  | 7#3 => zicsr .rci
  | funct3 => .fatal ⟨"unsupported CSR instruction funct3=%d", [funct3.setWidth 32]⟩

def decodeFence : Insn :=
  match getFunct3 ins with
  | 0#3 => .fence
  | 1#3 => .fenceI
  | _ => .fatal ⟨"illegal fence instruction", []⟩

def decode : Insn :=
  match getOpcode ins with
  | 0b0110011#7 => decodeR ins
  | 0b0010011#7 => decodeI ins
  | 0b0000011#7 => decodeLoad ins
  | 0b0100011#7 => decodeStore ins
  | 0b0000111#7 => .fp (decodeFLoad ins)
  | 0b0100111#7 => .fp (decodeFStore ins)
  | 0b1000011#7 => .fp (.fma 0)
  | 0b1000111#7 => .fp (.fma 1)
  | 0b1001011#7 => .fp (.fma 2)
  | 0b1001111#7 => .fp (.fma 3)
  | 0b1010011#7 => .fp .fpop
  | 0b0101111#7 => decodeAtomic ins
  | 0b1100011#7 => decodeBranch ins
  | 0b1101111#7 => .jal (jImm ins) (getRd ins)
  | 0b0110111#7 => .lui (uImm ins) (getRd ins)
  | 0b0010111#7 => .auipc (uImm ins) (getRd ins)
  | 0b1100111#7 => .jalr (iImm ins) (getRs1 ins) (getRd ins)
  | 0b1110011#7 => decodeSystem ins
  | 0b0001111#7 => decodeFence ins
  | _ => .illegal

end

/-! ## The leaves -/

def fpuFsOff (s : Machine) : Bool := csrRead s csrMstatus &&& mstatusFsMask = 0

section
variable [SoftFloat]

def FpInsn.run (s : Machine) (ins : Word) : FpInsn → Except Fatal Machine
  | .load op imm rs1 rd => .ok (op.exec s imm rs1 rd)
  | .store op imm rs1 rs2 => .ok (op.exec s imm rs1 rs2)
  | .fma subop => .ok (insfRFma s ins subop)
  | .fpop => insfRFpop s ins
  | .fatal f => .error f

def Insn.run (s : Machine) (ins : Word) : Insn → Except Fatal Machine
  | .alu op rs2 rs1 rd => .ok (op.exec s rs2 rs1 rd)
  | .aluImm op imm rs1 rd => .ok (op.exec s imm rs1 rd)
  | .load op imm rs1 rd => .ok (op.exec s imm rs1 rd)
  | .store op imm rs2 rs1 => .ok (op.exec s imm rs2 rs1)
  | .fp i => if fpuFsOff s then .ok (raiseException s causeIllegalInstruction ins) else i.run s ins
  | .atomic a rs1 rs2 rd => a.exec s rs1 rs2 rd
  | .branch op imm rs2 rs1 => .ok (op.exec s imm rs2 rs1)
  | .jal imm rd => .ok (insiJJal s imm rd)
  | .lui imm rd => .ok (insiULui s imm rd)
  | .auipc imm rd => .ok (insiUAuipc s imm rd)
  | .jalr imm rs1 rd => .ok (insiIJalr s imm rs1 rd)
  | .ecall => .ok (insiIEcall s)
  | .ebreak => .ok (insiIEbreak s)
  | .sret => .ok (insSret s)
  | .mret => .ok (insMret s)
  | .mnret => .ok (insMnret s)
  | .sctrclr => .ok (insSctrclr s)
  | .wfi => .ok (insWfi s)
  | .sfenceVma => .ok (insSfenceVma s)
  | .zicsr op rs1 rd csr => .ok (op.exec s rs1 rd csr ins)
  | .fence => .ok (insFence s)
  | .fenceI => .ok (insZifenceiZifencei s)
  | .illegal => .ok (raiseIllegal s ins)
  | .fatal f => .error f

/-- exec's test of pc under the current IALIGN -/
def fetchAligned (s : Machine) : Bool := s.pc &&& (if misaCEnabled s then 1 else 3) = 0

def exec (s : Machine) (ins : Word) : Except Fatal Machine :=
  if ¬ fetchAligned s then .ok (raiseExceptionPc s causeMisalignedFetch s.pc s.gPrevInsPc)
  else if misaCEnabled s ∧ ins.extractLsb' 0 2 ≠ 3 then .ok (execCInsn s (ins.setWidth 16)).1
  else (decode ins).run s ins

end

end RiscvEmu
