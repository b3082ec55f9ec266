/-
The families of instructions exec dispatches on, each with the routine it runs.
-/
import RiscvEmu.AExtension
import RiscvEmu.BasicInstructions
import RiscvEmu.FExtension
import RiscvEmu.Zicsr

namespace RiscvEmu

inductive ROp where
  | add | sub | xor | or | and | sll | srl | sra | slt | sltu
  | mul | mulh | mulsu | mulu | div | divu | rem | remu
  | czeroEqz | czeroNez
deriving DecidableEq, Repr

def ROp.exec (s : Machine) (rs2 rs1 rd : Reg) : ROp → Machine
  | .add => insiRAdd s rs2 rs1 rd
  | .sub => insiRSub s rs2 rs1 rd
  | .xor => insiRXor s rs2 rs1 rd
  | .or => insiROr s rs2 rs1 rd
  | .and => insiRAnd s rs2 rs1 rd
  | .sll => insiRSll s rs2 rs1 rd
  | .srl => insiRSrl s rs2 rs1 rd
  | .sra => insiRSra s rs2 rs1 rd
  | .slt => insiRSlt s rs2 rs1 rd
  | .sltu => insiRSltu s rs2 rs1 rd
  | .mul => insmRMul s rs2 rs1 rd
  | .mulh => insmRMulh s rs2 rs1 rd
  | .mulsu => insmRMulsu s rs2 rs1 rd
  | .mulu => insmRMulu s rs2 rs1 rd
  | .div => insmRDiv s rs2 rs1 rd
  | .divu => insmRDivu s rs2 rs1 rd
  | .rem => insmRRem s rs2 rs1 rd
  | .remu => insmRRemu s rs2 rs1 rd
  | .czeroEqz => insZicondCzeroEqz s rs1 rs2 rd
  | .czeroNez => insZicondCzeroNez s rs1 rs2 rd

inductive IOp where
  | addi | xori | ori | andi | slli | srli | srai | slti | sltiu
deriving DecidableEq, Repr

def IOp.exec (s : Machine) (imm : Word) (rs1 rd : Reg) : IOp → Machine
  | .addi => insiIAddi s imm rs1 rd
  | .xori => insiIXori s imm rs1 rd
  | .ori => insiIOri s imm rs1 rd
  | .andi => insiIAndi s imm rs1 rd
  | .slli => insiISlli s imm rs1 rd
  | .srli => insiISrli s imm rs1 rd
  | .srai => insiISrai s imm rs1 rd
  | .slti => insiISlti s imm rs1 rd
  | .sltiu => insiISltiu s imm rs1 rd

inductive LoadOp where
  | lb | lh | lw | lbu | lhu
deriving DecidableEq, Repr

def LoadOp.exec (s : Machine) (imm : Word) (rs1 rd : Reg) : LoadOp → Machine
  | .lb => insiILb s imm rs1 rd
  | .lh => insiILh s imm rs1 rd
  | .lw => insiILw s imm rs1 rd
  | .lbu => insiILbu s imm rs1 rd
  | .lhu => insiILhu s imm rs1 rd

inductive StoreOp where
  | sb | sh | sw
deriving DecidableEq, Repr

def StoreOp.exec (s : Machine) (imm : Word) (rs2 rs1 : Reg) : StoreOp → Machine
  | .sb => insiSSb s imm rs2 rs1
  | .sh => insiSSh s imm rs2 rs1
  | .sw => insiSSw s imm rs2 rs1

inductive BranchOp where
  | beq | bne | blt | bge | bltu | bgeu
deriving DecidableEq, Repr

def BranchOp.exec (s : Machine) (imm : Word) (rs2 rs1 : Reg) : BranchOp → Machine
  | .beq => insiBBeq s imm rs2 rs1
  | .bne => insiBBne s imm rs2 rs1
  | .blt => insiBBlt s imm rs2 rs1
  | .bge => insiBBge s imm rs2 rs1
  | .bltu => insiBBltu s imm rs2 rs1
  | .bgeu => insiBBgeu s imm rs2 rs1

inductive AmoOp where
  | amoswap | amoadd | amoand | amoor | amoxor | amomax | amomin | amomaxu | amominu
deriving DecidableEq, Repr

def AmoOp.exec (s : Machine) (rs1 rs2 rd : Reg) : AmoOp → Except Fatal Machine
  | .amoswap => insaRAmoswapW s rs1 rs2 rd
  | .amoadd => insaRAmoaddW s rs1 rs2 rd
  | .amoand => insaRAmoandW s rs1 rs2 rd
  | .amoor => insaRAmoorW s rs1 rs2 rd
  | .amoxor => insaRAmoxorW s rs1 rs2 rd
  | .amomax => insaRAmomaxW s rs1 rs2 rd
  | .amomin => insaRAmominW s rs1 rs2 rd
  | .amomaxu => insaRAmomaxuW s rs1 rs2 rd
  | .amominu => insaRAmominuW s rs1 rs2 rd

/-- the instructions of a_extension.h -/
inductive AInsn where
  | amo (o : AmoOp)
  | lr
  | sc
deriving DecidableEq, Repr

def AInsn.exec (s : Machine) (rs1 rs2 rd : Reg) : AInsn → Except Fatal Machine
  | .amo o => o.exec s rs1 rs2 rd
  | .lr => insaRLrW s rs1 rd
  | .sc => insaRScW s rs1 rs2 rd

inductive CsrOp where
  | rw | rs | rc | rwi | rsi | rci
deriving DecidableEq, Repr

/-- rs1 is the register or the immediate field -/
def CsrOp.exec (s : Machine) (rs1 rd : Reg) (csr : Csr) (ins : Word) : CsrOp → Machine
  | .rw => insZicsrCsrrw s rs1 rd csr ins
  | .rs => insZicsrCsrrs s rs1 rd csr ins
  | .rc => insZicsrCsrrc s rs1 rd csr ins
  | .rwi => insZicsrCsrrwi s rs1 rd csr ins
  | .rsi => insZicsrCsrrsi s rs1 rd csr ins
  | .rci => insZicsrCsrrci s rs1 rd csr ins

/-- the value the instruction writes, if it makes a write -/
def CsrOp.newVal (op : CsrOp) (rs1 : Reg) (s : Machine) (oldVal : Word) : Option Word :=
  match op with
  | .rw => some (regRead s rs1)
  | .rs => if rs1 ≠ 0 then some (oldVal ||| regRead s rs1) else none
  | .rc => if rs1 ≠ 0 then some (oldVal &&& ~~~regRead s rs1) else none
  | .rwi => some (rs1.setWidth 32 &&& 0x1F)
  | .rsi => if rs1 ≠ 0 then some (oldVal ||| rs1.setWidth 32 &&& 0x1F) else none
  | .rci => if rs1 ≠ 0 then some (oldVal &&& ~~~(rs1.setWidth 32 &&& 0x1F)) else none

theorem CsrOp.exec_eq (op : CsrOp) (s : Machine) (rs1 rd : Reg) (csr : Csr) (ins : Word) :
    CsrOp.exec s rs1 rd csr ins op = insZicsr (op.newVal rs1) s rd csr ins := by
  cases op <;> rfl

inductive FLoadOp where
  | flh | flw | fld | flq
deriving DecidableEq, Repr

def FLoadOp.exec (s : Machine) (imm : Word) (rs1 rd : Reg) : FLoadOp → Machine
  | .flh => insfFlh s imm rs1 rd
  | .flw => insfFlw s imm rs1 rd
  | .fld => insfFld s imm rs1 rd
  | .flq => insfFlq s imm rs1 rd

inductive FStoreOp where
  | fsh | fsw | fsd | fsq
deriving DecidableEq, Repr

def FStoreOp.exec (s : Machine) (imm : Word) (rs1 rs2 : Reg) : FStoreOp → Machine
  | .fsh => insfFsh s imm rs1 rs2
  | .fsw => insfFsw s imm rs1 rs2
  | .fsd => insfFsd s imm rs1 rs2
  | .fsq => insfFsq s imm rs1 rs2

end RiscvEmu
