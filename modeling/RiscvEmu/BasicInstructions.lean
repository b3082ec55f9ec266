/-
basic_instructions.h, m_extension.c and zicond_extension.h: the integer instructions, in the default build
(CONFIG_SUPPORT_MISALIGN off).

An instruction is a function of the machine. The main loop adds 4 to pc afterwards, so a jump leaves pc 4 below its
target.
-/
import RiscvEmu.Mmu

namespace RiscvEmu

/-- PC_BACKWARD -/
@[simp] def pcBackward (s : Machine) : Machine := { s with pc := s.pc - 4 }

/-- the loop's pc += 4 -/
def pcForward (s : Machine) : Machine := { s with pc := s.pc + 4 }

/-! ## Register and immediate operations -/

def aluR (f : Word → Word → Word) (s : Machine) (rs2 rs1 rd : Reg) : Machine :=
  regWrite s rd (f (regRead s rs1) (regRead s rs2))

def insiRAdd := aluR (· + ·)
def insiRSub := aluR (· - ·)
def insiRXor := aluR (· ^^^ ·)
def insiROr := aluR (· ||| ·)
def insiRAnd := aluR (· &&& ·)
def insiRSll := aluR fun v1 v2 => v1 <<< (v2 &&& 0x1F).toNat
def insiRSrl := aluR fun v1 v2 => v1 >>> (v2 &&& 0x1F).toNat
def insiRSra := aluR fun v1 v2 => v1.sshiftRight (v2 &&& 0x1F).toNat
def insiRSlt := aluR fun v1 v2 => if v1.slt v2 then 1 else 0
def insiRSltu := aluR fun v1 v2 => if v1 < v2 then 1 else 0

def aluI (f : Word → Word → Word) (s : Machine) (imm : Word) (rs1 rd : Reg) : Machine :=
  regWrite s rd (f (regRead s rs1) imm)

def insiIAddi := aluI (· + ·)
def insiIXori := aluI (· ^^^ ·)
def insiIOri := aluI (· ||| ·)
def insiIAndi := aluI (· &&& ·)
def insiISlli := aluI fun v1 imm => v1 <<< (imm &&& 0x1F).toNat
def insiISrli := aluI fun v1 imm => v1 >>> (imm &&& 0x1F).toNat
def insiISrai := aluI fun v1 imm => v1.sshiftRight (imm &&& 0x1F).toNat
def insiISlti := aluI fun v1 imm => if v1.slt imm then 1 else 0
def insiISltiu := aluI fun v1 imm => if v1 < imm then 1 else 0

def insiULui (s : Machine) (imm : Word) (rd : Reg) : Machine := regWrite s rd imm
def insiUAuipc (s : Machine) (imm : Word) (rd : Reg) : Machine := regWrite s rd (s.pc + imm)

/-! ## m_extension.c and zicond_extension.h -/

/-- int32_t overflow wraps round -/
def insmRMul := aluR (· * ·)
def insmRMulh := aluR fun v1 v2 => ((v1.signExtend 64 * v2.signExtend 64).sshiftRight 32).setWidth 32
def insmRMulsu := aluR fun v1 v2 => ((v1.signExtend 64 * v2.setWidth 64).sshiftRight 32).setWidth 32
def insmRMulu := aluR fun v1 v2 => ((v1.setWidth 64 * v2.setWidth 64) >>> 32).setWidth 32
def insmRDiv := aluR fun v1 v2 =>
  if v2 = 0 then 0xFFFFFFFF else if v1 = BitVec.intMin 32 ∧ v2 = -1 then BitVec.intMin 32 else v1.sdiv v2
def insmRDivu := aluR fun v1 v2 => if v2 = 0 then 0xFFFFFFFF else v1 / v2
def insmRRem := aluR fun v1 v2 =>
  if v2 = 0 then v1 else if v1 = BitVec.intMin 32 ∧ v2 = -1 then 0 else v1.srem v2
def insmRRemu := aluR fun v1 v2 => if v2 = 0 then v1 else v1 % v2

def insZicondCzeroEqz (s : Machine) (rs1 rs2 rd : Reg) : Machine :=
  aluR (fun val1 val2 => if val2 = 0 then 0 else val1) s rs2 rs1 rd
def insZicondCzeroNez (s : Machine) (rs1 rs2 rd : Reg) : Machine :=
  aluR (fun val1 val2 => if val2 ≠ 0 then 0 else val1) s rs2 rs1 rd

/-! ## Loads and stores -/

/-- a load: trigger, alignment (mask 0 for a byte, which has no such test), access, write-back -/
def insiILoad (mask : Word) (read : Machine → Word → Word × Machine) (s : Machine) (imm : Word) (rs1 rd : Reg) :
    Machine :=
  let addr := regRead s rs1 + imm
  match sdtrigCheckLoadTrigger s addr with
  | some s => s
  | none =>
    if addr &&& mask ≠ 0 then raiseException s causeMisalignedLoad addr
    else
      let (val, s) := read s addr
      regWrite s rd val

def insiILb := insiILoad 0 mmuRead8Signed
def insiILh := insiILoad 1 mmuRead16Signed
def insiILw := insiILoad 3 mmuRead32Signed
def insiILbu := insiILoad 0 mmuRead8Unsigned
def insiILhu := insiILoad 1 mmuRead16Unsigned

/-- a store: trigger, alignment, access -/
def insiSStore (mask : Word) (write : Machine → Word → Word → Machine) (s : Machine) (imm : Word) (rs2 rs1 : Reg) :
    Machine :=
  let addr := regRead s rs1 + imm
  match sdtrigCheckStoreTrigger s addr with
  | some s => s
  | none =>
    if addr &&& mask ≠ 0 then raiseException s causeMisalignedStore addr
    else write s addr (regRead s rs2)

def insiSSb := insiSStore 0 fun s addr val => mmuWrite8 s addr ((val &&& 0xFF).setWidth 8)
def insiSSh := insiSStore 1 fun s addr val => mmuWrite16 s addr ((val &&& 0xFFFF).setWidth 16)
def insiSSw := insiSStore 3 mmuWrite32

/-! ## Control transfer -/

def insiBranch (taken : Word → Word → Bool) (s : Machine) (imm : Word) (rs2 rs1 : Reg) : Machine :=
  if taken (regRead s rs1) (regRead s rs2) then
    match raiseIfMisalignedFetch s (s.pc + imm) with
    | some s => s
    | none => pcBackward { s with pc := s.pc + imm }
  else s

def insiBBeq := insiBranch fun v1 v2 => v1 = v2
def insiBBne := insiBranch fun v1 v2 => v1 ≠ v2
def insiBBlt := insiBranch fun v1 v2 => v1.slt v2
def insiBBge := insiBranch fun v1 v2 => v2.sle v1
def insiBBltu := insiBranch fun v1 v2 => v1 < v2
def insiBBgeu := insiBranch fun v1 v2 => v1 ≥ v2

def insiJJal (s : Machine) (imm : Word) (rd : Reg) : Machine :=
  match raiseIfMisalignedFetch s (s.pc + imm) with
  | some s => s
  | none =>
    let s := regWrite s rd (s.pc + 4)
    pcBackward { s with pc := s.pc + imm }

def insiIJalr (s : Machine) (imm : Word) (rs1 rd : Reg) : Machine :=
  let addr := (regRead s rs1 + imm) &&& ~~~1
  match raiseIfMisalignedFetch s addr with
  | some s => s
  | none =>
    let s := regWrite s rd (s.pc + 4)
    pcBackward { s with pc := addr }

/-- the riscv-tests harness exits through a7 = 93 -/
def insiIEcall (s : Machine) : Machine :=
  if s.gpr 17 = 93 then { s with terminated := true }
  else
    let cause :=
      if s.privilege = prvSupervisor then causeSupervisorEcall
      else if s.privilege = prvMachine then causeMachineEcall
      else causeUserEcall
    raiseException s cause 0

def insiIEbreak (s : Machine) : Machine := raiseException s causeBreakpoint 0

def insFence (s : Machine) : Machine := s
def insZifenceiZifencei (s : Machine) : Machine := s

def signExtend12 (imm : Word) : Word := if imm &&& 0x800 ≠ 0 then imm ||| 0xFFFFF000 else imm
def signExtend13 (imm : Word) : Word := if imm &&& 0x1000 ≠ 0 then imm ||| 0xFFFFE000 else imm
def signExtend21 (imm : Word) : Word := if imm &&& 0x100000 ≠ 0 then imm ||| 0xFFE00000 else imm

end RiscvEmu
