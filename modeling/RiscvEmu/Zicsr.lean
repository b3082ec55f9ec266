/-
zicsr_extension.c: the access check and the six CSR instructions.

check_csr_access raises an exception and returns to its caller; the instruction body after it does not ask whether it
did.
-/
import RiscvEmu.System

namespace RiscvEmu

/-- the three tests of check_csr_access -/
def csrAccessIllegal (s : Machine) (csr : Csr) : Bool :=
  ¬ (csrTable csr).valid ∨ s.privilege < (csrTable csr).privilege
    ∨ csr = csrSatp ∧ s.privilege = prvSupervisor ∧ s.csr csrMstatus &&& mstatusTvm ≠ 0

def checkCsrAccess (s : Machine) (csr : Csr) (ins : Word) : Machine :=
  if csrAccessIllegal s csr then raiseException s causeIllegalInstruction ins else s

/-- the body the six instructions share; newVal answers none where the instruction makes no write -/
def insZicsr (newVal : Machine → Word → Option Word) (s : Machine) (rd : Reg) (csr : Csr) (ins : Word) : Machine :=
  let s := checkCsrAccess s csr ins
  let oldVal := csrRead s csr
  let s :=
    match newVal s oldVal with
    | some val => csrWrite s csr val
    | none => s
  if rd ≠ 0 then regWrite s rd oldVal else s

def insZicsrCsrrw (s : Machine) (rs1 rd : Reg) (csr : Csr) (ins : Word) : Machine :=
  insZicsr (fun s _ => some (regRead s rs1)) s rd csr ins

def insZicsrCsrrs (s : Machine) (rs1 rd : Reg) (csr : Csr) (ins : Word) : Machine :=
  insZicsr (fun s oldVal => if rs1 ≠ 0 then some (oldVal ||| regRead s rs1) else none) s rd csr ins

def insZicsrCsrrc (s : Machine) (rs1 rd : Reg) (csr : Csr) (ins : Word) : Machine :=
  insZicsr (fun s oldVal => if rs1 ≠ 0 then some (oldVal &&& ~~~regRead s rs1) else none) s rd csr ins

def insZicsrCsrrwi (s : Machine) (uimm rd : Reg) (csr : Csr) (ins : Word) : Machine :=
  insZicsr (fun _ _ => some (uimm.setWidth 32 &&& 0x1F)) s rd csr ins

def insZicsrCsrrsi (s : Machine) (uimm rd : Reg) (csr : Csr) (ins : Word) : Machine :=
  insZicsr (fun _ oldVal => if uimm ≠ 0 then some (oldVal ||| uimm.setWidth 32 &&& 0x1F) else none) s rd csr ins

def insZicsrCsrrci (s : Machine) (uimm rd : Reg) (csr : Csr) (ins : Word) : Machine :=
  insZicsr (fun _ oldVal => if uimm ≠ 0 then some (oldVal &&& ~~~(uimm.setWidth 32 &&& 0x1F)) else none) s rd csr ins

end RiscvEmu
