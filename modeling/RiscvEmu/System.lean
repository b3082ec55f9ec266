/-
system.c: trap entry, interrupt dispatch and the return instructions.

Exceptions are raised inside an instruction, and the main loop adds 4 to pc after it: their entry and the return
instructions leave pc 4 below the address meant. Interrupts are raised before a fetch and set pc itself.
-/
import RiscvEmu.Csr

namespace RiscvEmu

def causeMisalignedFetch : Word := 0
def causeIllegalInstruction : Word := 2
def causeBreakpoint : Word := 3
def causeMisalignedLoad : Word := 4
def causeMisalignedStore : Word := 6
def causeUserEcall : Word := 8
def causeSupervisorEcall : Word := 9
def causeMachineEcall : Word := 11
def causeFetchPageFault : Word := 12
def causeLoadPageFault : Word := 13
def causeStorePageFault : Word := 15

def misaCEnabled (s : Machine) : Bool := s.csr csrMisa >>> 2 &&& 1 ≠ 0

/-! ## Trap entry -/

/-- 1 << n on 32 bits; the processor takes the count modulo 32 -/
def bitOf (n : Word) : Word := 1#32 <<< (n.toNat % 32)

/-- mstatus after a trap into M-mode from the given privilege -/
def mstatusOnTrap (mstatus : Word) (privilege : Priv) : Word :=
  let mstatus := mstatus &&& ~~~mstatusMppMask ||| privilege.setWidth 32 <<< mstatusMppShift
  let mstatus := if mstatus &&& mstatusMie ≠ 0 then mstatus ||| mstatusMpie else mstatus &&& ~~~mstatusMpie
  mstatus &&& ~~~mstatusMie

/-- sstatus after a trap into S-mode from the given privilege -/
def sstatusOnTrap (sstatus : Word) (privilege : Priv) : Word :=
  let sstatus :=
    if privilege = prvSupervisor then sstatus ||| (1#32 <<< 8) else sstatus &&& ~~~(1#32 <<< 8)
  let sstatus :=
    if sstatus &&& (1#32 <<< 1) ≠ 0 then sstatus ||| (1#32 <<< 5) else sstatus &&& ~~~(1#32 <<< 5)
  sstatus &&& ~~~(1#32 <<< 1)

/-- what raise_machine_exception and raise_machine_interrupt do before they set pc -/
def enterMachine (s : Machine) (cause tval epc : Word) : Machine :=
  let record : Trap := ⟨cause, tval, epc, s.privilege, prvMachine⟩
  let s := csrWrite s csrMstatus (mstatusOnTrap (csrRead s csrMstatus) s.privilege)
  let s := csrWrite s csrMcause cause
  let s := csrWrite s csrMtval tval
  let s := csrWrite s csrMepc epc
  { s with privilege := prvMachine, justTrapped := true, traps := record :: s.traps }

/-- what raise_supervisor_exception and raise_supervisor_interrupt_internal do before they set pc -/
def enterSupervisor (s : Machine) (cause tval epc : Word) : Machine :=
  let record : Trap := ⟨cause, tval, epc, s.privilege, prvSupervisor⟩
  let s := csrWrite s csrSstatus (sstatusOnTrap (csrRead s csrSstatus) s.privilege)
  let s := csrWrite s csrScause cause
  let s := csrWrite s csrStval tval
  let s := csrWrite s csrSepc epc
  { s with privilege := prvSupervisor, traps := record :: s.traps }

def raiseMachineException (s : Machine) (cause tval pc : Word) : Machine :=
  let s := enterMachine s cause tval pc
  { s with pc := (csrRead s csrMtvec &&& ~~~(3 : Word)) - 4 }

def raiseSupervisorException (s : Machine) (cause tval pc : Word) : Machine :=
  let s := enterSupervisor s cause tval pc
  { s with pc := (csrRead s csrStvec &&& ~~~(3 : Word)) - 4 }

/-- a trap clears any outstanding reservation -/
def clearReservations (s : Machine) : Machine :=
  if s.mmuFlags.size > 0 then { s with mmuFlags := s.mmuFlags.clear } else s

/-- delegate_to_s: taken below M-mode and delegated by deleg -/
def delegateToS (privilege : Priv) (deleg cause : Word) : Bool :=
  if privilege = prvUser then deleg &&& bitOf cause ≠ 0
  else if privilege = prvSupervisor then deleg &&& bitOf cause ≠ 0
  else false

def raiseExceptionPc (s : Machine) (cause tval epc : Word) : Machine :=
  let s := clearReservations s
  if delegateToS s.privilege (csrRead s csrMedeleg) cause then raiseSupervisorException s cause tval epc
  else raiseMachineException s cause tval epc

def raiseException (s : Machine) (cause tval : Word) : Machine := raiseExceptionPc s cause tval s.pc

def raiseIllegal (s : Machine) (ins : Word) : Machine := raiseException s causeIllegalInstruction ins

/-- the state after the trap if the target is not fetchable under the current IALIGN -/
def raiseIfMisalignedFetch (s : Machine) (targetAddr : Word) : Option Machine :=
  if targetAddr &&& (if misaCEnabled s then 1 else 3) ≠ 0 then
    some (raiseExceptionPc s causeMisalignedFetch targetAddr s.pc)
  else none

/-- the handler address of interrupt irq -/
def interruptVector (tvec irq : Word) : Word :=
  if tvec &&& 1 ≠ 0 then (tvec &&& ~~~(3 : Word)) + (irq &&& 0xF) <<< 2 else tvec &&& ~~~(3 : Word)

def raiseMachineInterrupt (s : Machine) (irq pc : Word) : Machine :=
  let s := enterMachine s (irq ||| 1#32 <<< 31) 0 pc
  { s with pc := interruptVector (csrRead s csrMtvec) irq }

def raiseSupervisorInterruptInternal (s : Machine) (irq pc : Word) : Machine :=
  let s := enterSupervisor s (irq ||| 1#32 <<< 31) 0 pc
  { s with pc := interruptVector (csrRead s csrStvec) irq }

def raiseInterrupt (s : Machine) (irq : Word) : Machine :=
  let s := clearReservations s
  if delegateToS s.privilege (csrRead s csrMideleg) irq then raiseSupervisorInterruptInternal s irq s.pc
  else raiseMachineInterrupt s irq s.pc

/-- the supervisor lines in their order; none stands for -1 -/
def pickSupervisorIrq (sp : Word) : Option Word :=
  if sp &&& mipSeip ≠ 0 then some 9
  else if sp &&& mipSsip ≠ 0 then some 1
  else if sp &&& mipStip ≠ 0 then some 5
  else none

/-- all lines in their order -/
def pickIrq (mp : Word) : Option Word :=
  if mp &&& mipMeip ≠ 0 then some 11
  else if mp &&& mipMsip ≠ 0 then some 3
  else if mp &&& mipMtip ≠ 0 then some 7
  else pickSupervisorIrq mp

/-- raise the line chosen, if any -/
def raisePicked (s : Machine) : Option Word → Machine
  | some irq => raiseInterrupt s irq
  | none => s

def checkAndHandleInterrupts (s : Machine) : Machine :=
  let mip := csrRead s csrMip
  let mie := csrRead s csrMie
  let mstatus := csrRead s csrMstatus
  let mideleg := csrRead s csrMideleg
  let sip := csrRead s csrSip
  let sie := csrRead s csrSie
  if s.privilege = prvMachine then
    if mstatus &&& mstatusMie = 0 then s else raisePicked s (pickIrq (mip &&& mie))
  else
    let globalEn := mstatus &&& (if s.privilege = prvSupervisor then mstatusSie else mstatusUie)
    let supervisor := if globalEn ≠ 0 then pickSupervisorIrq (sip &&& sie &&& mideleg) else none
    match supervisor with
    | some irq => raiseInterrupt s irq
    | none =>
      if mstatus &&& mstatusMie ≠ 0 then raisePicked s (pickIrq (mip &&& mie &&& ~~~(sip &&& sie &&& mideleg)))
      else s

/-! ## Return and the other SYSTEM instructions -/

/-- mstatus after MRET -/
def mstatusOnReturn (mstatus : Word) : Word :=
  let mstatus := if mstatus &&& mstatusMpie ≠ 0 then mstatus ||| mstatusMie else mstatus &&& ~~~mstatusMie
  (mstatus ||| mstatusMpie) &&& ~~~mstatusMppMask

def insMret (s : Machine) : Machine :=
  let mstatus := s.csr csrMstatus
  let mpp : Priv := ((mstatus &&& mstatusMppMask) >>> mstatusMppShift).setWidth 2
  let s := setCsr s csrMstatus (mstatusOnReturn mstatus)
  { s with privilege := mpp, pc := s.csr csrMepc - 4 }

/-- sstatus after SRET -/
def sstatusOnReturn (sstatus : Word) : Word :=
  let sstatus :=
    if sstatus &&& (1#32 <<< 5) ≠ 0 then sstatus ||| (1#32 <<< 1) else sstatus &&& ~~~(1#32 <<< 1)
  (sstatus ||| (1#32 <<< 5)) &&& ~~~(1#32 <<< 8)

def insSret (s : Machine) : Machine :=
  if s.privilege = prvSupervisor ∧ s.csr csrMstatus &&& mstatusTsr ≠ 0 then raiseIllegal s 0x10200073
  else
    let sstatus := csrRead s csrSstatus
    let spp := sstatus >>> 8 &&& 1
    let s := csrWrite s csrSstatus (sstatusOnReturn sstatus)
    let s := { s with privilege := if spp ≠ 0 then prvSupervisor else prvUser }
    { s with pc := csrRead s csrSepc - 4 }

def insMnret (s : Machine) : Machine := insMret s

/-- logged and ignored -/
def insWfi (s : Machine) : Machine := s

/-- logged and ignored -/
def insSctrclr (s : Machine) : Machine := s

def insSfenceVma (s : Machine) : Machine :=
  if s.privilege = prvSupervisor ∧ s.csr csrMstatus &&& mstatusTvm ≠ 0 then raiseIllegal s 0x12000073 else s

end RiscvEmu
