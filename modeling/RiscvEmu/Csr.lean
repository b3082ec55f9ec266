/-
csr_table and its accessors: zicsr_extension.c, the CSR callbacks of system.c, sdtrig_extension.c, zicntr_extension.c
and f_extension.c.

The entries of csr_table are fixed once init_csr_table has run, except for `value`: `csrTable` is the table it leaves
and the values are the machine's `csr`. A callback is named by the function the table points to.
-/
import RiscvEmu.Machine

namespace RiscvEmu

/-! ## Numbers -/

@[simp] abbrev csrFflags : Csr := 0x001#12
@[simp] abbrev csrFrm : Csr := 0x002#12
@[simp] abbrev csrFcsr : Csr := 0x003#12
@[simp] abbrev csrSstatus : Csr := 0x100#12
@[simp] abbrev csrSie : Csr := 0x104#12
@[simp] abbrev csrStvec : Csr := 0x105#12
@[simp] abbrev csrSscratch : Csr := 0x140#12
@[simp] abbrev csrSepc : Csr := 0x141#12
@[simp] abbrev csrScause : Csr := 0x142#12
@[simp] abbrev csrStval : Csr := 0x143#12
@[simp] abbrev csrSip : Csr := 0x144#12
@[simp] abbrev csrSatp : Csr := 0x180#12
@[simp] abbrev csrMstatus : Csr := 0x300#12
@[simp] abbrev csrMisa : Csr := 0x301#12
@[simp] abbrev csrMedeleg : Csr := 0x302#12
@[simp] abbrev csrMideleg : Csr := 0x303#12
@[simp] abbrev csrMie : Csr := 0x304#12
@[simp] abbrev csrMtvec : Csr := 0x305#12
@[simp] abbrev csrMcounteren : Csr := 0x306#12
@[simp] abbrev csrMscratch : Csr := 0x340#12
@[simp] abbrev csrMepc : Csr := 0x341#12
@[simp] abbrev csrMcause : Csr := 0x342#12
@[simp] abbrev csrMtval : Csr := 0x343#12
@[simp] abbrev csrMip : Csr := 0x344#12
@[simp] abbrev csrPmpcfg0 : Csr := 0x3A0#12
@[simp] abbrev csrPmpaddr0 : Csr := 0x3B0#12
@[simp] abbrev csrMnstatus : Csr := 0x744#12

def mstatusUie : Word := 1#32 <<< 0
def mstatusSie : Word := 1#32 <<< 1
def mstatusMie : Word := 1#32 <<< 3
def mstatusUpie : Word := 1#32 <<< 4
def mstatusSpie : Word := 1#32 <<< 5
def mstatusMpie : Word := 1#32 <<< 7
def mstatusSpp : Word := 1#32 <<< 8
def mstatusMppShift : ℕ := 11
def mstatusMppMask : Word := 3#32 <<< 11
def mstatusFsMask : Word := 3#32 <<< 13
def mstatusXsMask : Word := 3#32 <<< 15
def mstatusMprv : Word := 1#32 <<< 17
def mstatusSum : Word := 1#32 <<< 18
def mstatusMxr : Word := 1#32 <<< 19
def mstatusTvm : Word := 1#32 <<< 20
def mstatusTw : Word := 1#32 <<< 21
def mstatusTsr : Word := 1#32 <<< 22

def mipSsip : Word := 1#32 <<< 1
def mipMsip : Word := 1#32 <<< 3
def mipStip : Word := 1#32 <<< 5
def mipMtip : Word := 1#32 <<< 7
def mipSeip : Word := 1#32 <<< 9
def mipMeip : Word := 1#32 <<< 11

/-- SIP_SIE_S_BITS: the bits of mie and mip that sie and sip show -/
def sipSieSBits : Word := mipSsip ||| mipStip ||| mipSeip

/-! ## Storage -/

@[simp] def setCsr (s : Machine) (csr : Csr) (val : Word) : Machine :=
  { s with csr := Function.update s.csr csr val }

/-! ## system.c: mstatus and sstatus -/

def mstatusRead (s : Machine) : Word := s.csr csrMstatus

def mstatusWritableMask : Word :=
  mstatusUie ||| mstatusSie ||| mstatusMie ||| mstatusUpie ||| mstatusSpie ||| mstatusMpie ||| mstatusSpp
    ||| mstatusMppMask ||| mstatusFsMask ||| mstatusXsMask ||| mstatusMprv ||| mstatusSum ||| mstatusMxr
    ||| mstatusTvm ||| mstatusTw ||| mstatusTsr

def mstatusWrite (s : Machine) (val : Word) : Machine := setCsr s csrMstatus (val &&& mstatusWritableMask)

/-- the value sstatus_read computes from mstatus -/
def sstatusOf (m : Word) : Word :=
  (if m &&& mstatusUie ≠ 0 then 1#32 else 0) ||| (if m &&& mstatusSie ≠ 0 then 2#32 else 0)
    ||| (if m &&& mstatusUpie ≠ 0 then 16#32 else 0) ||| (if m &&& mstatusSpie ≠ 0 then 32#32 else 0)
    ||| (if m &&& mstatusSpp ≠ 0 then 256#32 else 0)
    ||| ((m &&& mstatusFsMask) >>> 13) <<< 13
    ||| ((m &&& mstatusXsMask) >>> 15) <<< 15
    ||| (if m &&& mstatusSum ≠ 0 then 1#32 <<< 18 else 0)
    ||| (if m &&& mstatusMxr ≠ 0 then 1#32 <<< 19 else 0)

def sstatusRead (s : Machine) : Word := sstatusOf (s.csr csrMstatus)

/-- s_mask of sstatus_write -/
def sstatusMask : Word :=
  mstatusUie ||| mstatusSie ||| mstatusUpie ||| mstatusSpie ||| mstatusSpp ||| mstatusFsMask ||| mstatusXsMask
    ||| mstatusSum ||| mstatusMxr

/-- the value sstatus_write gives mstatus: m with the fields of val -/
def sstatusInto (m val : Word) : Word :=
  let m := m &&& ~~~sstatusMask
  let m := if val &&& 1 ≠ 0 then m ||| mstatusUie else m
  let m := if val &&& 2 ≠ 0 then m ||| mstatusSie else m
  let m := if val &&& 16 ≠ 0 then m ||| mstatusUpie else m
  let m := if val &&& 32 ≠ 0 then m ||| mstatusSpie else m
  let m := if val &&& 256 ≠ 0 then m ||| mstatusSpp else m
  let m := m ||| (val >>> 13 &&& 3) <<< 13
  let m := m ||| (val >>> 15 &&& 3) <<< 15
  let m := if val &&& (1#32 <<< 18) ≠ 0 then m ||| mstatusSum else m
  if val &&& (1#32 <<< 19) ≠ 0 then m ||| mstatusMxr else m

def sstatusWrite (s : Machine) (val : Word) : Machine := setCsr s csrMstatus (sstatusInto (s.csr csrMstatus) val)

/-! ## zicsr_extension.c: mip, mie and their supervisor views -/

def getMip (s : Machine) : Word :=
  let mip := s.csr csrMip
  let mip := if clintMtipPending s.dev.clint then mip ||| mipMtip else mip &&& ~~~mipMtip
  let mip := if plicExternalPending s.dev.plic ≠ 0 then mip ||| mipMeip else mip &&& ~~~mipMeip
  if plicExternalPendingS s.dev.plic ≠ 0 then mip ||| mipSeip else mip &&& ~~~mipSeip

def getMie (s : Machine) : Word := s.csr csrMie

def getSie (s : Machine) : Word := getMie s &&& sipSieSBits

def setSie (s : Machine) (val : Word) : Machine :=
  setCsr s csrMie (getMie s &&& ~~~sipSieSBits ||| val &&& sipSieSBits)

def getSip (s : Machine) : Word :=
  let sip := getMip s &&& sipSieSBits
  if clintMtipPending s.dev.clint then sip ||| mipStip else sip

def setSip (s : Machine) (val : Word) : Machine :=
  setCsr s csrMip (getMip s &&& ~~~sipSieSBits ||| val &&& sipSieSBits)

/-! ## sdtrig_extension.c -/

def sdtrigNumTriggers : ℕ := 4
def sdtrigDmode : Word := 1#32 <<< 27

def setTselect (s : Machine) (val : Word) : Machine :=
  { s with trig := { s.trig with
    tselect := if val.toNat ≥ sdtrigNumTriggers then sdtrigNumTriggers - 1 else val.toNat } }

def setSlot (s : Machine) (slot : TriggerSlot) : Machine :=
  { s with trig := { s.trig with slots := Function.update s.trig.slots s.trig.tselect slot } }

def setTdata1 (s : Machine) (val : Word) : Machine :=
  setSlot s { s.trig.slots s.trig.tselect with tdata1 := val &&& ~~~sdtrigDmode }

def setTdata2 (s : Machine) (val : Word) : Machine :=
  setSlot s { s.trig.slots s.trig.tselect with tdata2 := val }

def setTcontrol (s : Machine) (val : Word) : Machine := { s with trig := { s.trig with tcontrol := val } }

/-! ## zicntr_extension.c -/

def setZicntrMinstretL (s : Machine) (val : Word) : Machine :=
  { s with instret := s.instret &&& 0xFFFFFFFF00000000 ||| val.setWidth 64, instretSuppressNext := true }

def setZicntrMinstretH (s : Machine) (val : Word) : Machine :=
  { s with instret := s.instret &&& 0x00000000FFFFFFFF ||| val.setWidth 64 <<< 32, instretSuppressNext := true }

/-! ## f_extension.c -/

def setFcsrReg (s : Machine) (fcsr : Word) : Machine := { s with fpu := { s.fpu with fcsr := fcsr } }

def setFflags (s : Machine) (flags : Word) : Machine :=
  setFcsrReg s (s.fpu.fcsr &&& ~~~(0b11111 : Word) ||| flags &&& 0b11111)

def setFrm (s : Machine) (frm : Word) : Machine :=
  if frm > 4 then s else setFcsrReg s (s.fpu.fcsr &&& ~~~(0b11100000 : Word) ||| frm <<< 5)

def setFcsr (s : Machine) (csr : Word) : Machine :=
  let newFrm := csr >>> 5 &&& 0b111
  let newFflags := csr &&& 0b11111
  if newFrm ≤ 4 then setFcsrReg s (newFflags &&& 0b11111 ||| newFrm <<< 5)
  else setFcsrReg s (newFflags &&& 0b11111 ||| s.fpu.fcsr &&& 0b11100000)

/-! ## The table -/

/-- the functions csr_table[i].read_callback points to -/
inductive ReadCallback where
  | getConst (v : Word)
  | getValue (csr : Csr)
  | mstatusRead | sstatusRead
  | getMip | getSie | getSip
  | getTselect | getTdata1 | getTdata2 | getTcontrol
  | getFcsr | getFflags | getFrm
  | getZicntrCycleL | getZicntrCycleH | getZicntrTimeL | getZicntrTimeH | getZicntrInstretL | getZicntrInstretH
deriving DecidableEq

/-- the functions csr_table[i].write_callback points to -/
inductive WriteCallback where
  | setValue (csr : Csr)
  | mstatusWrite | sstatusWrite
  | setSie | setSip
  | setTselect | setTdata1 | setTdata2 | setTcontrol
  | setFcsr | setFflags | setFrm
  | setZicntrMinstretL | setZicntrMinstretH
deriving DecidableEq

def ReadCallback.run (s : Machine) : ReadCallback → Word
  | .getConst v => v
  | .getValue csr => s.csr csr
  | .mstatusRead => RiscvEmu.mstatusRead s
  | .sstatusRead => RiscvEmu.sstatusRead s
  | .getMip => RiscvEmu.getMip s
  | .getSie => RiscvEmu.getSie s
  | .getSip => RiscvEmu.getSip s
  | .getTselect => BitVec.ofNat 32 s.trig.tselect
  | .getTdata1 => (s.trig.slots s.trig.tselect).tdata1
  | .getTdata2 => (s.trig.slots s.trig.tselect).tdata2
  | .getTcontrol => s.trig.tcontrol
  | .getFcsr => s.fpu.fcsr
  | .getFflags => s.fpu.fcsr &&& 0b11111
  | .getFrm => s.fpu.fcsr >>> 5 &&& 0b111
  | .getZicntrCycleL => s.cycle.setWidth 32
  | .getZicntrCycleH => (s.cycle >>> 32).setWidth 32
  | .getZicntrTimeL => s.dev.clint.mtime.setWidth 32
  | .getZicntrTimeH => (s.dev.clint.mtime >>> 32).setWidth 32
  | .getZicntrInstretL => s.instret.setWidth 32
  | .getZicntrInstretH => (s.instret >>> 32).setWidth 32

def WriteCallback.run (s : Machine) (val : Word) : WriteCallback → Machine
  | .setValue csr => setCsr s csr val
  | .mstatusWrite => RiscvEmu.mstatusWrite s val
  | .sstatusWrite => RiscvEmu.sstatusWrite s val
  | .setSie => RiscvEmu.setSie s val
  | .setSip => RiscvEmu.setSip s val
  | .setTselect => RiscvEmu.setTselect s val
  | .setTdata1 => RiscvEmu.setTdata1 s val
  | .setTdata2 => RiscvEmu.setTdata2 s val
  | .setTcontrol => RiscvEmu.setTcontrol s val
  | .setFcsr => RiscvEmu.setFcsr s val
  | .setFflags => RiscvEmu.setFflags s val
  | .setFrm => RiscvEmu.setFrm s val
  | .setZicntrMinstretL => RiscvEmu.setZicntrMinstretL s val
  | .setZicntrMinstretH => RiscvEmu.setZicntrMinstretH s val

structure CsrOperation where
  valid : Bool
  privilege : Priv
  /-- RW or RO -/
  rw : Bool
  /-- the value init_csr_table stores -/
  value : Word
  readCallback : Option ReadCallback
  writeCallback : Option WriteCallback
deriving DecidableEq

/-- an entry init_csr_table leaves unregistered -/
def CsrOperation.unused : CsrOperation := ⟨false, prvMachine, true, 0, none, none⟩

/-- a register without callbacks -/
def CsrOperation.plain (privilege : Priv) : CsrOperation := ⟨true, privilege, true, 0, none, none⟩

/-- a register whose callbacks read and write the value of entry csr -/
def CsrOperation.stored (value : Word) (csr : Csr) : CsrOperation :=
  ⟨true, prvMachine, true, value, some (.getValue csr), some (.setValue csr)⟩

/-- a read-only register -/
def CsrOperation.readOnly (privilege : Priv) (f : ReadCallback) : CsrOperation :=
  ⟨true, privilege, false, 0, some f, none⟩

/-- a register with both callbacks -/
def CsrOperation.full (privilege : Priv) (f : ReadCallback) (g : WriteCallback) : CsrOperation :=
  ⟨true, privilege, true, 0, some f, some g⟩

def csrTable (csr : Csr) : CsrOperation :=
  match csr with
  | 0x7A0#12 => .full prvMachine .getTselect .setTselect
  | 0x7A1#12 => .full prvMachine .getTdata1 .setTdata1
  | 0x7A2#12 => .full prvMachine .getTdata2 .setTdata2
  | 0x7A5#12 => .full prvMachine .getTcontrol .setTcontrol
  | 0x003#12 => .full prvUser .getFcsr .setFcsr
  | 0x001#12 => .full prvUser .getFflags .setFflags
  | 0x002#12 => .full prvUser .getFrm .setFrm
  | 0xC00#12 => .readOnly prvUser .getZicntrCycleL
  | 0xC01#12 => .readOnly prvUser .getZicntrTimeL
  | 0xC02#12 => .readOnly prvUser .getZicntrInstretL
  | 0xC80#12 => .readOnly prvUser .getZicntrCycleH
  | 0xC81#12 => .readOnly prvUser .getZicntrTimeH
  | 0xC82#12 => .readOnly prvUser .getZicntrInstretH
  | 0xF11#12 => .readOnly prvMachine (.getConst 0)
  | 0xF12#12 => .readOnly prvMachine (.getConst 1)
  | 0xF13#12 => .readOnly prvMachine (.getConst 0)
  | 0xF14#12 => .readOnly prvMachine (.getConst 0)
  | 0xF15#12 => ⟨true, prvMachine, false, 0, none, none⟩
  | 0x300#12 => .full prvMachine .mstatusRead .mstatusWrite
  | 0x301#12 => ⟨true, prvMachine, false, 0x40041125, some (.getValue csrMisa), none⟩
  | 0x302#12 => .stored 0 csrMedeleg
  | 0x303#12 => .stored 0 csrMideleg
  | 0x304#12 => .stored 0 csrMie
  | 0x305#12 => .stored 0 csrMtvec
  | 0x306#12 => .stored 0xFFFFFFFF csrMcounteren
  | 0x310#12 => .plain prvMachine
  | 0x30A#12 => .plain prvMachine
  | 0x31A#12 => .plain prvMachine
  | 0x740#12 => .plain prvMachine
  | 0x747#12 => .plain prvMachine
  | 0x757#12 => .plain prvMachine
  | 0x340#12 => .stored 0 csrMscratch
  | 0x341#12 => .stored 0 csrMepc
  | 0x342#12 => .stored 0 csrMcause
  | 0x343#12 => .stored 0 csrMtval
  | 0x344#12 => .full prvMachine .getMip (.setValue csrMip)
  | 0x744#12 => ⟨true, prvMachine, true, 0, some (.getValue csrMnstatus), none⟩
  | 0x320#12 => .plain prvMachine
  | 0xB00#12 => .plain prvMachine
  | 0xB80#12 => .plain prvMachine
  | 0xB02#12 => .full prvMachine .getZicntrInstretL .setZicntrMinstretL
  | 0xB82#12 => .full prvMachine .getZicntrInstretH .setZicntrMinstretH
  | 0x3A0#12 => .stored 0 csrPmpcfg0
  | 0x3A1#12 => .stored 0 csrPmpcfg0
  | 0x3A2#12 => .stored 0 csrPmpcfg0
  | 0x3A3#12 => .stored 0 csrPmpcfg0
  | 0x100#12 => .full prvSupervisor .sstatusRead .sstatusWrite
  | 0x104#12 => .full prvSupervisor .getSie .setSie
  | 0x105#12 => .plain prvSupervisor
  | 0x140#12 => .plain prvSupervisor
  | 0x141#12 => .plain prvSupervisor
  | 0x142#12 => .plain prvSupervisor
  | 0x143#12 => .plain prvSupervisor
  | 0x144#12 => .full prvSupervisor .getSip .setSip
  | 0x180#12 => .plain prvSupervisor
  | 0x106#12 => .plain prvSupervisor
  | 0x10A#12 => .plain prvSupervisor
  | 0x11A#12 => .plain prvSupervisor
  | c => if csrPmpaddr0 ≤ c ∧ c < csrPmpaddr0 + 16 then .stored 0 csrPmpaddr0 else .unused

def csrRead (s : Machine) (csr : Csr) : Word :=
  match (csrTable csr).readCallback with
  | some f => f.run s
  | none => s.csr csr

def csrWrite (s : Machine) (csr : Csr) (val : Word) : Machine :=
  if (csrTable csr).rw then
    match (csrTable csr).writeCallback with
    | some f => f.run s val
    | none => setCsr s csr val
  else s

/-! ## The accesses the trap code makes -/

section
variable (s : Machine) (val : Word)

@[simp] theorem csrRead_mstatus : csrRead s csrMstatus = s.csr csrMstatus := rfl
@[simp] theorem csrRead_sstatus : csrRead s csrSstatus = sstatusOf (s.csr csrMstatus) := rfl
@[simp] theorem csrRead_medeleg : csrRead s csrMedeleg = s.csr csrMedeleg := rfl
@[simp] theorem csrRead_mideleg : csrRead s csrMideleg = s.csr csrMideleg := rfl
@[simp] theorem csrRead_mtvec : csrRead s csrMtvec = s.csr csrMtvec := rfl
@[simp] theorem csrRead_stvec : csrRead s csrStvec = s.csr csrStvec := rfl
@[simp] theorem csrRead_satp : csrRead s csrSatp = s.csr csrSatp := rfl
@[simp] theorem csrRead_sepc : csrRead s csrSepc = s.csr csrSepc := rfl
@[simp] theorem csrRead_mip : csrRead s csrMip = getMip s := rfl
@[simp] theorem csrRead_mie : csrRead s csrMie = s.csr csrMie := rfl
@[simp] theorem csrRead_sip : csrRead s csrSip = getSip s := rfl
@[simp] theorem csrRead_sie : csrRead s csrSie = s.csr csrMie &&& sipSieSBits := rfl

@[simp] theorem csrWrite_mstatus : csrWrite s csrMstatus val = setCsr s csrMstatus (val &&& mstatusWritableMask) := rfl
@[simp] theorem csrWrite_sstatus :
    csrWrite s csrSstatus val = setCsr s csrMstatus (sstatusInto (s.csr csrMstatus) val) := rfl
@[simp] theorem csrWrite_mcause : csrWrite s csrMcause val = setCsr s csrMcause val := rfl
@[simp] theorem csrWrite_mtval : csrWrite s csrMtval val = setCsr s csrMtval val := rfl
@[simp] theorem csrWrite_mepc : csrWrite s csrMepc val = setCsr s csrMepc val := rfl
@[simp] theorem csrWrite_scause : csrWrite s csrScause val = setCsr s csrScause val := rfl
@[simp] theorem csrWrite_stval : csrWrite s csrStval val = setCsr s csrStval val := rfl
@[simp] theorem csrWrite_sepc : csrWrite s csrSepc val = setCsr s csrSepc val := rfl

end

end RiscvEmu
