/-
The state of the emulated machine: struct machine_state of emu.h, the values of csr_table, the globals of the
extensions (the trigger slots, the FP registers, the counters) and the devices.

`traps` is a history variable: trap entry adds a record to it and no definition of the model reads it. An instruction
that traps leaves it longer, one that does not leaves it as it was.
-/
import RiscvEmu.Device.Uart
import RiscvEmu.Hashmap

namespace RiscvEmu

/-- one trap entry: an exception, or an interrupt (bit 31 of the cause set) -/
structure Trap where
  cause : Word
  tval : Word
  epc : Word
  /-- the privilege interrupted -/
  prev : Priv
  /-- the privilege trapped into -/
  mode : Priv
deriving DecidableEq, Repr

structure TriggerSlot where
  tdata1 : Word
  tdata2 : Word
deriving DecidableEq, Repr

/-- the statics of sdtrig_extension.c -/
structure Sdtrig where
  slots : ℕ → TriggerSlot
  tselect : ℕ
  tcontrol : Word

/-- the softfloat_round_ constants -/
inductive RoundingMode where
  | nearEven | minMag | min | max | nearMaxMag
deriving DecidableEq, Repr

/-- the globals of f_extension.c and of the SoftFloat library it drives -/
structure Fpu where
  /-- fpr[2r] is the low half of register r, fpr[2r + 1] the high half -/
  fpr : Reg → BitVec 128
  fcsr : Word
  roundingMode : RoundingMode
  exceptionFlags : Byte

structure Machine where
  gpr : Reg → Word
  pc : Word
  mainMemory : Word → Byte
  terminated : Bool
  mmuFlags : Hashmap
  privilege : Priv
  justTrapped : Bool
  /-- csr_table[i].value -/
  csr : Csr → Word
  trig : Sdtrig
  fpu : Fpu
  cycle : BitVec 64
  instret : BitVec 64
  instretSuppressNext : Bool
  gPrevInsPc : Word
  dev : Devices
  traps : List Trap

/-- the general registers after a write: x0 takes none -/
def writeGpr (gpr : Reg → Word) (id : Reg) (d : Word) : Reg → Word :=
  if id = 0 then gpr else Function.update gpr id d

def regRead (s : Machine) (id : Reg) : Word := if id = 0 then 0 else s.gpr id

@[simp] def regWrite (s : Machine) (id : Reg) (d : Word) : Machine := { s with gpr := writeGpr s.gpr id d }

theorem writeGpr_eq_self {gpr : Reg → Word} {id : Reg} {d : Word} :
    writeGpr gpr id d = gpr ↔ id = 0 ∨ gpr id = d := by
  unfold writeGpr
  split_ifs with h
  · simp only [h, true_or]
  · rw [Function.update_eq_self_iff, or_iff_right h]
    exact eq_comm

end RiscvEmu
