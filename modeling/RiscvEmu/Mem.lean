/-
mem.h: physical memory accesses, with the device windows each width has.

A read answers a value and the devices after it (a claim read of the PLIC and a receive read of the UART have effects).
A write is a function of the machine: it also clears the reservation of the word written.
-/
import RiscvEmu.Lib.Bytes
import RiscvEmu.Machine

namespace RiscvEmu

open Bytes

/-- MEM_SIZE, a 64-bit constant in the source -/
def memSize : ℕ := 4 * 1024 * 1024 * 1024 - 4096

def inClint (addr : Word) : Prop := addr ≥ clintBase ∧ addr < clintBase + clintSize
def inUart (addr : Word) : Prop := addr ≥ uartBase ∧ addr < uartBase + uartNregs
/-- the window of the byte accesses, smaller than the PLIC -/
def inPlic8 (addr : Word) : Prop := addr ≥ plicBase ∧ addr < plicBase + 0x10000
def inPlic (addr : Word) : Prop := addr ≥ plicBase ∧ addr < plicBase + plicSize

instance (addr : Word) : Decidable (inClint addr) := by unfold inClint; infer_instance
instance (addr : Word) : Decidable (inUart addr) := by unfold inUart; infer_instance
instance (addr : Word) : Decidable (inPlic8 addr) := by unfold inPlic8; infer_instance
instance (addr : Word) : Decidable (inPlic addr) := by unfold inPlic; infer_instance

theorem inPlic8_inPlic {a : Word} (h : inPlic8 a) : inPlic a := by
  have hlt := BitVec.lt_def.1 h.2
  have hend : (plicBase + 0x10000).toNat ≤ (plicBase + plicSize).toNat := by decide
  exact ⟨h.1, BitVec.lt_def.2 (by omega)⟩

/-- a byte of main memory and of no device -/
def isRamByte (addr : Word) : Prop := ¬ inClint addr ∧ ¬ inUart addr ∧ ¬ inPlic addr ∧ addr.toNat < memSize

instance (addr : Word) : Decidable (isRamByte addr) := by unfold isRamByte; infer_instance

/-- the loops that gather n bytes of the CLINT -/
def clintGather (w : ℕ) (c : Clint) (addr : Word) (n : ℕ) : BitVec w :=
  (List.range n).foldl
    (fun v i => v ||| ((clintRead c (addr + BitVec.ofNat 32 i)).setWidth 8).setWidth w <<< (i * 8)) 0

/-- the loops that store n bytes to the CLINT -/
def clintScatter {w : ℕ} (c : Clint) (addr : Word) (n : ℕ) (val : BitVec w) : Clint :=
  (List.range n).foldl
    (fun c i => clintStore c (addr + BitVec.ofNat 32 i) ((val >>> (i * 8)).setWidth 8)) c

/-- the indices of the bytes of a word access that lie in the UART window -/
def uartBytes (addr : Word) : List ℕ :=
  (List.range 4).takeWhile fun i => addr + BitVec.ofNat 32 i < uartBase + uartNregs

def uartGather (d : Devices) (addr : Word) : Word × Devices :=
  (uartBytes addr).foldl
    (fun (v, d) i =>
      let (b, d) := uartRead d (addr - uartBase + BitVec.ofNat 32 i)
      (v ||| b <<< (i * 8), d)) (0, d)

def uartScatter (d : Devices) (addr val : Word) : Devices :=
  (uartBytes addr).foldl
    (fun d i => uartWrite d (addr - uartBase + BitVec.ofNat 32 i) (((val >>> (i * 8)).setWidth 8).setWidth 32)) d

def memClearReservation (s : Machine) (addr : Word) : Machine :=
  if s.mmuFlags.size > 0 then { s with mmuFlags := s.mmuFlags.remove (addr &&& ~~~3) } else s

def plicReadDev (d : Devices) (off : Word) : Word × Devices :=
  let (w, p) := plicRead32 d.plic off
  (w, { d with plic := p })

def plicWriteDev (d : Devices) (off val : Word) : Devices := { d with plic := plicWrite32 d.plic off val }

/-! ## Reads -/

def memRead8Unsigned (s : Machine) (addr : Word) : Word × Devices :=
  if inClint addr then
    let v := clintRead s.dev.clint addr
    (if v.slt 0 then 0 else v, s.dev)
  else if inUart addr then uartRead s.dev (addr - uartBase)
  else if inPlic8 addr then
    let (w, d) := plicReadDev s.dev (addr - plicBase)
    (w >>> ((addr &&& 3).toNat * 8) &&& 0xFF, d)
  else if addr.toNat ≥ memSize then (0, s.dev)
  else ((s.mainMemory addr).setWidth 32, s.dev)

/-- no PLIC window, and the UART byte is not sign-extended -/
def memRead8Signed (s : Machine) (addr : Word) : Word × Devices :=
  if inClint addr then (clintRead s.dev.clint addr, s.dev)
  else if inUart addr then
    let (w, d) := uartRead s.dev (addr - uartBase)
    ((w.setWidth 8).setWidth 32, d)
  else if addr.toNat ≥ memSize then (0, s.dev)
  else ((s.mainMemory addr).signExtend 32, s.dev)

/-- no UART and no PLIC window -/
def memRead16Unsigned (s : Machine) (addr : Word) : Word × Devices :=
  if inClint addr then (clintGather 32 s.dev.clint addr 2, s.dev)
  else if addr.toNat ≥ memSize - 1 then (0, s.dev)
  else ((loadLE s.mainMemory addr 2).setWidth 32, s.dev)

def memRead16Signed (s : Machine) (addr : Word) : Word × Devices :=
  let (v, d) := memRead16Unsigned s addr
  ((v.setWidth 16).signExtend 32, d)

def memRead32Unsigned (s : Machine) (addr : Word) : Word × Devices :=
  if inClint addr then (clintGather 32 s.dev.clint addr 4, s.dev)
  else if inUart addr then uartGather s.dev addr
  else if inPlic addr then plicReadDev s.dev (addr - plicBase)
  else if addr.toNat ≥ memSize - 3 then (0, s.dev)
  else (loadLE s.mainMemory addr 4, s.dev)

def memRead32Signed (s : Machine) (addr : Word) : Word × Devices := memRead32Unsigned s addr

/-- no UART and no PLIC window -/
def memRead64Unsigned (s : Machine) (addr : Word) : BitVec 64 × Devices :=
  if inClint addr then (clintGather 64 s.dev.clint addr 8, s.dev)
  else if addr.toNat ≥ memSize - 7 then (0, s.dev)
  else (loadLE s.mainMemory addr 8, s.dev)

/-! ## Writes -/

def clintWriteBytes {w : ℕ} (s : Machine) (addr : Word) (n : ℕ) (val : BitVec w) : Machine :=
  { s with dev := { s.dev with clint := clintScatter s.dev.clint addr n val } }

def memWrite8 (s : Machine) (addr : Word) (val : Byte) : Machine :=
  let s := memClearReservation s addr
  if inClint addr then { s with dev := { s.dev with clint := clintStore s.dev.clint addr val } }
  else if inUart addr then { s with dev := uartWrite s.dev (addr - uartBase) (val.setWidth 32) }
  else if inPlic8 addr then
    let off := addr - plicBase
    let (cur, d) := plicReadDev s.dev (off &&& ~~~3)
    let sh := (off &&& 3).toNat * 8
    let cur := cur &&& ~~~((0xFF : Word) <<< sh) ||| val.setWidth 32 <<< sh
    { s with dev := plicWriteDev d (off &&& ~~~3) cur }
  else if addr.toNat ≥ memSize then s
  else { s with mainMemory := storeLE s.mainMemory addr 1 val }

def memWrite16 (s : Machine) (addr : Word) (val : BitVec 16) : Machine :=
  let s := memClearReservation s addr
  if inClint addr then clintWriteBytes s addr 2 val
  else if addr.toNat ≥ memSize - 1 then s
  else { s with mainMemory := storeLE s.mainMemory addr 2 val }

def memWrite32 (s : Machine) (addr val : Word) : Machine :=
  let s := memClearReservation s addr
  if inClint addr then clintWriteBytes s addr 4 val
  else if inUart addr then { s with dev := uartScatter s.dev addr val }
  else if inPlic addr then { s with dev := plicWriteDev s.dev (addr - plicBase) val }
  else if addr.toNat ≥ memSize - 3 then s
  else { s with mainMemory := storeLE s.mainMemory addr 4 val }

def memWrite64 (s : Machine) (addr : Word) (val : BitVec 64) : Machine :=
  let s := memClearReservation s addr
  if inClint addr then clintWriteBytes s addr 8 val
  else if addr.toNat ≥ memSize - 7 then s
  else { s with mainMemory := storeLE s.mainMemory addr 8 val }

end RiscvEmu
