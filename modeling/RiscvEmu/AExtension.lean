/-
a_extension.h: LR, SC and the AMOs on words.

An AMO is a virtual read followed by a virtual write; each translates its address on its own, and a page fault of the
first shows only in the 0 it answers. A misaligned address is a fatal error of the emulator.
-/
import RiscvEmu.Mmu

namespace RiscvEmu

def getReservationKey (addr : Word) : Word := addr &&& ~~~3

def getReserveStatus (s : Machine) (addr : Word) : Bool :=
  match s.mmuFlags.get (getReservationKey addr) with
  | none => false
  | some value => value &&& 1 ≠ 0

def setReserveStatus (s : Machine) (addr : Word) : Machine :=
  let key := getReservationKey addr
  let value := (s.mmuFlags.get key).getD 0
  { s with mmuFlags := s.mmuFlags.put key (value ||| 1) }

def clearReserveStatus (s : Machine) (addr : Word) : Machine :=
  let key := getReservationKey addr
  match s.mmuFlags.get key with
  | none => s
  | some value =>
    let value := value &&& ~~~1
    if value = 0 then { s with mmuFlags := s.mmuFlags.remove key }
    else { s with mmuFlags := s.mmuFlags.put key value }

def insaRLrW (s : Machine) (rs1 rd : Reg) : Except Fatal Machine :=
  let addr := regRead s rs1
  if addr &&& 3 ≠ 0 then .error ⟨"LR.W misaligned address: 0x%x", [addr]⟩
  else
    let (val, s) := mmuRead32Unsigned s addr
    .ok (setReserveStatus (regWrite s rd val) addr)

def insaRScW (s : Machine) (rs1 rs2 rd : Reg) : Except Fatal Machine :=
  let addr := regRead s rs1
  let value := regRead s rs2
  if addr &&& 3 ≠ 0 then .error ⟨"SC.W misaligned address: 0x%x", [addr]⟩
  else if getReserveStatus s addr then
    let s := mmuWrite32 s addr value
    .ok (clearReserveStatus (regWrite s rd 0) addr)
  else .ok (regWrite s rd 1)

def insaRAmo (misaligned : String) (op : Word → Word → Word) (s : Machine) (rs1 rs2 rd : Reg) : Except Fatal Machine :=
  let addr := regRead s rs1
  let value := regRead s rs2
  if addr &&& 3 ≠ 0 then .error ⟨misaligned, [addr]⟩
  else
    let (oldValue, s) := mmuRead32Unsigned s addr
    let s := mmuWrite32 s addr (op oldValue value)
    .ok (regWrite s rd oldValue)

def insaRAmoswapW := insaRAmo "AMOSWAP.W misaligned address: 0x%x" fun _ value => value
def insaRAmoaddW := insaRAmo "AMOADD.W misaligned address: 0x%x" fun old value => old + value
def insaRAmoandW := insaRAmo "AMOAND.W misaligned address: 0x%x" fun old value => old &&& value
def insaRAmoorW := insaRAmo "AMOOR.W misaligned address: 0x%x" fun old value => old ||| value
def insaRAmoxorW := insaRAmo "AMOXOR.W misaligned address: 0x%x" fun old value => old ^^^ value
def insaRAmomaxW := insaRAmo "AMOMAX.W misaligned address: 0x%x" fun old value => if value.slt old then old else value
def insaRAmominW := insaRAmo "AMOMIN.W misaligned address: 0x%x" fun old value => if old.slt value then old else value
def insaRAmomaxuW := insaRAmo "AMOMAXU.W misaligned address: 0x%x" fun old value => if old > value then old else value
def insaRAmominuW := insaRAmo "AMOMINU.W misaligned address: 0x%x" fun old value => if old < value then old else value

end RiscvEmu
