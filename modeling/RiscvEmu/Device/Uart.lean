/-
device/uart.c: the 16550 console, its receive queue, its paced transmitter and the interrupt line it drives on the PLIC.
The bytes putc sends to the host are kept in `stdout`. Host input arrives through `uartReceive`.
-/
import RiscvEmu.Device.Clint
import RiscvEmu.Device.Plic

namespace RiscvEmu

def uartBase : Word := 0x10000000
def uartNregs : Word := 8
def uartIrq : ℕ := 10
def rxFifoSize : ℕ := 256
def txShiftTicks : Word := 64

def ierErbi : Byte := 1
def ierEtbei : Byte := 2
def lsrDr : Word := 1
def lsrThre : Word := 0x20
def lsrTemt : Word := 0x40
def iirNopend : Word := 1
def iirRxdata : Word := 4
def iirThre : Word := 2
def lcrDlab : Byte := 0x80

structure Uart where
  rx : ℕ → Byte
  rxHead : ℕ
  rxCount : ℕ
  ier : Byte
  lcr : Byte
  mcr : Byte
  scr : Byte
  /-- whether the PLIC line is asserted -/
  irqLevel : Bool
  thrBusy : Bool
  thrTicks : Word
  stdout : List Byte

/-- the memory-mapped devices -/
structure Devices where
  clint : Clint
  plic : Plic
  uart : Uart

def uartRxPend (u : Uart) : Bool := 0 < u.rxCount ∧ u.ier &&& ierErbi ≠ 0
def uartTxPend (u : Uart) : Bool := ¬ u.thrBusy ∧ u.ier &&& ierEtbei ≠ 0

def uartUpdateIrq (d : Devices) : Devices :=
  let want := uartRxPend d.uart || uartTxPend d.uart
  if want ≠ d.uart.irqLevel then
    { d with uart := { d.uart with irqLevel := want }, plic := plicSetIrq d.plic uartIrq want }
  else d

def uartTick (d : Devices) : Devices :=
  if d.uart.thrBusy then
    let ticks := d.uart.thrTicks - 1
    if ticks = 0 then uartUpdateIrq { d with uart := { d.uart with thrTicks := ticks, thrBusy := false } }
    else { d with uart := { d.uart with thrTicks := ticks } }
  else d

def uartInit (d : Devices) : Devices :=
  uartUpdateIrq { d with uart := ⟨fun _ => 0, 0, 0, 0, 0x03, 0, 0, false, false, 0, d.uart.stdout⟩ }

def uartReceive (d : Devices) (c : Byte) : Devices :=
  if d.uart.rxCount ≥ rxFifoSize then d
  else
    let pos := (d.uart.rxHead + d.uart.rxCount) % rxFifoSize
    uartUpdateIrq { d with uart := { d.uart with rx := Function.update d.uart.rx pos c, rxCount := d.uart.rxCount + 1 } }

def uartRead (d : Devices) (offset : Word) : Word × Devices :=
  let u := d.uart
  match (offset &&& 7).toNat with
  | 0 =>
    if u.lcr &&& lcrDlab ≠ 0 then (0, d)
    else if 0 < u.rxCount then
      ((u.rx u.rxHead).setWidth 32,
        uartUpdateIrq { d with uart := { u with rxHead := (u.rxHead + 1) % rxFifoSize, rxCount := u.rxCount - 1 } })
    else (0, d)
  | 1 => (if u.lcr &&& lcrDlab ≠ 0 then 0 else u.ier.setWidth 32, d)
  | 2 => (if uartRxPend u then iirRxdata else if uartTxPend u then iirThre else iirNopend, d)
  | 3 => (u.lcr.setWidth 32, d)
  | 4 => (u.mcr.setWidth 32, d)
  | 5 => ((if u.thrBusy then 0 else lsrThre ||| lsrTemt) ||| (if 0 < u.rxCount then lsrDr else 0), d)
  | 6 => (0, d)
  | _ => (u.scr.setWidth 32, d)

def uartWrite (d : Devices) (offset val : Word) : Devices :=
  let u := d.uart
  match (offset &&& 7).toNat with
  | 0 =>
    if u.lcr &&& lcrDlab ≠ 0 then d
    else
      uartUpdateIrq { d with uart :=
        { u with stdout := u.stdout ++ [val.setWidth 8], thrBusy := true, thrTicks := txShiftTicks } }
  | 1 => uartUpdateIrq { d with uart := { u with ier := (val &&& 0x0F).setWidth 8 } }
  | 2 => uartUpdateIrq d
  | 3 => { d with uart := { u with lcr := val.setWidth 8 } }
  | 4 => { d with uart := { u with mcr := val.setWidth 8 } }
  | _ => { d with uart := { u with scr := val.setWidth 8 } }

end RiscvEmu
