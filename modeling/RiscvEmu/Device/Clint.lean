/-
device/clint.c: the machine timer, two 64-bit registers accessed a byte at a time.
-/
import RiscvEmu.Basic

namespace RiscvEmu

def clintBase : Word := 0x02000000
def clintSize : Word := 0x00010000
def clintMtimecmpHart0 : Word := 0x02004000
def clintMtimeAddr : Word := 0x0200BFF8

structure Clint where
  mtime : BitVec 64
  /-- 0 disables the compare -/
  mtimecmp : BitVec 64
deriving DecidableEq

def clintInit : Clint := ⟨0, 0⟩

def clintTick (c : Clint) : Clint := { c with mtime := c.mtime + 1 }

def clintMtipPending (c : Clint) : Bool := c.mtimecmp ≠ 0 ∧ c.mtime ≥ c.mtimecmp

def clintStore (c : Clint) (addr : Word) (val : Byte) : Clint :=
  if addr ≥ clintMtimecmpHart0 ∧ addr < clintMtimecmpHart0 + 8 then
    let byte := (addr - clintMtimecmpHart0).toNat
    { c with mtimecmp := c.mtimecmp &&& ~~~((0xFF : BitVec 64) <<< (byte * 8)) ||| val.setWidth 64 <<< (byte * 8) }
  else c

/-- clint_read returns an int32_t: the byte, or -1 off the registers -/
def clintRead (c : Clint) (addr : Word) : Word :=
  if addr ≥ clintMtimecmpHart0 ∧ addr < clintMtimecmpHart0 + 8 then
    ((c.mtimecmp >>> ((addr - clintMtimecmpHart0).toNat * 8)) &&& 0xFF).setWidth 32
  else if addr ≥ clintMtimeAddr ∧ addr < clintMtimeAddr + 8 then
    ((c.mtime >>> ((addr - clintMtimeAddr).toNat * 8)) &&& 0xFF).setWidth 32
  else if addr ≥ clintBase ∧ addr < clintBase + clintSize then 0
  else -1

end RiscvEmu
