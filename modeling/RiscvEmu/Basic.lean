/-
Machine words, the fatal() channel and the constants of emu.h shared by every module.

`fatal(fmt, ...)` logs and calls exit: a routine that may reach it returns `Except Fatal`, and the error carries the
format string and its arguments.
-/
import Mathlib.Tactic.Common

namespace RiscvEmu

abbrev Word := BitVec 32
abbrev Byte := BitVec 8
/-- a general-purpose or floating-point register number: the five-bit fields of an instruction -/
abbrev Reg := BitVec 5
/-- a CSR number: the twelve-bit field of a SYSTEM instruction -/
abbrev Csr := BitVec 12
/-- a privilege level; g_state.privilege only ever holds a PRV_ constant or a two-bit field of mstatus -/
abbrev Priv := BitVec 2

@[simp] abbrev prvUser : Priv := 0#2
@[simp] abbrev prvSupervisor : Priv := 1#2
@[simp] abbrev prvHypervisor : Priv := 2#2
@[simp] abbrev prvMachine : Priv := 3#2

/-- a call of fatal(): the emulator prints the message and exits -/
structure Fatal where
  fmt : String
  args : List Word
deriving DecidableEq, Repr

end RiscvEmu
