/-
The instruction listing: the 32-bit words that stand for an instruction.

A row of the listing fixes some fields of a word, and what it leaves open are operands. The rows are those of RV32I with
M, A, F, D, Q, Zfh, Zicsr, Zifencei and Zicond, of the privileged architecture up to supervisor mode, of Smrnmi and of
Ssctr, by opcode; `rows64` are the conversions and moves RV64 adds to the floating-point extensions, whose names are used
for RV32 words too. A format that a row leaves open completes its name. Results:
- `mnemonic_isSome`: a word has a name when a row of its opcode covers it.
-/
import Mathlib.Tactic.Common

namespace Rv32Listing

/-- the fields an instruction fixes; `rounds` where funct3 is a rounding mode -/
structure Row where
  name : String
  funct3 : Option (BitVec 3) := none
  funct7 : Option (BitVec 7) := none
  funct5 : Option (BitVec 5) := none
  fmt : Option (BitVec 2) := none
  rs2 : Option (BitVec 5) := none
  rs1 : Option (BitVec 5) := none
  rd : Option (BitVec 5) := none
  rounds : Bool := false
deriving DecidableEq, Repr

section
variable (w : BitVec 32)

def opcode : BitVec 7 := w.extractLsb' 0 7
def funct3 : BitVec 3 := w.extractLsb' 12 3
def funct7 : BitVec 7 := w.extractLsb' 25 7
def funct5 : BitVec 5 := w.extractLsb' 27 5
def fmt : BitVec 2 := w.extractLsb' 25 2
def rs2 : BitVec 5 := w.extractLsb' 20 5
def rs1 : BitVec 5 := w.extractLsb' 15 5
def rd : BitVec 5 := w.extractLsb' 7 5

/-- the word has the fields of the row -/
def covers (r : Row) : Bool :=
  r.funct3.all (funct3 w = ·) && r.funct7.all (funct7 w = ·) && r.funct5.all (funct5 w = ·) && r.fmt.all (fmt w = ·) &&
    r.rs2.all (rs2 w = ·) && r.rs1.all (rs1 w = ·) && r.rd.all (rd w = ·)

/-- the rounding modes 101 and 110 are reserved -/
def modeKnown (r : Row) : Bool := !r.rounds || (funct3 w != 5 && funct3 w != 6)

end

/-! ## The base integer instructions, M and Zicond -/

def opRows : List Row := [
  { name := "add", funct7 := some 0b0000000, funct3 := some 0b000 },
  { name := "sub", funct7 := some 0b0100000, funct3 := some 0b000 },
  { name := "sll", funct7 := some 0b0000000, funct3 := some 0b001 },
  { name := "slt", funct7 := some 0b0000000, funct3 := some 0b010 },
  { name := "sltu", funct7 := some 0b0000000, funct3 := some 0b011 },
  { name := "xor", funct7 := some 0b0000000, funct3 := some 0b100 },
  { name := "srl", funct7 := some 0b0000000, funct3 := some 0b101 },
  { name := "sra", funct7 := some 0b0100000, funct3 := some 0b101 },
  { name := "or", funct7 := some 0b0000000, funct3 := some 0b110 },
  { name := "and", funct7 := some 0b0000000, funct3 := some 0b111 },
  { name := "mul", funct7 := some 0b0000001, funct3 := some 0b000 },
  { name := "mulh", funct7 := some 0b0000001, funct3 := some 0b001 },
  { name := "mulhsu", funct7 := some 0b0000001, funct3 := some 0b010 },
  { name := "mulhu", funct7 := some 0b0000001, funct3 := some 0b011 },
  { name := "div", funct7 := some 0b0000001, funct3 := some 0b100 },
  { name := "divu", funct7 := some 0b0000001, funct3 := some 0b101 },
  { name := "rem", funct7 := some 0b0000001, funct3 := some 0b110 },
  { name := "remu", funct7 := some 0b0000001, funct3 := some 0b111 },
  { name := "czero.eqz", funct7 := some 0b0000111, funct3 := some 0b101 },
  { name := "czero.nez", funct7 := some 0b0000111, funct3 := some 0b111 }]

def opImmRows : List Row := [
  { name := "addi", funct3 := some 0b000 },
  { name := "slti", funct3 := some 0b010 },
  { name := "sltiu", funct3 := some 0b011 },
  { name := "xori", funct3 := some 0b100 },
  { name := "ori", funct3 := some 0b110 },
  { name := "andi", funct3 := some 0b111 },
  { name := "slli", funct7 := some 0b0000000, funct3 := some 0b001 },
  { name := "srli", funct7 := some 0b0000000, funct3 := some 0b101 },
  { name := "srai", funct7 := some 0b0100000, funct3 := some 0b101 }]

def loadRows : List Row := [
  { name := "lb", funct3 := some 0b000 },
  { name := "lh", funct3 := some 0b001 },
  { name := "lw", funct3 := some 0b010 },
  { name := "lbu", funct3 := some 0b100 },
  { name := "lhu", funct3 := some 0b101 }]

def storeRows : List Row := [
  { name := "sb", funct3 := some 0b000 },
  { name := "sh", funct3 := some 0b001 },
  { name := "sw", funct3 := some 0b010 }]

def branchRows : List Row := [
  { name := "beq", funct3 := some 0b000 },
  { name := "bne", funct3 := some 0b001 },
  { name := "blt", funct3 := some 0b100 },
  { name := "bge", funct3 := some 0b101 },
  { name := "bltu", funct3 := some 0b110 },
  { name := "bgeu", funct3 := some 0b111 }]

/-- the other fields of a fence are reserved and to be ignored -/
def miscMemRows : List Row := [
  { name := "fence", funct3 := some 0b000 },
  { name := "fence.i", funct3 := some 0b001 }]

/-! ## A -/

def amoRows : List Row := [
  { name := "lr.w", funct5 := some 0b00010, rs2 := some 0, funct3 := some 0b010 },
  { name := "sc.w", funct5 := some 0b00011, funct3 := some 0b010 },
  { name := "amoswap.w", funct5 := some 0b00001, funct3 := some 0b010 },
  { name := "amoadd.w", funct5 := some 0b00000, funct3 := some 0b010 },
  { name := "amoxor.w", funct5 := some 0b00100, funct3 := some 0b010 },
  { name := "amoand.w", funct5 := some 0b01100, funct3 := some 0b010 },
  { name := "amoor.w", funct5 := some 0b01000, funct3 := some 0b010 },
  { name := "amomin.w", funct5 := some 0b10000, funct3 := some 0b010 },
  { name := "amomax.w", funct5 := some 0b10100, funct3 := some 0b010 },
  { name := "amominu.w", funct5 := some 0b11000, funct3 := some 0b010 },
  { name := "amomaxu.w", funct5 := some 0b11100, funct3 := some 0b010 }]

/-! ## F, D, Q and Zfh -/

def fpLoadRows : List Row := [
  { name := "flh", funct3 := some 0b001 },
  { name := "flw", funct3 := some 0b010 },
  { name := "fld", funct3 := some 0b011 },
  { name := "flq", funct3 := some 0b100 }]

def fpStoreRows : List Row := [
  { name := "fsh", funct3 := some 0b001 },
  { name := "fsw", funct3 := some 0b010 },
  { name := "fsd", funct3 := some 0b011 },
  { name := "fsq", funct3 := some 0b100 }]

/-- a conversion between formats, numbered 0 for s, 1 for d, 2 for h and 3 for q -/
def fcvtRow (name : String) (fmt : BitVec 2) (source : BitVec 5) : Row :=
  { name := name, funct5 := some 0b01000, fmt := some fmt, rs2 := some source, rounds := true }

def fpRows : List Row := [
  { name := "fadd", funct5 := some 0b00000, rounds := true },
  { name := "fsub", funct5 := some 0b00001, rounds := true },
  { name := "fmul", funct5 := some 0b00010, rounds := true },
  { name := "fdiv", funct5 := some 0b00011, rounds := true },
  { name := "fsqrt", funct5 := some 0b01011, rs2 := some 0, rounds := true },
  { name := "fsgnj", funct5 := some 0b00100, funct3 := some 0b000 },
  { name := "fsgnjn", funct5 := some 0b00100, funct3 := some 0b001 },
  { name := "fsgnjx", funct5 := some 0b00100, funct3 := some 0b010 },
  { name := "fmin", funct5 := some 0b00101, funct3 := some 0b000 },
  { name := "fmax", funct5 := some 0b00101, funct3 := some 0b001 },
  { name := "feq", funct5 := some 0b10100, funct3 := some 0b010 },
  { name := "flt", funct5 := some 0b10100, funct3 := some 0b001 },
  { name := "fle", funct5 := some 0b10100, funct3 := some 0b000 },
  { name := "fclass", funct5 := some 0b11100, rs2 := some 0, funct3 := some 0b001 },
  { name := "fcvt.w", funct5 := some 0b11000, rs2 := some 0, rounds := true },
  { name := "fcvt.wu", funct5 := some 0b11000, rs2 := some 1, rounds := true },
  { name := "fcvt from w", funct5 := some 0b11010, rs2 := some 0, rounds := true },
  { name := "fcvt from wu", funct5 := some 0b11010, rs2 := some 1, rounds := true },
  { name := "fmv.x.w", funct5 := some 0b11100, fmt := some 0, rs2 := some 0, funct3 := some 0b000 },
  { name := "fmv.x.h", funct5 := some 0b11100, fmt := some 2, rs2 := some 0, funct3 := some 0b000 },
  { name := "fmv.w.x", funct5 := some 0b11110, fmt := some 0, rs2 := some 0, funct3 := some 0b000 },
  { name := "fmv.h.x", funct5 := some 0b11110, fmt := some 2, rs2 := some 0, funct3 := some 0b000 },
  fcvtRow "fcvt.s.d" 0 1, fcvtRow "fcvt.s.h" 0 2, fcvtRow "fcvt.s.q" 0 3,
  fcvtRow "fcvt.d.s" 1 0, fcvtRow "fcvt.d.h" 1 2, fcvtRow "fcvt.d.q" 1 3,
  fcvtRow "fcvt.h.s" 2 0, fcvtRow "fcvt.h.d" 2 1, fcvtRow "fcvt.h.q" 2 3,
  fcvtRow "fcvt.q.s" 3 0, fcvtRow "fcvt.q.d" 3 1, fcvtRow "fcvt.q.h" 3 2]

/-- RV64: the long integers, and the moves of a double -/
def fpRows64 : List Row := [
  { name := "fcvt.l", funct5 := some 0b11000, rs2 := some 2, rounds := true },
  { name := "fcvt.lu", funct5 := some 0b11000, rs2 := some 3, rounds := true },
  { name := "fcvt from l", funct5 := some 0b11010, rs2 := some 2, rounds := true },
  { name := "fcvt from lu", funct5 := some 0b11010, rs2 := some 3, rounds := true },
  { name := "fmv.x.d", funct5 := some 0b11100, fmt := some 1, rs2 := some 0, funct3 := some 0b000 },
  { name := "fmv.d.x", funct5 := some 0b11110, fmt := some 1, rs2 := some 0, funct3 := some 0b000 }]

/-! ## Zicsr and the privileged instructions -/

/-- an instruction without operands, by funct12 -/
def bareRow (name : String) (funct7 : BitVec 7) (rs2 : BitVec 5) : Row :=
  { name := name, funct7 := some funct7, rs2 := some rs2, rs1 := some 0, funct3 := some 0, rd := some 0 }

def systemRows : List Row := [
  bareRow "ecall" 0b0000000 0b00000,
  bareRow "ebreak" 0b0000000 0b00001,
  bareRow "sret" 0b0001000 0b00010,
  bareRow "mret" 0b0011000 0b00010,
  bareRow "mnret" 0b0111000 0b00010,
  bareRow "sctrclr" 0b0001000 0b00100,
  bareRow "wfi" 0b0001000 0b00101,
  { name := "sfence.vma", funct7 := some 0b0001001, funct3 := some 0b000, rd := some 0 },
  { name := "csrrw", funct3 := some 0b001 },
  { name := "csrrs", funct3 := some 0b010 },
  { name := "csrrc", funct3 := some 0b011 },
  { name := "csrrwi", funct3 := some 0b101 },
  { name := "csrrsi", funct3 := some 0b110 },
  { name := "csrrci", funct3 := some 0b111 }]

/-! ## The listing -/

def rows : BitVec 7 → List Row
  | 0b0110111#7 => [{ name := "lui" }]
  | 0b0010111#7 => [{ name := "auipc" }]
  | 0b1101111#7 => [{ name := "jal" }]
  | 0b1100111#7 => [{ name := "jalr", funct3 := some 0b000 }]
  | 0b1100011#7 => branchRows
  | 0b0000011#7 => loadRows
  | 0b0100011#7 => storeRows
  | 0b0010011#7 => opImmRows
  | 0b0110011#7 => opRows
  | 0b0001111#7 => miscMemRows
  | 0b1110011#7 => systemRows
  | 0b0101111#7 => amoRows
  | 0b0000111#7 => fpLoadRows
  | 0b0100111#7 => fpStoreRows
  | 0b1000011#7 => [{ name := "fmadd", rounds := true }]
  | 0b1000111#7 => [{ name := "fmsub", rounds := true }]
  | 0b1001011#7 => [{ name := "fnmsub", rounds := true }]
  | 0b1001111#7 => [{ name := "fnmadd", rounds := true }]
  | 0b1010011#7 => fpRows
  | _ => []

def rows64 : BitVec 7 → List Row
  | 0b1010011#7 => fpRows64
  | _ => []

section
variable (w : BitVec 32)

/-- the word is an instruction of RV32 -/
def listed : Bool := (rows (opcode w)).any fun r => covers w r && modeKnown w r

/-- the name of the word, whatever its rounding mode -/
def mnemonic : Option String := ((rows (opcode w) ++ rows64 (opcode w)).find? (covers w)).map Row.name

theorem mnemonic_isSome : (mnemonic w).isSome = (rows (opcode w) ++ rows64 (opcode w)).any (covers w) := by
  rw [mnemonic, Option.isSome_map, List.isSome_find?]

end

-- mret, fcvt.s.w f0, x0 and a reserved rounding mode of fadd.s
example : mnemonic 0x30200073 = some "mret" := by decide
example : listed 0xD0007053 = true ∧ listed 0x00005053 = false := by decide

end Rv32Listing
