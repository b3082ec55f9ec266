/-
disasm.c: the text of a 32-bit word.

disasm is one switch on the opcode, to be kept consistent with exec's, and a sprintf in each branch. Here a branch gives
what it prints, a `Line`; `Line.text` is the text. A table indexed under a test of the index, or by a masked field, is a
vector; the three tables of FP-OP are indexed by the bare funct3 field, and a read beyond them has no value: the model
answers none. Results:
- `regName_injective`, `fregName_injective`, `hex_injective`, `decimal_injective`: a text names one register or value;
- `disasmLine_unknown`, `disasmLine_printed`: the words no instruction has that are called unknown, and those that are not;
- `disasm_total_iff`: disasm describes a word and calls it unknown where no instruction has it, exactly where no such read
  happens and the word is none that is `printedAnyway`;
- `fsgnj_reserved_overruns`: one that does.
-/
import RiscvEmu.Listing

namespace RiscvEmu

open Rv32Listing

/-! ## Names -/

def regs : Vector String 32 :=
  #v["zero", "ra", "sp", "gp", "tp", "t0", "t1", "t2", "s0", "s1", "a0", "a1", "a2", "a3", "a4", "a5",
    "a6", "a7", "s2", "s3", "s4", "s5", "s6", "s7", "s8", "s9", "s10", "s11", "t3", "t4", "t5", "t6"]

def regName (id : ℕ) : String := if h : id < 32 then regs[id] else "?"

def fregs : Vector String 32 :=
  #v["f0", "f1", "f2", "f3", "f4", "f5", "f6", "f7", "f8", "f9", "f10", "f11", "f12", "f13", "f14", "f15",
    "f16", "f17", "f18", "f19", "f20", "f21", "f22", "f23", "f24", "f25", "f26", "f27", "f28", "f29", "f30", "f31"]

def fregName (id : ℕ) : String := if h : id < 32 then fregs[id] else "?"

def rmNames : Vector String 8 := #v["rne", "rtz", "rdn", "rup", "rmm", "dyn", "dyn", "dyn"]

/-- the dynamic mode, 7, is past the test -/
def rmName (rm : ℕ) : String := if h : rm < 5 then rmNames[rm] else "?"

def fmtName : ℕ → String
  | 0 => "s"
  | 1 => "d"
  | 2 => "h"
  | _ => "?"

/-- the integer formats of a conversion -/
def kinds : Vector String 4 := #v["w", "wu", "l", "lu"]

theorem kind_lt : ∀ rs2 : Reg, (rs2 &&& 3).toNat < 4 := by decide

/-- kinds[rs2 & 3] -/
def kindName (rs2 : Reg) : String := kinds.get ⟨(rs2 &&& 3).toNat, kind_lt rs2⟩

/-- the names of a table are different -/
theorem name_injective {names : Vector String 32} (h : names.toList.Nodup) {r r' : Reg}
    (he : names.get ⟨r.toNat, r.isLt⟩ = names.get ⟨r'.toNat, r'.isLt⟩) : r = r' := by
  have hget : ∀ id (hid : id < 32), names.get ⟨id, hid⟩ = names.toList.get ⟨id, by simpa using hid⟩ := fun id hid => by
    simp [Vector.get]
  rw [hget, hget] at he
  have hfin := List.nodup_iff_injective_get.1 h he
  exact BitVec.eq_of_toNat_eq (Fin.mk.inj hfin)

theorem regName_injective {r r' : Reg} (h : regName r.toNat = regName r'.toNat) : r = r' := by
  refine name_injective (show regs.toList.Nodup by decide) ?_
  have hname : ∀ q : Reg, regName q.toNat = regs.get ⟨q.toNat, q.isLt⟩ := fun q => dif_pos q.isLt
  rw [← hname, ← hname, h]

theorem fregName_injective {r r' : Reg} (h : fregName r.toNat = fregName r'.toNat) : r = r' := by
  refine name_injective (show fregs.toList.Nodup by decide) ?_
  have hname : ∀ q : Reg, fregName q.toNat = fregs.get ⟨q.toNat, q.isLt⟩ := fun q => dif_pos q.isLt
  rw [← hname, ← hname, h]

/-! ## Lines -/

/-- what a branch prints; the rounding mode comes last -/
structure Line where
  mnemonic : String
  operands : List String
  rounding : Option String
deriving DecidableEq, Repr

def Line.text (l : Line) : String :=
  match l.operands ++ l.rounding.toList with
  | [] => l.mnemonic
  | args => l.mnemonic ++ " " ++ ", ".intercalate args

/-- 0x%x, with leading zeros up to the width -/
def hex (width : ℕ) (v : Word) : String :=
  let digits := Nat.toDigits 16 v.toNat
  "0x" ++ String.ofList (List.replicate (width - digits.length) '0' ++ digits)

/-- %d of an int32_t -/
def decimal (v : Word) : String := toString v.toInt

/-- the value of a hexadecimal digit -/
def hexDigit (c : Char) : ℕ := ((List.range 16).find? fun d => Nat.digitChar d = c).getD 0

def hexValue (digits : List Char) : ℕ := digits.foldl (fun n c => 16 * n + hexDigit c) 0

theorem hexValue_append (digits : List Char) (c : Char) :
    hexValue (digits ++ [c]) = 16 * hexValue digits + hexDigit c := by
  rw [hexValue, List.foldl_append]
  rfl

theorem hexValue_toDigits (n : ℕ) : hexValue (Nat.toDigits 16 n) = n := by
  have hdigit : ∀ d < 16, hexDigit (Nat.digitChar d) = d := by decide
  induction n using Nat.strong_induction_on with
  | h n ih =>
    rw [Nat.toDigits_eq_if (by decide)]
    split_ifs with h
    · exact (Nat.zero_add _).trans (hdigit n h)
    · rw [hexValue_append, ih (n / 16) (by omega), hdigit _ (Nat.mod_lt _ (by decide))]
      omega

theorem hexValue_zeros (k : ℕ) (digits : List Char) :
    hexValue (List.replicate k '0' ++ digits) = hexValue digits := by
  induction k with
  | zero => rfl
  | succ k ih => exact ih

/-- the text of a value gives the value back -/
theorem hex_injective {width : ℕ} {v w : Word} (h : hex width v = hex width w) : v = w := by
  have hdigits := congrArg (fun text => hexValue (text.toList.drop 2)) h
  simp [hex, hexValue_zeros, hexValue_toDigits] at hdigits
  exact BitVec.eq_of_toNat_eq hdigits

/-- the value of a number with its sign -/
def decimalValue (text : List Char) : ℤ :=
  if text.head? = some '-' then -Nat.ofDigitChars 10 text.tail 0 else Nat.ofDigitChars 10 text 0

theorem decimalValue_toString (i : ℤ) : decimalValue (toString i).toList = i := by
  cases i with
  | ofNat m =>
    have hlist : (toString (Int.ofNat m)).toList = Nat.toDigits 10 m := Nat.toList_repr
    have hhead : ¬ (Nat.toDigits 10 m).head? = some '-' := by
      intro h
      have hdigit := Nat.isDigit_of_mem_toDigits (by decide) (by decide) (List.mem_of_mem_head? h)
      exact absurd hdigit (by decide)
    rw [hlist, decimalValue, if_neg hhead, Nat.ofDigitChars_ten_toDigits]
    rfl
  | negSucc m =>
    have hlist : (toString (Int.negSucc m)).toList = '-' :: Nat.toDigits 10 (m + 1) := by
      rw [← Nat.toList_repr]
      exact String.toList_append
    rw [hlist, decimalValue, if_pos List.head?_cons, List.tail_cons, Nat.ofDigitChars_ten_toDigits]
    rfl

theorem decimal_injective {v w : Word} (h : decimal v = decimal w) : v = w := by
  have hdigits := congrArg (fun text => decimalValue text.toList) h
  simp only [decimal, decimalValue_toString] at hdigits
  exact BitVec.eq_of_toInt_eq hdigits

def reg (r : Reg) : String := regName r.toNat

def freg (r : Reg) : String := fregName r.toNat

/-- %d(%s) -/
def address (imm : Word) (rs1 : Reg) : String := decimal imm ++ "(" ++ reg rs1 ++ ")"

def unknownLine (ins : Word) : Line := ⟨"unknown", ["(" ++ hex 8 ins ++ ")"], none⟩

/-- the two texts for what has no mnemonic -/
def Line.isUnknown (l : Line) : Prop := l.mnemonic = "unknown" ∨ l.mnemonic = "c.<unknown>"

/-- no other text begins so -/
theorem not_isUnknown {l : Line} {m : String} (hl : l.mnemonic = m)
    (h : m.toList.head? ≠ some 'u' ∧ m.toList.head? ≠ some 'c') : ¬ l.isUnknown := by
  intro hu
  rcases hu with hu | hu <;> rw [← hl, hu] at h
  · exact h.1 rfl
  · exact h.2 rfl

theorem unknownLine_isUnknown (ins : Word) : (unknownLine ins).isUnknown := .inl rfl

/-! ## disasm -/

section
variable (pc ins : Word)

def disasmFLoad : Line :=
  let load (m : String) : Line := ⟨m, [freg (getRd ins), address (iImm ins) (getRs1 ins)], none⟩
  match getFunct3 ins with
  | 1#3 => load "flh"
  | 2#3 => load "flw"
  | 3#3 => load "fld"
  | 4#3 => load "flq"
  | _ => unknownLine ins

def disasmFStore : Line :=
  let store (m : String) : Line := ⟨m, [freg (getRs2 ins), address (sImm ins) (getRs1 ins)], none⟩
  match getFunct3 ins with
  | 1#3 => store "fsh"
  | 2#3 => store "fsw"
  | 3#3 => store "fsd"
  | 4#3 => store "fsq"
  | _ => unknownLine ins

/-- the field at bit 25, of an FP operation -/
def getFmt : BitVec 2 := ins.extractLsb' 25 2

/-- the field at bit 27: rs3, and the operation of FP-OP -/
def getFunct5 : BitVec 5 := ins.extractLsb' 27 5

def disasmFma (mnemonic : String) : Line :=
  ⟨mnemonic ++ "." ++ fmtName (getFmt ins).toNat,
    [freg (getRd ins), freg (getRs1 ins), freg (getRs2 ins), freg (getFunct5 ins)], some (rmName (getFunct3 ins).toNat)⟩

def disasmFpop : Option Line :=
  let fmt := fmtName (getFmt ins).toNat
  let funct3 := (getFunct3 ins).toNat
  let rm := some (rmName funct3)
  let frd := freg (getRd ins)
  let frs1 := freg (getRs1 ins)
  let frs2 := freg (getRs2 ins)
  -- a table without a test of the index
  let subop (names : List String) (operands : List String) : Option Line :=
    names[funct3]?.map fun m => ⟨m ++ "." ++ fmt, operands, none⟩
  match getFunct5 ins with
  | 0#5 => some ⟨"fadd." ++ fmt, [frd, frs1, frs2], rm⟩
  | 1#5 => some ⟨"fsub." ++ fmt, [frd, frs1, frs2], rm⟩
  | 2#5 => some ⟨"fmul." ++ fmt, [frd, frs1, frs2], rm⟩
  | 3#5 => some ⟨"fdiv." ++ fmt, [frd, frs1, frs2], rm⟩
  | 4#5 => subop ["fsgnj", "fsgnjn", "fsgnjx"] [frd, frs1, frs2]
  | 5#5 => subop ["fmin", "fmax"] [frd, frs1, frs2]
  | 11#5 => some ⟨"fsqrt." ++ fmt, [frd, frs1], rm⟩
  | 20#5 => subop ["feq", "flt", "fle"] [reg (getRd ins), frs1, frs2]
  | 28#5 =>
    if funct3 = 0 then some ⟨"fmv.x." ++ fmt, [reg (getRd ins), frs1], none⟩
    else if funct3 = 1 then some ⟨"fclass." ++ fmt, [reg (getRd ins), frs1], none⟩
    else some (unknownLine ins)
  | 30#5 => some ⟨"fmv." ++ fmt ++ ".x", [frd, reg (getRs1 ins)], none⟩
  | 24#5 => some ⟨"fcvt." ++ kindName (getRs2 ins) ++ "." ++ fmt, [reg (getRd ins), frs1], rm⟩
  | 26#5 => some ⟨"fcvt." ++ fmt ++ "." ++ kindName (getRs2 ins), [frd, reg (getRs1 ins)], rm⟩
  | 8#5 => some ⟨"fcvt." ++ fmt ++ "." ++ fmtName (getRs2 ins).toNat, [frd, frs1], rm⟩
  | _ => some (unknownLine ins)

def disasmM : BitVec 3 → String
  | 0#3 => "mul"
  | 1#3 => "mulh"
  | 2#3 => "mulsu"
  | 3#3 => "mulu"
  | 4#3 => "div"
  | 5#3 => "divu"
  | 6#3 => "rem"
  | _ => "remu"

def disasmR : Line :=
  let funct3 := getFunct3 ins
  let funct7 := getFunct7 ins
  let r (m : String) : Line := ⟨m, [reg (getRd ins), reg (getRs1 ins), reg (getRs2 ins)], none⟩
  let plain (m : String) : Line := if funct7 = 0b0000000 then r m else unknownLine ins
  if funct7 = 0b0000001 then r (disasmM funct3)
  else if funct7 = 0b0000111 then
    if funct3 = 0b101 then ⟨"czero_eqz", [reg (getRd ins), reg (getRs1 ins)], none⟩
    else if funct3 = 0b111 then ⟨"czero_nez", [reg (getRd ins), reg (getRs1 ins)], none⟩
    else unknownLine ins
  else
    match funct3 with
    | 0#3 => if funct7 = 0b0000000 then r "add" else if funct7 = 0b0100000 then r "sub" else unknownLine ins
    | 1#3 => plain "sll"
    | 2#3 => plain "slt"
    | 3#3 => plain "sltu"
    | 4#3 => plain "xor"
    | 5#3 => if funct7 = 0b0000000 then r "srl" else if funct7 = 0b0100000 then r "sra" else unknownLine ins
    | 6#3 => plain "or"
    | _ => plain "and"

def disasmI : Line :=
  let funct7 := getFunct7 ins
  let imm := iImm ins
  let shamt := imm &&& 0x1F
  let i (m : String) (imm : Word) : Line := ⟨m, [reg (getRd ins), reg (getRs1 ins), decimal imm], none⟩
  match getFunct3 ins with
  | 0#3 => i "addi" imm
  | 1#3 => i "slli" shamt
  | 2#3 => i "slti" imm
  | 3#3 => i "sltiu" imm
  | 4#3 => i "xori" imm
  | 5#3 => if funct7 = 0b0000000 then i "srli" shamt else if funct7 = 0b0100000 then i "srai" shamt
      else unknownLine ins
  | 6#3 => i "ori" imm
  | _ => i "andi" imm

def disasmLoad : Line :=
  let load (m : String) : Line := ⟨m, [reg (getRd ins), address (iImm ins) (getRs1 ins)], none⟩
  match getFunct3 ins with
  | 0#3 => load "lb"
  | 1#3 => load "lh"
  | 2#3 => load "lw"
  | 4#3 => load "lbu"
  | 5#3 => load "lhu"
  | _ => unknownLine ins

def disasmStore : Line :=
  let store (m : String) : Line := ⟨m, [reg (getRs2 ins), address (sImm ins) (getRs1 ins)], none⟩
  match getFunct3 ins with
  | 0#3 => store "sb"
  | 1#3 => store "sh"
  | 2#3 => store "sw"
  | _ => unknownLine ins

def disasmBranch : Line :=
  let branch (m : String) : Line := ⟨m, [reg (getRs1 ins), reg (getRs2 ins), hex 0 (pc + bImm ins)], none⟩
  match getFunct3 ins with
  | 0#3 => branch "beq"
  | 1#3 => branch "bne"
  | 4#3 => branch "blt"
  | 5#3 => branch "bge"
  | 6#3 => branch "bltu"
  | 7#3 => branch "bgeu"
  | _ => unknownLine ins

def disasmAtomic : Line :=
  let base := "(" ++ reg (getRs1 ins) ++ ")"
  let atomic (m : String) : Line := ⟨m, [reg (getRd ins), reg (getRs2 ins), base], none⟩
  if getFunct3 ins = 0x2 then
    match getFunct5 ins with
    | 0x00#5 => atomic "amoadd.w"
    | 0x01#5 => atomic "amoswap.w"
    | 0x02#5 => ⟨"lr.w", [reg (getRd ins), base], none⟩
    | 0x03#5 => atomic "sc.w"
    | 0x04#5 => atomic "amoxor.w"
    | 0x08#5 => atomic "amoor.w"
    | 0x0C#5 => atomic "amoand.w"
    | 0x10#5 => atomic "amomin.w"
    | 0x14#5 => atomic "amomax.w"
    | 0x18#5 => atomic "amomin_u.w"
    | 0x1C#5 => atomic "amomax_u.w"
    | _ => unknownLine ins
  else unknownLine ins

/-- SYSTEM with funct3 = 0 -/
def disasmPrivileged : Line :=
  let imm := getImm12 ins
  let rs1 := getRs1 ins
  let rd := getRd ins
  let bare (m : String) : Line := ⟨m, [], none⟩
  if rs1 = 0 ∧ rd = 0 then
    match imm with
    | 0x000#12 => bare "ecall"
    | 0x001#12 => bare "ebreak"
    | 0x102#12 => bare "sret"
    | 0x302#12 => bare "mret"
    | 0x702#12 => bare "mnret"
    | 0x104#12 => bare "sctrclr"
    | 0x105#12 => bare "wfi"
    | 0x009#12 => bare "sfence.vma"
    | _ => unknownLine ins
  else if imm = 0x009 then
    if rs1 = 0 ∧ rd = 0 then bare "sfence.vma"
    else if rs1 ≠ 0 ∧ rd = 0 then ⟨"sfence.vma", [reg rs1], none⟩
    else if rs1 = 0 ∧ rd ≠ 0 then ⟨"sfence.vma", ["", reg rd], none⟩
    else ⟨"sfence.vma", [reg rs1, reg rd], none⟩
  else unknownLine ins

def disasmSystem : Line :=
  let csr := hex 3 ((getImm12 ins).setWidth 32)
  let zicsr (m : String) : Line := ⟨m, [reg (getRd ins), reg (getRs1 ins), csr], none⟩
  let zicsrImm (m : String) : Line := ⟨m, [reg (getRd ins), decimal ((getRs1 ins).setWidth 32), csr], none⟩
  match getFunct3 ins with
  | 0#3 => disasmPrivileged ins
  | 1#3 => zicsr "csrrw"
  | 2#3 => zicsr "csrrs"
  | 3#3 => zicsr "csrrc"
  | 5#3 => zicsrImm "csrrwi"
  | 6#3 => zicsrImm "csrrsi"
  | 7#3 => zicsrImm "csrrci"
  | _ => unknownLine ins

def disasmFence : Line :=
  match getFunct3 ins with
  | 0#3 => ⟨"fence", [], none⟩
  | 1#3 => ⟨"fence.i", [], none⟩
  | _ => unknownLine ins

/-- the line of the word at pc, if no read beyond a table comes first -/
def disasmLine : Option Line :=
  if ins.extractLsb' 0 2 ≠ 3 then some ⟨"c.<unknown>", ["(" ++ hex 4 (ins &&& 0xFFFF) ++ ")"], none⟩
  else
    match getOpcode ins with
    | 0b0000111#7 => some (disasmFLoad ins)
    | 0b0100111#7 => some (disasmFStore ins)
    | 0b1000011#7 => some (disasmFma ins "fmadd")
    | 0b1000111#7 => some (disasmFma ins "fmsub")
    | 0b1001011#7 => some (disasmFma ins "fnmsub")
    | 0b1001111#7 => some (disasmFma ins "fnmadd")
    | 0b1010011#7 => disasmFpop ins
    | 0b0110011#7 => some (disasmR ins)
    | 0b0010011#7 => some (disasmI ins)
    | 0b0000011#7 => some (disasmLoad ins)
    | 0b0100011#7 => some (disasmStore ins)
    | 0b1100011#7 => some (disasmBranch pc ins)
    | 0b1101111#7 => some ⟨"jal", [reg (getRd ins), hex 0 (pc + jImm ins)], none⟩
    | 0b0110111#7 => some ⟨"lui", [reg (getRd ins), hex 0 (uImm ins)], none⟩
    | 0b0010111#7 => some ⟨"auipc", [reg (getRd ins), hex 0 (uImm ins)], none⟩
    | 0b1100111#7 => some ⟨"jalr", [reg (getRd ins), reg (getRs1 ins), decimal (iImm ins)], none⟩
    | 0b0101111#7 => some (disasmAtomic ins)
    | 0b1110011#7 => some (disasmSystem ins)
    | 0b0001111#7 => some (disasmFence ins)
    | _ => some (unknownLine ins)

/-- the text in disasm_buf -/
def disasm : Option String := (disasmLine pc ins).map Line.text

end

/-! ## The law -/

section
variable (ins : Word)

/-- the word is described, and called unknown where no instruction has it -/
structure DisasmTotal (pc ins : Word) : Prop where
  describes : ∃ text, disasm pc ins = some text
  unknown : (mnemonic ins).isSome = false → ∃ l, disasmLine pc ins = some l ∧ l.isUnknown

/-- FP-OP with a funct3 past the end of its table: fsgnj has three names, fmin two, feq three -/
def tableOverrun : Prop :=
  getOpcode ins = 0b1010011 ∧
    (getFunct5 ins = 4 ∧ 3 ≤ (getFunct3 ins).toNat ∨ getFunct5 ins = 5 ∧ 2 ≤ (getFunct3 ins).toNat ∨
      getFunct5 ins = 20 ∧ 3 ≤ (getFunct3 ins).toNat)

instance : Decidable (tableOverrun ins) := by unfold tableOverrun; infer_instance

/-- the FP-OP words no instruction has that are printed as one: a second operand of an operation with one, an integer
kind past lu, a source format that is none or the format itself, and a move between registers of q -/
def fpopPrintedAnyway : Prop :=
  let rs2 := getRs2 ins
  match getFunct5 ins with
  | 11#5 => rs2 ≠ 0
  | 24#5 => 4 ≤ rs2
  | 26#5 => 4 ≤ rs2
  | 8#5 => 4 ≤ rs2 ∨ rs2.setWidth 2 = getFmt ins
  | 28#5 => getFunct3 ins = 0 ∧ (rs2 ≠ 0 ∨ getFmt ins = 3) ∨ getFunct3 ins = 1 ∧ rs2 ≠ 0
  | 30#5 => rs2 ≠ 0 ∨ getFunct3 ins ≠ 0 ∨ getFmt ins = 3
  | _ => False

/-- the words no instruction has that are printed as one: disasm does not look at funct3 of jalr, funct7 of slli and rs2
of lr.w, and takes funct12 for funct7 at sfence.vma -/
def printedAnyway : Prop :=
  match getOpcode ins with
  | 0b1100111#7 => getFunct3 ins ≠ 0
  | 0b0010011#7 => getFunct3 ins = 1 ∧ getFunct7 ins ≠ 0
  | 0b0101111#7 => getFunct3 ins = 2 ∧ getFunct5 ins = 2 ∧ getRs2 ins ≠ 0
  | 0b1110011#7 => getFunct3 ins = 0 ∧ getImm12 ins = 0x009
  | 0b1010011#7 => fpopPrintedAnyway ins
  | _ => False

end

/-! ## Words no instruction has -/

section
variable {ins : Word}

theorem disasmFLoad_unknown (hop : getOpcode ins = 0b0000111) (h : (mnemonic ins).isSome = false) :
    (disasmFLoad ins).isUnknown := by
  have hrows : rows (getOpcode ins) ++ rows64 (getOpcode ins) = fpLoadRows := by rw [hop]; rfl
  rw [unnamed_iff hrows, fpLoadRows_iff] at h
  unfold disasmFLoad
  rcases bits3_cases (getFunct3 ins) with h3 | h3 | h3 | h3 | h3 | h3 | h3 | h3 <;>
    simp [h3] at h <;> simp [h3, unknownLine_isUnknown]

theorem disasmFStore_unknown (hop : getOpcode ins = 0b0100111) (h : (mnemonic ins).isSome = false) :
    (disasmFStore ins).isUnknown := by
  have hrows : rows (getOpcode ins) ++ rows64 (getOpcode ins) = fpStoreRows := by rw [hop]; rfl
  rw [unnamed_iff hrows, fpStoreRows_iff] at h
  unfold disasmFStore
  rcases bits3_cases (getFunct3 ins) with h3 | h3 | h3 | h3 | h3 | h3 | h3 | h3 <;>
    simp [h3] at h <;> simp [h3, unknownLine_isUnknown]

theorem disasmLoad_unknown (hop : getOpcode ins = 0b0000011) (h : (mnemonic ins).isSome = false) :
    (disasmLoad ins).isUnknown := by
  have hrows : rows (getOpcode ins) ++ rows64 (getOpcode ins) = loadRows := by rw [hop]; rfl
  rw [unnamed_iff hrows, loadRows_iff] at h
  unfold disasmLoad
  rcases bits3_cases (getFunct3 ins) with h3 | h3 | h3 | h3 | h3 | h3 | h3 | h3 <;>
    simp [h3] at h <;> simp [h3, unknownLine_isUnknown]

theorem disasmStore_unknown (hop : getOpcode ins = 0b0100011) (h : (mnemonic ins).isSome = false) :
    (disasmStore ins).isUnknown := by
  have hrows : rows (getOpcode ins) ++ rows64 (getOpcode ins) = storeRows := by rw [hop]; rfl
  rw [unnamed_iff hrows, storeRows_iff] at h
  unfold disasmStore
  rcases bits3_cases (getFunct3 ins) with h3 | h3 | h3 | h3 | h3 | h3 | h3 | h3 <;>
    simp [h3] at h <;> simp [h3, unknownLine_isUnknown]

theorem disasmBranch_unknown (pc : Word) (hop : getOpcode ins = 0b1100011) (h : (mnemonic ins).isSome = false) :
    (disasmBranch pc ins).isUnknown := by
  have hrows : rows (getOpcode ins) ++ rows64 (getOpcode ins) = branchRows := by rw [hop]; rfl
  rw [unnamed_iff hrows, branchRows_iff] at h
  unfold disasmBranch
  rcases bits3_cases (getFunct3 ins) with h3 | h3 | h3 | h3 | h3 | h3 | h3 | h3 <;>
    simp [h3] at h <;> simp [h3, unknownLine_isUnknown]

theorem disasmFence_unknown (hop : getOpcode ins = 0b0001111) (h : (mnemonic ins).isSome = false) :
    (disasmFence ins).isUnknown := by
  have hrows : rows (getOpcode ins) ++ rows64 (getOpcode ins) = miscMemRows := by rw [hop]; rfl
  rw [unnamed_iff hrows, miscMemRows_iff] at h
  unfold disasmFence
  rcases bits3_cases (getFunct3 ins) with h3 | h3 | h3 | h3 | h3 | h3 | h3 | h3 <;>
    simp [h3] at h <;> simp [h3, unknownLine_isUnknown]

/-- slli is printed with every funct7 -/
theorem disasmI_unknown (hop : getOpcode ins = 0b0010011) (h : (mnemonic ins).isSome = false)
    (hslli : ¬ (getFunct3 ins = 1 ∧ getFunct7 ins ≠ 0)) : (disasmI ins).isUnknown := by
  have hrows : rows (getOpcode ins) ++ rows64 (getOpcode ins) = opImmRows := by rw [hop]; rfl
  rw [unnamed_iff hrows, opImmRows_iff] at h
  unfold disasmI
  rcases bits3_cases (getFunct3 ins) with h3 | h3 | h3 | h3 | h3 | h3 | h3 | h3 <;>
    simp [h3] at h hslli <;> simp [h3, h, unknownLine_isUnknown]
  exact absurd hslli h

theorem disasmR_unknown (hop : getOpcode ins = 0b0110011) (h : (mnemonic ins).isSome = false) :
    (disasmR ins).isUnknown := by
  have hrows : rows (getOpcode ins) ++ rows64 (getOpcode ins) = opRows := by rw [hop]; rfl
  rw [unnamed_iff hrows, opRows_iff] at h
  unfold disasmR
  rcases bits3_cases (getFunct3 ins) with h3 | h3 | h3 | h3 | h3 | h3 | h3 | h3 <;>
    simp [h3] at h <;> simp [h3, h, unknownLine_isUnknown]

/-- lr.w is printed with every rs2 -/
theorem disasmAtomic_unknown (hop : getOpcode ins = 0b0101111) (h : (mnemonic ins).isSome = false)
    (hlr : ¬ (getFunct3 ins = 2 ∧ getFunct5 ins = 2 ∧ getRs2 ins ≠ 0)) : (disasmAtomic ins).isUnknown := by
  have hu := unknownLine_isUnknown ins
  have hrows : rows (getOpcode ins) ++ rows64 (getOpcode ins) = amoRows := by rw [hop]; rfl
  rw [unnamed_iff hrows, amoRows_iff] at h
  unfold disasmAtomic
  split_ifs with h3
  · change getFunct3 ins = 2#3 at h3
    rw [getFunct5] at hlr ⊢
    simp only
    split
    case h_12 => exact hu
    all_goals
      rename_i h5
      simp [h3, h5] at h hlr
    exact absurd hlr h
  · exact hu

theorem disasmPrivileged_unknown (h : ¬ (getRd ins = 0#5 ∧ (getFunct7 ins = 0b0001001#7 ∨
    getRs1 ins = 0#5 ∧ getImm12 ins ∈ [0x000#12, 0x001, 0x102, 0x302, 0x702, 0x104, 0x105])))
    (hsfence : getImm12 ins ≠ 0x009) : (disasmPrivileged ins).isUnknown := by
  have hu := unknownLine_isUnknown ins
  unfold disasmPrivileged
  simp only
  rw [if_neg hsfence]
  split_ifs with hz
  · rw [hz.1, hz.2] at h
    split <;> first | exact hu | simp_all
  · exact hu

/-- 0x009, the funct7 of sfence.vma, is printed as sfence.vma where it is all of the immediate -/
theorem disasmSystem_unknown (hop : getOpcode ins = 0b1110011) (h : (mnemonic ins).isSome = false)
    (hsfence : ¬ (getFunct3 ins = 0 ∧ getImm12 ins = 0x009)) : (disasmSystem ins).isUnknown := by
  have hrows : rows (getOpcode ins) ++ rows64 (getOpcode ins) = systemRows := by rw [hop]; rfl
  rw [unnamed_iff hrows, systemRows_iff] at h
  unfold disasmSystem
  by_cases h3 : getFunct3 ins = 0#3
  · rw [h3]
    refine disasmPrivileged_unknown ?_ fun hx => hsfence ⟨h3, hx⟩
    simpa [h3] using h
  · rcases bits3_cases (getFunct3 ins) with h' | h' | h' | h' | h' | h' | h' | h' <;> simp [h'] at h h3
    simp [h', unknownLine_isUnknown]

theorem disasmFpop_unknown {l : Line} (hop : getOpcode ins = 0b1010011) (h : (mnemonic ins).isSome = false)
    (hp : ¬ fpopPrintedAnyway ins) (hl : disasmFpop ins = some l) : l.isUnknown := by
  have hrows : rows (getOpcode ins) ++ rows64 (getOpcode ins) = fpRows ++ fpRows64 := by rw [hop]; rfl
  rw [unnamed_iff hrows, fpRows_iff] at h
  unfold fpopPrintedAnyway at hp
  unfold disasmFpop at hl
  simp only [getFunct5, getFmt] at hp hl
  split at hl
  case h_14 => exact Option.some.inj hl ▸ unknownLine_isUnknown ins
  all_goals
    rename_i h5
    simp only [h5] at h hp
  case h_5 | h_8 =>
    rw [List.getElem?_eq_none (show 3 ≤ (getFunct3 ins).toNat from Nat.not_lt.1 h)] at hl
    cases hl
  case h_6 =>
    rw [List.getElem?_eq_none (show 2 ≤ (getFunct3 ins).toNat from Nat.not_lt.1 h)] at hl
    cases hl
  case h_9 =>
    have h0 : ¬ getFunct3 ins = 0#3 := by tauto
    have h1 : ¬ getFunct3 ins = 1#3 := by tauto
    have hnat : ¬ (getFunct3 ins).toNat = 0 ∧ ¬ (getFunct3 ins).toNat = 1 := by
      bv_omega
    rw [if_neg hnat.1, if_neg hnat.2] at hl
    exact Option.some.inj hl ▸ unknownLine_isUnknown ins
  case h_11 | h_12 => exact absurd (BitVec.not_lt.1 h) hp
  case h_13 =>
    rw [← BitVec.not_le] at h
    tauto
  all_goals tauto

/-- **A word no instruction has is called unknown**, if it is described, or is printed anyway. -/
theorem disasmLine_unknown {pc : Word} {l : Line} (h : (mnemonic ins).isSome = false) (hp : ¬ printedAnyway ins)
    (hl : disasmLine pc ins = some l) : l.isUnknown := by
  have hjump : ∀ name : String, rows (getOpcode ins) ++ rows64 (getOpcode ins) = [{ name := name }] → l.isUnknown := by
    intro name hrows
    rw [unnamed_iff hrows] at h
    simp [covers_iff] at h
  have hfma : ∀ name : String, rows (getOpcode ins) ++ rows64 (getOpcode ins) = [{ name := name, rounds := true }] →
      l.isUnknown := by
    intro name hrows
    rw [unnamed_iff hrows] at h
    simp [covers_iff] at h
  unfold printedAnyway at hp
  unfold disasmLine at hl
  split_ifs at hl
  · obtain rfl := Option.some.inj hl
    exact .inr rfl
  split at hl
  case h_7 hop =>
    rw [hop] at hp
    exact disasmFpop_unknown hop h hp hl
  all_goals obtain rfl := Option.some.inj hl
  case h_1 hop => exact disasmFLoad_unknown hop h
  case h_2 hop => exact disasmFStore_unknown hop h
  case h_3 hop => exact hfma "fmadd" (by rw [hop]; rfl)
  case h_4 hop => exact hfma "fmsub" (by rw [hop]; rfl)
  case h_5 hop => exact hfma "fnmsub" (by rw [hop]; rfl)
  case h_6 hop => exact hfma "fnmadd" (by rw [hop]; rfl)
  case h_8 hop => exact disasmR_unknown hop h
  case h_9 hop =>
    rw [hop] at hp
    exact disasmI_unknown hop h hp
  case h_10 hop => exact disasmLoad_unknown hop h
  case h_11 hop => exact disasmStore_unknown hop h
  case h_12 hop => exact disasmBranch_unknown pc hop h
  case h_13 hop => exact hjump "jal" (by rw [hop]; rfl)
  case h_14 hop => exact hjump "lui" (by rw [hop]; rfl)
  case h_15 hop => exact hjump "auipc" (by rw [hop]; rfl)
  case h_16 hop =>
    have hrows : rows (getOpcode ins) ++ rows64 (getOpcode ins) = [{ name := "jalr", funct3 := some 0 }] := by
      rw [hop]
      rfl
    rw [unnamed_iff hrows] at h
    rw [hop] at hp
    simp [covers_iff] at h
    exact absurd h hp
  case h_17 hop =>
    rw [hop] at hp
    exact disasmAtomic_unknown hop h hp
  case h_18 hop =>
    rw [hop] at hp
    exact disasmSystem_unknown hop h hp
  case h_19 hop => exact disasmFence_unknown hop h
  case h_20 => exact unknownLine_isUnknown ins

/-! ## Words printed anyway -/

theorem disasmFpop_printed (hp : fpopPrintedAnyway ins) : ∃ l, disasmFpop ins = some l ∧ ¬ l.isUnknown := by
  unfold fpopPrintedAnyway at hp
  unfold disasmFpop
  simp only at hp ⊢
  split at hp
  case h_7 => exact hp.elim
  all_goals
    rename_i h5
    rw [h5]
  case h_5 =>
    rcases hp with ⟨h3, -⟩ | ⟨h3, -⟩ <;> rw [h3]
    · exact ⟨_, rfl, not_isUnknown rfl ⟨by simp, by simp⟩⟩
    · exact ⟨_, rfl, not_isUnknown rfl ⟨by simp, by simp⟩⟩
  all_goals exact ⟨_, rfl, not_isUnknown rfl ⟨by simp, by simp⟩⟩

theorem disasmSystem_printed (h3 : getFunct3 ins = 0) (himm : getImm12 ins = 0x009) :
    (disasmSystem ins).mnemonic = "sfence.vma" := by
  unfold disasmSystem
  simp only [h3, disasmPrivileged, himm, if_true]
  split_ifs <;> rfl

theorem disasmLine_printed (pc : Word) (hp : printedAnyway ins) : ∃ l, disasmLine pc ins = some l ∧ ¬ l.isUnknown := by
  unfold printedAnyway at hp
  split at hp
  case h_6 => exact hp.elim
  all_goals
    rename_i hop
    have hlow : ins.extractLsb' 0 2 = 3 := by
      rw [← getOpcode_low, hop]
      rfl
    rw [disasmLine, if_neg (not_not.2 hlow), hop]
  case h_1 => exact ⟨_, rfl, not_isUnknown (m := "jalr") rfl (by decide)⟩
  case h_2 =>
    refine ⟨_, rfl, not_isUnknown (m := "slli") ?_ (by decide)⟩
    rw [disasmI, hp.1]
    rfl
  case h_3 =>
    refine ⟨_, rfl, not_isUnknown (m := "lr.w") ?_ (by decide)⟩
    rw [disasmAtomic, hp.1, hp.2.1]
    rfl
  case h_4 => exact ⟨_, rfl, not_isUnknown (disasmSystem_printed hp.1 hp.2) (by decide)⟩
  case h_5 => exact disasmFpop_printed hp

theorem unnamed_of_printedAnyway (hp : printedAnyway ins) : (mnemonic ins).isSome = false := by
  unfold printedAnyway at hp
  split at hp
  case h_6 => exact hp.elim
  case h_5 hop =>
    have hrows : rows (getOpcode ins) ++ rows64 (getOpcode ins) = fpRows ++ fpRows64 := by rw [hop]; rfl
    rw [unnamed_iff hrows, fpRows_iff]
    unfold fpopPrintedAnyway at hp
    simp only [getFunct5, getFmt] at hp
    split at hp
    case h_7 => exact hp.elim
    all_goals
      rename_i h5
      simp only [h5]
    case h_2 | h_3 => exact BitVec.not_lt.2 hp
    case h_4 =>
      rw [← BitVec.not_le]
      tauto
    case h_5 => rcases hp with ⟨h3, hx⟩ | ⟨h3, hx⟩ <;> rw [h3] <;> simpa [imp_iff_not_or] using hx
    all_goals tauto
  case h_1 hop =>
    have hrows : rows (getOpcode ins) ++ rows64 (getOpcode ins) = [{ name := "jalr", funct3 := some 0 }] := by
      rw [hop]
      rfl
    rw [unnamed_iff hrows]
    simpa [covers_iff] using hp
  case h_2 hop =>
    have hrows : rows (getOpcode ins) ++ rows64 (getOpcode ins) = opImmRows := by rw [hop]; rfl
    rw [unnamed_iff hrows, opImmRows_iff]
    exact fun h => hp.2 (h.1 hp.1)
  case h_3 hop =>
    have hrows : rows (getOpcode ins) ++ rows64 (getOpcode ins) = amoRows := by rw [hop]; rfl
    obtain ⟨h3, h5, hrs2⟩ := hp
    change ins.extractLsb' 27 5 = 2 at h5
    rw [unnamed_iff hrows, amoRows_iff, h5]
    simpa using fun _ => hrs2
  case h_4 hop =>
    have hrows : rows (getOpcode ins) ++ rows64 (getOpcode ins) = systemRows := by rw [hop]; rfl
    obtain ⟨h3, himm⟩ := hp
    have h7 : getFunct7 ins ≠ 0b0001001 := by
      have happend : getFunct7 ins ++ getRs2 ins = 0b0000000#7 ++ 0b01001#5 := (getImm12_eq_append ins).symm.trans himm
      rw [(Bits.append_inj.1 happend).1]
      decide
    rw [unnamed_iff hrows, systemRows_iff, himm, h3]
    simpa using fun _ => h7

/-! ## Reads past a table -/

theorem disasmFpop_none_iff : disasmFpop ins = none ↔
    getFunct5 ins = 4 ∧ 3 ≤ (getFunct3 ins).toNat ∨ getFunct5 ins = 5 ∧ 2 ≤ (getFunct3 ins).toNat ∨
      getFunct5 ins = 20 ∧ 3 ≤ (getFunct3 ins).toNat := by
  unfold disasmFpop
  simp only
  split
  case h_6 hop => simp [hop, Nat.lt_iff_add_one_le]
  case h_9 => split_ifs <;> simp_all
  all_goals simp_all

theorem disasmLine_fpop {pc : Word} (h : getOpcode ins = 0b1010011) : disasmLine pc ins = disasmFpop ins := by
  have h3 : ins.extractLsb' 0 2 = 3 := by
    rw [← getOpcode_low, h]
    rfl
  rw [disasmLine, h3, h]
  rfl

theorem disasmLine_none_iff (pc : Word) : disasmLine pc ins = none ↔ tableOverrun ins := by
  unfold tableOverrun
  by_cases hop : getOpcode ins = 0b1010011
  · rw [disasmLine_fpop hop, disasmFpop_none_iff]
    exact (and_iff_right hop).symm
  · refine ⟨?_, fun h => absurd h.1 hop⟩
    intro h
    unfold disasmLine at h
    split_ifs at h
    split at h <;> first | cases h | contradiction

/-- **disasm is total exactly where no field runs past its table** and no word without an instruction is printed. -/
theorem disasm_total_iff (pc ins : Word) : DisasmTotal pc ins ↔ ¬ tableOverrun ins ∧ ¬ printedAnyway ins := by
  rw [← disasmLine_none_iff pc]
  refine ⟨?_, ?_⟩
  · intro h
    obtain ⟨text, ht⟩ := h.describes
    refine ⟨fun hnone => ?_, fun hp => ?_⟩
    · rw [disasm, hnone] at ht
      cases ht
    · obtain ⟨l, hl, hu⟩ := h.unknown (unnamed_of_printedAnyway hp)
      obtain ⟨l', hl', hnot⟩ := disasmLine_printed pc hp
      obtain rfl := Option.some.inj (hl.symm.trans hl')
      exact hnot hu
  · intro h
    obtain ⟨l, hl⟩ := Option.ne_none_iff_exists'.1 h.1
    refine ⟨⟨l.text, ?_⟩, fun hu => ⟨l, hl, disasmLine_unknown hu h.2 hl⟩⟩
    rw [disasm, hl, Option.map_some]

/-- fsgnj.s with funct3 = 3, of f0 -/
theorem fsgnj_reserved_overruns : ¬ DisasmTotal 0 0x20003053 := by
  intro h
  obtain ⟨text, ht⟩ := h.describes
  have hnone : disasm 0 0x20003053 = none := by decide
  exact Option.some_ne_none text (ht.symm.trans hnone)

end

end RiscvEmu
