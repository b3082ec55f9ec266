/-
The disassembler against the decoder.

disasm.c and exec.c decode the same words twice. `Insn.line` writes down what a leaf of exec's switch does: its operation
and format, its registers, its immediate or target. A word exec can run has to be printed so, and a word it can only
refuse has to be printed as unknown. Results:
- `disasmLoad_agrees`, `disasmR_agrees_iff`, `disasmFpop_agrees_iff`, ..: the opcodes, one by one;
- `never_executes`, `executes_somewhere`: the words exec refuses in every state, and the rest;
- `disassembles_iff`: the law, exactly outside the words `misnamed` lists;
- `disasm_misnames_fcmp`: one of them, feq.s printed for fle.s.
-/
import RiscvEmu.Access
import RiscvEmu.Disasm
import RiscvEmu.GuestSafety

namespace RiscvEmu

/-! ## What exec runs -/

def ROp.mnemonic : ROp → String
  | .add => "add"
  | .sub => "sub"
  | .xor => "xor"
  | .or => "or"
  | .and => "and"
  | .sll => "sll"
  | .srl => "srl"
  | .sra => "sra"
  | .slt => "slt"
  | .sltu => "sltu"
  | .mul => "mul"
  | .mulh => "mulh"
  | .mulsu => "mulsu"
  | .mulu => "mulu"
  | .div => "div"
  | .divu => "divu"
  | .rem => "rem"
  | .remu => "remu"
  | .czeroEqz => "czero_eqz"
  | .czeroNez => "czero_nez"

def IOp.mnemonic : IOp → String
  | .addi => "addi"
  | .xori => "xori"
  | .ori => "ori"
  | .andi => "andi"
  | .slli => "slli"
  | .srli => "srli"
  | .srai => "srai"
  | .slti => "slti"
  | .sltiu => "sltiu"

def LoadOp.mnemonic : LoadOp → String
  | .lb => "lb"
  | .lh => "lh"
  | .lw => "lw"
  | .lbu => "lbu"
  | .lhu => "lhu"

def StoreOp.mnemonic : StoreOp → String
  | .sb => "sb"
  | .sh => "sh"
  | .sw => "sw"

def BranchOp.mnemonic : BranchOp → String
  | .beq => "beq"
  | .bne => "bne"
  | .blt => "blt"
  | .bge => "bge"
  | .bltu => "bltu"
  | .bgeu => "bgeu"

def AmoOp.mnemonic : AmoOp → String
  | .amoswap => "amoswap.w"
  | .amoadd => "amoadd.w"
  | .amoand => "amoand.w"
  | .amoor => "amoor.w"
  | .amoxor => "amoxor.w"
  | .amomax => "amomax.w"
  | .amomin => "amomin.w"
  | .amomaxu => "amomax_u.w"
  | .amominu => "amomin_u.w"

def CsrOp.mnemonic : CsrOp → String
  | .rw => "csrrw"
  | .rs => "csrrs"
  | .rc => "csrrc"
  | .rwi => "csrrwi"
  | .rsi => "csrrsi"
  | .rci => "csrrci"

/-- the rs1 field is an immediate -/
def CsrOp.immediate : CsrOp → Bool
  | .rw | .rs | .rc => false
  | .rwi | .rsi | .rci => true

def FLoadOp.mnemonic : FLoadOp → String
  | .flh => "flh"
  | .flw => "flw"
  | .fld => "fld"
  | .flq => "flq"

def FStoreOp.mnemonic : FStoreOp → String
  | .fsh => "fsh"
  | .fsw => "fsw"
  | .fsd => "fsd"
  | .fsq => "fsq"

def Fmt.suffix : Fmt → String
  | .S => "s"
  | .D => "d"
  | .H => "h"
  | .Q => "q"

/-- the product is negated by bit 1, the addend by bit 0 -/
def fmaMnemonic : BitVec 2 → String
  | 0#2 => "fmadd"
  | 1#2 => "fmsub"
  | 2#2 => "fnmsub"
  | _ => "fnmadd"

/-- the integer format of a conversion to an integer; a kind past the four saturates as no format does -/
def toIntKind (kind : BitVec 5) : Option String :=
  if kind = 0 then some "w"
  else if kind = 1 then some "wu"
  else if kind = 2 then some "l"
  else if kind = 3 then some "lu"
  else none

/-- the integer format of a conversion from an integer -/
def ofIntKind (kind : BitVec 5) : String :=
  if kind = 0 then "w"
  else if kind = 1 then "wu"
  else if kind = 2 then "l"
  else "lu"

/-- the operation insf_r_fpop runs, with its formats; a comparison past the three writes 0 and has no name -/
def fpopMnemonic (op : BitVec 5) (fmt : Fmt) (f3 : BitVec 3) (rs2 : Reg) : Option String :=
  match op with
  | 0#5 => some ("fadd." ++ fmt.suffix)
  | 1#5 => some ("fsub." ++ fmt.suffix)
  | 2#5 => some ("fmul." ++ fmt.suffix)
  | 3#5 => some ("fdiv." ++ fmt.suffix)
  | 4#5 => some ((if f3 = 0 then "fsgnj" else if f3 = 1 then "fsgnjn" else "fsgnjx") ++ "." ++ fmt.suffix)
  | 5#5 => some ((if f3 = 0 then "fmin" else "fmax") ++ "." ++ fmt.suffix)
  | 11#5 => some ("fsqrt." ++ fmt.suffix)
  | 20#5 =>
    if f3 = 2 then some ("feq" ++ "." ++ fmt.suffix)
    else if f3 = 1 then some ("flt" ++ "." ++ fmt.suffix)
    else if f3 = 0 then some ("fle" ++ "." ++ fmt.suffix)
    else none
  | 28#5 => if f3 = 0 then some ("fmv.x." ++ fmt.suffix) else some ("fclass." ++ fmt.suffix)
  | 30#5 => some ("fmv." ++ fmt.suffix ++ ".x")
  | 24#5 => (toIntKind rs2).map fun kind => "fcvt." ++ kind ++ "." ++ fmt.suffix
  | 26#5 => some ("fcvt." ++ fmt.suffix ++ "." ++ ofIntKind rs2)
  | 8#5 => (Fmt.ofSource rs2).map fun sfmt => "fcvt." ++ fmt.suffix ++ "." ++ sfmt.suffix
  | _ => none

/-- the operands of FP-OP: in the order of the text, general registers where the operation reads or writes one -/
def fpopArguments (op : BitVec 5) (rs2 rs1 rd : Reg) : List String :=
  match op with
  | 11#5 => [freg rd, freg rs1]
  | 20#5 => [reg rd, freg rs1, freg rs2]
  | 28#5 => [reg rd, freg rs1]
  | 30#5 => [freg rd, reg rs1]
  | 24#5 => [reg rd, freg rs1]
  | 26#5 => [freg rd, reg rs1]
  | 8#5 => [freg rd, freg rs1]
  | _ => [freg rd, freg rs1, freg rs2]

section
variable (pc ins : Word)

/-- what an FP instruction does -/
def FpInsn.line : FpInsn → Option Line
  | .load op imm rs1 rd => some ⟨op.mnemonic, [freg rd, address imm rs1], none⟩
  | .store op imm rs1 rs2 => some ⟨op.mnemonic, [freg rs2, address imm rs1], none⟩
  | .fma subop => some ⟨fmaMnemonic subop ++ "." ++ (Fmt.ofField (getFmt ins)).suffix,
      [freg (getRd ins), freg (getRs1 ins), freg (getRs2 ins), freg (getFunct5 ins)], none⟩
  | .fpop => (fpopMnemonic (getFunct5 ins) (Fmt.ofField (getFmt ins)) (getFunct3 ins) (getRs2 ins)).map fun m =>
      ⟨m, fpopArguments (getFunct5 ins) (getRs2 ins) (getRs1 ins) (getRd ins), none⟩
  | .fatal _ => none

/-- what a leaf of exec's switch does, at pc; the rounding mode is left out -/
def Insn.line : Insn → Option Line
  | .alu op rs2 rs1 rd => some ⟨op.mnemonic, [reg rd, reg rs1, reg rs2], none⟩
  | .aluImm op imm rs1 rd => some ⟨op.mnemonic, [reg rd, reg rs1, decimal imm], none⟩
  | .load op imm rs1 rd => some ⟨op.mnemonic, [reg rd, address imm rs1], none⟩
  | .store op imm rs2 rs1 => some ⟨op.mnemonic, [reg rs2, address imm rs1], none⟩
  | .fp i => i.line ins
  | .atomic (.amo o) rs1 rs2 rd => some ⟨o.mnemonic, [reg rd, reg rs2, "(" ++ reg rs1 ++ ")"], none⟩
  | .atomic .lr rs1 _ rd => some ⟨"lr.w", [reg rd, "(" ++ reg rs1 ++ ")"], none⟩
  | .atomic .sc rs1 rs2 rd => some ⟨"sc.w", [reg rd, reg rs2, "(" ++ reg rs1 ++ ")"], none⟩
  | .branch op imm rs2 rs1 => some ⟨op.mnemonic, [reg rs1, reg rs2, hex 0 (pc + imm)], none⟩
  | .jal imm rd => some ⟨"jal", [reg rd, hex 0 (pc + imm)], none⟩
  | .lui imm rd => some ⟨"lui", [reg rd, hex 0 imm], none⟩
  | .auipc imm rd => some ⟨"auipc", [reg rd, hex 0 imm], none⟩
  | .jalr imm rs1 rd => some ⟨"jalr", [reg rd, reg rs1, decimal imm], none⟩
  | .ecall => some ⟨"ecall", [], none⟩
  | .ebreak => some ⟨"ebreak", [], none⟩
  | .sret => some ⟨"sret", [], none⟩
  | .mret => some ⟨"mret", [], none⟩
  | .mnret => some ⟨"mnret", [], none⟩
  | .sctrclr => some ⟨"sctrclr", [], none⟩
  | .wfi => some ⟨"wfi", [], none⟩
  | .sfenceVma => some ⟨"sfence.vma", [reg (getRs1 ins), reg (getRs2 ins)], none⟩
  | .zicsr op rs1 rd csr => some ⟨op.mnemonic,
      [reg rd, if op.immediate then decimal (rs1.setWidth 32) else reg rs1, hex 3 (csr.setWidth 32)], none⟩
  | .fence => some ⟨"fence", [], none⟩
  | .fenceI => some ⟨"fence.i", [], none⟩
  | .illegal => none
  | .fatal _ => none

end

/-! ## The law -/

/-- l prints the operation and operands of a -/
def Line.names (l a : Line) : Prop := l.mnemonic = a.mnemonic ∧ l.operands = a.operands

/-- exec runs the word, without fatal() and without an illegal-instruction trap -/
def executes [SoftFloat] (s : Machine) (ins : Word) (s' : Machine) : Prop :=
  fetchAligned s = true ∧ exec s ins = .ok s' ∧ ¬ raisesIllegal s s'

/-- the text names what exec runs, and is unknown for a word exec runs in no state -/
structure Disassembles [SoftFloat] (ins : Word) : Prop where
  names : ∀ s s', executes s ins s' →
    ∃ a l, (decode ins).line s.pc ins = some a ∧ disasmLine s.pc ins = some l ∧ l.names a ∧ ¬ l.isUnknown
  unknown : (∀ s s', ¬ executes s ins s') → ∀ pc, ∃ l, disasmLine pc ins = some l ∧ l.isUnknown

section
variable (ins : Word)

/-- the FP-OP words misprinted: format q everywhere; past the three names of fsgnj and the two of fmin; feq and fle, which
change places, and what is past them; integer formats past the four; the conversions from q and the unsupported ones; and
fmv from a general register with funct3 or rs2 set -/
def fpopMisnamed : Prop :=
  let quad := getFmt ins = 3
  let funct3 := (getFunct3 ins).toNat
  let rs2 := getRs2 ins
  match getFunct5 ins with
  | 4#5 => quad ∨ 3 ≤ funct3
  | 5#5 => quad ∨ 2 ≤ funct3
  | 20#5 => quad ∨ funct3 ≠ 1
  | 28#5 => quad ∧ funct3 < 2
  | 30#5 => quad ∨ funct3 ≠ 0 ∨ rs2 ≠ 0
  | 24#5 => quad ∨ 4 ≤ rs2
  | 26#5 => quad ∨ 4 ≤ rs2 ∧ rs2 &&& 3 ≠ 3
  | 8#5 => quad ∨ 3 ≤ rs2 ∨ rs2.setWidth 2 = getFmt ins
  | op => quad ∧ op ∈ [0#5, 1#5, 2#5, 3#5, 11#5]

/-- SYSTEM with funct3 = 0: every sfence.vma, and the encoding disasm takes for it -/
def privilegedMisnamed : Prop :=
  getFunct7 ins = 0b0001001 ∧ getRd ins = 0 ∨ getImm12 ins = 0x009

/-- the words disasm prints wrong -/
def misnamed : Prop :=
  match getOpcode ins with
  | 0b1010011#7 => fpopMisnamed ins
  | 0b0110011#7 => getFunct7 ins = 0b0000111 ∧ (getFunct3 ins = 5 ∨ getFunct3 ins = 7)
  | 0b0010011#7 => getFunct3 ins = 1 ∧ getFunct7 ins ≠ 0
  | 0b1110011#7 =>
    if getFunct3 ins = 0 then privilegedMisnamed ins
    else getFunct3 ins ≠ 4 ∧ (csrTable (getImm12 ins)).valid = false
  | op => getFmt ins = 3 ∧ op ∈ [0b1000011#7, 0b1000111#7, 0b1001011#7, 0b1001111#7]

end

/-! ## The opcodes, one by one -/

/-- exec has an instruction for the leaf in some state -/
def Insn.runnable (ins : Word) : Insn → Bool
  | .zicsr _ _ _ csr => (csrTable csr).valid
  | i => !i.undefined ins

/-- l is what the law wants of the leaf -/
def PrintsLeaf (pc ins : Word) (l : Line) (i : Insn) : Prop :=
  if i.runnable ins then ∃ a, i.line pc ins = some a ∧ l.names a else l.isUnknown

section
variable {pc ins : Word} {l : Line} {i : Insn}

theorem printsLeaf_runnable_iff {a : Line} (hr : i.runnable ins = true) (ha : i.line pc ins = some a) :
    PrintsLeaf pc ins l i ↔ l.names a := by
  rw [PrintsLeaf, if_pos hr, ha]
  simp only [Option.some.injEq, exists_eq_left']

theorem printsLeaf_refused_iff (hr : i.runnable ins = false) : PrintsLeaf pc ins l i ↔ l.isUnknown := by
  rw [PrintsLeaf, hr, if_neg Bool.false_ne_true]

theorem printsLeaf_named {a : Line} (hr : i.runnable ins = true) (ha : i.line pc ins = some a) (hl : l.names a) :
    PrintsLeaf pc ins l i :=
  (printsLeaf_runnable_iff hr ha).2 hl

theorem printsLeaf_unknown (hr : i.runnable ins = false) : PrintsLeaf pc ins (unknownLine ins) i :=
  (printsLeaf_refused_iff hr).2 (unknownLine_isUnknown ins)

/-- a mnemonic, and not one of the two texts for what has none -/
def isName (m : String) : Prop := ¬ (m = "unknown" ∨ m = "c.<unknown>")

instance (m : String) : Decidable (isName m) := by unfold isName; infer_instance

theorem fpopMnemonic_isName {op : BitVec 5} {fmt : Fmt} {f3 : BitVec 3} {rs2 : Reg} {m : String}
    (h : fpopMnemonic op fmt f3 rs2 = some m) : isName m := by
  unfold fpopMnemonic at h
  split at h
  case h_11 =>
    obtain ⟨kind, hk, rfl⟩ := Option.map_eq_some_iff.1 h
    unfold toIntKind at hk
    split_ifs at hk <;> obtain rfl := Option.some.inj hk <;> cases fmt <;> decide
  case h_12 =>
    obtain rfl := Option.some.inj h
    unfold ofIntKind
    split_ifs <;> cases fmt <;> decide
  case h_13 =>
    obtain ⟨sfmt, -, rfl⟩ := Option.map_eq_some_iff.1 h
    cases fmt <;> cases sfmt <;> decide
  case h_14 => cases h
  case h_5 | h_6 | h_8 | h_9 => split_ifs at h <;> obtain rfl := Option.some.inj h <;> cases fmt <;> decide
  all_goals
    obtain rfl := Option.some.inj h
    cases fmt <;> decide

theorem fmaMnemonic_isName (fmt : Fmt) : ∀ subop : BitVec 2, isName (fmaMnemonic subop ++ "." ++ fmt.suffix) := by
  cases fmt <;> decide

theorem FpInsn.line_isName {i : FpInsn} {a : Line} (h : i.line ins = some a) : isName a.mnemonic := by
  cases i with
  | load op imm rs1 rd => obtain rfl := Option.some.inj h; dsimp only; cases op <;> decide
  | store op imm rs1 rs2 => obtain rfl := Option.some.inj h; dsimp only; cases op <;> decide
  | fma subop => obtain rfl := Option.some.inj h; exact fmaMnemonic_isName _ subop
  | fpop =>
    obtain ⟨m, hm, rfl⟩ := Option.map_eq_some_iff.1 h
    exact fpopMnemonic_isName hm
  | fatal f => cases h

/-- what exec runs has a name -/
theorem Insn.line_isName {a : Line} (h : i.line pc ins = some a) : isName a.mnemonic := by
  cases i with
  | fp i => exact FpInsn.line_isName h
  | alu op rs2 rs1 rd => obtain rfl := Option.some.inj h; dsimp only; cases op <;> decide
  | aluImm op imm rs1 rd => obtain rfl := Option.some.inj h; dsimp only; cases op <;> decide
  | load op imm rs1 rd => obtain rfl := Option.some.inj h; dsimp only; cases op <;> decide
  | store op imm rs2 rs1 => obtain rfl := Option.some.inj h; dsimp only; cases op <;> decide
  | branch op imm rs2 rs1 => obtain rfl := Option.some.inj h; dsimp only; cases op <;> decide
  | zicsr op rs1 rd csr => obtain rfl := Option.some.inj h; dsimp only; cases op <;> decide
  | atomic a rs1 rs2 rd =>
    cases a with
    | amo o => obtain rfl := Option.some.inj h; dsimp only; cases o <;> decide
    | lr => obtain rfl := Option.some.inj h; dsimp only; decide
    | sc => obtain rfl := Option.some.inj h; dsimp only; decide
  | illegal => cases h
  | fatal f => cases h
  | _ => obtain rfl := Option.some.inj h; dsimp only; decide

theorem funct3_cases : ∀ x : BitVec 3, x = 0 ∨ x = 1 ∨ x = 2 ∨ x = 3 ∨ x = 4 ∨ x = 5 ∨ x = 6 ∨ x = 7 := by decide

variable (pc ins)

theorem disasmLoad_agrees : PrintsLeaf pc ins (disasmLoad ins) (decodeLoad ins) := by
  unfold disasmLoad decodeLoad
  rcases funct3_cases (getFunct3 ins) with h | h | h | h | h | h | h | h <;> simp only [h] <;>
    first | exact printsLeaf_named rfl rfl ⟨rfl, rfl⟩ | exact printsLeaf_unknown rfl

theorem disasmStore_agrees : PrintsLeaf pc ins (disasmStore ins) (decodeStore ins) := by
  unfold disasmStore decodeStore
  rcases funct3_cases (getFunct3 ins) with h | h | h | h | h | h | h | h <;> simp only [h] <;>
    first | exact printsLeaf_named rfl rfl ⟨rfl, rfl⟩ | exact printsLeaf_unknown rfl

theorem disasmFLoad_agrees : PrintsLeaf pc ins (disasmFLoad ins) (.fp (decodeFLoad ins)) := by
  unfold disasmFLoad decodeFLoad
  rcases funct3_cases (getFunct3 ins) with h | h | h | h | h | h | h | h <;> simp only [h] <;>
    first | exact printsLeaf_named rfl rfl ⟨rfl, rfl⟩ | exact printsLeaf_unknown rfl

theorem disasmFStore_agrees : PrintsLeaf pc ins (disasmFStore ins) (.fp (decodeFStore ins)) := by
  unfold disasmFStore decodeFStore
  rcases funct3_cases (getFunct3 ins) with h | h | h | h | h | h | h | h <;> simp only [h] <;>
    first | exact printsLeaf_named rfl rfl ⟨rfl, rfl⟩ | exact printsLeaf_unknown rfl

theorem disasmBranch_agrees : PrintsLeaf pc ins (disasmBranch pc ins) (decodeBranch ins) := by
  unfold disasmBranch decodeBranch
  rcases funct3_cases (getFunct3 ins) with h | h | h | h | h | h | h | h <;> simp only [h] <;>
    first | exact printsLeaf_named rfl rfl ⟨rfl, rfl⟩ | exact printsLeaf_unknown rfl

theorem disasmFence_agrees : PrintsLeaf pc ins (disasmFence ins) (decodeFence ins) := by
  unfold disasmFence decodeFence
  rcases funct3_cases (getFunct3 ins) with h | h | h | h | h | h | h | h <;> simp only [h] <;>
    first | exact printsLeaf_named rfl rfl ⟨rfl, rfl⟩ | exact printsLeaf_unknown rfl

theorem disasmAtomic_agrees : PrintsLeaf pc ins (disasmAtomic ins) (decodeAtomic ins) := by
  have h5 : ins.extractLsb' 27 5 = getFunct5 ins := rfl
  unfold disasmAtomic decodeAtomic
  rw [h5]
  by_cases h2 : getFunct3 ins = 0x2
  · simp only [if_pos h2]
    split
    case h_12 =>
      -- the default of both switches; the first split may have reduced the second match already
      try split
      all_goals first | contradiction | exact printsLeaf_unknown rfl
    all_goals
      rename_i hop
      try simp only [hop]
      exact printsLeaf_named rfl rfl ⟨rfl, rfl⟩
  · simp only [if_neg h2]
    exact printsLeaf_unknown rfl

theorem disasmM_eq (x : BitVec 3) : disasmM x = (mOp x).mnemonic := by
  rcases funct3_cases x with rfl | rfl | rfl | rfl | rfl | rfl | rfl | rfl <;> rfl

/-- **The R format**: czero is printed without rs2. -/
theorem disasmR_agrees_iff : PrintsLeaf pc ins (disasmR ins) (decodeR ins) ↔
    ¬ (getFunct7 ins = 0b0000111 ∧ (getFunct3 ins = 5 ∨ getFunct3 ins = 7)) := by
  unfold disasmR decodeR
  by_cases h1 : getFunct7 ins = 0b0000001
  · have h17 : ¬ getFunct7 ins = 0b0000111 := by rw [h1]; decide
    simp only [if_pos h1]
    refine iff_of_true ?_ fun h => h17 h.1
    exact printsLeaf_named rfl rfl ⟨disasmM_eq _, rfl⟩
  by_cases h7 : getFunct7 ins = 0b0000111
  · -- two operands for three
    have hlen : ∀ {m : String} {op : ROp}, ¬ PrintsLeaf pc ins ⟨m, [reg (getRd ins), reg (getRs1 ins)], none⟩
        (.alu op (getRs2 ins) (getRs1 ins) (getRd ins)) := by
      intro m op h
      have hn := (printsLeaf_runnable_iff rfl rfl).1 h
      exact absurd (congrArg List.length hn.2) (show 2 ≠ 3 by decide)
    rw [if_neg h1, if_neg h1, if_pos h7, if_pos h7]
    simp only [h7, true_and]
    by_cases h5 : getFunct3 ins = 0b101
    · simp only [if_pos h5]
      exact iff_of_false hlen fun h => h (.inl h5)
    by_cases h7 : getFunct3 ins = 0b111
    · simp only [if_neg h5, if_pos h7]
      exact iff_of_false hlen fun h => h (.inr h7)
    · simp only [if_neg h5, if_neg h7]
      exact iff_of_true (printsLeaf_unknown rfl) fun h => h.elim h5 h7
  · simp only [if_neg h1, if_neg h7]
    refine iff_of_true ?_ fun h => h7 h.1
    by_cases h0 : getFunct7 ins = 0b0000000 <;> by_cases h20 : getFunct7 ins = 0b0100000 <;>
      simp only [h0, h20, if_true, if_false] <;>
      rcases funct3_cases (getFunct3 ins) with h | h | h | h | h | h | h | h <;> simp only [h] <;>
      first | exact printsLeaf_named rfl rfl ⟨rfl, rfl⟩ | exact printsLeaf_unknown rfl

/-- **The I format**: the illegal slli is printed as slli. -/
theorem disasmI_agrees_iff : PrintsLeaf pc ins (disasmI ins) (decodeI ins) ↔
    ¬ (getFunct3 ins = 1 ∧ getFunct7 ins ≠ 0) := by
  unfold disasmI decodeI
  by_cases h1 : getFunct3 ins = 1
  · simp only [h1, true_and, not_not]
    by_cases h0 : getFunct7 ins = 0
    · simp only [h0, ne_eq, not_true_eq_false, if_false]
      exact iff_of_true (printsLeaf_named rfl rfl ⟨rfl, rfl⟩) trivial
    · simp only [h0, ne_eq, not_false_eq_true, if_true]
      refine iff_of_false ?_ id
      intro h
      exact absurd ((printsLeaf_refused_iff rfl).1 h) (by simp [Line.isUnknown])
  · refine iff_of_true ?_ fun h => h1 h.1
    by_cases h0 : getFunct7 ins = 0b0000000 <;> by_cases h20 : getFunct7 ins = 0b0100000 <;>
      simp only [h0, h20, if_true, if_false] <;>
      rcases funct3_cases (getFunct3 ins) with h | h | h | h | h | h | h | h <;> simp only [h] <;>
      first | exact printsLeaf_named rfl rfl ⟨rfl, rfl⟩ | exact printsLeaf_unknown rfl | exact absurd h h1

theorem fmtName_eq_iff : ∀ fmt : BitVec 2, fmtName fmt.toNat = (Fmt.ofField fmt).suffix ↔ fmt ≠ 3 := by decide

/-- **FMA**: the format q has no name. -/
theorem disasmFma_agrees_iff (subop : BitVec 2) :
    PrintsLeaf pc ins (disasmFma ins (fmaMnemonic subop)) (.fp (.fma subop)) ↔ getFmt ins ≠ 3 := by
  rw [printsLeaf_runnable_iff rfl rfl, ← fmtName_eq_iff]
  simp only [Line.names, disasmFma, String.append_right_inj, and_true]

theorem getFunct7_eq : getFunct7 ins = (getImm12 ins).extractLsb' 5 7 := by
  ext i hi
  simp only [getFunct7, getImm12, BitVec.getElem_extractLsb', BitVec.getLsbD_extractLsb',
    show 5 + i < 12 by omega, decide_true, Bool.true_and]
  congr 1
  omega

/-- **SYSTEM with funct3 = 0**: no sfence.vma is printed as one, and the word that is printed as one is refused. -/
theorem disasmPrivileged_agrees_iff : PrintsLeaf pc ins (disasmPrivileged ins) (decodePrivileged ins) ↔
    ¬ privilegedMisnamed ins := by
  have h7 := getFunct7_eq ins
  have hsfence : ∀ {operands : List String}, ¬ Line.isUnknown ⟨"sfence.vma", operands, none⟩ := by
    simp [Line.isUnknown]
  unfold privilegedMisnamed
  by_cases h9 : getImm12 ins = 0x009
  · -- printed as sfence.vma, and fatal
    have hne : ¬ getFunct7 ins = 0b0001001 := by rw [h7, h9]; decide
    have hd : (decodePrivileged ins).runnable ins = false := by
      unfold decodePrivileged
      simp only [h9, if_neg hne]
      split_ifs <;> rfl
    rw [printsLeaf_refused_iff hd]
    refine iff_of_false ?_ fun h => h (.inr h9)
    intro h
    unfold disasmPrivileged at h
    simp only [h9] at h
    split_ifs at h <;> exact hsfence h
  unfold disasmPrivileged decodePrivileged
  by_cases hz : getRs1 ins = 0 ∧ getRd ins = 0
  · simp only [if_pos hz]
    split
    case h_8 himm => exact absurd himm h9
    case h_9 =>
      split
      case h_8 =>
        by_cases hs : getFunct7 ins = 0b0001001
        · rw [if_pos hs, printsLeaf_runnable_iff rfl rfl]
          refine iff_of_false ?_ fun h => h (.inl ⟨hs, hz.2⟩)
          intro h
          exact absurd h.1 (show "unknown" ≠ "sfence.vma" by decide)
        · rw [if_neg hs]
          exact iff_of_true (printsLeaf_unknown rfl) fun h => h.elim (fun h => hs h.1) h9
      all_goals contradiction
    all_goals
      rename_i himm
      have hne : ¬ getFunct7 ins = 0b0001001 := by rw [h7, himm]; decide
      simp only [himm]
      exact iff_of_true (printsLeaf_named rfl rfl ⟨rfl, rfl⟩) fun h => h.elim (fun h => hne h.1) (by decide)
  · simp only [if_neg hz, if_neg h9]
    by_cases hs : getFunct7 ins = 0b0001001
    · by_cases hrd : getRd ins = 0
      · rw [if_pos hs, if_neg (not_not.2 hrd), printsLeaf_runnable_iff rfl rfl]
        refine iff_of_false ?_ fun h => h (.inl ⟨hs, hrd⟩)
        intro h
        exact absurd h.1 (show "unknown" ≠ "sfence.vma" by decide)
      · rw [if_pos hs, if_pos hrd]
        exact iff_of_true (printsLeaf_unknown rfl) fun h => h.elim (fun h => hrd h.2) h9
    · rw [if_neg hs]
      exact iff_of_true (printsLeaf_unknown rfl) fun h => h.elim (fun h => hs h.1) h9

/-- **SYSTEM**: a CSR instruction is printed whether or not there is such a CSR. -/
theorem disasmSystem_agrees_iff : PrintsLeaf pc ins (disasmSystem ins) (decodeSystem ins) ↔
    ¬ (if getFunct3 ins = 0 then privilegedMisnamed ins
      else getFunct3 ins ≠ 4 ∧ (csrTable (getImm12 ins)).valid = false) := by
  unfold disasmSystem decodeSystem
  rcases funct3_cases (getFunct3 ins) with h | h | h | h | h | h | h | h <;> simp only [h]
  · exact disasmPrivileged_agrees_iff pc ins
  case inr.inr.inr.inr.inl => exact iff_of_true (printsLeaf_unknown rfl) fun h => h.1 rfl
  all_goals
    cases hv : (csrTable (getImm12 ins)).valid with
    | true =>
      exact iff_of_true (printsLeaf_named hv rfl ⟨rfl, rfl⟩) fun h => Bool.noConfusion h.2
    | false =>
      refine iff_of_false (fun h => ?_) fun h => h ⟨by decide, rfl⟩
      exact absurd ((printsLeaf_refused_iff (by exact hv)).1 h) (by simp [Line.isUnknown])

/-- FP-OP where it is run: printed right when the mnemonic is -/
theorem fpop_names_iff {m : String} {operands : List String} {rounding : Option String}
    (hs : fpopUnsupported ins = false)
    (ho : operands = fpopArguments (getFunct5 ins) (getRs2 ins) (getRs1 ins) (getRd ins)) :
    PrintsLeaf pc ins ⟨m, operands, rounding⟩ (.fp .fpop) ↔
      fpopMnemonic (getFunct5 ins) (Fmt.ofField (getFmt ins)) (getFunct3 ins) (getRs2 ins) = some m := by
  have hr : Insn.runnable ins (.fp .fpop) = true := by
    change (!fpopUnsupported ins) = true
    rw [hs]
    rfl
  rw [PrintsLeaf, if_pos hr, Insn.line, FpInsn.line]
  cases fpopMnemonic (getFunct5 ins) (Fmt.ofField (getFmt ins)) (getFunct3 ins) (getRs2 ins) with
  | none => simp
  | some m' => simp [Line.names, ho, eq_comm]

/-- a name from a table: the read is in bounds and the name is right -/
theorem exists_table_iff {o : Option String} {f : String → Line} {P : Line → Prop} {g : String → String}
    {q : Option String} (hP : ∀ m, P (f m) ↔ q = some (g m)) :
    (∃ l, o.map f = some l ∧ P l) ↔ o.isSome = true ∧ q = o.map g := by
  cases o with
  | none => simp
  | some m => simp [hP]

/-! The mnemonics of FP-OP, over all formats and sub-operations. -/

theorem fpop_suffix_iff {p : String} (fmt : BitVec 2) :
    some (p ++ (Fmt.ofField fmt).suffix) = some (p ++ fmtName fmt.toNat) ↔ ¬ fmt = 3 := by
  rw [Option.some.injEq, String.append_right_inj, eq_comm, fmtName_eq_iff]

theorem fsgnj_mnemonic_iff : ∀ (fmt : BitVec 2) (f3 : BitVec 3),
    (["fsgnj", "fsgnjn", "fsgnjx"][f3.toNat]?.isSome = true ∧ fpopMnemonic 4 (Fmt.ofField fmt) f3 0 =
      ["fsgnj", "fsgnjn", "fsgnjx"][f3.toNat]?.map (· ++ "." ++ fmtName fmt.toNat)) ↔
      ¬ (fmt = 3 ∨ 3 ≤ f3.toNat) := by decide

theorem fminmax_mnemonic_iff : ∀ (fmt : BitVec 2) (f3 : BitVec 3),
    (["fmin", "fmax"][f3.toNat]?.isSome = true ∧ fpopMnemonic 5 (Fmt.ofField fmt) f3 0 =
      ["fmin", "fmax"][f3.toNat]?.map (· ++ "." ++ fmtName fmt.toNat)) ↔ ¬ (fmt = 3 ∨ 2 ≤ f3.toNat) := by decide

/-- the table has feq and fle the other way round -/
theorem fcmp_mnemonic_iff : ∀ (fmt : BitVec 2) (f3 : BitVec 3),
    (["feq", "flt", "fle"][f3.toNat]?.isSome = true ∧ fpopMnemonic 20 (Fmt.ofField fmt) f3 0 =
      ["feq", "flt", "fle"][f3.toNat]?.map (· ++ "." ++ fmtName fmt.toNat)) ↔ ¬ (fmt = 3 ∨ f3.toNat ≠ 1) := by decide

theorem fmvTo_mnemonic_iff : ∀ fmt : BitVec 2,
    fpopMnemonic 30 (Fmt.ofField fmt) 0 0 = some ("fmv." ++ fmtName fmt.toNat ++ ".x") ↔ ¬ fmt = 3 := by decide

theorem toInt_mnemonic_iff : ∀ (fmt : BitVec 2) (rs2 : Reg), fpopMnemonic 24 (Fmt.ofField fmt) 0 rs2 =
    some ("fcvt." ++ kindName rs2 ++ "." ++ fmtName fmt.toNat) ↔ ¬ (fmt = 3 ∨ 4 ≤ rs2) := by decide

theorem ofInt_mnemonic_iff : ∀ (fmt : BitVec 2) (rs2 : Reg), fpopMnemonic 26 (Fmt.ofField fmt) 0 rs2 =
    some ("fcvt." ++ fmtName fmt.toNat ++ "." ++ kindName rs2) ↔ ¬ (fmt = 3 ∨ 4 ≤ rs2 ∧ rs2 &&& 3 ≠ 3) := by decide

theorem fcvt_mnemonic_iff : ∀ (fmt : BitVec 2) (rs2 : Reg), (fcvtUnsupported (Fmt.ofField fmt) rs2 = false ∧
    fpopMnemonic 8 (Fmt.ofField fmt) 0 rs2 = some ("fcvt." ++ fmtName fmt.toNat ++ "." ++ fmtName rs2.toNat)) ↔
      ¬ (fmt = 3 ∨ 3 ≤ rs2 ∨ rs2.setWidth 2 = fmt) := by decide

theorem fmvTo_known : ∀ fmt : BitVec 2, "fmv." ++ fmtName fmt.toNat ++ ".x" ≠ "unknown" ∧
    "fmv." ++ fmtName fmt.toNat ++ ".x" ≠ "c.<unknown>" := by decide

theorem fcvt_known : ∀ (fmt : BitVec 2) (rs2 : Reg),
    "fcvt." ++ fmtName fmt.toNat ++ "." ++ fmtName rs2.toNat ≠ "unknown" ∧
      "fcvt." ++ fmtName fmt.toNat ++ "." ++ fmtName rs2.toNat ≠ "c.<unknown>" := by decide

/-- **FP-OP.** -/
theorem disasmFpop_agrees_iff :
    (∃ l, disasmFpop ins = some l ∧ PrintsLeaf pc ins l (.fp .fpop)) ↔ ¬ fpopMisnamed ins := by
  have hs := @fpop_names_iff pc ins
  have hu : ∀ {l}, fpopUnsupported ins = true → (PrintsLeaf pc ins l (.fp .fpop) ↔ l.isUnknown) := fun hu =>
    printsLeaf_refused_iff (by change (!fpopUnsupported ins) = false; rw [hu]; rfl)
  have hun : fpopUnsupported ins = if getFunct5 ins = 28 then decide (getFunct3 ins ≠ 0 ∧ getFunct3 ins ≠ 1)
    else if getFunct5 ins = 30 then decide (getFunct3 ins ≠ 0 ∨ getRs2 ins ≠ 0)
    else if getFunct5 ins = 8 then fcvtUnsupported (Fmt.ofField (getFmt ins)) (getRs2 ins)
    else decide (getFunct5 ins ∉ [0, 1, 2, 3, 4, 5, 11, 20, 24, 26]) := rfl
  unfold disasmFpop fpopMisnamed
  simp only
  split
  case h_5 hop =>
    simp only [hop] at hs hun ⊢
    rw [exists_table_iff fun m => hs (by simp [hun]) rfl]
    exact fsgnj_mnemonic_iff _ _
  case h_6 hop =>
    simp only [hop] at hs hun ⊢
    rw [exists_table_iff fun m => hs (by simp [hun]) rfl]
    exact fminmax_mnemonic_iff _ _
  case h_8 hop =>
    simp only [hop] at hs hun ⊢
    rw [exists_table_iff fun m => hs (by simp [hun]) rfl]
    exact fcmp_mnemonic_iff _ _
  case h_9 hop =>
    -- fmv.x and fclass
    simp only [hop] at hs hun ⊢
    by_cases h0 : (getFunct3 ins).toNat = 0
    · have h0' : getFunct3 ins = 0 := BitVec.eq_of_toNat_eq h0
      simp only [if_pos h0, Option.some.injEq, exists_eq_left']
      refine (hs (by simp [hun, h0']) rfl).trans ?_
      rw [h0']
      exact (fpop_suffix_iff (getFmt ins)).trans (by simp)
    by_cases h1 : (getFunct3 ins).toNat = 1
    · have h1' : getFunct3 ins = 1 := BitVec.eq_of_toNat_eq h1
      simp only [if_neg h0, if_pos h1, Option.some.injEq, exists_eq_left']
      refine (hs (by simp [hun, h1']) rfl).trans ?_
      rw [h1']
      exact (fpop_suffix_iff (getFmt ins)).trans (by simp)
    · have hne : getFunct3 ins ≠ 0 ∧ getFunct3 ins ≠ 1 := ⟨fun h => h0 (by rw [h]; rfl), fun h => h1 (by rw [h]; rfl)⟩
      simp only [if_neg h0, if_neg h1, Option.some.injEq, exists_eq_left']
      refine (hu (by rw [hun, decide_eq_true hne]; rfl)).trans (iff_of_true (unknownLine_isUnknown ins) ?_)
      omega
  case h_10 hop =>
    -- fmv from a general register
    simp only [hop, Option.some.injEq, exists_eq_left'] at hs hun ⊢
    by_cases hbad : getFunct3 ins ≠ 0 ∨ getRs2 ins ≠ 0
    · refine (hu (by rw [hun, decide_eq_true hbad]; rfl)).trans (iff_of_false ?_ fun h => h (.inr ?_))
      · exact fun h => h.elim (fmvTo_known _).1 (fmvTo_known _).2
      · exact hbad.imp_left fun h h0 => h (BitVec.eq_of_toNat_eq h0)
    · refine (hs (by rw [hun, decide_eq_false hbad]; rfl) rfl).trans ?_
      simp only [not_or, not_not] at hbad
      rw [hbad.1, hbad.2]
      exact (fmvTo_mnemonic_iff _).trans (by simp)
  case h_11 hop =>
    simp only [hop, Option.some.injEq, exists_eq_left'] at hs hun ⊢
    exact (hs (by simp [hun]) rfl).trans (toInt_mnemonic_iff _ _)
  case h_12 hop =>
    simp only [hop, Option.some.injEq, exists_eq_left'] at hs hun ⊢
    exact (hs (by simp [hun]) rfl).trans (ofInt_mnemonic_iff _ _)
  case h_13 hop =>
    simp only [hop, Option.some.injEq, exists_eq_left'] at hs hun ⊢
    have hm := fcvt_mnemonic_iff (getFmt ins) (getRs2 ins)
    cases hbad : fcvtUnsupported (Fmt.ofField (getFmt ins)) (getRs2 ins) with
    | true =>
      rw [hbad] at hm
      refine (hu (by rw [hun, hbad]; rfl)).trans (iff_of_false ?_ fun h => Bool.noConfusion (hm.2 h).1)
      exact fun h => h.elim (fcvt_known _ _).1 (fcvt_known _ _).2
    | false =>
      rw [hbad] at hm
      exact (hs (by rw [hun, hbad]; rfl) rfl).trans ((and_iff_right rfl).symm.trans hm)
  case h_14 n0 n1 n2 n3 n4 n5 n11 n20 n28 n30 n24 n26 n8 =>
    have hnone : getFunct5 ins ∉ [0, 1, 2, 3, 4, 5, 11, 20, 24, 26] := by
      simp only [List.mem_cons, List.not_mem_nil, or_false, not_or]
      exact ⟨n0, n1, n2, n3, n4, n5, n11, n20, n24, n26⟩
    have n28 : ¬ getFunct5 ins = 28 := n28
    have n30 : ¬ getFunct5 ins = 30 := n30
    have n8 : ¬ getFunct5 ins = 8 := n8
    rw [if_neg n28, if_neg n30, if_neg n8, decide_eq_true hnone] at hun
    simp only [Option.some.injEq, exists_eq_left']
    refine (hu hun).trans (iff_of_true (unknownLine_isUnknown ins) ?_)
    intro h
    simp only [List.mem_cons, List.not_mem_nil, or_false] at h
    exact h.2.elim n0 fun h => h.elim n1 fun h => h.elim n2 fun h => h.elim n3 n11
  all_goals
    rename_i hop
    simp only [hop, Option.some.injEq, exists_eq_left'] at hs hun ⊢
    refine (hs (by simp [hun]) rfl).trans ((fpop_suffix_iff (getFmt ins)).trans ?_)
    simp

/-- **Every opcode.** -/
theorem disasmLine_agrees_iff (h3 : ins.extractLsb' 0 2 = 3) :
    (∃ l, disasmLine pc ins = some l ∧ PrintsLeaf pc ins l (decode ins)) ↔ ¬ misnamed ins := by
  unfold disasmLine decode misnamed
  rw [if_neg (not_not.2 h3)]
  split
  case h_7 hop =>
    simp only [hop]
    exact disasmFpop_agrees_iff pc ins
  case h_20 =>
    split
    case h_20 =>
      refine iff_of_true ⟨_, rfl, printsLeaf_unknown rfl⟩ ?_
      intro h
      split at h
      case h_5 =>
        simp only [List.mem_cons, List.not_mem_nil, or_false] at h
        rcases h.2 with h | h | h | h <;> contradiction
      all_goals contradiction
    all_goals contradiction
  all_goals
    rename_i hop
    simp only [hop, Option.some.injEq, exists_eq_left']
  · exact iff_of_true (disasmFLoad_agrees pc ins) fun h => absurd h.2 (by decide)
  · exact iff_of_true (disasmFStore_agrees pc ins) fun h => absurd h.2 (by decide)
  · exact (disasmFma_agrees_iff pc ins 0).trans (not_congr (and_iff_left (by decide)).symm)
  · exact (disasmFma_agrees_iff pc ins 1).trans (not_congr (and_iff_left (by decide)).symm)
  · exact (disasmFma_agrees_iff pc ins 2).trans (not_congr (and_iff_left (by decide)).symm)
  · exact (disasmFma_agrees_iff pc ins 3).trans (not_congr (and_iff_left (by decide)).symm)
  · exact disasmR_agrees_iff pc ins
  · exact disasmI_agrees_iff pc ins
  · exact iff_of_true (disasmLoad_agrees pc ins) fun h => absurd h.2 (by decide)
  · exact iff_of_true (disasmStore_agrees pc ins) fun h => absurd h.2 (by decide)
  · exact iff_of_true (disasmBranch_agrees pc ins) fun h => absurd h.2 (by decide)
  · exact iff_of_true (printsLeaf_named rfl rfl ⟨rfl, rfl⟩) fun h => absurd h.2 (by decide)
  · exact iff_of_true (printsLeaf_named rfl rfl ⟨rfl, rfl⟩) fun h => absurd h.2 (by decide)
  · exact iff_of_true (printsLeaf_named rfl rfl ⟨rfl, rfl⟩) fun h => absurd h.2 (by decide)
  · exact iff_of_true (printsLeaf_named rfl rfl ⟨rfl, rfl⟩) fun h => absurd h.2 (by decide)
  · exact iff_of_true (disasmAtomic_agrees pc ins) fun h => absurd h.2 (by decide)
  · exact disasmSystem_agrees_iff pc ins
  · exact iff_of_true (disasmFence_agrees pc ins) fun h => absurd h.2 (by decide)

end

/-! ## The words exec runs -/

section
variable {s s' : Machine}

theorem not_raisesIllegal_of_causes {causes : List Word} (hc : causeIllegalInstruction ∉ causes)
    (h : Quiet s s' ∨ ∃ cause ∈ causes, ∃ tval, Kept (raiseExceptionPc s cause tval s.pc) s') : ¬ raisesIllegal s s' := by
  rcases h with hq | ⟨cause, hmem, tval, hk⟩
  · exact not_raisesIllegal_of_traps hq.traps
  · exact not_raisesIllegal_raise hk fun he => hc (he ▸ hmem)

theorem BranchOp.exec_not_raisesIllegal (op : BranchOp) (imm : Word) (rs2 rs1 : Reg) :
    ¬ raisesIllegal s (op.exec s imm rs2 rs1) := by
  rw [op.exec_eq]
  unfold insiBranch
  split_ifs
  · exact jump_not_raisesIllegal rfl rfl
  · exact not_raisesIllegal_of_traps rfl

theorem ROp.exec_not_raisesIllegal (op : ROp) (rs2 rs1 rd : Reg) : ¬ raisesIllegal s (op.exec s rs2 rs1 rd) := by
  cases op <;> exact not_raisesIllegal_of_traps rfl

theorem IOp.exec_not_raisesIllegal (op : IOp) (imm : Word) (rs1 rd : Reg) :
    ¬ raisesIllegal s (op.exec s imm rs1 rd) := by
  cases op <;> exact not_raisesIllegal_of_traps rfl

theorem insiIEcall_not_raisesIllegal : ¬ raisesIllegal s (insiIEcall s) := by
  unfold insiIEcall
  split_ifs
  · exact not_raisesIllegal_of_traps rfl
  all_goals exact not_raisesIllegal_raise (Kept.refl _) (by decide)

/-- in machine mode every CSR of the table is open -/
theorem csrAccessIllegal_machine (hm : s.privilege = prvMachine) (csr : Csr) :
    csrAccessIllegal s csr = !(csrTable csr).valid := by
  have hle : ∀ p : Priv, ¬ prvMachine < p := by decide
  have hne : ¬ prvMachine = prvSupervisor := by decide
  simp [csrAccessIllegal, hm, hle, hne]

end

section
variable [SoftFloat] {s s' : Machine} {ins : Word}

/-- **In machine mode, with the FPU on**, a runnable leaf raises no illegal-instruction trap. -/
theorem Insn.run_not_raisesIllegal {i : Insn} (hm : s.privilege = prvMachine) (hfs : fpuFsOff s = false)
    (hr : i.runnable ins = true) (h : i.run s ins = .ok s') : ¬ raisesIllegal s s' := by
  have hsup : ¬ s.privilege = prvSupervisor := by rw [hm]; decide
  cases i with
  | alu op rs2 rs1 rd => obtain rfl := Except.ok.inj h; exact op.exec_not_raisesIllegal rs2 rs1 rd
  | aluImm op imm rs1 rd => obtain rfl := Except.ok.inj h; exact op.exec_not_raisesIllegal imm rs1 rd
  | load op imm rs1 rd =>
    obtain rfl := Except.ok.inj h
    exact not_raisesIllegal_of_causes (by decide) (op.exec_causes s imm rs1 rd)
  | store op imm rs2 rs1 =>
    obtain rfl := Except.ok.inj h
    exact not_raisesIllegal_of_causes (by decide) (op.exec_causes s imm rs2 rs1)
  | fp i =>
    rw [Insn.run, hfs, if_neg Bool.false_ne_true] at h
    exact FpInsn.run_not_raisesIllegal h
  | atomic a rs1 rs2 rd => exact (AInsn.exec_pageFaults h).not_raisesIllegal
  | branch op imm rs2 rs1 => obtain rfl := Except.ok.inj h; exact op.exec_not_raisesIllegal imm rs2 rs1
  | jal imm rd => obtain rfl := Except.ok.inj h; exact jump_not_raisesIllegal rfl rfl
  | jalr imm rs1 rd => obtain rfl := Except.ok.inj h; exact jump_not_raisesIllegal rfl rfl
  | ecall => obtain rfl := Except.ok.inj h; exact insiIEcall_not_raisesIllegal
  | ebreak => obtain rfl := Except.ok.inj h; exact not_raisesIllegal_raise (Kept.refl _) (by decide)
  | sret =>
    obtain rfl := Except.ok.inj h
    rw [insSret, if_neg fun hx => hsup hx.1]
    exact not_raisesIllegal_of_traps rfl
  | sfenceVma =>
    obtain rfl := Except.ok.inj h
    rw [insSfenceVma, if_neg fun hx => hsup hx.1]
    exact not_raisesIllegal_of_traps rfl
  | zicsr op rs1 rd csr =>
    obtain rfl := Except.ok.inj h
    have hlegal : csrAccessIllegal s csr = false := by
      rw [csrAccessIllegal_machine hm, show (csrTable csr).valid = true from hr]
      rfl
    exact not_raisesIllegal_of_traps (op.exec_legal s rs1 rd csr ins hlegal).traps
  | illegal => cases hr
  | fatal f => cases h
  | _ => obtain rfl := Except.ok.inj h; exact not_raisesIllegal_of_traps rfl

/-- a leaf that is not runnable raises an illegal-instruction trap or is fatal, in every state -/
theorem Insn.run_refused {i : Insn} (hr : i.runnable ins = false) (h : i.run s ins = .ok s') : raisesIllegal s s' := by
  cases i with
  | illegal =>
    obtain rfl := Except.ok.inj h
    exact ⟨_, raiseExceptionPc_traps .., rfl⟩
  | zicsr op rs1 rd csr =>
    obtain rfl := Except.ok.inj h
    have hillegal : csrAccessIllegal s csr = true := by
      simp [csrAccessIllegal, show (csrTable csr).valid = false from hr]
    exact ⟨_, (op.exec_illegal s rs1 rd csr ins hillegal).2, rfl⟩
  | fp i =>
    rw [Insn.run] at h
    split_ifs at h
    · obtain rfl := Except.ok.inj h
      exact ⟨_, raiseExceptionPc_traps .., rfl⟩
    · have hok := (FpInsn.ok_iff s ins i).1 ⟨s', h⟩
      have hun : i.undefined ins = true := by
        have hr : (!i.undefined ins) = false := hr
        simpa using hr
      rw [hok] at hun
      cases hun
  | fatal f => cases h
  | _ => cases hr

/-- a word with low bits 3 goes to the switch -/
theorem exec_word (h3 : ins.extractLsb' 0 2 = 3) (ha : fetchAligned s = true) : exec s ins = (decode ins).run s ins :=
  exec_decode ha fun hc => hc.2 h3

theorem never_executes (h3 : ins.extractLsb' 0 2 = 3) (hr : (decode ins).runnable ins = false) :
    ¬ executes s ins s' := by
  intro hx
  obtain ⟨ha, hexec, hlegal⟩ := hx
  rw [exec_word h3 ha] at hexec
  exact hlegal (Insn.run_refused hr hexec)

end

/-- the machine at the start, all registers 0 and the FPU on -/
def enabledMachine : Machine :=
  { machineInit (fun _ => 0) (fun _ => 0) 0 with
    csr := Function.update (fun i => (csrTable i).value) csrMstatus mstatusFsMask }

theorem enabledMachine_fpu : fpuFsOff enabledMachine = false := by decide

theorem enabledMachine_aligned : fetchAligned enabledMachine = true := by decide

section
variable [SoftFloat] {ins : Word}

theorem executes_somewhere (h3 : ins.extractLsb' 0 2 = 3) (hr : (decode ins).runnable ins = true) :
    ∃ s', executes enabledMachine ins s' := by
  have hfatal : (decode ins).fatalIn enabledMachine ins = false := by
    cases hd : decode ins with
    | fp i =>
      rw [hd] at hr
      have hr : (!i.undefined ins) = true := hr
      simpa [Insn.fatalIn] using fun _ => hr
    | fatal f => rw [hd] at hr; cases hr
    | atomic a rs1 rs2 rd =>
      have hzero : regRead enabledMachine rs1 = 0 := ite_self 0
      simp [Insn.fatalIn, hzero]
    | _ => rfl
  obtain ⟨s', hs'⟩ := (Insn.ok_iff enabledMachine ins (decode ins)).2 hfatal
  refine ⟨s', enabledMachine_aligned, (exec_word h3 enabledMachine_aligned).trans hs', ?_⟩
  exact Insn.run_not_raisesIllegal rfl enabledMachine_fpu hr hs'

theorem Disassembles.not_misnamed (h : Disassembles ins) (h3 : ins.extractLsb' 0 2 = 3) : ¬ misnamed ins := by
  rw [← disasmLine_agrees_iff enabledMachine.pc ins h3]
  cases hr : (decode ins).runnable ins with
  | true =>
    obtain ⟨s', hx⟩ := executes_somewhere h3 hr
    obtain ⟨a, l, ha, hl, hn, -⟩ := h.names _ _ hx
    exact ⟨l, hl, printsLeaf_named hr ha hn⟩
  | false =>
    obtain ⟨l, hl, hu⟩ := h.unknown (fun s s' => never_executes h3 hr) enabledMachine.pc
    exact ⟨l, hl, (printsLeaf_refused_iff hr).2 hu⟩

theorem disassembles_of_not_misnamed (h : ¬ misnamed ins) (h3 : ins.extractLsb' 0 2 = 3) : Disassembles ins := by
  have hagrees := fun pc => (disasmLine_agrees_iff pc ins h3).2 h
  constructor
  · intro s s' hx
    obtain ⟨l, hl, hp⟩ := hagrees s.pc
    have hr : (decode ins).runnable ins = true := by
      by_contra hr
      exact never_executes h3 (Bool.eq_false_of_not_eq_true hr) hx
    rw [PrintsLeaf, if_pos hr] at hp
    obtain ⟨a, ha, hn⟩ := hp
    have hname : isName l.mnemonic := by
      rw [hn.1]
      exact Insn.line_isName ha
    exact ⟨a, l, ha, hl, hn, hname⟩
  · intro hnever pc
    obtain ⟨l, hl, hp⟩ := hagrees pc
    have hr : (decode ins).runnable ins = false := by
      by_contra hr
      obtain ⟨s', hx⟩ := executes_somewhere h3 (Bool.eq_true_of_not_eq_false hr)
      exact hnever _ _ hx
    exact ⟨l, hl, (printsLeaf_refused_iff hr).1 hp⟩

/-- **The disassembler names what exec runs**, exactly outside the misnamed words. -/
theorem disassembles_iff (h3 : ins.extractLsb' 0 2 = 3) : Disassembles ins ↔ ¬ misnamed ins :=
  ⟨fun h => h.not_misnamed h3, fun h => disassembles_of_not_misnamed h h3⟩

end

/-- ADDI x1, x0, 1 -/
theorem disassembles_addi : @Disassembles noFloat 0x00100093 :=
  (@disassembles_iff noFloat 0x00100093 rfl).2 fun h => absurd h.1 (by decide)

/-- FEQ.S x10, f1, f2 -/
theorem disasm_misnames_fcmp : ¬ @Disassembles noFloat 0xA020A553 ∧
    (decode 0xA020A553).line 0 0xA020A553 = some ⟨"feq.s", ["a0", "f1", "f2"], none⟩ ∧
    disasm 0 0xA020A553 = some "fle.s a0, f1, f2" := by
  let _ : SoftFloat := noFloat
  have hbad : misnamed 0xA020A553 := .inr (by decide)
  exact ⟨fun h => h.not_misnamed rfl hbad, rfl, rfl⟩

end RiscvEmu
