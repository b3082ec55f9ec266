/-
Compressed integer instructions mean their expansions.

The RV32C specification gives each 16-bit encoding the 32-bit instruction it stands for. c_extension.c expands nothing:
each form does its own work and its own moving of pc. `expandC` is the specification's table, written from the layout of
the fields; `Insn.expanded` runs the 32-bit instruction with pc + 2 for pc + 4. Results:
- `cJalOffset_eq`, `cAddi16spImm_eq`, ..: the immediates are the specification's concatenations;
- `means_regWrite`, `means_access`, `means_jal`, ..: each kind of form means its expansion;
- `compressed_expansion`: the law, with the two encodings the emulator gives to illegal instruction;
- `shift_by_zero_illegal`: one of them.
-/
import RiscvEmu.SingleTrap

namespace RiscvEmu

/-! ## The specification's table -/

section
variable (c : BitVec 16)

/-- nzuimm[9:6|5:4|3|2] at c[10:7|12:11|5|6] -/
def addi4spnImm := c.extractLsb' 7 4 ++ c.extractLsb' 11 2 ++ c.extractLsb' 5 1 ++ c.extractLsb' 6 1 ++ 0#2

/-- uimm[6|5:3|2] at c[5|12:10|6] -/
def lsUimm := c.extractLsb' 5 1 ++ c.extractLsb' 10 3 ++ c.extractLsb' 6 1 ++ 0#2

/-- uimm[7:6|5|4:2] at c[3:2|12|6:4] -/
def lwspUimm := c.extractLsb' 2 2 ++ c.extractLsb' 12 1 ++ c.extractLsb' 4 3 ++ 0#2

/-- uimm[7:6|5:2] at c[8:7|12:9] -/
def swspUimm := c.extractLsb' 7 2 ++ c.extractLsb' 9 4 ++ 0#2

/-- nzimm[9|8|7|6|5|4] at c[12|4|3|5|2|6] -/
def addi16spImm :=
  c.extractLsb' 12 1 ++ c.extractLsb' 4 1 ++ c.extractLsb' 3 1 ++ c.extractLsb' 5 1 ++ c.extractLsb' 2 1 ++
    c.extractLsb' 6 1 ++ 0#4

/-- imm[11|10|9:8|7|6|5|4|3:1] at c[12|8|10:9|6|7|2|11|5:3] -/
def jumpOffset :=
  c.extractLsb' 12 1 ++ c.extractLsb' 8 1 ++ c.extractLsb' 9 2 ++ c.extractLsb' 6 1 ++ c.extractLsb' 7 1 ++
    c.extractLsb' 2 1 ++ c.extractLsb' 11 1 ++ c.extractLsb' 3 3 ++ 0#1

/-- imm[8|7|6|5|4|3|2|1] at c[12|6|5|2|11|10|4|3] -/
def branchOffset :=
  c.extractLsb' 12 1 ++ c.extractLsb' 6 1 ++ c.extractLsb' 5 1 ++ c.extractLsb' 2 1 ++ c.extractLsb' 11 1 ++
    c.extractLsb' 10 1 ++ c.extractLsb' 4 1 ++ c.extractLsb' 3 1 ++ 0#1

/-- imm[5|4:0] at c[12|6:2] -/
def imm6 := c.extractLsb' 12 1 ++ c.extractLsb' 2 5

/-- one of x8 .. x15 -/
def popularReg (k : ℕ) : Reg := 1#2 ++ c.extractLsb' k 3

/-- quadrant 1, funct3 = 100 -/
def expandArith : Option Insn :=
  let rd := popularReg c 7
  let rs2 := popularReg c 2
  let shamt : Word := (c.extractLsb' 2 5).setWidth 32
  match c.extractLsb' 10 2, c.extractLsb' 12 1, c.extractLsb' 5 2 with
  | 0#2, 0#1, _ => some (.aluImm .srli shamt rd rd)
  | 1#2, 0#1, _ => some (.aluImm .srai shamt rd rd)
  | 2#2, _, _ => some (.aluImm .andi ((imm6 c).signExtend 32) rd rd)
  | 3#2, 0#1, 0#2 => some (.alu .sub rs2 rd rd)
  | 3#2, 0#1, 1#2 => some (.alu .xor rs2 rd rd)
  | 3#2, 0#1, 2#2 => some (.alu .or rs2 rd rd)
  | 3#2, 0#1, 3#2 => some (.alu .and rs2 rd rd)
  | _, _, _ => none

/-- quadrant 2, funct3 = 100: c.jr, c.mv, c.jalr, c.add; c.ebreak is not in the subset -/
def expandRegister : Option Insn :=
  let rd := cRd c
  let rs2 := cRs2 c
  if rs2 = 0 then
    if rd = 0 then none
    else if c.extractLsb' 12 1 = 0 then some (.jalr 0 rd 0) else some (.jalr 0 rd 1)
  else if c.extractLsb' 12 1 = 0 then some (.alu .add rs2 0 rd) else some (.alu .add rs2 rd rd)

/-- the instruction an encoding of the integer subset stands for; a hint stands for one too, a reserved encoding not -/
def expandC : Option Insn :=
  let rd := cRd c
  let rs2 := cRs2 c
  let imm : Word := (imm6 c).signExtend 32
  match c.extractLsb' 0 2, c.extractLsb' 13 3 with
  | 0#2, 0#3 =>
    if addi4spnImm c = 0 then none else some (.aluImm .addi ((addi4spnImm c).setWidth 32) 2 (popularReg c 2))
  | 0#2, 2#3 => some (.load .lw ((lsUimm c).setWidth 32) (popularReg c 7) (popularReg c 2))
  | 0#2, 6#3 => some (.store .sw ((lsUimm c).setWidth 32) (popularReg c 2) (popularReg c 7))
  | 1#2, 0#3 => some (.aluImm .addi imm rd rd)
  | 1#2, 1#3 => some (.jal ((jumpOffset c).signExtend 32) 1)
  | 1#2, 2#3 => some (.aluImm .addi imm 0 rd)
  | 1#2, 3#3 =>
    if imm6 c = 0 then none
    else if rd = 2 then some (.aluImm .addi ((addi16spImm c).signExtend 32) 2 2)
    else some (.lui (imm <<< 12) rd)
  | 1#2, 4#3 => expandArith c
  | 1#2, 5#3 => some (.jal ((jumpOffset c).signExtend 32) 0)
  | 1#2, 6#3 => some (.branch .beq ((branchOffset c).signExtend 32) 0 (popularReg c 7))
  | 1#2, 7#3 => some (.branch .bne ((branchOffset c).signExtend 32) 0 (popularReg c 7))
  | 2#2, 0#3 => if c.extractLsb' 12 1 = 0 then some (.aluImm .slli ((c.extractLsb' 2 5).setWidth 32) rd rd) else none
  | 2#2, 2#3 => if rd = 0 then none else some (.load .lw ((lwspUimm c).setWidth 32) 2 rd)
  | 2#2, 4#3 => expandRegister c
  | 2#2, 6#3 => some (.store .sw ((swspUimm c).setWidth 32) rs2 2)
  | _, _ => none

end

/-! ## Immediates -/

section
variable (c : BitVec 16)

theorem setWidth_extractLsb' (k n : ℕ) :
    (c.extractLsb' k n).setWidth 32 = cField c k ((BitVec.allOnes n).setWidth 32) := by
  apply BitVec.eq_of_getLsbD_eq
  intro i hi
  simp only [cField, BitVec.getLsbD_and, BitVec.getLsbD_setWidth, BitVec.getLsbD_ushiftRight, BitVec.getLsbD_allOnes,
    BitVec.getLsbD_extractLsb', hi, decide_true, Bool.true_and]
  exact Bool.and_comm _ _

theorem setWidth_and_allOnes {n : ℕ} (x : BitVec n) :
    x.setWidth 32 &&& (BitVec.allOnes n).setWidth 32 = x.setWidth 32 := by
  rw [← BitVec.setWidth_and, BitVec.and_allOnes]

theorem setWidth_ge_iff_msb {n : ℕ} (x : BitVec n) (hn : n < 32) :
    x.setWidth 32 ≥ BitVec.ofNat 32 (2 ^ (n - 1)) ↔ x.msb = true := by
  have hpow : 2 ^ (n - 1) < 2 ^ 32 := Nat.pow_lt_pow_right (by decide) (by omega)
  have hx : x.toNat < 2 ^ 32 := x.isLt.trans (Nat.pow_lt_pow_right (by decide) hn)
  rw [BitVec.msb_eq_decide, decide_eq_true_iff, ge_iff_le, BitVec.le_def, BitVec.toNat_setWidth, BitVec.toNat_ofNat,
    Nat.mod_eq_of_lt hpow, Nat.mod_eq_of_lt hx]

theorem setWidth_eq_zero {n : ℕ} (x : BitVec n) (hn : n ≤ 32) : x.setWidth 32 = 0 ↔ x = 0 := by
  have hx : x.toNat < 2 ^ 32 := x.isLt.trans_le (Nat.pow_le_pow_right (by decide) hn)
  rw [← BitVec.toNat_inj, ← BitVec.toNat_inj, BitVec.toNat_setWidth, Nat.mod_eq_of_lt hx]
  rfl

theorem cAddi4spnImm_eq : cAddi4spnImm c = (addi4spnImm c).setWidth 32 := by
  simp only [addi4spnImm, Bits.setWidth_append]
  simp only [cAddi4spnImm, setWidth_extractLsb', BitVec.shiftLeft_or_distrib, ← BitVec.shiftLeft_add,
    BitVec.reduceAllOnes, BitVec.reduceSetWidth, BitVec.or_zero, Nat.reduceAdd]
  ac_rfl

theorem cLsUimm_eq : cLsUimm c = (lsUimm c).setWidth 32 := by
  simp only [lsUimm, Bits.setWidth_append]
  simp only [cLsUimm, setWidth_extractLsb', BitVec.shiftLeft_or_distrib, ← BitVec.shiftLeft_add,
    BitVec.reduceAllOnes, BitVec.reduceSetWidth, BitVec.or_zero, Nat.reduceAdd]
  rfl

theorem cLwspUimm_eq : cLwspUimm c = (lwspUimm c).setWidth 32 := by
  simp only [lwspUimm, Bits.setWidth_append]
  simp only [cLwspUimm, setWidth_extractLsb', BitVec.shiftLeft_or_distrib, ← BitVec.shiftLeft_add,
    BitVec.reduceAllOnes, BitVec.reduceSetWidth, BitVec.or_zero, Nat.reduceAdd]
  rfl

theorem cSwspUimm_eq : cSwspUimm c = (swspUimm c).setWidth 32 := by
  simp only [swspUimm, Bits.setWidth_append]
  simp only [cSwspUimm, setWidth_extractLsb', BitVec.shiftLeft_or_distrib, ← BitVec.shiftLeft_add,
    BitVec.reduceAllOnes, BitVec.reduceSetWidth, BitVec.or_zero, Nat.reduceAdd]
  rfl

theorem sext6_setWidth (x : BitVec 6) : sext6 (x.setWidth 32) = x.signExtend 32 := by
  have hmask : x.setWidth 32 &&& (0x3F : Word) = x.setWidth 32 := setWidth_and_allOnes x
  have hmsb : x.setWidth 32 ≥ (0x20 : Word) ↔ x.msb = true := setWidth_ge_iff_msb x (by decide)
  simp only [sext6, hmask, hmsb]
  exact Bits.ite_sub_eq_signExtend x (by decide)

theorem sext10_setWidth (x : BitVec 10) : sext10 (x.setWidth 32) = x.signExtend 32 := by
  have hmask : x.setWidth 32 &&& (0x3FF : Word) = x.setWidth 32 := setWidth_and_allOnes x
  have hmsb : x.setWidth 32 ≥ (0x200 : Word) ↔ x.msb = true := setWidth_ge_iff_msb x (by decide)
  simp only [sext10, hmask, hmsb]
  exact Bits.ite_sub_eq_signExtend x (by decide)

theorem cAddi16spImm_eq : cAddi16spImm c = (addi16spImm c).signExtend 32 := by
  rw [← sext10_setWidth]
  simp only [addi16spImm, Bits.setWidth_append]
  simp only [cAddi16spImm, setWidth_extractLsb', BitVec.shiftLeft_or_distrib, ← BitVec.shiftLeft_add,
    BitVec.reduceAllOnes, BitVec.reduceSetWidth, BitVec.or_zero, Nat.reduceAdd]
  rfl

theorem cShamt_eq : cShamt c = (imm6 c).setWidth 32 := by
  simp only [imm6, Bits.setWidth_append]
  simp only [cShamt, setWidth_extractLsb', BitVec.reduceAllOnes, BitVec.reduceSetWidth]
  rfl

/-- on RV32 the top bit of the shift amount is 0 -/
theorem cShamt_of_bit12 {c : BitVec 16} (h : c.extractLsb' 12 1 = 0#1) :
    cShamt c = (c.extractLsb' 2 5).setWidth 32 := by
  rw [cShamt_eq, imm6, h, Bits.setWidth_append]
  exact BitVec.zero_or

theorem cImm6_eq : cImm6 c = (imm6 c).signExtend 32 := by
  rw [← sext6_setWidth, ← cShamt_eq]
  rfl

theorem cJalOffset_eq : cJalOffset c = (jumpOffset c).signExtend 32 := by
  have himm : cField c 12 0x1 <<< 11 ||| cField c 11 0x1 <<< 4 ||| cField c 9 0x3 <<< 8 ||| cField c 8 0x1 <<< 10
      ||| cField c 7 0x1 <<< 6 ||| cField c 6 0x1 <<< 7 ||| cField c 2 0x1 <<< 5 ||| cField c 3 0x7 <<< 1
      = (jumpOffset c).setWidth 32 := by
    simp only [jumpOffset, Bits.setWidth_append]
    simp only [setWidth_extractLsb', BitVec.shiftLeft_or_distrib, ← BitVec.shiftLeft_add,
      BitVec.reduceAllOnes, BitVec.reduceSetWidth, BitVec.or_zero, Nat.reduceAdd]
    ac_rfl
  have hmsb : (jumpOffset c).setWidth 32 &&& (0x800 : Word) ≠ 0 ↔ (jumpOffset c).msb = true :=
    Bits.setWidth_and_signBit _ (by decide)
  simp only [cJalOffset, himm, hmsb]
  exact Bits.ite_sub_eq_signExtend (jumpOffset c) (by decide)

theorem cBranchOffset_eq : cBranchOffset c = (branchOffset c).signExtend 32 := by
  have himm : cField c 12 0x1 <<< 8 ||| cField c 6 0x1 <<< 7 ||| cField c 5 0x1 <<< 6 ||| cField c 2 0x1 <<< 5
      ||| cField c 11 0x1 <<< 4 ||| cField c 10 0x1 <<< 3 ||| cField c 4 0x1 <<< 2 ||| cField c 3 0x1 <<< 1
      = (branchOffset c).setWidth 32 := by
    simp only [branchOffset, Bits.setWidth_append]
    simp only [setWidth_extractLsb', BitVec.shiftLeft_or_distrib, ← BitVec.shiftLeft_add,
      BitVec.reduceAllOnes, BitVec.reduceSetWidth, BitVec.or_zero, Nat.reduceAdd]
    ac_rfl
  have hmsb : (branchOffset c).setWidth 32 &&& (0x100 : Word) ≠ 0 ↔ (branchOffset c).msb = true :=
    Bits.setWidth_and_signBit _ (by decide)
  simp only [cBranchOffset, himm, hmsb]
  exact Bits.ite_sub_eq_signExtend (branchOffset c) (by decide)

theorem cRs1p_eq : cRs1p c = popularReg c 7 := by
  unfold cRs1p popularReg
  generalize c.extractLsb' 7 3 = x
  revert x
  decide

theorem cRs2p_eq : cRs2p c = popularReg c 2 := by
  unfold cRs2p popularReg
  generalize c.extractLsb' 2 3 = x
  revert x
  decide

end

/-! ## The expansion, run -/

/-- what the instruction leaves when it has not trapped, 2 bytes long: pc and the link move by 2 -/
def Insn.short (s t : Machine) : Insn → Machine
  | .jal _ rd => pcForward (regWrite t rd (s.pc + 2))
  | .jalr _ _ rd => pcForward (regWrite t rd (s.pc + 2))
  | .branch op _ rs2 rs1 =>
    if op.taken (regRead s rs1) (regRead s rs2) then pcForward t else { t with pc := s.pc + 2 }
  | _ => { t with pc := s.pc + 2 }

/-- the routine of the 32-bit decoder and the loop's pc += 4, with pc + 2 for the sequential pc and the link -/
def Insn.expanded [SoftFloat] (s : Machine) (ins : Word) (i : Insn) : Except Fatal Machine :=
  (i.run s ins).map fun t => if t.traps = s.traps then i.short s t else pcForward t

/-- the hints exec_c_insn takes for reserved encodings: a shift by 0, and c.lui x0 -/
def Insn.takenReserved : Insn → Bool
  | .aluImm .slli shamt _ _ | .aluImm .srli shamt _ _ | .aluImm .srai shamt _ _ => shamt = 0
  | .lui _ rd => rd = 0
  | _ => false

/-- exec_c_insn does what the expansion does, or raises illegal instruction for the hints it takes for reserved -/
def MeansExpansion [SoftFloat] (s : Machine) (c : BitVec 16) (i : Insn) : Prop :=
  if i.takenReserved then execCInsn s c = cIllegal s c
  else ∀ ins, i.expanded s ins = .ok (pcForward (execCInsn s c).1)

/-- c.add with rd = x0, a hint -/
def isAddHint (c : BitVec 16) : Bool :=
  c.extractLsb' 0 2 = 2 ∧ c.extractLsb' 13 3 = 4 ∧ c.extractLsb' 12 1 ≠ 0 ∧ cRd c = 0 ∧ cRs2 c ≠ 0

/-- the operands are ordinary: a register jump has an even target and does not link the register it jumps through, the
add is no hint, and the handler of an access that traps is not 4 bytes on -/
structure Ordinary (s : Machine) (c : BitVec 16) (i : Insn) : Prop where
  evenTarget : ∀ imm rs1 rd, i = .jalr imm rs1 rd → regRead s rs1 &&& 1 = 0
  otherLink : ∀ imm rs1 rd, i = .jalr imm rs1 rd → rs1 = rd → rd = 0
  noAddHint : isAddHint c = false
  handler : ∀ cause, compressedCause s c = some cause → handlerElsewhere s cause

/-! ## Each form -/

theorem execCInsn_quadrant0 (s : Machine) {c : BitVec 16} (hq : c.extractLsb' 0 2 = 0#2) :
    execCInsn s c = execQuadrant0 s c := by
  simp only [execCInsn, hq]
  rfl

theorem execCInsn_quadrant1 (s : Machine) {c : BitVec 16} (hq : c.extractLsb' 0 2 = 1#2) :
    execCInsn s c = execQuadrant1 s c := by
  simp only [execCInsn, hq]
  rfl

theorem execCInsn_quadrant2 (s : Machine) {c : BitVec 16} (hq : c.extractLsb' 0 2 = 2#2) :
    execCInsn s c = execQuadrant2 s c := by
  simp only [execCInsn, hq]
  rfl

theorem execQuadrant1_beqz (s : Machine) {c : BitVec 16} (h3 : c.extractLsb' 13 3 = 6#3) :
    (execQuadrant1 s c).1 = if regRead s (cRs1p c) = 0 then pcBackward { s with pc := s.pc + cBranchOffset c }
      else (cNext s).1 := by
  have hne : ¬ ((6#3 : BitVec 3) = 7) := by decide
  simp only [execQuadrant1, h3]
  by_cases hv : regRead s (cRs1p c) = 0
  · rw [if_pos hv]
    exact congrArg Prod.fst (if_pos (.inl ⟨rfl, hv⟩))
  · rw [if_neg hv]
    exact congrArg Prod.fst (if_neg fun h => h.elim (fun h => hv h.2) fun h => hne h.1)

theorem execQuadrant1_bnez (s : Machine) {c : BitVec 16} (h3 : c.extractLsb' 13 3 = 7#3) :
    (execQuadrant1 s c).1 = if regRead s (cRs1p c) ≠ 0 then pcBackward { s with pc := s.pc + cBranchOffset c }
      else (cNext s).1 := by
  have hne : ¬ ((7#3 : BitVec 3) = 6) := by decide
  simp only [execQuadrant1, h3]
  by_cases hv : regRead s (cRs1p c) ≠ 0
  · rw [if_pos hv]
    exact congrArg Prod.fst (if_pos (.inr ⟨rfl, hv⟩))
  · rw [if_neg hv]
    exact congrArg Prod.fst (if_neg fun h => h.elim (fun h => hne h.1) fun h => hv h.2)

section
variable {s : Machine}

theorem writeGpr_writeGpr (gpr : Reg → Word) (rd : Reg) (v w : Word) :
    writeGpr (writeGpr gpr rd v) rd w = writeGpr gpr rd w := by
  unfold writeGpr
  split_ifs
  · rfl
  · exact Function.update_idem _ _ _

theorem regRead_regWrite_of_ne (s : Machine) (v : Word) {id rd : Reg} (h : id ≠ rd) :
    regRead (regWrite s rd v) id = regRead s id := by
  unfold regRead regWrite writeGpr
  split_ifs
  · rfl
  · rfl
  · exact Function.update_of_ne h _ _

end

section
variable [SoftFloat] {s : Machine} {c : BitVec 16} {i : Insn}

/-- a register operation -/
theorem means_regWrite (rd : Reg) (v : Word) (hexec : execCInsn s c = cNext (regWrite s rd v))
    (hrun : ∀ ins, i.run s ins = .ok (regWrite s rd v)) (hshort : ∀ t, i.short s t = { t with pc := s.pc + 2 })
    (hres : i.takenReserved = false) : MeansExpansion s c i := by
  have hpc : s.pc - 2 + 4 = s.pc + 2 := by bv_omega
  rw [MeansExpansion, hres, if_neg Bool.false_ne_true]
  intro ins
  simp only [hexec, Insn.expanded, hrun ins, Except.map, regWrite, if_true, hshort, cNext, pcForward, hpc]

/-- a load or store -/
theorem means_access (f : Machine → Machine) (hf : compressedAccess c = some f)
    (hrun : ∀ ins, i.run s ins = .ok (f s)) (hshort : ∀ t, i.short s t = { t with pc := s.pc + 2 })
    (hres : i.takenReserved = false) (hh : ∀ cause, compressedCause s c = some cause → handlerElsewhere s cause) :
    MeansExpansion s c i := by
  rw [MeansExpansion, hres, if_neg Bool.false_ne_true]
  intro ins
  have hspec := compressedCause_spec hf s
  rw [execCInsn_access hf]
  cases hc : compressedCause s c with
  | none =>
    rw [hc] at hspec
    have hpc : s.pc - 2 + 4 = s.pc + 2 := by bv_omega
    simp only [Insn.expanded, hrun ins, Except.map, hshort, cAccess, hspec.traps, hspec.pc, if_true, pcForward, hpc]
  | some cause =>
    rw [hc] at hspec
    obtain ⟨tval, hk⟩ := hspec
    have ht : (f s).traps ≠ s.traps := by rw [hk.traps]; simp
    have hpc : (f s).pc ≠ s.pc := by rw [hk.pc, raiseExceptionPc_pc]; exact hh cause hc
    simp only [Insn.expanded, hrun ins, Except.map, cAccess, if_neg ht, if_neg hpc]

/-- c.j and c.jal -/
theorem means_jal {imm : Word} {rd : Reg} (hc : misaCEnabled s = true) (ht : (s.pc + imm) &&& 1 = 0)
    (hexec : (execCInsn s c).1 = pcBackward { regWrite s rd (s.pc + 2) with pc := s.pc + imm }) :
    MeansExpansion s c (.jal imm rd) := by
  intro ins
  simp only [hexec, Insn.expanded, Insn.run, insiJJal, raiseIfMisalignedFetch_none hc ht, Except.map, pcBackward,
    regWrite, if_true, Insn.short, pcForward, writeGpr_writeGpr]

/-- c.jr and c.jalr -/
theorem means_jalr {rs1 rd : Reg} (hc : misaCEnabled s = true) (ht : regRead s rs1 &&& 1 = 0)
    (hexec : (execCInsn s c).1 = pcBackward { regWrite s rd (s.pc + 2) with pc := regRead s rs1 }) :
    MeansExpansion s c (.jalr 0 rs1 rd) := by
  intro ins
  have hzero : regRead s rs1 + 0 = regRead s rs1 := BitVec.add_zero _
  have heven : regRead s rs1 &&& ~~~1 = regRead s rs1 := Bits.even_and_not_one ht
  simp only [hexec, Insn.expanded, Insn.run, insiIJalr, hzero, heven, raiseIfMisalignedFetch_none hc ht,
    Except.map, pcBackward, regWrite, if_true, Insn.short, pcForward, writeGpr_writeGpr]

/-- c.beqz and c.bnez -/
theorem means_branch {op : BranchOp} {imm : Word} {rs2 rs1 : Reg} (hc : misaCEnabled s = true)
    (ht : (s.pc + imm) &&& 1 = 0)
    (hexec : (execCInsn s c).1 = if op.taken (regRead s rs1) (regRead s rs2) then pcBackward { s with pc := s.pc + imm }
      else (cNext s).1) : MeansExpansion s c (.branch op imm rs2 rs1) := by
  intro ins
  have hpc : s.pc - 2 + 4 = s.pc + 2 := by bv_omega
  simp only [hexec, Insn.expanded, Insn.run, op.exec_eq, insiBranch, raiseIfMisalignedFetch_none hc ht, Except.map,
    Insn.short]
  by_cases h : op.taken (regRead s rs1) (regRead s rs2) = true
  · simp only [h, if_true, pcBackward]
  · simp only [h, Bool.false_eq_true, if_false, if_true, cNext, pcForward, hpc]

/-- a shift -/
theorem means_shift {op : IOp} {shamt : Word} {rd : Reg} {v : Word}
    (hexec : execCInsn s c = if shamt = 0 then cIllegal s c else cNext (regWrite s rd v))
    (hrun : ∀ ins, (Insn.aluImm op shamt rd rd).run s ins = .ok (regWrite s rd v))
    (hres : (Insn.aluImm op shamt rd rd).takenReserved = decide (shamt = 0)) :
    MeansExpansion s c (.aluImm op shamt rd rd) := by
  by_cases h : shamt = 0
  · rw [MeansExpansion, hres, decide_eq_true h, if_pos rfl, hexec, if_pos h]
  · exact means_regWrite _ _ (hexec.trans (if_neg h)) hrun (fun _ => rfl) (hres.trans (decide_eq_false h))

theorem expandArith_means (hq : c.extractLsb' 0 2 = 1#2) (h3 : c.extractLsb' 13 3 = 4#3) (hx : expandArith c = some i) :
    MeansExpansion s c i := by
  have hexec := execCInsn_quadrant1 s hq
  simp only [execQuadrant1, h3, cRs1p_eq, cRs2p_eq] at hexec
  unfold expandArith at hx
  simp only at hx
  split at hx
  case h_1 h2 h12 =>
    obtain rfl := Option.some.inj hx
    simp only [h2, cShamt_of_bit12 h12] at hexec
    exact means_shift hexec (fun _ => rfl) rfl
  case h_2 h2 h12 =>
    obtain rfl := Option.some.inj hx
    simp only [h2, cShamt_of_bit12 h12] at hexec
    exact means_shift hexec (fun _ => rfl) rfl
  case h_3 h2 =>
    obtain rfl := Option.some.inj hx
    simp only [h2, cImm6_eq] at hexec
    exact means_regWrite _ _ hexec (fun _ => rfl) (fun _ => rfl) rfl
  case h_8 => cases hx
  all_goals
    rename_i h2 h12 h5
    obtain rfl := Option.some.inj hx
    simp only [h2, h5] at hexec
    exact means_regWrite _ _ hexec (fun _ => rfl) (fun _ => rfl) rfl

theorem expandRegister_means (hc : misaCEnabled s = true) (hq : c.extractLsb' 0 2 = 2#2) (h3 : c.extractLsb' 13 3 = 4#3)
    (hx : expandRegister c = some i) (ho : Ordinary s c i) : MeansExpansion s c i := by
  have hexec := execCInsn_quadrant2 s hq
  simp only [execQuadrant2, h3] at hexec
  unfold expandRegister at hx
  by_cases hrs2 : cRs2 c = 0
  · by_cases hrd : cRd c = 0
    · rw [if_pos hrs2, if_pos hrd] at hx
      cases hx
    rw [if_pos hrs2, if_neg hrd] at hx
    by_cases h12 : c.extractLsb' 12 1 = 0
    · -- c.jr
      rw [if_pos h12] at hx
      obtain rfl := Option.some.inj hx
      have heven := ho.evenTarget _ _ _ rfl
      refine means_jalr hc heven ?_
      rw [hexec, if_pos h12, if_pos hrs2, if_neg hrd, raiseIfMisalignedFetch_none hc heven]
      rfl
    · -- c.jalr
      rw [if_neg h12] at hx
      obtain rfl := Option.some.inj hx
      have heven := ho.evenTarget _ _ _ rfl
      have hne : cRd c ≠ 1 := fun he => absurd (ho.otherLink _ _ _ rfl he) (by decide)
      refine means_jalr hc heven ?_
      rw [hexec, if_neg h12, if_neg hrd, if_pos hrs2, raiseIfMisalignedFetch_none hc heven]
      simp only [regRead_regWrite_of_ne s _ hne]
  · by_cases h12 : c.extractLsb' 12 1 = 0
    · -- c.mv
      rw [if_neg hrs2, if_pos h12] at hx
      obtain rfl := Option.some.inj hx
      have hzero : regRead s 0 + regRead s (cRs2 c) = regRead s (cRs2 c) := BitVec.zero_add _
      refine means_regWrite _ _ (hexec.trans ?_) (fun _ => rfl) (fun _ => rfl) rfl
      rw [if_pos h12, if_neg hrs2]
      simp only [hzero]
    · -- c.add
      rw [if_neg hrs2, if_neg h12] at hx
      obtain rfl := Option.some.inj hx
      have hrd : cRd c ≠ 0 := fun hrd => by
        have hhint : isAddHint c = true := decide_eq_true ⟨hq, h3, h12, hrd, hrs2⟩
        exact absurd (hhint.symm.trans ho.noAddHint) (by decide)
      refine means_regWrite _ _ (hexec.trans ?_) (fun _ => rfl) (fun _ => rfl) rfl
      rw [if_neg h12, if_neg hrd, if_neg hrs2]

/-- **Compressed integer instructions mean their expansions.** -/
theorem compressed_expansion (s : Machine) (c : BitVec 16) (i : Insn) (hc : misaCEnabled s = true)
    (hp : fetchAligned s = true) (hx : expandC c = some i) (ho : Ordinary s c i) : MeansExpansion s c i := by
  have hpc : s.pc &&& 1 = 0 := by
    rw [fetchAligned, hc] at hp
    exact of_decide_eq_true hp
  have hj : (s.pc + cJalOffset c) &&& 1 = 0 := by
    rw [cJalOffset_eq]
    exact Bits.even_add hpc (Bits.even_signExtend _)
  have hb : (s.pc + cBranchOffset c) &&& 1 = 0 := by
    rw [cBranchOffset_eq]
    exact Bits.even_add hpc (Bits.even_signExtend _)
  have hh := ho.handler
  simp only [expandC, ← cAddi4spnImm_eq, ← cLsUimm_eq, ← cLwspUimm_eq, ← cSwspUimm_eq, ← cAddi16spImm_eq, ← cImm6_eq,
    ← cJalOffset_eq, ← cBranchOffset_eq, ← cRs1p_eq, ← cRs2p_eq] at hx
  split at hx
  case h_1 hq h3 => -- c.addi4spn
    split_ifs at hx with hz
    obtain rfl := Option.some.inj hx
    have hne : cAddi4spnImm c ≠ 0 := by
      rw [cAddi4spnImm_eq]
      exact fun h0 => hz ((setWidth_eq_zero _ (by decide)).1 h0)
    refine means_regWrite (cRs2p c) (regRead s 2 + cAddi4spnImm c) ?_ (fun _ => rfl) (fun _ => rfl) rfl
    simp only [execCInsn_quadrant0 s hq, execQuadrant0, h3, if_neg hne]
  case h_2 hq h3 => -- c.lw
    obtain rfl := Option.some.inj hx
    refine means_access (fun s => insiILw s (cLsUimm c) (cRs1p c) (cRs2p c)) ?_ (fun _ => rfl) (fun _ => rfl) rfl hh
    simp only [compressedAccess, hq, h3]
  case h_3 hq h3 => -- c.sw
    obtain rfl := Option.some.inj hx
    refine means_access (fun s => insiSSw s (cLsUimm c) (cRs2p c) (cRs1p c)) ?_ (fun _ => rfl) (fun _ => rfl) rfl hh
    simp only [compressedAccess, hq, h3]
  case h_4 hq h3 => -- c.addi
    obtain rfl := Option.some.inj hx
    refine means_regWrite (cRd c) (regRead s (cRd c) + cImm6 c) ?_ (fun _ => rfl) (fun _ => rfl) rfl
    simp only [execCInsn_quadrant1 s hq, execQuadrant1, h3]
  case h_5 hq h3 => -- c.jal
    obtain rfl := Option.some.inj hx
    refine means_jal hc hj ?_
    simp only [execCInsn_quadrant1 s hq, execQuadrant1, h3]
    rfl
  case h_6 hq h3 => -- c.li
    obtain rfl := Option.some.inj hx
    have hzero : regRead s 0 + cImm6 c = cImm6 c := BitVec.zero_add _
    refine means_regWrite (cRd c) (regRead s 0 + cImm6 c) ?_ (fun _ => rfl) (fun _ => rfl) rfl
    simp only [execCInsn_quadrant1 s hq, execQuadrant1, h3, hzero]
  case h_7 hq h3 => -- c.addi16sp, c.lui
    have hexec := execCInsn_quadrant1 s hq
    simp only [execQuadrant1, h3] at hexec
    split_ifs at hx with hz hrd
    · obtain rfl := Option.some.inj hx
      exact means_regWrite _ _ (hexec.trans (if_pos hrd)) (fun _ => rfl) (fun _ => rfl) rfl
    · obtain rfl := Option.some.inj hx
      rw [if_neg hrd] at hexec
      by_cases h0 : cRd c = 0
      · have hres : (Insn.lui (cImm6 c <<< 12) (cRd c)).takenReserved = true := decide_eq_true h0
        rw [MeansExpansion, hres, if_pos rfl, hexec, if_neg (not_not.2 h0)]
      · exact means_regWrite _ _ (hexec.trans (if_pos h0)) (fun _ => rfl) (fun _ => rfl) (decide_eq_false h0)
  case h_8 hq h3 => exact expandArith_means hq h3 hx
  case h_9 hq h3 => -- c.j
    obtain rfl := Option.some.inj hx
    refine means_jal hc hj ?_
    simp only [execCInsn_quadrant1 s hq, execQuadrant1, h3]
    rfl
  case h_10 hq h3 => -- c.beqz
    obtain rfl := Option.some.inj hx
    refine means_branch hc hb ?_
    rw [execCInsn_quadrant1 s hq, execQuadrant1_beqz s h3]
    exact if_congr decide_eq_true_iff.symm rfl rfl
  case h_11 hq h3 => -- c.bnez
    obtain rfl := Option.some.inj hx
    refine means_branch hc hb ?_
    rw [execCInsn_quadrant1 s hq, execQuadrant1_bnez s h3]
    exact if_congr decide_eq_true_iff.symm rfl rfl
  case h_12 hq h3 => -- c.slli
    split_ifs at hx with h12
    obtain rfl := Option.some.inj hx
    have hexec := execCInsn_quadrant2 s hq
    simp only [execQuadrant2, h3, cShamt_of_bit12 h12] at hexec
    exact means_shift hexec (fun _ => rfl) rfl
  case h_13 hq h3 => -- c.lwsp
    split_ifs at hx with hrd
    obtain rfl := Option.some.inj hx
    refine means_access (fun s => insiILw s (cLwspUimm c) 2 (cRd c)) ?_ (fun _ => rfl) (fun _ => rfl) rfl hh
    simp only [compressedAccess, hq, h3, if_neg hrd]
  case h_14 hq h3 => exact expandRegister_means hc hq h3 hx ho
  case h_15 hq h3 => -- c.swsp
    obtain rfl := Option.some.inj hx
    refine means_access (fun s => insiSSw s (cSwspUimm c) (cRs2 c) 2) ?_ (fun _ => rfl) (fun _ => rfl) rfl hh
    simp only [compressedAccess, hq, h3]
  case h_16 => cases hx

end

/-- c.jalr x5 at 0, with 0x100 in x5 -/
def jumpMachine : Machine := machineInit (fun r => if r = 5 then 0x100 else 0) (fun _ => 0) 0

theorem compressed_expansion_jumpMachine : @MeansExpansion noFloat jumpMachine 0x9282 (.jalr 0 5 1) :=
  @compressed_expansion noFloat jumpMachine 0x9282 (.jalr 0 5 1) (by decide) (by decide) (by decide)
    ⟨fun _ _ _ h => by cases h; decide, fun _ _ _ h => by cases h; decide, by decide,
      fun _ h => absurd h (by rw [show compressedCause jumpMachine 0x9282 = none from rfl]; exact nofun)⟩

/-- c.slli x1, 0 is a hint that stands for SLLI x1, x1, 0; the emulator raises illegal instruction -/
theorem shift_by_zero_illegal : expandC 0x0082 = some (.aluImm .slli 0 1 1) ∧ misaCEnabled jumpMachine = true ∧
    fetchAligned jumpMachine = true ∧ ¬ ∀ ins, @Insn.expanded noFloat jumpMachine ins (.aluImm .slli 0 1 1) =
      .ok (pcForward (execCInsn jumpMachine 0x0082).1) := by
  refine ⟨by decide, by decide, by decide, fun h => ?_⟩
  have htraps := congrArg Machine.traps (Except.ok.inj (h 0))
  exact absurd (congrArg List.length htraps) (by decide)

end RiscvEmu
