/-
fcsr stays well formed, and its flags are sticky.

An FP instruction reaches fcsr by or-ing flags into it: those the library raised, or NV of the comparisons and of minimum and
maximum. The three CSR setters mask what they store. Results:
- `AccruesFlags`: what an FP instruction does to fcsr, routine by routine, up to `FpInsn.run_accrues`;
- `setFcsr_fcsr` and its siblings: the setters keep the fields apart, and reserved rounding modes out;
- `FcsrStep.formed`, `FcsrStep.kept`: one step, with what each kind of step must not touch;
- `exec_fcsrSteps`: what exec does with a word is made of these steps;
- `fcsr_well_formed`: every state of every run from reset.
-/
import RiscvEmu.FpuOff
import RiscvEmu.Lib.Bits
import RiscvEmu.Lib.Runs

namespace RiscvEmu

open Runs

/-! ## The two fields -/

/-- fcsr with these fields -/
def fcsrOf (frm : BitVec 3) (flags : BitVec 5) : Word := (frm ++ flags).setWidth 32

/-- frm and fflags alone, and a frm that is not reserved -/
def FcsrFormed (fcsr : Word) : Prop := ∃ frm flags, fcsr = fcsrOf frm flags ∧ frm ≤ 4

section
variable (frm : BitVec 3) (flags : BitVec 5)

theorem fcsrOf_flags : fcsrOf frm flags &&& 0b11111 = flags.setWidth 32 := by
  revert frm flags
  decide

theorem fcsrOf_frm : fcsrOf frm flags >>> 5 &&& 0b111 = frm.setWidth 32 := by
  revert frm flags
  decide

theorem fcsrOf_clear_flags : fcsrOf frm flags &&& ~~~(0b11111 : Word) = fcsrOf frm 0 := by
  revert frm flags
  decide

theorem fcsrOf_clear_frm : fcsrOf frm flags &&& ~~~(0b11100000 : Word) = fcsrOf 0 flags := by
  revert frm flags
  decide

theorem fcsrOf_keep_frm : fcsrOf frm flags &&& 0b11100000 = fcsrOf frm 0 := by
  revert frm flags
  decide

theorem setWidth_fcsrOf : flags.setWidth 32 = fcsrOf 0 flags := by
  revert flags
  decide

theorem shiftLeft_fcsrOf : frm.setWidth 32 <<< 5 = fcsrOf frm 0 := by
  revert frm
  decide

theorem fcsrOf_or (frm' : BitVec 3) (flags' : BitVec 5) :
    fcsrOf frm flags ||| fcsrOf frm' flags' = fcsrOf (frm ||| frm') (flags ||| flags') := by
  unfold fcsrOf
  rw [← BitVec.setWidth_or, BitVec.or_append]

end

/-! ## What an FP instruction does -/

/-- the flags one set of routines returns are fflags bits -/
structure FlagsFit {w : ℕ} (o : FloatOps w) : Prop where
  add : ∀ mode a b, (o.add mode a b).2 < 32
  sub : ∀ mode a b, (o.sub mode a b).2 < 32
  mul : ∀ mode a b, (o.mul mode a b).2 < 32
  div : ∀ mode a b, (o.div mode a b).2 < 32
  sqrt : ∀ mode a, (o.sqrt mode a).2 < 32
  mulAdd : ∀ mode a b c, (o.mulAdd mode a b c).2 < 32
  toI32 : ∀ mode a, (o.toI32 mode a).2 < 32
  toUi32 : ∀ mode a, (o.toUi32 mode a).2 < 32
  toI64 : ∀ mode a, (o.toI64 mode a).2 < 32
  toUi64 : ∀ mode a, (o.toUi64 mode a).2 < 32
  ofI32 : ∀ mode v, (o.ofI32 mode v).2 < 32
  ofUi32 : ∀ mode v, (o.ofUi32 mode v).2 < 32
  ofI64 : ∀ mode v, (o.ofI64 mode v).2 < 32
  ofUi64 : ∀ mode v, (o.ofUi64 mode v).2 < 32

/-- softfloat's exception flags fit in five bits -/
structure SoftFloatFlagsFit [SoftFloat] : Prop where
  ops : ∀ fmt, FlagsFit (SoftFloat.ops fmt)
  convert : ∀ sfmt dfmt mode a, (SoftFloat.convert sfmt dfmt mode a).2 < 32

/-- fcsr of g is that of f with flags or-ed in -/
def AccruesFlags (f g : Fpu) : Prop := ∃ flags : BitVec 5, g.fcsr = f.fcsr ||| flags.setWidth 32

section
variable {f g : Fpu}

theorem AccruesFlags.of_eq (h : g.fcsr = f.fcsr) : AccruesFlags f g := by
  refine ⟨0, ?_⟩
  rw [h]
  exact (BitVec.or_zero).symm

theorem AccruesFlags.of_byte {flags : Byte} (hfit : flags < 32) (h : g.fcsr = f.fcsr ||| flags.setWidth 32) :
    AccruesFlags f g := by
  have hlt : flags.toNat < 32 := BitVec.lt_def.1 hfit
  have hflags : (flags.setWidth 5).setWidth 32 = flags.setWidth 32 := by
    refine BitVec.eq_of_toNat_eq ?_
    rw [BitVec.toNat_setWidth, BitVec.toNat_setWidth, BitVec.toNat_setWidth]
    omega
  exact ⟨flags.setWidth 5, by rw [h, hflags]⟩

/-- sf_begin, a routine and sf_end -/
theorem sfEnd_fcsr (f : Fpu) (rm : BitVec 3) (flags : Byte) :
    (sfEnd (sfRaise (sfBegin f rm) flags)).fcsr = f.fcsr ||| flags.setWidth 32 := by
  have hzero : (0 : Byte) ||| flags = flags := BitVec.zero_or
  change f.fcsr ||| ((0 : Byte) ||| flags).setWidth 32 = f.fcsr ||| flags.setWidth 32
  rw [hzero]

theorem sfEnd_accrues (f : Fpu) (rm : BitVec 3) {flags : Byte} (hfit : flags < 32) :
    AccruesFlags f (sfEnd (sfRaise (sfBegin f rm) flags)) := .of_byte hfit (sfEnd_fcsr f rm flags)

theorem raiseFcsr_accrues (f : Fpu) : AccruesFlags f (raiseFcsr f fflagNV) := .of_byte (by decide) rfl

end

section
variable [SoftFloat] {fmt : Fmt} {s : Machine} {rs1 rs2 rs3 rd : Reg}

omit [SoftFloat] in
theorem binop_accrues {fn : RoundingMode → BitVec fmt.width → BitVec fmt.width → BitVec fmt.width × Byte}
    (hfit : ∀ mode a b, (fn mode a b).2 < 32) (rm : BitVec 3) :
    AccruesFlags s.fpu (binop fmt fn s rs2 rs1 rm rd).fpu := sfEnd_accrues s.fpu rm (hfit ..)

theorem minmaxOp_accrues (pick : Bool → BitVec fmt.width → BitVec fmt.width → BitVec fmt.width) :
    AccruesFlags s.fpu (minmaxOp fmt (rvFminmax pick) s rs2 rs1 rd).fpu := by
  unfold minmaxOp rvFminmax
  by_cases hnv : isSignalingNan (fprRead fmt s.fpu rs1) || isSignalingNan (fprRead fmt s.fpu rs2)
  · have h := raiseFcsr_accrues s.fpu
    simp only [if_pos hnv]
    split_ifs <;> exact h
  · have h : AccruesFlags s.fpu s.fpu := .of_eq rfl
    simp only [if_neg hnv]
    split_ifs <;> exact h

theorem fcmp_accrues (op : BitVec 3) : AccruesFlags s.fpu (fcmp fmt s op rs2 rs1 rd).fpu := by
  have hraise := raiseFcsr_accrues s.fpu
  have hsame : AccruesFlags s.fpu s.fpu := .of_eq rfl
  unfold fcmp regWrite
  dsimp only
  split_ifs <;> first | exact hraise | exact hsame

/-- a conversion between formats that is there runs the routine of its target -/
theorem fcvtFpFp_cases {field : BitVec 5} {rm : BitVec 3} {t : Machine} (h : fcvtFpFp fmt s field rs1 rm rd = .ok t) :
    ∃ sfmt, Fmt.ofSource field = some sfmt ∧ sfmt ≠ fmt ∧
      (fmt ≠ .Q ∧ t = fcvtNarrow sfmt fmt s rs1 rm rd ∨ fmt = .Q ∧ t = fcvtWiden sfmt s rs1 rd) := by
  unfold fcvtFpFp at h
  cases hsource : Fmt.ofSource field with
  | none =>
    rw [hsource] at h
    cases fmt <;> cases h
  | some sfmt =>
    rw [hsource] at h
    refine ⟨sfmt, rfl, ?_⟩
    cases fmt <;> cases sfmt <;> cases h <;> first | exact ⟨nofun, .inr ⟨rfl, rfl⟩⟩ | exact ⟨nofun, .inl ⟨nofun, rfl⟩⟩

variable (hfit : SoftFloatFlagsFit)
include hfit

theorem sqrtOp_accrues (rm : BitVec 3) : AccruesFlags s.fpu (sqrtOp fmt s rs1 rm rd).fpu :=
  sfEnd_accrues s.fpu rm ((hfit.ops fmt).sqrt ..)

theorem fma_accrues (subop : BitVec 2) (rm : BitVec 3) : AccruesFlags s.fpu (fma fmt s subop rs3 rs2 rs1 rm rd).fpu :=
  sfEnd_accrues s.fpu rm ((hfit.ops fmt).mulAdd ..)

theorem fcvtIntFp_accrues (kind : BitVec 5) (rm : BitVec 3) : AccruesFlags s.fpu (fcvtIntFp fmt s kind rs1 rm rd).fpu := by
  have h := hfit.ops fmt
  unfold fcvtIntFp
  dsimp only
  split_ifs
  · exact sfEnd_accrues s.fpu rm (h.ofI32 ..)
  · exact sfEnd_accrues s.fpu rm (h.ofUi32 ..)
  · exact sfEnd_accrues s.fpu rm (h.ofI64 ..)
  · exact sfEnd_accrues s.fpu rm (h.ofUi64 ..)

theorem fcvtFpInt_accrues (kind : BitVec 5) (rm : BitVec 3) : AccruesFlags s.fpu (fcvtFpInt fmt s kind rs1 rm).2 := by
  have h := hfit.ops fmt
  unfold fcvtFpInt
  by_cases hspecial : isNan (fprRead fmt s.fpu rs1) || isInf (fprRead fmt s.fpu rs1)
  · simp only [if_pos hspecial]
    exact sfEnd_accrues s.fpu rm (by decide)
  simp only [if_neg hspecial]
  split_ifs
  · exact sfEnd_accrues s.fpu rm (h.toI32 ..)
  · exact sfEnd_accrues s.fpu rm (h.toUi32 ..)
  · exact sfEnd_accrues s.fpu rm (h.toI64 ..)
  · exact sfEnd_accrues s.fpu rm (h.toUi64 ..)

theorem fcvtFpFp_accrues {field : BitVec 5} {rm : BitVec 3} {t : Machine} (h : fcvtFpFp fmt s field rs1 rm rd = .ok t) :
    AccruesFlags s.fpu t.fpu := by
  obtain ⟨sfmt, -, -, ⟨-, rfl⟩ | ⟨-, rfl⟩⟩ := fcvtFpFp_cases h
  · exact sfEnd_accrues s.fpu rm (hfit.convert ..)
  · exact .of_eq rfl

theorem insfRFma_accrues (ins : Word) (subop : BitVec 2) : AccruesFlags s.fpu (insfRFma s ins subop).fpu := by
  unfold insfRFma
  cases Fmt.ofField (ins.extractLsb' 25 2) <;> exact fma_accrues hfit subop _

theorem insfRFpop_accrues {ins : Word} {t : Machine} (h : insfRFpop s ins = .ok t) : AccruesFlags s.fpu t.fpu := by
  unfold insfRFpop at h
  generalize Fmt.ofField (ins.extractLsb' 25 2) = fmt at h
  have hf := hfit.ops fmt
  simp only at h
  split at h
  · cases fmt <;> cases h <;> exact binop_accrues hf.add _
  · cases fmt <;> cases h <;> exact binop_accrues hf.sub _
  · cases fmt <;> cases h <;> exact binop_accrues hf.mul _
  · cases fmt <;> cases h <;> exact binop_accrues hf.div _
  · cases fmt <;> cases h <;> exact .of_eq rfl
  · unfold doFminmax at h
    cases fmt <;> split_ifs at h <;> cases h <;> exact minmaxOp_accrues _
  · cases fmt <;> cases h <;> exact sqrtOp_accrues hfit _
  · cases fmt <;> cases h <;> exact fcmp_accrues _
  · split_ifs at h
    · cases h; exact .of_eq rfl
    · cases fmt <;> cases h <;> exact .of_eq rfl
  · split_ifs at h
    cases h; exact .of_eq rfl
  · cases h; exact fcvtFpInt_accrues hfit _ _
  · cases h; exact fcvtIntFp_accrues hfit _ _
  · exact fcvtFpFp_accrues hfit h
  · cases h

end

section
variable {s t : Machine}

/-- a load that boxes what it read -/
theorem fpu_accrues {f : Fpu → Fpu} (hf : ∀ g, (f g).fcsr = g.fcsr) (ht : t.fpu = s.fpu) : AccruesFlags s.fpu (f t.fpu) := by
  refine .of_eq ?_
  rw [hf, ht]

theorem FLoadOp.exec_accrues (op : FLoadOp) (imm : Word) (rs1 rd : Reg) :
    AccruesFlags s.fpu (op.exec s imm rs1 rd).fpu := by
  have hbox : ∀ {fmt : Fmt} (v : BitVec fmt.width) g, (fprWrite fmt g rd v).fcsr = g.fcsr := fun _ _ => rfl
  cases op with
  | flh => exact fpu_accrues (hbox _) (mmuRead_kept_side s memRead16Unsigned_side _).1
  | flw => exact fpu_accrues (hbox _) (mmuRead_kept_side s memRead32Unsigned_side _).1
  | fld => exact fpu_accrues (hbox _) (mmuRead_kept_side s memRead64Unsigned_side _).1
  | flq =>
    have hlo := (mmuRead_kept_side s memRead64Unsigned_side (regRead s rs1 + imm)).1
    have hhi := (mmuRead_kept_side (mmuRead memRead64Unsigned s (regRead s rs1 + imm)).2 memRead64Unsigned_side
      (regRead s rs1 + imm + 8)).1
    exact fpu_accrues (hbox _) (hhi.trans hlo)

theorem FStoreOp.exec_fpu (op : FStoreOp) (imm : Word) (rs1 rs2 : Reg) : (op.exec s imm rs1 rs2).fpu = s.fpu := by
  cases op with
  | fsh => exact (mmuWrite_kept_side s memWrite16_side _ _).1
  | fsw => exact (mmuWrite_kept_side s memWrite32_side _ _).1
  | fsd => exact (mmuWrite_kept_side s memWrite64_side _ _).1
  | fsq =>
    have hlo := (mmuWrite_kept_side s memWrite64_side (regRead s rs1 + imm) ((fprRead .Q s.fpu rs2).setWidth 64)).1
    exact ((mmuWrite_kept_side _ memWrite64_side _ _).1).trans hlo

theorem execCInsn_accrues {c : BitVec 16} (h : compressedFp c) : AccruesFlags s.fpu (execCInsn s c).1.fpu := by
  obtain ⟨a, ha, hfp⟩ := (compressedFp_iff c).1 h
  rw [execCInsn_op ha, cAccess_fpu]
  cases a with
  | fload op imm rs1 rd => exact op.exec_accrues imm rs1 rd
  | fstore op imm rs1 rs2 => exact .of_eq (congrArg Fpu.fcsr (op.exec_fpu imm rs1 rs2))
  | _ => cases hfp

variable [SoftFloat] (hfit : SoftFloatFlagsFit)
include hfit

/-- **What an FP instruction does to fcsr.** -/
theorem FpInsn.run_accrues {i : FpInsn} {ins : Word} (h : i.run s ins = .ok t) : AccruesFlags s.fpu t.fpu := by
  cases i with
  | load op imm rs1 rd =>
    obtain rfl := Except.ok.inj h
    exact op.exec_accrues imm rs1 rd
  | store op imm rs1 rs2 =>
    obtain rfl := Except.ok.inj h
    exact .of_eq (congrArg Fpu.fcsr (op.exec_fpu imm rs1 rs2))
  | fma subop =>
    obtain rfl := Except.ok.inj h
    exact insfRFma_accrues hfit ins subop
  | fpop => exact insfRFpop_accrues hfit h
  | fatal f => cases h

/-- the same with the test of FS in front -/
theorem Insn.fp_accrues {i : FpInsn} {ins : Word} (h : (Insn.fp i).run s ins = .ok t) : AccruesFlags s.fpu t.fpu := by
  rw [Insn.run] at h
  split_ifs at h with hoff
  · obtain rfl := Except.ok.inj h
    exact .of_eq (congrArg Fpu.fcsr (raiseExceptionPc_fpu ..))
  · exact FpInsn.run_accrues hfit h

end

/-! ## The setters -/

section
variable {s : Machine} {frm : BitVec 3} {flags : BitVec 5}

theorem csrRead_fflags (h : s.fpu.fcsr = fcsrOf frm flags) : csrRead s csrFflags = flags.setWidth 32 := by
  change s.fpu.fcsr &&& 0b11111 = _
  rw [h, fcsrOf_flags]

theorem csrRead_frm (h : s.fpu.fcsr = fcsrOf frm flags) : csrRead s csrFrm = frm.setWidth 32 := by
  change s.fpu.fcsr >>> 5 &&& 0b111 = _
  rw [h, fcsrOf_frm]

theorem low_flags (val : Word) : val &&& 0b11111 = (val.setWidth 5).setWidth 32 :=
  Bits.and_mask_eq_setWidth val _ (by decide) (by decide)

theorem low_frm (val : Word) : val &&& 0b111 = (val.setWidth 3).setWidth 32 :=
  Bits.and_mask_eq_setWidth val _ (by decide) (by decide)

/-- set_fflags replaces the flags -/
theorem setFflags_fcsr (h : s.fpu.fcsr = fcsrOf frm flags) (val : Word) :
    (setFflags s val).fpu.fcsr = fcsrOf frm (val.setWidth 5) := by
  change s.fpu.fcsr &&& ~~~(0b11111 : Word) ||| val &&& 0b11111 = _
  rw [h, fcsrOf_clear_flags, low_flags, setWidth_fcsrOf, fcsrOf_or]
  simp

/-- set_frm replaces frm, by a mode that is not reserved -/
theorem setFrm_fcsr (h : s.fpu.fcsr = fcsrOf frm flags) {val : Word} (hval : val ≤ 4) :
    (setFrm s val).fpu.fcsr = fcsrOf (val.setWidth 3) flags := by
  have hlow : (val.setWidth 3).setWidth 32 = val := by bv_omega
  have hset : setFrm s val = setFcsrReg s (s.fpu.fcsr &&& ~~~(0b11100000 : Word) ||| val <<< 5) :=
    if_neg (BitVec.not_lt.2 hval)
  rw [hset]
  change s.fpu.fcsr &&& ~~~(0b11100000 : Word) ||| val <<< 5 = _
  rw [h, fcsrOf_clear_frm, ← hlow, shiftLeft_fcsrOf, fcsrOf_or, hlow]
  simp

theorem setFrm_reserved {val : Word} (hval : ¬ val ≤ 4) : setFrm s val = s := if_pos (BitVec.not_le.1 hval)

/-- set_fcsr replaces the flags, and frm by a mode that is not reserved -/
theorem setFcsr_fcsr (h : s.fpu.fcsr = fcsrOf frm flags) (val : Word) : (setFcsr s val).fpu.fcsr =
    fcsrOf (if (val >>> 5).setWidth 3 ≤ 4#3 then (val >>> 5).setWidth 3 else frm) (val.setWidth 5) := by
  have hle : val >>> 5 &&& 0b111 ≤ 4 ↔ (val >>> 5).setWidth 3 ≤ 4#3 := by
    rw [low_frm]
    generalize (val >>> 5).setWidth 3 = m
    revert m
    decide
  have hflags : (val &&& 0b11111#32) &&& 0b11111#32 = fcsrOf 0 (val.setWidth 5) := by
    rw [BitVec.and_assoc, BitVec.and_self, ← setWidth_fcsrOf]
    exact low_flags val
  by_cases hmode : (val >>> 5).setWidth 3 ≤ 4#3
  · have hset : (setFcsr s val).fpu.fcsr = (val &&& 0b11111#32) &&& 0b11111#32 ||| (val >>> 5 &&& 0b111) <<< 5 :=
      congrArg (fun t : Machine => t.fpu.fcsr) (if_pos (hle.2 hmode))
    rw [hset, hflags, low_frm, shiftLeft_fcsrOf, fcsrOf_or, if_pos hmode]
    simp
  · have hset : (setFcsr s val).fpu.fcsr = (val &&& 0b11111#32) &&& 0b11111#32 ||| s.fpu.fcsr &&& 0b11100000 :=
      congrArg (fun t : Machine => t.fpu.fcsr) (if_neg (mt hle.1 hmode))
    rw [hset, hflags, h, fcsrOf_keep_frm, fcsrOf_or, if_neg hmode]
    simp

end

/-! ## Runs -/

/-- what a step of a run is: an FP instruction with FS tested, a compressed FP load or store, a write of any value to fflags,
frm or fcsr, or anything that leaves the FP state alone -/
inductive FcsrOp where
  | fp (i : FpInsn) (ins : Word)
  | compressed (c : BitVec 16)
  | write (csr : Csr) (val : Word)
  | other

def FcsrOp.isFp : FcsrOp → Bool
  | .fp .. | .compressed _ => true
  | _ => false

inductive FcsrStep [SoftFloat] : Machine → FcsrOp → Machine → Prop
  | fp {s t : Machine} {i : FpInsn} {ins : Word} (h : (Insn.fp i).run s ins = .ok t) : FcsrStep s (.fp i ins) t
  | compressed {s : Machine} {c : BitVec 16} (h : compressedFp c) : FcsrStep s (.compressed c) (execCInsn s c).1
  | write {s : Machine} {csr : Csr} (val : Word) (h : isFpCsr csr) : FcsrStep s (.write csr val) (csrWrite s csr val)
  | other {s t : Machine} (h : t.fpu = s.fpu) : FcsrStep s .other t

/-- fcsr as the three registers show it -/
structure FcsrWellFormed (s : Machine) : Prop where
  fcsr_lt : csrRead s csrFcsr < 256
  frm_le : csrRead s csrFrm ≤ 4
  view : csrRead s csrFcsr = csrRead s csrFrm <<< 5 ||| csrRead s csrFflags

/-- what one step leaves alone -/
structure FcsrKept (s : Machine) (op : FcsrOp) (t : Machine) : Prop where
  /-- an FP instruction clears no flag and changes no mode -/
  sticky : op.isFp = true → csrRead s csrFflags &&& ~~~csrRead t csrFflags = 0 ∧ csrRead t csrFrm = csrRead s csrFrm
  fflags : ∀ val, op = .write csrFflags val → csrRead t csrFrm = csrRead s csrFrm
  frm : ∀ val, op = .write csrFrm val → csrRead t csrFflags = csrRead s csrFflags

section
variable {s t : Machine} {op : FcsrOp}

theorem FcsrFormed.wellFormed (h : FcsrFormed s.fpu.fcsr) : FcsrWellFormed s := by
  obtain ⟨frm, flags, hf, hmode⟩ := h
  have hall : ∀ (frm : BitVec 3) (flags : BitVec 5), fcsrOf frm flags < 256 ∧
      fcsrOf frm flags = frm.setWidth 32 <<< 5 ||| flags.setWidth 32 := by decide
  have hle : ∀ frm : BitVec 3, frm ≤ 4 → frm.setWidth 32 ≤ 4#32 := by decide
  have hread : csrRead s csrFcsr = fcsrOf frm flags := hf
  refine ⟨?_, ?_, ?_⟩
  · rw [hread]
    exact (hall frm flags).1
  · rw [csrRead_frm hf]
    exact hle frm hmode
  · rw [hread, csrRead_frm hf, csrRead_fflags hf]
    exact (hall frm flags).2

/-- flags or-ed in -/
theorem AccruesFlags.fcsrOf {f g : Fpu} {frm : BitVec 3} {flags : BitVec 5} (h : AccruesFlags f g)
    (hf : f.fcsr = fcsrOf frm flags) : ∃ more, g.fcsr = RiscvEmu.fcsrOf frm (flags ||| more) := by
  obtain ⟨more, hg⟩ := h
  refine ⟨more, ?_⟩
  rw [hg, hf, setWidth_fcsrOf, fcsrOf_or]
  simp

variable [SoftFloat]

/-- an FP step accrues flags -/
theorem FcsrStep.accrues (hfit : SoftFloatFlagsFit) (h : FcsrStep s op t) (hop : op.isFp = true) :
    AccruesFlags s.fpu t.fpu := by
  cases h with
  | fp h => exact Insn.fp_accrues hfit h
  | compressed h => exact execCInsn_accrues h
  | write => cases hop
  | other => cases hop

/-- **One step keeps fcsr formed.** -/
theorem FcsrStep.formed (hfit : SoftFloatFlagsFit) (h : FcsrStep s op t) (hs : FcsrFormed s.fpu.fcsr) :
    FcsrFormed t.fpu.fcsr := by
  obtain ⟨frm, flags, hf, hmode⟩ := hs
  cases hop : op.isFp with
  | true =>
    obtain ⟨more, hg⟩ := (h.accrues hfit hop).fcsrOf hf
    exact ⟨frm, _, hg, hmode⟩
  | false =>
    cases h with
    | fp => cases hop
    | compressed => cases hop
    | other h => exact ⟨frm, flags, by rw [h, hf], hmode⟩
    | write val h =>
      rcases h with rfl | rfl | rfl
      · exact ⟨frm, _, setFflags_fcsr hf val, hmode⟩
      · by_cases hval : val ≤ 4
        · exact ⟨_, flags, setFrm_fcsr hf hval, by bv_omega⟩
        · have hset : csrWrite s csrFrm val = s := setFrm_reserved hval
          rw [hset]
          exact ⟨frm, flags, hf, hmode⟩
      · refine ⟨_, _, setFcsr_fcsr hf val, ?_⟩
        split_ifs with hnew
        · exact hnew
        · exact hmode

/-- **One step keeps the other field.** -/
theorem FcsrStep.kept (hfit : SoftFloatFlagsFit) (h : FcsrStep s op t) (hs : FcsrFormed s.fpu.fcsr) : FcsrKept s op t := by
  obtain ⟨frm, flags, hf, -⟩ := hs
  refine ⟨?_, ?_, ?_⟩
  · intro hop
    obtain ⟨more, hg⟩ := (h.accrues hfit hop).fcsrOf hf
    have hall : ∀ flags more : BitVec 5, flags.setWidth 32 &&& ~~~(flags ||| more).setWidth 32 = 0#32 := by decide
    rw [csrRead_fflags hf, csrRead_fflags hg, csrRead_frm hf, csrRead_frm hg]
    exact ⟨hall flags more, rfl⟩
  · rintro val rfl
    cases h with
    | write _ h =>
      have hset : csrWrite s csrFflags val = setFflags s val := rfl
      rw [hset, csrRead_frm hf, csrRead_frm (setFflags_fcsr hf val)]
  · rintro val rfl
    cases h with
    | write _ h =>
      have hset : csrWrite s csrFrm val = setFrm s val := rfl
      rw [hset]
      by_cases hval : val ≤ 4
      · rw [csrRead_fflags hf, csrRead_fflags (setFrm_fcsr hf hval)]
      · rw [setFrm_reserved hval]

/-- a word that exec executes is such a step, or a write of an FP register and the register write after it -/
theorem exec_fcsrSteps {ins : Word} (h : exec s ins = .ok t) : ∃ p, Path FcsrStep s p t := by
  have hone : ∀ {op}, FcsrStep s op t → ∃ p, Path FcsrStep s p t := fun hstep => ⟨_, .cons hstep (.nil _)⟩
  obtain ⟨-, rfl⟩ | ⟨-, hc, rfl⟩ | ⟨-, hrun⟩ := exec_cases h
  · exact hone (.other (raiseExceptionPc_fpu ..))
  · by_cases hfp : compressedFp (ins.setWidth 16)
    · exact hone (.compressed hfp)
    · exact hone (.other (execCInsn_fpu (compressed_quadrant hc.2) hfp))
  · by_cases hcsr : (decode ins).namesFpCsr
    · cases hd : decode ins with
      | zicsr op rs1 rd csr =>
        rw [hd] at hrun hcsr
        obtain rfl := Except.ok.inj hrun
        have hcheck : checkCsrAccess s csr ins = s := if_neg (by rw [fpCsr_legal s hcsr]; exact Bool.false_ne_true)
        rw [op.exec_eq]
        simp only [insZicsr, hcheck]
        cases op.newVal rs1 s (csrRead s csr) with
        | none =>
          refine ⟨_, .cons (.other ?_) (.nil _)⟩
          dsimp only
          split_ifs <;> rfl
        | some val =>
          refine ⟨_, .cons (.write val hcsr) (.cons (.other ?_) (.nil _))⟩
          dsimp only
          split_ifs <;> rfl
      | _ =>
        rw [hd] at hcsr
        exact hcsr.elim
    · cases hd : decode ins with
      | fp i =>
        rw [hd] at hrun
        exact hone (.fp hrun)
      | _ =>
        rw [hd] at hrun hcsr
        exact hone (.other (Insn.run_fpu rfl hcsr hrun))

/-- **fcsr in every state of every run.** -/
theorem fcsr_well_formed (hfit : SoftFloatFlagsFit) (gpr : Reg → Word) (mainMemory : Word → Byte) (programBase : Word)
    {p : List (Machine × FcsrOp)} (hp : Path FcsrStep (machineInit gpr mainMemory programBase) p s) :
    FcsrWellFormed s ∧ ∀ op t, FcsrStep s op t → FcsrKept s op t := by
  have hinit : FcsrFormed (machineInit gpr mainMemory programBase).fpu.fcsr := ⟨0, 0, rfl, by decide⟩
  have hstep : ∀ t l u, FcsrFormed t.fpu.fcsr → True → FcsrStep t l u → FcsrFormed u.fpu.fcsr :=
    fun _ _ _ ht _ h => h.formed hfit ht
  have hs : FcsrFormed s.fpu.fcsr := hp.invariant (I := fun s => FcsrFormed s.fpu.fcsr) hstep hinit fun _ _ => trivial
  exact ⟨hs.wellFormed, fun op t hstep => hstep.kept hfit hs⟩

end

/-- the steps of a session: 0xA1 written to fcsr, NX with a reserved frm; mstatus.FS set; fmv.w.x f1, x1 with a signaling
NaN in x1; and fmin.s f2, f1, f1, which raises NV -/
def nanWritten : Machine := csrWrite (machineInit (fun r => if r = 1 then 0x7F800001 else 0) (fun _ => 0) 0) csrFcsr 0xA1
def nanOn : Machine := csrWrite nanWritten csrMstatus 0x6000
def nanMoved : Machine := ((@Insn.run noFloat nanOn 0xF00080D3 (.fp .fpop)).toOption).getD nanOn
def nanCompared : Machine := ((@Insn.run noFloat nanMoved 0x28108153 (.fp .fpop)).toOption).getD nanMoved

theorem fcsr_well_formed_nanCompared : FcsrWellFormed nanCompared ∧ csrRead nanCompared csrFcsr = 0x11 ∧
    ∀ op t, @FcsrStep noFloat nanCompared op t → FcsrKept nanCompared op t := by
  have hzero : (0 : Byte) < 32 := by decide
  have hfit : @SoftFloatFlagsFit noFloat := by
    refine @SoftFloatFlagsFit.mk noFloat ?_ fun _ _ _ _ => hzero
    intro fmt
    constructor <;> intros <;> exact hzero
  have hwrite := @FcsrStep.write noFloat (machineInit (fun r => if r = 1 then 0x7F800001 else 0) (fun _ => 0) 0) csrFcsr
    0xA1 (.inr (.inr rfl))
  have hon : @FcsrStep noFloat nanWritten .other nanOn := @FcsrStep.other noFloat _ _ rfl
  have hmove : @FcsrStep noFloat nanOn (.fp .fpop 0xF00080D3) nanMoved := @FcsrStep.fp noFloat _ _ _ _ rfl
  have hmin : @FcsrStep noFloat nanMoved (.fp .fpop 0x28108153) nanCompared := @FcsrStep.fp noFloat _ _ _ _ rfl
  have hpath := Path.cons hwrite (.cons hon (.cons hmove (.cons hmin (.nil _))))
  obtain ⟨hformed, hkept⟩ := @fcsr_well_formed _ noFloat hfit _ _ _ _ hpath
  exact ⟨hformed, by decide, hkept⟩

end RiscvEmu
