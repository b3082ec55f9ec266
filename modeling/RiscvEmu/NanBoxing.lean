/-
NaN-boxing.

fpr_write_h, fpr_write_s and fpr_write_d fill the lane above the value with ones. fpr_read_h, fpr_read_s and fpr_read_d
take the low bits and do not look at the lane above. Results:
- `fprRead_fprWrite`: a value that was boxed reads back;
- `FpInsn.run_boxed`, `FpInsn.run_low`: what one FP instruction writes, and what it reads;
- `nan_boxing`: every H, S or D result is boxed, and an operand is the low bits of its register, whatever is above them;
- `unboxed_operand`: FCLASS.S of a register that holds no boxed single.
-/
import RiscvEmu.Access
import RiscvEmu.Init
import RiscvEmu.Steps

namespace RiscvEmu

/-! ## Boxes -/

/-- the bits above the format are ones -/
def Boxed (fmt : Fmt) (x : BitVec 128) : Prop := ∀ i, fmt.width ≤ i → i < 128 → x.getLsbD i = true

/-- the value with ones above it -/
def box (fmt : Fmt) (v : BitVec fmt.width) : BitVec 128 := BitVec.allOnes 128 <<< fmt.width ||| v.setWidth 128

/-- s with another FP register file -/
def Machine.withFpr (s : Machine) (g : Reg → BitVec 128) : Machine := { s with fpu := { s.fpu with fpr := g } }

section
variable (fmt : Fmt) (f : Fpu) (rd : Reg) (v : BitVec fmt.width)

theorem Fmt.width_le : fmt.width ≤ 128 := by cases fmt <;> decide

theorem fprWrite_fpr : (fprWrite fmt f rd v).fpr rd = box fmt v := Function.update_self ..

theorem fprWrite_boxed : Boxed fmt ((fprWrite fmt f rd v).fpr rd) := by
  intro i hi hlt
  rw [fprWrite_fpr, box, BitVec.getLsbD_or, BitVec.getLsbD_shiftLeft, BitVec.getLsbD_allOnes]
  have hlane : i - fmt.width < 128 := by omega
  simp [hlt, hlane, Nat.not_lt.2 hi]

theorem fprRead_fprWrite : fprRead fmt (fprWrite fmt f rd v) rd = v := by
  have hw := fmt.width_le
  unfold fprRead
  rw [fprWrite_fpr, box]
  refine BitVec.eq_of_getLsbD_eq ?_
  intro i hi
  have hlt : i < 128 := by omega
  simp [hi, hlt]

/-- a write to another register file leaves the same value -/
theorem fprWrite_withFpr (g : Reg → BitVec 128) : fprWrite fmt { f with fpr := g } rd v =
    { fprWrite fmt f rd v with fpr := Function.update g rd ((fprWrite fmt f rd v).fpr rd) } := by
  rw [fprWrite_fpr]
  rfl

end

/-! ## Operands and results -/

/-- the format and the register of the result an FP-OP writes to the FP registers -/
def fpopResult (ins : Word) : Option (Fmt × Reg) :=
  match ins.extractLsb' 27 5 with
  | 0#5 | 1#5 | 2#5 | 3#5 | 4#5 | 5#5 | 11#5 | 30#5 | 26#5 | 8#5 =>
    some (Fmt.ofField (ins.extractLsb' 25 2), ins.extractLsb' 7 5)
  | _ => none

/-- the format and the source registers of an FP-OP that computes on them: all but the raw transfers -/
def fpopOperands (ins : Word) : Option (Fmt × List Reg) :=
  let fmt := Fmt.ofField (ins.extractLsb' 25 2)
  let rs2 := ins.extractLsb' 20 5
  let rs1 := ins.extractLsb' 15 5
  match ins.extractLsb' 27 5 with
  | 0#5 | 1#5 | 2#5 | 3#5 | 4#5 | 5#5 | 20#5 => some (fmt, [rs1, rs2])
  | 11#5 | 24#5 => some (fmt, [rs1])
  | 28#5 => if ins.extractLsb' 12 3 = 1 then some (fmt, [rs1]) else none
  | 8#5 => (Fmt.ofSource rs2).map fun sfmt => (sfmt, [rs1])
  | _ => none

def FLoadOp.fmt : FLoadOp → Fmt
  | .flh => .H
  | .flw => .S
  | .fld => .D
  | .flq => .Q

def FpInsn.result (ins : Word) : FpInsn → Option (Fmt × Reg)
  | .load op _ _ rd => some (op.fmt, rd)
  | .fma _ => some (Fmt.ofField (ins.extractLsb' 25 2), ins.extractLsb' 7 5)
  | .fpop => fpopResult ins
  | _ => none

def FpInsn.operands (ins : Word) : FpInsn → Option (Fmt × List Reg)
  | .fma _ => some (Fmt.ofField (ins.extractLsb' 25 2), [ins.extractLsb' 15 5, ins.extractLsb' 20 5, ins.extractLsb' 27 5])
  | .fpop => fpopOperands ins
  | _ => none

def Insn.fpResult (ins : Word) : Insn → Option (Fmt × Reg)
  | .fp i => i.result ins
  | _ => none

def Insn.fpOperands (ins : Word) : Insn → Option (Fmt × List Reg)
  | .fp i => i.operands ins
  | _ => none

def Access.result : Access → Option (Fmt × Reg)
  | .fload op _ _ rd => some (op.fmt, rd)
  | _ => none

/-- the FP register file after the instruction, when it was g before -/
def resultIn (g : Reg → BitVec 128) (result : Option (Fmt × Reg)) (t : Machine) : Reg → BitVec 128 :=
  match result with
  | some (_, rd) => Function.update g rd (t.fpu.fpr rd)
  | none => g

/-- g has the low bits of s in the registers -/
def agreeLow (fmt : Fmt) (rs : List Reg) (s : Machine) (g : Reg → BitVec 128) : Prop :=
  ∀ r ∈ rs, (g r).setWidth fmt.width = (s.fpu.fpr r).setWidth fmt.width

section
variable {fmt : Fmt} {rs : List Reg} {s : Machine} {g : Reg → BitVec 128}

theorem agreeLow.read (h : agreeLow fmt rs s g) {r : Reg} (hr : r ∈ rs) :
    fprRead fmt (s.withFpr g).fpu r = fprRead fmt s.fpu r := h r hr

end

/-! ## The routines -/

/-- the routine writes a boxed result to rd, the same from the register file g -/
structure WritesBoxed (fmt : Fmt) (rd : Reg) (s : Machine) (g : Reg → BitVec 128) (r : Machine → Machine) : Prop where
  boxed : Boxed fmt ((r s).fpu.fpr rd)
  low : r (s.withFpr g) = (r s).withFpr (Function.update g rd ((r s).fpu.fpr rd))

section
variable {fmt : Fmt} {rs1 rs2 rs3 rd : Reg} {s : Machine} {g : Reg → BitVec 128}

/-- a routine that writes v, with the rest of the FP state as k leaves it -/
theorem writesBoxed_of {k : Machine → Fpu} {v : Machine → BitVec fmt.width}
    (hk : k (s.withFpr g) = { k s with fpr := g }) (hv : v (s.withFpr g) = v s) :
    WritesBoxed fmt rd s g fun s => { s with fpu := fprWrite fmt (k s) rd (v s) } := by
  refine ⟨fprWrite_boxed fmt (k s) rd (v s), ?_⟩
  dsimp only
  rw [hk, hv, fprWrite_withFpr]
  rfl

theorem binop_low (fn : RoundingMode → BitVec fmt.width → BitVec fmt.width → BitVec fmt.width × Byte) (rm : BitVec 3)
    (h : agreeLow fmt [rs1, rs2] s g) : WritesBoxed fmt rd s g fun s => binop fmt fn s rs2 rs1 rm rd := by
  have h1 := h.read (.head _)
  have h2 := h.read (.tail _ (.head _))
  refine writesBoxed_of (k := fun s => sfEnd (sfRaise (sfBegin s.fpu rm)
    (fn (sfRm s.fpu rm) (fprRead fmt s.fpu rs1) (fprRead fmt s.fpu rs2)).2)) ?_ ?_
  · simp only [h1, h2]
    rfl
  · simp only [h1, h2]
    rfl

theorem fsgnj_low (op : BitVec 3) (h : agreeLow fmt [rs1, rs2] s g) :
    WritesBoxed fmt rd s g fun s => fsgnj fmt s rs2 rs1 op rd := by
  have h1 := h.read (.head _)
  have h2 := h.read (.tail _ (.head _))
  refine writesBoxed_of (k := fun s => s.fpu) rfl ?_
  simp only [h1, h2]

variable [SoftFloat]

theorem sqrtOp_low (rm : BitVec 3) (h : agreeLow fmt [rs1] s g) :
    WritesBoxed fmt rd s g fun s => sqrtOp fmt s rs1 rm rd := by
  have h1 := h.read (.head _)
  refine writesBoxed_of (k := fun s => sfEnd (sfRaise (sfBegin s.fpu rm)
    ((SoftFloat.ops fmt).sqrt (sfRm s.fpu rm) (fprRead fmt s.fpu rs1)).2)) ?_ ?_
  · simp only [h1]
    rfl
  · simp only [h1]
    rfl

/-- the minimum and maximum touch the flags alone -/
theorem rvFminmax_withFpr (pick : Bool → BitVec fmt.width → BitVec fmt.width → BitVec fmt.width) (f : Fpu)
    (a b : BitVec fmt.width) : rvFminmax pick { f with fpr := g } a b =
      ((rvFminmax pick f a b).1, { (rvFminmax pick f a b).2 with fpr := g }) := by
  unfold rvFminmax
  dsimp only
  split_ifs <;> rfl

theorem minmaxOp_low (pick : Bool → BitVec fmt.width → BitVec fmt.width → BitVec fmt.width)
    (h : agreeLow fmt [rs1, rs2] s g) : WritesBoxed fmt rd s g fun s => minmaxOp fmt (rvFminmax pick) s rs2 rs1 rd := by
  have h1 := h.read (.head _)
  have h2 := h.read (.tail _ (.head _))
  have hpick := rvFminmax_withFpr (g := g) pick s.fpu (fprRead fmt s.fpu rs1) (fprRead fmt s.fpu rs2)
  refine writesBoxed_of (k := fun s => (rvFminmax pick s.fpu (fprRead fmt s.fpu rs1) (fprRead fmt s.fpu rs2)).2)
    (v := fun s => (rvFminmax pick s.fpu (fprRead fmt s.fpu rs1) (fprRead fmt s.fpu rs2)).1) ?_ ?_
  · simp only [h1, h2]
    exact (Prod.ext_iff.1 hpick).2
  · simp only [h1, h2]
    exact (Prod.ext_iff.1 hpick).1

theorem fma_low (subop : BitVec 2) (rm : BitVec 3) (h : agreeLow fmt [rs1, rs2, rs3] s g) :
    WritesBoxed fmt rd s g fun s => fma fmt s subop rs3 rs2 rs1 rm rd := by
  have h1 := h.read (.head _)
  have h2 := h.read (.tail _ (.head _))
  have h3 := h.read (.tail _ (.tail _ (.head _)))
  refine writesBoxed_of (k := fun s => sfEnd (sfRaise (sfBegin s.fpu rm) ((SoftFloat.ops fmt).mulAdd (sfRm s.fpu rm)
    (if subop &&& 2 ≠ 0 then fprRead fmt s.fpu rs1 ^^^ fmt.signBit else fprRead fmt s.fpu rs1) (fprRead fmt s.fpu rs2)
    (if subop &&& 1 ≠ 0 then fprRead fmt s.fpu rs3 ^^^ fmt.signBit else fprRead fmt s.fpu rs3)).2)) ?_ ?_
  · simp only [h1, h2, h3]
    rfl
  · simp only [h1, h2, h3]
    rfl

theorem fcvtIntFp_low (kind : BitVec 5) (rs1 : Reg) (rm : BitVec 3) :
    WritesBoxed fmt rd s g fun s => fcvtIntFp fmt s kind rs1 rm rd := by
  let conv (s : Machine) : BitVec fmt.width × Byte :=
    if kind = 0 then (SoftFloat.ops fmt).ofI32 (sfRm s.fpu rm) (regRead s rs1)
    else if kind = 1 then (SoftFloat.ops fmt).ofUi32 (sfRm s.fpu rm) (regRead s rs1)
    else if kind = 2 then (SoftFloat.ops fmt).ofI64 (sfRm s.fpu rm) ((regRead s rs1).signExtend 64)
    else (SoftFloat.ops fmt).ofUi64 (sfRm s.fpu rm) ((regRead s rs1).setWidth 64)
  exact writesBoxed_of (k := fun s => sfEnd (sfRaise (sfBegin s.fpu rm) (conv s).2)) (v := fun s => (conv s).1) rfl rfl

theorem fcvtNarrow_low {sfmt : Fmt} (rm : BitVec 3) (h : agreeLow sfmt [rs1] s g) :
    WritesBoxed fmt rd s g fun s => fcvtNarrow sfmt fmt s rs1 rm rd := by
  have h1 := h.read (.head _)
  refine writesBoxed_of (k := fun s => sfEnd (sfRaise (sfBegin s.fpu rm)
    (SoftFloat.convert sfmt fmt (sfRm s.fpu rm) (fprRead sfmt s.fpu rs1)).2)) ?_ ?_
  · simp only [h1]
    rfl
  · simp only [h1]
    rfl

theorem fcvtWiden_low {sfmt : Fmt} (h : agreeLow sfmt [rs1] s g) :
    WritesBoxed .Q rd s g fun s => fcvtWiden sfmt s rs1 rd := by
  have h1 := h.read (.head _)
  refine writesBoxed_of (k := fun s => sfRaise s.fpu
    (SoftFloat.convert sfmt .Q s.fpu.roundingMode (fprRead sfmt s.fpu rs1)).2) ?_ ?_
  · simp only [h1]
    rfl
  · simp only [h1]
    rfl

/-- a conversion between formats, or the error for the pair -/
theorem fcvtFpFp_low {field : BitVec 5} (rm : BitVec 3)
    (h : ∀ sfmt, Fmt.ofSource field = some sfmt → agreeLow sfmt [rs1] s g) :
    (∃ e, ∀ t, fcvtFpFp fmt t field rs1 rm rd = .error e) ∨
      ∃ r, (∀ t, fcvtFpFp fmt t field rs1 rm rd = .ok (r t)) ∧ WritesBoxed fmt rd s g r := by
  unfold fcvtFpFp
  cases hsource : Fmt.ofSource field with
  | none => cases fmt <;> exact .inl ⟨_, fun t => rfl⟩
  | some sfmt =>
    have hs := h sfmt hsource
    cases fmt <;> cases sfmt <;>
      first
        | exact .inl ⟨_, fun t => rfl⟩
        | exact .inr ⟨_, fun t => rfl, fcvtWiden_low hs⟩
        | exact .inr ⟨_, fun t => rfl, fcvtNarrow_low rm hs⟩

/-! ## The routines with an integer result -/

omit [SoftFloat] in
theorem fclassOp_low (h : agreeLow fmt [rs1] s g) : fclassOp fmt (s.withFpr g) rs1 rd = (fclassOp fmt s rs1 rd).withFpr g := by
  have h1 := h.read (.head _)
  simp only [fclassOp, h1]
  rfl

theorem fcmp_low (op : BitVec 3) (h : agreeLow fmt [rs1, rs2] s g) :
    fcmp fmt (s.withFpr g) op rs2 rs1 rd = (fcmp fmt s op rs2 rs1 rd).withFpr g := by
  have h1 := h.read (.head _)
  have h2 := h.read (.tail _ (.head _))
  simp only [fcmp, h1, h2]
  split_ifs <;> rfl

theorem fcvtFpInt_low (kind : BitVec 5) (rm : BitVec 3) (h : agreeLow fmt [rs1] s g) :
    fcvtFpInt fmt (s.withFpr g) kind rs1 rm =
      ((fcvtFpInt fmt s kind rs1 rm).1, { (fcvtFpInt fmt s kind rs1 rm).2 with fpr := g }) := by
  have h1 := h.read (.head _)
  have hmode : (sfBegin (s.withFpr g).fpu rm).roundingMode = (sfBegin s.fpu rm).roundingMode := rfl
  have hflags : ∀ flags, (sfRaise (sfBegin (s.withFpr g).fpu rm) flags).exceptionFlags =
      (sfRaise (sfBegin s.fpu rm) flags).exceptionFlags := fun _ => rfl
  simp only [fcvtFpInt, h1, hmode, hflags]
  split_ifs <;> rfl

/-! ## One instruction -/

variable {ins : Word}

theorem insfRFma_low (subop : BitVec 2) (h : agreeLow (Fmt.ofField (ins.extractLsb' 25 2))
    [ins.extractLsb' 15 5, ins.extractLsb' 20 5, ins.extractLsb' 27 5] s g) :
    WritesBoxed (Fmt.ofField (ins.extractLsb' 25 2)) (ins.extractLsb' 7 5) s g fun s => insfRFma s ins subop := by
  unfold insfRFma
  generalize Fmt.ofField (ins.extractLsb' 25 2) = fmt at h ⊢
  cases fmt <;> exact fma_low subop _ h

theorem doFminmax_low (op : BitVec 3) (h : agreeLow fmt [rs1, rs2] s g) :
    WritesBoxed fmt rd s g fun s => doFminmax fmt s rs2 rs1 op rd := by
  unfold doFminmax
  by_cases hop : op = 0
  · simp only [if_pos hop]
    cases fmt <;> exact minmaxOp_low _ h
  · simp only [if_neg hop]
    cases fmt <;> exact minmaxOp_low _ h

/-- an FP-OP with a result in the FP registers -/
theorem insfRFpop_writes (hres : fpopResult ins = some (fmt, rd))
    (h : ∀ sfmt rs, fpopOperands ins = some (sfmt, rs) → agreeLow sfmt rs s g) :
    (∃ e, ∀ t, insfRFpop t ins = .error e) ∨
      ∃ r, (∀ t, insfRFpop t ins = .ok (r t)) ∧ WritesBoxed fmt rd s g r := by
  unfold fpopResult at hres
  unfold fpopOperands at h
  unfold insfRFpop
  generalize Fmt.ofField (ins.extractLsb' 25 2) = fmt' at hres h ⊢
  generalize ins.extractLsb' 27 5 = op at hres h ⊢
  dsimp only at h ⊢
  split at hres
  all_goals try cases hres
  · exact .inr ⟨_, fun t => rfl, by cases fmt <;> exact binop_low _ _ (h _ _ rfl)⟩
  · exact .inr ⟨_, fun t => rfl, by cases fmt <;> exact binop_low _ _ (h _ _ rfl)⟩
  · exact .inr ⟨_, fun t => rfl, by cases fmt <;> exact binop_low _ _ (h _ _ rfl)⟩
  · exact .inr ⟨_, fun t => rfl, by cases fmt <;> exact binop_low _ _ (h _ _ rfl)⟩
  · exact .inr ⟨_, fun t => rfl, by cases fmt <;> exact fsgnj_low _ (h _ _ rfl)⟩
  · exact .inr ⟨_, fun t => rfl, doFminmax_low _ (h _ _ rfl)⟩
  · exact .inr ⟨_, fun t => rfl, by cases fmt <;> exact sqrtOp_low _ (h _ _ rfl)⟩
  · by_cases hbad : ins.extractLsb' 12 3 ≠ 0 ∨ ins.extractLsb' 20 5 ≠ 0
    · exact .inl ⟨_, fun t => if_pos hbad⟩
    · exact .inr ⟨_, fun t => if_neg hbad, writesBoxed_of (k := Machine.fpu) rfl rfl⟩
  · exact .inr ⟨_, fun t => rfl, fcvtIntFp_low _ _ _⟩
  · refine fcvtFpFp_low _ fun sfmt hs => h sfmt _ ?_
    exact congrArg (Option.map _) hs

/-- an FP-OP with operands and an integer result -/
theorem insfRFpop_reads (hres : fpopResult ins = none) {rs : List Reg} (hops : fpopOperands ins = some (fmt, rs))
    (h : agreeLow fmt rs s g) :
    insfRFpop (s.withFpr g) ins = (insfRFpop s ins).map (·.withFpr g) := by
  unfold fpopResult at hres
  unfold fpopOperands at hops
  unfold insfRFpop
  generalize Fmt.ofField (ins.extractLsb' 25 2) = fmt' at hops ⊢
  generalize ins.extractLsb' 27 5 = op at hres hops ⊢
  dsimp only at hops ⊢
  split at hops
  all_goals try cases hres
  · obtain ⟨rfl, rfl⟩ := Prod.mk.inj (Option.some.inj hops)
    cases fmt' <;> exact congrArg Except.ok (fcmp_low _ h)
  · obtain ⟨rfl, rfl⟩ := Prod.mk.inj (Option.some.inj hops)
    have hint := fcvtFpInt_low (ins.extractLsb' 20 5) (ins.extractLsb' 12 3) h
    simp only [hint]
    rfl
  · split_ifs at hops with hclass
    obtain ⟨rfl, rfl⟩ := Prod.mk.inj (Option.some.inj hops)
    have hraw : ins.extractLsb' 12 3 ≠ 0 := by simp [hclass]
    simp only [if_neg hraw, if_pos hclass]
    cases fmt' <;> exact congrArg Except.ok (fclassOp_low h)
  · cases hops

/-! ## Words -/

/-- **What one FP instruction writes is boxed.** -/
theorem FpInsn.run_boxed {i : FpInsn} {t : Machine} (hres : i.result ins = some (fmt, rd)) (h : i.run s ins = .ok t) :
    Boxed fmt (t.fpu.fpr rd) := by
  have hself : ∀ fmt rs, agreeLow fmt rs s s.fpu.fpr := fun _ _ _ _ => rfl
  cases i with
  | load op imm rs1 rd =>
    obtain ⟨rfl, rfl⟩ := Prod.mk.inj (Option.some.inj hres)
    obtain rfl := Except.ok.inj h
    cases op <;> exact fprWrite_boxed _ _ _ _
  | fma subop =>
    obtain ⟨rfl, rfl⟩ := Prod.mk.inj (Option.some.inj hres)
    obtain rfl := Except.ok.inj h
    exact (insfRFma_low subop (hself _ _)).boxed
  | fpop =>
    rcases insfRFpop_writes hres fun sfmt rs _ => hself sfmt rs with ⟨e, he⟩ | ⟨r, hr, hw⟩
    · exact absurd ((he s).symm.trans h) nofun
    · obtain rfl := Except.ok.inj ((hr s).symm.trans h)
      exact hw.boxed
  | _ => cases hres

/-- **What it reads is the low bits of its sources.** -/
theorem FpInsn.run_low {i : FpInsn} {rs : List Reg} (hops : i.operands ins = some (fmt, rs)) (h : agreeLow fmt rs s g) :
    i.run (s.withFpr g) ins = (i.run s ins).map fun t => t.withFpr (resultIn g (i.result ins) t) := by
  cases i with
  | fma subop =>
    obtain ⟨rfl, rfl⟩ := Prod.mk.inj (Option.some.inj hops)
    exact congrArg Except.ok (insfRFma_low subop h).low
  | fpop =>
    change insfRFpop (s.withFpr g) ins = (insfRFpop s ins).map fun t => t.withFpr (resultIn g (fpopResult ins) t)
    cases hres : fpopResult ins with
    | none => exact insfRFpop_reads hres hops h
    | some result =>
      have hagree : ∀ sfmt rs, fpopOperands ins = some (sfmt, rs) → agreeLow sfmt rs s g := by
        intro sfmt rs' hs
        obtain ⟨rfl, rfl⟩ := Prod.mk.inj (Option.some.inj (hops.symm.trans hs))
        exact h
      rcases insfRFpop_writes hres hagree with ⟨e, he⟩ | ⟨r, hr, hw⟩
      · rw [he, he]
        rfl
      · rw [hr, hr]
        exact congrArg Except.ok hw.low
  | _ => cases hops

end

/-- the FP result the word produces, with the FPU on when it is a 32-bit one -/
def fpResult (s : Machine) (ins : Word) : Option (Fmt × Reg) :=
  if ¬ fetchAligned s then none
  else if misaCEnabled s ∧ ins.extractLsb' 0 2 ≠ 3 then (compressedOp (ins.setWidth 16)).bind Access.result
  else if fpuFsOff s then none
  else (decode ins).fpResult ins

/-- the FP operands the word computes on; no compressed form has any -/
def fpOperands (s : Machine) (ins : Word) : Option (Fmt × List Reg) :=
  if ¬ fetchAligned s ∨ misaCEnabled s ∧ ins.extractLsb' 0 2 ≠ 3 ∨ fpuFsOff s then none else (decode ins).fpOperands ins

theorem Access.exec_boxed {a : Access} {fmt : Fmt} {rd : Reg} (h : a.result = some (fmt, rd)) (s : Machine) :
    Boxed fmt ((a.exec s).fpu.fpr rd) := by
  cases a with
  | fload op imm rs1 rd =>
    obtain ⟨rfl, rfl⟩ := Prod.mk.inj (Option.some.inj h)
    cases op <;> exact fprWrite_boxed _ _ _ _
  | _ => cases h

section
variable [SoftFloat]

/-- what holds of NaN-boxing in one word -/
structure NanBoxing (s : Machine) (ins : Word) : Prop where
  /-- a result leaves the bits above its format all ones -/
  result : ∀ fmt rd t, fpResult s ins = some (fmt, rd) → exec s ins = .ok t → Boxed fmt (t.fpu.fpr rd)
  /-- an operand is the low bits of its register: with any other bits above, the word does the same -/
  operands : ∀ fmt rs g, fpOperands s ins = some (fmt, rs) → agreeLow fmt rs s g →
    exec (s.withFpr g) ins = (exec s ins).map fun t => t.withFpr (resultIn g (fpResult s ins) t)

/-- **Results are boxed, operands are not checked.** -/
theorem nan_boxing (s : Machine) (ins : Word) : NanBoxing s ins := by
  constructor
  · intro fmt rd t hres h
    unfold fpResult at hres
    split_ifs at hres with ha hc hoff
    · obtain ⟨a, hop, hr⟩ := Option.bind_eq_some_iff.1 hres
      rw [exec_compressed ha hc.1 hc.2, execCInsn_op hop] at h
      obtain rfl := Except.ok.inj h
      rw [cAccess_fpu]
      exact Access.exec_boxed hr s
    · rw [exec_decode ha hc] at h
      cases hd : decode ins with
      | fp i =>
        rw [hd] at hres
        rw [hd, Insn.run, if_neg hoff] at h
        exact FpInsn.run_boxed hres h
      | _ =>
        rw [hd] at hres
        cases hres
  · intro fmt rs g hops hagree
    unfold fpOperands at hops
    split_ifs at hops with hno
    obtain ⟨ha, hc, hoff⟩ : fetchAligned s = true ∧ ¬ (misaCEnabled s = true ∧ ins.extractLsb' 0 2 ≠ 3) ∧
        ¬ fpuFsOff s = true := by
      obtain ⟨ha, hno⟩ := not_or.1 hno
      obtain ⟨hc, hoff⟩ := not_or.1 hno
      exact ⟨not_not.1 ha, hc, hoff⟩
    have hresult : fpResult s ins = (decode ins).fpResult ins := by
      unfold fpResult
      rw [if_neg (not_not.2 ha), if_neg hc, if_neg hoff]
    have hexec' : exec (s.withFpr g) ins = (decode ins).run (s.withFpr g) ins := exec_decode ha hc
    rw [exec_decode ha hc, hexec', hresult]
    cases hd : decode ins with
    | fp i =>
      rw [hd] at hops
      have hoff' : ¬ fpuFsOff (s.withFpr g) = true := hoff
      rw [Insn.run, Insn.run, if_neg hoff, if_neg hoff']
      exact FpInsn.run_low hops hagree
    | _ =>
      rw [hd] at hops
      cases hops

end

/-- FCLASS.S x5, f1 with f1 = 0: no bit above the single is set, and f1 is classified as +0, not as the canonical NaN -/
theorem unboxed_operand :
    let s := machineInit (fun _ => 0) (fun _ => 0) 0
    let s := { s with csr := Function.update s.csr csrMstatus (1#32 <<< 13) }
    fpOperands s 0xE00092D3 = some (.S, [1]) ∧ ¬ Boxed .S (s.fpu.fpr 1) ∧
      ∃ t, @exec noFloat s 0xE00092D3 = .ok t ∧ regRead t 5 = @fclass .S 0 ∧
        regRead t 5 ≠ @fclass .S Fmt.S.canonicalNan := by
  refine ⟨by decide, fun h => absurd (h 32 (by decide) (by decide)) (by decide), _, rfl, by decide, by decide⟩

end RiscvEmu
