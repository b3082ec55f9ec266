/-
The FPU while mstatus.FS is 0.

exec tests FS before a 32-bit FP instruction. exec_c_insn calls insf_flw and its siblings directly, and csr_table has no
test for fflags, frm and fcsr. Results:
- `Insn.run_fpu`, `execCInsn_fpu`: no other instruction touches the FP state;
- `exec_fp_off`: a 32-bit FP instruction raises illegal instruction;
- `fpu_off_iff`: the FPU is protected from exactly the words that are neither a compressed FP load or store nor a CSR
  instruction on the FP registers;
- `fpu_off_compressed`: C.FLW loads an FP register with the FPU off.
-/
import RiscvEmu.Access
import RiscvEmu.CsrIndependence
import RiscvEmu.Steps

namespace RiscvEmu

/-! ## What touches the FP state -/

/-- fflags, frm and fcsr -/
def isFpCsr (c : Csr) : Prop := c = csrFflags ∨ c = csrFrm ∨ c = csrFcsr

instance (c : Csr) : Decidable (isFpCsr c) := by unfold isFpCsr; infer_instance

/-- a CSR instruction naming one of them -/
def Insn.namesFpCsr : Insn → Prop
  | .zicsr _ _ _ csr => isFpCsr csr
  | _ => False

def Insn.isFp : Insn → Bool
  | .fp _ => true
  | _ => false

/-- C.FLD, C.FLW, C.FSD and C.FSW -/
def compressedFp (c : BitVec 16) : Prop :=
  c.extractLsb' 0 2 = 0#2 ∧
    (c.extractLsb' 13 3 = 1#3 ∨ c.extractLsb' 13 3 = 3#3 ∨ c.extractLsb' 13 3 = 5#3 ∨ c.extractLsb' 13 3 = 7#3)

/-- their forms on the stack pointer, which the emulator has not -/
def compressedFpSp (c : BitVec 16) : Prop :=
  c.extractLsb' 0 2 = 2#2 ∧
    (c.extractLsb' 13 3 = 1#3 ∨ c.extractLsb' 13 3 = 3#3 ∨ c.extractLsb' 13 3 = 5#3 ∨ c.extractLsb' 13 3 = 7#3)

theorem compressedFp_iff (c : BitVec 16) : compressedFp c ↔ ∃ a, compressedOp c = some a ∧ a.isFp = true := by
  unfold compressedFp compressedOp
  generalize c.extractLsb' 0 2 = q
  generalize c.extractLsb' 13 3 = f3
  split
  case h_7 => split_ifs <;> simp [Access.isFp]
  case h_9 => simp_all
  all_goals simp [Access.isFp]

/-- the callback stores fcsr -/
def storesFcsr : Option WriteCallback → Bool
  | some f => f.place = .fcsr
  | none => false

theorem csrTable_storesFcsr (c : Csr) : storesFcsr (csrTable c).writeCallback = true → isFpCsr c := by
  unfold csrTable
  split
  all_goals try exact fun h => absurd h Bool.false_ne_true
  · exact fun _ => .inr (.inr rfl)
  · exact fun _ => .inl rfl
  · exact fun _ => .inr (.inl rfl)
  · split_ifs <;> exact fun h => absurd h Bool.false_ne_true

/-- a CSR write reaches the FP state through the FP registers only -/
theorem csrWrite_fpu (s : Machine) {csr : Csr} (h : ¬ isFpCsr csr) (val : Word) : (csrWrite s csr val).fpu = s.fpu := by
  have hcb : storesFcsr (csrTable csr).writeCallback ≠ true := fun hs => h (csrTable_storesFcsr csr hs)
  unfold csrWrite
  split_ifs
  · cases hf : (csrTable csr).writeCallback with
    | none => rfl
    | some f =>
      rw [hf] at hcb
      cases f with
      | setFcsr => exact absurd rfl hcb
      | setFflags => exact absurd rfl hcb
      | setFrm => exact absurd rfl hcb
      | _ => rfl
  · rfl

section
variable {s s' : Machine} {ins : Word}

theorem checkCsrAccess_fpu (csr : Csr) : (checkCsrAccess s csr ins).fpu = s.fpu := by
  unfold checkCsrAccess
  split_ifs
  · exact raiseExceptionPc_fpu ..
  · rfl

theorem CsrOp.exec_fpu (op : CsrOp) (rs1 rd : Reg) {csr : Csr} (h : ¬ isFpCsr csr) :
    (op.exec s rs1 rd csr ins).fpu = s.fpu := by
  have hcheck : (checkCsrAccess s csr ins).fpu = s.fpu := checkCsrAccess_fpu csr
  rw [op.exec_eq]
  simp only [insZicsr]
  cases op.newVal rs1 (checkCsrAccess s csr ins) (csrRead (checkCsrAccess s csr ins) csr) with
  | none =>
    dsimp only
    split_ifs <;> exact hcheck
  | some val =>
    have hw := (csrWrite_fpu (checkCsrAccess s csr ins) h val).trans hcheck
    dsimp only
    split_ifs <;> exact hw

theorem Plain.fpu (h : Plain s s') : s'.fpu = s.fpu := by
  cases h with
  | regs gpr pc terminated => rfl
  | trap cause tval => exact raiseExceptionPc_fpu ..

theorem LoadOp.exec_fpu (op : LoadOp) (imm : Word) (rs1 rd : Reg) : (op.exec s imm rs1 rd).fpu = s.fpu := by
  rw [op.exec_eq, insiILoad_body]
  split_ifs
  · exact raiseExceptionPc_fpu ..
  · exact (ignoresSide_kept (loadBody_side op.read_side _ _ _) s).1

theorem insiSStore_fpu {α : Type} {write : Machine → Word → α → Machine} (hw : writeIgnoresSide write) (mask : Word)
    (trunc : Word → α) (imm : Word) (rs2 rs1 : Reg) :
    (insiSStore mask (fun s a v => mmuWrite write s a (trunc v)) s imm rs2 rs1).fpu = s.fpu := by
  rw [insiSStore_body]
  split_ifs
  · exact raiseExceptionPc_fpu ..
  · exact (ignoresSide_kept (storeBody_side hw trunc _ _ _) s).1

theorem StoreOp.exec_fpu (op : StoreOp) (imm : Word) (rs2 rs1 : Reg) : (op.exec s imm rs2 rs1).fpu = s.fpu := by
  cases op with
  | sb => exact insiSStore_fpu memWrite8_side 0 (fun v => (v &&& 0xFF).setWidth 8) imm rs2 rs1
  | sh => exact insiSStore_fpu memWrite16_side 1 (fun v => (v &&& 0xFFFF).setWidth 16) imm rs2 rs1
  | sw => exact insiSStore_fpu memWrite32_side 3 id imm rs2 rs1

theorem insSret_fpu : (insSret s).fpu = s.fpu := by
  unfold insSret
  split_ifs
  · exact raiseExceptionPc_fpu ..
  · rfl

/-- **No other instruction touches the FP state.** -/
theorem Insn.run_fpu [SoftFloat] {i : Insn} (hfp : i.isFp = false) (hcsr : ¬ i.namesFpCsr) (h : i.run s ins = .ok s') :
    s'.fpu = s.fpu := by
  cases i with
  | fp i => cases hfp
  | fatal f => cases h
  | load op imm rs1 rd => obtain rfl := Except.ok.inj h; exact op.exec_fpu imm rs1 rd
  | store op imm rs2 rs1 => obtain rfl := Except.ok.inj h; exact op.exec_fpu imm rs2 rs1
  | atomic a rs1 rs2 rd => exact (AInsn.exec_kept h).1
  | zicsr op rs1 rd csr => obtain rfl := Except.ok.inj h; exact op.exec_fpu rs1 rd hcsr
  | sret => obtain rfl := Except.ok.inj h; exact insSret_fpu
  | mret => obtain rfl := Except.ok.inj h; rfl
  | mnret => obtain rfl := Except.ok.inj h; rfl
  | _ => exact (Insn.run_plain rfl h).fpu

theorem execCInsn_fpu {c : BitVec 16} (h3 : c.extractLsb' 0 2 ≠ 3#2) (hfp : ¬ compressedFp c) :
    (execCInsn s c).1.fpu = s.fpu := by
  cases ha : compressedOp c with
  | none =>
    have hnone : compressedAccess c = none := by
      rw [compressedAccess_op, ha]
      rfl
    exact (execCInsn_plain h3 hnone).fpu
  | some a =>
    rw [execCInsn_op ha, cAccess_fpu]
    cases a with
    | load op imm rs1 rd => exact op.exec_fpu imm rs1 rd
    | store op imm rs2 rs1 => exact op.exec_fpu imm rs2 rs1
    | _ => exact absurd ((compressedFp_iff c).2 ⟨_, ha, rfl⟩) hfp

end

/-! ## The law -/

/-- exec hands the word to exec_c_insn -/
def toCompressed (s : Machine) (ins : Word) : Prop :=
  fetchAligned s = true ∧ misaCEnabled s = true ∧ ins.extractLsb' 0 2 ≠ 3

/-- the word executes as a floating-point instruction, or as an access to fflags, frm or fcsr -/
def touchesFpu (s : Machine) (ins : Word) : Prop :=
  toSwitch s ins ∧ ((decode ins).isFp = true ∨ (decode ins).namesFpCsr) ∨
    toCompressed s ins ∧ (compressedFp (ins.setWidth 16) ∨ compressedFpSp (ins.setWidth 16))

/-- the forms that do not look at FS -/
def ungated (s : Machine) (ins : Word) : Prop :=
  toSwitch s ins ∧ (decode ins).namesFpCsr ∨ toCompressed s ins ∧ compressedFp (ins.setWidth 16)

/-- what FS = 0 promises of an instruction -/
structure FpuProtected (s : Machine) (ins : Word) (s' : Machine) : Prop where
  registers : s'.fpu.fpr = s.fpu.fpr
  fcsr : s'.fpu.fcsr = s.fpu.fcsr
  raises : touchesFpu s ins → ∃ t, s'.traps = t :: s.traps ∧ t.cause = causeIllegalInstruction

/-- the FP CSRs are open to every mode: an access raises nothing -/
theorem fpCsr_legal (s : Machine) {csr : Csr} (h : isFpCsr csr) : csrAccessIllegal s csr = false := by
  have hpriv : ¬ s.privilege < prvUser := BitVec.not_lt.2 (BitVec.le_def.2 (Nat.zero_le _))
  have hc : (csrTable csr).valid = true ∧ (csrTable csr).privilege = prvUser ∧ csr ≠ csrSatp := by
    rcases h with rfl | rfl | rfl <;> exact ⟨rfl, rfl, by decide⟩
  unfold csrAccessIllegal
  rw [hc.2.1]
  simp [hc.1, hc.2.2, hpriv]

section
variable {s s' : Machine} {ins : Word}

/-- an FP access raises a page fault or nothing -/
theorem compressedFp_traps {c : BitVec 16} (h : compressedFp c) {t : Trap}
    (ht : (execCInsn s c).1.traps = t :: s.traps) : t.cause ≠ causeIllegalInstruction := by
  obtain ⟨a, ha, hfp⟩ := (compressedFp_iff c).1 h
  rw [execCInsn_op ha, cAccess_traps] at ht
  obtain ⟨access, hcause⟩ := (Access.exec_pageFaults hfp s).cause ht
  rw [hcause]
  cases access <;> decide

/-- the forms on the stack pointer are illegal instructions -/
theorem execCInsn_fpSp {c : BitVec 16} (h : compressedFpSp c) : (execCInsn s c).1 =
    raiseExceptionPc s causeIllegalInstruction (c.setWidth 32) s.pc := by
  obtain ⟨hq, h3 | h3 | h3 | h3⟩ := h <;> simp only [execCInsn, hq, execQuadrant2, h3] <;> rfl

/-- the CSR instructions on the FP registers raise nothing -/
theorem namesFpCsr_traps [SoftFloat] {i : Insn} (hi : i.namesFpCsr) (h : i.run s ins = .ok s') : s'.traps = s.traps := by
  cases i with
  | zicsr op rs1 rd csr =>
    obtain rfl := Except.ok.inj h
    exact (op.exec_legal s rs1 rd csr ins (fpCsr_legal s hi)).traps
  | _ => exact hi.elim

variable [SoftFloat]

/-- **The gate in exec.** -/
theorem exec_fp_off (hoff : fpuFsOff s = true) (hs : toSwitch s ins) (hfp : (decode ins).isFp = true)
    (h : exec s ins = .ok s') : s' = raiseExceptionPc s causeIllegalInstruction ins s.pc := by
  rw [exec_decode hs.1 hs.2] at h
  cases hd : decode ins with
  | fp i =>
    rw [hd, Insn.run, if_pos hoff] at h
    exact (Except.ok.inj h).symm
  | _ =>
    rw [hd] at hfp
    cases hfp

/-- **FS = 0, exactly.** -/
theorem fpu_off_iff (hoff : fpuFsOff s = true) (h : exec s ins = .ok s') :
    FpuProtected s ins s' ↔ ¬ ungated s ins := by
  constructor
  · rintro ⟨-, -, hraise⟩ (⟨hs, hcsr⟩ | ⟨⟨ha, hc, hq⟩, hfp⟩)
    · obtain ⟨t, ht, -⟩ := hraise (.inl ⟨hs, .inr hcsr⟩)
      rw [exec_decode hs.1 hs.2] at h
      rw [namesFpCsr_traps hcsr h] at ht
      simp at ht
    · obtain ⟨t, ht, hcause⟩ := hraise (.inr ⟨⟨ha, hc, hq⟩, .inl hfp⟩)
      rw [exec_compressed ha hc hq] at h
      obtain rfl := Except.ok.inj h
      exact compressedFp_traps hfp ht hcause
  · intro hno
    obtain ⟨ha, rfl⟩ | ⟨ha, hc, rfl⟩ | ⟨hs, hrun⟩ := exec_cases h
    · have hfpu := raiseExceptionPc_fpu s causeMisalignedFetch s.pc s.gPrevInsPc
      refine ⟨congrArg Fpu.fpr hfpu, congrArg Fpu.fcsr hfpu, ?_⟩
      rintro (⟨hs, -⟩ | ⟨hc, -⟩)
      · exact absurd (ha.symm.trans hs.1) Bool.false_ne_true
      · exact absurd (ha.symm.trans hc.1) Bool.false_ne_true
    · have htc : toCompressed s ins := ⟨ha, hc⟩
      have hfp : ¬ compressedFp (ins.setWidth 16) := fun hfp => hno (.inr ⟨htc, hfp⟩)
      have hfpu := execCInsn_fpu (s := s) (compressed_quadrant hc.2) hfp
      refine ⟨congrArg Fpu.fpr hfpu, congrArg Fpu.fcsr hfpu, ?_⟩
      rintro (⟨hs, -⟩ | ⟨-, hx | hsp⟩)
      · exact absurd hc hs.2
      · exact absurd hx hfp
      · rw [execCInsn_fpSp hsp, raiseExceptionPc_traps]
        exact ⟨_, rfl, rfl⟩
    · have hcsr : ¬ (decode ins).namesFpCsr := fun hcsr => hno (.inl ⟨hs, hcsr⟩)
      cases hfp : (decode ins).isFp with
      | true =>
        obtain rfl := exec_fp_off hoff hs hfp h
        have hfpu := raiseExceptionPc_fpu s causeIllegalInstruction ins s.pc
        refine ⟨congrArg Fpu.fpr hfpu, congrArg Fpu.fcsr hfpu, ?_⟩
        intro _
        rw [raiseExceptionPc_traps]
        exact ⟨_, rfl, rfl⟩
      | false =>
        have hfpu := Insn.run_fpu hfp hcsr hrun
        refine ⟨congrArg Fpu.fpr hfpu, congrArg Fpu.fcsr hfpu, ?_⟩
        rintro (⟨-, hx | hx⟩ | ⟨hx, -⟩)
        · rw [hfp] at hx
          cases hx
        · exact absurd hx hcsr
        · exact absurd hx.2 hs.2

end

/-- FADD.S with the FPU off -/
theorem fpu_off_fadd :
    let s := machineInit (fun _ => 0) (fun _ => 0) 0
    FpuProtected s 0x003100D3 (raiseExceptionPc s causeIllegalInstruction 0x003100D3 0) ↔ ¬ ungated s 0x003100D3 :=
  @fpu_off_iff _ _ _ noFloat (by decide) rfl

/-- C.FLW f8, 0(x8) with the FPU off: f8 is loaded and nothing is raised; CSRRW x0, fcsr, x5 writes fcsr -/
theorem fpu_off_not_gated :
    let s := machineInit (fun r => if r = 5 then 0xFF else 0) (fun _ => 0) 0
    fpuFsOff s = true ∧
      (∃ t, @exec noFloat s 0x6000 = .ok t ∧ t.fpu.fpr 8 ≠ s.fpu.fpr 8 ∧ t.traps = []) ∧
      ∃ t, @exec noFloat s 0x00329073 = .ok t ∧ t.fpu.fcsr ≠ s.fpu.fcsr ∧ t.traps = [] := by
  refine ⟨by decide, ⟨_, rfl, by decide, by decide⟩, ⟨_, rfl, by decide, by decide⟩⟩

end RiscvEmu
