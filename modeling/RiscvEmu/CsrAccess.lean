/-
CSR access control: what the six CSR instructions do after an illegal access.

check_csr_access raises the illegal-instruction exception and the instruction goes on in the state after trap entry: it
reads the CSR there, makes its write and writes rd. Results:
- `csrWrite_eq_self_iff`: the writes that change nothing;
- `csr_access_enforced_iff`: the instruction leaves the state of the trap entry alone exactly when the access is legal
  or what it goes on to do is idle;
- `csr_access_not_enforced`: a user-mode CSRRW writes mscratch.
-/
import RiscvEmu.Frame
import RiscvEmu.Init
import RiscvEmu.Insn

namespace RiscvEmu

/-! ## Idle writes -/

/-- the state behind the CSR already is what its write callback would store for val -/
def csrHolds (s : Machine) (csr : Csr) (val : Word) : Prop :=
  match (csrTable csr).writeCallback with
  | none => s.csr csr = val
  | some (.setValue c) => s.csr c = val
  | some .mstatusWrite => s.csr csrMstatus = val &&& mstatusWritableMask
  | some .sstatusWrite => s.csr csrMstatus = sstatusInto (s.csr csrMstatus) val
  | some .setSie => s.csr csrMie = getMie s &&& ~~~sipSieSBits ||| val &&& sipSieSBits
  | some .setSip => s.csr csrMip = getMip s &&& ~~~sipSieSBits ||| val &&& sipSieSBits
  | some .setTselect =>
    s.trig.tselect = if val.toNat ≥ sdtrigNumTriggers then sdtrigNumTriggers - 1 else val.toNat
  | some .setTdata1 => (s.trig.slots s.trig.tselect).tdata1 = val &&& ~~~sdtrigDmode
  | some .setTdata2 => (s.trig.slots s.trig.tselect).tdata2 = val
  | some .setTcontrol => s.trig.tcontrol = val
  | some .setFcsr => s.fpu.fcsr =
      if val >>> 5 &&& 0b111 ≤ 4 then val &&& 0b11111 &&& 0b11111 ||| (val >>> 5 &&& 0b111) <<< 5
      else val &&& 0b11111 &&& 0b11111 ||| s.fpu.fcsr &&& 0b11100000
  | some .setFflags => s.fpu.fcsr = s.fpu.fcsr &&& ~~~(0b11111 : Word) ||| val &&& 0b11111
  | some .setFrm => val > 4 ∨ s.fpu.fcsr = s.fpu.fcsr &&& ~~~(0b11100000 : Word) ||| val <<< 5
  | some .setZicntrMinstretL =>
    s.instret = s.instret &&& 0xFFFFFFFF00000000 ||| val.setWidth 64 ∧ s.instretSuppressNext = true
  | some .setZicntrMinstretH =>
    s.instret = s.instret &&& 0x00000000FFFFFFFF ||| val.setWidth 64 <<< 32 ∧ s.instretSuppressNext = true

/-- a write of val to the CSR changes nothing -/
def csrIdle (s : Machine) (csr : Csr) (val : Word) : Prop := (csrTable csr).rw = false ∨ csrHolds s csr val

section
variable {s t : Machine}

theorem withCsr_eq_self_iff {f : Csr → Word} : { s with csr := f } = s ↔ f = s.csr :=
  ⟨fun h => congrArg Machine.csr h, fun h => by rw [h]⟩

theorem withTrig_eq_self_iff {x : Sdtrig} : { s with trig := x } = s ↔ x = s.trig :=
  ⟨fun h => congrArg Machine.trig h, fun h => by rw [h]⟩

theorem setFcsrReg_eq_self_iff {x : Word} : setFcsrReg s x = s ↔ s.fpu.fcsr = x :=
  ⟨fun h => (congrArg (fun m => m.fpu.fcsr) h).symm, fun h => by rw [← h]; rfl⟩

theorem setCsr_eq_self_iff {csr : Csr} {val : Word} : setCsr s csr val = s ↔ s.csr csr = val := by
  rw [setCsr, withCsr_eq_self_iff, Function.update_eq_self_iff, eq_comm]

theorem setSlot_eq_self_iff {slot : TriggerSlot} : setSlot s slot = s ↔ s.trig.slots s.trig.tselect = slot := by
  rw [setSlot, withTrig_eq_self_iff]
  refine ⟨?_, ?_⟩
  · intro h
    have hs := congrFun (congrArg Sdtrig.slots h) s.trig.tselect
    simpa using hs.symm
  · intro hx
    subst hx
    simp

theorem withInstret_eq_self_iff {x : BitVec 64} :
    { s with instret := x, instretSuppressNext := true } = s ↔ s.instret = x ∧ s.instretSuppressNext = true :=
  ⟨fun h => ⟨(congrArg Machine.instret h).symm, (congrArg Machine.instretSuppressNext h).symm⟩,
    fun ⟨h1, h2⟩ => by rw [← h1, ← h2]⟩

end

/-- **The idle writes.** Case by case over the write callbacks. -/
theorem csrWrite_eq_self_iff (s : Machine) (csr : Csr) (val : Word) : csrWrite s csr val = s ↔ csrIdle s csr val := by
  unfold csrWrite csrIdle csrHolds
  cases hrw : (csrTable csr).rw with
  | false => simp
  | true =>
    simp only [if_true, Bool.true_eq_false, false_or]
    cases (csrTable csr).writeCallback with
    | none => exact setCsr_eq_self_iff
    | some f =>
      cases f with
      | setValue c => exact setCsr_eq_self_iff
      | mstatusWrite => exact setCsr_eq_self_iff
      | sstatusWrite => exact setCsr_eq_self_iff
      | setSie => exact setCsr_eq_self_iff
      | setSip => exact setCsr_eq_self_iff
      | setTselect =>
        refine withTrig_eq_self_iff.trans ⟨fun h => (congrArg Sdtrig.tselect h).symm, ?_⟩
        intro h
        rw [← h]
      | setTdata1 =>
        refine setSlot_eq_self_iff.trans ⟨fun h => congrArg TriggerSlot.tdata1 h, ?_⟩
        intro h
        rw [← h]
      | setTdata2 =>
        refine setSlot_eq_self_iff.trans ⟨fun h => congrArg TriggerSlot.tdata2 h, ?_⟩
        intro h
        rw [← h]
      | setTcontrol =>
        refine withTrig_eq_self_iff.trans ⟨fun h => (congrArg Sdtrig.tcontrol h).symm, ?_⟩
        intro h
        rw [← h]
      | setFcsr =>
        simp only [WriteCallback.run, setFcsr]
        split_ifs <;> exact setFcsrReg_eq_self_iff
      | setFflags => exact setFcsrReg_eq_self_iff
      | setFrm =>
        simp only [WriteCallback.run, setFrm]
        split_ifs with h
        · exact ⟨fun _ => Or.inl h, fun _ => rfl⟩
        · rw [setFcsrReg_eq_self_iff, or_iff_right h]
      | setZicntrMinstretL => exact withInstret_eq_self_iff
      | setZicntrMinstretH => exact withInstret_eq_self_iff

/-- a CSR write never touches a general register -/
theorem csrWrite_gpr (s : Machine) (csr : Csr) (val : Word) : (csrWrite s csr val).gpr = s.gpr := by
  unfold csrWrite
  split_ifs
  · cases (csrTable csr).writeCallback with
    | none => rfl
    | some f =>
      cases f with
      | setFcsr => simp only [WriteCallback.run, setFcsr]; split_ifs <;> rfl
      | setFrm => simp only [WriteCallback.run, setFrm]; split_ifs <;> rfl
      | _ => rfl
  · rfl

/-! ## The access check -/

/-- after an access, what the instruction does in state t changes nothing -/
def csrBodyIdle (op : CsrOp) (t : Machine) (rs1 rd : Reg) (csr : Csr) : Prop :=
  (rd = 0 ∨ t.gpr rd = csrRead t csr) ∧ ∀ val, op.newVal rs1 t (csrRead t csr) = some val → csrIdle t csr val

theorem withGpr_eq_iff {s t : Machine} {gpr : Reg → Word} (h : s.gpr = t.gpr) :
    { s with gpr := gpr } = t ↔ gpr = t.gpr ∧ s = t := by
  refine ⟨?_, ?_⟩
  · intro he
    refine ⟨congrArg Machine.gpr he, ?_⟩
    have hs : ({ s with gpr := gpr } : Machine) = { t with gpr := gpr } := by rw [← he]
    calc s = { ({ s with gpr := gpr } : Machine) with gpr := s.gpr } := rfl
      _ = { ({ t with gpr := gpr } : Machine) with gpr := s.gpr } := by rw [hs]
      _ = t := by rw [h]
  · intro hx
    obtain ⟨rfl, rfl⟩ := hx
    rfl

/-- the test of rd before the write-back is that of regWrite -/
theorem ite_regWrite (s : Machine) (rd : Reg) (d : Word) :
    (if rd ≠ 0 then regWrite s rd d else s) = regWrite s rd d := by
  by_cases hrd : rd = 0
  · rw [if_neg (not_not.2 hrd), regWrite, writeGpr, if_pos hrd]
  · rw [if_pos hrd]

theorem csrBody_eq_self_iff (op : CsrOp) (t : Machine) (rs1 rd : Reg) (csr : Csr) :
    regWrite (match op.newVal rs1 t (csrRead t csr) with | some val => csrWrite t csr val | none => t) rd
      (csrRead t csr) = t ↔ csrBodyIdle op t rs1 rd csr := by
  unfold csrBodyIdle
  cases hn : op.newVal rs1 t (csrRead t csr) with
  | none =>
    rw [regWrite, withGpr_eq_iff rfl, writeGpr_eq_self]
    simp
  | some val =>
    have hg := csrWrite_gpr t csr val
    rw [regWrite, withGpr_eq_iff hg, hg, writeGpr_eq_self, csrWrite_eq_self_iff]
    simp

/-- **Access control, exactly.** After an illegal access the state is that of the trap entry alone only when the read
and the write made after it are idle there. -/
theorem csr_access_enforced_iff (op : CsrOp) (s : Machine) (rs1 rd : Reg) (csr : Csr) (ins : Word) :
    (csrAccessIllegal s csr = true → CsrOp.exec s rs1 rd csr ins op = raiseException s causeIllegalInstruction ins) ↔
      csrAccessIllegal s csr = false ∨
        csrBodyIdle op (raiseException s causeIllegalInstruction ins) rs1 rd csr := by
  rw [op.exec_eq, insZicsr, checkCsrAccess]
  cases csrAccessIllegal s csr with
  | false => simp
  | true =>
    simp only [if_true, forall_const, Bool.true_eq_false, false_or, ite_regWrite]
    exact csrBody_eq_self_iff op _ rs1 rd csr

/-- a machine in user mode with 1 in x5 -/
def userMachine : Machine := { machineInit (Function.update (fun _ => 0) 5 1) (fun _ => 0) 0 with privilege := prvUser }

/-- CSRRW x0, mscratch, x5 in user mode: the exception is raised and mscratch is written all the same -/
theorem csr_access_not_enforced :
    csrAccessIllegal userMachine csrMscratch = true ∧
      (CsrOp.exec userMachine 5 0 csrMscratch 0x34029073 .rw).csr csrMscratch = 1 ∧
      CsrOp.exec userMachine 5 0 csrMscratch 0x34029073 .rw ≠
        raiseException userMachine causeIllegalInstruction 0x34029073 := by
  have hw : (CsrOp.exec userMachine 5 0 csrMscratch 0x34029073 .rw).csr csrMscratch = 1 := by decide
  refine ⟨by decide, hw, fun h => ?_⟩
  rw [h] at hw
  exact absurd hw (by decide)

end RiscvEmu
