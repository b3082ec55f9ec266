/-
The reserved privilege level.

mstatus_write stores the MPP field it is given, level 2 included, where fcsr and frm keep their old value on a reserved
one; MRET then enters that level. No other writer of mstatus or of the privilege makes it. Results:
- `LegalModes.entries`: trap entry keeps to the three levels;
- `legal_step_iff`: an iteration keeps to them exactly when it writes no MPP of 2;
- `legal_privilege_iff`: the same for runs from reset;
- `mret_enters_level_two`: a run that ends in level 2.
-/
import RiscvEmu.Modes

namespace RiscvEmu

open Runs

/-- U, S or M -/
def legalLevel (p : Priv) : Prop := p = prvUser ∨ p = prvSupervisor ∨ p = prvMachine

instance (p : Priv) : Decidable (legalLevel p) := by unfold legalLevel; infer_instance

/-- the law: the current level and the one in MPP exist -/
structure LegalModes (s : Machine) : Prop where
  privilege : legalLevel s.privilege
  mpp : legalLevel (mppOf (s.csr csrMstatus))

/-! ## Trap entry -/

theorem legalLevel_trapMode (s : Machine) (deleg cause : Word) : legalLevel (trapMode s deleg cause) := by
  unfold trapMode
  split_ifs <;> decide

section
variable {s s' : Machine}

theorem LegalModes.quiet (h : LegalModes s) (hq : Quiet s s') : LegalModes s' :=
  ⟨by rw [hq.privilege]; exact h.privilege, by rw [hq.csr]; exact h.mpp⟩

theorem LegalModes.trapEntry (h : LegalModes s) (cause tval epc deleg irq pc : Word) :
    LegalModes (trapEntry s cause tval epc deleg irq pc) := by
  refine ⟨legalLevel_trapMode s deleg irq, ?_⟩
  change legalLevel (mppOf (trapCsr s _ cause tval epc csrMstatus))
  rw [trapCsr_mstatus, mppOf_statusOnTrap]
  split_ifs
  · exact h.privilege
  · exact h.mpp

theorem LegalModes.exception (h : LegalModes s) (cause tval epc : Word) :
    LegalModes (raiseExceptionPc s cause tval epc) := by
  rw [raiseExceptionPc_eq]
  exact h.trapEntry ..

theorem LegalModes.entries (h : LegalModes s) (he : Entries s s') : LegalModes s' := by
  refine he.invariant (fun _ _ h hq => h.quiet hq) (fun _ cause tval epc h => h.exception cause tval epc) ?_ h
  intro s irq h
  rw [raiseInterrupt_eq]
  exact h.trapEntry ..

/-! ## Returns and CSR writes -/

theorem LegalModes.mret (h : LegalModes s) : LegalModes (insMret s) := by
  refine ⟨h.mpp, ?_⟩
  change legalLevel (mppOf (Function.update s.csr csrMstatus (mstatusOnReturn (s.csr csrMstatus)) csrMstatus))
  rw [Function.update_self, mppOf_mstatusOnReturn]
  decide

theorem LegalModes.sret (h : LegalModes s) : LegalModes (insSret s) := by
  unfold insSret
  split_ifs
  · exact h.exception _ _ _
  · refine ⟨?_, ?_⟩
    · simp only
      split_ifs <;> decide
    · change legalLevel (mppOf ((csrWrite s csrSstatus _).csr csrMstatus))
      rw [csr_mstatus_csrWrite, if_neg (by decide), if_pos rfl, mppOf_sstatusInto]
      exact h.mpp

end

/-- the value the word writes to the CSR in state t, if it is a CSR instruction that makes such a write -/
def csrWritten (t : Machine) (ins : Word) (csr : Csr) : Option Word :=
  match decode ins with
  | .zicsr op rs1 _ c =>
    if c = csr then op.newVal rs1 (checkCsrAccess t csr ins) (csrRead (checkCsrAccess t csr ins) csr) else none
  | _ => none

theorem csrWritten_none {t : Machine} {ins : Word} (hc : (decode ins).changesMode = false) (csr : Csr) :
    csrWritten t ins csr = none := by
  unfold csrWritten
  cases hd : decode ins with
  | zicsr => rw [hd] at hc; cases hc
  | _ => rfl

theorem LegalModes.quiet_iff {s s' : Machine} (hq : Quiet s s') : LegalModes s' ↔ LegalModes s :=
  ⟨fun h => h.quiet ⟨hq.traps.symm, hq.privilege.symm, hq.csr.symm⟩, fun h => h.quiet hq⟩

/-- a CSR write keeps to the three levels unless it puts another into MPP -/
theorem LegalModes.csrWrite_iff {s : Machine} (h : LegalModes s) (csr : Csr) (val : Word) :
    LegalModes (csrWrite s csr val) ↔ (csr = csrMstatus → legalLevel (mppOf val)) := by
  have hp : legalLevel (csrWrite s csr val).privilege := by
    rw [(csrWrite_sameMode s csr val).privilege]
    exact h.privilege
  have hm : LegalModes (csrWrite s csr val) ↔ legalLevel (mppOf ((csrWrite s csr val).csr csrMstatus)) :=
    ⟨LegalModes.mpp, fun hm => ⟨hp, hm⟩⟩
  rw [hm, csr_mstatus_csrWrite]
  split_ifs with hc hs
  · rw [mppOf_writable]
    exact ⟨fun h _ => h, fun h => h hc⟩
  · rw [mppOf_sstatusInto]
    exact iff_of_true h.mpp fun he => absurd he hc
  · exact iff_of_true h.mpp fun he => absurd he hc

theorem LegalModes.zicsr_iff {s : Machine} (h : LegalModes s) (op : CsrOp) (rs1 rd : Reg) (csr : Csr) (ins : Word) :
    LegalModes (op.exec s rs1 rd csr ins) ↔ ∀ val, csr = csrMstatus →
      op.newVal rs1 (checkCsrAccess s csr ins) (csrRead (checkCsrAccess s csr ins) csr) = some val →
        legalLevel (mppOf val) := by
  have hcheck : LegalModes (checkCsrAccess s csr ins) := by
    unfold checkCsrAccess
    split_ifs
    · exact h.exception _ _ _
    · exact h
  rw [LegalModes.quiet_iff (op.exec_kept s rs1 rd csr ins).quiet]
  unfold csrAfterWrite
  cases hv : op.newVal rs1 (checkCsrAccess s csr ins) (csrRead (checkCsrAccess s csr ins) csr) with
  | none => exact iff_of_true hcheck fun val _ he => by simp at he
  | some val =>
    simp only [hcheck.csrWrite_iff, Option.some.injEq]
    refine ⟨?_, fun h hc => h val hc rfl⟩
    intro h w hc hw
    subst hw
    exact h hc

/-! ## Runs -/

theorem legal_runInit (gpr : Reg → Word) (mainMemory : Word → Byte) (programBase : Word) (active : Bool) :
    LegalModes (runInit gpr mainMemory programBase active).state :=
  ⟨Or.inr (Or.inr rfl), Or.inl (by change mppOf 0 = prvUser; decide)⟩

section
variable [SoftFloat]

/-- **One instruction.** -/
theorem LegalModes.run_iff {s s' : Machine} {ins : Word} (h : LegalModes s) (hr : (decode ins).run s ins = .ok s')
    (hc : (decode ins).changesMode = true) :
    LegalModes s' ↔ ∀ val, csrWritten s ins csrMstatus = some val → legalLevel (mppOf val) := by
  unfold csrWritten
  cases hd : decode ins with
  | zicsr op rs1 rd csr =>
    rw [hd] at hr
    obtain rfl := Except.ok.inj hr
    rw [h.zicsr_iff]
    refine ⟨?_, ?_⟩
    · intro hval val hw
      simp only at hw
      split_ifs at hw with he
      subst he
      exact hval val rfl hw
    · intro hval val he hw
      subst he
      exact hval val (by simpa using hw)
  | sret =>
    rw [hd] at hr
    obtain rfl := Except.ok.inj hr
    exact iff_of_true h.sret (by simp)
  | mret =>
    rw [hd] at hr
    obtain rfl := Except.ok.inj hr
    exact iff_of_true h.mret (by simp)
  | mnret =>
    rw [hd] at hr
    obtain rfl := Except.ok.inj hr
    exact iff_of_true h.mret (by simp)
  | _ => rw [hd] at hc; cases hc

/-- no CSR instruction of the iteration writes mstatus with a reserved MPP -/
def writesLegalMpp (r : Run) (host : HostInput) : Prop :=
  ∀ t ins val, Executes host r t ins → toSwitch t ins → csrWritten t ins csrMstatus = some val →
    legalLevel (mppOf val)

/-- **One iteration.** -/
theorem legal_step_iff (r : Run) (host : HostInput) (r' : Run) (hI : LegalModes r.state) (h : loopStep r host r') :
    LegalModes r'.state ↔ writesLegalMpp r host := by
  rcases iteration_modes h.2 with ⟨hn, he⟩ | ⟨t, ins, u, he, hx, hs, hc, hr, hq⟩
  · refine iff_of_true (hI.entries he) ?_
    intro t ins val hx hs hw
    rw [csrWritten_none (hn t ins hx hs)] at hw
    simp at hw
  · rw [LegalModes.quiet_iff hq, (hI.entries he).run_iff hr hc]
    refine ⟨?_, fun h val hw => h t ins val hx hs hw⟩
    intro h t' ins' val hx' _ hw
    obtain ⟨rfl, rfl⟩ := hx.unique hx'
    exact h val hw

/-- **The reserved level, over runs from reset.** Every state of a run keeps to the three levels exactly when no CSR
instruction of the run writes mstatus with a reserved MPP. -/
theorem legal_privilege_iff (gpr : Reg → Word) (mainMemory : Word → Byte) (programBase : Word) (active : Bool)
    (p : List (Run × HostInput)) (r : Run) (hp : Path loopStep (runInit gpr mainMemory programBase active) p r) :
    ((∀ x ∈ p, LegalModes x.1.state) ∧ LegalModes r.state) ↔ ∀ x ∈ p, writesLegalMpp x.1 x.2 :=
  hp.always_iff (I := fun r => LegalModes r.state) legal_step_iff (legal_runInit ..)

end

/-! ## A run into level 2 -/

/-- M-mode about to write 0x1000 from x5 to mstatus and to execute MRET -/
def levelTwoRun : Run :=
  runInit (Function.update (fun _ => 0) 5 0x1000)
    (fun a => Bytes.byte (n := 8) (0x3020007330029073 : BitVec 64) a.toNat) 0 false

theorem levelTwoRun_ends : ∃ r, @run noFloat [⟨[], false⟩, ⟨[], false⟩] levelTwoRun = .ok r ∧
    r.state.privilege = prvHypervisor := by
  have hp : (match @run noFloat [⟨[], false⟩, ⟨[], false⟩] levelTwoRun with
    | .ok r => some r.state.privilege
    | .error _ => none) = some prvHypervisor := by decide
  cases h : @run noFloat [⟨[], false⟩, ⟨[], false⟩] levelTwoRun with
  | error e => rw [h] at hp; cases hp
  | ok r => rw [h] at hp; exact ⟨r, rfl, Option.some.inj hp⟩

/-- the write is accepted and MRET enters level 2 -/
theorem mret_enters_level_two : ¬ ∀ p r, Path (@loopStep noFloat) levelTwoRun p r → LegalModes r.state := by
  intro h
  obtain ⟨r, hr, hp⟩ := levelTwoRun_ends
  obtain ⟨p, hpath⟩ := @run_path noFloat _ _ _ hr
  have hl := (h p r hpath).privilege
  rw [hp] at hl
  exact absurd hl (by decide)

/-- so one of its steps writes a reserved MPP -/
theorem legal_privilege_levelTwoRun :
    ∃ p r, Path (@loopStep noFloat) levelTwoRun p r ∧ ¬ ∀ x ∈ p, writesLegalMpp x.1 x.2 := by
  obtain ⟨r, hr, hp⟩ := levelTwoRun_ends
  obtain ⟨p, hpath⟩ := @run_path noFloat _ _ _ hr
  refine ⟨p, r, hpath, ?_⟩
  intro h
  have hl := ((@legal_privilege_iff noFloat _ _ _ _ p r hpath).2 h).2.privilege
  rw [hp] at hl
  exact absurd hl (by decide)

end RiscvEmu
