/-
One trap an instruction, and the trap names it.

A trap entry saves pc, the cause, the value and the privilege of the instruction, and the loop's += 4 lands on the
handler. That is lost where an instruction goes on after its trap and traps again (an AMO, FLQ or FSQ whose two accesses
both fault), or overwrites what the entry saved (a CSR instruction after an illegal access), or takes the trap for none
(a compressed access whose handler is at pc + 4). Results:
- `csrWrite_other`: the CSR writes that cannot touch what a trap saves;
- `Kept.namesTrap`: a single trap entry names its instruction;
- `single_trap_iff`: the law, exactly where none of the three happens;
- `amo_traps_twice`: an AMO that traps twice.
-/
import RiscvEmu.Init
import RiscvEmu.Status
import RiscvEmu.Steps

namespace RiscvEmu

/-! ## The law -/

/-- the privilege a trap into the mode saved in mstatus -/
def savedPrivilege (mode : Priv) (mstatus : Word) : Priv :=
  if mode = prvMachine then mppOf mstatus else if mstatus.getLsbD 8 then prvSupervisor else prvUser

/-- after an instruction begun in s, the trap CSRs of the mode name the instruction and the loop goes to its handler -/
structure NamesTrap (s s' : Machine) (t : Trap) : Prop where
  epc : s'.csr (epcOf t.mode) = s.pc
  cause : s'.csr (causeOf t.mode) = t.cause
  tval : s'.csr (tvalOf t.mode) = t.tval
  saved : savedPrivilege t.mode (s'.csr csrMstatus) = s.privilege
  mode : s'.privilege = t.mode
  pc : s'.pc + 4 = s.csr (tvecOf t.mode) &&& ~~~(3 : Word)

/-- at most one trap, and unless it is a misaligned fetch it names the instruction -/
def SingleTrap (s s' : Machine) : Prop :=
  s'.traps = s.traps ∨ ∃ t, s'.traps = t :: s.traps ∧ (t.cause ≠ causeMisalignedFetch → NamesTrap s s' t)

/-! ## When it holds -/

/-- the exception a load raises, if any -/
def loadCause (s : Machine) (addr mask : Word) : Option Word :=
  if triggerFires s addr sdtrigLoad then some causeBreakpoint
  else if addr &&& mask ≠ 0 then some causeMisalignedLoad
  else if (mmuWalk s addr .load).1 = none then some causeLoadPageFault
  else none

/-- the exception a store raises, if any -/
def storeCause (s : Machine) (addr mask : Word) : Option Word :=
  if triggerFires s addr sdtrigStore then some causeBreakpoint
  else if addr &&& mask ≠ 0 then some causeMisalignedStore
  else if (mmuWalk s addr .store).1 = none then some causeStorePageFault
  else none

/-- the exception an FP access raises, if any -/
def fpCause (s : Machine) (addr : Word) (access : MmuAccess) : Option Word :=
  if (mmuWalk s addr access).1 = none then some (pageFaultCause access) else none

/-- the exception the access of a compressed instruction raises, if any -/
def compressedCause (s : Machine) (c : BitVec 16) : Option Word :=
  let addr := regRead s (cRs1p c) + cLsUimm c
  match c.extractLsb' 0 2, c.extractLsb' 13 3 with
  | 0#2, 1#3 => fpCause s addr .load
  | 0#2, 2#3 => loadCause s addr 3
  | 0#2, 3#3 => fpCause s addr .load
  | 0#2, 5#3 => fpCause s addr .store
  | 0#2, 6#3 => storeCause s addr 3
  | 0#2, 7#3 => fpCause s addr .store
  | 2#2, 2#3 => if cRd c = 0 then none else loadCause s (regRead s 2 + cLwspUimm c) 3
  | 2#2, 6#3 => storeCause s (regRead s 2 + cSwspUimm c) 3
  | _, _ => none

/-- the handler of the exception is not the instruction 4 bytes on -/
def handlerElsewhere (s : Machine) (cause : Word) : Prop :=
  (s.csr (tvecOf (exceptionMode s cause)) &&& ~~~(3 : Word)) - 4 ≠ s.pc

/-- the write a CSR instruction makes after its illegal access puts back what the trap saved, or goes elsewhere -/
def writeHarmless (s : Machine) (op : CsrOp) (rs1 : Reg) (csr : Csr) (ins : Word) : Prop :=
  let mode := exceptionMode s causeIllegalInstruction
  let t := raiseException s causeIllegalInstruction ins
  ∀ val, op.newVal rs1 t (csrRead t csr) = some val →
    (csr = epcOf mode → val = s.pc) ∧ (csr = causeOf mode → val = causeIllegalInstruction) ∧
      (csr = tvalOf mode → val = ins) ∧ (csr = csrMstatus → savedPrivilege mode val = s.privilege) ∧
      (csr = csrSstatus → mode = prvSupervisor → savedPrivilege mode val = s.privilege)

/-- the instruction goes on after a trap of its own only to no effect on what the trap saved -/
def Insn.trapsOnce (s : Machine) (ins : Word) : Insn → Prop
  | .zicsr op rs1 _ csr => csrAccessIllegal s csr = true → writeHarmless s op rs1 csr ins
  | i => ¬ i.doubleFault s

/-- the word fetched at pc, if no trigger fires there, and the state it is executed in -/
def fetchedWord (s : Machine) : Option (Word × Machine) :=
  match mmuFetchOk s s.pc with
  | (some ins, t) => if triggerFires t s.pc sdtrigExecute then none else some (ins, t)
  | (none, _) => none

/-- none of the three ways to lose the trap happens -/
def trapKeepsName (s : Machine) : Prop :=
  ∀ ins t, fetchedWord s = some (ins, t) → fetchAligned t = true →
    if misaCEnabled t = true ∧ ins.extractLsb' 0 2 ≠ 3 then
      ∀ cause, compressedCause t (ins.setWidth 16) = some cause → handlerElsewhere t cause
    else (decode ins).trapsOnce t ins

/-! ## One trap entry -/

theorem savedPrivilege_machine {m m' : Word} (h11 : m.getLsbD 11 = m'.getLsbD 11) (h12 : m.getLsbD 12 = m'.getLsbD 12) :
    savedPrivilege prvMachine m = savedPrivilege prvMachine m' := by
  simp only [savedPrivilege, if_pos]
  apply BitVec.eq_of_getLsbD_eq
  intro j hj
  rw [getLsbD_mppOf _ hj, getLsbD_mppOf _ hj]
  interval_cases j
  · exact h11
  · exact h12

theorem savedPrivilege_supervisor {m m' : Word} (h8 : m.getLsbD 8 = m'.getLsbD 8) :
    savedPrivilege prvSupervisor m = savedPrivilege prvSupervisor m' := by
  have hne : prvSupervisor ≠ prvMachine := by decide
  simp only [savedPrivilege, if_neg hne, h8]

/-- a mode an exception goes to, and where it may come from -/
theorem exceptionMode_cases (s : Machine) (cause : Word) : exceptionMode s cause = prvMachine ∨
    exceptionMode s cause = prvSupervisor ∧ (s.privilege = prvUser ∨ s.privilege = prvSupervisor) := by
  unfold exceptionMode trapMode delegateToS
  split_ifs <;> simp_all

/-- entry saves the privilege interrupted -/
theorem savedPrivilege_statusOnTrap (s : Machine) (cause m : Word) :
    savedPrivilege (exceptionMode s cause) (statusOnTrap (exceptionMode s cause) m s.privilege) = s.privilege := by
  rcases exceptionMode_cases s cause with hm | ⟨hm, hp⟩
  · have h11 : mstatusWritableMask.getLsbD 11 = true := rfl
    have h12 : mstatusWritableMask.getLsbD 12 = true := rfl
    rw [hm]
    simp only [savedPrivilege, if_pos]
    apply BitVec.eq_of_getLsbD_eq
    intro j hj
    rw [getLsbD_mppOf _ hj, statusOnTrap, if_pos rfl, BitVec.getLsbD_and, getLsbD_mstatusOnTrap _ _ (by omega)]
    interval_cases j
    · simp [h11]
    · simp [h12]
  · rw [hm, statusOnTrap, if_neg (by decide)]
    have hne : prvSupervisor ≠ prvMachine := by decide
    have hmask : sstatusMask.getLsbD 8 = true := rfl
    simp only [savedPrivilege, if_neg hne]
    rw [getLsbD_sstatusInto _ _ (by decide), getLsbD_sstatusOnTrap _ _ (by decide), hmask]
    rcases hp with hp | hp <;> rw [hp] <;> rfl

/-- **A single trap entry names its instruction.** -/
theorem Kept.namesTrap {s s' : Machine} {cause tval : Word} (h : Kept (raiseExceptionPc s cause tval s.pc) s') :
    NamesTrap s s' ⟨cause, tval, s.pc, s.privilege, exceptionMode s cause⟩ := by
  have hcsr := h.csr
  rw [raiseExceptionPc_csr] at hcsr
  refine ⟨?_, ?_, ?_, ?_, ?_, ?_⟩
  · rw [hcsr, trapCsr_epc]
  · rw [hcsr, trapCsr_cause]
  · rw [hcsr, trapCsr_tval]
  · rw [hcsr, trapCsr_mstatus, savedPrivilege_statusOnTrap]
  · rw [h.privilege, raiseExceptionPc_privilege]
  · rw [h.pc, raiseExceptionPc_pc, BitVec.sub_add_cancel]

theorem Outcome.singleTrap {s s' : Machine} (h : Outcome s s') : SingleTrap s s' := by
  cases h with
  | quiet hq => exact Or.inl hq.traps
  | trap cause tval hk =>
    refine Or.inr ⟨_, hk.traps.trans (raiseExceptionPc_traps _ _ _ _), fun _ => hk.namesTrap⟩

theorem insSret_singleTrap (s : Machine) : SingleTrap s (insSret s) := by
  unfold insSret
  split_ifs
  · exact (Outcome.raise s _ _).singleTrap
  · exact Or.inl rfl

/-- the law is about the trap state -/
theorem SingleTrap.of_kept {s t s' : Machine} (h : Kept s t) : SingleTrap t s' ↔ SingleTrap s s' := by
  have hn : ∀ r, NamesTrap t s' r ↔ NamesTrap s s' r := fun r =>
    ⟨fun hr => ⟨hr.epc.trans h.pc, hr.cause, hr.tval, hr.saved.trans h.privilege, hr.mode, by rw [hr.pc, h.csr]⟩,
      fun hr => ⟨hr.epc.trans h.pc.symm, hr.cause, hr.tval, hr.saved.trans h.privilege.symm, hr.mode,
        by rw [hr.pc, h.csr]⟩⟩
  simp only [SingleTrap, h.traps, hn]

/-- two traps are too many -/
theorem not_singleTrap {s s' : Machine} {t t' : Trap} (h : s'.traps = t :: t' :: s.traps) : ¬ SingleTrap s s' := by
  intro hx
  rcases hx with h0 | ⟨r, h1, -⟩
  · have hl := congrArg List.length (h.symm.trans h0)
    simp only [List.length_cons] at hl
    omega
  · have hl := congrArg List.length (h.symm.trans h1)
    simp only [List.length_cons] at hl
    omega

/-! ## The CSR instructions -/

/-- the saved registers after a CSR write: only a write to the register itself changes it -/
theorem csrWrite_saved {x : Csr} (hx : ¬ keptByTrap x) (hm : x ≠ csrMstatus) (s : Machine) (csr : Csr) (val : Word) :
    (csrWrite s csr val).csr x = if csr = x then val else s.csr x := by
  by_cases hs : csr = csrSstatus
  · subst hs
    rw [csrWrite_sstatus, if_neg fun he : csrSstatus = x => hx (he ▸ by decide)]
    exact Function.update_of_ne hm _ _
  · by_cases hk : keptByTrap csr
    · rw [csrWrite_other hk hs hx, if_neg fun he : csr = x => hx (he ▸ hk)]
    · by_cases hc : csr = csrMstatus
      · subst hc
        rw [csrWrite_mstatus, if_neg (Ne.symm hm)]
        exact Function.update_of_ne hm _ _
      · have hset : csrWrite s csr val = setCsr s csr val := by
          unfold keptByTrap at hk
          simp only [not_and_or, not_not] at hk
          rcases hk with h | h | h | h | h | h | h
          · exact absurd h hc
          all_goals subst h; rfl
        rw [hset]
        by_cases he : csr = x
        · rw [if_pos he, ← he]
          exact Function.update_self _ _ _
        · rw [if_neg he]
          exact Function.update_of_ne (Ne.symm he) _ _

theorem csrWrite_status (s : Machine) (csr : Csr) (val : Word) : (csrWrite s csr val).csr csrMstatus =
    if csr = csrMstatus then val &&& mstatusWritableMask
    else if csr = csrSstatus then sstatusInto (s.csr csrMstatus) val else s.csr csrMstatus := by
  split_ifs with hm hs
  · subst hm; rfl
  · subst hs; rfl
  · by_cases hk : keptByTrap csr
    · exact csrWrite_other hk hs (by decide) s val
    · unfold keptByTrap at hk
      simp only [not_and_or, not_not] at hk
      rcases hk with h | h | h | h | h | h | h
      · exact absurd h hm
      all_goals subst h; rfl

/-- the registers a trap into the mode saves in -/
theorem saved_registers (mode : Priv) : (¬ keptByTrap (epcOf mode) ∧ epcOf mode ≠ csrMstatus) ∧
    (¬ keptByTrap (causeOf mode) ∧ causeOf mode ≠ csrMstatus) ∧
      (¬ keptByTrap (tvalOf mode) ∧ tvalOf mode ≠ csrMstatus) := by
  unfold epcOf causeOf tvalOf
  split_ifs <;> decide

/-- the privilege saved, after a CSR write -/
theorem savedPrivilege_csrWrite {s : Machine} {mode p : Priv} (hmode : mode = prvMachine ∨ mode = prvSupervisor)
    (hp : savedPrivilege mode (s.csr csrMstatus) = p) (csr : Csr) (val : Word) :
    savedPrivilege mode ((csrWrite s csr val).csr csrMstatus) = p ↔
      (csr = csrMstatus → savedPrivilege mode val = p) ∧
        (csr = csrSstatus → mode = prvSupervisor → savedPrivilege mode val = p) := by
  have hne : prvMachine ≠ prvSupervisor := by decide
  have hcsr : csrSstatus ≠ csrMstatus := by decide
  rw [csrWrite_status]
  split_ifs with hm hs
  · have hw : savedPrivilege mode (val &&& mstatusWritableMask) = savedPrivilege mode val := by
      rcases hmode with rfl | rfl
      · exact savedPrivilege_machine (by rw [BitVec.getLsbD_and]; exact Bool.and_true _)
          (by rw [BitVec.getLsbD_and]; exact Bool.and_true _)
      · exact savedPrivilege_supervisor (by rw [BitVec.getLsbD_and]; exact Bool.and_true _)
    rw [hw]
    exact ⟨fun h => ⟨fun _ => h, fun he => absurd (he.symm.trans hm) hcsr⟩, fun h => h.1 hm⟩
  · rcases hmode with rfl | rfl
    · have hw : savedPrivilege prvMachine (sstatusInto (s.csr csrMstatus) val) = p := by
        rw [← hp]
        exact savedPrivilege_machine (by rw [getLsbD_sstatusInto _ _ (by decide)]; rfl)
          (by rw [getLsbD_sstatusInto _ _ (by decide)]; rfl)
      exact ⟨fun _ => ⟨fun he => absurd he hm, fun _ he => absurd he hne⟩, fun _ => hw⟩
    · have hw : savedPrivilege prvSupervisor (sstatusInto (s.csr csrMstatus) val) = savedPrivilege prvSupervisor val :=
        savedPrivilege_supervisor (by rw [getLsbD_sstatusInto _ _ (by decide)]; rfl)
      rw [hw]
      exact ⟨fun h => ⟨fun he => absurd he hm, fun _ _ => h⟩, fun h => h.2 hs rfl⟩
  · exact ⟨fun _ => ⟨fun he => absurd he hm, fun he => absurd he hs⟩, fun _ => hp⟩

theorem ite_eq_iff_of_eq {α : Type} {p : Prop} [Decidable p] {a b c : α} (hb : b = c) :
    (if p then a else b) = c ↔ (p → a = c) := by
  split_ifs with h
  · exact ⟨fun ha _ => ha, fun ha => ha h⟩
  · exact ⟨fun _ hp => absurd hp h, fun _ => hb⟩

/-- the trap CSRs after a write made in the state t a trap left: they still name it when the write puts back what it
saved -/
theorem namesTrap_csrWrite {s t s' : Machine} {cause tval : Word} {csr : Csr} {val : Word}
    (ht : t = raiseExceptionPc s cause tval s.pc) (hk : Kept (csrWrite t csr val) s') :
    NamesTrap s s' ⟨cause, tval, s.pc, s.privilege, exceptionMode s cause⟩ ↔
      (csr = epcOf (exceptionMode s cause) → val = s.pc) ∧ (csr = causeOf (exceptionMode s cause) → val = cause) ∧
        (csr = tvalOf (exceptionMode s cause) → val = tval) ∧
        (csr = csrMstatus → savedPrivilege (exceptionMode s cause) val = s.privilege) ∧
        (csr = csrSstatus → exceptionMode s cause = prvSupervisor →
          savedPrivilege (exceptionMode s cause) val = s.privilege) := by
  subst ht
  have hn := (Kept.refl (raiseExceptionPc s cause tval s.pc)).namesTrap
  have hm := csrWrite_sameMode (raiseExceptionPc s cause tval s.pc) csr val
  obtain ⟨⟨he, he'⟩, ⟨hc, hc'⟩, ⟨hv, hv'⟩⟩ := saved_registers (exceptionMode s cause)
  have hmode : exceptionMode s cause = prvMachine ∨ exceptionMode s cause = prvSupervisor :=
    (exceptionMode_cases s cause).imp_right And.left
  rw [← savedPrivilege_csrWrite hmode hn.saved csr val, ← hk.csr, ← ite_eq_iff_of_eq hn.epc, ← csrWrite_saved he he',
    ← ite_eq_iff_of_eq hn.cause, ← csrWrite_saved hc hc', ← ite_eq_iff_of_eq hn.tval, ← csrWrite_saved hv hv', ← hk.csr]
  refine ⟨?_, ?_⟩
  · exact fun h => ⟨h.epc, h.cause, h.tval, h.saved⟩
  · intro hx
    obtain ⟨h1, h2, h3, h4⟩ := hx
    exact ⟨h1, h2, h3, h4, hk.privilege.trans (hm.privilege.trans hn.mode), by rw [hk.pc, hm.pc]; exact hn.pc⟩

/-- after an illegal access, the trap is named exactly when the write is harmless -/
theorem zicsr_singleTrap_iff (op : CsrOp) (s : Machine) (rs1 rd : Reg) (csr : Csr) (ins : Word)
    (hi : csrAccessIllegal s csr = true) :
    SingleTrap s (op.exec s rs1 rd csr ins) ↔ writeHarmless s op rs1 csr ins := by
  obtain ⟨hk, htraps⟩ := op.exec_illegal s rs1 rd csr ins hi
  have hsingle : SingleTrap s (op.exec s rs1 rd csr ins) ↔ NamesTrap s (op.exec s rs1 rd csr ins)
      ⟨causeIllegalInstruction, ins, s.pc, s.privilege, exceptionMode s causeIllegalInstruction⟩ := by
    refine ⟨?_, ?_⟩
    · intro hx
      rcases hx with h | ⟨t, h, hname⟩
      · simp [h] at htraps
      · obtain ⟨rfl, -⟩ := List.cons.inj (h.symm.trans htraps)
        exact hname (by decide : causeIllegalInstruction ≠ causeMisalignedFetch)
    · exact fun h => Or.inr ⟨_, htraps, fun _ => h⟩
  rw [hsingle]
  simp only [writeHarmless, raiseException_eq_pc]
  unfold csrAfterWrite at hk
  cases hnv : op.newVal rs1 (raiseExceptionPc s causeIllegalInstruction ins s.pc)
      (csrRead (raiseExceptionPc s causeIllegalInstruction ins s.pc) csr) with
  | none =>
    rw [hnv] at hk
    exact ⟨fun _ _ => nofun, fun _ => hk.namesTrap⟩
  | some val =>
    rw [hnv] at hk
    rw [namesTrap_csrWrite rfl hk]
    refine ⟨?_, ?_⟩
    · intro h v hv
      obtain rfl := Option.some.inj hv
      exact h
    · exact fun h => h val rfl

/-! ## The compressed accesses -/

/-- s' is the outcome of an access begun in s that raises the exception given, or none -/
def AccessSpec (cause : Option Word) (s s' : Machine) : Prop :=
  match cause with
  | some cause => ∃ tval, Kept (raiseExceptionPc s cause tval s.pc) s'
  | none => Kept s s'

theorem sdtrigCheck_eq_none {s : Machine} {addr type : Word} :
    sdtrigCheck s addr type = none ↔ triggerFires s addr type = false := by
  unfold sdtrigCheck
  split_ifs with h
  · simp [h]
  · simp [h]

theorem insiILw_spec (s : Machine) (imm : Word) (rs1 rd : Reg) :
    AccessSpec (loadCause s (regRead s rs1 + imm) 3) s (insiILw s imm rs1 rd) := by
  unfold loadCause
  rcases insiILoad_cases 3 memRead32Signed s imm rs1 rd with
    ⟨ht, h⟩ | ⟨ht, ha, h⟩ | ⟨ht, ha, d, hw, h⟩ | ⟨ht, ha, pa, d, hw, h⟩
  all_goals
    change insiILw s imm rs1 rd = _ at h
    simp only [ne_eq, sdtrigCheckLoadTrigger, sdtrigCheck_eq_none] at ht
  · rw [if_pos (by simpa using ht), h]
    exact ⟨_, Kept.refl _⟩
  · rw [if_neg (by simp [ht]), if_pos ha, h]
    exact ⟨_, Kept.refl _⟩
  · rw [if_neg (by simp [ht]), if_neg (not_not.2 ha), if_pos (by rw [hw]), h]
    have hk : Kept s { s with dev := d } := ⟨rfl, rfl, rfl, rfl⟩
    exact ⟨_, (hk.raise causeLoadPageFault _).trans (regWrite_kept _ _ _)⟩
  · rw [if_neg (by simp [ht]), if_neg (not_not.2 ha), if_neg (by rw [hw]; exact nofun), h]
    exact ⟨rfl, rfl, rfl, rfl⟩

theorem insiSSw_spec (s : Machine) (imm : Word) (rs2 rs1 : Reg) :
    AccessSpec (storeCause s (regRead s rs1 + imm) 3) s (insiSSw s imm rs2 rs1) := by
  unfold storeCause
  rcases insiSStore_cases 3 memWrite32 id s imm rs2 rs1 with
    ⟨ht, h⟩ | ⟨ht, ha, h⟩ | ⟨ht, ha, d, hw, h⟩ | ⟨ht, ha, pa, d, hw, h⟩
  all_goals
    change insiSSw s imm rs2 rs1 = _ at h
    simp only [ne_eq, sdtrigCheckStoreTrigger, sdtrigCheck_eq_none] at ht
  · rw [if_pos (by simpa using ht), h]
    exact ⟨_, Kept.refl _⟩
  · rw [if_neg (by simp [ht]), if_pos ha, h]
    exact ⟨_, Kept.refl _⟩
  · rw [if_neg (by simp [ht]), if_neg (not_not.2 ha), if_pos (by rw [hw]), h]
    have hk : Kept s { s with dev := d } := ⟨rfl, rfl, rfl, rfl⟩
    exact ⟨_, hk.raise causeStorePageFault _⟩
  · rw [if_neg (by simp [ht]), if_neg (not_not.2 ha), if_neg (by rw [hw]; exact nofun), h]
    have hk : Kept s { s with dev := d } := ⟨rfl, rfl, rfl, rfl⟩
    exact hk.trans (memWrite32_memStep _ _ _).kept

theorem pageFaults_iff {s : Machine} {vaddr : Word} {access : MmuAccess} :
    pageFaults s vaddr access ↔ (mmuWalk s vaddr access).1 = none := by
  unfold pageFaults
  rcases hw : mmuWalk s vaddr access with ⟨_ | pa, d⟩
  · rw [mmuTranslate_none hw]
  · rw [mmuTranslate_some hw]

/-- an FP access is its translation -/
theorem fpCause_spec {s s' : Machine} {addr : Word} {access : MmuAccess}
    (h : Kept (mmuTranslate s addr access).2 s') : AccessSpec (fpCause s addr access) s s' := by
  unfold fpCause
  split_ifs with hw
  · exact ⟨addr, (mmuTranslate_trap (pageFaults_iff.2 hw)).trans h⟩
  · exact (mmuTranslate_kept fun hp => hw (pageFaults_iff.1 hp)).trans h

theorem compressedCause_spec {c : BitVec 16} {f : Machine → Machine} (h : compressedAccess c = some f) (s : Machine) :
    AccessSpec (compressedCause s c) s (f s) := by
  unfold compressedAccess at h
  simp only at h
  split at h
  case h_9 => cases h
  case h_7 hq h3 =>
    split_ifs at h with hrd
    obtain rfl := Option.some.inj h
    simp only [compressedCause, hq, h3, if_neg hrd]
    exact insiILw_spec s _ _ _
  all_goals
    rename_i hq h3
    obtain rfl := Option.some.inj h
    simp only [compressedCause, hq, h3]
  · exact fpCause_spec ((mmuRead_kept memRead64Unsigned s _).trans (fpu_kept _ _))
  · exact insiILw_spec s _ _ _
  · exact fpCause_spec ((mmuRead_kept memRead32Unsigned s _).trans (fpu_kept _ _))
  · exact fpCause_spec (mmuWrite_kept memWrite64_memStep s _ _)
  · exact insiSSw_spec s _ _ _
  · exact fpCause_spec (mmuWrite_kept memWrite32_memStep s _ _)
  · exact insiSSw_spec s _ _ _

theorem compressedAccess_of_cause {s : Machine} {c : BitVec 16} {cause : Word} (h : compressedCause s c = some cause) :
    compressedAccess c ≠ none := by
  unfold compressedCause at h
  simp only at h
  split at h
  case h_7 hq h3 =>
    split_ifs at h with hrd
    simpa [compressedAccess, hq, h3] using hrd
  case h_9 => cases h
  all_goals
    rename_i hq h3
    simp [compressedAccess, hq, h3]

/-- no access raises a misaligned fetch -/
theorem compressedCause_ne {s : Machine} {c : BitVec 16} {cause : Word} (h : compressedCause s c = some cause) :
    cause ≠ causeMisalignedFetch := by
  have hl : ∀ {addr mask}, loadCause s addr mask = some cause → cause ≠ causeMisalignedFetch := by
    intro addr mask hc
    unfold loadCause at hc
    split_ifs at hc <;> obtain rfl := Option.some.inj hc <;> decide
  have hst : ∀ {addr mask}, storeCause s addr mask = some cause → cause ≠ causeMisalignedFetch := by
    intro addr mask hc
    unfold storeCause at hc
    split_ifs at hc <;> obtain rfl := Option.some.inj hc <;> decide
  have hf : ∀ {addr access}, fpCause s addr access = some cause → cause ≠ causeMisalignedFetch := by
    intro addr access hc
    unfold fpCause at hc
    split_ifs at hc
    obtain rfl := Option.some.inj hc
    cases access <;> decide
  unfold compressedCause at h
  simp only at h
  split at h
  case h_7 =>
    split_ifs at h
    exact hl h
  case h_9 => cases h
  all_goals first | exact hl h | exact hst h | exact hf h

/-- the access traps in place when its handler is 4 bytes on -/
theorem trapsInPlace_iff {c : BitVec 16} {f : Machine → Machine} (h : compressedAccess c = some f) (s : Machine) :
    trapsInPlace s f ↔ ∃ cause, compressedCause s c = some cause ∧ ¬ handlerElsewhere s cause := by
  have hs := compressedCause_spec h s
  cases hc : compressedCause s c with
  | none =>
    rw [hc] at hs
    exact ⟨fun hp => absurd hs.traps hp.1, fun ⟨_, hn, _⟩ => nomatch hn⟩
  | some cause =>
    rw [hc] at hs
    obtain ⟨tval, hk⟩ := hs
    have ht : (f s).traps ≠ s.traps := by rw [hk.traps]; simp
    have hpc : (f s).pc = s.pc ↔ ¬ handlerElsewhere s cause := by
      rw [hk.pc, raiseExceptionPc_pc, handlerElsewhere, not_not]
    refine ⟨?_, ?_⟩
    · exact fun hp => ⟨cause, rfl, hpc.1 hp.2⟩
    · intro hx
      obtain ⟨cause', hc', hn⟩ := hx
      obtain rfl := Option.some.inj hc'
      exact ⟨ht, hpc.2 hn⟩

/-- **A compressed instruction** loses its trap exactly when its handler is 4 bytes on. -/
theorem execCInsn_singleTrap_iff (s : Machine) {c : BitVec 16} (h3 : c.extractLsb' 0 2 ≠ 3#2) :
    SingleTrap s (execCInsn s c).1 ↔ ∀ cause, compressedCause s c = some cause → handlerElsewhere s cause := by
  cases ha : compressedAccess c with
  | none =>
    exact ⟨fun _ _ hc => absurd ha (compressedAccess_of_cause hc), fun _ => (execCInsn_outcome h3 ha).singleTrap⟩
  | some f =>
    have hiff := trapsInPlace_iff ha s
    rw [execCInsn_access ha]
    by_cases hp : trapsInPlace s f
    · obtain ⟨cause, hc, hn⟩ := hiff.1 hp
      refine ⟨?_, fun hall => absurd (hall cause hc) hn⟩
      intro hs
      have hspec := compressedCause_spec ha s
      rw [hc] at hspec
      obtain ⟨tval, hk⟩ := hspec
      rw [cAccess_inPlace hp] at hs
      rcases hs with h0 | ⟨t, ht, hname⟩
      · exact absurd h0 hp.1
      · obtain ⟨rfl, -⟩ := List.cons.inj (ht.symm.trans (hk.traps.trans (raiseExceptionPc_traps _ _ _ _)))
        -- pc + 4 is 2 below the vector
        have hpc : s.pc - 2 + 4 = s.csr (tvecOf (exceptionMode s cause)) &&& ~~~(3 : Word) :=
          (hname (compressedCause_ne hc)).pc
        have hv := not_not.1 hn
        rw [← hpc] at hv
        bv_omega
    · refine ⟨?_, fun _ => (cAccess_outcome (compressedAccess_outcome ha s) hp).singleTrap⟩
      intro _ cause hc
      by_contra hn
      exact hp (hiff.2 ⟨cause, hc, hn⟩)

/-! ## Every instruction -/

section
variable [SoftFloat]

/-- two accesses that both fault: the instruction does run -/
theorem doubleFault_run {s : Machine} {ins : Word} {i : Insn} (h : i.doubleFault s) : ∃ s', i.run s ins = .ok s' := by
  unfold Insn.doubleFault at h
  split at h
  · rename_i o rs1 rs2 rd
    obtain ⟨msg, op, hm⟩ := o.exec_amo s rs1 rs2 rd
    simp only [Insn.run, AInsn.exec, hm, insaRAmo, h.1, ne_eq, not_true_eq_false, if_false]
    exact ⟨_, rfl⟩
  · exact ⟨_, by rw [Insn.run, h.1, if_neg Bool.false_ne_true, FpInsn.run]⟩
  · exact ⟨_, by rw [Insn.run, h.1, if_neg Bool.false_ne_true, FpInsn.run]⟩
  · exact h.elim

/-- **A 32-bit instruction.** -/
theorem run_singleTrap_iff (s : Machine) (ins : Word) (i : Insn) :
    (∀ s', i.run s ins = .ok s' → SingleTrap s s') ↔ i.trapsOnce s ins := by
  by_cases hz : i.isZicsr = true
  · cases i with
    | zicsr op rs1 rd csr =>
      simp only [Insn.run, Except.ok.injEq, forall_eq', Insn.trapsOnce]
      cases hi : csrAccessIllegal s csr with
      | true => simp only [zicsr_singleTrap_iff op s rs1 rd csr ins hi, forall_const]
      | false =>
        exact ⟨fun _ hf => absurd hf Bool.false_ne_true, fun _ => Or.inl (op.exec_legal s rs1 rd csr ins hi).traps⟩
    | _ => cases hz
  · rw [Bool.not_eq_true] at hz
    have honce : i.trapsOnce s ins ↔ ¬ i.doubleFault s := by
      cases i with
      | zicsr => cases hz
      | _ => exact Iff.rfl
    rw [honce]
    by_cases hr : i.isReturn = true
    · have hd : ¬ i.doubleFault s := by
        cases i with
        | sret => exact id
        | mret => exact id
        | mnret => exact id
        | _ => cases hr
      refine ⟨fun _ => hd, ?_⟩
      intro _ s' h
      cases i with
      | sret => obtain rfl := Except.ok.inj h; exact insSret_singleTrap s
      | mret => obtain rfl := Except.ok.inj h; exact Or.inl rfl
      | mnret => obtain rfl := Except.ok.inj h; exact Or.inl rfl
      | _ => cases hr
    · rw [Bool.not_eq_true] at hr
      refine ⟨?_, ?_⟩
      · intro hs hd
        obtain ⟨s', hrun⟩ := doubleFault_run hd
        obtain ⟨t, t', h2⟩ := (Insn.run_outcome hz hr hrun).2 hd
        exact not_singleTrap h2 (hs s' hrun)
      · exact fun hd s' h => ((Insn.run_outcome hz hr h).1 hd).singleTrap

/-- **exec.** -/
theorem exec_singleTrap_iff (s : Machine) (ins : Word) : (∀ s', exec s ins = .ok s' → SingleTrap s s') ↔
    (fetchAligned s = true → if misaCEnabled s = true ∧ ins.extractLsb' 0 2 ≠ 3 then
      ∀ cause, compressedCause s (ins.setWidth 16) = some cause → handlerElsewhere s cause
      else (decode ins).trapsOnce s ins) := by
  cases ha : fetchAligned s with
  | false =>
    rw [exec_misaligned ha]
    refine ⟨fun _ => nofun, ?_⟩
    intro _ s' h
    obtain rfl := Except.ok.inj h
    exact Or.inr ⟨_, raiseExceptionPc_traps _ _ _ _, fun hc => absurd rfl hc⟩
  | true =>
    simp only [forall_const]
    split_ifs with hc
    · rw [exec_compressed ha hc.1 hc.2]
      simp only [Except.ok.injEq, forall_eq']
      exact execCInsn_singleTrap_iff s (compressed_quadrant hc.2)
    · rw [exec_decode ha hc]
      exact run_singleTrap_iff s ins (decode ins)

/-- **Each instruction traps at most once and the trap names it, exactly when none of the three losses happens.** -/
theorem single_trap_iff (s : Machine) : (∀ s', fetchExec s = .ok s' → SingleTrap s s') ↔ trapKeepsName s := by
  unfold trapKeepsName fetchedWord
  rcases hf : mmuFetchOk s s.pc with ⟨_ | ins, t⟩
  · refine ⟨fun _ _ _ h => absurd h.symm (Option.some_ne_none _), ?_⟩
    intro _ s' h
    simp only [fetchExec, hf] at h
    obtain rfl := Except.ok.inj h
    exact Outcome.singleTrap (.trap _ _ (mmuFetchOk_none hf))
  · have hk := mmuFetchOk_some_kept hf
    simp only
    cases hg : triggerFires t s.pc sdtrigExecute with
    | true =>
      refine ⟨fun _ _ _ h => absurd h.symm (Option.some_ne_none _), ?_⟩
      intro _ s' h
      simp only [fetchExec, hf, sdtrigCheckFetchTrigger, sdtrigCheck, hg, if_pos] at h
      obtain rfl := Except.ok.inj h
      exact Outcome.singleTrap (.trap _ _ (hk.raise causeBreakpoint s.pc))
    | false =>
      have hexec : fetchExec s = exec t ins := by
        simp only [fetchExec, hf, sdtrigCheckFetchTrigger, sdtrigCheck, hg, if_neg Bool.false_ne_true]
      have hiff := exec_singleTrap_iff t ins
      simp only [SingleTrap.of_kept hk] at hiff
      rw [hexec, hiff]
      simp only [if_neg Bool.false_ne_true, Option.some.injEq, Prod.mk.injEq]
      refine ⟨?_, ?_⟩
      · rintro h _ _ ⟨rfl, rfl⟩
        exact h
      · exact fun h => h ins t ⟨rfl, rfl⟩

end

/-! ## An AMO that traps twice -/

/-- supervisor mode, the page at virtual 0 mapped to physical 0x3000; AMOADD.W x7, x6, (x5) there, and 0x5000 in x5 -/
def twiceMemory (a : Word) : Byte :=
  if a = 0x1001 then 0x08 else if a = 0x1000 then 0x01 -- the directory at 0x1000: table at 0x2000
  else if a = 0x2000 then 0x4B else if a = 0x2001 then 0x0C
  else if a = 0x3000 then 0xAF else if a = 0x3001 then 0xA3 else if a = 0x3002 then 0x62 else 0

/-- load page faults are delegated, so that the store is translated too -/
def twiceMachine : Machine :=
  { machineInit (fun r => if r = 5 then 0x5000 else 0) twiceMemory 0 with
    privilege := prvSupervisor
    csr := Function.update (Function.update (fun i => (csrTable i).value) csrSatp 0x80000001) csrMedeleg 0x2000 }

/-- the load faults into S-mode and the store, from S-mode, into M-mode -/
theorem amo_traps_twice : ¬ ∀ s', @fetchExec noFloat twiceMachine = .ok s' → SingleTrap twiceMachine s' := by
  intro h
  have h2 : (match @fetchExec noFloat twiceMachine with
    | .ok s' => s'.traps.map Trap.cause
    | .error _ => []) = [causeStorePageFault, causeLoadPageFault] := by decide
  cases hr : @fetchExec noFloat twiceMachine with
  | error e =>
    rw [hr] at h2
    cases h2
  | ok s' =>
    rw [hr] at h2
    obtain ⟨t, l, hl, -, hm⟩ := List.map_eq_cons_iff.1 h2
    obtain ⟨t', l', rfl, -, hm'⟩ := List.map_eq_cons_iff.1 hm
    obtain rfl := List.map_eq_nil_iff.1 hm'
    exact not_singleTrap (hl.trans rfl) (h s' hr)

end RiscvEmu
