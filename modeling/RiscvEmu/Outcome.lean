/-
What one instruction can do to the trap state: privilege, CSRs, pc and the record of traps.

Every routine leaves them alone, or is a trap entry on top of which it changes registers, memory and devices only; the
CSR instructions, the returns and the routines with two memory accesses are the exceptions. Results:
- `Insn.run_outcome`: every instruction but the CSR instructions and the returns;
- `execCInsn_outcome`, `cAccess_outcome`: the compressed instructions;
- `CsrOp.exec_legal`, `CsrOp.exec_illegal`: the CSR instructions, after a legal and after an illegal access.
-/
import RiscvEmu.Decode
import RiscvEmu.LoadStore

namespace RiscvEmu

/-- s' has the trap state of s -/
structure Kept (s s' : Machine) : Prop where
  traps : s'.traps = s.traps
  privilege : s'.privilege = s.privilege
  csr : s'.csr = s.csr
  pc : s'.pc = s.pc

/-- s' has the trap state of s but for pc: no trap, no CSR write, no return -/
structure Quiet (s s' : Machine) : Prop where
  traps : s'.traps = s.traps
  privilege : s'.privilege = s.privilege
  csr : s'.csr = s.csr

/-- no trap, or one trap entry and then nothing that matters to it -/
inductive Outcome (s s' : Machine) : Prop where
  | quiet (h : Quiet s s')
  | trap (cause tval : Word) (h : Kept (raiseExceptionPc s cause tval s.pc) s')

/-- what an instruction does that accesses no memory and no CSR and does not return: registers and pc, or a trap -/
inductive Plain (s : Machine) : Machine → Prop where
  | regs (gpr : Reg → Word) (pc : Word) (terminated : Bool) :
    Plain s { s with gpr := gpr, pc := pc, terminated := terminated }
  | trap (cause tval : Word) : Plain s (raiseExceptionPc s cause tval s.pc)

section
variable {s t u s' : Machine}

theorem Kept.refl (s : Machine) : Kept s s := ⟨rfl, rfl, rfl, rfl⟩

theorem Kept.trans (h : Kept s t) (h' : Kept t u) : Kept s u :=
  ⟨h'.traps.trans h.traps, h'.privilege.trans h.privilege, h'.csr.trans h.csr, h'.pc.trans h.pc⟩

theorem Kept.quiet (h : Kept s t) : Quiet s t := ⟨h.traps, h.privilege, h.csr⟩

theorem Quiet.trans (h : Quiet s t) (h' : Quiet t u) : Quiet s u :=
  ⟨h'.traps.trans h.traps, h'.privilege.trans h.privilege, h'.csr.trans h.csr⟩

/-- trap entry depends on the trap state alone -/
theorem Kept.raise (h : Kept s t) (cause tval : Word) :
    Kept (raiseExceptionPc s cause tval s.pc) (raiseExceptionPc t cause tval t.pc) := by
  have hm : exceptionMode t cause = exceptionMode s cause := by
    simp only [exceptionMode, trapMode, h.privilege, h.csr]
  refine ⟨?_, ?_, ?_, ?_⟩
  · simp only [raiseExceptionPc_traps, hm, h.traps, h.privilege, h.pc]
  · simp only [raiseExceptionPc_privilege, hm]
  · simp only [raiseExceptionPc_csr, hm, trapCsr, h.csr, h.privilege, h.pc]
  · simp only [raiseExceptionPc_pc, hm, h.csr]

theorem Kept.outcome (h : Kept s t) : Outcome s t := .quiet h.quiet

theorem Outcome.raise (s : Machine) (cause tval : Word) : Outcome s (raiseExceptionPc s cause tval s.pc) :=
  .trap cause tval (Kept.refl _)

/-- an instruction that keeps the trap state first -/
theorem Kept.outcome_trans (h : Kept s t) (h' : Outcome t u) : Outcome s u := by
  cases h' with
  | quiet hq => exact .quiet (h.quiet.trans hq)
  | trap cause tval hk => exact .trap cause tval ((h.raise cause tval).trans hk)

/-- an instruction that keeps the trap state afterwards -/
theorem Outcome.trans_kept (h : Outcome s t) (h' : Kept t u) : Outcome s u := by
  cases h with
  | quiet hq => exact .quiet (hq.trans h'.quiet)
  | trap cause tval hk => exact .trap cause tval (hk.trans h')

theorem Outcome.quiet_of_traps (h : Outcome s s') (ht : s'.traps = s.traps) : Quiet s s' := by
  cases h with
  | quiet hq => exact hq
  | trap cause tval hk =>
    have := hk.traps.symm.trans ht
    simp at this

theorem Outcome.le_length (h : Outcome s s') : s.traps.length ≤ s'.traps.length := by
  cases h with
  | quiet hq => rw [hq.traps]
  | trap cause tval hk => rw [hk.traps]; simp

theorem Plain.refl (s : Machine) : Plain s s := .regs s.gpr s.pc s.terminated

theorem Plain.outcome (h : Plain s s') : Outcome s s' := by
  cases h with
  | regs gpr pc terminated => exact .quiet ⟨rfl, rfl, rfl⟩
  | trap cause tval => exact .raise s cause tval

theorem MemStep.kept (h : MemStep s s') : Kept s s' := by
  obtain ⟨mem, flags, dev, rfl⟩ := h
  exact ⟨rfl, rfl, rfl, rfl⟩

theorem RegStep.kept (h : RegStep s s') : Kept s s' := by
  obtain ⟨gpr, fpu, rfl⟩ := h
  exact ⟨rfl, rfl, rfl, rfl⟩

end

/-! ## Memory accesses -/

section
variable (s : Machine) (vaddr : Word) (access : MmuAccess)

/-- the translation raises a page fault -/
def pageFaults : Prop := (mmuTranslate s vaddr access).1 = none

instance : Decidable (pageFaults s vaddr access) := by unfold pageFaults; infer_instance

variable {s vaddr access}

theorem mmuTranslate_kept (h : ¬ pageFaults s vaddr access) : Kept s (mmuTranslate s vaddr access).2 := by
  rcases hw : mmuWalk s vaddr access with ⟨_ | pa, d⟩
  · exact absurd (by rw [pageFaults, mmuTranslate_none hw]) h
  · rw [mmuTranslate_some hw]
    exact ⟨rfl, rfl, rfl, rfl⟩

theorem mmuTranslate_trap (h : pageFaults s vaddr access) :
    Kept (raiseExceptionPc s (pageFaultCause access) vaddr s.pc) (mmuTranslate s vaddr access).2 := by
  rcases hw : mmuWalk s vaddr access with ⟨_ | pa, d⟩
  · rw [mmuTranslate_none hw]
    have hk : Kept s { s with dev := d } := ⟨rfl, rfl, rfl, rfl⟩
    exact hk.raise (pageFaultCause access) vaddr
  · rw [pageFaults, mmuTranslate_some hw] at h
    exact nomatch h

theorem mmuTranslate_outcome (s : Machine) (vaddr : Word) (access : MmuAccess) :
    Outcome s (mmuTranslate s vaddr access).2 := by
  by_cases h : pageFaults s vaddr access
  · exact .trap _ _ (mmuTranslate_trap h)
  · exact (mmuTranslate_kept h).outcome

variable {α : Type}

/-- a read is its translation, and the devices read -/
theorem mmuRead_kept [Zero α] (read : Machine → Word → α × Devices) (s : Machine) (vaddr : Word) :
    Kept (mmuTranslate s vaddr .load).2 (mmuRead read s vaddr).2 := by
  unfold mmuRead
  rcases mmuTranslate s vaddr .load with ⟨_ | pa, t⟩
  · exact Kept.refl t
  · exact ⟨rfl, rfl, rfl, rfl⟩

/-- a write is its translation, and a physical write -/
theorem mmuWrite_kept {write : Machine → Word → α → Machine} (hw : ∀ s a v, MemStep s (write s a v)) (s : Machine)
    (vaddr : Word) (val : α) : Kept (mmuTranslate s vaddr .store).2 (mmuWrite write s vaddr val) := by
  unfold mmuWrite
  rcases mmuTranslate s vaddr .store with ⟨_ | pa, t⟩
  · exact Kept.refl t
  · exact (hw t pa val).kept

theorem mmuRead_fault [Zero α] {read : Machine → Word → α × Devices} {s : Machine} {vaddr : Word}
    (h : pageFaults s vaddr .load) : (mmuRead read s vaddr).2 = (mmuTranslate s vaddr .load).2 := by
  unfold pageFaults at h
  unfold mmuRead
  rcases hm : mmuTranslate s vaddr .load with ⟨_ | pa, t⟩
  · rfl
  · rw [hm] at h
    exact nomatch h

theorem mmuWrite_fault {write : Machine → Word → α → Machine} {s : Machine} {vaddr : Word} {val : α}
    (h : pageFaults s vaddr .store) : mmuWrite write s vaddr val = (mmuTranslate s vaddr .store).2 := by
  unfold pageFaults at h
  unfold mmuWrite
  rcases hm : mmuTranslate s vaddr .store with ⟨_ | pa, t⟩
  · rfl
  · rw [hm] at h
    exact nomatch h

theorem mmuFetchOk_kept (s : Machine) (vaddr : Word) :
    Kept (mmuTranslate s vaddr .fetch).2 (mmuFetchOk s vaddr).2 := by
  unfold mmuFetchOk
  rcases mmuTranslate s vaddr .fetch with ⟨_ | pa, t⟩
  · exact Kept.refl t
  · exact ⟨rfl, rfl, rfl, rfl⟩

theorem mmuFetchOk_none {s t : Machine} {vaddr : Word} (h : mmuFetchOk s vaddr = (none, t)) :
    Kept (raiseExceptionPc s causeFetchPageFault vaddr s.pc) t := by
  have hk := mmuFetchOk_kept s vaddr
  rw [h] at hk
  have hp : pageFaults s vaddr .fetch := by
    unfold mmuFetchOk at h
    unfold pageFaults
    rcases hm : mmuTranslate s vaddr .fetch with ⟨_ | pa, u⟩
    · rfl
    · rw [hm] at h
      simp at h
  have ht := mmuTranslate_trap hp
  rw [show pageFaultCause .fetch = causeFetchPageFault from rfl] at ht
  exact ht.trans hk

theorem mmuFetchOk_some_kept {s t : Machine} {vaddr w : Word} (h : mmuFetchOk s vaddr = (some w, t)) : Kept s t := by
  have hk := mmuFetchOk_kept s vaddr
  rw [h] at hk
  refine (mmuTranslate_kept ?_).trans hk
  intro hp
  unfold mmuFetchOk at h
  unfold pageFaults at hp
  rcases hm : mmuTranslate s vaddr .fetch with ⟨_ | pa, u⟩
  · rw [hm] at h
    simp at h
  · rw [hm] at hp
    exact nomatch hp

/-- the first access faults, and so does the second, made in the state the first trap leaves -/
def bothFault (s : Machine) (a : Word) (access : MmuAccess) (b : Word) (access' : MmuAccess) : Prop :=
  pageFaults s a access ∧ pageFaults (mmuTranslate s a access).2 b access'

instance (s : Machine) (a : Word) (access : MmuAccess) (b : Word) (access' : MmuAccess) :
    Decidable (bothFault s a access b access') := by unfold bothFault; infer_instance

/-- two accesses in a row: one outcome unless both fault, and then two traps -/
theorem twoAccesses {s u s' : Machine} {a b : Word} {access access' : MmuAccess}
    (h1 : Kept (mmuTranslate s a access).2 u) (hu : pageFaults s a access → u = (mmuTranslate s a access).2)
    (h2 : Kept (mmuTranslate u b access').2 s') :
    (¬ bothFault s a access b access' → Outcome s s') ∧
      (bothFault s a access b access' → ∃ t t', s'.traps = t :: t' :: s.traps) := by
  by_cases hf : pageFaults s a access
  · obtain rfl := hu hf
    have ht := mmuTranslate_trap hf
    refine ⟨?_, ?_⟩
    · intro hb
      have hk := mmuTranslate_kept fun h => hb ⟨hf, h⟩
      exact .trap _ _ (ht.trans (hk.trans h2))
    · intro hx
      obtain ⟨-, h⟩ := hx
      have h2t := h2.traps.trans (mmuTranslate_trap h).traps
      rw [raiseExceptionPc_traps, ht.traps, raiseExceptionPc_traps] at h2t
      exact ⟨_, _, h2t⟩
  · refine ⟨?_, fun hb => absurd hb.1 hf⟩
    intro _
    have hk := (mmuTranslate_kept hf).trans h1
    exact hk.outcome_trans ((mmuTranslate_outcome u b access').trans_kept h2)

end

/-! ## The routines -/

section
variable (s : Machine)

theorem regWrite_kept (rd : Reg) (d : Word) : Kept s (regWrite s rd d) := ⟨rfl, rfl, rfl, rfl⟩

theorem regWrite_plain (rd : Reg) (d : Word) : Plain s (regWrite s rd d) := .regs _ s.pc s.terminated

theorem ROp.exec_plain (op : ROp) (rs2 rs1 rd : Reg) : Plain s (op.exec s rs2 rs1 rd) := by
  cases op <;> exact regWrite_plain s _ _

theorem IOp.exec_plain (op : IOp) (imm : Word) (rs1 rd : Reg) : Plain s (op.exec s imm rs1 rd) := by
  cases op <;> exact regWrite_plain s _ _

/-- a load goes through, or enters one of its three traps -/
theorem LoadOp.exec_causes (op : LoadOp) (imm : Word) (rs1 rd : Reg) : Quiet s (op.exec s imm rs1 rd) ∨
    ∃ cause ∈ [causeBreakpoint, causeMisalignedLoad, causeLoadPageFault], ∃ tval,
      Kept (raiseExceptionPc s cause tval s.pc) (op.exec s imm rs1 rd) := by
  rw [op.exec_eq]
  rcases insiILoad_cases op.mask op.read s imm rs1 rd with
    ⟨-, h⟩ | ⟨-, -, h⟩ | ⟨-, -, d, -, h⟩ | ⟨-, -, pa, d, -, h⟩
  · rw [h]; exact .inr ⟨causeBreakpoint, by simp, _, Kept.refl _⟩
  · rw [h]; exact .inr ⟨causeMisalignedLoad, by simp, _, Kept.refl _⟩
  · rw [h]
    have hk : Kept s { s with dev := d } := ⟨rfl, rfl, rfl, rfl⟩
    exact .inr ⟨causeLoadPageFault, by simp, _, (hk.raise causeLoadPageFault _).trans ⟨rfl, rfl, rfl, rfl⟩⟩
  · rw [h]; exact .inl ⟨rfl, rfl, rfl⟩

theorem LoadOp.exec_outcome (op : LoadOp) (imm : Word) (rs1 rd : Reg) : Outcome s (op.exec s imm rs1 rd) := by
  rcases op.exec_causes s imm rs1 rd with hq | ⟨cause, -, tval, hk⟩
  · exact .quiet hq
  · exact .trap cause tval hk

theorem insiSStore_causes {α : Type} (mask : Word) {write : Machine → Word → α → Machine} (trunc : Word → α)
    (hw : ∀ s a v, MemStep s (write s a v)) (imm : Word) (rs2 rs1 : Reg) {s' : Machine}
    (hs : s' = insiSStore mask (fun s a v => mmuWrite write s a (trunc v)) s imm rs2 rs1) :
    Quiet s s' ∨ ∃ cause ∈ [causeBreakpoint, causeMisalignedStore, causeStorePageFault], ∃ tval,
      Kept (raiseExceptionPc s cause tval s.pc) s' := by
  have hk : ∀ d, Kept s { s with dev := d } := fun d => ⟨rfl, rfl, rfl, rfl⟩
  rcases insiSStore_cases mask write trunc s imm rs2 rs1 with
    ⟨-, h⟩ | ⟨-, -, h⟩ | ⟨-, -, d, -, h⟩ | ⟨-, -, pa, d, -, h⟩
  · rw [hs, h]; exact .inr ⟨causeBreakpoint, by simp, _, Kept.refl _⟩
  · rw [hs, h]; exact .inr ⟨causeMisalignedStore, by simp, _, Kept.refl _⟩
  · rw [hs, h]; exact .inr ⟨causeStorePageFault, by simp, _, (hk d).raise causeStorePageFault _⟩
  · rw [hs, h]; exact .inl ((hk d).trans (hw _ _ _).kept).quiet

/-- a store goes through, or enters one of its three traps -/
theorem StoreOp.exec_causes (op : StoreOp) (imm : Word) (rs2 rs1 : Reg) : Quiet s (op.exec s imm rs2 rs1) ∨
    ∃ cause ∈ [causeBreakpoint, causeMisalignedStore, causeStorePageFault], ∃ tval,
      Kept (raiseExceptionPc s cause tval s.pc) (op.exec s imm rs2 rs1) := by
  cases op with
  | sb => exact insiSStore_causes s 0 (fun v => (v &&& 0xFF).setWidth 8) memWrite8_memStep imm rs2 rs1 rfl
  | sh => exact insiSStore_causes s 1 (fun v => (v &&& 0xFFFF).setWidth 16) memWrite16_memStep imm rs2 rs1 rfl
  | sw => exact insiSStore_causes s 3 id memWrite32_memStep imm rs2 rs1 rfl

theorem StoreOp.exec_outcome (op : StoreOp) (imm : Word) (rs2 rs1 : Reg) : Outcome s (op.exec s imm rs2 rs1) := by
  rcases op.exec_causes s imm rs2 rs1 with hq | ⟨cause, -, tval, hk⟩
  · exact .quiet hq
  · exact .trap cause tval hk

theorem raiseIfMisalignedFetch_some {s t : Machine} {target : Word} (h : raiseIfMisalignedFetch s target = some t) :
    t = raiseExceptionPc s causeMisalignedFetch target s.pc := by
  unfold raiseIfMisalignedFetch at h
  by_cases hc : target &&& (if misaCEnabled s then 1 else 3) ≠ 0
  · rw [if_pos hc] at h
    exact (Option.some.inj h).symm
  · rw [if_neg hc] at h
    exact nomatch h

theorem raiseIfMisalignedFetch_eq_none {s : Machine} {target : Word} : raiseIfMisalignedFetch s target = none ↔
    target &&& (if misaCEnabled s then 1 else 3) = 0 := by
  unfold raiseIfMisalignedFetch
  split_ifs <;> simp_all

theorem raiseIfMisalignedFetch_none {s : Machine} {target : Word} (hc : misaCEnabled s = true) (ht : target &&& 1 = 0) :
    raiseIfMisalignedFetch s target = none := by
  rw [raiseIfMisalignedFetch_eq_none, if_pos hc, ht]

/-- a jump traps on its target or goes there -/
theorem jump_cases {P : Machine → Prop} {s s' : Machine} {target : Word} {f : Machine}
    (h : s' = match raiseIfMisalignedFetch s target with | some t => t | none => f)
    (htrap : P (raiseExceptionPc s causeMisalignedFetch target s.pc)) (hf : P f) : P s' := by
  cases hr : raiseIfMisalignedFetch s target with
  | some t =>
    rw [hr] at h
    rw [h, raiseIfMisalignedFetch_some hr]
    exact htrap
  | none =>
    rw [hr] at h
    rw [h]
    exact hf

theorem jump_plain {s s' : Machine} {target : Word} {f : Machine}
    (h : s' = match raiseIfMisalignedFetch s target with | some t => t | none => f) (hf : Plain s f) : Plain s s' :=
  jump_cases h (.trap _ _) hf

theorem insiBranch_plain (taken : Word → Word → Bool) (imm : Word) (rs2 rs1 : Reg) :
    Plain s (insiBranch taken s imm rs2 rs1) := by
  unfold insiBranch
  split_ifs
  · exact jump_plain rfl (.regs s.gpr _ s.terminated)
  · exact .refl s

/-- the condition of the branch on rs1 and rs2 -/
def BranchOp.taken : BranchOp → Word → Word → Bool
  | .beq, v1, v2 => v1 = v2
  | .bne, v1, v2 => v1 ≠ v2
  | .blt, v1, v2 => v1.slt v2
  | .bge, v1, v2 => v2.sle v1
  | .bltu, v1, v2 => v1 < v2
  | .bgeu, v1, v2 => v1 ≥ v2

theorem BranchOp.exec_eq (op : BranchOp) (imm : Word) (rs2 rs1 : Reg) :
    op.exec s imm rs2 rs1 = insiBranch op.taken s imm rs2 rs1 := by
  cases op <;> rfl

theorem BranchOp.exec_plain (op : BranchOp) (imm : Word) (rs2 rs1 : Reg) : Plain s (op.exec s imm rs2 rs1) := by
  rw [op.exec_eq]
  exact insiBranch_plain s op.taken imm rs2 rs1

theorem insiJJal_plain (imm : Word) (rd : Reg) : Plain s (insiJJal s imm rd) :=
  jump_plain rfl (.regs _ _ s.terminated)

theorem insiIJalr_plain (imm : Word) (rs1 rd : Reg) : Plain s (insiIJalr s imm rs1 rd) :=
  jump_plain rfl (.regs _ _ s.terminated)

theorem insiIEcall_plain : Plain s (insiIEcall s) := by
  unfold insiIEcall
  by_cases h : s.gpr 17 = 93
  · rw [if_pos h]; exact .regs s.gpr s.pc true
  · rw [if_neg h]; exact .trap _ _

theorem insSfenceVma_plain : Plain s (insSfenceVma s) := by
  unfold insSfenceVma
  split_ifs
  · exact .trap _ _
  · exact .refl s

theorem setReserveStatus_kept (addr : Word) : Kept s (setReserveStatus s addr) := ⟨rfl, rfl, rfl, rfl⟩

theorem clearReserveStatus_kept (addr : Word) : Kept s (clearReserveStatus s addr) := by
  simp only [clearReserveStatus]
  split
  · exact Kept.refl s
  · split_ifs <;> exact ⟨rfl, rfl, rfl, rfl⟩

end

section
variable {s s' : Machine} {rs1 rs2 rd : Reg}

theorem insaRLrW_outcome (h : insaRLrW s rs1 rd = .ok s') : Outcome s s' := by
  simp only [insaRLrW] at h
  split_ifs at h
  obtain rfl := Except.ok.inj h
  have hr := mmuRead_kept memRead32Unsigned s (regRead s rs1)
  have hw := regWrite_kept (mmuRead32Unsigned s (regRead s rs1)).2 rd (mmuRead32Unsigned s (regRead s rs1)).1
  exact (mmuTranslate_outcome s _ _).trans_kept ((hr.trans hw).trans (setReserveStatus_kept _ _))

theorem insaRScW_outcome (h : insaRScW s rs1 rs2 rd = .ok s') : Outcome s s' := by
  simp only [insaRScW] at h
  split_ifs at h
  · obtain rfl := Except.ok.inj h
    have hk := (mmuWrite_kept memWrite32_memStep s (regRead s rs1) (regRead s rs2)).trans (regWrite_kept _ rd 0)
    exact (mmuTranslate_outcome s _ _).trans_kept (hk.trans (clearReserveStatus_kept _ _))
  · obtain rfl := Except.ok.inj h
    exact .quiet ⟨rfl, rfl, rfl⟩

theorem AmoOp.exec_routine (o : AmoOp) :
    ∃ msg op, ∀ (s : Machine) (rs1 rs2 rd : Reg), o.exec s rs1 rs2 rd = insaRAmo msg op s rs1 rs2 rd := by
  cases o <;> exact ⟨_, _, fun _ _ _ _ => by rw [AmoOp.exec]; rfl⟩

theorem AmoOp.exec_amo (o : AmoOp) (s : Machine) (rs1 rs2 rd : Reg) :
    ∃ msg op, o.exec s rs1 rs2 rd = insaRAmo msg op s rs1 rs2 rd := by
  obtain ⟨msg, op, h⟩ := o.exec_routine
  exact ⟨msg, op, h s rs1 rs2 rd⟩

/-- an AMO that runs: the address is aligned, and it reads the word, writes it and sets rd -/
theorem AmoOp.exec_cases {o : AmoOp} (h : o.exec s rs1 rs2 rd = .ok s') :
    let addr := regRead s rs1
    let old := mmuRead32Unsigned s addr
    addr &&& 3 = 0 ∧ ∃ value, s' = regWrite (mmuWrite32 old.2 addr value) rd old.1 := by
  obtain ⟨msg, op, hm⟩ := o.exec_amo s rs1 rs2 rd
  rw [hm] at h
  simp only [insaRAmo] at h
  split_ifs at h with ha
  exact ⟨not_not.1 ha, _, (Except.ok.inj h).symm⟩

theorem AmoOp.exec_outcome {o : AmoOp} (h : o.exec s rs1 rs2 rd = .ok s') :
    let addr := regRead s rs1
    addr &&& 3 = 0 ∧ (¬ bothFault s addr .load addr .store → Outcome s s') ∧
      (bothFault s addr .load addr .store → ∃ t t', s'.traps = t :: t' :: s.traps) := by
  obtain ⟨ha, value, rfl⟩ := AmoOp.exec_cases h
  refine ⟨ha, ?_⟩
  refine twoAccesses (mmuRead_kept memRead32Unsigned s _) mmuRead_fault ?_
  exact (mmuWrite_kept memWrite32_memStep _ _ _).trans (regWrite_kept _ _ _)

end

/-! ## FP loads and stores -/

section
variable (s : Machine) (imm : Word) (rs1 rd : Reg)

theorem fpu_kept (f : Fpu) : Kept s { s with fpu := f } := ⟨rfl, rfl, rfl, rfl⟩

/-- the addresses of the two halves of an access -/
def secondHalf (addr : Word) : Word := addr + 8

theorem insfFlq_outcome :
    let addr := regRead s rs1 + imm
    (¬ bothFault s addr .load (secondHalf addr) .load → Outcome s (insfFlq s imm rs1 rd)) ∧
      (bothFault s addr .load (secondHalf addr) .load → ∃ t t', (insfFlq s imm rs1 rd).traps = t :: t' :: s.traps) :=
  twoAccesses (mmuRead_kept memRead64Unsigned s _) mmuRead_fault
    ((mmuRead_kept memRead64Unsigned _ _).trans (fpu_kept _ _))

theorem insfFsq_outcome (rs2 : Reg) :
    let addr := regRead s rs1 + imm
    (¬ bothFault s addr .store (secondHalf addr) .store → Outcome s (insfFsq s imm rs1 rs2)) ∧
      (bothFault s addr .store (secondHalf addr) .store →
        ∃ t t', (insfFsq s imm rs1 rs2).traps = t :: t' :: s.traps) :=
  twoAccesses (mmuWrite_kept memWrite64_memStep s _ _) mmuWrite_fault (mmuWrite_kept memWrite64_memStep _ _ _)

theorem FLoadOp.exec_outcome (op : FLoadOp) (h : op ≠ .flq) : Outcome s (op.exec s imm rs1 rd) := by
  cases op with
  | flh => exact ((mmuTranslate_outcome s _ _).trans_kept (mmuRead_kept memRead16Unsigned s _)).trans_kept (fpu_kept _ _)
  | flw => exact ((mmuTranslate_outcome s _ _).trans_kept (mmuRead_kept memRead32Unsigned s _)).trans_kept (fpu_kept _ _)
  | fld => exact ((mmuTranslate_outcome s _ _).trans_kept (mmuRead_kept memRead64Unsigned s _)).trans_kept (fpu_kept _ _)
  | flq => exact absurd rfl h

theorem FStoreOp.exec_outcome (op : FStoreOp) (rs2 : Reg) (h : op ≠ .fsq) : Outcome s (op.exec s imm rs1 rs2) := by
  cases op with
  | fsh => exact (mmuTranslate_outcome s _ _).trans_kept (mmuWrite_kept memWrite16_memStep s _ _)
  | fsw => exact (mmuTranslate_outcome s _ _).trans_kept (mmuWrite_kept memWrite32_memStep s _ _)
  | fsd => exact (mmuTranslate_outcome s _ _).trans_kept (mmuWrite_kept memWrite64_memStep s _ _)
  | fsq => exact absurd rfl h

end

/-! ## Every instruction -/

/-- the instruction makes two accesses, and both fault -/
def Insn.doubleFault (s : Machine) : Insn → Prop
  | .atomic (.amo _) rs1 _ _ => regRead s rs1 &&& 3 = 0 ∧ bothFault s (regRead s rs1) .load (regRead s rs1) .store
  | .fp (.load .flq imm rs1 _) =>
    fpuFsOff s = false ∧ bothFault s (regRead s rs1 + imm) .load (secondHalf (regRead s rs1 + imm)) .load
  | .fp (.store .fsq imm rs1 _) =>
    fpuFsOff s = false ∧ bothFault s (regRead s rs1 + imm) .store (secondHalf (regRead s rs1 + imm)) .store
  | _ => False

/-- MRET, MNRET and SRET -/
def Insn.isReturn : Insn → Bool
  | .sret | .mret | .mnret => true
  | _ => false

def Insn.isZicsr : Insn → Bool
  | .zicsr .. => true
  | _ => false

section
variable [SoftFloat] {s s' : Machine} {ins : Word}

theorem fp_outcome {i : FpInsn} (hfs : fpuFsOff s = false) (h : i.run s ins = .ok s') :
    (¬ (Insn.fp i).doubleFault s → Outcome s s') ∧
      ((Insn.fp i).doubleFault s → ∃ t t', s'.traps = t :: t' :: s.traps) := by
  cases i with
  | load op imm rs1 rd =>
    obtain rfl := Except.ok.inj h
    by_cases hq : op = .flq
    · subst hq
      have ho := insfFlq_outcome s imm rs1 rd
      exact ⟨fun hd => ho.1 fun hb => hd ⟨hfs, hb⟩, fun hd => ho.2 hd.2⟩
    · refine ⟨fun _ => op.exec_outcome s imm rs1 rd hq, ?_⟩
      intro hd
      cases op <;> first | exact absurd rfl hq | exact hd.elim
  | store op imm rs1 rs2 =>
    obtain rfl := Except.ok.inj h
    by_cases hq : op = .fsq
    · subst hq
      have ho := insfFsq_outcome s imm rs1 rs2
      exact ⟨fun hd => ho.1 fun hb => hd ⟨hfs, hb⟩, fun hd => ho.2 hd.2⟩
    · refine ⟨fun _ => op.exec_outcome s imm rs1 rs2 hq, ?_⟩
      intro hd
      cases op <;> first | exact absurd rfl hq | exact hd.elim
  | fma subop =>
    obtain rfl := Except.ok.inj h
    exact ⟨fun _ => (insfRFma_frame s ins subop).kept.outcome, fun hd => hd.elim⟩
  | fpop => exact ⟨fun _ => (insfRFpop_frame h).kept.outcome, fun hd => hd.elim⟩
  | fatal f => cases h

/-- the instructions that access neither memory nor a CSR, and do not return -/
def Insn.isPlain : Insn → Bool
  | .load .. | .store .. | .fp _ | .atomic .. | .sret | .mret | .mnret | .zicsr .. | .fatal _ => false
  | _ => true

theorem Insn.run_plain {i : Insn} (hi : i.isPlain = true) (h : i.run s ins = .ok s') : Plain s s' := by
  cases i with
  | alu op rs2 rs1 rd => obtain rfl := Except.ok.inj h; exact op.exec_plain s rs2 rs1 rd
  | aluImm op imm rs1 rd => obtain rfl := Except.ok.inj h; exact op.exec_plain s imm rs1 rd
  | branch op imm rs2 rs1 => obtain rfl := Except.ok.inj h; exact op.exec_plain s imm rs2 rs1
  | jal imm rd => obtain rfl := Except.ok.inj h; exact insiJJal_plain s imm rd
  | jalr imm rs1 rd => obtain rfl := Except.ok.inj h; exact insiIJalr_plain s imm rs1 rd
  | lui imm rd => obtain rfl := Except.ok.inj h; exact regWrite_plain s rd imm
  | auipc imm rd => obtain rfl := Except.ok.inj h; exact regWrite_plain s rd (s.pc + imm)
  | ecall => obtain rfl := Except.ok.inj h; exact insiIEcall_plain s
  | sfenceVma => obtain rfl := Except.ok.inj h; exact insSfenceVma_plain s
  | ebreak => obtain rfl := Except.ok.inj h; exact .trap _ _
  | illegal => obtain rfl := Except.ok.inj h; exact .trap _ _
  | sctrclr => obtain rfl := Except.ok.inj h; exact .refl s
  | wfi => obtain rfl := Except.ok.inj h; exact .refl s
  | fence => obtain rfl := Except.ok.inj h; exact .refl s
  | fenceI => obtain rfl := Except.ok.inj h; exact .refl s
  | _ => exact absurd hi Bool.false_ne_true

/-- **Every instruction but the CSR instructions and the returns** traps at most once and changes no trap state after it,
or makes two accesses that both fault and traps twice. -/
theorem Insn.run_outcome {i : Insn} (hc : i.isZicsr = false) (hr : i.isReturn = false) (h : i.run s ins = .ok s') :
    (¬ i.doubleFault s → Outcome s s') ∧ (i.doubleFault s → ∃ t t', s'.traps = t :: t' :: s.traps) := by
  have single : Outcome s s' → ¬ i.doubleFault s →
      (¬ i.doubleFault s → Outcome s s') ∧ (i.doubleFault s → ∃ t t', s'.traps = t :: t' :: s.traps) :=
    fun ho hn => ⟨fun _ => ho, fun hd => absurd hd hn⟩
  cases i with
  | zicsr => cases hc
  | sret => cases hr
  | mret => cases hr
  | mnret => cases hr
  | fatal f => cases h
  | fp i =>
    simp only [Insn.run] at h
    cases hfs : fpuFsOff s with
    | true =>
      rw [hfs, if_pos rfl] at h
      obtain rfl := Except.ok.inj h
      refine single (.raise _ _ _) ?_
      intro hd
      unfold Insn.doubleFault at hd
      split at hd <;> simp_all
    | false =>
      rw [hfs, if_neg Bool.false_ne_true] at h
      exact fp_outcome hfs h
  | atomic a rs1 rs2 rd =>
    cases a with
    | amo o =>
      obtain ⟨ha, ho, ho'⟩ := AmoOp.exec_outcome h
      exact ⟨fun hd => ho fun hb => hd ⟨ha, hb⟩, fun hd => ho' hd.2⟩
    | lr => exact single (insaRLrW_outcome h) id
    | sc => exact single (insaRScW_outcome h) id
  | load op imm rs1 rd => obtain rfl := Except.ok.inj h; exact single (op.exec_outcome s imm rs1 rd) id
  | store op imm rs2 rs1 => obtain rfl := Except.ok.inj h; exact single (op.exec_outcome s imm rs2 rs1) id
  | _ => exact single (Insn.run_plain rfl h).outcome id

end

/-! ## The compressed instructions -/

/-- a routine with one outcome traps on its own pc: it trapped, and left pc as it found it -/
def trapsInPlace (s : Machine) (f : Machine → Machine) : Prop := (f s).traps ≠ s.traps ∧ (f s).pc = s.pc

/-- the access of a compressed load or store -/
def compressedAccess (c : BitVec 16) : Option (Machine → Machine) :=
  let rs1p := cRs1p c
  let rs2p := cRs2p c
  match c.extractLsb' 0 2, c.extractLsb' 13 3 with
  | 0#2, 1#3 => some fun s => insfFld s (cLsUimm c) rs1p rs2p
  | 0#2, 2#3 => some fun s => insiILw s (cLsUimm c) rs1p rs2p
  | 0#2, 3#3 => some fun s => insfFlw s (cLsUimm c) rs1p rs2p
  | 0#2, 5#3 => some fun s => insfFsd s (cLsUimm c) rs1p rs2p
  | 0#2, 6#3 => some fun s => insiSSw s (cLsUimm c) rs2p rs1p
  | 0#2, 7#3 => some fun s => insfFsw s (cLsUimm c) rs1p rs2p
  | 2#2, 2#3 => if cRd c = 0 then none else some fun s => insiILw s (cLwspUimm c) 2 (cRd c)
  | 2#2, 6#3 => some fun s => insiSSw s (cSwspUimm c) (cRs2 c) 2
  | _, _ => none

section
variable {s s' : Machine} {c : BitVec 16}

theorem execCInsn_access {f : Machine → Machine} (h : compressedAccess c = some f) : execCInsn s c = cAccess s f := by
  unfold compressedAccess at h
  simp only at h
  split at h
  case h_7 hq h3 =>
    split_ifs at h with hrd
    obtain rfl := Option.some.inj h
    simp only [execCInsn, hq, execQuadrant2, h3, hrd]
    rfl
  case h_8 hq h3 =>
    obtain rfl := Option.some.inj h
    simp only [execCInsn, hq, execQuadrant2, h3]
    rfl
  case h_9 => cases h
  all_goals
    rename_i hq h3
    obtain rfl := Option.some.inj h
    simp only [execCInsn, hq, execQuadrant0, h3]
    rfl

theorem cNext_plain {gpr : Reg → Word} (s : Machine) : Plain s (cNext { s with gpr := gpr }).1 :=
  .regs gpr _ s.terminated

theorem cIllegal_plain (s : Machine) (c : BitVec 16) : Plain s (cIllegal s c).1 := .trap _ _

theorem execQuadrant1_plain (s : Machine) (c : BitVec 16) : Plain s (execQuadrant1 s c).1 := by
  unfold execQuadrant1
  simp only
  split
  · exact cNext_plain s
  · exact .regs _ _ s.terminated
  · exact cNext_plain s
  · split_ifs
    · exact cNext_plain s
    · exact cNext_plain s
    · exact cIllegal_plain s c
  · split_ifs <;> first | exact cNext_plain s | exact cIllegal_plain s c
  · exact .regs _ _ s.terminated
  · split_ifs
    · exact .regs _ _ s.terminated
    · exact cNext_plain s

/-- c.jr, c.mv, c.ebreak, c.jalr and c.add -/
theorem execQuadrant2_jump_plain (s : Machine) (c : BitVec 16) (h3 : c.extractLsb' 13 3 = 4#3) :
    Plain s (execQuadrant2 s c).1 := by
  simp only [execQuadrant2, h3]
  split_ifs
  · exact cNext_plain s
  · cases hr : raiseIfMisalignedFetch s (regRead s (cRd c)) with
    | some t => rw [raiseIfMisalignedFetch_some hr]; exact .trap _ _
    | none => exact .regs _ _ s.terminated
  · exact cNext_plain s
  · exact .trap _ _
  · cases hr : raiseIfMisalignedFetch s (regRead s (cRd c)) with
    | some t => rw [raiseIfMisalignedFetch_some hr]; exact .trap _ _
    | none => exact .regs _ _ s.terminated
  · exact cNext_plain s

theorem execQuadrant0_plain (s : Machine) (c : BitVec 16) (hq : c.extractLsb' 0 2 = 0#2)
    (h : compressedAccess c = none) : Plain s (execQuadrant0 s c).1 := by
  unfold execQuadrant0
  simp only
  split
  · split_ifs
    · exact cIllegal_plain s c
    · exact cNext_plain s
  case h_8 => exact cIllegal_plain s c
  all_goals
    rename_i h3
    simp [compressedAccess, hq, h3] at h

theorem execQuadrant2_plain (s : Machine) (c : BitVec 16) (hq : c.extractLsb' 0 2 = 2#2)
    (h : compressedAccess c = none) : Plain s (execQuadrant2 s c).1 := by
  by_cases h4 : c.extractLsb' 13 3 = 4#3
  · exact execQuadrant2_jump_plain s c h4
  unfold execQuadrant2
  simp only
  split
  · split_ifs
    · exact cIllegal_plain s c
    · exact cNext_plain s
  · rename_i h3
    split_ifs with hrd
    · exact cIllegal_plain s c
    · exact absurd (by simpa [compressedAccess, hq, h3] using h) hrd
  · rename_i h3
    exact absurd h3 h4
  · rename_i h3
    simp [compressedAccess, hq, h3] at h
  · exact cIllegal_plain s c

/-- **The compressed instructions without an access.** -/
theorem execCInsn_plain (h3 : c.extractLsb' 0 2 ≠ 3#2) (h : compressedAccess c = none) :
    Plain s (execCInsn s c).1 := by
  unfold execCInsn
  simp only
  split_ifs with h0 h1
  · exact execQuadrant0_plain s c h0 h
  · exact execQuadrant1_plain s c
  · have hq : ∀ q : BitVec 2, q ≠ 3#2 → q ≠ 0 → q ≠ 1 → q = 2#2 := by decide
    exact execQuadrant2_plain s c (hq _ h3 h0 h1) h

theorem execCInsn_outcome (h3 : c.extractLsb' 0 2 ≠ 3#2) (h : compressedAccess c = none) :
    Outcome s (execCInsn s c).1 := (execCInsn_plain h3 h).outcome

theorem compressedAccess_outcome {f : Machine → Machine} (h : compressedAccess c = some f) (s : Machine) :
    Outcome s (f s) := by
  unfold compressedAccess at h
  simp only at h
  split at h
  case h_1 => cases h; exact FLoadOp.exec_outcome s _ _ _ .fld nofun
  case h_2 => cases h; exact LoadOp.exec_outcome s .lw _ _ _
  case h_3 => cases h; exact FLoadOp.exec_outcome s _ _ _ .flw nofun
  case h_4 => cases h; exact FStoreOp.exec_outcome s _ _ .fsd _ nofun
  case h_5 => cases h; exact StoreOp.exec_outcome s .sw _ _ _
  case h_6 => cases h; exact FStoreOp.exec_outcome s _ _ .fsw _ nofun
  case h_7 =>
    split_ifs at h
    cases h
    exact LoadOp.exec_outcome s .lw _ _ _
  case h_8 => cases h; exact StoreOp.exec_outcome s .sw _ _ _
  case h_9 => cases h

/-- a compressed access adds one outcome, unless it trapped without moving pc -/
theorem cAccess_outcome {f : Machine → Machine} (h : Outcome s (f s)) (hp : ¬ trapsInPlace s f) :
    Outcome s (cAccess s f).1 := by
  simp only [cAccess]
  cases h with
  | quiet hq => split_ifs <;> exact .quiet ⟨hq.traps, hq.privilege, hq.csr⟩
  | trap cause tval hk =>
    have ht : (f s).traps ≠ s.traps := by rw [hk.traps]; simp
    rw [if_neg fun hpc => hp ⟨ht, hpc⟩]
    exact .trap cause tval hk

/-- there, pc is left 2 below the trap vector -/
theorem cAccess_inPlace {f : Machine → Machine} (hp : trapsInPlace s f) :
    (cAccess s f).1 = { f s with pc := s.pc - 2 } := by
  simp only [cAccess, hp.2, if_true]

/-- the compressed word is the low half of the word fetched -/
theorem compressed_low (ins : Word) : (ins.setWidth 16).extractLsb' 0 2 = ins.extractLsb' 0 2 :=
  BitVec.extractLsb'_setWidth_of_le (by decide)

theorem compressed_quadrant {ins : Word} (h : ins.extractLsb' 0 2 ≠ 3) : (ins.setWidth 16).extractLsb' 0 2 ≠ 3#2 := by
  rw [compressed_low]
  exact h

/-- a compressed instruction without a trap -/
theorem execCInsn_quiet {c : BitVec 16} (h3 : c.extractLsb' 0 2 ≠ 3#2) (ht : (execCInsn s c).1.traps = s.traps) :
    Quiet s (execCInsn s c).1 := by
  cases ha : compressedAccess c with
  | none => exact (execCInsn_outcome h3 ha).quiet_of_traps ht
  | some f =>
    have ho := compressedAccess_outcome ha s
    rw [execCInsn_access ha] at ht ⊢
    by_cases hp : trapsInPlace s f
    · rw [cAccess_inPlace hp] at ht
      exact absurd ht hp.1
    · exact (cAccess_outcome ho hp).quiet_of_traps ht

theorem execCInsn_traps_le {c : BitVec 16} (h3 : c.extractLsb' 0 2 ≠ 3#2) :
    s.traps.length ≤ (execCInsn s c).1.traps.length := by
  cases ha : compressedAccess c with
  | none => exact (execCInsn_outcome h3 ha).le_length
  | some f =>
    have ho := compressedAccess_outcome ha s
    rw [execCInsn_access ha]
    by_cases hp : trapsInPlace s f
    · rw [cAccess_inPlace hp]
      exact ho.le_length
    · exact (cAccess_outcome ho hp).le_length

end

/-! ## The CSR instructions -/

/-- s' has the privilege, pc and record of traps of s -/
structure SameMode (s s' : Machine) : Prop where
  traps : s'.traps = s.traps
  privilege : s'.privilege = s.privilege
  pc : s'.pc = s.pc

theorem csrWrite_sameMode (s : Machine) (csr : Csr) (val : Word) : SameMode s (csrWrite s csr val) := by
  unfold csrWrite
  split_ifs
  · cases (csrTable csr).writeCallback with
    | none => exact ⟨rfl, rfl, rfl⟩
    | some f =>
      cases f with
      | setFcsr => simp only [WriteCallback.run, setFcsr]; split_ifs <;> exact ⟨rfl, rfl, rfl⟩
      | setFrm => simp only [WriteCallback.run, setFrm]; split_ifs <;> exact ⟨rfl, rfl, rfl⟩
      | _ => exact ⟨rfl, rfl, rfl⟩
  · exact ⟨rfl, rfl, rfl⟩

section
variable (op : CsrOp) (s : Machine) (rs1 rd : Reg) (csr : Csr) (ins : Word)

/-- the state after the write of a CSR instruction, if it makes one -/
def csrAfterWrite (t : Machine) : Machine :=
  match op.newVal rs1 t (csrRead t csr) with
  | some val => csrWrite t csr val
  | none => t

theorem csrAfterWrite_sameMode (t : Machine) : SameMode t (csrAfterWrite op rs1 csr t) := by
  unfold csrAfterWrite
  cases op.newVal rs1 t (csrRead t csr) with
  | none => exact ⟨rfl, rfl, rfl⟩
  | some val => exact csrWrite_sameMode t csr val

/-- a CSR instruction is its check, its write and the write of rd -/
theorem CsrOp.exec_kept :
    Kept (csrAfterWrite op rs1 csr (checkCsrAccess s csr ins)) (op.exec s rs1 rd csr ins) := by
  rw [op.exec_eq]
  simp only [insZicsr, csrAfterWrite]
  cases op.newVal rs1 (checkCsrAccess s csr ins) (csrRead (checkCsrAccess s csr ins) csr) <;> simp only <;> split_ifs <;>
    first | exact Kept.refl _ | exact regWrite_kept _ _ _

/-- **A legal access enters no trap and keeps the privilege.** -/
theorem CsrOp.exec_legal (h : csrAccessIllegal s csr = false) : SameMode s (op.exec s rs1 rd csr ins) := by
  have hk := op.exec_kept s rs1 rd csr ins
  have hm := csrAfterWrite_sameMode op rs1 csr (checkCsrAccess s csr ins)
  rw [checkCsrAccess, h, if_neg Bool.false_ne_true] at hk hm
  exact ⟨hk.traps.trans hm.traps, hk.privilege.trans hm.privilege, hk.pc.trans hm.pc⟩

/-- a legal access that makes no write -/
theorem CsrOp.exec_quiet (h : csrAccessIllegal s csr = false) (hn : op.newVal rs1 s (csrRead s csr) = none) :
    Quiet s (op.exec s rs1 rd csr ins) := by
  have hk := op.exec_kept s rs1 rd csr ins
  rw [checkCsrAccess, h, if_neg Bool.false_ne_true, csrAfterWrite, hn] at hk
  exact hk.quiet

/-- an illegal access enters the trap before anything else -/
theorem CsrOp.exec_illegal (h : csrAccessIllegal s csr = true) :
    Kept (csrAfterWrite op rs1 csr (raiseExceptionPc s causeIllegalInstruction ins s.pc)) (op.exec s rs1 rd csr ins) ∧
      (op.exec s rs1 rd csr ins).traps =
        ⟨causeIllegalInstruction, ins, s.pc, s.privilege, exceptionMode s causeIllegalInstruction⟩ :: s.traps := by
  have hk := op.exec_kept s rs1 rd csr ins
  rw [checkCsrAccess, h, if_pos rfl, raiseException_eq_pc] at hk
  refine ⟨hk, ?_⟩
  rw [hk.traps, (csrAfterWrite_sameMode op rs1 csr _).traps, raiseExceptionPc_traps]

end

/-- the instruction makes a write to its CSR -/
def Insn.writesCsr : Insn → Bool
  | .zicsr .rw _ _ _ | .zicsr .rwi _ _ _ => true
  | .zicsr _ rs1 _ _ => rs1 ≠ 0
  | _ => false

theorem CsrOp.newVal_none {op : CsrOp} {rs1 rd : Reg} {csr : Csr} (h : (Insn.zicsr op rs1 rd csr).writesCsr = false)
    (s : Machine) (old : Word) : op.newVal rs1 s old = none := by
  cases op <;> simp_all [Insn.writesCsr, CsrOp.newVal]

end RiscvEmu
