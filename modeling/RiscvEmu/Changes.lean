/-
The elementary changes an instruction is made of.

Every instruction writes registers, memory and devices, writes CSRs through csr_table, returns from a trap or enters one;
the only other thing an instruction does is to end the run, and ECALL alone does it. A law about a field of the state is
therefore settled by these changes. Results:
- `exec_changes`: an instruction is a sequence of changes, or the ECALL that ends the run;
- `fetchExec_changes`: the same for a fetch and what it executes;
- `Changes.invariant`: a law every change keeps holds after the sequence.
-/
import Mathlib.Logic.Relation
import RiscvEmu.Access
import RiscvEmu.Modes

namespace RiscvEmu

open Relation

/-- one change of the state -/
inductive Change (s : Machine) : Machine → Prop
  | regs {t : Machine} (h : RegStep s t) : Change s t
  | pc (pc : Word) : Change s { s with pc := pc }
  | mem {t : Machine} (h : MemStep s t) : Change s t
  /-- csr_write -/
  | csr (csr : Csr) (val : Word) : Change s (csrWrite s csr val)
  /-- what MRET does to mstatus, which it stores without csr_write -/
  | mstatus : Change s (setCsr s csrMstatus (mstatusOnReturn (s.csr csrMstatus)))
  /-- a return sets the privilege and pc -/
  | level (privilege : Priv) (pc : Word) : Change s { s with privilege := privilege, pc := pc }
  | trap (cause tval epc : Word) : Change s (raiseExceptionPc s cause tval epc)

def Changes : Machine → Machine → Prop := ReflTransGen Change

section
variable {s t u : Machine}

theorem Changes.refl (s : Machine) : Changes s s := ReflTransGen.refl

theorem Changes.trans (h : Changes s t) (h' : Changes t u) : Changes s u := ReflTransGen.trans h h'

theorem Change.changes (h : Change s t) : Changes s t := ReflTransGen.single h

theorem Changes.next (h : Changes s t) (h' : Change t u) : Changes s u := ReflTransGen.tail h h'

/-- a law every change keeps -/
theorem Changes.invariant {I : Machine → Prop} (hstep : ∀ s t, I s → Change s t → I t) (h : Changes s t) (hs : I s) :
    I t := by
  induction h with
  | refl => exact hs
  | tail _ hc ih => exact hstep _ _ ih hc

theorem Changes.gpr (s : Machine) (gpr : Reg → Word) : Changes s { s with gpr := gpr } :=
  (Change.regs ⟨gpr, s.fpu, rfl⟩).changes

theorem Changes.fpu (s : Machine) (fpu : Fpu) : Changes s { s with fpu := fpu } :=
  (Change.regs ⟨s.gpr, fpu, rfl⟩).changes

theorem Changes.dev (s : Machine) (d : Devices) : Changes s { s with dev := d } :=
  (Change.mem ⟨s.mainMemory, s.mmuFlags, d, rfl⟩).changes

theorem Changes.raise (s : Machine) (cause tval epc : Word) : Changes s (raiseExceptionPc s cause tval epc) :=
  (Change.trap cause tval epc).changes

/-- an instruction without an access, unless it ends the run -/
theorem Plain.changes (h : Plain s t) (hend : t.terminated = s.terminated) : Changes s t := by
  cases h with
  | regs gpr pc terminated =>
    obtain rfl : terminated = s.terminated := hend
    exact (Changes.gpr s gpr).next (.pc pc)
  | trap cause tval => exact .raise s cause tval s.pc

end

/-! ## Virtual accesses -/

section
variable {α : Type} (s : Machine) (vaddr : Word)

theorem mmuTranslate_changes (access : MmuAccess) : Changes s (mmuTranslate s vaddr access).2 := by
  rcases hw : mmuWalk s vaddr access with ⟨_ | pa, d⟩
  · rw [mmuTranslate_none hw]
    exact (Changes.dev s d).trans (.raise _ _ _ _)
  · rw [mmuTranslate_some hw]
    exact .dev s d

theorem mmuRead_changes [Zero α] (read : Machine → Word → α × Devices) : Changes s (mmuRead read s vaddr).2 := by
  have ht := mmuTranslate_changes s vaddr .load
  unfold mmuRead
  rcases hm : mmuTranslate s vaddr .load with ⟨_ | pa, t⟩
  · rwa [hm] at ht
  · rw [hm] at ht
    exact ht.trans (.dev t _)

theorem mmuWrite_changes {write : Machine → Word → α → Machine} (hw : ∀ s a v, MemStep s (write s a v)) (val : α) :
    Changes s (mmuWrite write s vaddr val) := by
  have ht := mmuTranslate_changes s vaddr .store
  unfold mmuWrite
  rcases hm : mmuTranslate s vaddr .store with ⟨_ | pa, t⟩
  · rwa [hm] at ht
  · rw [hm] at ht
    exact ht.next (.mem (hw t pa val))

theorem mmuFetchOk_changes : Changes s (mmuFetchOk s vaddr).2 := by
  have ht := mmuTranslate_changes s vaddr .fetch
  unfold mmuFetchOk
  rcases hm : mmuTranslate s vaddr .fetch with ⟨_ | pa, t⟩
  · rwa [hm] at ht
  · rw [hm] at ht
    exact ht.trans (.dev t _)

end

/-! ## Instructions with an access -/

section
variable (s : Machine) (imm : Word) (rs1 rs2 rd : Reg)

theorem LoadOp.exec_changes (op : LoadOp) : Changes s (op.exec s imm rs1 rd) := by
  rw [op.exec_eq]
  rcases insiILoad_cases op.mask op.read s imm rs1 rd with
    ⟨-, h⟩ | ⟨-, -, h⟩ | ⟨-, -, d, -, h⟩ | ⟨-, -, pa, d, -, h⟩
  · rw [h]; exact .raise s _ _ _
  · rw [h]; exact .raise s _ _ _
  · rw [h]; exact ((Changes.dev s d).trans (.raise _ _ _ _)).trans (.gpr _ _)
  · rw [h]; exact (Changes.dev s _).trans (.gpr _ _)

theorem insiSStore_changes {α : Type} (mask : Word) {write : Machine → Word → α → Machine} (trunc : Word → α)
    (hw : ∀ s a v, MemStep s (write s a v)) :
    Changes s (insiSStore mask (fun s a v => mmuWrite write s a (trunc v)) s imm rs2 rs1) := by
  rcases insiSStore_cases mask write trunc s imm rs2 rs1 with
    ⟨-, h⟩ | ⟨-, -, h⟩ | ⟨-, -, d, -, h⟩ | ⟨-, -, pa, d, -, h⟩
  · rw [h]; exact .raise s _ _ _
  · rw [h]; exact .raise s _ _ _
  · rw [h]; exact (Changes.dev s d).trans (.raise _ _ _ _)
  · rw [h]; exact (Changes.dev s d).next (.mem (hw _ _ _))

theorem StoreOp.exec_changes (op : StoreOp) : Changes s (op.exec s imm rs2 rs1) := by
  cases op with
  | sb => exact insiSStore_changes s imm rs1 rs2 0 (fun v => (v &&& 0xFF).setWidth 8) memWrite8_memStep
  | sh => exact insiSStore_changes s imm rs1 rs2 1 (fun v => (v &&& 0xFFFF).setWidth 16) memWrite16_memStep
  | sw => exact insiSStore_changes s imm rs1 rs2 3 id memWrite32_memStep

theorem FLoadOp.exec_changes (op : FLoadOp) : Changes s (op.exec s imm rs1 rd) := by
  cases op with
  | flh => exact (mmuRead_changes s _ memRead16Unsigned).trans (.fpu _ _)
  | flw => exact (mmuRead_changes s _ memRead32Unsigned).trans (.fpu _ _)
  | fld => exact (mmuRead_changes s _ memRead64Unsigned).trans (.fpu _ _)
  | flq =>
    have h1 := mmuRead_changes s (regRead s rs1 + imm) memRead64Unsigned
    exact (h1.trans (mmuRead_changes _ (regRead s rs1 + imm + 8) memRead64Unsigned)).trans (.fpu _ _)

theorem FStoreOp.exec_changes (op : FStoreOp) : Changes s (op.exec s imm rs1 rs2) := by
  cases op with
  | fsh => exact mmuWrite_changes s _ memWrite16_memStep _
  | fsw => exact mmuWrite_changes s _ memWrite32_memStep _
  | fsd => exact mmuWrite_changes s _ memWrite64_memStep _
  | fsq => exact (mmuWrite_changes s _ memWrite64_memStep _).trans (mmuWrite_changes _ _ memWrite64_memStep _)

theorem clearReserveStatus_memStep (addr : Word) : MemStep s (clearReserveStatus s addr) := by
  simp only [clearReserveStatus]
  split
  · exact ⟨_, _, _, rfl⟩
  · split_ifs <;> exact ⟨_, _, _, rfl⟩

variable {s rs1 rs2 rd} {s' : Machine}

theorem AInsn.exec_changes {a : AInsn} (h : a.exec s rs1 rs2 rd = .ok s') : Changes s s' := by
  cases a with
  | lr =>
    simp only [AInsn.exec, insaRLrW] at h
    split_ifs at h
    obtain rfl := Except.ok.inj h
    have hr := mmuRead_changes s (regRead s rs1) memRead32Unsigned
    exact (hr.next (.mem ⟨_, _, _, rfl⟩)).trans (.gpr _ _)
  | sc =>
    simp only [AInsn.exec, insaRScW] at h
    split_ifs at h
    · obtain rfl := Except.ok.inj h
      have hw := mmuWrite_changes s (regRead s rs1) memWrite32_memStep (regRead s rs2)
      exact (hw.trans (.gpr _ _)).next (.mem (clearReserveStatus_memStep _ _))
    · obtain rfl := Except.ok.inj h
      exact .gpr s _
  | amo o =>
    obtain ⟨-, value, rfl⟩ := AmoOp.exec_cases h
    have hr := mmuRead_changes s (regRead s rs1) memRead32Unsigned
    exact (hr.trans (mmuWrite_changes _ _ memWrite32_memStep value)).trans (.gpr _ _)

end

/-! ## CSR instructions and returns -/

section
variable (s : Machine) (rs1 rd : Reg)

theorem CsrOp.exec_changes (op : CsrOp) (csr : Csr) (ins : Word) : Changes s (op.exec s rs1 rd csr ins) := by
  have hcheck : Changes s (checkCsrAccess s csr ins) := by
    unfold checkCsrAccess
    split_ifs
    · exact .raise s _ _ _
    · exact .refl s
  rw [op.exec_eq]
  simp only [insZicsr]
  cases op.newVal rs1 (checkCsrAccess s csr ins) (csrRead (checkCsrAccess s csr ins) csr) with
  | none =>
    dsimp only
    split_ifs
    · exact hcheck.trans (.gpr _ _)
    · exact hcheck
  | some val =>
    have hwrite := hcheck.next (.csr csr val)
    dsimp only
    split_ifs
    · exact hwrite.trans (.gpr _ _)
    · exact hwrite

theorem insMret_changes : Changes s (insMret s) :=
  Change.mstatus.changes.next (.level _ _)

theorem insSret_changes : Changes s (insSret s) := by
  unfold insSret
  split_ifs
  · exact .raise s _ _ _
  · exact (Change.csr csrSstatus (sstatusOnReturn (csrRead s csrSstatus))).changes.next (.level _ _)

end

/-! ## The end of the run -/

section
variable {s s' : Machine}

theorem jump_terminated {target : Word} {f : Machine}
    (h : s' = match raiseIfMisalignedFetch s target with | some t => t | none => f)
    (hf : f.terminated = s.terminated) : s'.terminated = s.terminated :=
  jump_cases (P := fun t => t.terminated = s.terminated) h
    (raiseExceptionPc_terminated ..) hf

/-- the instructions without an access but ECALL do not end the run -/
theorem Insn.run_terminated [SoftFloat] {i : Insn} {ins : Word} (hi : i.isPlain = true) (he : i ≠ .ecall)
    (h : i.run s ins = .ok s') : s'.terminated = s.terminated := by
  cases i with
  | ecall => exact absurd rfl he
  | alu op rs2 rs1 rd => obtain rfl := Except.ok.inj h; cases op <;> rfl
  | aluImm op imm rs1 rd => obtain rfl := Except.ok.inj h; cases op <;> rfl
  | branch op imm rs2 rs1 =>
    obtain rfl := Except.ok.inj h
    rw [op.exec_eq, insiBranch]
    split_ifs
    · exact jump_terminated rfl rfl
    · rfl
  | jal imm rd => obtain rfl := Except.ok.inj h; exact jump_terminated rfl rfl
  | jalr imm rs1 rd => obtain rfl := Except.ok.inj h; exact jump_terminated rfl rfl
  | lui imm rd => obtain rfl := Except.ok.inj h; rfl
  | auipc imm rd => obtain rfl := Except.ok.inj h; rfl
  | sfenceVma =>
    obtain rfl := Except.ok.inj h
    unfold insSfenceVma
    split_ifs
    · exact raiseExceptionPc_terminated ..
    · rfl
  | ebreak => obtain rfl := Except.ok.inj h; exact raiseExceptionPc_terminated ..
  | illegal => obtain rfl := Except.ok.inj h; exact raiseExceptionPc_terminated ..
  | sctrclr => obtain rfl := Except.ok.inj h; rfl
  | wfi => obtain rfl := Except.ok.inj h; rfl
  | fence => obtain rfl := Except.ok.inj h; rfl
  | fenceI => obtain rfl := Except.ok.inj h; rfl
  | _ => exact absurd hi Bool.false_ne_true

variable {c : BitVec 16}

theorem cIllegal_terminated (s : Machine) (c : BitVec 16) : (cIllegal s c).1.terminated = s.terminated :=
  raiseExceptionPc_terminated ..

theorem execQuadrant0_terminated (hq : c.extractLsb' 0 2 = 0#2) (h : compressedAccess c = none) :
    (execQuadrant0 s c).1.terminated = s.terminated := by
  unfold execQuadrant0
  simp only
  split
  · split_ifs
    · exact cIllegal_terminated s c
    · rfl
  case h_8 => exact cIllegal_terminated s c
  all_goals
    rename_i h3
    simp [compressedAccess, hq, h3] at h

theorem execQuadrant1_terminated : (execQuadrant1 s c).1.terminated = s.terminated := by
  unfold execQuadrant1
  simp only
  split
  all_goals first | rfl | split_ifs
  all_goals first | rfl | exact cIllegal_terminated s c

theorem cJump_terminated {target : Word} {f : Machine} (hf : f.terminated = s.terminated) :
    (match raiseIfMisalignedFetch s target with | some t => (t, true) | none => (f, false)).1.terminated =
      s.terminated := by
  cases hr : raiseIfMisalignedFetch s target with
  | some t => rw [raiseIfMisalignedFetch_some hr]; exact raiseExceptionPc_terminated ..
  | none => exact hf

theorem execQuadrant2_terminated (hq : c.extractLsb' 0 2 = 2#2) (h : compressedAccess c = none) :
    (execQuadrant2 s c).1.terminated = s.terminated := by
  unfold execQuadrant2
  simp only
  split
  · split_ifs
    · exact cIllegal_terminated s c
    · rfl
  · rename_i h3
    split_ifs with hrd
    · exact cIllegal_terminated s c
    · exact absurd (by simpa [compressedAccess, hq, h3] using h) hrd
  · split_ifs
    · rfl
    · exact cJump_terminated rfl
    · rfl
    · exact raiseExceptionPc_terminated ..
    · exact cJump_terminated rfl
    · rfl
  · rename_i h3
    simp [compressedAccess, hq, h3] at h
  · exact cIllegal_terminated s c

theorem execCInsn_terminated (h3 : c.extractLsb' 0 2 ≠ 3#2) (h : compressedAccess c = none) :
    (execCInsn s c).1.terminated = s.terminated := by
  unfold execCInsn
  simp only
  split_ifs with h0 h1
  · exact execQuadrant0_terminated h0 h
  · exact execQuadrant1_terminated
  · have hq : ∀ q : BitVec 2, q ≠ 3#2 → q ≠ 0 → q ≠ 1 → q = 2#2 := by decide
    exact execQuadrant2_terminated (hq _ h3 h0 h1) h

theorem compressedAccess_changes {f : Machine → Machine} (h : compressedAccess c = some f) (s : Machine) :
    Changes s (f s) := by
  unfold compressedAccess at h
  simp only at h
  split at h
  case h_9 => cases h
  case h_7 =>
    split_ifs at h
    obtain rfl := Option.some.inj h
    exact LoadOp.exec_changes s _ _ _ .lw
  all_goals obtain rfl := Option.some.inj h
  · exact FLoadOp.exec_changes s _ _ _ .fld
  · exact LoadOp.exec_changes s _ _ _ .lw
  · exact FLoadOp.exec_changes s _ _ _ .flw
  · exact FStoreOp.exec_changes s _ _ _ .fsd
  · exact StoreOp.exec_changes s _ _ _ .sw
  · exact FStoreOp.exec_changes s _ _ _ .fsw
  · exact StoreOp.exec_changes s _ _ _ .sw

theorem execCInsn_changes (h3 : c.extractLsb' 0 2 ≠ 3#2) : Changes s (execCInsn s c).1 := by
  cases ha : compressedAccess c with
  | some f =>
    obtain ⟨pc, hpc⟩ := cAccess_pc s f
    rw [execCInsn_access ha, hpc]
    exact (compressedAccess_changes ha s).next (.pc pc)
  | none => exact (execCInsn_plain h3 ha).changes (execCInsn_terminated h3 ha)

end

/-! ## Every instruction -/

/-- the word is the ECALL of the riscv-tests harness -/
def exits (s : Machine) (ins : Word) : Prop := toSwitch s ins ∧ decode ins = .ecall ∧ s.gpr 17 = 93

instance (s : Machine) (ins : Word) : Decidable (exits s ins) := by unfold exits; infer_instance

section
variable [SoftFloat] {s s' : Machine} {ins : Word}

theorem Insn.run_changes {i : Insn} (hi : ¬ (i = .ecall ∧ s.gpr 17 = 93)) (h : i.run s ins = .ok s') :
    Changes s s' := by
  have hplain : i.isPlain = true → i ≠ .ecall → Changes s s' :=
    fun hp he => (Insn.run_plain hp h).changes (Insn.run_terminated hp he h)
  cases i with
  | ecall =>
    obtain rfl := Except.ok.inj h
    rw [insiIEcall, if_neg fun h93 => hi ⟨rfl, h93⟩]
    exact .raise s _ _ _
  | fatal f => cases h
  | fp i =>
    simp only [Insn.run] at h
    split_ifs at h
    · obtain rfl := Except.ok.inj h
      exact .raise s _ _ _
    · cases i with
      | load op imm rs1 rd => obtain rfl := Except.ok.inj h; exact op.exec_changes s imm rs1 rd
      | store op imm rs1 rs2 => obtain rfl := Except.ok.inj h; exact op.exec_changes s imm rs1 rs2
      | fma subop => obtain rfl := Except.ok.inj h; exact (Change.regs (insfRFma_frame s ins subop)).changes
      | fpop => exact (Change.regs (insfRFpop_frame h)).changes
      | fatal f => cases h
  | atomic a rs1 rs2 rd => exact AInsn.exec_changes h
  | load op imm rs1 rd => obtain rfl := Except.ok.inj h; exact op.exec_changes s imm rs1 rd
  | store op imm rs2 rs1 => obtain rfl := Except.ok.inj h; exact op.exec_changes s imm rs1 rs2
  | zicsr op rs1 rd csr => obtain rfl := Except.ok.inj h; exact op.exec_changes s rs1 rd csr ins
  | sret => obtain rfl := Except.ok.inj h; exact insSret_changes s
  | mret => obtain rfl := Except.ok.inj h; exact insMret_changes s
  | mnret => obtain rfl := Except.ok.inj h; exact insMret_changes s
  | _ =>
    refine hplain rfl ?_
    intro he
    cases he

/-- **An instruction** is a sequence of changes, or the ECALL that ends the run. -/
theorem exec_changes (h : exec s ins = .ok s') :
    Changes s s' ∧ ¬ exits s ins ∨ exits s ins ∧ s' = { s with terminated := true } := by
  by_cases hexit : exits s ins
  · obtain ⟨hsw, hd, h93⟩ := hexit
    rw [exec_decode hsw.1 hsw.2, hd] at h
    obtain rfl := Except.ok.inj h
    exact .inr ⟨⟨hsw, hd, h93⟩, if_pos h93⟩
  · refine .inl ⟨?_, hexit⟩
    obtain ⟨-, rfl⟩ | ⟨-, hc, rfl⟩ | ⟨hsw, hrun⟩ := exec_cases h
    · exact .raise s _ _ _
    · exact execCInsn_changes (compressed_quadrant hc.2)
    · exact Insn.run_changes (fun hi => hexit ⟨hsw, hi.1, hi.2⟩) hrun

/-- **A fetch and what it executes.** -/
theorem fetchExec_changes (h : fetchExec s = .ok s') :
    Changes s s' ∧ (∀ t ins, Fetches s t ins → ¬ exits t ins) ∨
      ∃ t ins, Fetches s t ins ∧ exits t ins ∧ Changes s t ∧ s' = { t with terminated := true } := by
  have hf := mmuFetchOk_changes s s.pc
  simp only [fetchExec] at h
  rcases hm : mmuFetchOk s s.pc with ⟨_ | ins, t⟩
  · rw [hm] at h hf
    obtain rfl := Except.ok.inj h
    refine .inl ⟨hf, ?_⟩
    intro u w hw
    cases hm.symm.trans hw.1
  · rw [hm] at h hf
    simp only [sdtrigCheckFetchTrigger, sdtrigCheck] at h
    cases hg : triggerFires t s.pc sdtrigExecute with
    | true =>
      rw [hg, if_pos rfl] at h
      obtain rfl := Except.ok.inj h
      refine .inl ⟨hf.trans (.raise t _ _ _), ?_⟩
      intro u w hw
      obtain ⟨-, rfl⟩ := Prod.mk.inj (hm.symm.trans hw.1)
      exact absurd (hg.symm.trans hw.2) (by decide)
    | false =>
      rw [hg, if_neg Bool.false_ne_true] at h
      rcases exec_changes h with ⟨hc, hne⟩ | ⟨he, rfl⟩
      · refine .inl ⟨hf.trans hc, ?_⟩
        intro u w hw
        obtain ⟨hw1, rfl⟩ := Prod.mk.inj (hm.symm.trans hw.1)
        obtain rfl := Option.some.inj hw1
        exact hne
      · exact .inr ⟨t, ins, ⟨hm, hg⟩, he, hf, rfl⟩

end

end RiscvEmu
