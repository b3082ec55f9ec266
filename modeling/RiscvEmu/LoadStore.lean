/-
The integer loads and stores, case by case: a breakpoint trigger, a misaligned address, a page fault, or the access.

- `insiILoad_cases`, `insiSStore_cases`: the four states an access can leave.
-/
import RiscvEmu.Frame
import RiscvEmu.Insn

namespace RiscvEmu

/-- the bits of an address that must be clear -/
def LoadOp.mask : LoadOp → Word
  | .lb | .lbu => 0
  | .lh | .lhu => 1
  | .lw => 3

/-- the physical read of the load -/
def LoadOp.read : LoadOp → Machine → Word → Word × Devices
  | .lb => memRead8Signed
  | .lh => memRead16Signed
  | .lw => memRead32Signed
  | .lbu => memRead8Unsigned
  | .lhu => memRead16Unsigned

theorem LoadOp.exec_eq (op : LoadOp) (s : Machine) (imm : Word) (rs1 rd : Reg) :
    LoadOp.exec s imm rs1 rd op = insiILoad op.mask (mmuRead op.read) s imm rs1 rd := by
  cases op <;> rfl

theorem sdtrigCheck_some {s t : Machine} {addr type : Word} (h : sdtrigCheck s addr type = some t) :
    t = raiseExceptionPc s causeBreakpoint addr s.pc := by
  unfold sdtrigCheck at h
  split_ifs at h
  exact (Option.some.inj h).symm

/-- the state a load leaves, case by case -/
theorem insiILoad_cases (mask : Word) (read : Machine → Word → Word × Devices) (s : Machine) (imm : Word)
    (rs1 rd : Reg) :
    let addr := regRead s rs1 + imm
    let s' := insiILoad mask (mmuRead read) s imm rs1 rd
    (sdtrigCheckLoadTrigger s addr ≠ none ∧ s' = raiseExceptionPc s causeBreakpoint addr s.pc) ∨
    (sdtrigCheckLoadTrigger s addr = none ∧ addr &&& mask ≠ 0 ∧
      s' = raiseExceptionPc s causeMisalignedLoad addr s.pc) ∨
    (sdtrigCheckLoadTrigger s addr = none ∧ addr &&& mask = 0 ∧ ∃ d, mmuWalk s addr .load = (none, d) ∧
      s' = regWrite (raiseExceptionPc { s with dev := d } causeLoadPageFault addr s.pc) rd 0) ∨
    (sdtrigCheckLoadTrigger s addr = none ∧ addr &&& mask = 0 ∧ ∃ pa d, mmuWalk s addr .load = (some pa, d) ∧
      s' = regWrite { s with dev := (read { s with dev := d } pa).2 } rd (read { s with dev := d } pa).1) := by
  intro addr s'
  have haddr : regRead s rs1 + imm = addr := rfl
  have hs' : s' = insiILoad mask (mmuRead read) s imm rs1 rd := rfl
  unfold insiILoad at hs'
  cases ht : sdtrigCheckLoadTrigger s addr with
  | some t =>
    refine Or.inl ⟨nofun, ?_⟩
    simp only [haddr, ht] at hs'
    rw [hs', sdtrigCheck_some ht]
  | none =>
    simp only [haddr, ht] at hs'
    refine Or.inr ?_
    by_cases ha : addr &&& mask = 0
    · refine Or.inr ?_
      simp only [ha, ne_eq, not_true_eq_false, if_false] at hs'
      rcases hw : mmuWalk s addr .load with ⟨_ | pa, d⟩
      · rw [mmuRead_none hw] at hs'
        exact Or.inl ⟨rfl, ha, d, rfl, hs'⟩
      · rw [mmuRead_some hw] at hs'
        exact Or.inr ⟨rfl, ha, pa, d, rfl, hs'⟩
    · refine Or.inl ⟨rfl, ha, ?_⟩
      rw [hs', if_pos ha, raiseException_eq_pc]

/-- the state a store leaves, case by case -/
theorem insiSStore_cases {α : Type} (mask : Word) (write : Machine → Word → α → Machine) (trunc : Word → α)
    (s : Machine) (imm : Word) (rs2 rs1 : Reg) :
    let addr := regRead s rs1 + imm
    let s' := insiSStore mask (fun s a v => mmuWrite write s a (trunc v)) s imm rs2 rs1
    (sdtrigCheckStoreTrigger s addr ≠ none ∧ s' = raiseExceptionPc s causeBreakpoint addr s.pc) ∨
    (sdtrigCheckStoreTrigger s addr = none ∧ addr &&& mask ≠ 0 ∧
      s' = raiseExceptionPc s causeMisalignedStore addr s.pc) ∨
    (sdtrigCheckStoreTrigger s addr = none ∧ addr &&& mask = 0 ∧ ∃ d, mmuWalk s addr .store = (none, d) ∧
      s' = raiseExceptionPc { s with dev := d } causeStorePageFault addr s.pc) ∨
    (sdtrigCheckStoreTrigger s addr = none ∧ addr &&& mask = 0 ∧ ∃ pa d, mmuWalk s addr .store = (some pa, d) ∧
      s' = write { s with dev := d } pa (trunc (regRead s rs2))) := by
  intro addr s'
  have haddr : regRead s rs1 + imm = addr := rfl
  have hs' : s' = insiSStore mask (fun s a v => mmuWrite write s a (trunc v)) s imm rs2 rs1 := rfl
  unfold insiSStore at hs'
  cases ht : sdtrigCheckStoreTrigger s addr with
  | some t =>
    refine Or.inl ⟨nofun, ?_⟩
    simp only [haddr, ht] at hs'
    rw [hs', sdtrigCheck_some ht]
  | none =>
    simp only [haddr, ht] at hs'
    refine Or.inr ?_
    by_cases ha : addr &&& mask = 0
    · refine Or.inr ?_
      simp only [ha, ne_eq, not_true_eq_false, if_false] at hs'
      rcases hw : mmuWalk s addr .store with ⟨_ | pa, d⟩
      · rw [mmuWrite_none hw] at hs'
        exact Or.inl ⟨rfl, ha, d, rfl, hs'⟩
      · rw [mmuWrite_some hw] at hs'
        exact Or.inr ⟨rfl, ha, pa, d, rfl, hs'⟩
    · refine Or.inl ⟨rfl, ha, ?_⟩
      rw [hs', if_pos ha, raiseException_eq_pc]

end RiscvEmu
