/-
Precision of the integer loads and stores.

mmu_translate raises a page fault and the read answers 0; the load does not ask whether it trapped and writes the 0 to
rd. Results:
- `load_precise_iff`: a load that traps leaves the machine as it was, to be executed again, except when it page-faults
  with a nonzero rd;
- `store_precise`: a store that traps always does;
- `load_store_precise_iff`: both;
- `load_fault_clobbers`: a page fault of lw a0, 0(a0) overwrites the address it faulted on.
-/
import RiscvEmu.Init
import RiscvEmu.LoadStore

namespace RiscvEmu

/-- the instruction raised an exception -/
def Raised (f : Machine → Machine) (s : Machine) : Prop := (f s).traps ≠ s.traps

/-- registers and memory are as before the instruction, and in any repaired state that keeps the registers it runs as it
would have run without the trap -/
structure Precise (f : Machine → Machine) (s : Machine) : Prop where
  gpr : (f s).gpr = s.gpr
  mem : (f s).mainMemory = s.mainMemory
  again : ∀ r : Machine, f { r with gpr := (f s).gpr } = f { r with gpr := s.gpr }

theorem Precise.of_eq {f : Machine → Machine} {s : Machine} (hg : (f s).gpr = s.gpr)
    (hm : (f s).mainMemory = s.mainMemory) : Precise f s := ⟨hg, hm, fun r => by rw [hg]⟩

/-- the load reaches translation and translation fails -/
def loadPageFaults (op : LoadOp) (s : Machine) (addr : Word) : Prop :=
  sdtrigCheckLoadTrigger s addr = none ∧ addr &&& op.mask = 0 ∧ (mmuWalk s addr .load).1 = none

/-- **Loads.** -/
theorem load_precise_iff (op : LoadOp) (s : Machine) (imm : Word) (rs1 rd : Reg) :
    (Raised (fun s => op.exec s imm rs1 rd) s → Precise (fun s => op.exec s imm rs1 rd) s) ↔
      ¬ (loadPageFaults op s (regRead s rs1 + imm) ∧ rd ≠ 0 ∧ s.gpr rd ≠ 0) := by
  rcases insiILoad_cases op.mask op.read s imm rs1 rd with
    ⟨ht, hs'⟩ | ⟨ht, ha, hs'⟩ | ⟨ht, ha, d, hw, hs'⟩ | ⟨ht, ha, pa, d, hw, hs'⟩
  all_goals rw [← op.exec_eq] at hs'
  · refine ⟨fun _ h => ht h.1.1, fun _ _ => Precise.of_eq ?_ ?_⟩ <;> simp only [hs', raiseExceptionPc_gpr,
      raiseExceptionPc_mainMemory]
  · refine ⟨fun _ h => ha h.1.2.1, fun _ _ => Precise.of_eq ?_ ?_⟩ <;> simp only [hs', raiseExceptionPc_gpr,
      raiseExceptionPc_mainMemory]
  · have hg : (op.exec s imm rs1 rd).gpr = writeGpr s.gpr rd 0 := by simp [hs']
    refine ⟨?_, ?_⟩
    · rintro h ⟨-, hrd, hz⟩
      have hr : Raised (fun s => op.exec s imm rs1 rd) s := by simp [Raised, hs']
      have he := (h hr).gpr
      rw [hg, writeGpr_eq_self] at he
      exact he.elim hrd hz
    · intro h _
      refine Precise.of_eq ?_ (by simp [hs'])
      rw [hg, writeGpr_eq_self]
      by_contra hn
      rw [not_or] at hn
      exact h ⟨⟨ht, ha, by rw [hw]⟩, hn.1, hn.2⟩
  · have hr : ¬ Raised (fun s => op.exec s imm rs1 rd) s := by simp [Raised, hs']
    exact ⟨fun _ h => by simp [loadPageFaults, hw] at h, fun _ h => absurd h hr⟩

/-- a store of any width: on a trap nothing was written -/
theorem insiSStore_precise {α : Type} (mask : Word) (write : Machine → Word → α → Machine) (trunc : Word → α)
    (hwrite : ∀ s a v, MemStep s (write s a v)) (s : Machine) (imm : Word) (rs2 rs1 : Reg)
    (h : Raised (fun s => insiSStore mask (fun s a v => mmuWrite write s a (trunc v)) s imm rs2 rs1) s) :
    Precise (fun s => insiSStore mask (fun s a v => mmuWrite write s a (trunc v)) s imm rs2 rs1) s := by
  rcases insiSStore_cases mask write trunc s imm rs2 rs1 with
    ⟨-, hs'⟩ | ⟨-, -, hs'⟩ | ⟨-, -, d, -, hs'⟩ | ⟨-, -, pa, d, -, hs'⟩
  · exact Precise.of_eq (by simp [hs']) (by simp [hs'])
  · exact Precise.of_eq (by simp [hs']) (by simp [hs'])
  · exact Precise.of_eq (by simp [hs']) (by simp [hs'])
  · obtain ⟨mem, flags, dev, hm⟩ := hwrite { s with dev := d } pa (trunc (regRead s rs2))
    exact absurd (congrArg Machine.traps (hs'.trans hm)) h

/-- **Stores.** -/
theorem store_precise (op : StoreOp) (s : Machine) (imm : Word) (rs2 rs1 : Reg)
    (h : Raised (fun s => op.exec s imm rs2 rs1) s) : Precise (fun s => op.exec s imm rs2 rs1) s := by
  cases op with
  | sb => exact insiSStore_precise 0 memWrite8 (fun v => (v &&& 0xFF).setWidth 8) memWrite8_memStep s imm rs2 rs1 h
  | sh =>
    exact insiSStore_precise 1 memWrite16 (fun v => (v &&& 0xFFFF).setWidth 16) memWrite16_memStep s imm rs2 rs1 h
  | sw => exact insiSStore_precise 3 memWrite32 id memWrite32_memStep s imm rs2 rs1 h

/-! ## Both -/

inductive MemInsn where
  | load (op : LoadOp) (imm : Word) (rs1 rd : Reg)
  | store (op : StoreOp) (imm : Word) (rs2 rs1 : Reg)

def MemInsn.exec (i : MemInsn) (s : Machine) : Machine :=
  match i with
  | .load op imm rs1 rd => op.exec s imm rs1 rd
  | .store op imm rs2 rs1 => op.exec s imm rs2 rs1

/-- a load that page-faults has no register to lose: rd is x0 or holds 0 already -/
def MemInsn.losesNothing (s : Machine) : MemInsn → Prop
  | .load op imm rs1 rd => loadPageFaults op s (regRead s rs1 + imm) → rd = 0 ∨ s.gpr rd = 0
  | .store .. => True

/-- **Precision of loads and stores.** Only a load that page-faults with a nonzero destination is imprecise. -/
theorem load_store_precise_iff (i : MemInsn) (s : Machine) :
    (Raised i.exec s → Precise i.exec s) ↔ i.losesNothing s := by
  cases i with
  | load op imm rs1 rd =>
    refine (load_precise_iff op s imm rs1 rd).trans ?_
    rw [MemInsn.losesNothing, not_and, not_and_or, not_not, ne_eq, not_not]
  | store op imm rs2 rs1 => exact iff_of_true (store_precise op s imm rs2 rs1) trivial

/-- supervisor mode, every page unmapped and the address 0x5000 in a0 -/
def faultingMachine : Machine := pagedMachine prvSupervisor (Function.update (fun _ => 0) 10 0x5000)

def faultingLoad : MemInsn := .load .lw 0 10 10

/-- lw a0, 0(a0) page-faults and loses the address in a0 -/
theorem load_fault_clobbers : Raised faultingLoad.exec faultingMachine ∧ (faultingLoad.exec faultingMachine).gpr 10 = 0 ∧
    ¬ Precise faultingLoad.exec faultingMachine := by
  have hz : (faultingLoad.exec faultingMachine).gpr 10 = 0 := by decide
  have hn : (faultingLoad.exec faultingMachine).traps.length ≠ faultingMachine.traps.length := by decide
  refine ⟨fun h => hn (congrArg List.length h), hz, ?_⟩
  intro h
  have he := congrFun h.gpr 10
  exact absurd (hz.symm.trans he) (by decide)

end RiscvEmu
