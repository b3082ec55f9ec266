/-
The loads and stores, integer and FP, 32-bit and compressed, as one type.

- `compressedAccess_op`, `execCInsn_op`: a compressed load or store is one of them, with the pc adjusted;
- `FLoadOp.exec_pageFaults`, `FStoreOp.exec_pageFaults`, `AInsn.exec_pageFaults`: these raise nothing but page faults.
-/
import RiscvEmu.SideState

namespace RiscvEmu

inductive Access where
  | load (op : LoadOp) (imm : Word) (rs1 rd : Reg)
  | store (op : StoreOp) (imm : Word) (rs2 rs1 : Reg)
  | fload (op : FLoadOp) (imm : Word) (rs1 rd : Reg)
  | fstore (op : FStoreOp) (imm : Word) (rs1 rs2 : Reg)
deriving DecidableEq

def Access.exec (a : Access) (s : Machine) : Machine :=
  match a with
  | .load op imm rs1 rd => op.exec s imm rs1 rd
  | .store op imm rs2 rs1 => op.exec s imm rs2 rs1
  | .fload op imm rs1 rd => op.exec s imm rs1 rd
  | .fstore op imm rs1 rs2 => op.exec s imm rs1 rs2

/-- the effective address -/
def Access.addr (a : Access) (s : Machine) : Word :=
  match a with
  | .load _ imm rs1 _ | .store _ imm _ rs1 | .fload _ imm rs1 _ | .fstore _ imm rs1 _ => regRead s rs1 + imm

def Access.isFp : Access → Bool
  | .fload .. | .fstore .. => true
  | _ => false

/-- the load or store a compressed word stands for -/
def compressedOp (c : BitVec 16) : Option Access :=
  match c.extractLsb' 0 2, c.extractLsb' 13 3 with
  | 0#2, 1#3 => some (.fload .fld (cLsUimm c) (cRs1p c) (cRs2p c))
  | 0#2, 2#3 => some (.load .lw (cLsUimm c) (cRs1p c) (cRs2p c))
  | 0#2, 3#3 => some (.fload .flw (cLsUimm c) (cRs1p c) (cRs2p c))
  | 0#2, 5#3 => some (.fstore .fsd (cLsUimm c) (cRs1p c) (cRs2p c))
  | 0#2, 6#3 => some (.store .sw (cLsUimm c) (cRs2p c) (cRs1p c))
  | 0#2, 7#3 => some (.fstore .fsw (cLsUimm c) (cRs1p c) (cRs2p c))
  | 2#2, 2#3 => if cRd c = 0 then none else some (.load .lw (cLwspUimm c) 2 (cRd c))
  | 2#2, 6#3 => some (.store .sw (cSwspUimm c) (cRs2 c) 2)
  | _, _ => none

theorem compressedAccess_op (c : BitVec 16) : compressedAccess c = (compressedOp c).map Access.exec := by
  unfold compressedAccess compressedOp
  dsimp only
  generalize c.extractLsb' 0 2 = q
  generalize c.extractLsb' 13 3 = f3
  split
  case h_7 =>
    change _ = Option.map Access.exec (if cRd c = 0 then none else some (.load .lw (cLwspUimm c) 2 (cRd c)))
    split_ifs <;> rfl
  case h_9 => simp_all
  all_goals rfl

theorem execCInsn_op {c : BitVec 16} {a : Access} (h : compressedOp c = some a) (s : Machine) :
    execCInsn s c = cAccess s a.exec := by
  refine execCInsn_access ?_
  rw [compressedAccess_op, h]
  rfl

/-! ## Page faults -/

/-- s' has the traps of s and page faults on top -/
def PageFaultsOnly (s s' : Machine) : Prop :=
  ∃ l, s'.traps = l ++ s.traps ∧ ∀ t ∈ l, ∃ access, t.cause = pageFaultCause access

section
variable {s t u : Machine}

theorem PageFaultsOnly.of_traps (h : t.traps = s.traps) : PageFaultsOnly s t := ⟨[], h, by simp⟩

theorem PageFaultsOnly.trans (h : PageFaultsOnly s t) (h' : PageFaultsOnly t u) : PageFaultsOnly s u := by
  obtain ⟨l, hl, hc⟩ := h
  obtain ⟨l', hl', hc'⟩ := h'
  refine ⟨l' ++ l, by rw [hl', hl, List.append_assoc], fun x hx => ?_⟩
  rcases List.mem_append.1 hx with hx | hx
  · exact hc' x hx
  · exact hc x hx

theorem PageFaultsOnly.kept (h : PageFaultsOnly s t) (h' : Kept t u) : PageFaultsOnly s u :=
  h.trans (.of_traps h'.traps)

/-- one trap on top is a page fault -/
theorem PageFaultsOnly.cause (h : PageFaultsOnly s t) {x : Trap} (ht : t.traps = x :: s.traps) :
    ∃ access, x.cause = pageFaultCause access := by
  obtain ⟨l, hl, hc⟩ := h
  have hx : l = [x] := List.append_cancel_right (hl.symm.trans ht : l ++ s.traps = [x] ++ s.traps)
  exact hc x (by rw [hx]; exact List.mem_singleton_self x)

/-- a first trap stays below those of the next access -/
theorem PageFaultsOnly.traps_between (h : PageFaultsOnly s t) (h' : PageFaultsOnly t u) (hu : u.traps = s.traps) :
    t.traps = s.traps := by
  obtain ⟨l, hl, -⟩ := h
  obtain ⟨l', hl', -⟩ := h'
  have hnil : l' ++ l ++ s.traps = [] ++ s.traps := by rw [List.append_assoc, ← hl, ← hl', hu, List.nil_append]
  obtain ⟨-, rfl⟩ := List.append_eq_nil_iff.1 (List.append_cancel_right hnil)
  exact hl

theorem mmuTranslate_pageFaults (s : Machine) (vaddr : Word) (access : MmuAccess) :
    PageFaultsOnly s (mmuTranslate s vaddr access).2 := by
  by_cases h : pageFaults s vaddr access
  · refine ⟨[_], (mmuTranslate_trap h).traps.trans (raiseExceptionPc_traps ..), ?_⟩
    intro x hx
    rw [List.mem_singleton.1 hx]
    exact ⟨access, rfl⟩
  · exact .of_traps (mmuTranslate_kept h).traps

theorem mmuRead_pageFaults {α : Type} [Zero α] (read : Machine → Word → α × Devices) (s : Machine) (vaddr : Word) :
    PageFaultsOnly s (mmuRead read s vaddr).2 :=
  (mmuTranslate_pageFaults s vaddr .load).kept (mmuRead_kept read s vaddr)

theorem mmuWrite_pageFaults {α : Type} {write : Machine → Word → α → Machine} (hw : ∀ s a v, MemStep s (write s a v))
    (s : Machine) (vaddr : Word) (val : α) : PageFaultsOnly s (mmuWrite write s vaddr val) :=
  (mmuTranslate_pageFaults s vaddr .store).kept (mmuWrite_kept hw s vaddr val)

theorem FLoadOp.exec_pageFaults (op : FLoadOp) (s : Machine) (imm : Word) (rs1 rd : Reg) :
    PageFaultsOnly s (op.exec s imm rs1 rd) := by
  cases op with
  | flh => exact (mmuRead_pageFaults memRead16Unsigned s _).kept (fpu_kept _ _)
  | flw => exact (mmuRead_pageFaults memRead32Unsigned s _).kept (fpu_kept _ _)
  | fld => exact (mmuRead_pageFaults memRead64Unsigned s _).kept (fpu_kept _ _)
  | flq =>
    have h1 := mmuRead_pageFaults memRead64Unsigned s (regRead s rs1 + imm)
    exact (h1.trans (mmuRead_pageFaults memRead64Unsigned _ (regRead s rs1 + imm + 8))).kept (fpu_kept _ _)

theorem FStoreOp.exec_pageFaults (op : FStoreOp) (s : Machine) (imm : Word) (rs1 rs2 : Reg) :
    PageFaultsOnly s (op.exec s imm rs1 rs2) := by
  cases op with
  | fsh => exact mmuWrite_pageFaults memWrite16_memStep s _ _
  | fsw => exact mmuWrite_pageFaults memWrite32_memStep s _ _
  | fsd => exact mmuWrite_pageFaults memWrite64_memStep s _ _
  | fsq => exact (mmuWrite_pageFaults memWrite64_memStep s _ _).trans (mmuWrite_pageFaults memWrite64_memStep _ _ _)

theorem AInsn.exec_pageFaults {a : AInsn} {s s' : Machine} {rs1 rs2 rd : Reg} (h : a.exec s rs1 rs2 rd = .ok s') :
    PageFaultsOnly s s' := by
  cases a with
  | amo o =>
    obtain ⟨-, value, rfl⟩ := AmoOp.exec_cases h
    have h1 := mmuRead_pageFaults memRead32Unsigned s (regRead s rs1)
    exact (h1.trans (mmuWrite_pageFaults memWrite32_memStep _ _ _)).kept (regWrite_kept _ _ _)
  | lr =>
    simp only [AInsn.exec, insaRLrW] at h
    split_ifs at h
    obtain rfl := Except.ok.inj h
    exact ((mmuRead_pageFaults memRead32Unsigned s _).kept (regWrite_kept _ _ _)).kept (setReserveStatus_kept _ _)
  | sc =>
    simp only [AInsn.exec, insaRScW] at h
    split_ifs at h
    · obtain rfl := Except.ok.inj h
      have hk := regWrite_kept (mmuWrite32 s (regRead s rs1) (regRead s rs2)) rd 0
      exact ((mmuWrite_pageFaults memWrite32_memStep s _ _).kept hk).kept (clearReserveStatus_kept _ (regRead s rs1))
    · obtain rfl := Except.ok.inj h
      exact .of_traps rfl

/-- an FP access, 32-bit or compressed -/
theorem Access.exec_pageFaults {a : Access} (h : a.isFp = true) (s : Machine) : PageFaultsOnly s (a.exec s) := by
  cases a with
  | fload op imm rs1 rd => exact op.exec_pageFaults s imm rs1 rd
  | fstore op imm rs1 rs2 => exact op.exec_pageFaults s imm rs1 rs2
  | _ => cases h

/-- a compressed access does what its routine does, and may then move pc -/
theorem cAccess_pc (s : Machine) (f : Machine → Machine) : ∃ pc, (cAccess s f).1 = { f s with pc := pc } := by
  simp only [cAccess]
  split_ifs
  · exact ⟨_, rfl⟩
  · exact ⟨(f s).pc, rfl⟩

theorem cAccess_traps (s : Machine) (f : Machine → Machine) : (cAccess s f).1.traps = (f s).traps := by
  obtain ⟨pc, h⟩ := cAccess_pc s f
  rw [h]

theorem cAccess_fpu (s : Machine) (f : Machine → Machine) : (cAccess s f).1.fpu = (f s).fpu := by
  obtain ⟨pc, h⟩ := cAccess_pc s f
  rw [h]

end

end RiscvEmu
