/-
The physical accesses of an iteration, as a log.

An entry of the log is an access to the bus and the machine that makes it. The log is written down beside the routines: the
entries a walk of the page tables reads, the access itself, and for each instruction the accesses it makes in their order.
Results:
- `mmuWalk_leads`, `mmuRead_leads`, `mmuWrite_leads`: the log of a translated access leads to the devices it leaves;
- `exec_leads`, `fetchExec_leads`: so does the log of an instruction, and of its fetch;
- `exec_carries`: without a trap a load's register takes what the last access of its log answers, and a store's last access
  writes its register;
- `iteration_serves`: an iteration is its poll, its log, and one tick of each clock.
-/
import RiscvEmu.Access
import RiscvEmu.Atomic
import RiscvEmu.RamCoherence
import RiscvEmu.ReservationRuns

namespace RiscvEmu

open Runs

/-! ## Accesses -/

/-- what the access answers -/
def MemOp.answer (s : Machine) : MemOp → BitVec 64
  | .read8Unsigned a => (memRead8Unsigned s a).1.setWidth 64
  | .read8Signed a => (memRead8Signed s a).1.setWidth 64
  | .read16Unsigned a => (memRead16Unsigned s a).1.setWidth 64
  | .read16Signed a => (memRead16Signed s a).1.setWidth 64
  | .read32Unsigned a => (memRead32Unsigned s a).1.setWidth 64
  | .read32Signed a => (memRead32Signed s a).1.setWidth 64
  | .read64Unsigned a => (memRead64Unsigned s a).1
  | _ => 0

abbrev BusLog := List (Machine × MemOp)

/-- the access is made on devices d, and leaves e -/
def BusStep (d : Devices) (x : Machine × MemOp) (e : Devices) : Prop := x.1.dev = d ∧ e = (x.2.step x.1).dev

/-- the accesses of the log lead from d to e -/
def Leads (d : Devices) (log : BusLog) (e : Devices) : Prop := Path BusStep d (log.map fun x => (x.1.dev, x)) e

section
variable {d e f : Devices} {log log' : BusLog}

theorem Leads.refl (d : Devices) : Leads d [] d := .nil d

theorem Leads.append (h : Leads d log e) (h' : Leads e log' f) : Leads d (log ++ log') f := by
  rw [Leads, List.map_append]
  exact Path.append h h'

theorem Leads.one (s : Machine) (op : MemOp) : Leads s.dev [(s, op)] (op.step s).dev := .cons ⟨rfl, rfl⟩ (.nil _)

/-- what does not reach the devices after what does -/
theorem Leads.congr (h : Leads d log e) (he : f = e) : Leads d log f := he ▸ h

end

/-! ## Translated accesses -/

/-- the entries a walk reads -/
def walkLog (s : Machine) (vaddr : Word) (access : MmuAccess) : BusLog :=
  if ¬ mmuVmActive s (effectivePriv s access) then []
  else
    let first := (mmuSatpRootPpn s <<< pgshift) + (vaddr >>> 22 &&& 0x3FF) * 4
    let (pte1, d1) := memRead32Unsigned s first
    if pte1 &&& pteV = 0 ∨ pte1 &&& (pteR ||| pteW ||| pteX) ≠ 0 then [(s, .read32Unsigned first)]
    else
      let second := ((pte1 >>> ptePpnShift) <<< pgshift) + (vaddr >>> 12 &&& 0x3FF) * 4
      [(s, .read32Unsigned first), ({ s with dev := d1 }, .read32Unsigned second)]

/-- the walk, and the access where it leads -/
def accessLog (s : Machine) (vaddr : Word) (access : MmuAccess) (op : Word → MemOp) : BusLog :=
  walkLog s vaddr access ++ match mmuWalk s vaddr access with
    | (some pa, d) => [({ s with dev := d }, op pa)]
    | (none, _) => []

section
variable (s : Machine) (vaddr : Word)

theorem mmuWalk_leads (access : MmuAccess) : Leads s.dev (walkLog s vaddr access) (mmuWalk s vaddr access).2 := by
  simp only [mmuWalk, walkLog]
  generalize hfirst : mmuSatpRootPpn s <<< pgshift + (vaddr >>> 22 &&& 0x3FF) * 4 = first
  generalize hroot : memRead32Unsigned s first = root
  have h1 : Leads s.dev [(s, .read32Unsigned first)] root.2 := by
    rw [← hroot]
    exact Leads.one s (.read32Unsigned first)
  generalize hsecond : root.1 >>> ptePpnShift <<< pgshift + (vaddr >>> 12 &&& 0x3FF) * 4 = second
  generalize hleaf : memRead32Unsigned { s with dev := root.2 } second = leaf
  have h2 : Leads s.dev ([(s, .read32Unsigned first)] ++ [({ s with dev := root.2 }, .read32Unsigned second)]) leaf.2 := by
    rw [← hleaf]
    exact h1.append (Leads.one { s with dev := root.2 } (.read32Unsigned second))
  by_cases hvm : mmuVmActive s (effectivePriv s access) = true
  · rw [if_neg (not_not.2 hvm), if_neg (not_not.2 hvm)]
    by_cases hv : root.1 &&& pteV = 0
    · rw [if_pos hv, if_pos (Or.inl hv)]
      exact h1
    · rw [if_neg hv]
      by_cases hrwx : root.1 &&& (pteR ||| pteW ||| pteX) ≠ 0
      · rw [if_pos hrwx, if_pos (Or.inr hrwx)]
        split_ifs <;> exact h1
      · rw [if_neg hrwx, if_neg (not_or.2 ⟨hv, hrwx⟩)]
        split_ifs <;> exact h2
  · rw [if_pos hvm, if_pos hvm]
    exact .refl _

variable {α : Type} (op : Word → MemOp)

theorem mmuRead_leads [Zero α] (read : Machine → Word → α × Devices)
    (hop : ∀ u a, ((op a).step u).dev = (read u a).2) :
    Leads s.dev (accessLog s vaddr .load op) (mmuRead read s vaddr).2.dev := by
  have hw := mmuWalk_leads s vaddr .load
  rw [accessLog]
  rcases hm : mmuWalk s vaddr .load with ⟨_ | pa, d⟩
  · rw [hm] at hw
    rw [mmuRead_none hm, List.append_nil]
    exact hw.congr (raiseExceptionPc_dev _ _ _ _)
  · rw [hm] at hw
    rw [mmuRead_some hm]
    exact hw.append ((Leads.one { s with dev := d } (op pa)).congr (hop _ _).symm)

theorem mmuWrite_leads (write : Machine → Word → α → Machine) (val : α)
    (hop : ∀ u a, (op a).step u = write u a val) :
    Leads s.dev (accessLog s vaddr .store op) (mmuWrite write s vaddr val).dev := by
  have hw := mmuWalk_leads s vaddr .store
  rw [accessLog]
  rcases hm : mmuWalk s vaddr .store with ⟨_ | pa, d⟩
  · rw [hm] at hw
    rw [mmuWrite_none hm, List.append_nil]
    exact hw.congr (raiseExceptionPc_dev _ _ _ _)
  · rw [hm] at hw
    rw [mmuWrite_some hm]
    exact hw.append ((Leads.one { s with dev := d } (op pa)).congr (congrArg Machine.dev (hop _ _).symm))

theorem mmuFetchOk_leads :
    Leads s.dev (accessLog s vaddr .fetch .read32Unsigned) (mmuFetchOk s vaddr).2.dev := by
  have hw := mmuWalk_leads s vaddr .fetch
  rw [accessLog, mmuFetchOk]
  rcases hm : mmuWalk s vaddr .fetch with ⟨_ | pa, d⟩
  · rw [hm] at hw
    rw [mmuTranslate_none hm, List.append_nil]
    exact hw.congr (raiseExceptionPc_dev _ _ _ _)
  · rw [hm] at hw
    rw [mmuTranslate_some hm]
    exact hw.append (Leads.one { s with dev := d } (.read32Unsigned pa))

end

/-! ## Instructions -/

/-- the access a load makes -/
def LoadOp.bus : LoadOp → Word → MemOp
  | .lb => .read8Signed
  | .lh => .read16Signed
  | .lw => .read32Signed
  | .lbu => .read8Unsigned
  | .lhu => .read16Unsigned

/-- the access a store of val makes -/
def StoreOp.bus (val : Word) (addr : Word) : StoreOp → MemOp
  | .sb => .write8 addr (val.setWidth 8)
  | .sh => .write16 addr (val.setWidth 16)
  | .sw => .write32 addr val

/-- the accesses of a load or store, unless a trigger or its alignment stops it -/
def Access.log (s : Machine) : Access → BusLog
  | .load op imm rs1 _ =>
    let addr := regRead s rs1 + imm
    if sdtrigCheckLoadTrigger s addr = none ∧ addr &&& op.mask = 0 then accessLog s addr .load op.bus else []
  | .store op imm rs2 rs1 =>
    let addr := regRead s rs1 + imm
    if sdtrigCheckStoreTrigger s addr = none ∧ addr &&& op.mask = 0 then
      accessLog s addr .store fun pa => op.bus (regRead s rs2) pa
    else []
  | .fload op imm rs1 _ =>
    let addr := regRead s rs1 + imm
    match op with
    | .flh => accessLog s addr .load .read16Unsigned
    | .flw => accessLog s addr .load .read32Unsigned
    | .fld => accessLog s addr .load .read64Unsigned
    | .flq => accessLog s addr .load .read64Unsigned ++
        accessLog (mmuRead64Unsigned s addr).2 (addr + 8) .load .read64Unsigned
  | .fstore op imm rs1 rs2 =>
    let addr := regRead s rs1 + imm
    match op with
    | .fsh => accessLog s addr .store (.write16 · (fprRead .H s.fpu rs2))
    | .fsw => accessLog s addr .store (.write32 · (fprRead .S s.fpu rs2))
    | .fsd => accessLog s addr .store (.write64 · (fprRead .D s.fpu rs2))
    | .fsq =>
      let v := fprRead .Q s.fpu rs2
      accessLog s addr .store (.write64 · (v.setWidth 64)) ++
        accessLog (mmuWrite64 s addr (v.setWidth 64)) (addr + 8) .store (.write64 · ((v >>> 64).setWidth 64))

/-- the accesses of an LR, SC or AMO at an aligned address -/
def AInsn.log (s : Machine) (rs1 rs2 : Reg) : AInsn → BusLog
  | .lr => accessLog s (regRead s rs1) .load .read32Unsigned
  | .sc =>
    if getReserveStatus s (regRead s rs1) then accessLog s (regRead s rs1) .store (.write32 · (regRead s rs2)) else []
  | .amo o =>
    let (old, t) := mmuRead32Unsigned s (regRead s rs1)
    accessLog s (regRead s rs1) .load .read32Unsigned ++
      accessLog t (regRead s rs1) .store (.write32 · (o.apply old (regRead s rs2)))

/-- the load or store a leaf makes -/
def Insn.access (s : Machine) : Insn → Option Access
  | .load op imm rs1 rd => some (.load op imm rs1 rd)
  | .store op imm rs2 rs1 => some (.store op imm rs2 rs1)
  | .fp (.load op imm rs1 rd) => if fpuFsOff s then none else some (.fload op imm rs1 rd)
  | .fp (.store op imm rs1 rs2) => if fpuFsOff s then none else some (.fstore op imm rs1 rs2)
  | _ => none

def Insn.log (s : Machine) : Insn → BusLog
  | .atomic a rs1 rs2 _ => a.log s rs1 rs2
  | i => (i.access s).elim [] (Access.log s)

/-- the accesses of exec -/
def execLog (s : Machine) (ins : Word) : BusLog :=
  if ¬ fetchAligned s then []
  else if misaCEnabled s ∧ ins.extractLsb' 0 2 ≠ 3 then (compressedOp (ins.setWidth 16)).elim [] (Access.log s)
  else (decode ins).log s

/-- the accesses of the fetch and, where it goes on, of exec -/
def fetchExecLog (s : Machine) : BusLog :=
  accessLog s s.pc .fetch .read32Unsigned ++ match mmuFetchOk s s.pc with
    | (some ins, t) => if triggerFires t s.pc sdtrigExecute then [] else execLog t ins
    | (none, _) => []

def iterationLog (host : HostInput) (r : Run) : BusLog := if host.quit then [] else fetchExecLog (fetchState host r)

/-! ## The log of an instruction is what it does to the devices -/

section
variable {s t : Machine}

theorem Plain.dev (h : Plain s t) : t.dev = s.dev := by
  cases h with
  | regs gpr pc terminated => rfl
  | trap cause tval => exact raiseExceptionPc_dev _ _ _ _

theorem RegStep.dev (h : RegStep s t) : t.dev = s.dev := by
  obtain ⟨gpr, fpu, rfl⟩ := h
  rfl

end

section
variable (s : Machine) (imm : Word) (rs1 rs2 rd : Reg)

theorem csrWrite_dev (csr : Csr) (val : Word) : (csrWrite s csr val).dev = s.dev := by
  unfold csrWrite
  split_ifs
  · cases (csrTable csr).writeCallback with
    | none => rfl
    | some f =>
      cases f with
      | setFcsr => simp only [WriteCallback.run, setFcsr]; split_ifs <;> rfl
      | setFrm => simp only [WriteCallback.run, setFrm]; split_ifs <;> rfl
      | _ => rfl
  · rfl

theorem CsrOp.exec_dev (op : CsrOp) (csr : Csr) (ins : Word) : (op.exec s rs1 rd csr ins).dev = s.dev := by
  have hcheck : (checkCsrAccess s csr ins).dev = s.dev := by
    unfold checkCsrAccess
    split_ifs
    · exact raiseExceptionPc_dev _ _ _ _
    · rfl
  have hwrite : ∀ val, (csrWrite (checkCsrAccess s csr ins) csr val).dev = s.dev :=
    fun val => (csrWrite_dev _ csr val).trans hcheck
  rw [op.exec_eq]
  simp only [insZicsr]
  cases op.newVal rs1 (checkCsrAccess s csr ins) (csrRead (checkCsrAccess s csr ins) csr) with
  | none =>
    dsimp only
    split_ifs <;> exact hcheck
  | some val =>
    dsimp only
    split_ifs <;> exact hwrite val

theorem insSret_dev : (insSret s).dev = s.dev := by
  unfold insSret
  split_ifs
  · exact raiseExceptionPc_dev _ _ _ _
  · exact csrWrite_dev s csrSstatus (sstatusOnReturn (csrRead s csrSstatus))

theorem clearReserveStatus_dev (addr : Word) : (clearReserveStatus s addr).dev = s.dev := by
  simp only [clearReserveStatus]
  split
  · rfl
  · split_ifs <;> rfl

theorem LoadOp.bus_dev (op : LoadOp) (a : Word) : ((op.bus a).step s).dev = (op.read s a).2 := by cases op <;> rfl

/-- the register of a load takes the low word of the answer -/
theorem LoadOp.bus_answer (op : LoadOp) (a : Word) : ((op.bus a).answer s).setWidth 32 = (op.read s a).1 := by
  cases op <;> exact BitVec.setWidth_setWidth_of_le _ (by decide)

theorem LoadOp.exec_leads (op : LoadOp) :
    Leads s.dev (Access.log s (.load op imm rs1 rd)) (op.exec s imm rs1 rd).dev := by
  have hread := mmuRead_leads s (regRead s rs1 + imm) op.bus op.read fun u a => op.bus_dev u a
  rw [op.exec_eq, Access.log]
  rcases insiILoad_cases op.mask op.read s imm rs1 rd with
    ⟨ht, h⟩ | ⟨-, ha, h⟩ | ⟨ht, ha, d, hw, h⟩ | ⟨ht, ha, pa, d, hw, h⟩
  · rw [h, if_neg fun hc => ht hc.1]
    exact (Leads.refl _).congr (raiseExceptionPc_dev _ _ _ _)
  · rw [h, if_neg fun hc => ha hc.2]
    exact (Leads.refl _).congr (raiseExceptionPc_dev _ _ _ _)
  · rw [h, if_pos ⟨ht, ha⟩]
    rw [mmuRead_none hw] at hread
    exact hread
  · rw [h, if_pos ⟨ht, ha⟩]
    rw [mmuRead_some hw] at hread
    exact hread

theorem insiSStore_leads {α : Type} (mask : Word) {write : Machine → Word → α → Machine} (trunc : Word → α)
    (op : Word → MemOp) (hop : ∀ u a, (op a).step u = write u a (trunc (regRead s rs2))) :
    Leads s.dev
      (if sdtrigCheckStoreTrigger s (regRead s rs1 + imm) = none ∧ (regRead s rs1 + imm) &&& mask = 0 then
        accessLog s (regRead s rs1 + imm) .store op else [])
      (insiSStore mask (fun s a v => mmuWrite write s a (trunc v)) s imm rs2 rs1).dev := by
  have hwrite := mmuWrite_leads s (regRead s rs1 + imm) op write (trunc (regRead s rs2)) hop
  rcases insiSStore_cases mask write trunc s imm rs2 rs1 with
    ⟨ht, h⟩ | ⟨-, ha, h⟩ | ⟨ht, ha, d, hw, h⟩ | ⟨ht, ha, pa, d, hw, h⟩
  · rw [h, if_neg fun hc => ht hc.1]
    exact (Leads.refl _).congr (raiseExceptionPc_dev _ _ _ _)
  · rw [h, if_neg fun hc => ha hc.2]
    exact (Leads.refl _).congr (raiseExceptionPc_dev _ _ _ _)
  · rw [h, if_pos ⟨ht, ha⟩]
    rw [mmuWrite_none hw] at hwrite
    exact hwrite
  · rw [h, if_pos ⟨ht, ha⟩]
    rw [mmuWrite_some hw] at hwrite
    exact hwrite

theorem and_low8 (v : Word) : (v &&& 0xFF).setWidth 8 = v.setWidth 8 := by
  rw [BitVec.setWidth_and]
  exact BitVec.and_allOnes

theorem and_low16 (v : Word) : (v &&& 0xFFFF).setWidth 16 = v.setWidth 16 := by
  rw [BitVec.setWidth_and]
  exact BitVec.and_allOnes

theorem StoreOp.exec_leads (op : StoreOp) :
    Leads s.dev (Access.log s (.store op imm rs2 rs1)) (op.exec s imm rs2 rs1).dev := by
  cases op with
  | sb =>
    refine insiSStore_leads s imm rs1 rs2 0 (fun v => (v &&& 0xFF).setWidth 8) (StoreOp.bus (regRead s rs2) · .sb) ?_
    intro u a
    exact congrArg (memWrite8 u a) (and_low8 _).symm
  | sh =>
    refine insiSStore_leads s imm rs1 rs2 1 (fun v => (v &&& 0xFFFF).setWidth 16) (StoreOp.bus (regRead s rs2) · .sh) ?_
    intro u a
    exact congrArg (memWrite16 u a) (and_low16 _).symm
  | sw => exact insiSStore_leads s imm rs1 rs2 3 id (StoreOp.bus (regRead s rs2) · .sw) fun u a => rfl

/-! The FP loads, in the parts of the pairs their reads answer -/

theorem insfFlh_eq : insfFlh s imm rs1 rd =
    let x := mmuRead16Unsigned s (regRead s rs1 + imm)
    { x.2 with fpu := fprWrite .H x.2.fpu rd (x.1.setWidth 16) } := by
  rw [insfFlh]

theorem insfFlw_eq : insfFlw s imm rs1 rd =
    let x := mmuRead32Unsigned s (regRead s rs1 + imm)
    { x.2 with fpu := fprWrite .S x.2.fpu rd x.1 } := by
  rw [insfFlw]

theorem insfFld_eq : insfFld s imm rs1 rd =
    let x := mmuRead64Unsigned s (regRead s rs1 + imm)
    { x.2 with fpu := fprWrite .D x.2.fpu rd x.1 } := by
  rw [insfFld]

theorem insfFlq_eq : insfFlq s imm rs1 rd =
    let x := mmuRead64Unsigned s (regRead s rs1 + imm)
    let y := mmuRead64Unsigned x.2 (regRead s rs1 + imm + 8)
    { y.2 with fpu := fprWrite .Q y.2.fpu rd (y.1 ++ x.1) } := by
  simp only [insfFlq]

theorem FLoadOp.exec_leads (op : FLoadOp) :
    Leads s.dev (Access.log s (.fload op imm rs1 rd)) (op.exec s imm rs1 rd).dev := by
  have h64 : ∀ (t : Machine) (a : Word), Leads t.dev (accessLog t a .load .read64Unsigned) (mmuRead64Unsigned t a).2.dev :=
    fun t a => mmuRead_leads t a .read64Unsigned memRead64Unsigned fun u b => rfl
  cases op with
  | flh =>
    rw [FLoadOp.exec, insfFlh_eq]
    exact mmuRead_leads s _ .read16Unsigned memRead16Unsigned fun u b => rfl
  | flw =>
    rw [FLoadOp.exec, insfFlw_eq]
    exact mmuRead_leads s _ .read32Unsigned memRead32Unsigned fun u b => rfl
  | fld =>
    rw [FLoadOp.exec, insfFld_eq]
    exact h64 s _
  | flq =>
    rw [FLoadOp.exec, insfFlq_eq]
    exact (h64 s _).append (h64 _ _)

theorem FStoreOp.exec_leads (op : FStoreOp) :
    Leads s.dev (Access.log s (.fstore op imm rs1 rs2)) (op.exec s imm rs1 rs2).dev := by
  have h64 : ∀ (t : Machine) (a : Word) (v : BitVec 64),
      Leads t.dev (accessLog t a .store (.write64 · v)) (mmuWrite64 t a v).dev :=
    fun t a v => mmuWrite_leads t a (.write64 · v) memWrite64 v fun u b => rfl
  cases op with
  | fsh => exact mmuWrite_leads s _ (.write16 · _) memWrite16 _ fun u b => rfl
  | fsw => exact mmuWrite_leads s _ (.write32 · _) memWrite32 _ fun u b => rfl
  | fsd => exact h64 s _ _
  | fsq => exact (h64 s _ _).append (h64 _ _ _)

theorem Access.exec_leads (a : Access) : Leads s.dev (a.log s) (a.exec s).dev := by
  cases a with
  | load op imm rs1 rd => exact op.exec_leads s imm rs1 rd
  | store op imm rs2 rs1 => exact op.exec_leads s imm rs1 rs2
  | fload op imm rs1 rd => exact op.exec_leads s imm rs1 rd
  | fstore op imm rs1 rs2 => exact op.exec_leads s imm rs1 rs2

variable {s rs1 rs2 rd} {s' : Machine}

theorem AInsn.exec_leads {a : AInsn} (h : a.exec s rs1 rs2 rd = .ok s') : Leads s.dev (a.log s rs1 rs2) s'.dev := by
  have hread := mmuRead_leads s (regRead s rs1) .read32Unsigned memRead32Unsigned fun u b => rfl
  cases a with
  | lr =>
    simp only [AInsn.exec, insaRLrW] at h
    split_ifs at h
    obtain rfl := Except.ok.inj h
    exact hread
  | sc =>
    simp only [AInsn.exec, insaRScW] at h
    rw [AInsn.log]
    split_ifs at h ⊢
    · obtain rfl := Except.ok.inj h
      have hw := mmuWrite_leads s (regRead s rs1) (.write32 · (regRead s rs2)) memWrite32 (regRead s rs2)
        fun u b => rfl
      exact hw.congr (clearReserveStatus_dev _ _)
    · obtain rfl := Except.ok.inj h
      exact .refl _
  | amo o =>
    obtain ⟨msg, he⟩ := o.exec_eq s rs1 rs2 rd
    rw [AInsn.exec, he] at h
    simp only [insaRAmo] at h
    split_ifs at h
    obtain rfl := Except.ok.inj h
    exact hread.append (mmuWrite_leads _ (regRead s rs1) (.write32 · _) memWrite32 _ fun u b => rfl)

variable {c : BitVec 16} {ins : Word}

theorem execCInsn_leads (h3 : c.extractLsb' 0 2 ≠ 3#2) :
    Leads s.dev ((compressedOp c).elim [] (Access.log s)) (execCInsn s c).1.dev := by
  cases ha : compressedOp c with
  | some a =>
    obtain ⟨pc, hpc⟩ := cAccess_pc s a.exec
    rw [execCInsn_op ha, hpc]
    exact a.exec_leads s
  | none =>
    have hnone : compressedAccess c = none := by rw [compressedAccess_op, ha]; rfl
    exact (Leads.refl _).congr (execCInsn_plain h3 hnone).dev

variable [SoftFloat]

theorem Insn.run_leads {i : Insn} (h : i.run s ins = .ok s') : Leads s.dev (i.log s) s'.dev := by
  cases i with
  | fatal f => cases h
  | fp i =>
    simp only [Insn.run] at h
    by_cases hfs : fpuFsOff s = true
    · rw [if_pos hfs] at h
      obtain rfl := Except.ok.inj h
      have hlog : Insn.log s (.fp i) = [] := by cases i <;> simp [Insn.log, Insn.access, hfs]
      rw [hlog]
      exact (Leads.refl _).congr (raiseExceptionPc_dev _ _ _ _)
    · rw [if_neg hfs] at h
      cases i with
      | load op imm rs1 rd =>
        obtain rfl := Except.ok.inj h
        have hlog : Insn.log s (.fp (.load op imm rs1 rd)) = Access.log s (.fload op imm rs1 rd) := by
          simp [Insn.log, Insn.access, hfs]
        rw [hlog]
        exact op.exec_leads s imm rs1 rd
      | store op imm rs1 rs2 =>
        obtain rfl := Except.ok.inj h
        have hlog : Insn.log s (.fp (.store op imm rs1 rs2)) = Access.log s (.fstore op imm rs1 rs2) := by
          simp [Insn.log, Insn.access, hfs]
        rw [hlog]
        exact op.exec_leads s imm rs1 rs2
      | fma subop => obtain rfl := Except.ok.inj h; exact (Leads.refl _).congr (insfRFma_frame s ins subop).dev
      | fpop => exact (Leads.refl _).congr (insfRFpop_frame h).dev
      | fatal f => cases h
  | atomic a rs1 rs2 rd => exact AInsn.exec_leads h
  | load op imm rs1 rd => obtain rfl := Except.ok.inj h; exact op.exec_leads s imm rs1 rd
  | store op imm rs2 rs1 => obtain rfl := Except.ok.inj h; exact op.exec_leads s imm rs1 rs2
  | zicsr op rs1 rd csr => obtain rfl := Except.ok.inj h; exact (Leads.refl _).congr (op.exec_dev s rs1 rd csr ins)
  | sret => obtain rfl := Except.ok.inj h; exact (Leads.refl _).congr (insSret_dev s)
  | mret => obtain rfl := Except.ok.inj h; exact .refl _
  | mnret => obtain rfl := Except.ok.inj h; exact .refl _
  | _ => exact (Leads.refl _).congr (Insn.run_plain rfl h).dev

/-- **One instruction** acts on the devices through the accesses of its log, in their order. -/
theorem exec_leads (h : exec s ins = .ok s') : Leads s.dev (execLog s ins) s'.dev := by
  obtain ⟨ha, rfl⟩ | ⟨ha, hc, rfl⟩ | ⟨⟨ha, hc⟩, hrun⟩ := exec_cases h
  · rw [execLog, if_pos (by simp [ha])]
    exact (Leads.refl _).congr (raiseExceptionPc_dev _ _ _ _)
  · rw [execLog, if_neg (by simp [ha]), if_pos hc]
    exact execCInsn_leads (compressed_quadrant hc.2)
  · rw [execLog, if_neg (by simp [ha]), if_neg hc]
    exact Insn.run_leads hrun

theorem fetchExec_leads (h : fetchExec s = .ok s') : Leads s.dev (fetchExecLog s) s'.dev := by
  have hf := mmuFetchOk_leads s s.pc
  simp only [fetchExec] at h
  rw [fetchExecLog]
  rcases hm : mmuFetchOk s s.pc with ⟨_ | ins, t⟩
  · rw [hm] at h hf
    obtain rfl := Except.ok.inj h
    rw [List.append_nil]
    exact hf
  · rw [hm] at h hf
    simp only [sdtrigCheckFetchTrigger, sdtrigCheck] at h
    dsimp only
    cases hg : triggerFires t s.pc sdtrigExecute with
    | true =>
      rw [hg, if_pos rfl] at h
      obtain rfl := Except.ok.inj h
      rw [if_pos rfl, List.append_nil]
      exact hf.congr (raiseExceptionPc_dev _ _ _ _)
    | false =>
      rw [hg, if_neg Bool.false_ne_true] at h
      rw [if_neg Bool.false_ne_true]
      exact hf.append (exec_leads h)

end

/-! ## The data of an access -/

/-- the load or store that word ins makes in state s, 32-bit or compressed -/
def madeAccess (s : Machine) (ins : Word) : Option Access :=
  if ¬ fetchAligned s then none
  else if misaCEnabled s ∧ ins.extractLsb' 0 2 ≠ 3 then compressedOp (ins.setWidth 16)
  else (decode ins).access s

/-- the register of an FP load takes what the log ends in; FLQ makes two accesses, with a walk between them -/
def FLoadOp.carries (s s' : Machine) (log : BusLog) (rd : Reg) : FLoadOp → Prop
  | .flh => ∃ u pa, [(u, .read16Unsigned pa)] <:+ log ∧
      s'.fpu = fprWrite .H s.fpu rd (((MemOp.read16Unsigned pa).answer u).setWidth 16)
  | .flw => ∃ u pa, [(u, .read32Unsigned pa)] <:+ log ∧
      s'.fpu = fprWrite .S s.fpu rd (((MemOp.read32Unsigned pa).answer u).setWidth 32)
  | .fld => ∃ u pa, [(u, .read64Unsigned pa)] <:+ log ∧
      s'.fpu = fprWrite .D s.fpu rd ((MemOp.read64Unsigned pa).answer u)
  | .flq => ∃ u pa walk v pb, (u, .read64Unsigned pa) :: (walk ++ [(v, .read64Unsigned pb)]) <:+ log ∧
      s'.fpu = fprWrite .Q s.fpu rd ((MemOp.read64Unsigned pb).answer v ++ (MemOp.read64Unsigned pa).answer u)

/-- the log ends in the register of an FP store -/
def FStoreOp.carries (s : Machine) (log : BusLog) (rs2 : Reg) : FStoreOp → Prop
  | .fsh => ∃ u pa, [(u, .write16 pa (fprRead .H s.fpu rs2))] <:+ log
  | .fsw => ∃ u pa, [(u, .write32 pa (fprRead .S s.fpu rs2))] <:+ log
  | .fsd => ∃ u pa, [(u, .write64 pa (fprRead .D s.fpu rs2))] <:+ log
  | .fsq => ∃ u pa walk v pb,
      let val := fprRead .Q s.fpu rs2
      (u, .write64 pa (val.setWidth 64)) :: (walk ++ [(v, .write64 pb ((val >>> 64).setWidth 64))]) <:+ log

/-- the log ends in the access of the instruction: a load's register takes the answer, a store gives the value of its own -/
def Access.carries (s s' : Machine) (log : BusLog) : Access → Prop
  | .load op _ _ rd => ∃ u pa, [(u, op.bus pa)] <:+ log ∧
      s'.gpr = writeGpr s.gpr rd (((op.bus pa).answer u).setWidth 32)
  | .store op _ rs2 _ => ∃ u pa, [(u, op.bus (regRead s rs2) pa)] <:+ log
  | .fload op _ _ rd => op.carries s s' log rd
  | .fstore op _ _ rs2 => op.carries s log rs2

/-- the same for LR, SC and AMO; the AMO walks again between its two accesses -/
def AInsn.carries (s s' : Machine) (log : BusLog) (rs1 rs2 rd : Reg) : AInsn → Prop
  | .lr => ∃ u pa, [(u, .read32Unsigned pa)] <:+ log ∧
      s'.gpr = writeGpr s.gpr rd (((MemOp.read32Unsigned pa).answer u).setWidth 32)
  | .sc => getReserveStatus s (regRead s rs1) = true → ∃ u pa, [(u, .write32 pa (regRead s rs2))] <:+ log
  | .amo o => ∃ u pa walk v pb,
      let old := ((MemOp.read32Unsigned pa).answer u).setWidth 32
      (u, .read32Unsigned pa) :: (walk ++ [(v, .write32 pb (o.apply old (regRead s rs2)))]) <:+ log ∧
        s'.gpr = writeGpr s.gpr rd old

/-- what the word executed in state s carries, where it takes no trap -/
structure Carries (s s' : Machine) (ins : Word) (log : BusLog) : Prop where
  access : ∀ a, madeAccess s ins = some a → a.carries s s' log
  atomic : ∀ a rs1 rs2 rd, toSwitch s ins → decode ins = .atomic a rs1 rs2 rd → a.carries s s' log rs1 rs2 rd

section
variable {s s' t : Machine} {log : BusLog}

/-- a longer log with the same end, and a state with the same registers -/
theorem Access.carries.extend {a : Access} (h : a.carries s s' log) (pre : BusLog) (hg : t.gpr = s'.gpr)
    (hf : t.fpu = s'.fpu) : a.carries s t (pre ++ log) := by
  have hlong : log <:+ pre ++ log := List.suffix_append pre log
  cases a with
  | load op imm rs1 rd =>
    obtain ⟨u, pa, hl, hr⟩ := h
    exact ⟨u, pa, hl.trans hlong, hg.trans hr⟩
  | store op imm rs2 rs1 =>
    obtain ⟨u, pa, hl⟩ := h
    exact ⟨u, pa, hl.trans hlong⟩
  | fload op imm rs1 rd =>
    cases op with
    | flq =>
      obtain ⟨u, pa, walk, v, pb, hl, hr⟩ := h
      exact ⟨u, pa, walk, v, pb, hl.trans hlong, hf.trans hr⟩
    | _ =>
      obtain ⟨u, pa, hl, hr⟩ := h
      exact ⟨u, pa, hl.trans hlong, hf.trans hr⟩
  | fstore op imm rs1 rs2 =>
    cases op with
    | fsq =>
      obtain ⟨u, pa, walk, v, pb, hl⟩ := h
      exact ⟨u, pa, walk, v, pb, hl.trans hlong⟩
    | _ =>
      obtain ⟨u, pa, hl⟩ := h
      exact ⟨u, pa, hl.trans hlong⟩

theorem AInsn.carries.extend {a : AInsn} {rs1 rs2 rd : Reg} (h : a.carries s s' log rs1 rs2 rd) (pre : BusLog)
    (hg : t.gpr = s'.gpr) : a.carries s t (pre ++ log) rs1 rs2 rd := by
  have hlong : log <:+ pre ++ log := List.suffix_append pre log
  cases a with
  | lr =>
    obtain ⟨u, pa, hl, hr⟩ := h
    exact ⟨u, pa, hl.trans hlong, hg.trans hr⟩
  | sc =>
    intro hres
    obtain ⟨u, pa, hl⟩ := h hres
    exact ⟨u, pa, hl.trans hlong⟩
  | amo o =>
    obtain ⟨u, pa, walk, v, pb, hl, hr⟩ := h
    exact ⟨u, pa, walk, v, pb, hl.trans hlong, hg.trans hr⟩

theorem Carries.extend {ins : Word} (h : Carries s s' ins log) (pre : BusLog) (hg : t.gpr = s'.gpr)
    (hf : t.fpu = s'.fpu) : Carries s t ins (pre ++ log) :=
  ⟨fun a ha => (h.access a ha).extend pre hg hf, fun a rs1 rs2 rd hs hd => (h.atomic a rs1 rs2 rd hs hd).extend pre hg⟩

end

section
variable {s : Machine} {vaddr : Word} {α : Type} (op : Word → MemOp)

/-- a read without a trap ends in the access it answers from -/
theorem mmuRead_carries [Zero α] (read : Machine → Word → α × Devices) (ht : (mmuRead read s vaddr).2.traps = s.traps) :
    ∃ d pa, [({ s with dev := d }, op pa)] <:+ accessLog s vaddr .load op ∧ mmuRead read s vaddr =
      ((read { s with dev := d } pa).1, { s with dev := (read { s with dev := d } pa).2 }) := by
  rw [accessLog]
  rcases hm : mmuWalk s vaddr .load with ⟨_ | pa, d⟩
  · rw [mmuRead_none hm] at ht
    simp at ht
  · exact ⟨d, pa, List.suffix_append _ _, mmuRead_some hm⟩

theorem mmuWrite_carries (write : Machine → Word → α → Machine) {val : α}
    (ht : (mmuWrite write s vaddr val).traps = s.traps) :
    ∃ d pa, [({ s with dev := d }, op pa)] <:+ accessLog s vaddr .store op ∧
      mmuWrite write s vaddr val = write { s with dev := d } pa val := by
  rw [accessLog]
  rcases hm : mmuWalk s vaddr .store with ⟨_ | pa, d⟩
  · rw [mmuWrite_none hm] at ht
    simp at ht
  · exact ⟨d, pa, List.suffix_append _ _, mmuWrite_some hm⟩

/-- of two logs that end in an access, the second begins with the walk -/
theorem suffix_two {log log' : BusLog} {x y : Machine × MemOp} (h : [x] <:+ log) (h' : [y] <:+ log') :
    ∃ walk, x :: (walk ++ [y]) <:+ log ++ log' := by
  obtain ⟨pre, rfl⟩ := h
  obtain ⟨walk, rfl⟩ := h'
  exact ⟨walk, pre, by simp⟩

end

section
variable {s s' : Machine} {imm : Word} {rs1 rs2 rd : Reg}

theorem LoadOp.exec_carries {op : LoadOp} (ht : (op.exec s imm rs1 rd).traps = s.traps) :
    Access.carries s (op.exec s imm rs1 rd) (Access.log s (.load op imm rs1 rd)) (.load op imm rs1 rd) := by
  rw [op.exec_eq] at ht ⊢
  rw [Access.log]
  rcases insiILoad_cases op.mask op.read s imm rs1 rd with
    ⟨-, h⟩ | ⟨-, -, h⟩ | ⟨-, -, d, -, h⟩ | ⟨hg, ha, pa, d, hw, h⟩
  · rw [h] at ht; simp at ht
  · rw [h] at ht; simp at ht
  · rw [h] at ht; simp at ht
  · rw [h, if_pos ⟨hg, ha⟩]
    refine ⟨{ s with dev := d }, pa, ?_, ?_⟩
    · rw [accessLog, hw]
      exact List.suffix_append _ _
    · rw [op.bus_answer]
      rfl

theorem insiSStore_carries {α : Type} (mask : Word) {write : Machine → Word → α → Machine} (trunc : Word → α)
    (op : Word → MemOp)
    (ht : (insiSStore mask (fun s a v => mmuWrite write s a (trunc v)) s imm rs2 rs1).traps = s.traps) :
    ∃ u pa, [(u, op pa)] <:+
      if sdtrigCheckStoreTrigger s (regRead s rs1 + imm) = none ∧ (regRead s rs1 + imm) &&& mask = 0 then
        accessLog s (regRead s rs1 + imm) .store op else [] := by
  rcases insiSStore_cases mask write trunc s imm rs2 rs1 with
    ⟨-, h⟩ | ⟨-, -, h⟩ | ⟨-, -, d, -, h⟩ | ⟨hg, ha, pa, d, hw, -⟩
  · rw [h] at ht; simp at ht
  · rw [h] at ht; simp at ht
  · rw [h] at ht; simp at ht
  · rw [if_pos ⟨hg, ha⟩, accessLog, hw]
    exact ⟨{ s with dev := d }, pa, List.suffix_append _ _⟩

theorem FLoadOp.exec_carries {op : FLoadOp} (ht : (op.exec s imm rs1 rd).traps = s.traps) :
    op.carries s (op.exec s imm rs1 rd) (Access.log s (.fload op imm rs1 rd)) rd := by
  cases op with
  | flh =>
    rw [FLoadOp.exec, insfFlh_eq] at ht ⊢
    obtain ⟨d, pa, hlog, hread⟩ := mmuRead_carries MemOp.read16Unsigned memRead16Unsigned ht
    refine ⟨{ s with dev := d }, pa, hlog, ?_⟩
    dsimp only
    rw [mmuRead16Unsigned, hread, MemOp.answer, BitVec.setWidth_setWidth_of_le _ (by decide)]
  | flw =>
    rw [FLoadOp.exec, insfFlw_eq] at ht ⊢
    obtain ⟨d, pa, hlog, hread⟩ := mmuRead_carries MemOp.read32Unsigned memRead32Unsigned ht
    refine ⟨{ s with dev := d }, pa, hlog, ?_⟩
    dsimp only
    rw [mmuRead32Unsigned, hread, MemOp.answer, BitVec.setWidth_setWidth_of_le _ (by decide), BitVec.setWidth_eq]
  | fld =>
    rw [FLoadOp.exec, insfFld_eq] at ht ⊢
    obtain ⟨d, pa, hlog, hread⟩ := mmuRead_carries MemOp.read64Unsigned memRead64Unsigned ht
    refine ⟨{ s with dev := d }, pa, hlog, ?_⟩
    dsimp only
    rw [mmuRead64Unsigned, hread, MemOp.answer]
  | flq =>
    rw [FLoadOp.exec, insfFlq_eq] at ht ⊢
    have hfirst : (mmuRead64Unsigned s (regRead s rs1 + imm)).2.traps = s.traps :=
      (mmuRead_pageFaults memRead64Unsigned s _).traps_between (mmuRead_pageFaults memRead64Unsigned _ _) ht
    obtain ⟨d, pa, hlog, hread⟩ := mmuRead_carries MemOp.read64Unsigned memRead64Unsigned hfirst
    obtain ⟨d', pb, hlog', hread'⟩ := mmuRead_carries MemOp.read64Unsigned memRead64Unsigned (ht.trans hfirst.symm)
    obtain ⟨walk, hend⟩ := suffix_two hlog hlog'
    refine ⟨{ s with dev := d }, pa, walk, { (mmuRead64Unsigned s (regRead s rs1 + imm)).2 with dev := d' }, pb, hend, ?_⟩
    have hlo := congrArg Prod.fst hread
    have hhi := congrArg Prod.fst hread'
    have hfpu := (congrArg (fun x => x.2.fpu) hread').trans (congrArg (fun x => x.2.fpu) hread)
    exact congrArg₂ (fprWrite .Q · rd) hfpu (congrArg₂ (· ++ ·) hhi hlo)

theorem FStoreOp.exec_carries {op : FStoreOp} (ht : (op.exec s imm rs1 rs2).traps = s.traps) :
    op.carries s (Access.log s (.fstore op imm rs1 rs2)) rs2 := by
  cases op with
  | fsh =>
    obtain ⟨d, pa, hlog, -⟩ := mmuWrite_carries (.write16 · (fprRead .H s.fpu rs2)) memWrite16 ht
    exact ⟨_, pa, hlog⟩
  | fsw =>
    obtain ⟨d, pa, hlog, -⟩ := mmuWrite_carries (.write32 · (fprRead .S s.fpu rs2)) memWrite32 ht
    exact ⟨_, pa, hlog⟩
  | fsd =>
    obtain ⟨d, pa, hlog, -⟩ := mmuWrite_carries (.write64 · (fprRead .D s.fpu rs2)) memWrite64 ht
    exact ⟨_, pa, hlog⟩
  | fsq =>
    have hfirst : (mmuWrite64 s (regRead s rs1 + imm) ((fprRead .Q s.fpu rs2).setWidth 64)).traps = s.traps :=
      (mmuWrite_pageFaults memWrite64_memStep s _ _).traps_between (mmuWrite_pageFaults memWrite64_memStep _ _ _) ht
    obtain ⟨d, pa, hlog, -⟩ := mmuWrite_carries (.write64 · ((fprRead .Q s.fpu rs2).setWidth 64)) memWrite64 hfirst
    obtain ⟨d', pb, hlog', -⟩ :=
      mmuWrite_carries (.write64 · ((fprRead .Q s.fpu rs2 >>> 64).setWidth 64)) memWrite64 (ht.trans hfirst.symm)
    obtain ⟨walk, hend⟩ := suffix_two hlog hlog'
    exact ⟨_, pa, walk, _, pb, hend⟩

theorem Access.exec_carries {a : Access} (ht : (a.exec s).traps = s.traps) : a.carries s (a.exec s) (a.log s) := by
  cases a with
  | load op imm rs1 rd => exact LoadOp.exec_carries ht
  | store op imm rs2 rs1 =>
    cases op with
    | sb => exact insiSStore_carries 0 (fun v => (v &&& 0xFF).setWidth 8) _ ht
    | sh => exact insiSStore_carries 1 (fun v => (v &&& 0xFFFF).setWidth 16) _ ht
    | sw => exact insiSStore_carries 3 id _ ht
  | fload op imm rs1 rd => exact FLoadOp.exec_carries ht
  | fstore op imm rs1 rs2 => exact FStoreOp.exec_carries ht

theorem AInsn.exec_carries {a : AInsn} (h : a.exec s rs1 rs2 rd = .ok s') (ht : s'.traps = s.traps) :
    a.carries s s' (a.log s rs1 rs2) rs1 rs2 rd := by
  cases a with
  | lr =>
    simp only [AInsn.exec, insaRLrW] at h
    split_ifs at h
    obtain rfl := Except.ok.inj h
    obtain ⟨d, pa, hlog, hread⟩ := mmuRead_carries MemOp.read32Unsigned memRead32Unsigned ht
    refine ⟨_, pa, hlog, ?_⟩
    rw [MemOp.answer, BitVec.setWidth_setWidth_of_le _ (by decide), BitVec.setWidth_eq]
    change writeGpr (mmuRead32Unsigned s (regRead s rs1)).2.gpr rd (mmuRead32Unsigned s (regRead s rs1)).1 = _
    rw [mmuRead32Unsigned, hread]
  | sc =>
    intro hres
    simp only [AInsn.exec, insaRScW] at h
    rw [AInsn.log, if_pos hres]
    split_ifs at h
    obtain rfl := Except.ok.inj h
    have hclear := clearReserveStatus_kept (regWrite (mmuWrite32 s (regRead s rs1) (regRead s rs2)) rd 0) (regRead s rs1)
    obtain ⟨d, pa, hlog, -⟩ := mmuWrite_carries (.write32 · (regRead s rs2)) memWrite32 (hclear.traps.symm.trans ht)
    exact ⟨_, pa, hlog⟩
  | amo o =>
    obtain ⟨msg, he⟩ := o.exec_eq s rs1 rs2 rd
    rw [AInsn.exec, he] at h
    simp only [insaRAmo] at h
    split_ifs at h
    obtain rfl := Except.ok.inj h
    have hfirst : (mmuRead32Unsigned s (regRead s rs1)).2.traps = s.traps :=
      (mmuRead_pageFaults memRead32Unsigned s _).traps_between (mmuWrite_pageFaults memWrite32_memStep _ _ _) ht
    obtain ⟨d, pa, hlog, hread⟩ := mmuRead_carries MemOp.read32Unsigned memRead32Unsigned hfirst
    obtain ⟨d', pb, hlog', hwrite⟩ := mmuWrite_carries
      (.write32 · (o.apply (mmuRead32Unsigned s (regRead s rs1)).1 (regRead s rs2))) memWrite32 (ht.trans hfirst.symm)
    have hold : (mmuRead32Unsigned s (regRead s rs1)).1 =
        ((MemOp.read32Unsigned pa).answer { s with dev := d }).setWidth 32 := by
      rw [mmuRead32Unsigned, hread, MemOp.answer, BitVec.setWidth_setWidth_of_le _ (by decide), BitVec.setWidth_eq]
    obtain ⟨walk, hend⟩ := suffix_two hlog hlog'
    refine ⟨{ s with dev := d }, pa, walk, { (mmuRead32Unsigned s (regRead s rs1)).2 with dev := d' }, pb, ?_, ?_⟩
    · rw [← hold]
      exact hend
    · -- the write keeps the registers, and so did the read
      obtain ⟨mem, flags, dev, hstep⟩ := memWrite32_memStep { (mmuRead32Unsigned s (regRead s rs1)).2 with dev := d' } pb
        (o.apply (mmuRead32Unsigned s (regRead s rs1)).1 (regRead s rs2))
      rw [← hold, mmuWrite32, hwrite, hstep, mmuRead32Unsigned, hread]
      rfl

end

section
variable [SoftFloat] {s s' : Machine} {ins : Word}

/-- a leaf that makes a load or store is that load or store -/
theorem Insn.access_run {i : Insn} {a : Access} (ha : i.access s = some a) (h : i.run s ins = .ok s') :
    s' = a.exec s ∧ i.log s = a.log s := by
  cases i with
  | load op imm rs1 rd =>
    obtain rfl := Option.some.inj ha
    exact ⟨(Except.ok.inj h).symm, rfl⟩
  | store op imm rs2 rs1 =>
    obtain rfl := Option.some.inj ha
    exact ⟨(Except.ok.inj h).symm, rfl⟩
  | fp i =>
    simp only [Insn.run] at h
    cases i with
    | load op imm rs1 rd =>
      rw [Insn.access] at ha
      split_ifs at h ha with hfs
      obtain rfl := Option.some.inj ha
      exact ⟨(Except.ok.inj h).symm, by simp [Insn.log, Insn.access, hfs]⟩
    | store op imm rs1 rs2 =>
      rw [Insn.access] at ha
      split_ifs at h ha with hfs
      obtain rfl := Option.some.inj ha
      exact ⟨(Except.ok.inj h).symm, by simp [Insn.log, Insn.access, hfs]⟩
    | _ => cases ha
  | _ => cases ha

/-- **One instruction without a trap**: its data is what the last access of its log answers or writes. -/
theorem exec_carries (h : exec s ins = .ok s') (ht : s'.traps = s.traps) : Carries s s' ins (execLog s ins) := by
  obtain ⟨ha, rfl⟩ | ⟨ha, hc, rfl⟩ | ⟨⟨ha, hc⟩, hrun⟩ := exec_cases h
  · simp at ht
  · refine ⟨?_, fun a rs1 rs2 rd hs => absurd hc hs.2⟩
    intro a hm
    rw [madeAccess, if_neg (by simp [ha]), if_pos hc] at hm
    rw [execLog, if_neg (by simp [ha]), if_pos hc, hm]
    obtain ⟨pc, hpc⟩ := cAccess_pc s a.exec
    rw [execCInsn_op hm, hpc] at ht ⊢
    exact (Access.exec_carries (a := a) (s := s) ht).extend [] rfl rfl
  · have hlog : execLog s ins = (decode ins).log s := by rw [execLog, if_neg (by simp [ha]), if_neg hc]
    rw [hlog]
    refine ⟨?_, ?_⟩
    · intro a hm
      rw [madeAccess, if_neg (by simp [ha]), if_neg hc] at hm
      obtain ⟨rfl, hl⟩ := Insn.access_run hm hrun
      rw [hl]
      exact Access.exec_carries ht
    · intro a rs1 rs2 rd _ hd
      rw [hd] at hrun ⊢
      exact AInsn.exec_carries hrun ht

end

/-! ## Iterations -/

theorem checkAndHandleInterrupts_dev (s : Machine) : (checkAndHandleInterrupts s).dev = s.dev := by
  rcases checkAndHandleInterrupts_cases s with h | ⟨irq, h⟩
  · rw [h]
  · rw [h, raiseInterrupt_eq]
    rfl

theorem fetchState_dev (host : HostInput) (r : Run) :
    (fetchState host r).dev = host.bytes.foldl uartReceive r.state.dev :=
  congrArg (host.bytes.foldl uartReceive) (checkAndHandleInterrupts_dev r.state)

theorem finish_dev (r : Run) (fetchPc : Word) (s : Machine) :
    (finish r fetchPc s).state.dev = uartTick { s.dev with clint := clintTick s.dev.clint } := by
  have htick : (tick { s with pc := s.pc + 4 }).dev = uartTick { s.dev with clint := clintTick s.dev.clint } := by
    simp only [tick]
    split_ifs <;> rfl
  have hspin : ∀ (t : Machine) (d : SpinDetector), (spinDetect t d fetchPc).1.dev = t.dev := by
    intro t d
    simp only [spinDetect]
    split_ifs <;> rfl
  exact (hspin _ _).trans htick

section
variable [SoftFloat] {r r' : Run} {host : HostInput}

/-- an iteration seen from the bus: the bytes of its poll, the accesses of its log, one tick of each clock; and where the
instruction takes no trap, its data is that of its access -/
structure Serves (r : Run) (host : HostInput) (r' : Run) : Prop where
  devices : ∃ d, Leads (host.bytes.foldl uartReceive r.state.dev) (iterationLog host r) d ∧
    r'.state.dev = if host.quit then d else uartTick { d with clint := clintTick d.clint }
  data : ∀ t ins, Executes host r t ins → ∃ s, exec t ins = .ok s ∧ r' = finish r (fetchState host r).pc s ∧
    (s.traps = t.traps → Carries t s ins (iterationLog host r))

theorem iteration_serves (h : iteration host r = .ok r') : Serves r host r' := by
  rcases iteration_cases h with ⟨hq, hr⟩ | ⟨hq, s, he, rfl⟩
  · refine ⟨⟨host.bytes.foldl uartReceive r.state.dev, ?_, ?_⟩, ?_⟩
    · rw [iterationLog, if_pos hq]
      exact .refl _
    · rw [if_pos hq, hr]
      exact fetchState_dev host r
    · intro t ins hx
      exact absurd hx.1 (by simp [hq])
  · have hlog : iterationLog host r = fetchExecLog (fetchState host r) := by rw [iterationLog, hq]; rfl
    refine ⟨⟨s.dev, ?_, ?_⟩, ?_⟩
    · rw [← fetchState_dev, hlog]
      exact fetchExec_leads he
    · rw [finish_dev, hq]
      rfl
    · intro t ins hx
      obtain ⟨hm, hg⟩ := hx.2
      have hexec : exec t ins = .ok s := by
        rw [fetchExec, hm] at he
        simpa [sdtrigCheckFetchTrigger, sdtrigCheck, hg] using he
      have hsplit : fetchExecLog (fetchState host r) =
          accessLog (fetchState host r) (fetchState host r).pc .fetch .read32Unsigned ++ execLog t ins := by
        rw [fetchExecLog, hm]
        dsimp only
        rw [hg, if_neg Bool.false_ne_true]
      rw [hlog, hsplit]
      exact ⟨s, hexec, rfl, fun ht => (exec_carries hexec ht).extend _ rfl rfl⟩

end

end RiscvEmu
