/-
exec on the RV32I encodings, against the architecture's own step.

The architecture sees the registers, pc and memory (`isaState`). A hart in M-mode whose data accesses reach main memory
directly is to make of them what `Rv32i.step` does, and to touch nothing else but the reservation of a stored word.
Results:
- `misa_runInit`: misa keeps its reset value, so IALIGN is 16 in every state of a run;
- `ROp.exec_ofIsa`, .., `insiLoad_ram`, `insiStore_ram`: each family of routines is the operation of the architecture;
- `exec_refines_isa`: executing an encoded instruction and advancing pc is one step of the architecture.
-/
import RiscvEmu.Encoding
import RiscvEmu.Modes
import RiscvEmu.Reservation

namespace RiscvEmu

open Bytes Runs

/-! ## misa -/

/-- misa has no writer -/
theorem csrTable_misa (csr : Csr) : (csrTable csr).writeCallback ≠ some (.setValue csrMisa) := by
  unfold csrTable
  split
  all_goals try simp [CsrOperation.full, CsrOperation.stored, CsrOperation.readOnly, CsrOperation.plain]
  split_ifs <;> simp [CsrOperation.unused]

theorem csr_misa_csrWrite (s : Machine) (csr : Csr) (val : Word) : (csrWrite s csr val).csr csrMisa = s.csr csrMisa := by
  by_cases hm : csr = csrMisa
  · subst hm
    rfl
  have hw := csrTable_writesOnly csr
  have hv := csrTable_misa csr
  have hset : ∀ c : Csr, c ≠ csrMisa → ∀ x, (setCsr s c x).csr csrMisa = s.csr csrMisa :=
    fun c hc x => Function.update_of_ne (Ne.symm hc) _ _
  unfold csrWrite
  split_ifs
  · cases hcb : (csrTable csr).writeCallback with
    | none => exact hset csr hm _
    | some f =>
      rw [hcb] at hv
      cases f with
      | setValue c => exact hset c (fun hc => hv (by rw [hc])) _
      | mstatusWrite => exact hset csrMstatus (by decide) _
      | sstatusWrite => exact hset csrMstatus (by decide) _
      | setSie => exact hset csrMie (by decide) _
      | setSip => exact hset csrMip (by decide) _
      | setFcsr => simp only [WriteCallback.run, setFcsr]; split_ifs <;> rfl
      | setFrm => simp only [WriteCallback.run, setFrm]; split_ifs <;> rfl
      | _ => rfl
  · rfl

/-- misa has its reset value -/
def resetMisa (s : Machine) : Prop := s.csr csrMisa = (csrTable csrMisa).value

section
variable {s s' : Machine}

theorem resetMisa.quiet (h : resetMisa s) (hq : Quiet s s') : resetMisa s' := by
  unfold resetMisa
  rw [hq.csr]
  exact h

theorem resetMisa.trapEntry (h : resetMisa s) (cause tval epc deleg irq pc : Word) :
    resetMisa (trapEntry s cause tval epc deleg irq pc) := by
  have hk : keptByTrap csrMisa := by decide
  exact (trapCsr_kept s _ cause tval epc hk).trans h

theorem resetMisa.exception (h : resetMisa s) (cause tval epc : Word) : resetMisa (raiseExceptionPc s cause tval epc) := by
  rw [raiseExceptionPc_eq]
  exact h.trapEntry ..

theorem resetMisa.entries (h : resetMisa s) (he : Entries s s') : resetMisa s' := by
  refine he.invariant (fun _ _ h hq => h.quiet hq) (fun _ cause tval epc h => h.exception cause tval epc) ?_ h
  intro s irq h
  rw [raiseInterrupt_eq]
  exact h.trapEntry ..

theorem resetMisa.csrWrite (h : resetMisa s) (csr : Csr) (val : Word) : resetMisa (csrWrite s csr val) :=
  (csr_misa_csrWrite s csr val).trans h

theorem resetMisa.zicsr (h : resetMisa s) (op : CsrOp) (rs1 rd : Reg) (csr : Csr) (ins : Word) :
    resetMisa (op.exec s rs1 rd csr ins) := by
  have hcheck : resetMisa (checkCsrAccess s csr ins) := by
    unfold checkCsrAccess
    split_ifs
    · exact h.exception _ _ _
    · exact h
  refine resetMisa.quiet ?_ (op.exec_kept s rs1 rd csr ins).quiet
  unfold csrAfterWrite
  cases op.newVal rs1 (checkCsrAccess s csr ins) (csrRead (checkCsrAccess s csr ins) csr) with
  | none => exact hcheck
  | some val => exact hcheck.csrWrite csr val

theorem resetMisa.mret (h : resetMisa s) : resetMisa (insMret s) := h

theorem resetMisa.sret (h : resetMisa s) : resetMisa (insSret s) := by
  unfold insSret
  split_ifs
  · exact h.exception _ _ _
  · have hw := h.csrWrite csrSstatus (sstatusOnReturn (csrRead s csrSstatus))
    exact hw

theorem resetMisa.compressed (h : resetMisa s) : misaCEnabled s = true := by
  unfold misaCEnabled
  rw [h]
  decide

variable [SoftFloat] {ins : Word}

theorem resetMisa.run (h : resetMisa s) (hr : (decode ins).run s ins = .ok s')
    (hc : (decode ins).changesMode = true) : resetMisa s' := by
  cases hd : decode ins with
  | zicsr op rs1 rd csr =>
    rw [hd] at hr
    obtain rfl := Except.ok.inj hr
    exact h.zicsr op rs1 rd csr ins
  | sret =>
    rw [hd] at hr
    obtain rfl := Except.ok.inj hr
    exact h.sret
  | mret =>
    rw [hd] at hr
    obtain rfl := Except.ok.inj hr
    exact h.mret
  | mnret =>
    rw [hd] at hr
    obtain rfl := Except.ok.inj hr
    exact h.mret
  | _ => rw [hd] at hc; cases hc

theorem resetMisa.iteration {host : HostInput} {r r' : Run} (h : resetMisa r.state)
    (hi : iteration host r = .ok r') : resetMisa r'.state := by
  rcases iteration_modes hi with ⟨-, he⟩ | ⟨t, ins, u, he, -, -, hc, hr, hq⟩
  · exact h.entries he
  · exact ((h.entries he).run hr hc).quiet hq

/-- **misa over runs from reset**, also in the state an instruction is executed in. -/
theorem misa_runInit {gpr : Reg → Word} {mainMemory : Word → Byte} {programBase : Word} {active : Bool}
    {p : List (Run × HostInput)} {r : Run} (hp : Path loopStep (runInit gpr mainMemory programBase active) p r) :
    resetMisa r.state ∧ ∀ host t ins, Executes host r t ins → resetMisa t := by
  have hr : resetMisa r.state := by
    have hinit : resetMisa (runInit gpr mainMemory programBase active).state := rfl
    have hstep : ∀ (r : Run) host r', resetMisa r.state → True → loopStep r host r' → resetMisa r'.state :=
      fun r host r' h _ hstep => h.iteration hstep.2
    exact Path.invariant (I := fun r => resetMisa r.state) hstep hp hinit fun _ _ => trivial
  refine ⟨hr, ?_⟩
  intro host t ins hx
  obtain ⟨d, rfl⟩ := mmuFetchOk_dev hx.2.1
  have hf : resetMisa (fetchState host r) := hr.entries (fetchState_entries host r)
  exact hf

end

/-! ## The architecture's view -/

def isaState (s : Machine) : Rv32i.State where
  regs := regRead s
  zero := if_pos rfl
  pc := s.pc
  mem := s.mainMemory

section
variable (s : Machine)

theorem isaState_regWrite (rd : Reg) (v : Word) : isaState (regWrite s rd v) = (isaState s).write rd v := by
  refine Rv32i.State.ext ?_ rfl rfl
  funext x
  change regRead (regWrite s rd v) x = (if rd = 0 then regRead s else Function.update (regRead s) rd v) x
  unfold regRead
  by_cases hd : rd = 0
  · simp only [regWrite, writeGpr, hd, if_true]
  · simp only [regWrite, writeGpr, hd, if_false]
    by_cases hx : x = rd
    · subst hx
      rw [if_neg hd, Function.update_self, Function.update_self]
    · rw [Function.update_of_ne hx, Function.update_of_ne hx]

theorem isaState_setPc (pc : Word) : isaState { s with pc := pc } = (isaState s).jump pc := rfl

theorem pcForward_pcBackward : pcForward (pcBackward s) = s := by
  simp only [pcForward, pcBackward, BitVec.sub_add_cancel]

/-! ## Values -/

theorem low5 (v : Word) : (v &&& 0x1F).toNat = v.toNat % 32 := Bits.toNat_and_mask (k := 5) v _ rfl

/-- the operations on two registers -/
theorem ROp.exec_ofIsa (o : Rv32i.AluOp) (rs2 rs1 rd : Reg) :
    ROp.exec s rs2 rs1 rd (.ofIsa o) = regWrite s rd (o.eval (regRead s rs1) (regRead s rs2)) := by
  cases o with
  | sll => exact congrArg (fun n => regWrite s rd (regRead s rs1 <<< n)) (low5 _)
  | srl => exact congrArg (fun n => regWrite s rd (regRead s rs1 >>> n)) (low5 _)
  | sra => exact congrArg (fun n => regWrite s rd ((regRead s rs1).sshiftRight n)) (low5 _)
  | slt => simp [ROp.ofIsa, ROp.exec, insiRSlt, aluR, Rv32i.AluOp.eval, BitVec.slt]
  | _ => rfl

/-- the operations on a register and an immediate -/
theorem IOp.exec_ofImmOp (o : Rv32i.ImmOp) (imm : Word) (rs1 rd : Reg) :
    IOp.exec s imm rs1 rd (.ofImmOp o) = regWrite s rd (o.alu.eval (regRead s rs1) imm) := by
  cases o with
  | slti => simp [IOp.ofImmOp, IOp.exec, insiISlti, aluI, Rv32i.ImmOp.alu, Rv32i.AluOp.eval, BitVec.slt]
  | _ => rfl

theorem IOp.exec_ofShiftOp (o : Rv32i.ShiftOp) (imm : Word) (rs1 rd : Reg) :
    IOp.exec s imm rs1 rd (.ofShiftOp o) = regWrite s rd (o.alu.eval (regRead s rs1) imm) := by
  cases o with
  | slli => exact congrArg (fun n => regWrite s rd (regRead s rs1 <<< n)) (low5 _)
  | srli => exact congrArg (fun n => regWrite s rd (regRead s rs1 >>> n)) (low5 _)
  | srai => exact congrArg (fun n => regWrite s rd ((regRead s rs1).sshiftRight n)) (low5 _)

theorem BranchOp.exec_ofIsa (c : Rv32i.Cond) (imm : Word) (rs2 rs1 : Reg) :
    BranchOp.exec s imm rs2 rs1 (.ofIsa c) = insiBranch (fun a b => c.holds a b) s imm rs2 rs1 := by
  cases c <;> rfl

end

/-! ## Accesses to main memory -/

/-- addr is a byte of main memory -/
def isRam (addr : Word) : Prop := ¬ inClint addr ∧ ¬ inUart addr ∧ ¬ inPlic addr ∧ addr.toNat < memSize

instance (addr : Word) : Decidable (isRam addr) := by unfold isRam; infer_instance

/-- a naturally aligned access to n bytes of main memory -/
def ramAccess (addr : Word) (n : ℕ) : Prop := addr.toNat % n = 0 ∧ ∀ k < n, isRam (addr + BitVec.ofNat 32 k)

instance (addr : Word) (n : ℕ) : Decidable (ramAccess addr n) := by unfold ramAccess; infer_instance

section
variable {addr : Word} {n : ℕ}

theorem ramAccess.isRam (h : ramAccess addr n) (hn : 0 < n) : isRam addr := by
  have h0 := h.2 0 hn
  rwa [BitVec.add_zero] at h0

/-- an aligned access does not wrap round, so it ends where main memory does at the latest -/
theorem ramAccess.fits (hn : n = 1 ∨ n = 2 ∨ n = 4) (h : ramAccess addr n) : addr.toNat + n ≤ memSize := by
  have hpos : 0 < n := by omega
  have hlast := (h.2 (n - 1) (by omega)).2.2.2
  have halign := h.1
  have hlt := addr.isLt
  have hsize : memSize = 4294963200 := rfl
  rw [BitVec.toNat_add, BitVec.toNat_ofNat] at hlast
  rcases hn with rfl | rfl | rfl <;> omega

end

section
variable {s : Machine} {addr : Word}

theorem LoadOp.mask_ofIsa {o : Rv32i.LoadOp} (h : ramAccess addr o.width) : addr &&& (LoadOp.ofIsa o).mask = 0 := by
  apply BitVec.eq_of_toNat_eq
  cases o with
  | lb | lbu => exact (Bits.toNat_and_mask (k := 0) addr 0 rfl).trans h.1
  | lh | lhu => exact (Bits.toNat_and_mask (k := 1) addr 1 rfl).trans h.1
  | lw => exact (Bits.toNat_and_mask (k := 2) addr 3 rfl).trans h.1

theorem StoreOp.mask_ofIsa {o : Rv32i.StoreOp} (h : ramAccess addr o.width) : addr &&& (StoreOp.ofIsa o).mask = 0 := by
  apply BitVec.eq_of_toNat_eq
  cases o with
  | sb => exact (Bits.toNat_and_mask (k := 0) addr 0 rfl).trans h.1
  | sh => exact (Bits.toNat_and_mask (k := 1) addr 1 rfl).trans h.1
  | sw => exact (Bits.toNat_and_mask (k := 2) addr 3 rfl).trans h.1

/-- the window of the byte accesses lies in the PLIC -/
theorem not_inPlic8 (h : ¬ inPlic addr) : ¬ inPlic8 addr := by
  intro h8
  exact h ⟨h8.1, BitVec.lt_trans h8.2 (by decide)⟩

theorem LoadOp.read_ofIsa {o : Rv32i.LoadOp} (h : ramAccess addr o.width) :
    LoadOp.read (.ofIsa o) s addr = (o.read s.mainMemory addr, s.dev) := by
  have hpos : 0 < o.width := by cases o <;> decide
  have hwidth : o.width = 1 ∨ o.width = 2 ∨ o.width = 4 := by cases o <;> decide
  have hfit := h.fits hwidth
  obtain ⟨hc, hu, hp, -⟩ := h.isRam hpos
  cases o with
  | lb =>
    have hfit : addr.toNat + 1 ≤ memSize := hfit
    change memRead8Signed s addr = _
    rw [memRead8Signed, if_neg hc, if_neg hu, if_neg (by omega)]
    rfl
  | lbu =>
    have hfit : addr.toNat + 1 ≤ memSize := hfit
    change memRead8Unsigned s addr = _
    rw [memRead8Unsigned, if_neg hc, if_neg hu, if_neg (not_inPlic8 hp), if_neg (by omega)]
    rfl
  | lh =>
    have hfit : addr.toNat + 2 ≤ memSize := hfit
    change memRead16Signed s addr = _
    rw [memRead16Signed, memRead16Unsigned, if_neg hc, if_neg (by omega)]
    exact Prod.ext (congrArg (BitVec.signExtend 32) (BitVec.setWidth_setWidth_of_le _ (by decide))) rfl
  | lhu =>
    have hfit : addr.toNat + 2 ≤ memSize := hfit
    change memRead16Unsigned s addr = _
    rw [memRead16Unsigned, if_neg hc, if_neg (by omega)]
    rfl
  | lw =>
    have hfit : addr.toNat + 4 ≤ memSize := hfit
    change memRead32Signed s addr = _
    rw [memRead32Signed, memRead32Unsigned, if_neg hc, if_neg hu, if_neg hp, if_neg (by omega)]
    rfl

end

/-! ## The hart -/

/-- M-mode, with data accesses neither translated nor watched, and 16-bit alignment of instructions -/
structure PlainHart (s : Machine) : Prop where
  machine : s.privilege = prvMachine
  mprv : s.csr csrMstatus &&& mstatusMprv = 0
  /-- no trigger answers to a load or to a store -/
  triggers : ∀ addr, triggerFires s addr sdtrigLoad = false ∧ triggerFires s addr sdtrigStore = false
  misa : resetMisa s
  even : s.pc &&& 1 = 0

section
variable {s : Machine}

theorem PlainHart.walk (h : PlainHart s) (addr : Word) (access : MmuAccess) :
    mmuWalk s addr access = (some addr, s.dev) := by
  have hpriv : mmuEffectiveDpriv s = prvMachine := by
    have hm : ¬ csrRead s csrMstatus &&& mstatusMprv ≠ 0 := not_not.2 h.mprv
    exact (if_neg hm).trans h.machine
  have heff : effectivePriv s access = prvMachine := by
    rw [effectivePriv, hpriv, h.machine, ite_self]
  have hvm : mmuVmActive s (effectivePriv s access) = false := by
    rw [mmuVmActive, if_pos heff]
  simp only [mmuWalk, hvm, Bool.false_eq_true, not_false_eq_true, if_true]

theorem PlainHart.loadTrigger (h : PlainHart s) (addr : Word) : sdtrigCheckLoadTrigger s addr = none := by
  rw [sdtrigCheckLoadTrigger, sdtrigCheck, (h.triggers addr).1]
  rfl

theorem PlainHart.storeTrigger (h : PlainHart s) (addr : Word) : sdtrigCheckStoreTrigger s addr = none := by
  rw [sdtrigCheckStoreTrigger, sdtrigCheck, (h.triggers addr).2]
  rfl

theorem PlainHart.aligned (h : PlainHart s) : fetchAligned s = true := by
  rw [fetchAligned, h.misa.compressed, if_pos rfl]
  exact decide_eq_true h.even

/-- a load from main memory -/
theorem LoadOp.exec_ofIsa (h : PlainHart s) (o : Rv32i.LoadOp) (imm : Word) (rs1 rd : Reg)
    (ha : ramAccess (regRead s rs1 + imm) o.width) :
    LoadOp.exec s imm rs1 rd (.ofIsa o) = regWrite s rd (o.read s.mainMemory (regRead s rs1 + imm)) := by
  rw [LoadOp.exec_eq]
  rcases insiILoad_cases (LoadOp.ofIsa o).mask (LoadOp.ofIsa o).read s imm rs1 rd with
    ⟨ht, -⟩ | ⟨-, hm, -⟩ | ⟨-, -, d, hw, -⟩ | ⟨-, -, pa, d, hw, he⟩
  · exact absurd (h.loadTrigger _) ht
  · exact absurd (LoadOp.mask_ofIsa ha) hm
  · rw [h.walk] at hw
    cases hw
  · rw [h.walk] at hw
    cases hw
    rw [he, LoadOp.read_ofIsa ha]

theorem insiSStore_plain {α : Type} (h : PlainHart s) {mask : Word} (write : Machine → Word → α → Machine)
    (trunc : Word → α) (imm : Word) (rs2 rs1 : Reg) (ha : (regRead s rs1 + imm) &&& mask = 0) :
    insiSStore mask (fun s a v => mmuWrite write s a (trunc v)) s imm rs2 rs1 =
      write s (regRead s rs1 + imm) (trunc (regRead s rs2)) := by
  rcases insiSStore_cases mask write trunc s imm rs2 rs1 with
    ⟨ht, -⟩ | ⟨-, hm, -⟩ | ⟨-, -, d, hw, -⟩ | ⟨-, -, pa, d, hw, he⟩
  · exact absurd (h.storeTrigger _) ht
  · exact absurd ha hm
  · rw [h.walk] at hw
    cases hw
  · rw [h.walk] at hw
    cases hw
    exact he

/-- main memory takes a store, and the reservation of its word goes -/
theorem StoreOp.exec_ofIsa (h : PlainHart s) (o : Rv32i.StoreOp) (imm : Word) (rs2 rs1 : Reg)
    (ha : ramAccess (regRead s rs1 + imm) o.width) :
    StoreOp.exec s imm rs2 rs1 (.ofIsa o) =
      { memClearReservation s (regRead s rs1 + imm) with
        mainMemory := o.write s.mainMemory (regRead s rs1 + imm) (regRead s rs2) } := by
  have hmask := StoreOp.mask_ofIsa ha
  have hpos : 0 < o.width := by cases o <;> decide
  have hwidth : o.width = 1 ∨ o.width = 2 ∨ o.width = 4 := by cases o <;> decide
  have hfit := ha.fits hwidth
  obtain ⟨hc, hu, hp, -⟩ := ha.isRam hpos
  cases o with
  | sb =>
    have hfit : (regRead s rs1 + imm).toNat + 1 ≤ memSize := hfit
    have hval : (regRead s rs2 &&& 0xFF).setWidth 8 = (regRead s rs2).setWidth 8 := by
      rw [BitVec.setWidth_and]
      exact BitVec.and_allOnes
    refine (insiSStore_plain h memWrite8 (fun v => (v &&& 0xFF).setWidth 8) imm rs2 rs1 hmask).trans ?_
    rw [memWrite8, if_neg hc, if_neg hu, if_neg (not_inPlic8 hp), if_neg (by omega), hval,
      memClearReservation_mainMemory]
    rfl
  | sh =>
    have hfit : (regRead s rs1 + imm).toNat + 2 ≤ memSize := hfit
    have hval : (regRead s rs2 &&& 0xFFFF).setWidth 16 = (regRead s rs2).setWidth 16 := by
      rw [BitVec.setWidth_and]
      exact BitVec.and_allOnes
    refine (insiSStore_plain h memWrite16 (fun v => (v &&& 0xFFFF).setWidth 16) imm rs2 rs1 hmask).trans ?_
    rw [memWrite16, if_neg hc, if_neg (by omega), hval, memClearReservation_mainMemory]
    rfl
  | sw =>
    have hfit : (regRead s rs1 + imm).toNat + 4 ≤ memSize := hfit
    refine (insiSStore_plain h memWrite32 id imm rs2 rs1 hmask).trans ?_
    rw [memWrite32, if_neg hc, if_neg hu, if_neg hp, if_neg (by omega), memClearReservation_mainMemory]
    rfl

end

/-! ## Refinement -/

/-- the registers but x0, pc and memory change at most, and a store may drop a reservation -/
structure OnlyIsaState (i : Rv32i.Instr) (s t : Machine) : Prop where
  eq : t = { s with gpr := t.gpr, pc := t.pc, mainMemory := t.mainMemory, mmuFlags := t.mmuFlags }
  x0 : t.gpr 0 = s.gpr 0
  reservations : t.mmuFlags = s.mmuFlags ∨ i.isStore = true ∧ ∃ key, t.mmuFlags = s.mmuFlags.remove key

/-- the access of a load or store is aligned and in main memory -/
def accessesRam (s : Machine) (i : Rv32i.Instr) : Prop :=
  ∀ addr n, i.access (isaState s) = some (addr, n) → ramAccess addr n

/-- t is s after the instruction, in the view of the architecture and outside of it -/
structure Refines (i : Rv32i.Instr) (s t : Machine) : Prop where
  step : isaState t = Rv32i.step (isaState s) i
  frame : OnlyIsaState i s t

theorem writeGpr_zero (gpr : Reg → Word) (rd : Reg) (v : Word) : writeGpr gpr rd v 0 = gpr 0 := by
  unfold writeGpr
  split_ifs with h
  · rfl
  · exact Function.update_of_ne (Ne.symm h) _ _

section
variable {s : Machine} {i : Rv32i.Instr} {rd : Reg} {v target : Word}

theorem Refines.ofWrite (h : Rv32i.step (isaState s) i = ((isaState s).write rd v).jump (s.pc + 4)) :
    Refines i s (pcForward (regWrite s rd v)) := by
  refine ⟨?_, rfl, writeGpr_zero _ _ _, Or.inl rfl⟩
  rw [h, ← isaState_regWrite]
  rfl

theorem Refines.ofJump (h : Rv32i.step (isaState s) i = ((isaState s).write rd v).jump target) :
    Refines i s (pcForward (pcBackward { regWrite s rd v with pc := target })) := by
  rw [pcForward_pcBackward]
  refine ⟨?_, rfl, writeGpr_zero _ _ _, Or.inl rfl⟩
  rw [h, ← isaState_regWrite]
  rfl

theorem Refines.ofPc (h : Rv32i.step (isaState s) i = (isaState s).jump target) :
    Refines i s { s with pc := target } :=
  ⟨h.symm, rfl, rfl, Or.inl rfl⟩

theorem PlainHart.target_even (h : PlainHart s) (offset : BitVec n) :
    (s.pc + (offset ++ 0#1).signExtend 32) &&& 1 = 0 :=
  Bits.even_add h.even (Bits.even_signExtend offset)

theorem insiJJal_refines (h : PlainHart s) (offset : BitVec 20) :
    Refines (.jal rd offset) s (pcForward (insiJJal s ((offset ++ 0#1).signExtend 32) rd)) := by
  rw [insiJJal, raiseIfMisalignedFetch_none h.misa.compressed (h.target_even offset)]
  exact .ofJump (i := .jal rd offset) (v := s.pc + 4) rfl

theorem insiIJalr_refines (h : PlainHart s) (rs1 : Reg) (imm : BitVec 12) :
    Refines (.jalr rd rs1 imm) s (pcForward (insiIJalr s (imm.signExtend 32) rs1 rd)) := by
  have heven : (regRead s rs1 + imm.signExtend 32) &&& ~~~1 &&& 1 = 0 := by
    rw [BitVec.and_assoc, BitVec.and_comm (~~~1), BitVec.and_not_self]
    exact BitVec.and_zero
  rw [insiIJalr, raiseIfMisalignedFetch_none h.misa.compressed heven]
  exact .ofJump (i := .jalr rd rs1 imm) (v := s.pc + 4) rfl

theorem insiBranch_refines (h : PlainHart s) (c : Rv32i.Cond) (rs1 rs2 : Reg) (offset : BitVec 12) :
    Refines (.branch c rs1 rs2 offset) s
      (pcForward (insiBranch (fun a b => c.holds a b) s ((offset ++ 0#1).signExtend 32) rs2 rs1)) := by
  unfold insiBranch
  cases hc : c.holds (regRead s rs1) (regRead s rs2) with
  | true =>
    rw [if_pos hc, raiseIfMisalignedFetch_none h.misa.compressed (h.target_even offset)]
    simp only [pcForward_pcBackward]
    refine .ofPc ?_
    exact congrArg (isaState s).jump (if_pos hc)
  | false =>
    rw [if_neg (by simp [hc])]
    refine .ofPc ?_
    exact congrArg (isaState s).jump (if_neg (by simpa [isaState] using hc))

theorem StoreOp.exec_refines (h : PlainHart s) (o : Rv32i.StoreOp) (rs1 rs2 : Reg) (imm : BitVec 12)
    (ha : ramAccess (regRead s rs1 + imm.signExtend 32) o.width) :
    Refines (.store o rs1 rs2 imm) s (pcForward (StoreOp.exec s (imm.signExtend 32) rs2 rs1 (.ofIsa o))) := by
  rw [StoreOp.exec_ofIsa h o _ rs2 rs1 ha]
  unfold memClearReservation
  split_ifs
  · exact ⟨rfl, rfl, rfl, Or.inr ⟨rfl, _, rfl⟩⟩
  · exact ⟨rfl, rfl, rfl, Or.inl rfl⟩

variable [SoftFloat]

theorem exec_encode (h : PlainHart s) (i : Rv32i.Instr) : exec s i.encode = (Insn.ofIsa i).run s i.encode := by
  have hlow : ¬ (misaCEnabled s = true ∧ i.encode.extractLsb' 0 2 ≠ 3) := fun hc => hc.2 (encode_low i)
  rw [exec_decode h.aligned hlow, decode_encode]

/-- **RV32I.** Executing the encoding of an instruction and advancing pc is the step of the architecture, and changes
nothing else. -/
theorem exec_refines_isa (s : Machine) (i : Rv32i.Instr) (h : PlainHart s) (ha : accessesRam s i) :
    ∃ t, exec s i.encode = .ok t ∧ Refines i s (pcForward t) := by
  rw [exec_encode h]
  cases i with
  | op o rd rs1 rs2 => exact ⟨_, rfl, by rw [ROp.exec_ofIsa]; exact .ofWrite rfl⟩
  | opImm o rd rs1 imm => exact ⟨_, rfl, by rw [IOp.exec_ofImmOp]; exact .ofWrite rfl⟩
  | shift o rd rs1 shamt => exact ⟨_, rfl, by rw [IOp.exec_ofShiftOp]; exact .ofWrite rfl⟩
  | lui rd imm => exact ⟨_, rfl, .ofWrite rfl⟩
  | auipc rd imm => exact ⟨_, rfl, .ofWrite rfl⟩
  | jal rd offset => exact ⟨_, rfl, insiJJal_refines h offset⟩
  | jalr rd rs1 imm => exact ⟨_, rfl, insiIJalr_refines h rs1 imm⟩
  | branch c rs1 rs2 offset => exact ⟨_, rfl, by rw [BranchOp.exec_ofIsa]; exact insiBranch_refines h c rs1 rs2 offset⟩
  | load o rd rs1 imm => exact ⟨_, rfl, by rw [LoadOp.exec_ofIsa h o _ _ _ (ha _ _ rfl)]; exact .ofWrite rfl⟩
  | store o rs1 rs2 imm => exact ⟨_, rfl, StoreOp.exec_refines h o rs1 rs2 imm (ha _ _ rfl)⟩

end

/-- a hart after reset, about to store x6 at the address in x5 -/
def storeHart : Machine := machineInit (Function.update (Function.update (fun _ => 0) 5 0x1000) 6 0xDEADBEEF) (fun _ => 0) 0

theorem storeHart_plain : PlainHart storeHart := by
  refine ⟨rfl, rfl, ?_, rfl, rfl⟩
  intro addr
  exact ⟨rfl, rfl⟩

theorem storeHart_accessesRam : accessesRam storeHart (.store .sw 5 6 8) := by
  intro addr n h
  obtain ⟨rfl, rfl⟩ := Prod.mk.inj (Option.some.inj h)
  decide

theorem exec_refines_isa_storeHart : ∃ t, @exec noFloat storeHart (Rv32i.Instr.encode (.store .sw 5 6 8)) = .ok t ∧
    Refines (.store .sw 5 6 8) storeHart (pcForward t) :=
  @exec_refines_isa noFloat storeHart _ storeHart_plain storeHart_accessesRam

end RiscvEmu
