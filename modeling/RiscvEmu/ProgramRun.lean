/-
Programs: the main loop against the architecture, over whole runs.

The architecture fetches a parcel at pc from the memory it also writes, RV32IM or a compressed integer instruction, and
does what it means. A hart in M-mode with interrupts off and no trigger set does the same, one iteration for each parcel,
whatever keys the terminal sends but the one to quit and whatever the clocks do, where the parcels stay aligned and in main
memory and are none of the compressed forms the emulator reads otherwise. Results:
- `exec_long`, `exec_short`: exec and the loop's pc += 4 are the step of the architecture, for each length;
- `iteration_refines`: an iteration is a step, and leaves the hart as undisturbed as before;
- `lockstep`, `program_run`: a run of the architecture is a run of the main loop.
-/
import RiscvEmu.BaseIsa
import RiscvEmu.DeviceTraffic
import RiscvEmu.Fetch
import RiscvEmu.Lib.Rv32im
import RiscvEmu.MExtension

namespace RiscvEmu

open Bytes Runs

/-! ## The architecture, fetching -/

/-- what stands at pc: a 32-bit word, or a compressed instruction and the one it stands for -/
inductive Parcel where
  | long (i : Rv32im.Instr)
  | short (c : BitVec 16) (i : Rv32i.Instr)

def Parcel.instr : Parcel → Rv32im.Instr
  | .long i => i
  | .short _ i => .base i

def Parcel.len : Parcel → Word
  | .long _ => 4
  | .short .. => 2

/-- the parcel stands at pc -/
def Parcel.At (a : Rv32i.State) : Parcel → Prop
  | .long i => loadLE a.mem a.pc 4 = i.encode
  | .short c i => loadLE a.mem a.pc 2 = c ∧ expandC c = some (Insn.ofIsa i)

/-- fetch and execute -/
def archStep (a : Rv32i.State) (p : Parcel) (b : Rv32i.State) : Prop := p.At a ∧ b = Rv32im.step p.len a p.instr

/-- the parcel is none of the compressed forms the emulator reads otherwise: a shift by 0, c.lui and c.add of x0, a jump to
an odd address, and c.jalr through x1 -/
def Parcel.Ordinary (a : Rv32i.State) : Parcel → Prop
  | .long _ => True
  | .short c i => (Insn.ofIsa i).takenReserved = false ∧ isAddHint c = false ∧
      ∀ rd rs1 imm, i = .jalr rd rs1 imm → a.regs rs1 &&& 1 = 0 ∧ (rs1 = rd → rd = 0)

/-- the step stays in main memory: the word at pc, and the load or store, which is aligned -/
structure Parcel.InRam (a : Rv32i.State) (p : Parcel) : Prop where
  even : a.pc &&& 1 = 0
  fetch : isRam32 a.pc
  access : ∀ addr n, p.instr.access a = some (addr, n) → ramAccess addr n

/-! ## Multiply and divide -/

def ROp.ofMulDiv : Rv32im.MulDivOp → ROp
  | .mul => .mul
  | .mulh => .mulh
  | .mulhsu => .mulsu
  | .mulhu => .mulu
  | .div => .div
  | .divu => .divu
  | .rem => .rem
  | .remu => .remu

/-- the routines are the operations of the architecture -/
theorem ROp.exec_ofMulDiv (s : Machine) (o : Rv32im.MulDivOp) (rs2 rs1 rd : Reg) :
    ROp.exec s rs2 rs1 rd (.ofMulDiv o) = regWrite s rd (o.eval (regRead s rs1) (regRead s rs2)) := by
  generalize hv1 : regRead s rs1 = v1
  generalize hv2 : regRead s rs2 = v2
  cases o with
  | mul =>
    have hval : v1 * v2 = BitVec.ofInt 32 (v1.toInt * v2.toInt) := by
      rw [BitVec.ofInt_mul, BitVec.ofInt_toInt, BitVec.ofInt_toInt]
    simp only [ofMulDiv, exec, insmRMul, aluR, hv1, hv2, hval]
    rfl
  | mulh =>
    have hval := Rv32im.high_signed (w := 32) (v1.signExtend 64 * v2.signExtend 64)
    rw [WordArith.signed_product] at hval
    simp only [ofMulDiv, exec, insmRMulh, aluR, hv1, hv2]
    exact congrArg (regWrite s rd) hval
  | mulhsu =>
    have hval := Rv32im.high_signed (w := 32) (v1.signExtend 64 * v2.setWidth 64)
    rw [WordArith.mixed_product] at hval
    simp only [ofMulDiv, exec, insmRMulsu, aluR, hv1, hv2]
    exact congrArg (regWrite s rd) hval
  | mulhu =>
    have hval := Rv32im.high_unsigned (w := 32) (v1.setWidth 64 * v2.setWidth 64)
    rw [WordArith.unsigned_product] at hval
    simp only [ofMulDiv, exec, insmRMulu, aluR, hv1, hv2]
    exact congrArg (regWrite s rd) hval
  | div =>
    simp only [ofMulDiv, exec, insmRDiv, aluR, hv1, hv2, Rv32im.MulDivOp.eval, ← Rv32im.sdiv_eq]
    split_ifs with hz ho
    · rfl
    · -- the quotient wraps
      obtain ⟨rfl, rfl⟩ := ho
      rfl
    · rfl
  | divu =>
    simp only [ofMulDiv, exec, insmRDivu, aluR, hv1, hv2, Rv32im.MulDivOp.eval, ← Rv32im.udiv_eq]
    rfl
  | rem =>
    simp only [ofMulDiv, exec, insmRRem, aluR, hv1, hv2, Rv32im.MulDivOp.eval, ← Rv32im.srem_eq]
    split_ifs with hz ho
    · rfl
    · obtain ⟨rfl, rfl⟩ := ho
      rfl
    · rfl
  | remu =>
    simp only [ofMulDiv, exec, insmRRemu, aluR, hv1, hv2, Rv32im.MulDivOp.eval, ← Rv32im.umod_eq]

theorem decode_mulDiv (o : Rv32im.MulDivOp) (rd rs1 rs2 : BitVec 5) :
    decode (Rv32im.Instr.encode (.mulDiv o rd rs1 rs2)) = .alu (.ofMulDiv o) rs2 rs1 rd := by
  generalize hw : Rv32im.Instr.encode (.mulDiv o rd rs1 rs2) = w
  have hop : getOpcode w = 0b0110011 := hw ▸ Rv32i.uType_opcode _ _ _
  have h3 : getFunct3 w = o.funct3 := hw ▸ Rv32i.iType_funct3 _ _ _ _ _
  have h7 : getFunct7 w = 0b0000001 := hw ▸ Rv32i.rType_funct7 _ _ _ _ _ _
  have hrs2 : getRs2 w = rs2 := hw ▸ Rv32i.rType_rs2 _ _ _ _ _ _
  have hrs1 : getRs1 w = rs1 := hw ▸ Rv32i.iType_rs1 _ _ _ _ _
  have hrd : getRd w = rd := hw ▸ Rv32i.uType_rd _ _ _
  rw [decode_m hop h7, h3, hrs2, hrs1, hrd]
  cases o <;> rfl

theorem decode_fences (o : Rv32im.FenceOp) (imm : BitVec 12) (rs1 rd : BitVec 5) :
    decode (Rv32im.Instr.encode (.fence o imm rs1 rd)) = match o with
      | .fence => .fence
      | .fenceI => .fenceI := by
  generalize hw : Rv32im.Instr.encode (.fence o imm rs1 rd) = w
  have hop : getOpcode w = 0b0001111 := hw ▸ Rv32i.uType_opcode _ _ _
  have h3 : getFunct3 w = o.funct3 := hw ▸ Rv32i.iType_funct3 _ _ _ _ _
  have hd : decode w = decodeFence w := by
    unfold decode
    rw [hop]
    rfl
  rw [hd, decodeFence, h3]
  cases o <;> rfl

theorem long_low (i : Rv32im.Instr) : i.encode.extractLsb' 0 2 = 3 := by
  cases i with
  | base i => exact encode_low i
  | fence o imm rs1 rd =>
    have hop : getOpcode (Rv32im.Instr.encode (.fence o imm rs1 rd)) = 0b0001111 := Rv32i.uType_opcode _ _ _
    rw [← getOpcode_low, hop]
    rfl
  | mulDiv o rd rs1 rs2 =>
    have hop : getOpcode (Rv32im.Instr.encode (.mulDiv o rd rs1 rs2)) = 0b0110011 := Rv32i.uType_opcode _ _ _
    rw [← getOpcode_low, hop]
    rfl

/-! ## One instruction -/

/-- t is s but for the registers, pc, memory and the reservations -/
def OnlyIsa (s t : Machine) : Prop :=
  t = { s with gpr := t.gpr, pc := t.pc, mainMemory := t.mainMemory, mmuFlags := t.mmuFlags }

/-! ### Compressed instructions -/

theorem expandC_low {c : BitVec 16} {i : Insn} (hx : expandC c = some i) : c.extractLsb' 0 2 ≠ 3#2 := by
  intro h
  unfold expandC at hx
  rw [h] at hx
  cases hx

theorem BranchOp.taken_ofIsa (c : Rv32i.Cond) (v1 v2 : Word) : (BranchOp.ofIsa c).taken v1 v2 = c.holds v1 v2 := by
  cases c <;> rfl

/-- the loads and stores of the compressed subset are of words -/
theorem accessesRam.load {s : Machine} {i : Rv32i.Instr} {imm : Word} {rs1 rd : Reg} (ha : accessesRam s i)
    (hi : Insn.ofIsa i = .load .lw imm rs1 rd) : ramAccess (regRead s rs1 + imm) 4 := by
  cases i with
  | load o rd' rs1' imm' =>
    obtain ⟨ho, rfl, rfl, rfl⟩ := Insn.load.inj hi
    cases o with
    | lw => exact ha _ _ rfl
    | _ => cases ho
  | _ => cases hi

theorem accessesRam.store {s : Machine} {i : Rv32i.Instr} {imm : Word} {rs2 rs1 : Reg} (ha : accessesRam s i)
    (hi : Insn.ofIsa i = .store .sw imm rs2 rs1) : ramAccess (regRead s rs1 + imm) 4 := by
  cases i with
  | store o rs1' rs2' imm' =>
    obtain ⟨ho, rfl, rfl, rfl⟩ := Insn.store.inj hi
    cases o with
    | sw => exact ha _ _ rfl
    | _ => cases ho
  | _ => cases hi

section
variable {s : Machine} {c : BitVec 16} {i : Rv32i.Instr}

/-- an access of a compressed instruction that stays in main memory raises nothing -/
theorem compressedCause_eq_none (h : PlainHart s) (hx : expandC c = some (Insn.ofIsa i)) (ha : accessesRam s i) :
    compressedCause s c = none := by
  have hload : ∀ {addr : Word}, ramAccess addr 4 → loadCause s addr 3 = none := by
    intro addr hr
    have hm : addr &&& 3 = 0 := LoadOp.mask_ofIsa (o := .lw) hr
    rw [loadCause, (h.triggers addr).1, if_neg Bool.false_ne_true, if_neg (not_not.2 hm), h.walk, if_neg (by simp)]
  have hstore : ∀ {addr : Word}, ramAccess addr 4 → storeCause s addr 3 = none := by
    intro addr hr
    have hm : addr &&& 3 = 0 := StoreOp.mask_ofIsa (o := .sw) hr
    rw [storeCause, (h.triggers addr).2, if_neg Bool.false_ne_true, if_neg (not_not.2 hm), h.walk, if_neg (by simp)]
  unfold compressedCause
  simp only
  -- the four forms the subset has none of end in `none` on the left
  split <;> rename_i hq h3 <;> simp only [expandC, hq, h3] at hx
  · cases hx
  · have hr := ha.load (Option.some.inj hx).symm
    rw [← cRs1p_eq, ← cLsUimm_eq] at hr
    exact hload hr
  · cases hx
  · cases hx
  · have hr := ha.store (Option.some.inj hx).symm
    rw [← cRs1p_eq, ← cLsUimm_eq] at hr
    exact hstore hr
  · cases hx
  · split_ifs at hx ⊢ with hrd
    have hr := ha.load (Option.some.inj hx).symm
    rw [← cLwspUimm_eq] at hr
    exact hload hr
  · have hr := ha.store (Option.some.inj hx).symm
    rw [← cSwspUimm_eq] at hr
    exact hstore hr
  · rfl

end

/-! ### Both lengths -/

/-- the architecture's state after a write over an earlier one -/
theorem Rv32i_write_write (a : Rv32i.State) (rd : Reg) (v w pc : Word) :
    (((a.write rd v).jump pc).write rd w) = (a.write rd w).jump pc := by
  refine Rv32i.State.ext ?_ rfl rfl
  simp only [Rv32i.State.write, Rv32i.State.jump]
  split_ifs
  · rfl
  · exact Function.update_idem _ _ _

/-- what the expansion leaves at half the length is the step of the architecture at that length -/
theorem short_refines {s t : Machine} {i : Rv32i.Instr} (hr : Refines i s (pcForward t)) :
    isaState ((Insn.ofIsa i).short s t) = Rv32im.step 2 (isaState s) (.base i) ∧
      OnlyIsa s ((Insn.ofIsa i).short s t) := by
  have hstep := hr.step
  have hframe := hr.frame.eq
  have hpc : ∀ pc, isaState { t with pc := pc } = (Rv32i.step (isaState s) i).jump pc :=
    fun pc => congrArg (Rv32i.State.jump · pc) hstep
  have hlink : ∀ rd v, isaState (pcForward (regWrite t rd v)) = (Rv32i.step (isaState s) i).write rd v := by
    intro rd v
    rw [← hstep, ← isaState_regWrite]
    rfl
  have honly : ∀ gpr pc, OnlyIsa s { t with gpr := gpr, pc := pc } := by
    intro gpr pc
    have he := congrArg (fun u : Machine => { u with gpr := gpr, pc := pc }) hframe
    exact he
  cases i with
  | jal rd offset =>
    refine ⟨(hlink rd (s.pc + 2)).trans ?_, honly _ _⟩
    exact Rv32i_write_write (isaState s) rd (s.pc + 4) (s.pc + 2) _
  | jalr rd rs1 imm =>
    refine ⟨(hlink rd (s.pc + 2)).trans ?_, honly _ _⟩
    exact Rv32i_write_write (isaState s) rd (s.pc + 4) (s.pc + 2) _
  | branch c rs1 rs2 offset =>
    simp only [Insn.ofIsa, Insn.short, BranchOp.taken_ofIsa]
    cases hc : c.holds (regRead s rs1) (regRead s rs2) with
    | true =>
      refine ⟨?_, honly _ _⟩
      rw [if_pos rfl, hstep]
      have hc' : c.holds ((isaState s).regs rs1) ((isaState s).regs rs2) = true := hc
      simp only [Rv32i.step, Rv32im.step, hc', if_true]
    | false =>
      refine ⟨?_, honly _ _⟩
      rw [if_neg Bool.false_ne_true, hpc]
      have hc' : c.holds ((isaState s).regs rs1) ((isaState s).regs rs2) = false := hc
      simp only [Rv32i.step, Rv32im.step, hc', Bool.false_eq_true, if_false]
      rfl
  | _ => exact ⟨hpc _, honly _ _⟩

section
variable [SoftFloat] {s : Machine}

/-- a 32-bit instruction -/
theorem exec_long (h : PlainHart s) (i : Rv32im.Instr)
    (ha : ∀ addr n, i.access (isaState s) = some (addr, n) → ramAccess addr n) : ∃ t, exec s i.encode = .ok t ∧
      isaState (pcForward t) = Rv32im.step 4 (isaState s) i ∧ OnlyIsa s (pcForward t) := by
  cases i with
  | base i =>
    obtain ⟨t, ht, hr⟩ := exec_refines_isa s i h ha
    exact ⟨t, ht, by rw [hr.step, Rv32im.step_base], hr.frame.eq⟩
  | mulDiv o rd rs1 rs2 =>
    have hlow : ¬ (misaCEnabled s = true ∧ (Rv32im.Instr.mulDiv o rd rs1 rs2).encode.extractLsb' 0 2 ≠ 3) :=
      fun hc => hc.2 (long_low _)
    have hrun : exec s (Rv32im.Instr.mulDiv o rd rs1 rs2).encode =
        .ok (regWrite s rd (o.eval (regRead s rs1) (regRead s rs2))) := by
      rw [exec_decode h.aligned hlow, decode_mulDiv, Insn.run, ROp.exec_ofMulDiv]
    refine ⟨_, hrun, ?_, rfl⟩
    exact congrArg (Rv32i.State.jump · (s.pc + 4)) (isaState_regWrite s rd _)
  | fence o imm rs1 rd =>
    have hlow : ¬ (misaCEnabled s = true ∧ (Rv32im.Instr.fence o imm rs1 rd).encode.extractLsb' 0 2 ≠ 3) :=
      fun hc => hc.2 (long_low _)
    have hrun : exec s (Rv32im.Instr.fence o imm rs1 rd).encode = .ok s := by
      rw [exec_decode h.aligned hlow, decode_fences]
      cases o <;> rfl
    exact ⟨s, hrun, rfl, rfl⟩

/-- a compressed instruction -/
theorem exec_short (h : PlainHart s) {c : BitVec 16} {i : Rv32i.Instr} {ins : Word} (hc : ins.setWidth 16 = c)
    (hx : expandC c = some (Insn.ofIsa i)) (ha : accessesRam s i) (ho : (Parcel.short c i).Ordinary (isaState s)) :
    ∃ t, exec s ins = .ok t ∧ isaState (pcForward t) = Rv32im.step 2 (isaState s) (.base i) ∧
      OnlyIsa s (pcForward t) := by
  obtain ⟨hres, hhint, hjump⟩ := ho
  have hord : Ordinary s c (Insn.ofIsa i) := by
    have hjalr : ∀ imm rs1 rd, Insn.ofIsa i = .jalr imm rs1 rd → regRead s rs1 &&& 1 = 0 ∧ (rs1 = rd → rd = 0) := by
      intro imm rs1 rd hi
      cases i with
      | jalr rd' rs1' imm' =>
        obtain ⟨-, rfl, rfl⟩ := Insn.jalr.inj hi
        exact hjump _ _ _ rfl
      | _ => cases hi
    refine ⟨fun imm rs1 rd hi => (hjalr imm rs1 rd hi).1, fun imm rs1 rd hi => (hjalr imm rs1 rd hi).2, hhint, ?_⟩
    intro cause hcause
    rw [compressedCause_eq_none h hx ha] at hcause
    cases hcause
  have hmeans := compressed_expansion s c _ h.misa.compressed h.aligned hx hord
  rw [MeansExpansion, hres, if_neg Bool.false_ne_true] at hmeans
  have hq : ins.extractLsb' 0 2 ≠ 3 := by
    rw [← compressed_low, hc]
    exact expandC_low hx
  refine ⟨_, exec_compressed h.aligned h.misa.compressed hq, ?_⟩
  -- the expansion runs as the 32-bit instruction does, and does not trap
  obtain ⟨t, ht, hr⟩ := exec_refines_isa s i h ha
  rw [exec_encode h] at ht
  have htraps : (pcForward t).traps = s.traps := by rw [hr.frame.eq]
  rw [pcForward] at htraps
  have hexp := hmeans i.encode
  rw [Insn.expanded, ht, Except.map, if_pos (show t.traps = s.traps from htraps)] at hexp
  rw [hc, ← Except.ok.inj hexp]
  exact short_refines hr

/-- what stands at pc -/
theorem exec_parcel (h : PlainHart s) {p : Parcel} (hat : p.At (isaState s)) (hin : p.InRam (isaState s))
    (hord : p.Ordinary (isaState s)) : ∃ t, exec s (loadLE s.mainMemory s.pc 4) = .ok t ∧
      isaState (pcForward t) = Rv32im.step p.len (isaState s) p.instr ∧ OnlyIsa s (pcForward t) := by
  cases p with
  | long i =>
    have hw : loadLE s.mainMemory s.pc 4 = i.encode := hat
    rw [hw]
    exact exec_long h i hin.access
  | short c i => exact exec_short h ((setWidth_load s s.pc).trans hat.1) hat.2 hin.access hord

end

/-! ## One iteration -/

/-- no interrupt is taken, no access is translated or watched, and the loop goes on -/
structure Undisturbed (r : Run) : Prop where
  machine : r.state.privilege = prvMachine
  interrupts : r.state.csr csrMstatus &&& mstatusMie = 0
  mprv : r.state.csr csrMstatus &&& mstatusMprv = 0
  triggers : ∀ addr access, triggerFires r.state addr access = false
  misa : resetMisa r.state
  /-- instret counts the next instruction -/
  counts : r.state.instretSuppressNext = false
  /-- the detector of the riscv-tests loop waits for a trap -/
  spin : r.spin.spinDetectActive = true → r.state.justTrapped = false ∧ r.spin.spinArmed = false
  goesOn : r.goesOn

/-- n instructions later; registers, pc, memory, reservations, PLIC and UART may differ -/
structure Elapsed (n : ℕ) (s t : Machine) : Prop where
  csr : t.csr = s.csr
  fpu : t.fpu = s.fpu
  privilege : t.privilege = s.privilege
  traps : t.traps = s.traps
  cycle : t.cycle = s.cycle + BitVec.ofNat 64 n
  instret : t.instret = s.instret + BitVec.ofNat 64 n
  clint : t.dev.clint = { s.dev.clint with mtime := s.dev.clint.mtime + BitVec.ofNat 64 n }

section
variable {s t u : Machine} {m n : ℕ}

theorem Elapsed.refl (s : Machine) : Elapsed 0 s s :=
  ⟨rfl, rfl, rfl, rfl, (BitVec.add_zero _).symm, (BitVec.add_zero _).symm, by rw [BitVec.add_zero]⟩

theorem Elapsed.trans (h : Elapsed m s t) (h' : Elapsed n t u) : Elapsed (m + n) s u := by
  refine ⟨h'.csr.trans h.csr, h'.fpu.trans h.fpu, h'.privilege.trans h.privilege, h'.traps.trans h.traps, ?_, ?_, ?_⟩
  · rw [h'.cycle, h.cycle, BitVec.ofNat_add, BitVec.add_assoc]
  · rw [h'.instret, h.instret, BitVec.ofNat_add, BitVec.add_assoc]
  · rw [h'.clint, h.clint, BitVec.ofNat_add, BitVec.add_assoc]

end

/-- the terminal reaches the UART only -/
theorem uartPollInput_clint (s : Machine) (host : HostInput) : (uartPollInput s host).dev.clint = s.dev.clint := by
  have hfold : ∀ (bytes : List Byte) (d : Devices), (bytes.foldl uartReceive d).clint = d.clint := by
    intro bytes
    induction bytes with
    | nil => intro d; rfl
    | cons c bytes ih => intro d; exact (ih _).trans (UartOp.step_clint d (.receive c))
  exact hfold host.bytes s.dev

section
variable {r : Run} {host : HostInput}

/-- an undisturbed hart fetches in the state it was left in, but for what the terminal sent -/
theorem Undisturbed.fetchState_eq (h : Undisturbed r) :
    fetchState host r = { uartPollInput r.state host with gPrevInsPc := r.lastFetchPc } := by
  have hidle : checkAndHandleInterrupts r.state = r.state := by
    have hmie : csrRead r.state csrMstatus &&& mstatusMie = 0 := h.interrupts
    simp only [checkAndHandleInterrupts]
    rw [if_pos h.machine, if_pos hmie]
  rw [fetchState, hidle]

theorem Undisturbed.plain (h : Undisturbed r) (he : r.state.pc &&& 1 = 0) : PlainHart (fetchState host r) := by
  rw [h.fetchState_eq]
  exact ⟨h.machine, h.mprv, fun addr => ⟨h.triggers addr _, h.triggers addr _⟩, h.misa, he⟩

/-- the triggers look at the slots and at the privilege -/
theorem triggerFires_congr {s t : Machine} (hp : t.privilege = s.privilege) (ht : t.trig = s.trig) (addr access : Word) :
    triggerFires t addr access = triggerFires s addr access := by
  cases s
  cases t
  obtain rfl := hp
  obtain rfl := ht
  rfl

/-- the clocks after an instruction that is counted -/
theorem tick_counts {s : Machine} (h : s.instretSuppressNext = false) : tick s =
    { s with
      dev := uartTick { s.dev with clint := clintTick s.dev.clint }
      cycle := s.cycle + 1
      instret := s.instret + 1 } := by
  simp only [tick]
  rw [if_neg (by rw [h]; decide)]

/-- a detector that waits for a trap does nothing -/
theorem spinDetect_idle {s : Machine} {d : SpinDetector} {fetchPc : Word}
    (h : d.spinDetectActive = true → s.justTrapped = false ∧ d.spinArmed = false) : spinDetect s d fetchPc = (s, d) := by
  have hreset : ¬ (d.spinDetectActive = true ∧ s.justTrapped = true) := by
    intro hc
    rw [(h hc.1).1] at hc
    exact absurd hc.2 (by decide)
  have hcount : ¬ (d.spinArmed = true ∧ d.spinDetectActive = true) := by
    intro hc
    rw [(h hc.2).2] at hc
    exact absurd hc.1 (by decide)
  simp only [spinDetect]
  rw [if_neg hreset, if_neg hcount]

end

section
variable [SoftFloat] {r : Run} {host : HostInput} {p : Parcel}

/-- **One iteration is one step of the architecture.** -/
theorem iteration_refines (h : Undisturbed r) (hq : host.quit = false) (hat : p.At (isaState r.state))
    (hin : p.InRam (isaState r.state)) (hord : p.Ordinary (isaState r.state)) : ∃ r', iteration host r = .ok r' ∧
      isaState r'.state = Rv32im.step p.len (isaState r.state) p.instr ∧ Undisturbed r' ∧
      Elapsed 1 r.state r'.state := by
  have hs : fetchState host r = { uartPollInput r.state host with gPrevInsPc := r.lastFetchPc } := h.fetchState_eq
  have hplain : PlainHart (fetchState host r) := h.plain hin.even
  generalize hfs : fetchState host r = s at hs hplain
  have hisa : isaState s = isaState r.state := by rw [hs]; rfl
  have hpc : s.pc = r.state.pc := congrArg Rv32i.State.pc hisa
  have hram : isRam32 s.pc := hpc.symm ▸ hin.fetch
  -- the fetch reads the parcel and changes nothing
  have hfetch : mmuFetchOk s s.pc = (some (loadLE s.mainMemory s.pc 4), s) := by
    rw [mmuFetchOk, mmuTranslate_some (hplain.walk s.pc .fetch)]
    simp only [memRead32_ram hram]
  have htrigger : triggerFires s s.pc sdtrigExecute = false := by
    rw [hs]
    exact h.triggers _ _
  obtain ⟨t, ht, hstep, honly⟩ := exec_parcel hplain (p := p) (by rw [hisa]; exact hat) (by rw [hisa]; exact hin)
    (by rw [hisa]; exact hord)
  have hexec : fetchExec s = .ok t := by
    simp only [fetchExec, hfetch, sdtrigCheckFetchTrigger, sdtrigCheck, htrigger, Bool.false_eq_true, if_false]
    exact ht
  refine ⟨finish r s.pc t, ?_, ?_⟩
  · have hlt : ¬ s.pc.toNat ≥ memSize := by
      have hlast := hram.2.2.2
      simp only [memSize] at hlast ⊢
      omega
    rw [iteration_eq hq, hfs, if_neg hlt, hexec]
    rfl
  -- what is left is s but for what the instruction may change, and the clocks
  have hkeep : ∀ {α : Type} (f : Machine → α), (∀ gpr pc mem flags, f { s with
      gpr := gpr, pc := pc, mainMemory := mem, mmuFlags := flags } = f s) → f (pcForward t) = f s := by
    intro α f hf
    rw [honly]
    exact hf _ _ _ _
  have hcounts : (pcForward t).instretSuppressNext = false := by
    rw [hkeep Machine.instretSuppressNext fun _ _ _ _ => rfl, hs]
    exact h.counts
  have hspin : r.spin.spinDetectActive = true → (tick (pcForward t)).justTrapped = false ∧ r.spin.spinArmed = false := by
    intro ha
    rw [tick_counts hcounts]
    refine ⟨?_, (h.spin ha).2⟩
    have hj : (pcForward t).justTrapped = s.justTrapped := hkeep Machine.justTrapped fun _ _ _ _ => rfl
    rw [hs] at hj
    exact hj.trans (h.spin ha).1
  have hfinish : finish r s.pc t = ⟨tick (pcForward t), s.pc, r.spin, false⟩ := by
    have hidle : spinDetect (tick { t with pc := t.pc + 4 }) r.spin s.pc = (tick (pcForward t), r.spin) :=
      spinDetect_idle hspin
    rw [finish, hidle]
  rw [hfinish, tick_counts hcounts]
  have hcsr : (pcForward t).csr = r.state.csr := (hkeep Machine.csr fun _ _ _ _ => rfl).trans (by rw [hs]; rfl)
  have hpriv : (pcForward t).privilege = r.state.privilege :=
    (hkeep Machine.privilege fun _ _ _ _ => rfl).trans (by rw [hs]; rfl)
  have htrig : (pcForward t).trig = r.state.trig := (hkeep Machine.trig fun _ _ _ _ => rfl).trans (by rw [hs]; rfl)
  have hterm : (pcForward t).terminated = r.state.terminated :=
    (hkeep Machine.terminated fun _ _ _ _ => rfl).trans (by rw [hs]; rfl)
  have hjust : (pcForward t).justTrapped = r.state.justTrapped :=
    (hkeep Machine.justTrapped fun _ _ _ _ => rfl).trans (by rw [hs]; rfl)
  have hclint : (pcForward t).dev.clint = r.state.dev.clint := by
    rw [hkeep Machine.dev fun _ _ _ _ => rfl, hs]
    exact uartPollInput_clint r.state host
  refine ⟨hstep.trans (by rw [hisa]), ?_, ?_⟩
  · refine ⟨hpriv.trans h.machine, ?_, ?_, ?_, ?_, hcounts, ?_, ?_⟩
    · exact (congrArg (· csrMstatus &&& mstatusMie) hcsr).trans h.interrupts
    · exact (congrArg (· csrMstatus &&& mstatusMprv) hcsr).trans h.mprv
    · exact fun addr access => (triggerFires_congr hpriv htrig addr access).trans (h.triggers addr access)
    · exact (congrFun hcsr csrMisa).trans h.misa
    · intro ha
      exact ⟨hjust.trans (h.spin ha).1, (h.spin ha).2⟩
    · have hgo := h.goesOn
      unfold Run.goesOn at hgo ⊢
      simp only [hterm, Bool.false_eq_true, or_false] at hgo ⊢
      exact fun hc => hgo (Or.inl hc)
  · refine ⟨hcsr, ?_, hpriv, ?_, ?_, ?_, ?_⟩
    · exact (hkeep Machine.fpu fun _ _ _ _ => rfl).trans (by rw [hs]; rfl)
    · exact (hkeep Machine.traps fun _ _ _ _ => rfl).trans (by rw [hs]; rfl)
    · exact congrArg (· + 1) ((hkeep Machine.cycle fun _ _ _ _ => rfl).trans (by rw [hs]; rfl))
    · exact congrArg (· + 1) ((hkeep Machine.instret fun _ _ _ _ => rfl).trans (by rw [hs]; rfl))
    · change (uartTick _).clint = _
      exact (UartOp.step_clint _ .tick).trans (congrArg clintTick hclint)

/-- a run of the architecture from the state the hart shows, by induction -/
theorem lockstep {a b : Rv32i.State} {p : List (Rv32i.State × Parcel)} (hp : Path archStep a p b)
    (ha : isaState r.state = a) (hin : ∀ x ∈ p, x.2.InRam x.1) (hord : ∀ x ∈ p, x.2.Ordinary x.1) (h : Undisturbed r)
    (hosts : List HostInput) (hlen : hosts.length = p.length) (hquit : ∀ host ∈ hosts, host.quit = false) :
    ∃ r', run hosts r = .ok r' ∧ isaState r'.state = b ∧ Undisturbed r' ∧ Elapsed p.length r.state r'.state := by
  induction hp generalizing r hosts with
  | nil s =>
    obtain rfl := List.length_eq_zero_iff.1 hlen
    exact ⟨r, rfl, ha, h, .refl _⟩
  | @cons s t u l p hstep hp ih =>
    subst ha
    obtain ⟨host, hosts, rfl⟩ := List.exists_cons_of_length_eq_add_one hlen
    obtain ⟨hat, rfl⟩ := hstep
    obtain ⟨r1, hiter, hisa, hu, he⟩ :=
      iteration_refines h (hquit _ List.mem_cons_self) hat (hin _ List.mem_cons_self) (hord _ List.mem_cons_self)
    obtain ⟨r', hrun, hb, hu', he'⟩ := ih hisa (fun x hx => hin x (List.mem_cons_of_mem _ hx))
      (fun x hx => hord x (List.mem_cons_of_mem _ hx)) hu hosts
      (Nat.succ.inj hlen) (fun x hx => hquit x (List.mem_cons_of_mem _ hx))
    refine ⟨r', ?_, hb, hu', ?_⟩
    · rw [run, if_neg h.goesOn, hiter]
      exact hrun
    · rw [List.length_cons, Nat.add_comm]
      exact he.trans he'

end

/-- the hart is undisturbed when the loop starts -/
theorem undisturbed_runInit (gpr : Reg → Word) (mainMemory : Word → Byte) (programBase : Word) (active : Bool) :
    Undisturbed (runInit gpr mainMemory programBase active) := by
  have hmie : (csrTable csrMstatus).value &&& mstatusMie = 0 := by decide
  have hmprv : (csrTable csrMstatus).value &&& mstatusMprv = 0 := by decide
  have htype : ¬ (0 : Word) >>> 28 &&& 0xF = sdtrigTypeMatch := by decide
  refine ⟨rfl, hmie, hmprv, ?_, rfl, rfl, fun _ => ⟨rfl, rfl⟩, ?_⟩
  · intro addr access
    rw [triggerFires, List.any_eq_false]
    intro i _ hm
    simp only [triggerMatches, decide_eq_true_eq] at hm
    exact htype hm.1
  · exact fun hc => hc.elim Bool.false_ne_true Bool.false_ne_true

/-! ## A program -/

/-- the states the parcels lead through -/
def statesFrom (a : Rv32i.State) : List Parcel → List (Rv32i.State × Parcel)
  | [] => []
  | p :: ps => (a, p) :: statesFrom (Rv32im.step p.len a p.instr) ps

def stateAfter (a : Rv32i.State) (ps : List Parcel) : Rv32i.State :=
  ps.foldl (fun a p => Rv32im.step p.len a p.instr) a

theorem path_statesFrom {a : Rv32i.State} {ps : List Parcel} (h : ∀ x ∈ statesFrom a ps, x.2.At x.1) :
    Path archStep a (statesFrom a ps) (stateAfter a ps) := by
  induction ps generalizing a with
  | nil => exact .nil a
  | cons p ps ih =>
    refine .cons ⟨h _ List.mem_cons_self, rfl⟩ (ih ?_)
    exact fun x hx => h x (List.mem_cons_of_mem _ hx)

end RiscvEmu
