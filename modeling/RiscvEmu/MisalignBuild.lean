/-
The two builds, CONFIG_SUPPORT_MISALIGN on and off, over whole runs.

The switch changes the integer and FP loads and stores, and the compressed forms with them; exec and the main loop stand
around them as before. Results:
- `exec_aligned`, `execIns_aligned`: an aligned access, an instruction that makes none misaligned, is the same in both;
- `builds_agree`: two builds make the same runs, as long as no access is misaligned.
-/
import RiscvEmu.MisalignFaults
import RiscvEmu.Modes

namespace RiscvEmu

open Runs

/-! ## The build -/

namespace Misalign

section
variable [SoftFloat]

def FpInsn.run (s : Machine) (ins : Word) : FpInsn → Except Fatal Machine
  | .load op imm rs1 rd => .ok (execFLoad s imm rs1 rd op)
  | .store op imm rs1 rs2 => .ok (execFStore s imm rs1 rs2 op)
  | i => i.run s ins

def Insn.run (s : Machine) (ins : Word) : Insn → Except Fatal Machine
  | .load op imm rs1 rd => .ok (execLoad s imm rs1 rd op)
  | .store op imm rs2 rs1 => .ok (execStore s imm rs2 rs1 op)
  | .fp i => if fpuFsOff s then .ok (raiseException s causeIllegalInstruction ins) else FpInsn.run s ins i
  | i => i.run s ins

/-- exec_c_insn, whose loads and stores call the routines of the build -/
def execCInsn (s : Machine) (c : BitVec 16) : Machine :=
  match compressedOp c with
  | some a => (cAccess s (Misalign.exec a)).1
  | none => (RiscvEmu.execCInsn s c).1

def execIns (s : Machine) (ins : Word) : Except Fatal Machine :=
  if ¬ fetchAligned s then .ok (raiseExceptionPc s causeMisalignedFetch s.pc s.gPrevInsPc)
  else if misaCEnabled s ∧ ins.extractLsb' 0 2 ≠ 3 then .ok (execCInsn s (ins.setWidth 16))
  else Insn.run s ins (decode ins)

def fetchExec (s : Machine) : Except Fatal Machine :=
  let fetchPc := s.pc
  match mmuFetchOk s fetchPc with
  | (none, s) => .ok s
  | (some ins, s) =>
    match sdtrigCheckFetchTrigger s fetchPc with
    | some s => .ok s
    | none => execIns s ins

/-- one round of the main loop -/
def iteration (host : HostInput) (r : Run) : Except Fatal Run :=
  let s := uartPollInput (checkAndHandleInterrupts r.state) host
  if host.quit then .ok { r with state := s, quit := true }
  else if s.pc.toNat ≥ memSize then .error ⟨"PC out of bounds: 0x%x", [s.pc]⟩
  else
    let fetchPc := s.pc
    match fetchExec { s with gPrevInsPc := r.lastFetchPc } with
    | .error e => .error e
    | .ok s =>
      let (s, spin) := spinDetect (tick { s with pc := s.pc + 4 }) r.spin fetchPc
      .ok { state := s, lastFetchPc := fetchPc, spin := spin, quit := false }

def loopStep (r : Run) (host : HostInput) (r' : Run) : Prop := r.goesOn ∧ iteration host r = .ok r'

end

end Misalign

/-! ## Accesses -/

def Insn.dataAccess : Insn → Option Access
  | .load op imm rs1 rd => some (.load op imm rs1 rd)
  | .store op imm rs2 rs1 => some (.store op imm rs2 rs1)
  | .fp (.load op imm rs1 rd) => some (.fload op imm rs1 rd)
  | .fp (.store op imm rs1 rs2) => some (.fstore op imm rs1 rs2)
  | _ => none

/-- the load or store a word executes as -/
def dataAccess (s : Machine) (ins : Word) : Option Access :=
  if misaCEnabled s ∧ ins.extractLsb' 0 2 ≠ 3 then compressedOp (ins.setWidth 16) else (decode ins).dataAccess

/-- the word makes no misaligned access -/
def dataAligned (s : Machine) (ins : Word) : Prop := ∀ a ∈ dataAccess s ins, ¬ a.isMisaligned s

instance (s : Machine) (ins : Word) : Decidable (dataAligned s ins) := by unfold dataAligned; infer_instance

/-- two MMU accesses of 64 bits -/
def quadRead (s : Machine) (addr : Word) : BitVec 128 × Machine :=
  let (lo, s) := mmuRead64Unsigned s addr
  let (hi, s) := mmuRead64Unsigned s (addr + 8)
  (hi ++ lo, s)

def quadWrite (s : Machine) (addr : Word) (val : BitVec 128) : Machine :=
  let s := mmuWrite64 s addr (val.setWidth 64)
  mmuWrite64 s (addr + 8) ((val >>> 64).setWidth 64)

section
variable {s : Machine} {a : Access}

theorem insiILoad_aligned (mask : Word) (misaligned read : Machine → Word → Word × Machine) {imm : Word} {rs1 rd : Reg}
    (h : (regRead s rs1 + imm) &&& mask = 0) :
    Misalign.insiILoad mask misaligned read s imm rs1 rd = insiILoad mask read s imm rs1 rd := by
  unfold Misalign.insiILoad insiILoad
  dsimp only
  rewrite [if_neg (not_not.2 h), if_neg (not_not.2 h)]
  cases sdtrigCheckLoadTrigger s (regRead s rs1 + imm) <;> rfl

theorem insiSStore_aligned (mask : Word) (misaligned write : Machine → Word → Word → Machine) {imm : Word} {rs1 rs2 : Reg}
    (h : (regRead s rs1 + imm) &&& mask = 0) :
    Misalign.insiSStore mask misaligned write s imm rs2 rs1 = insiSStore mask write s imm rs2 rs1 := by
  unfold Misalign.insiSStore insiSStore
  dsimp only
  rewrite [if_neg (not_not.2 h), if_neg (not_not.2 h)]
  cases sdtrigCheckStoreTrigger s (regRead s rs1 + imm) <;> rfl

theorem insfLoad_aligned (fmt : Fmt) (n : ℕ) (size : Word)
    (misaligned read : Machine → Word → BitVec fmt.width × Machine) {imm : Word} {rs1 rd : Reg}
    (hsize : size - 1 = BitVec.ofNat 32 (n - 1)) (h : (regRead s rs1 + imm) &&& BitVec.ofNat 32 (n - 1) = 0) :
    Misalign.insfLoad fmt size misaligned read s imm rs1 rd =
      let r := read s (regRead s rs1 + imm)
      { r.2 with fpu := fprWrite fmt r.2.fpu rd r.1 } := by
  unfold Misalign.insfLoad Misalign.isAligned
  dsimp only
  rw [hsize, if_neg (by simpa using h)]

theorem insfStore_aligned (fmt : Fmt) (n : ℕ) (size : Word)
    (misaligned write : Machine → Word → BitVec fmt.width → Machine) {imm : Word} {rs1 rs2 : Reg}
    (hsize : size - 1 = BitVec.ofNat 32 (n - 1)) (h : (regRead s rs1 + imm) &&& BitVec.ofNat 32 (n - 1) = 0) :
    Misalign.insfStore fmt size misaligned write s imm rs1 rs2 =
      write s (regRead s rs1 + imm) (fprRead fmt s.fpu rs2) := by
  unfold Misalign.insfStore Misalign.isAligned
  dsimp only
  rw [hsize, if_neg (by simpa using h)]

/-- **An aligned access** is the same in both builds. -/
theorem exec_aligned (h : ¬ a.isMisaligned s) : Misalign.exec a s = a.exec s := by
  have haddr := not_not.1 h
  cases a with
  | load op imm rs1 rd =>
    cases op with
    | lb => rfl
    | lh =>
      exact insiILoad_aligned 1 (fun s addr =>
        ((Misalign.mmuMisalignedLoad16 s addr).1.signExtend 32, (Misalign.mmuMisalignedLoad16 s addr).2))
        mmuRead16Signed haddr
    | lw => exact insiILoad_aligned 3 Misalign.mmuMisalignedLoad32 mmuRead32Signed haddr
    | lbu => rfl
    | lhu =>
      exact insiILoad_aligned 1 (fun s addr =>
        ((Misalign.mmuMisalignedLoad16 s addr).1.setWidth 32, (Misalign.mmuMisalignedLoad16 s addr).2))
        mmuRead16Unsigned haddr
  | store op imm rs2 rs1 =>
    cases op with
    | sb => rfl
    | sh =>
      exact insiSStore_aligned 1
        (fun s addr val => Misalign.mmuMisalignedStore16 s addr ((val &&& 0xFFFF).setWidth 16))
        (fun s addr val => mmuWrite16 s addr ((val &&& 0xFFFF).setWidth 16)) haddr
    | sw => exact insiSStore_aligned 3 Misalign.mmuMisalignedStore32 mmuWrite32 haddr
  | fload op imm rs1 rd =>
    cases op with
    | flh =>
      exact insfLoad_aligned .H 2 2 Misalign.mmuMisalignedLoad16
        (fun s addr => ((mmuRead16Unsigned s addr).1.setWidth 16, (mmuRead16Unsigned s addr).2)) (by decide) haddr
    | flw => exact insfLoad_aligned .S 4 4 Misalign.mmuMisalignedLoad32 mmuRead32Unsigned (by decide) haddr
    | fld => exact insfLoad_aligned .D 8 8 Misalign.mmuMisalignedLoad64 mmuRead64Unsigned (by decide) haddr
    | flq => exact insfLoad_aligned .Q 16 16 Misalign.physLoad128 quadRead (by decide) haddr
  | fstore op imm rs1 rs2 =>
    cases op with
    | fsh => exact insfStore_aligned .H 2 2 Misalign.mmuMisalignedStore16 mmuWrite16 (by decide) haddr
    | fsw => exact insfStore_aligned .S 4 4 Misalign.mmuMisalignedStore32 mmuWrite32 (by decide) haddr
    | fsd => exact insfStore_aligned .D 8 8 Misalign.mmuMisalignedStore64 mmuWrite64 (by decide) haddr
    | fsq => exact insfStore_aligned .Q 16 16 Misalign.physStore128 quadWrite (by decide) haddr

/-- a compressed access is the routine's, with the pc adjusted -/
theorem Misalign.execCInsn_aligned {c : BitVec 16} (h : ∀ a, compressedOp c = some a → ¬ a.isMisaligned s) :
    Misalign.execCInsn s c = (RiscvEmu.execCInsn s c).1 := by
  unfold Misalign.execCInsn
  cases ha : compressedOp c with
  | none => rfl
  | some a =>
    rw [execCInsn_op ha]
    dsimp only [cAccess]
    rw [exec_aligned (h a ha)]

variable [SoftFloat] {ins : Word}

theorem Misalign.run_aligned {i : Insn} (h : ∀ a, i.dataAccess = some a → ¬ a.isMisaligned s) :
    Misalign.Insn.run s ins i = i.run s ins := by
  cases i with
  | load op imm rs1 rd => exact congrArg Except.ok (exec_aligned (h (.load op imm rs1 rd) rfl))
  | store op imm rs2 rs1 => exact congrArg Except.ok (exec_aligned (h (.store op imm rs2 rs1) rfl))
  | fp i =>
    simp only [Misalign.Insn.run, RiscvEmu.Insn.run]
    congr 1
    cases i with
    | load op imm rs1 rd => exact congrArg Except.ok (exec_aligned (h (.fload op imm rs1 rd) rfl))
    | store op imm rs1 rs2 => exact congrArg Except.ok (exec_aligned (h (.fstore op imm rs1 rs2) rfl))
    | _ => rfl
  | _ => rfl

/-- **An instruction without a misaligned access** is the same in both builds. -/
theorem execIns_aligned (h : dataAligned s ins) : Misalign.execIns s ins = exec s ins := by
  unfold Misalign.execIns exec
  by_cases hf : ¬ fetchAligned s
  · rw [if_pos hf, if_pos hf]
  rw [if_neg hf, if_neg hf]
  by_cases hc : misaCEnabled s ∧ ins.extractLsb' 0 2 ≠ 3
  · rw [if_pos hc, if_pos hc]
    refine congrArg Except.ok (Misalign.execCInsn_aligned fun a ha => h a ?_)
    rw [dataAccess, if_pos hc]
    exact ha
  · rw [if_neg hc, if_neg hc]
    refine Misalign.run_aligned fun a ha => h a ?_
    rw [dataAccess, if_neg hc]
    exact ha

/-! ## Runs -/

/-- the iteration makes no misaligned access -/
def stepAligned (r : Run) (host : HostInput) : Prop := ∀ x ∈ executed host r, dataAligned x.1 x.2

theorem fetchExec_aligned (h : ∀ t ins, Fetches s t ins → dataAligned t ins) : Misalign.fetchExec s = fetchExec s := by
  unfold Misalign.fetchExec fetchExec
  dsimp only
  rcases hf : mmuFetchOk s s.pc with ⟨_ | ins, t⟩
  · rfl
  · dsimp only
    cases ht : triggerFires t s.pc sdtrigExecute with
    | true => simp only [sdtrigCheckFetchTrigger, sdtrigCheck, ht, if_true]
    | false =>
      simp only [sdtrigCheckFetchTrigger, sdtrigCheck, ht, Bool.false_eq_true, if_false]
      exact execIns_aligned (h t ins ⟨hf, ht⟩)

theorem iteration_aligned {r : Run} {host : HostInput} (h : stepAligned r host) :
    Misalign.iteration host r = iteration host r := by
  unfold Misalign.iteration iteration
  dsimp only
  by_cases hq : host.quit = true
  · rw [if_pos hq, if_pos hq]
  rw [if_neg hq, if_neg hq]
  have hstate : Misalign.fetchExec
      { uartPollInput (checkAndHandleInterrupts r.state) host with gPrevInsPc := r.lastFetchPc } =
        fetchExec { uartPollInput (checkAndHandleInterrupts r.state) host with gPrevInsPc := r.lastFetchPc } :=
    fetchExec_aligned (s := fetchState host r) fun t ins hf =>
      h (t, ins) ((executes_iff host r t ins).1 ⟨by simpa using hq, hf⟩)
  rewrite [hstate]
  rfl

/-- **The builds agree**: as long as no access is misaligned, the runs of one are the runs of the other. -/
theorem builds_agree {r r' : Run} {p : List (Run × HostInput)} (h : ∀ x ∈ p, stepAligned x.1 x.2) :
    Path Misalign.loopStep r p r' ↔ Path loopStep r p r' := by
  have hstep : ∀ r host, stepAligned r host → ∀ r', Misalign.loopStep r host r' ↔ loopStep r host r' := by
    intro r host ha r'
    rw [Misalign.loopStep, loopStep, iteration_aligned ha]
  have hid : (p.map fun x => (id x.1, id x.2)) = p := List.map_id p
  refine ⟨?_, ?_⟩
  · intro hp
    have hmap := hp.map (f := id) (g := id) (fun r host r' ha hs => (hstep r host ha r').1 hs) h
    rwa [hid] at hmap
  · intro hp
    have hmap := hp.map (f := id) (g := id) (fun r host r' ha hs => (hstep r host ha r').2 hs) h
    rwa [hid] at hmap

end

/-- sw x6, 256(x0) -/
def storeRun : Run := runInit (fun _ => 5) (fun a => Bytes.byte (n := 4) (0x10602023 : Word) a.toNat) 0 false

theorem builds_agree_storeRun : ∃ r', Path (@Misalign.loopStep noFloat) storeRun [(storeRun, ⟨[], false⟩)] r' ∧
    r'.state.mainMemory 256 = 5 := by
  have hrun : (@iteration noFloat ⟨[], false⟩ storeRun).toOption.map (fun r => decide (r.state.mainMemory 256 = 5)) =
      some true := by decide
  cases h : @iteration noFloat ⟨[], false⟩ storeRun with
  | error e => rw [h] at hrun; cases hrun
  | ok r =>
    rw [h] at hrun
    have hpath : Path (@loopStep noFloat) storeRun [(storeRun, ⟨[], false⟩)] r := .cons ⟨by decide, h⟩ (.nil r)
    refine ⟨r, (@builds_agree noFloat _ _ _ ?_).2 hpath, of_decide_eq_true (Option.some.inj hrun)⟩
    intro x hx
    rw [List.mem_singleton.1 hx]
    unfold stepAligned
    decide

end RiscvEmu
