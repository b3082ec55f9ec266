/-
What instret counts.

Nothing but the two CSR setters and the end of an iteration touches the counter. A setter suppresses the step its own
instruction would add; the loop makes that step for a trapping instruction as for one that retires. Results:
- `Insn.run_count`, `execCInsn_count`: no other instruction touches the counter;
- `csrWrite_half`: a setter replaces its half and keeps the other;
- `iteration_instret`: the counter after an iteration;
- `instret_counts_iff`: the law, exactly for the iterations that raise no exception, or one whose illegal write is idle;
- `ecall_counts`: an ECALL that traps is counted.
-/
import RiscvEmu.FpuOff
import RiscvEmu.LegalPrivilege

namespace RiscvEmu

open Runs

/-! ## The halves -/

def csrMinstret : Csr := 0xB02
def csrMinstreth : Csr := 0xB82

/-- a half of the counter -/
inductive Half
  | low
  | high
  deriving DecidableEq

namespace Half

/-- the register that writes it -/
def csr : Half → Csr
  | low => csrMinstret
  | high => csrMinstreth

def other : Half → Half
  | low => high
  | high => low

def part (x : BitVec 64) : Half → Word
  | low => x.setWidth 32
  | high => (x >>> 32).setWidth 32

/-- the counter with a half replaced -/
def store (x : BitVec 64) (val : Word) : Half → BitVec 64
  | low => x &&& 0xFFFFFFFF00000000#64 ||| val.setWidth 64
  | high => x &&& 0x00000000FFFFFFFF#64 ||| val.setWidth 64 <<< 32

theorem part_store (h : Half) (x : BitVec 64) (val : Word) : h.part (h.store x val) = val := by
  cases h with
  | low =>
    have hmask : ∀ i < 32, (0xFFFFFFFF00000000#64).getLsbD i = false := by decide
    apply BitVec.eq_of_getLsbD_eq
    intro i hi
    simp only [part, store, BitVec.getLsbD_setWidth, BitVec.getLsbD_or, BitVec.getLsbD_and]
    rw [decide_eq_true hi, hmask i hi, Bool.and_false,
      decide_eq_true (by omega : i < 64)]
    simp
  | high =>
    have hmask : ∀ i < 32, (0x00000000FFFFFFFF#64).getLsbD (32 + i) = false := by decide
    apply BitVec.eq_of_getLsbD_eq
    intro i hi
    simp only [part, store, BitVec.getLsbD_setWidth, BitVec.getLsbD_or, BitVec.getLsbD_and, BitVec.getLsbD_ushiftRight,
      BitVec.getLsbD_shiftLeft]
    rw [decide_eq_true hi, hmask i hi, Bool.and_false]
    simp [show 32 + i < 64 by omega, show i < 64 by omega]

theorem other_store (h : Half) (x : BitVec 64) (val : Word) : h.other.part (h.store x val) = h.other.part x := by
  cases h with
  | low => exact minstret_high val x
  | high => exact minstreth_low val x

/-- a counter is its two halves -/
theorem ext_iff (h : Half) {x y : BitVec 64} : x = y ↔ h.part x = h.part y ∧ h.other.part x = h.other.part y := by
  constructor
  · rintro rfl
    exact ⟨rfl, rfl⟩
  · intro hparts
    have hlow : x.setWidth 32 = y.setWidth 32 := by
      cases h with
      | low => exact hparts.1
      | high => exact hparts.2
    have hhigh : (x >>> 32).setWidth 32 = (y >>> 32).setWidth 32 := by
      cases h with
      | low => exact hparts.2
      | high => exact hparts.1
    apply BitVec.eq_of_getLsbD_eq
    intro i hi
    by_cases hi32 : i < 32
    · have hbit := congrArg (·.getLsbD i) hlow
      simpa [hi32] using hbit
    · have hbit := congrArg (·.getLsbD (i - 32)) hhigh
      have hadd : 32 + (i - 32) = i := by omega
      simpa [show i - 32 < 32 by omega, hadd] using hbit

end Half

/-! ## What leaves the counter alone -/

/-- the same counter, and the same answer to whether its next step is suppressed -/
structure SameCount (s t : Machine) : Prop where
  instret : t.instret = s.instret
  suppress : t.instretSuppressNext = s.instretSuppressNext

section
variable {s t u : Machine}

theorem SameCount.refl (s : Machine) : SameCount s s := ⟨rfl, rfl⟩

theorem SameCount.trans (h : SameCount s t) (h' : SameCount t u) : SameCount s u :=
  ⟨h'.instret.trans h.instret, h'.suppress.trans h.suppress⟩

theorem MemStep.count (h : MemStep s t) : SameCount s t := by
  obtain ⟨mem, flags, dev, rfl⟩ := h
  exact ⟨rfl, rfl⟩

theorem RegStep.count (h : RegStep s t) : SameCount s t := by
  obtain ⟨gpr, fpu, rfl⟩ := h
  exact ⟨rfl, rfl⟩

theorem SameCount.of_dev {d : Devices} (h : SameCount { s with dev := d } t) : SameCount s t := ⟨h.instret, h.suppress⟩

theorem raiseExceptionPc_count (s : Machine) (cause tval epc : Word) :
    SameCount s (raiseExceptionPc s cause tval epc) := by
  rw [raiseExceptionPc_eq]
  exact ⟨rfl, rfl⟩

theorem raiseInterrupt_count (s : Machine) (irq : Word) : SameCount s (raiseInterrupt s irq) := by
  rw [raiseInterrupt_eq]
  exact ⟨rfl, rfl⟩

theorem fpu_count (s : Machine) (f : Fpu) : SameCount s { s with fpu := f } := ⟨rfl, rfl⟩

theorem regWrite_count (s : Machine) (rd : Reg) (d : Word) : SameCount s (regWrite s rd d) := ⟨rfl, rfl⟩

theorem Plain.count (h : Plain s t) : SameCount s t := by
  cases h with
  | regs gpr pc terminated => exact ⟨rfl, rfl⟩
  | trap cause tval => exact raiseExceptionPc_count s cause tval s.pc

theorem mmuTranslate_count (s : Machine) (vaddr : Word) (access : MmuAccess) :
    SameCount s (mmuTranslate s vaddr access).2 := by
  rcases hw : mmuWalk s vaddr access with ⟨_ | pa, d⟩
  · rw [mmuTranslate_none hw]
    exact (raiseExceptionPc_count ..).of_dev
  · rw [mmuTranslate_some hw]
    exact ⟨rfl, rfl⟩

theorem mmuRead_count {α : Type} [Zero α] (read : Machine → Word → α × Devices) (s : Machine) (vaddr : Word) :
    SameCount s (mmuRead read s vaddr).2 := by
  have ht := mmuTranslate_count s vaddr .load
  unfold mmuRead
  rcases hm : mmuTranslate s vaddr .load with ⟨_ | pa, u⟩ <;> rw [hm] at ht
  · exact ht
  · exact ht.trans ⟨rfl, rfl⟩

theorem mmuWrite_count {α : Type} {write : Machine → Word → α → Machine} (hw : ∀ s a v, MemStep s (write s a v))
    (s : Machine) (vaddr : Word) (val : α) : SameCount s (mmuWrite write s vaddr val) := by
  have ht := mmuTranslate_count s vaddr .store
  unfold mmuWrite
  rcases hm : mmuTranslate s vaddr .store with ⟨_ | pa, u⟩ <;> rw [hm] at ht
  · exact ht
  · exact ht.trans (hw u pa val).count

end

section
variable (s : Machine)

theorem LoadOp.exec_count (op : LoadOp) (imm : Word) (rs1 rd : Reg) : SameCount s (op.exec s imm rs1 rd) := by
  rw [op.exec_eq]
  rcases insiILoad_cases op.mask op.read s imm rs1 rd with ⟨-, h⟩ | ⟨-, -, h⟩ | ⟨-, -, d, -, h⟩ | ⟨-, -, pa, d, -, h⟩
  · rw [h]; exact raiseExceptionPc_count ..
  · rw [h]; exact raiseExceptionPc_count ..
  · rw [h]; exact (raiseExceptionPc_count ..).of_dev.trans ⟨rfl, rfl⟩
  · rw [h]; exact ⟨rfl, rfl⟩

theorem insiSStore_count {α : Type} (mask : Word) {write : Machine → Word → α → Machine} (trunc : Word → α)
    (hw : ∀ s a v, MemStep s (write s a v)) (imm : Word) (rs2 rs1 : Reg) :
    SameCount s (insiSStore mask (fun s a v => mmuWrite write s a (trunc v)) s imm rs2 rs1) := by
  rcases insiSStore_cases mask write trunc s imm rs2 rs1 with
    ⟨-, h⟩ | ⟨-, -, h⟩ | ⟨-, -, d, -, h⟩ | ⟨-, -, pa, d, -, h⟩
  · rw [h]; exact raiseExceptionPc_count ..
  · rw [h]; exact raiseExceptionPc_count ..
  · rw [h]; exact (raiseExceptionPc_count ..).of_dev
  · rw [h]; exact (hw { s with dev := d } pa _).count.of_dev

theorem StoreOp.exec_count (op : StoreOp) (imm : Word) (rs2 rs1 : Reg) : SameCount s (op.exec s imm rs2 rs1) := by
  cases op with
  | sb => exact insiSStore_count s 0 (fun v => (v &&& 0xFF).setWidth 8) memWrite8_memStep imm rs2 rs1
  | sh => exact insiSStore_count s 1 (fun v => (v &&& 0xFFFF).setWidth 16) memWrite16_memStep imm rs2 rs1
  | sw => exact insiSStore_count s 3 id memWrite32_memStep imm rs2 rs1

theorem FLoadOp.exec_count (op : FLoadOp) (imm : Word) (rs1 rd : Reg) : SameCount s (op.exec s imm rs1 rd) := by
  cases op with
  | flh => exact (mmuRead_count memRead16Unsigned s _).trans (fpu_count _ _)
  | flw => exact (mmuRead_count memRead32Unsigned s _).trans (fpu_count _ _)
  | fld => exact (mmuRead_count memRead64Unsigned s _).trans (fpu_count _ _)
  | flq =>
    have h1 := mmuRead_count memRead64Unsigned s (regRead s rs1 + imm)
    exact (h1.trans (mmuRead_count memRead64Unsigned _ (regRead s rs1 + imm + 8))).trans (fpu_count _ _)

theorem FStoreOp.exec_count (op : FStoreOp) (imm : Word) (rs1 rs2 : Reg) : SameCount s (op.exec s imm rs1 rs2) := by
  cases op with
  | fsh => exact mmuWrite_count memWrite16_memStep s _ _
  | fsw => exact mmuWrite_count memWrite32_memStep s _ _
  | fsd => exact mmuWrite_count memWrite64_memStep s _ _
  | fsq => exact (mmuWrite_count memWrite64_memStep s _ _).trans (mmuWrite_count memWrite64_memStep _ _ _)

theorem clearReserveStatus_count (addr : Word) : SameCount s (clearReserveStatus s addr) := by
  simp only [clearReserveStatus]
  split
  · exact .refl s
  · split_ifs <;> exact ⟨rfl, rfl⟩

theorem AInsn.exec_count {a : AInsn} {s' : Machine} {rs1 rs2 rd : Reg} (h : a.exec s rs1 rs2 rd = .ok s') :
    SameCount s s' := by
  cases a with
  | lr =>
    simp only [AInsn.exec, insaRLrW] at h
    split_ifs at h
    obtain rfl := Except.ok.inj h
    have hr := mmuRead_count memRead32Unsigned s (regRead s rs1)
    exact (hr.trans (regWrite_count _ rd (mmuRead32Unsigned s (regRead s rs1)).1)).trans ⟨rfl, rfl⟩
  | sc =>
    simp only [AInsn.exec, insaRScW] at h
    split_ifs at h
    · obtain rfl := Except.ok.inj h
      have hw : SameCount s (regWrite (mmuWrite32 s (regRead s rs1) (regRead s rs2)) rd 0) :=
        (mmuWrite_count memWrite32_memStep s _ _).trans (regWrite_count _ rd 0)
      exact hw.trans (clearReserveStatus_count _ _)
    · obtain rfl := Except.ok.inj h
      exact ⟨rfl, rfl⟩
  | amo o =>
    obtain ⟨-, value, rfl⟩ := AmoOp.exec_cases h
    have hr := mmuRead_count memRead32Unsigned s (regRead s rs1)
    exact (hr.trans (mmuWrite_count memWrite32_memStep _ _ _)).trans (regWrite_count _ rd _)

theorem insSret_count : SameCount s (insSret s) := by
  unfold insSret
  split_ifs
  · exact raiseExceptionPc_count ..
  · exact ⟨rfl, rfl⟩

end

/-! ## CSR instructions -/

/-- the callback sets this half of the counter -/
def storesHalf (h : Half) : Option WriteCallback → Bool
  | some .setZicntrMinstretL => h = .low
  | some .setZicntrMinstretH => h = .high
  | _ => false

/-- the table has the setters at their registers only -/
theorem csrTable_storesHalf (c : Csr) (h : Half) : storesHalf h (csrTable c).writeCallback = true → c = h.csr := by
  unfold csrTable
  split
  all_goals try exact fun hs => absurd hs Bool.false_ne_true
  · intro hs
    rw [of_decide_eq_true hs]
    rfl
  · intro hs
    rw [of_decide_eq_true hs]
    rfl
  · split_ifs <;> exact fun hs => absurd hs Bool.false_ne_true

section
variable (s : Machine)

theorem csrWrite_count {csr : Csr} (hc : ∀ h : Half, csr ≠ h.csr) (val : Word) : SameCount s (csrWrite s csr val) := by
  have hnone : ∀ h, storesHalf h (csrTable csr).writeCallback ≠ true := fun h hs => hc h (csrTable_storesHalf csr h hs)
  unfold csrWrite
  split_ifs
  · cases hf : (csrTable csr).writeCallback with
    | none => exact ⟨rfl, rfl⟩
    | some f =>
      rw [hf] at hnone
      cases f with
      | setZicntrMinstretL => exact absurd rfl (hnone .low)
      | setZicntrMinstretH => exact absurd rfl (hnone .high)
      | setFcsr => simp only [WriteCallback.run, setFcsr]; split_ifs <;> exact ⟨rfl, rfl⟩
      | setFrm => simp only [WriteCallback.run, setFrm]; split_ifs <;> exact ⟨rfl, rfl⟩
      | _ => exact ⟨rfl, rfl⟩
  · exact .refl s

/-- **A setter** replaces its half, and has the step of its instruction suppressed. -/
theorem csrWrite_half (h : Half) (val : Word) : (csrWrite s h.csr val).instret = h.store s.instret val ∧
    (csrWrite s h.csr val).instretSuppressNext = true := by
  cases h <;> exact ⟨rfl, rfl⟩

theorem checkCsrAccess_count (csr : Csr) (ins : Word) : SameCount s (checkCsrAccess s csr ins) := by
  unfold checkCsrAccess
  split_ifs
  · exact raiseExceptionPc_count ..
  · exact .refl s

end

/-- an instruction leaves the counter alone but for the CSR write w it makes to a half, if any -/
structure CountStep (s : Machine) (w : Half → Option Word) (t : Machine) : Prop where
  same : (∀ h, w h = none) → SameCount s t
  write : ∀ h val, w h = some val → t.instret = h.store s.instret val ∧ t.instretSuppressNext = true

section
variable {s t s' : Machine} {ins : Word}

theorem SameCount.step (h : SameCount s t) : CountStep s (fun _ => none) t := ⟨fun _ => h, fun _ _ hw => nomatch hw⟩

theorem CsrOp.exec_count {op : CsrOp} {rs1 rd : Reg} {csr : Csr} (hd : decode ins = .zicsr op rs1 rd csr) :
    CountStep s (fun h => csrWritten s ins h.csr) (op.exec s rs1 rd csr ins) := by
  have hcheck := checkCsrAccess_count s csr ins
  have hafter : SameCount (csrAfterWrite op rs1 csr (checkCsrAccess s csr ins)) (op.exec s rs1 rd csr ins) := by
    rw [op.exec_eq]
    simp only [insZicsr, csrAfterWrite]
    cases op.newVal rs1 (checkCsrAccess s csr ins) (csrRead (checkCsrAccess s csr ins) csr) <;> simp only <;> split_ifs <;>
      exact ⟨rfl, rfl⟩
  have hwritten : ∀ h : Half, csrWritten s ins h.csr = if csr = h.csr then
      op.newVal rs1 (checkCsrAccess s h.csr ins) (csrRead (checkCsrAccess s h.csr ins) h.csr) else none := fun h => by
    rw [csrWritten, hd]
  refine ⟨?_, ?_⟩
  · intro hnone
    refine (hcheck.trans ?_).trans hafter
    unfold csrAfterWrite
    by_cases hc : ∀ h : Half, csr ≠ h.csr
    · split
      · exact csrWrite_count _ hc _
      · exact .refl _
    · push Not at hc
      obtain ⟨h, rfl⟩ := hc
      have hno := hnone h
      rw [hwritten, if_pos rfl] at hno
      rw [hno]
      exact .refl _
  · intro h val hval
    rw [hwritten] at hval
    split_ifs at hval with hc
    subst hc
    have hstore := csrWrite_half (checkCsrAccess s h.csr ins) h val
    rw [csrAfterWrite, hval] at hafter
    rw [hafter.instret, hafter.suppress, hstore.1, hcheck.instret]
    exact ⟨rfl, hstore.2⟩

variable [SoftFloat]

/-- **No other instruction touches the counter.** -/
theorem Insn.run_count {i : Insn} (hz : i.isZicsr = false) (h : i.run s ins = .ok s') : SameCount s s' := by
  cases i with
  | zicsr => cases hz
  | fatal f => cases h
  | fp i =>
    simp only [Insn.run] at h
    split_ifs at h
    · obtain rfl := Except.ok.inj h
      exact raiseExceptionPc_count ..
    · cases i with
      | load op imm rs1 rd => obtain rfl := Except.ok.inj h; exact op.exec_count s imm rs1 rd
      | store op imm rs1 rs2 => obtain rfl := Except.ok.inj h; exact op.exec_count s imm rs1 rs2
      | fma subop => obtain rfl := Except.ok.inj h; exact (insfRFma_frame s ins subop).count
      | fpop => exact (insfRFpop_frame h).count
      | fatal f => cases h
  | load op imm rs1 rd => obtain rfl := Except.ok.inj h; exact op.exec_count s imm rs1 rd
  | store op imm rs2 rs1 => obtain rfl := Except.ok.inj h; exact op.exec_count s imm rs2 rs1
  | atomic a rs1 rs2 rd => exact AInsn.exec_count s h
  | sret => obtain rfl := Except.ok.inj h; exact insSret_count s
  | mret => obtain rfl := Except.ok.inj h; exact ⟨rfl, rfl⟩
  | mnret => obtain rfl := Except.ok.inj h; exact ⟨rfl, rfl⟩
  | _ => exact (Insn.run_plain rfl h).count

omit [SoftFloat] in
theorem execCInsn_count {c : BitVec 16} (h3 : c.extractLsb' 0 2 ≠ 3#2) : SameCount s (execCInsn s c).1 := by
  cases ha : compressedOp c with
  | none =>
    have hnone : compressedAccess c = none := by
      rw [compressedAccess_op, ha]
      rfl
    exact (execCInsn_plain h3 hnone).count
  | some a =>
    obtain ⟨pc, hpc⟩ := cAccess_pc s a.exec
    rw [execCInsn_op ha, hpc]
    cases a with
    | load op imm rs1 rd => exact (op.exec_count s imm rs1 rd).trans ⟨rfl, rfl⟩
    | store op imm rs2 rs1 => exact (op.exec_count s imm rs2 rs1).trans ⟨rfl, rfl⟩
    | fload op imm rs1 rd => exact (op.exec_count s imm rs1 rd).trans ⟨rfl, rfl⟩
    | fstore op imm rs1 rs2 => exact (op.exec_count s imm rs1 rs2).trans ⟨rfl, rfl⟩

/-- the write to a half of the counter that executing the word makes, the access being legal or not -/
def countWrite (t : Machine) (ins : Word) (h : Half) : Option Word :=
  if toSwitch t ins then csrWritten t ins h.csr else none

omit [SoftFloat] in
theorem csrWritten_of_isZicsr (hz : (decode ins).isZicsr = false) (csr : Csr) : csrWritten s ins csr = none := by
  unfold csrWritten
  cases hd : decode ins with
  | zicsr => rw [hd] at hz; cases hz
  | _ => rfl

theorem exec_count (h : exec s ins = .ok s') : CountStep s (countWrite s ins) s' := by
  unfold countWrite
  obtain ⟨ha, rfl⟩ | ⟨-, hc, rfl⟩ | ⟨hs, hrun⟩ := exec_cases h
  · have hs : ¬ toSwitch s ins := fun hs => absurd (ha.symm.trans hs.1) Bool.false_ne_true
    simp only [if_neg hs]
    exact (raiseExceptionPc_count ..).step
  · have hs : ¬ toSwitch s ins := fun hs => hs.2 hc
    simp only [if_neg hs]
    exact (execCInsn_count (compressed_quadrant hc.2)).step
  · simp only [if_pos hs]
    cases hz : (decode ins).isZicsr with
    | false =>
      simp only [csrWritten_of_isZicsr hz]
      exact (Insn.run_count hz hrun).step
    | true =>
      cases hd : decode ins with
      | zicsr op rs1 rd csr =>
        rw [hd] at hrun
        obtain rfl := Except.ok.inj hrun
        exact CsrOp.exec_count hd
      | _ => rw [hd] at hz; cases hz

theorem fetchExec_count (h : fetchExec s = .ok s') : (∀ t ins, ¬ Fetches s t ins) ∧ SameCount s s' ∨
    ∃ t ins, Fetches s t ins ∧ SameCount s t ∧ exec t ins = .ok s' := by
  have hfetch : SameCount s (mmuFetchOk s s.pc).2 := by
    have ht := mmuTranslate_count s s.pc .fetch
    unfold mmuFetchOk
    rcases hm : mmuTranslate s s.pc .fetch with ⟨_ | pa, u⟩ <;> rw [hm] at ht
    · exact ht
    · exact ht.trans ⟨rfl, rfl⟩
  rcases fetchExec_cases h with ⟨hno, -⟩ | ⟨t, ins, hf, -, he⟩
  · refine .inl ⟨hno, ?_⟩
    simp only [fetchExec] at h
    rcases hm : mmuFetchOk s s.pc with ⟨_ | ins, t⟩ <;> rw [hm] at h hfetch
    · obtain rfl := Except.ok.inj h
      exact hfetch
    · simp only [sdtrigCheckFetchTrigger, sdtrigCheck] at h
      cases hg : triggerFires t s.pc sdtrigExecute with
      | true =>
        rw [hg, if_pos rfl] at h
        obtain rfl := Except.ok.inj h
        exact hfetch.trans (raiseExceptionPc_count ..)
      | false => exact absurd ⟨hm, hg⟩ (hno t ins)
  · rw [hf.1] at hfetch
    exact .inr ⟨t, ins, hf, hfetch, he⟩

end

/-! ## Iterations -/

theorem fetchState_count (host : HostInput) (r : Run) : SameCount r.state (fetchState host r) := by
  have hc : SameCount r.state (checkAndHandleInterrupts r.state) := by
    rcases checkAndHandleInterrupts_cases r.state with h | ⟨irq, h⟩ <;> rw [h]
    · exact .refl _
    · exact raiseInterrupt_count ..
  exact hc.trans ⟨rfl, rfl⟩

theorem spinDetect_count (s : Machine) (d : SpinDetector) (fetchPc : Word) : SameCount s (spinDetect s d fetchPc).1 := by
  simp only [spinDetect]
  split_ifs <;> simp only [spinConclude] <;> exact ⟨rfl, rfl⟩

/-- the end of an iteration -/
theorem finish_instret (r : Run) (fetchPc : Word) (s : Machine) : (finish r fetchPc s).state.instret =
    (if s.instretSuppressNext then s.instret else s.instret + 1) ∧ (finish r fetchPc s).state.instretSuppressNext = false := by
  have hspin := spinDetect_count (tick { s with pc := s.pc + 4 }) r.spin fetchPc
  have htick : (tick { s with pc := s.pc + 4 }).instret = (if s.instretSuppressNext then s.instret else s.instret + 1) ∧
      (tick { s with pc := s.pc + 4 }).instretSuppressNext = false := by
    simp only [tick]
    cases hs : s.instretSuppressNext with
    | true => exact ⟨rfl, rfl⟩
    | false => exact ⟨rfl, rfl⟩
  exact ⟨hspin.instret.trans htick.1, hspin.suppress.trans htick.2⟩

section
variable [SoftFloat] {host : HostInput} {r r' : Run}

/-- **The counter after an iteration**, where no step is suppressed from before. -/
theorem iteration_instret (hq : host.quit = false) (hsup : r.state.instretSuppressNext = false)
    (h : iteration host r = .ok r') : r'.state.instretSuppressNext = false ∧
      ((∃ t ins h val, Executes host r t ins ∧ countWrite t ins h = some val ∧
          r'.state.instret = h.store r.state.instret val) ∨
        (∀ t ins h, Executes host r t ins → countWrite t ins h = none) ∧ r'.state.instret = r.state.instret + 1) := by
  have hstate := fetchState_count host r
  rcases iteration_cases h with ⟨hquit, -⟩ | ⟨-, s, hf, rfl⟩
  · exact absurd (hq.symm.trans hquit) Bool.false_ne_true
  · obtain ⟨hcount, hclear⟩ := finish_instret r (fetchState host r).pc s
    refine ⟨hclear, ?_⟩
    rw [hcount]
    rcases fetchExec_count hf with ⟨hno, hsame⟩ | ⟨t, ins, hfetch, hsame, hexec⟩
    · have hall := hstate.trans hsame
      refine .inr ⟨fun t ins _ hx => absurd hx.2 (hno t ins), ?_⟩
      rw [hall.suppress, hsup, hall.instret]
      rfl
    · have hall := hstate.trans hsame
      have hstep := exec_count hexec
      by_cases hw : ∀ h, countWrite t ins h = none
      · have hend := hall.trans (hstep.same hw)
        refine .inr ⟨?_, ?_⟩
        · intro t' ins' half hx
          obtain ⟨rfl, rfl⟩ := Executes.unique ⟨hq, hfetch⟩ hx
          exact hw half
        · rw [hend.suppress, hsup, hend.instret]
          rfl
      · push Not at hw
        obtain ⟨half, hne⟩ := hw
        obtain ⟨val, hval⟩ := Option.ne_none_iff_exists'.1 hne
        obtain ⟨hstore, hset⟩ := hstep.write half val hval
        refine .inl ⟨t, ins, half, val, ⟨hq, hfetch⟩, hval, ?_⟩
        rw [hset, if_pos rfl, hstore, hall.instret]

/-- between iterations no step is suppressed -/
theorem suppress_run (gpr : Reg → Word) (mainMemory : Word → Byte) (programBase : Word) (active : Bool)
    {p : List (Run × HostInput)} (hp : Path loopStep (runInit gpr mainMemory programBase active) p r) :
    r.state.instretSuppressNext = false := by
  have hstep : ∀ r host r', r.state.instretSuppressNext = false → True → loopStep r host r' →
      r'.state.instretSuppressNext = false := by
    intro r host r' hsup _ h
    cases hq : host.quit with
    | false => exact (iteration_instret hq hsup h.2).1
    | true =>
      rcases iteration_cases h.2 with ⟨-, hr⟩ | ⟨hno, -⟩
      · rw [hr]
        exact (fetchState_count host r).suppress.trans hsup
      · exact absurd (hno.symm.trans hq) Bool.false_ne_true
  exact hp.invariant (I := fun r => r.state.instretSuppressNext = false) hstep rfl fun _ _ => trivial

end

/-! ## The law -/

section
variable [SoftFloat]

/-- the fetch or the instruction of the iteration raises an exception -/
def raises (host : HostInput) (r : Run) : Prop :=
  ∃ s, fetchExec (fetchState host r) = .ok s ∧ s.traps ≠ (fetchState host r).traps

/-- the iteration comes to the write of val to a half of the counter -/
def storesCount (host : HostInput) (r : Run) (h : Half) (val : Word) : Prop :=
  ∃ t ins, Executes host r t ins ∧ countWrite t ins h = some val

omit [SoftFloat] in
theorem storesCount_iff {host : HostInput} {r : Run} {h : Half} {val : Word} : storesCount host r h val ↔
    ((executed host r).bind fun x => countWrite x.1 x.2 h) = some val := by
  rw [Option.bind_eq_some_iff]
  constructor
  · rintro ⟨t, ins, hx, hw⟩
    exact ⟨(t, ins), (executes_iff host r t ins).1 hx, hw⟩
  · rintro ⟨⟨t, ins⟩, hx, hw⟩
    exact ⟨t, ins, (executes_iff host r t ins).2 hx, hw⟩

theorem not_raises {host : HostInput} {r : Run} (h : (fetchExec (fetchState host r)).toOption.map Machine.traps =
    some (fetchState host r).traps) : ¬ raises host r := by
  rintro ⟨s, hs, hne⟩
  rw [hs] at h
  exact hne (Option.some.inj h)

/-- and its access is legal -/
def writesCount (host : HostInput) (r : Run) (h : Half) (val : Word) : Prop := storesCount host r h val ∧ ¬ raises host r

/-- instret after an iteration that counts what retired -/
structure CountsRetired (host : HostInput) (r r' : Run) : Prop where
  write : ∀ h val, writesCount host r h val → h.part r'.state.instret = val ∧
    h.other.part r'.state.instret = h.other.part r.state.instret
  retires : (∀ h val, ¬ writesCount host r h val) → ¬ raises host r → r'.state.instret = r.state.instret + 1
  exception : raises host r → r'.state.instret = r.state.instret

variable {host : HostInput} {r r' : Run}

omit [SoftFloat] in
theorem countWrite_unique {t : Machine} {ins : Word} {h h' : Half} {val val' : Word} (hw : countWrite t ins h = some val)
    (hw' : countWrite t ins h' = some val') : h' = h ∧ val' = val := by
  have hinj : ∀ a b : Half, a.csr = b.csr → a = b := fun a b hab => by
    cases a <;> cases b <;> first | rfl | exact absurd hab (by decide)
  have heq : h' = h := by
    unfold countWrite csrWritten at hw hw'
    split_ifs at hw hw'
    cases hd : decode ins with
    | zicsr op rs1 rd csr =>
      rw [hd] at hw hw'
      dsimp only at hw hw'
      split_ifs at hw hw' with hc hc'
      exact hinj _ _ (hc'.symm.trans hc)
    | _ => rw [hd] at hw; cases hw
  subst heq
  exact ⟨rfl, Option.some.inj (hw'.symm.trans hw)⟩

/-- **One iteration.** -/
theorem countsRetired_iff (hq : host.quit = false) (hsup : r.state.instretSuppressNext = false)
    (h : iteration host r = .ok r') : CountsRetired host r r' ↔
      (raises host r → ∃ h val, storesCount host r h val ∧ h.part r.state.instret = val) := by
  obtain ⟨-, hwrite | ⟨hno, hcount⟩⟩ := iteration_instret hq hsup h
  · obtain ⟨t, ins, half, val, hx, hval, hstore⟩ := hwrite
    constructor
    · intro hlaw hr
      have hsame := hlaw.exception hr
      rw [hstore] at hsame
      exact ⟨half, val, ⟨t, ins, hx, hval⟩, by rw [← hsame, half.part_store]⟩
    · intro hcond
      refine ⟨?_, fun hnone hr => absurd ⟨⟨t, ins, hx, hval⟩, hr⟩ (hnone half val), ?_⟩
      · intro h' val' hw
        obtain ⟨⟨t', ins', hx', hval'⟩, -⟩ := hw
        obtain ⟨rfl, rfl⟩ := hx.unique hx'
        obtain ⟨rfl, rfl⟩ := countWrite_unique hval hval'
        rw [hstore]
        exact ⟨h'.part_store _ _, h'.other_store _ _⟩
      · intro hr
        obtain ⟨h', val', ⟨t', ins', hx', hval'⟩, hpart⟩ := hcond hr
        obtain ⟨rfl, rfl⟩ := hx.unique hx'
        obtain ⟨rfl, rfl⟩ := countWrite_unique hval hval'
        rw [hstore]
        exact h'.ext_iff.2 ⟨(h'.part_store _ _).trans hpart.symm, h'.other_store _ _⟩
  · have hnone : ∀ h val, ¬ storesCount host r h val := fun h val ⟨t, ins, hx, hval⟩ => by
      rw [hno t ins h hx] at hval
      cases hval
    constructor
    · intro hlaw hr
      have hsame := hcount.symm.trans (hlaw.exception hr)
      exact absurd (BitVec.add_right_eq_self.1 hsame) (by decide)
    · intro hcond
      refine ⟨fun h val hw => absurd hw.1 (hnone h val), fun _ _ => hcount, ?_⟩
      intro hr
      obtain ⟨h, val, hs, -⟩ := hcond hr
      exact absurd hs (hnone h val)

/-- **Two writes in a row**, of either half first, set the whole counter. -/
theorem CountsRetired.both {host' : HostInput} {r'' : Run} {h : Half} {val val' : Word} (h1 : CountsRetired host r r')
    (h2 : CountsRetired host' r' r'') (hw : writesCount host r h val) (hw' : writesCount host' r' h.other val') :
    h.part r''.state.instret = val ∧ h.other.part r''.state.instret = val' := by
  obtain ⟨hval', hkept⟩ := h2.write _ _ hw'
  have hback : h.other.other = h := by cases h <;> rfl
  rw [hback] at hkept
  exact ⟨hkept.trans (h1.write _ _ hw).1, hval'⟩

/-- where the iteration raises an exception, its word writes to a half of minstret what is there -/
def countsRight (host : HostInput) (r : Run) : Prop :=
  raises host r → ∃ h val, storesCount host r h val ∧ h.part r.state.instret = val

/-- an iteration that writes a half keeps the law, legal as the access is -/
theorem writesCount.right {h : Half} {val : Word} (hw : writesCount host r h val) : countsRight host r :=
  fun hr => absurd hr hw.2

/-- **instret counts retired instructions**, in the iterations of a run from reset that raise no exception, or one whose
illegal write stores what is there; and two writes in a row set it. -/
theorem instret_counts_iff (gpr : Reg → Word) (mainMemory : Word → Byte) (programBase : Word) (active : Bool)
    {p : List (Run × HostInput)} (hp : Path loopStep (runInit gpr mainMemory programBase active) p r)
    (h : loopStep r host r') (hq : host.quit = false) :
    (CountsRetired host r r' ↔ countsRight host r) ∧
      ∀ half val val' host' r'', loopStep r' host' r'' → writesCount host r half val →
        writesCount host' r' half.other val' →
        half.part r''.state.instret = val ∧ half.other.part r''.state.instret = val' := by
  have hsup := suppress_run gpr mainMemory programBase active hp
  refine ⟨countsRetired_iff hq hsup h.2, ?_⟩
  intro half val val' host' r'' h' hw hw'
  have hsup' := suppress_run gpr mainMemory programBase active (hp.append (.cons h (.nil r')))
  obtain ⟨⟨t, ins, hx, -⟩, -⟩ := id hw'
  have h1 := (countsRetired_iff hq hsup h.2).2 hw.right
  exact h1.both ((countsRetired_iff hx.1 hsup' h'.2).2 hw'.right) hw hw'

end

/-- M-mode about to execute ECALL, with the handler at 0 -/
def ecallRun : Run := runInit (fun _ => 0) (fun a => Bytes.byte (n := 4) (0x00000073 : Word) a.toNat) 0 false

theorem ecallRun_counts : ∃ r, @loopStep noFloat ecallRun ⟨[], false⟩ r ∧ r.state.instret = 1 ∧
    @raises noFloat ⟨[], false⟩ ecallRun := by
  have hp : (match @iteration noFloat ⟨[], false⟩ ecallRun with
    | .ok r => some r.state.instret
    | .error _ => none) = some 1 := by decide
  have ht : (match @fetchExec noFloat (fetchState ⟨[], false⟩ ecallRun) with
    | .ok s => some s.traps.length
    | .error _ => none) = some 1 := by decide
  have hraises : @raises noFloat ⟨[], false⟩ ecallRun := by
    cases hf : @fetchExec noFloat (fetchState ⟨[], false⟩ ecallRun) with
    | error e => rw [hf] at ht; cases ht
    | ok s =>
      rw [hf] at ht
      refine ⟨s, hf, ?_⟩
      intro hsame
      have hlen := Option.some.inj ht
      rw [hsame] at hlen
      exact absurd hlen (by decide)
  cases hi : @iteration noFloat ⟨[], false⟩ ecallRun with
  | error e => rw [hi] at hp; cases hp
  | ok r =>
    rw [hi] at hp
    exact ⟨r, ⟨by decide, hi⟩, Option.some.inj hp, hraises⟩

theorem ecall_counts : ¬ ∀ p r host r', Path (@loopStep noFloat) ecallRun p r → @loopStep noFloat r host r' →
    host.quit = false → @CountsRetired noFloat host r r' := by
  intro h
  obtain ⟨r, hr, hone, hraises⟩ := ecallRun_counts
  have hlaw := h [] ecallRun ⟨[], false⟩ r (.nil _) hr rfl
  have hsame := @CountsRetired.exception noFloat _ _ _ hlaw hraises
  exact absurd (hone.symm.trans hsame) (by decide)

/-- csrw minstret, x1; csrw minstreth, x2 -/
def presetRun : Run :=
  runInit (fun x => x.setWidth 32 + 4) (fun a => Bytes.byte (n := 8) (0xB8211073B0209073 : BitVec 64) a.toNat) 0 false

def presetNext : Run := (@iteration noFloat ⟨[], false⟩ presetRun).toOption.getD presetRun
def presetEnd : Run := (@iteration noFloat ⟨[], false⟩ presetNext).toOption.getD presetNext

/-- the counter is what the two writes say, and not a count of them -/
theorem instret_counts_presetRun : (@CountsRetired noFloat ⟨[], false⟩ presetRun presetNext ↔
    @countsRight noFloat ⟨[], false⟩ presetRun) ∧
    Half.low.part presetEnd.state.instret = 5 ∧ Half.high.part presetEnd.state.instret = 6 := by
  have hnext : @loopStep noFloat presetRun ⟨[], false⟩ presetNext := ⟨by decide, ok_getD (by decide) _⟩
  have hend : @loopStep noFloat presetNext ⟨[], false⟩ presetEnd := ⟨by decide, ok_getD (by decide) _⟩
  have hlow : @writesCount noFloat ⟨[], false⟩ presetRun .low 5 :=
    ⟨storesCount_iff.2 (by decide), @not_raises noFloat _ _ (by decide)⟩
  have hhigh : @writesCount noFloat ⟨[], false⟩ presetNext .high 6 :=
    ⟨storesCount_iff.2 (by decide), @not_raises noFloat _ _ (by decide)⟩
  obtain ⟨hiff, hboth⟩ := @instret_counts_iff noFloat _ _ _ _ _ _ _ [] (.nil _) hnext rfl
  exact ⟨hiff, hboth .low 5 6 _ _ hend hlow hhigh⟩

end RiscvEmu
