/-
The CSR file over whole runs.

Whatever an instruction, a trap or a return does to the CSRs, it does through the elementary changes; each keeps the file
within what is implemented. Results:
- `csrWrite_csrFile`, `trapCsr_readOnly`: csr_write and trap entry keep it;
- `csr_file`: in every state of every run, mstatus has its writable bits alone, the read-only registers hold their reset
  values, tselect names one of the four trigger slots, and no slot takes dmode.
-/
import RiscvEmu.SpinDetector
import RiscvEmu.TrapReturn

namespace RiscvEmu

open Runs

/-- the index names a slot, no slot takes dmode, and nothing is written past the array of sdtrig_extension.c -/
structure TrigFile (g : Sdtrig) : Prop where
  select : g.tselect < sdtrigNumTriggers
  dmode : ∀ i, (g.slots i).tdata1 &&& sdtrigDmode = 0
  unwritten : ∀ i ≥ sdtrigNumTriggers, g.slots i = ⟨0, 0⟩

/-- mstatus has its writable bits alone, and a read-only register the value init_csr_table stored -/
structure CsrFile (s : Machine) : Prop where
  status : writableStatus s
  readOnly : ∀ c, (csrTable c).rw = false → s.csr c = (csrTable c).value
  trig : TrigFile s.trig

/-! ## mstatus -/

/-- the bits mstatus_write stores -/
theorem writable_iff (m : Word) : m &&& ~~~mstatusWritableMask = 0 ↔
    ∀ i < 32, m.getLsbD i = true → mstatusWritableMask.getLsbD i = true := by
  refine ⟨?_, ?_⟩
  · intro hm i hi hbit
    have h0 := congrArg (fun x => x.getLsbD i) hm
    simpa [hi, hbit] using h0
  · intro hm
    apply BitVec.eq_of_getLsbD_eq
    intro i hi
    rw [BitVec.getLsbD_and, BitVec.getLsbD_not]
    cases hbit : m.getLsbD i with
    | false => simp
    | true => simp [hm i hi hbit]

theorem writable_sstatusInto {m : Word} (hm : m &&& ~~~mstatusWritableMask = 0) (val : Word) :
    sstatusInto m val &&& ~~~mstatusWritableMask = 0 := by
  rw [writable_iff] at hm ⊢
  have hview : ∀ i < 32, sstatusMask.getLsbD i = true → mstatusWritableMask.getLsbD i = true := by decide
  intro i hi hbit
  rw [getLsbD_sstatusInto _ _ hi] at hbit
  split_ifs at hbit with hs
  · exact hview i hi hs
  · exact hm i hi hbit

theorem writable_mstatusOnReturn {m : Word} (hm : m &&& ~~~mstatusWritableMask = 0) :
    mstatusOnReturn m &&& ~~~mstatusWritableMask = 0 := by
  rw [writable_iff] at hm ⊢
  intro i hi hbit
  rw [getLsbD_mstatusOnReturn _ hi] at hbit
  split_ifs at hbit with h12 h11 h7 h3
  · subst h7; rfl
  · subst h3; rfl
  · exact hm i hi hbit

theorem writable_statusOnTrap {m : Word} (hm : m &&& ~~~mstatusWritableMask = 0) (mode privilege : Priv) :
    statusOnTrap mode m privilege &&& ~~~mstatusWritableMask = 0 := by
  unfold statusOnTrap
  split_ifs
  · rw [BitVec.and_assoc, BitVec.and_not_self]
    exact BitVec.and_zero
  · exact writable_sstatusInto hm _

/-! ## The read-only registers -/

/-- the entry whose value the callback stores is a writable one -/
def storesWritable : Option WriteCallback → Bool
  | some (.setValue c) => (csrTable c).rw
  | _ => true

theorem csrTable_storesWritable (csr : Csr) : storesWritable (csrTable csr).writeCallback = true := by
  unfold csrTable
  split
  all_goals try rfl
  split_ifs <;> rfl

theorem csr_csrWrite_readOnly (s : Machine) (csr : Csr) (val : Word) {c : Csr} (hc : (csrTable c).rw = false) :
    (csrWrite s csr val).csr c = s.csr c := by
  have hne : ∀ {d : Csr}, (csrTable d).rw = true → c ≠ d := by
    rintro d hd rfl
    exact absurd (hc.symm.trans hd) Bool.false_ne_true
  have hw := csrTable_storesWritable csr
  unfold csrWrite
  split_ifs with hrw
  · cases hcb : (csrTable csr).writeCallback with
    | none => exact Function.update_of_ne (hne hrw) _ _
    | some f =>
      rw [hcb] at hw
      cases f with
      | setValue d => exact Function.update_of_ne (hne hw) _ _
      | mstatusWrite => exact Function.update_of_ne (hne rfl) _ _
      | sstatusWrite => exact Function.update_of_ne (hne rfl) _ _
      | setSie => exact Function.update_of_ne (hne rfl) _ _
      | setSip => exact Function.update_of_ne (hne rfl) _ _
      | setFcsr => simp only [WriteCallback.run, setFcsr]; split_ifs <;> rfl
      | setFrm => simp only [WriteCallback.run, setFrm]; split_ifs <;> rfl
      | _ => rfl
  · rfl

theorem trapCsr_readOnly (s : Machine) (mode : Priv) (cause tval epc : Word) {c : Csr}
    (hc : (csrTable c).rw = false) : trapCsr s mode cause tval epc c = s.csr c := by
  refine trapCsr_kept s mode cause tval epc ?_
  refine ⟨?_, ?_, ?_, ?_, ?_, ?_, ?_⟩ <;> (rintro rfl; exact absurd hc (by decide))

/-! ## The trigger slots -/

section
variable {s : Machine} (h : TrigFile s.trig)

include h

theorem setTselect_trig (val : Word) : TrigFile (setTselect s val).trig := by
  refine ⟨?_, h.dmode, h.unwritten⟩
  change (if val.toNat ≥ sdtrigNumTriggers then sdtrigNumTriggers - 1 else val.toNat) < sdtrigNumTriggers
  split_ifs with hv
  · decide
  · exact Nat.lt_of_not_le hv

theorem setSlot_trig {slot : TriggerSlot} (hd : slot.tdata1 &&& sdtrigDmode = 0) : TrigFile (setSlot s slot).trig := by
  refine ⟨h.select, ?_, ?_⟩
  · intro i
    simp only [setSlot, Function.update_apply]
    split_ifs
    · exact hd
    · exact h.dmode i
  · intro i hi
    have hne : i ≠ s.trig.tselect := by
      have := h.select
      omega
    exact (Function.update_of_ne hne _ _).trans (h.unwritten i hi)

theorem csrWrite_trig (csr : Csr) (val : Word) : TrigFile (csrWrite s csr val).trig := by
  unfold csrWrite
  split_ifs
  · cases (csrTable csr).writeCallback with
    | none => exact h
    | some f =>
      cases f with
      | setTselect => exact setTselect_trig h val
      | setTdata1 =>
        refine setSlot_trig h ?_
        rw [BitVec.and_assoc, BitVec.and_comm (~~~sdtrigDmode), BitVec.and_not_self]
        exact BitVec.and_zero
      | setTdata2 => exact setSlot_trig h (h.dmode s.trig.tselect)
      | setTcontrol => exact ⟨h.select, h.dmode, h.unwritten⟩
      | setFcsr => simp only [WriteCallback.run, setFcsr]; split_ifs <;> exact h
      | setFrm => simp only [WriteCallback.run, setFrm]; split_ifs <;> exact h
      | _ => exact h
  · exact h

end

/-! ## The changes -/

section
variable {s t : Machine}

theorem CsrFile.of_eq (h : CsrFile s) (hc : t.csr = s.csr) (hg : t.trig = s.trig) : CsrFile t := by
  refine ⟨?_, ?_, hg ▸ h.trig⟩
  · rw [writableStatus, hc]
    exact h.status
  · rw [hc]
    exact h.readOnly

theorem csrWrite_csrFile (h : CsrFile s) (csr : Csr) (val : Word) : CsrFile (csrWrite s csr val) := by
  refine ⟨?_, ?_, csrWrite_trig h.trig csr val⟩
  · rw [writableStatus, csr_mstatus_csrWrite]
    split_ifs
    · rw [BitVec.and_assoc, BitVec.and_not_self]
      exact BitVec.and_zero
    · exact writable_sstatusInto h.status val
    · exact h.status
  · intro c hc
    rw [csr_csrWrite_readOnly s csr val hc]
    exact h.readOnly c hc

theorem trapEntry_csrFile (h : CsrFile s) (cause tval epc deleg irq pc : Word) :
    CsrFile (trapEntry s cause tval epc deleg irq pc) := by
  refine ⟨?_, ?_, h.trig⟩
  · change trapCsr s _ cause tval epc csrMstatus &&& ~~~mstatusWritableMask = 0
    rw [trapCsr_mstatus]
    exact writable_statusOnTrap h.status _ _
  · intro c hc
    exact (trapCsr_readOnly s _ cause tval epc hc).trans (h.readOnly c hc)

theorem Change.csrFile (h : CsrFile s) (hc : Change s t) : CsrFile t := by
  cases hc with
  | regs hr => obtain ⟨gpr, fpu, rfl⟩ := hr; exact h.of_eq rfl rfl
  | pc pc => exact h.of_eq rfl rfl
  | mem hm => obtain ⟨mem, flags, dev, rfl⟩ := hm; exact h.of_eq rfl rfl
  | csr csr val => exact csrWrite_csrFile h csr val
  | mstatus =>
    refine ⟨?_, ?_, h.trig⟩
    · simp only [writableStatus, setCsr, Function.update_self]
      exact writable_mstatusOnReturn h.status
    · intro c hc
      have hne : c ≠ csrMstatus := by rintro rfl; exact absurd hc (by decide)
      exact (Function.update_of_ne hne _ _).trans (h.readOnly c hc)
  | level privilege pc => exact h.of_eq rfl rfl
  | trap cause tval epc => rw [raiseExceptionPc_eq]; exact trapEntry_csrFile h ..

end

/-! ## Runs -/

section
variable {r r' : Run} {host : HostInput}

theorem fetchState_csrFile (h : CsrFile r.state) (host : HostInput) : CsrFile (fetchState host r) := by
  have hd : CsrFile (checkAndHandleInterrupts r.state) := by
    rcases checkAndHandleInterrupts_cases r.state with hs | ⟨irq, hs⟩
    · rw [hs]
      exact h
    · rw [hs, raiseInterrupt_eq]
      exact trapEntry_csrFile h ..
  exact hd.of_eq rfl rfl

theorem finish_trig (r : Run) (fetchPc : Word) (s : Machine) : (finish r fetchPc s).state.trig = s.trig := by
  have htick : (tick { s with pc := s.pc + 4 }).trig = s.trig := by
    simp only [tick]
    split_ifs <;> rfl
  have hspin : ∀ (t : Machine) (d : SpinDetector), (spinDetect t d fetchPc).1.trig = t.trig := by
    intro t d
    simp only [spinDetect]
    split_ifs <;> rfl
  exact (hspin _ _).trans htick

theorem finish_csrFile {s : Machine} {fetchPc : Word} (h : CsrFile s) : CsrFile (finish r fetchPc s).state :=
  h.of_eq (finish_quiet r fetchPc s).csr (finish_trig r fetchPc s)

/-- the CSRs before the loop -/
theorem csrFile_init (gpr : Reg → Word) (mainMemory : Word → Byte) (programBase : Word) :
    CsrFile (machineInit gpr mainMemory programBase) := by
  refine ⟨?_, fun _ _ => rfl, ⟨Nat.succ_pos 3, fun _ => BitVec.zero_and, fun _ _ => rfl⟩⟩
  change (csrTable csrMstatus).value &&& ~~~mstatusWritableMask = 0
  decide

variable [SoftFloat]

theorem fetchExec_csrFile {s s' : Machine} (hs : CsrFile s) (h : fetchExec s = .ok s') : CsrFile s' := by
  rcases fetchExec_changes h with ⟨hc, -⟩ | ⟨t, ins, -, -, hc, rfl⟩
  · exact hc.invariant (fun _ _ => Change.csrFile) hs
  · exact (hc.invariant (fun _ _ => Change.csrFile) hs).of_eq rfl rfl

/-- **One iteration keeps the CSR file.** -/
theorem loopStep_csrFile (h : CsrFile r.state) (hs : loopStep r host r') : CsrFile r'.state := by
  have hf := fetchState_csrFile h host
  rcases iteration_cases hs.2 with ⟨-, hr⟩ | ⟨-, s, hx, rfl⟩
  · rw [hr]
    exact hf.of_eq rfl rfl
  · exact finish_csrFile (fetchExec_csrFile hf hx)

/-- **The CSR file over whole runs.** -/
theorem csr_file {gpr : Reg → Word} {mainMemory : Word → Byte} {programBase : Word} {active : Bool}
    {p : List (Run × HostInput)} (hp : Path loopStep (runInit gpr mainMemory programBase active) p r) :
    CsrFile r.state :=
  hp.keeps (I := fun r => CsrFile r.state) (fun _ _ _ => loopStep_csrFile) (csrFile_init gpr mainMemory programBase)

end

/-- csrrwi x0, tselect, 31 -/
def selectRun : Run :=
  runInit (fun _ => 0) (fun a => if a = 0 then 0x73 else if a = 1 then 0xD0 else if a = 2 then 0x0F else
    if a = 3 then 0x7A else 0) 0 false

theorem csr_file_selectRun : ∃ p r, Path (@loopStep noFloat) selectRun p r ∧ CsrFile r.state ∧
    r.state.trig.tselect = 3 := by
  have hrun : (@run noFloat [⟨[], false⟩] selectRun).toOption.map (·.state.trig.tselect == 3) = some true := by decide
  obtain ⟨r, hr, hsel⟩ := ok_of_map hrun
  obtain ⟨p, hp⟩ := @run_path noFloat _ _ _ hr
  exact ⟨p, r, hp, @csr_file _ noFloat _ _ _ _ _ hp, beq_iff_eq.1 hsel⟩

end RiscvEmu
