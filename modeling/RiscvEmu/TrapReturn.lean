/-
Trap entry and return.

A trap saves the privilege and the interrupt enable of the mode it goes to in mstatus, and pc in that mode's xepc; the
return of that mode reads them back. The bits M-mode uses and those S-mode uses are disjoint, so a trap into M-mode
taken inside an S-mode handler does not lose what the handler has to return with. Results:
- `machine_return`, `supervisor_return`: entry and return are inverse;
- `nested_return`: entry into S-mode, entry into M-mode, MRET and SRET, with quiet steps between them;
- `trap_return_inverse`: both.
-/
import Mathlib.Logic.Relation
import RiscvEmu.Init
import RiscvEmu.Status
import RiscvEmu.Steps

namespace RiscvEmu

/-! ## Traps and returns as events -/

/-- the two ways into a trap -/
inductive TrapEvent where
  | exception (cause tval : Word)
  | interrupt (irq : Word)
deriving DecidableEq, Repr

def TrapEvent.enter (s : Machine) : TrapEvent → Machine
  | .exception cause tval => raiseException s cause tval
  | .interrupt irq => raiseInterrupt s irq

/-- the state in which the handler is fetched: an exception is raised inside an iteration, an interrupt before it -/
def TrapEvent.handler (s : Machine) : TrapEvent → Machine
  | .exception cause tval => pcForward (raiseException s cause tval)
  | .interrupt irq => raiseInterrupt s irq

/-- mstatus holds no bit its write callback would drop -/
def writableStatus (s : Machine) : Prop := s.csr csrMstatus &&& ~~~mstatusWritableMask = 0

instance (s : Machine) : Decidable (writableStatus s) := by unfold writableStatus; infer_instance

/-- the interrupt enable of a mode, MIE or SIE -/
def enableBit (mode : Priv) : ℕ := if mode = prvMachine then 3 else 1

/-- the fields a trap into the mode saves state in: MPIE and MPP, or SPIE and SPP -/
def savedBit (mode : Priv) (i : ℕ) : Prop :=
  if mode = prvMachine then i = 7 ∨ i = 11 ∨ i = 12 else i = 5 ∨ i = 8

/-- s' is s again, but for the fields the mode saved state in -/
structure Restored (mode : Priv) (s s' : Machine) : Prop where
  privilege : s'.privilege = s.privilege
  enable : (s'.csr csrMstatus).getLsbD (enableBit mode) = (s.csr csrMstatus).getLsbD (enableBit mode)
  pc : s'.pc = s.pc
  gpr : s'.gpr = s.gpr
  mem : s'.mainMemory = s.mainMemory
  status : ∀ i < 32, ¬ savedBit mode i → (s'.csr csrMstatus).getLsbD i = (s.csr csrMstatus).getLsbD i

/-! ## mstatus -/

section
variable {m : Word} {i : ℕ}

theorem getLsbD_statusOnTrap_machine (hw : m &&& ~~~mstatusWritableMask = 0) (p : Priv) (hi : i < 32) :
    (statusOnTrap prvMachine m p).getLsbD i =
      if i = 3 then false else if i = 7 then m.getLsbD 3 else if i = 11 then p.getLsbD 0
      else if i = 12 then p.getLsbD 1 else m.getLsbD i := by
  have hbit := congrArg (fun x => x.getLsbD i) hw
  simp only [BitVec.getLsbD_and, BitVec.getLsbD_not, hi, decide_true, Bool.true_and] at hbit
  have hzero : (0#32).getLsbD i = false := BitVec.getLsbD_zero
  rw [statusOnTrap, if_pos rfl, BitVec.getLsbD_and, getLsbD_mstatusOnTrap _ _ hi]
  have h7 : mstatusWritableMask.getLsbD 7 = true := rfl
  have h11 : mstatusWritableMask.getLsbD 11 = true := rfl
  have h12 : mstatusWritableMask.getLsbD 12 = true := rfl
  split_ifs with e3 e7 e11 e12
  · rfl
  · rw [e7, h7, Bool.and_true]
  · rw [e11, h11, Bool.and_true]
  · rw [e12, h12, Bool.and_true]
  · cases hm : m.getLsbD i with
    | false => rfl
    | true => cases hmask : mstatusWritableMask.getLsbD i with
      | true => rfl
      | false => simp [hm, hmask] at hbit

theorem getLsbD_statusOnTrap_supervisor (p : Priv) (hi : i < 32) :
    (statusOnTrap prvSupervisor m p).getLsbD i =
      if i = 1 then false else if i = 5 then m.getLsbD 1 else if i = 8 then decide (p = prvSupervisor)
      else m.getLsbD i := by
  have h1 : sstatusMask.getLsbD 1 = true := rfl
  have h5 : sstatusMask.getLsbD 5 = true := rfl
  have h8 : sstatusMask.getLsbD 8 = true := rfl
  rw [statusOnTrap, if_neg (by decide), getLsbD_sstatusInto _ _ hi, getLsbD_sstatusOnTrap _ _ hi, sstatusOf_eq,
    BitVec.getLsbD_and, BitVec.getLsbD_and, h1, Bool.and_true]
  split_ifs with hmask e1 e5 e8 e1 e5 e8
  · rfl
  · rfl
  · rfl
  · rw [hmask, Bool.and_true]
  · rw [e1] at hmask; exact absurd h1 hmask
  · rw [e5] at hmask; exact absurd h5 hmask
  · rw [e8] at hmask; exact absurd h8 hmask
  · rfl

/-- mstatus after SRET -/
def statusOnSret (m : Word) : Word := sstatusInto m (sstatusOnReturn (sstatusOf m))

theorem getLsbD_statusOnSret (hi : i < 32) : (statusOnSret m).getLsbD i =
    if i = 8 then false else if i = 5 then true else if i = 1 then m.getLsbD 5 else m.getLsbD i := by
  have h1 : sstatusMask.getLsbD 1 = true := rfl
  have h5 : sstatusMask.getLsbD 5 = true := rfl
  have h8 : sstatusMask.getLsbD 8 = true := rfl
  rw [statusOnSret, getLsbD_sstatusInto _ _ hi, getLsbD_sstatusOnReturn _ hi, sstatusOf_eq, BitVec.getLsbD_and,
    BitVec.getLsbD_and, h5, Bool.and_true]
  split_ifs with hmask e8 e5 e1 e8 e5 e1
  · rfl
  · rfl
  · rfl
  · rw [hmask, Bool.and_true]
  · rw [e8] at hmask; exact absurd h8 hmask
  · rw [e5] at hmask; exact absurd h5 hmask
  · rw [e1] at hmask; exact absurd h1 hmask
  · rfl

/-- a trap into S-mode keeps mstatus within the writable bits -/
theorem writable_statusOnTrap_supervisor (hw : m &&& ~~~mstatusWritableMask = 0) (p : Priv) :
    statusOnTrap prvSupervisor m p &&& ~~~mstatusWritableMask = 0 := by
  apply BitVec.eq_of_getLsbD_eq
  intro j hj
  have hbit := congrArg (fun x => x.getLsbD j) hw
  have h1 : mstatusWritableMask.getLsbD 1 = true := rfl
  have h5 : mstatusWritableMask.getLsbD 5 = true := rfl
  have h8 : mstatusWritableMask.getLsbD 8 = true := rfl
  simp only [BitVec.getLsbD_and, BitVec.getLsbD_not, hj, decide_true, Bool.true_and] at hbit ⊢
  rw [getLsbD_statusOnTrap_supervisor p hj]
  split_ifs with e1 e5 e8
  · simp
  · simp [e5, h5]
  · simp [e8, h8]
  · exact hbit

end

/-! ## What an event saves -/

/-- entry saves pc in the mode's xepc and the status in mstatus; S-mode is entered from below M-mode only -/
theorem TrapEvent.enter_spec (e : TrapEvent) (s : Machine) :
    (∃ cause tval, (e.enter s).csr = trapCsr s (e.enter s).privilege cause tval s.pc) ∧
      ((e.enter s).privilege = prvMachine ∨
        (e.enter s).privilege = prvSupervisor ∧ (s.privilege = prvUser ∨ s.privilege = prvSupervisor)) ∧
      (e.enter s).gpr = s.gpr ∧ (e.enter s).mainMemory = s.mainMemory := by
  have hmode : ∀ deleg cause, trapMode s deleg cause = prvMachine ∨
      trapMode s deleg cause = prvSupervisor ∧ (s.privilege = prvUser ∨ s.privilege = prvSupervisor) := by
    intro deleg cause
    unfold trapMode delegateToS
    split_ifs <;> simp_all
  cases e with
  | exception cause tval =>
    simp only [TrapEvent.enter, raiseException_eq_pc, raiseExceptionPc_csr, raiseExceptionPc_privilege,
      raiseExceptionPc_gpr, raiseExceptionPc_mainMemory]
    exact ⟨⟨_, _, rfl⟩, hmode _ _, trivial, trivial⟩
  | interrupt irq =>
    simp only [TrapEvent.enter, raiseInterrupt_csr, raiseInterrupt_privilege, raiseInterrupt_gpr,
      raiseInterrupt_mainMemory]
    exact ⟨⟨_, _, rfl⟩, hmode _ _, trivial, trivial⟩

/-- what a trap into a mode leaves where the return looks for it -/
structure Saved (mode : Priv) (s t : Machine) : Prop where
  status : t.csr csrMstatus = statusOnTrap mode (s.csr csrMstatus) s.privilege
  epc : t.csr (epcOf mode) = s.pc

theorem TrapEvent.enter_saved {e : TrapEvent} {s : Machine} {mode : Priv} (h : (e.enter s).privilege = mode) :
    Saved mode s (e.enter s) := by
  obtain ⟨⟨cause, tval, hcsr⟩, -⟩ := e.enter_spec s
  rw [h] at hcsr
  exact ⟨by rw [hcsr, trapCsr_mstatus], by rw [hcsr, trapCsr_epc]⟩

/-- the supervisor's saved pc survives a trap into M-mode -/
theorem TrapEvent.enter_sepc {e : TrapEvent} {s : Machine} (h : (e.enter s).privilege = prvMachine) :
    (e.enter s).csr csrSepc = s.csr csrSepc := by
  obtain ⟨⟨cause, tval, hcsr⟩, -⟩ := e.enter_spec s
  rw [hcsr, h]
  simp [trapCsr, causeOf, tvalOf, epcOf]

/-- the handler runs with what entry saved -/
theorem TrapEvent.handler_quiet (e : TrapEvent) (s : Machine) : Quiet (e.enter s) (e.handler s) := by
  cases e <;> exact ⟨rfl, rfl, rfl⟩

/-! ## The returns -/

theorem insSret_eq {s : Machine} (h : s.csr csrMstatus &&& mstatusTsr = 0) : insSret s =
    { s with
      csr := Function.update s.csr csrMstatus (statusOnSret (s.csr csrMstatus))
      privilege := if (s.csr csrMstatus).getLsbD 8 then prvSupervisor else prvUser
      pc := s.csr csrSepc - 4 } := by
  have hspp : (sstatusOf (s.csr csrMstatus) >>> 8 &&& 1 ≠ 0) ↔ (s.csr csrMstatus).getLsbD 8 = true := by
    have hb : (sstatusOf (s.csr csrMstatus) >>> 8 &&& 1#32 <<< 0 ≠ 0) ↔ _ := Bits.and_bit_ne_zero _
    rw [BitVec.getLsbD_ushiftRight, sstatusOf_eq, BitVec.getLsbD_and, show sstatusMask.getLsbD (8 + 0) = true from rfl,
      Bool.and_true] at hb
    rw [sstatusOf_eq]
    exact hb
  unfold insSret
  rw [if_neg fun hc => hc.2 h]
  simp only [csrRead_sstatus, csrWrite_sstatus, csrRead_sepc, hspp]
  rfl

/-- MRET gives back what a trap into M-mode saved -/
theorem mret_saved {s t u : Machine} (hw : writableStatus s) (hs : Saved prvMachine s t) (hq : Quiet t u) :
    let r := pcForward (insMret u)
    r.privilege = s.privilege ∧ r.pc = s.pc ∧
      ∀ i < 32, ¬ savedBit prvMachine i → (r.csr csrMstatus).getLsbD i = (s.csr csrMstatus).getLsbD i := by
  have hst : u.csr csrMstatus = statusOnTrap prvMachine (s.csr csrMstatus) s.privilege := by rw [hq.csr, hs.status]
  have hepc : u.csr csrMepc = s.pc := by rw [hq.csr]; exact hs.epc
  refine ⟨?_, ?_, ?_⟩
  · change mppOf (u.csr csrMstatus) = s.privilege
    apply BitVec.eq_of_getLsbD_eq
    intro j hj
    rw [getLsbD_mppOf _ hj, hst, getLsbD_statusOnTrap_machine hw _ (by omega)]
    interval_cases j <;> rfl
  · change u.csr csrMepc - 4 + 4 = s.pc
    rw [hepc, BitVec.sub_add_cancel]
  · intro i hi hsaved
    rw [savedBit, if_pos rfl] at hsaved
    change (mstatusOnReturn (u.csr csrMstatus)).getLsbD i = _
    rw [getLsbD_mstatusOnReturn _ hi, hst, getLsbD_statusOnTrap_machine hw _ (by decide),
      getLsbD_statusOnTrap_machine hw _ hi]
    split_ifs with e12 e11 e7 e3 <;> first | rfl | (exfalso; omega) | rw [e3]

/-- SRET gives back what a trap into S-mode saved, if the bits kept since include the supervisor's and TSR -/
theorem sret_saved {s u : Machine} (kept : ℕ → Prop) (hk : kept 1 ∧ kept 5 ∧ kept 8 ∧ kept 22)
    (hp : s.privilege = prvUser ∨ s.privilege = prvSupervisor) (htsr : s.csr csrMstatus &&& mstatusTsr = 0)
    (hst : ∀ i < 32, kept i →
      (u.csr csrMstatus).getLsbD i = (statusOnTrap prvSupervisor (s.csr csrMstatus) s.privilege).getLsbD i)
    (hepc : u.csr csrSepc = s.pc) :
    let r := pcForward (insSret u)
    r.privilege = s.privilege ∧ r.pc = s.pc ∧ r.gpr = u.gpr ∧ r.mainMemory = u.mainMemory ∧
      ∀ i < 32, kept i → ¬ savedBit prvSupervisor i →
        (r.csr csrMstatus).getLsbD i = (s.csr csrMstatus).getLsbD i := by
  obtain ⟨h1, h5, h8, h22⟩ := hk
  have htsr' : u.csr csrMstatus &&& mstatusTsr = 0 := by
    rw [mstatusTsr, Bits.and_bit_eq_zero] at htsr ⊢
    rw [hst 22 (by decide) h22, getLsbD_statusOnTrap_supervisor _ (by decide)]
    exact htsr
  simp only [insSret_eq htsr', pcForward]
  refine ⟨?_, ?_, trivial, trivial, ?_⟩
  · rw [hst 8 (by decide) h8, getLsbD_statusOnTrap_supervisor _ (by decide)]
    rcases hp with hp | hp <;> rw [hp] <;> rfl
  · rw [hepc, BitVec.sub_add_cancel]
  · intro i hi hki hsaved
    rw [savedBit, if_neg (by decide)] at hsaved
    change (statusOnSret (u.csr csrMstatus)).getLsbD i = _
    rw [getLsbD_statusOnSret hi, hst 5 (by decide) h5, hst i hi hki, getLsbD_statusOnTrap_supervisor _ (by decide),
      getLsbD_statusOnTrap_supervisor _ hi]
    split_ifs with e8 e5 e1 <;> first | rfl | (exfalso; omega) | rw [e1]

/-! ## Entry and return -/

/-- a trap into M-mode and the MRET that answers it -/
theorem machine_return {s : Machine} {e : TrapEvent} (hw : writableStatus s) (hm : (e.enter s).privilege = prvMachine) :
    Restored prvMachine s (pcForward (insMret (e.enter s))) := by
  obtain ⟨-, -, hg, hmem⟩ := e.enter_spec s
  obtain ⟨hp, hpc, hst⟩ := mret_saved hw (e.enter_saved hm) (Kept.refl _).quiet
  exact ⟨hp, hst 3 (by decide) (by simp [savedBit]), hpc, hg, hmem, hst⟩

/-- a trap into S-mode and the SRET that answers it -/
theorem supervisor_return {s : Machine} {e : TrapEvent} (htsr : s.csr csrMstatus &&& mstatusTsr = 0)
    (hm : (e.enter s).privilege = prvSupervisor) : Restored prvSupervisor s (pcForward (insSret (e.enter s))) := by
  obtain ⟨-, hfrom, hg, hmem⟩ := e.enter_spec s
  have hs := e.enter_saved hm
  have hp : s.privilege = prvUser ∨ s.privilege = prvSupervisor := by
    rcases hfrom with h | h
    · exact absurd (hm.symm.trans h) (by decide)
    · exact h.2
  obtain ⟨hp', hpc, hg', hmem', hst⟩ := sret_saved (fun _ => True) ⟨trivial, trivial, trivial, trivial⟩ hp htsr
    (fun i _ _ => by rw [hs.status]) hs.epc
  exact ⟨hp', hst 1 (by decide) trivial (by simp [savedBit]), hpc, hg'.trans hg, hmem'.trans hmem,
    fun i hi hn => hst i hi trivial hn⟩

/-! ## Quiet steps -/

section
variable [SoftFloat]

/-- a step that neither traps, returns nor writes a CSR: an iteration of the main loop whose instruction is none of
those, or the part of an iteration before its instruction raises, which changes memory and devices only -/
inductive QuietStep : Machine → Machine → Prop where
  | iteration {host : HostInput} {r r' : Run} (h : iteration host r = .ok r') (ht : r'.state.traps = r.state.traps)
      (hi : ∀ ins, fetched host r = some ins →
        (decode ins).isReturn = false ∧ (decode ins).writesCsr = false) : QuietStep r.state r'.state
  | access (s : Machine) (mem : Word → Byte) (flags : Hashmap) (dev : Devices) (pc : Word) :
      QuietStep s { s with mainMemory := mem, mmuFlags := flags, dev := dev, gPrevInsPc := pc }

abbrev QuietRun : Machine → Machine → Prop := Relation.ReflTransGen QuietStep

theorem QuietStep.quiet {s s' : Machine} (h : QuietStep s s') : Quiet s s' := by
  cases h with
  | iteration h ht hi => exact iteration_quiet h ht hi
  | access => exact ⟨rfl, rfl, rfl⟩

theorem QuietRun.quiet {s s' : Machine} (h : QuietRun s s') : Quiet s s' := by
  induction h with
  | refl => exact (Kept.refl s).quiet
  | tail _ hstep ih => exact ih.trans hstep.quiet

/-- **Nested traps.** Entry into S-mode, entry into M-mode, MRET and SRET, with quiet steps between them: MRET goes back
into the supervisor handler, and SRET to where it all began. -/
theorem nested_return {s0 s2 s4 s6 : Machine} {e e' : TrapEvent} (hw : writableStatus s0)
    (htsr : s0.csr csrMstatus &&& mstatusTsr = 0)
    (hS : (e.enter s0).privilege = prvSupervisor) (h12 : QuietRun (e.handler s0) s2)
    (hM : (e'.enter s2).privilege = prvMachine) (h34 : QuietRun (e'.handler s2) s4)
    (h56 : QuietRun (pcForward (insMret s4)) s6) :
    (pcForward (insMret s4)).privilege = s2.privilege ∧ (pcForward (insMret s4)).pc = s2.pc ∧
      (pcForward (insSret s6)).privilege = s0.privilege ∧ (pcForward (insSret s6)).pc = s0.pc ∧
      ((pcForward (insSret s6)).csr csrMstatus).getLsbD (enableBit prvMachine) =
        (s0.csr csrMstatus).getLsbD (enableBit prvMachine) ∧
      ((pcForward (insSret s6)).csr csrMstatus).getLsbD (enableBit prvSupervisor) =
        (s0.csr csrMstatus).getLsbD (enableBit prvSupervisor) := by
  -- the first trap and the quiet run after it
  have hs1 := e.enter_saved hS
  have hq2 := (e.handler_quiet s0).trans h12.quiet
  have hp : s0.privilege = prvUser ∨ s0.privilege = prvSupervisor := by
    rcases (e.enter_spec s0).2.1 with h | h
    · exact absurd (hS.symm.trans h) (by decide)
    · exact h.2
  have hst2 : s2.csr csrMstatus = statusOnTrap prvSupervisor (s0.csr csrMstatus) s0.privilege := by
    rw [hq2.csr, hs1.status]
  have hepc2 : s2.csr csrSepc = s0.pc := by rw [hq2.csr]; exact hs1.epc
  have hw2 : writableStatus s2 := by
    unfold writableStatus
    rw [hst2]
    exact writable_statusOnTrap_supervisor hw _
  -- the second trap, the quiet run after it, and MRET
  have hq4 := (e'.handler_quiet s2).trans h34.quiet
  obtain ⟨hp5, hpc5, hst5⟩ := mret_saved hw2 (e'.enter_saved hM) hq4
  have hepc5 : (pcForward (insMret s4)).csr csrSepc = s0.pc := by
    have hm : (pcForward (insMret s4)).csr csrSepc = s4.csr csrSepc := rfl
    rw [hm, hq4.csr, e'.enter_sepc hM, hepc2]
  -- the third quiet run and SRET
  have hq6 := h56.quiet
  obtain ⟨hp7, hpc7, -, -, hst7⟩ := sret_saved (u := s6) (fun i => ¬ savedBit prvMachine i)
    (by simp [savedBit]) hp htsr (fun i hi hn => by rw [hq6.csr, hst5 i hi hn, hst2]) (by rw [hq6.csr, hepc5])
  refine ⟨hp5, hpc5, hp7, hpc7, ?_, ?_⟩
  · exact hst7 3 (by decide) (by simp [savedBit]) (by simp [savedBit])
  · exact hst7 1 (by decide) (by simp [savedBit]) (by simp [savedBit])

/-- **Trap entry and return are inverse, also when nested.** -/
theorem trap_return_inverse :
    (∀ (s : Machine) (e : TrapEvent), writableStatus s →
      ((e.enter s).privilege = prvMachine → Restored prvMachine s (pcForward (insMret (e.enter s)))) ∧
      ((e.enter s).privilege = prvSupervisor → s.csr csrMstatus &&& mstatusTsr = 0 →
        Restored prvSupervisor s (pcForward (insSret (e.enter s))))) ∧
    (∀ (s0 s2 s4 s6 : Machine) (e e' : TrapEvent), writableStatus s0 → s0.csr csrMstatus &&& mstatusTsr = 0 →
      (e.enter s0).privilege = prvSupervisor → QuietRun (e.handler s0) s2 →
      (e'.enter s2).privilege = prvMachine → QuietRun (e'.handler s2) s4 →
      QuietRun (pcForward (insMret s4)) s6 →
      (pcForward (insMret s4)).privilege = s2.privilege ∧ (pcForward (insMret s4)).pc = s2.pc ∧
        (pcForward (insSret s6)).privilege = s0.privilege ∧ (pcForward (insSret s6)).pc = s0.pc ∧
        ((pcForward (insSret s6)).csr csrMstatus).getLsbD (enableBit prvMachine) =
          (s0.csr csrMstatus).getLsbD (enableBit prvMachine) ∧
        ((pcForward (insSret s6)).csr csrMstatus).getLsbD (enableBit prvSupervisor) =
          (s0.csr csrMstatus).getLsbD (enableBit prvSupervisor)) :=
  ⟨fun _ _ hw => ⟨machine_return hw, fun hm htsr => supervisor_return htsr hm⟩,
    fun _ _ _ _ _ _ hw htsr hS h12 hM h34 h56 => nested_return hw htsr hS h12 hM h34 h56⟩

end

/-- user mode at 0x400, both interrupt enables set, environment calls from user mode delegated -/
def callMachine : Machine :=
  { machineInit (fun _ => 0) (fun _ => 0) 0x400 with
    privilege := prvUser
    csr := Function.update (Function.update (fun i => (csrTable i).value) csrMstatus 0xA) csrMedeleg 0x100 }

/-- an environment call from user mode, and one from its handler -/
theorem trap_return_inverse_callMachine :
    let inner := TrapEvent.handler callMachine (.exception causeUserEcall 0)
    let outer := TrapEvent.handler inner (.exception causeSupervisorEcall 0)
    let back := pcForward (insMret outer)
    outer.privilege = prvMachine ∧ back.privilege = prvSupervisor ∧
      (pcForward (insSret back)).privilege = prvUser ∧ (pcForward (insSret back)).pc = 0x400 := by
  have h := (@trap_return_inverse noFloat).2 callMachine _ _ _ (.exception causeUserEcall 0)
    (.exception causeSupervisorEcall 0) (by decide) (by decide) (by decide) .refl (by decide) .refl .refl
  exact ⟨by decide, h.1.trans (by decide), h.2.2.1, h.2.2.2.1⟩

end RiscvEmu
