/-
Privilege and CSRs over runs of the main loop.

Apart from the CSR instructions and the returns, an iteration changes them by trap entry only. A law of the privilege and
of mstatus is therefore settled by trap entry, by the writes of CSR instructions and by the returns. Results:
- `run_path`: what the main loop reaches is the end of a path of iterations;
- `Insn.run_entries`, `exec_entries`: an instruction that is neither a CSR instruction nor a return;
- `iteration_modes`: the same for an iteration;
- `Entries.invariant`: a law kept by trap entry is kept by all of these.
-/
import Mathlib.Logic.Relation
import RiscvEmu.Init
import RiscvEmu.Lib.Runs
import RiscvEmu.Status
import RiscvEmu.Steps

namespace RiscvEmu

open Runs

/-! ## Runs -/

/-- the locals of main before its loop -/
def runInit (gpr : Reg → Word) (mainMemory : Word → Byte) (programBase : Word) (spinDetectActive : Bool) : Run where
  state := machineInit gpr mainMemory programBase
  lastFetchPc := 0
  spin := spinInit spinDetectActive
  quit := false

/-- the loop goes on -/
def Run.goesOn (r : Run) : Prop := ¬ (r.state.terminated = true ∨ r.quit = true)

instance (r : Run) : Decidable r.goesOn := by unfold Run.goesOn; infer_instance

/-- what a computation gives, where it is known of its result -/
theorem ok_of_map {α β : Type} {x : Except Fatal α} {f : α → β} {b : β} (h : x.toOption.map f = some b) :
    ∃ r, x = .ok r ∧ f r = b := by
  cases x with
  | error e => cases h
  | ok r => exact ⟨r, rfl, Option.some.inj h⟩

/-- and where it is known only that there is one -/
theorem ok_getD {α : Type} {x : Except Fatal α} (h : x.toOption.isSome = true) (a : α) : x = .ok (x.toOption.getD a) := by
  cases x with
  | error e => cases h
  | ok r => rfl

section
variable [SoftFloat]

/-- one round of the main loop -/
def loopStep (r : Run) (host : HostInput) (r' : Run) : Prop := r.goesOn ∧ iteration host r = .ok r'

/-- the iterations the loop makes over the polls given -/
def trace : List HostInput → Run → List (Run × HostInput)
  | [], _ => []
  | host :: hosts, r =>
    if r.state.terminated ∨ r.quit then []
    else
      match iteration host r with
      | .error _ => []
      | .ok r' => (r, host) :: trace hosts r'

/-- the main loop follows a path of its rounds -/
theorem path_trace {hosts : List HostInput} {r r' : Run} (h : run hosts r = .ok r') :
    Path loopStep r (trace hosts r) r' := by
  induction hosts generalizing r with
  | nil =>
    obtain rfl := Except.ok.inj h
    exact .nil r
  | cons host hosts ih =>
    simp only [run] at h
    rw [trace]
    by_cases hs : r.state.terminated = true ∨ r.quit = true
    · rw [if_pos hs] at h ⊢
      obtain rfl := Except.ok.inj h
      exact .nil r
    · rw [if_neg hs] at h ⊢
      cases hi : iteration host r with
      | error e => rw [hi] at h; cases h
      | ok t =>
        rw [hi] at h
        exact .cons ⟨hs, hi⟩ (ih h)

theorem run_path {hosts : List HostInput} {r r' : Run} (h : run hosts r = .ok r') : ∃ p, Path loopStep r p r' :=
  ⟨_, path_trace h⟩

end

/-! ## Trap entries -/

/-- a step that leaves the privilege and the CSRs alone, or enters a trap -/
inductive Entry (s : Machine) : Machine → Prop
  | quiet {s' : Machine} (h : Quiet s s') : Entry s s'
  | exception (cause tval epc : Word) : Entry s (raiseExceptionPc s cause tval epc)
  | interrupt (irq : Word) : Entry s (raiseInterrupt s irq)

/-- any number of such steps -/
abbrev Entries : Machine → Machine → Prop := Relation.ReflTransGen Entry

section
variable {s t u s' : Machine}

theorem Quiet.entries (h : Quiet s s') : Entries s s' := .single (.quiet h)

theorem Kept.entries (h : Kept s s') : Entries s s' := h.quiet.entries

/-- a trap entry, and nothing that matters afterwards -/
theorem entries_of_raise {cause tval epc : Word} (h : Quiet (raiseExceptionPc s cause tval epc) s') : Entries s s' :=
  Relation.ReflTransGen.trans (.single (.exception cause tval epc)) h.entries

theorem Outcome.entries (h : Outcome s s') : Entries s s' := by
  cases h with
  | quiet hq => exact hq.entries
  | trap cause tval hk => exact entries_of_raise hk.quiet

/-- two accesses in a row, whichever of them faults -/
theorem twoAccesses_entries {a b : Word} {access access' : MmuAccess} (h1 : Kept (mmuTranslate s a access).2 u)
    (h2 : Kept (mmuTranslate u b access').2 s') : Entries s s' :=
  ((((mmuTranslate_outcome s a access).entries.trans h1.entries).trans
    (mmuTranslate_outcome u b access').entries)).trans h2.entries

/-- a law that quiet steps and trap entries keep -/
theorem Entries.invariant {I : Machine → Prop} (hq : ∀ s s', I s → Quiet s s' → I s')
    (he : ∀ s cause tval epc, I s → I (raiseExceptionPc s cause tval epc)) (hi : ∀ s irq, I s → I (raiseInterrupt s irq))
    (h : Entries s s') (hs : I s) : I s' := by
  induction h with
  | refl => exact hs
  | tail _ hstep ih =>
    cases hstep with
    | quiet h => exact hq _ _ ih h
    | exception cause tval epc => exact he _ cause tval epc ih
    | interrupt irq => exact hi _ irq ih

theorem checkAndHandleInterrupts_entries (s : Machine) : Entries s (checkAndHandleInterrupts s) := by
  rcases checkAndHandleInterrupts_cases s with h | ⟨irq, h⟩
  · rw [h]
  · rw [h]
    exact .single (.interrupt irq)

theorem fetchState_entries (host : HostInput) (r : Run) : Entries r.state (fetchState host r) := by
  have hq : Quiet (checkAndHandleInterrupts r.state) (fetchState host r) := ⟨rfl, rfl, rfl⟩
  exact (checkAndHandleInterrupts_entries r.state).trans hq.entries

/-! ## Instructions -/

theorem execCInsn_entries {c : BitVec 16} (h3 : c.extractLsb' 0 2 ≠ 3#2) : Entries s (execCInsn s c).1 := by
  cases ha : compressedAccess c with
  | none => exact (execCInsn_outcome h3 ha).entries
  | some f =>
    rw [execCInsn_access ha]
    have hpc : Quiet (f s) (cAccess s f).1 := by
      simp only [cAccess]
      split_ifs <;> exact ⟨rfl, rfl, rfl⟩
    exact (compressedAccess_outcome ha s).entries.trans hpc.entries

variable [SoftFloat] {ins : Word}

/-- **Every instruction but the CSR instructions and the returns**, also where it makes two accesses that fault. -/
theorem Insn.run_entries {i : Insn} (hc : i.isZicsr = false) (hr : i.isReturn = false) (h : i.run s ins = .ok s') :
    Entries s s' := by
  by_cases hd : i.doubleFault s
  · cases i with
    | atomic a rs1 rs2 rd =>
      cases a with
      | amo o =>
        obtain ⟨-, value, rfl⟩ := AmoOp.exec_cases h
        exact twoAccesses_entries (mmuRead_kept memRead32Unsigned s _)
          ((mmuWrite_kept memWrite32_memStep _ _ _).trans (regWrite_kept _ _ _))
      | _ => exact hd.elim
    | fp i =>
      cases i with
      | load op imm rs1 rd =>
        cases op with
        | flq =>
          have h : (.ok (insfFlq s imm rs1 rd) : Except Fatal Machine) = .ok s' := by
            rw [← h, Insn.run, hd.1]
            rfl
          obtain rfl := Except.ok.inj h
          exact twoAccesses_entries (mmuRead_kept memRead64Unsigned s _)
            ((mmuRead_kept memRead64Unsigned _ _).trans (fpu_kept _ _))
        | _ => exact hd.elim
      | store op imm rs1 rs2 =>
        cases op with
        | fsq =>
          have h : (.ok (insfFsq s imm rs1 rs2) : Except Fatal Machine) = .ok s' := by
            rw [← h, Insn.run, hd.1]
            rfl
          obtain rfl := Except.ok.inj h
          exact twoAccesses_entries (mmuWrite_kept memWrite64_memStep s _ _) (mmuWrite_kept memWrite64_memStep _ _ _)
        | _ => exact hd.elim
      | _ => exact hd.elim
    | _ => exact hd.elim
  · exact ((Insn.run_outcome hc hr h).1 hd).entries

/-- the instructions trap entry does not account for -/
def Insn.changesMode (i : Insn) : Bool := i.isZicsr || i.isReturn

theorem exec_entries (h : exec s ins = .ok s') : Entries s s' ∨
    toSwitch s ins ∧ (decode ins).changesMode = true ∧ (decode ins).run s ins = .ok s' := by
  obtain ⟨-, rfl⟩ | ⟨-, hc, rfl⟩ | ⟨hs, hrun⟩ := exec_cases h
  · exact Or.inl (.single (.exception _ _ _))
  · exact Or.inl (execCInsn_entries (compressed_quadrant hc.2))
  · cases hm : (decode ins).changesMode with
    | true => exact Or.inr ⟨hs, rfl, hrun⟩
    | false =>
      simp only [Insn.changesMode, Bool.or_eq_false_iff] at hm
      exact Or.inl (Insn.run_entries hm.1 hm.2 hrun)

/-- **An iteration enters traps, or runs one CSR instruction or return between them.** -/
theorem iteration_modes {host : HostInput} {r r' : Run} (h : iteration host r = .ok r') :
    (∀ t ins, Executes host r t ins → toSwitch t ins → (decode ins).changesMode = false) ∧
        Entries r.state r'.state ∨
      ∃ t ins u, Entries r.state t ∧ Executes host r t ins ∧ toSwitch t ins ∧ (decode ins).changesMode = true ∧
        (decode ins).run t ins = .ok u ∧ Quiet u r'.state := by
  have hstate := fetchState_entries host r
  rcases iteration_cases h with ⟨hq, hr⟩ | ⟨hq, v, hf, rfl⟩
  · refine Or.inl ⟨fun t ins he => absurd (he.1.symm.trans hq) (by decide), ?_⟩
    have hpoll : Quiet (checkAndHandleInterrupts r.state) r'.state := by rw [hr]; exact ⟨rfl, rfl, rfl⟩
    exact (checkAndHandleInterrupts_entries r.state).trans hpoll.entries
  · have hfin := finish_quiet r (fetchState host r).pc v
    rcases fetchExec_cases hf with ⟨hn, cause, hk⟩ | ⟨t, ins, hm, hk, he⟩
    · exact Or.inl ⟨fun t ins he => absurd he.2 (hn t ins), hstate.trans (entries_of_raise (hk.quiet.trans hfin))⟩
    · cases hc : decide (toSwitch t ins) && (decode ins).changesMode with
      | true =>
        simp only [Bool.and_eq_true, decide_eq_true_eq] at hc
        have hrun := he
        rw [exec_decode hc.1.1 hc.1.2] at hrun
        exact Or.inr ⟨t, ins, v, hstate.trans hk.entries, ⟨hq, hm⟩, hc.1, hc.2, hrun, hfin⟩
      | false =>
        refine Or.inl ⟨?_, ?_⟩
        · intro u w hx hs
          obtain ⟨rfl, rfl⟩ : w = ins ∧ u = t := by simpa using hx.2.1.symm.trans hm.1
          simpa [hs] using hc
        · rcases exec_entries he with he | ⟨hs, hm, -⟩
          · exact ((hstate.trans hk.entries).trans he).trans hfin.entries
          · simp [hs, hm] at hc

end

/-! ## MPP and MPRV -/

theorem mppOf_congr {m m' : Word} (h11 : m.getLsbD 11 = m'.getLsbD 11) (h12 : m.getLsbD 12 = m'.getLsbD 12) :
    mppOf m = mppOf m' := by
  apply BitVec.eq_of_getLsbD_eq
  intro j hj
  rw [getLsbD_mppOf _ hj, getLsbD_mppOf _ hj]
  interval_cases j
  · exact h11
  · exact h12

theorem mppOf_writable (m : Word) : mppOf (m &&& mstatusWritableMask) = mppOf m := by
  have h11 : mstatusWritableMask.getLsbD 11 = true := rfl
  have h12 : mstatusWritableMask.getLsbD 12 = true := rfl
  refine mppOf_congr ?_ ?_
  · rw [BitVec.getLsbD_and, h11, Bool.and_true]
  · rw [BitVec.getLsbD_and, h12, Bool.and_true]

/-- writes through sstatus reach neither MPP nor MPRV -/
theorem mppOf_sstatusInto (m v : Word) : mppOf (sstatusInto m v) = mppOf m :=
  mppOf_congr (getLsbD_sstatusInto m v (by decide)) (getLsbD_sstatusInto m v (by decide))

theorem mprv_sstatusInto (m v : Word) : (sstatusInto m v).getLsbD 17 = m.getLsbD 17 :=
  getLsbD_sstatusInto m v (by decide)

/-- a trap into M-mode saves the privilege in MPP -/
theorem mppOf_statusOnTrap (mode : Priv) (m : Word) (p : Priv) :
    mppOf (statusOnTrap mode m p) = if mode = prvMachine then p else mppOf m := by
  unfold statusOnTrap
  split_ifs
  · rw [mppOf_writable]
    apply BitVec.eq_of_getLsbD_eq
    intro j hj
    rw [getLsbD_mppOf _ hj, getLsbD_mstatusOnTrap _ _ (by omega)]
    interval_cases j <;> rfl
  · exact mppOf_sstatusInto _ _

theorem mprv_statusOnTrap (mode : Priv) (m : Word) (p : Priv) :
    (statusOnTrap mode m p).getLsbD 17 = m.getLsbD 17 := by
  unfold statusOnTrap
  split_ifs
  · rw [BitVec.getLsbD_and, getLsbD_mstatusOnTrap _ _ (by decide)]
    exact Bool.and_true _
  · exact mprv_sstatusInto _ _

theorem mppOf_mstatusOnReturn (m : Word) : mppOf (mstatusOnReturn m) = prvUser := by
  apply BitVec.eq_of_getLsbD_eq
  intro j hj
  rw [getLsbD_mppOf _ hj, getLsbD_mstatusOnReturn _ (by omega)]
  interval_cases j <;> rfl

end RiscvEmu
