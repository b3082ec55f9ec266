/-
Instructions, fetches and iterations of the main loop: what a step without a trap leaves alone.

- `exec_quiet`: an instruction that neither traps, returns nor writes a CSR keeps privilege and CSRs;
- `fetchExec_cases`: a fetch ends in a page fault, in a breakpoint or in the execution of the word fetched;
- `iteration_eq`, `iteration_cases`: an iteration is a dispatch, a fetch and exec, and what follows them;
- `iteration_quiet`: the same for a whole iteration, interrupts, terminal and clocks included.
-/
import RiscvEmu.Outcome
import RiscvEmu.RunLoop

namespace RiscvEmu

/-! ## exec -/

/-- the word goes to the 32-bit switch -/
def toSwitch (s : Machine) (ins : Word) : Prop :=
  fetchAligned s = true ∧ ¬ (misaCEnabled s = true ∧ ins.extractLsb' 0 2 ≠ 3)

instance (s : Machine) (ins : Word) : Decidable (toSwitch s ins) := by unfold toSwitch; infer_instance

section
variable [SoftFloat] {s s' : Machine} {ins : Word}

theorem exec_misaligned (h : fetchAligned s = false) :
    exec s ins = .ok (raiseExceptionPc s causeMisalignedFetch s.pc s.gPrevInsPc) := by
  unfold exec
  rw [if_pos (by simp [h])]

theorem exec_compressed (h : fetchAligned s = true) (hc : misaCEnabled s = true) (hq : ins.extractLsb' 0 2 ≠ 3) :
    exec s ins = .ok (execCInsn s (ins.setWidth 16)).1 := by
  unfold exec
  rw [if_neg (by simp [h]), if_pos ⟨hc, hq⟩]

theorem exec_decode (h : fetchAligned s = true) (hc : ¬ (misaCEnabled s = true ∧ ins.extractLsb' 0 2 ≠ 3)) :
    exec s ins = (decode ins).run s ins := by
  unfold exec
  rw [if_neg (by simp [h]), if_neg hc]

/-- the ends of exec: a misaligned fetch, a compressed instruction, or a 32-bit one -/
theorem exec_cases (h : exec s ins = .ok s') :
    (fetchAligned s = false ∧ s' = raiseExceptionPc s causeMisalignedFetch s.pc s.gPrevInsPc) ∨
      (fetchAligned s = true ∧ (misaCEnabled s = true ∧ ins.extractLsb' 0 2 ≠ 3) ∧
        s' = (execCInsn s (ins.setWidth 16)).1) ∨
      toSwitch s ins ∧ (decode ins).run s ins = .ok s' := by
  cases ha : fetchAligned s with
  | false =>
    rw [exec_misaligned ha] at h
    exact Or.inl ⟨rfl, (Except.ok.inj h).symm⟩
  | true =>
    by_cases hc : misaCEnabled s = true ∧ ins.extractLsb' 0 2 ≠ 3
    · rw [exec_compressed ha hc.1 hc.2] at h
      exact Or.inr (Or.inl ⟨rfl, hc, (Except.ok.inj h).symm⟩)
    · rw [exec_decode ha hc] at h
      exact Or.inr (Or.inr ⟨⟨ha, hc⟩, h⟩)

/-- a 32-bit instruction without a trap, a return or a CSR write -/
theorem Insn.run_quiet {i : Insn} (h : i.run s ins = .ok s') (ht : s'.traps = s.traps) (hr : i.isReturn = false)
    (hw : i.writesCsr = false) : Quiet s s' := by
  cases hc : i.isZicsr with
  | false =>
    have ho := Insn.run_outcome hc hr h
    by_cases hd : i.doubleFault s
    · obtain ⟨t, t', h2⟩ := ho.2 hd
      have hl := congrArg List.length (h2.symm.trans ht)
      simp only [List.length_cons] at hl
      omega
    · exact (ho.1 hd).quiet_of_traps ht
  | true =>
    cases i with
    | zicsr op rs1 rd csr =>
      obtain rfl := Except.ok.inj h
      cases hi : csrAccessIllegal s csr with
      | false => exact op.exec_quiet s rs1 rd csr ins hi (CsrOp.newVal_none hw _ _)
      | true =>
        rw [(op.exec_illegal s rs1 rd csr ins hi).2] at ht
        simp at ht
    | _ => cases hc

/-- **An instruction that neither traps, nor returns, nor writes a CSR leaves privilege and CSRs alone.** -/
theorem exec_quiet (h : exec s ins = .ok s') (ht : s'.traps = s.traps) (hr : (decode ins).isReturn = false)
    (hw : (decode ins).writesCsr = false) : Quiet s s' := by
  obtain ⟨-, rfl⟩ | ⟨-, hc, rfl⟩ | ⟨-, hrun⟩ := exec_cases h
  · simp at ht
  · exact execCInsn_quiet (compressed_quadrant hc.2) ht
  · exact Insn.run_quiet hrun ht hr hw

/-- the record of traps only grows -/
theorem Insn.run_traps_le {i : Insn} (h : i.run s ins = .ok s') : s.traps.length ≤ s'.traps.length := by
  by_cases ht : s'.traps = s.traps
  · rw [ht]
  cases hz : i.isZicsr with
  | true =>
    cases i with
    | zicsr op rs1 rd csr =>
      obtain rfl := Except.ok.inj h
      cases hi : csrAccessIllegal s csr with
      | false => exact absurd (op.exec_legal s rs1 rd csr ins hi).traps ht
      | true => rw [(op.exec_illegal s rs1 rd csr ins hi).2]; simp
    | _ => cases hz
  | false =>
    cases hr : i.isReturn with
    | true =>
      cases i with
      | sret =>
        obtain rfl := Except.ok.inj h
        unfold insSret at ht ⊢
        split_ifs at ht ⊢
        · simp
        · exact absurd rfl ht
      | mret => obtain rfl := Except.ok.inj h; exact absurd rfl ht
      | mnret => obtain rfl := Except.ok.inj h; exact absurd rfl ht
      | _ => cases hr
    | false =>
      have ho := Insn.run_outcome hz hr h
      by_cases hd : i.doubleFault s
      · obtain ⟨t, t', h2⟩ := ho.2 hd
        rw [h2]
        simp only [List.length_cons]
        omega
      · exact (ho.1 hd).le_length

theorem exec_traps_le (h : exec s ins = .ok s') : s.traps.length ≤ s'.traps.length := by
  obtain ⟨-, rfl⟩ | ⟨-, hc, rfl⟩ | ⟨-, hrun⟩ := exec_cases h
  · simp
  · exact execCInsn_traps_le (compressed_quadrant hc.2)
  · exact Insn.run_traps_le hrun

/-! ## The fetch before it -/

/-- the fetch goes through with word ins and no trigger, and leaves state t to execute it in -/
def Fetches (s t : Machine) (ins : Word) : Prop :=
  mmuFetchOk s s.pc = (some ins, t) ∧ triggerFires t s.pc sdtrigExecute = false

/-- the ends of a fetch: a page fault, a trigger, or the execution of the word fetched -/
theorem fetchExec_cases (h : fetchExec s = .ok s') :
    ((∀ t ins, ¬ Fetches s t ins) ∧ ∃ cause, Kept (raiseExceptionPc s cause s.pc s.pc) s') ∨
      ∃ t ins, Fetches s t ins ∧ Kept s t ∧ exec t ins = .ok s' := by
  simp only [fetchExec] at h
  rcases hf : mmuFetchOk s s.pc with ⟨_ | ins, t⟩
  · rw [hf] at h
    obtain rfl := Except.ok.inj h
    exact Or.inl ⟨fun u w hw => by have := hf.symm.trans hw.1; simp at this, _, mmuFetchOk_none hf⟩
  · rw [hf] at h
    have hk := mmuFetchOk_some_kept hf
    simp only [sdtrigCheckFetchTrigger, sdtrigCheck] at h
    cases hg : triggerFires t s.pc sdtrigExecute with
    | true =>
      rw [hg, if_pos rfl] at h
      obtain rfl := Except.ok.inj h
      refine Or.inl ⟨?_, _, hk.raise causeBreakpoint s.pc⟩
      intro u w hw
      obtain ⟨-, rfl⟩ := Prod.mk.inj (hf.symm.trans hw.1)
      exact absurd (hg.symm.trans hw.2) (by decide)
    | false =>
      rw [hg, if_neg Bool.false_ne_true] at h
      exact Or.inr ⟨t, ins, ⟨hf, hg⟩, hk, h⟩

theorem fetchExec_traps_le (h : fetchExec s = .ok s') : s.traps.length ≤ s'.traps.length := by
  rcases fetchExec_cases h with ⟨-, cause, hk⟩ | ⟨t, ins, -, hk, he⟩
  · rw [hk.traps]; simp
  · rw [← hk.traps]
    exact exec_traps_le he

/-- one fetch and exec without a trap, a return or a CSR write -/
theorem fetchExec_quiet (h : fetchExec s = .ok s') (ht : s'.traps = s.traps)
    (hi : ∀ ins, (mmuFetchOk s s.pc).1 = some ins → (decode ins).isReturn = false ∧ (decode ins).writesCsr = false) :
    Quiet s s' := by
  rcases fetchExec_cases h with ⟨-, cause, hk⟩ | ⟨t, ins, ⟨hf, -⟩, hk, he⟩
  · exact absurd (hk.traps.symm.trans ht) (by simp)
  · have hd := hi ins (by rw [hf])
    exact hk.quiet.trans (exec_quiet he (ht.trans hk.traps.symm) hd.1 hd.2)

end

/-! ## The iteration -/

/-- a fetch that goes through changes devices only -/
theorem mmuFetchOk_dev {s t : Machine} {vaddr ins : Word} (h : mmuFetchOk s vaddr = (some ins, t)) :
    ∃ d, t = { s with dev := d } := by
  unfold mmuFetchOk at h
  rcases hw : mmuWalk s vaddr .fetch with ⟨_ | pa, d⟩
  · rw [mmuTranslate_none hw] at h
    simp at h
  · rw [mmuTranslate_some hw] at h
    exact ⟨_, (congrArg Prod.snd h).symm⟩

theorem raisePicked_cases (s : Machine) (irq : Option Word) :
    raisePicked s irq = s ∨ ∃ i, raisePicked s irq = raiseInterrupt s i := by
  cases irq with
  | none => exact Or.inl rfl
  | some i => exact Or.inr ⟨i, rfl⟩

/-- a dispatch raises one interrupt or does nothing -/
theorem checkAndHandleInterrupts_cases (s : Machine) :
    checkAndHandleInterrupts s = s ∨ ∃ irq, checkAndHandleInterrupts s = raiseInterrupt s irq := by
  simp only [checkAndHandleInterrupts]
  split_ifs
  · exact Or.inl rfl
  · exact raisePicked_cases s _
  all_goals
    split
    · exact Or.inr ⟨_, rfl⟩
    · first | exact raisePicked_cases s _ | exact Or.inl rfl

/-- a dispatch that adds no record raised nothing -/
theorem checkAndHandleInterrupts_idle {s : Machine}
    (h : (checkAndHandleInterrupts s).traps.length ≤ s.traps.length) : checkAndHandleInterrupts s = s := by
  rcases checkAndHandleInterrupts_cases s with hs | ⟨irq, hs⟩
  · exact hs
  · rw [hs, raiseInterrupt_traps, List.length_cons] at h
    omega

theorem spinDetect_quiet (s : Machine) (d : SpinDetector) (fetchPc : Word) : Quiet s (spinDetect s d fetchPc).1 := by
  simp only [spinDetect]
  split_ifs <;> simp only [spinConclude] <;> exact ⟨rfl, rfl, rfl⟩

theorem tick_quiet (s : Machine) : Quiet s (tick s) := by
  simp only [tick]
  split_ifs <;> exact ⟨rfl, rfl, rfl⟩

/-- what an iteration does after its fetch and exec -/
def finish (r : Run) (fetchPc : Word) (s : Machine) : Run :=
  let (s, spin) := spinDetect (tick { s with pc := s.pc + 4 }) r.spin fetchPc
  { state := s, lastFetchPc := fetchPc, spin := spin, quit := false }

theorem finish_quiet (r : Run) (fetchPc : Word) (s : Machine) : Quiet s (finish r fetchPc s).state := by
  have ht := tick_quiet { s with pc := s.pc + 4 }
  have hq : Quiet s (tick { s with pc := s.pc + 4 }) := ⟨ht.traps, ht.privilege, ht.csr⟩
  exact hq.trans (spinDetect_quiet _ _ _)

/-- the state in which an iteration fetches -/
def fetchState (host : HostInput) (r : Run) : Machine :=
  { uartPollInput (checkAndHandleInterrupts r.state) host with gPrevInsPc := r.lastFetchPc }

/-- the word an iteration fetches -/
def fetched (host : HostInput) (r : Run) : Option Word := (mmuFetchOk (fetchState host r) (fetchState host r).pc).1

/-- the iteration executes word ins in state t -/
def Executes (host : HostInput) (r : Run) (t : Machine) (ins : Word) : Prop :=
  host.quit = false ∧ Fetches (fetchState host r) t ins

/-- the state and the word an iteration executes, if it gets so far -/
def executed (host : HostInput) (r : Run) : Option (Machine × Word) :=
  match mmuFetchOk (fetchState host r) (fetchState host r).pc with
  | (some ins, t) => if host.quit = false ∧ triggerFires t (fetchState host r).pc sdtrigExecute = false then some (t, ins)
    else none
  | (none, _) => none

theorem executes_iff (host : HostInput) (r : Run) (t : Machine) (ins : Word) :
    Executes host r t ins ↔ executed host r = some (t, ins) := by
  unfold Executes Fetches executed
  rcases mmuFetchOk (fetchState host r) (fetchState host r).pc with ⟨_ | w, u⟩
  · simp
  · simp only [Prod.mk.injEq, Option.some.injEq, Option.ite_none_right_eq_some]
    refine ⟨?_, ?_⟩
    · intro h
      obtain ⟨hq, ⟨rfl, rfl⟩, ht⟩ := h
      exact ⟨⟨hq, ht⟩, rfl, rfl⟩
    · intro h
      obtain ⟨⟨hq, ht⟩, rfl, rfl⟩ := h
      exact ⟨hq, ⟨rfl, rfl⟩, ht⟩

/-- an iteration executes one word at most -/
theorem Executes.unique {host : HostInput} {r : Run} {t u : Machine} {ins w : Word} (h : Executes host r t ins)
    (h' : Executes host r u w) : u = t ∧ w = ins := by
  simpa [and_comm] using h'.2.1.symm.trans h.2.1

section
variable [SoftFloat]

/-- an iteration that is not told to quit -/
theorem iteration_eq {host : HostInput} (hq : host.quit = false) (r : Run) : iteration host r =
    if (fetchState host r).pc.toNat ≥ memSize then .error ⟨"PC out of bounds: 0x%x", [(fetchState host r).pc]⟩
    else (fetchExec (fetchState host r)).map (finish r (fetchState host r).pc) := by
  rw [iteration, if_neg (by rw [hq]; decide)]
  change (if (fetchState host r).pc.toNat ≥ memSize then _ else _) = _
  split_ifs
  · rfl
  · simp only [fetchState]
    split
    · next e h => rw [h]; rfl
    · next t h => rw [h]; rfl

/-- the two ends of an iteration: the terminal asked to quit, or one fetch and exec and then the clocks -/
theorem iteration_cases {host : HostInput} {r r' : Run} (h : iteration host r = .ok r') :
    host.quit = true ∧ r'.state = uartPollInput (checkAndHandleInterrupts r.state) host ∨
      host.quit = false ∧ ∃ s, fetchExec (fetchState host r) = .ok s ∧ r' = finish r (fetchState host r).pc s := by
  cases hq : host.quit with
  | true =>
    rw [iteration, if_pos hq] at h
    obtain rfl := Except.ok.inj h
    exact Or.inl ⟨rfl, rfl⟩
  | false =>
    rw [iteration_eq hq] at h
    split_ifs at h
    cases hf : fetchExec (fetchState host r) with
    | error e => rw [hf] at h; cases h
    | ok s =>
      rw [hf] at h
      obtain rfl := Except.ok.inj h
      exact Or.inr ⟨rfl, s, rfl, rfl⟩

/-- **An iteration that neither traps, executes a return nor writes a CSR leaves privilege and CSRs alone.** -/
theorem iteration_quiet {host : HostInput} {r r' : Run} (h : iteration host r = .ok r')
    (ht : r'.state.traps = r.state.traps)
    (hi : ∀ ins, fetched host r = some ins → (decode ins).isReturn = false ∧ (decode ins).writesCsr = false) :
    Quiet r.state r'.state := by
  rcases iteration_cases h with ⟨-, hr⟩ | ⟨-, s, hf, rfl⟩
  · have hd : checkAndHandleInterrupts r.state = r.state :=
      checkAndHandleInterrupts_idle (by rw [← ht, hr]; rfl)
    rw [hr, hd]
    exact ⟨rfl, rfl, rfl⟩
  · have hs := finish_quiet r (fetchState host r).pc s
    have hlen := fetchExec_traps_le hf
    have hd : checkAndHandleInterrupts r.state = r.state :=
      checkAndHandleInterrupts_idle (by rw [← ht, hs.traps]; exact hlen)
    have hstate : Quiet r.state (fetchState host r) := by
      unfold fetchState
      rw [hd]
      exact ⟨rfl, rfl, rfl⟩
    have hq := fetchExec_quiet hf ((hs.traps.symm.trans ht).trans hstate.traps.symm) hi
    exact (hstate.trans hq).trans hs

end

end RiscvEmu
