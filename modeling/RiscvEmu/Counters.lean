/-
The counters a program reads: cycle and time.

Both count the iterations of the main loop, traps and interrupts included, whatever the program does to mcycle or to the
CLINT. Results:
- `cycle_path`: no instruction writes the cycle counter;
- `counters_agree`: cycle and time read as the number of iterations since reset.
-/
import RiscvEmu.Changes
import RiscvEmu.DeviceRuns

namespace RiscvEmu

open Runs

/-- the two halves of a counter -/
theorem halves_append (x : BitVec 64) : (x >>> 32).setWidth 32 ++ x.setWidth 32 = x := by
  apply BitVec.eq_of_getLsbD_eq
  intro i hi
  rw [BitVec.getLsbD_append]
  split_ifs with h
  · simp [h]
  · have hlt : i - 32 < 32 := by omega
    simp [hlt, show 32 + (i - 32) = i by omega]

section
variable {s t : Machine}

theorem csrWrite_cycle (s : Machine) (csr : Csr) (val : Word) : (csrWrite s csr val).cycle = s.cycle := by
  unfold csrWrite
  split_ifs
  · cases (csrTable csr).writeCallback with
    | none => rfl
    | some f =>
      cases f with
      | setFcsr => simp only [WriteCallback.run, setFcsr]; split_ifs <;> rfl
      | setFrm => simp only [WriteCallback.run, setFrm]; split_ifs <;> rfl
      | _ => rfl
  · rfl

theorem Change.cycle (h : Change s t) : t.cycle = s.cycle := by
  cases h with
  | regs h => obtain ⟨gpr, fpu, rfl⟩ := h; rfl
  | mem h => obtain ⟨mem, flags, dev, rfl⟩ := h; rfl
  | csr csr val => exact csrWrite_cycle s csr val
  | trap cause tval epc => rw [raiseExceptionPc_eq]; rfl
  | _ => rfl

theorem Changes.cycle (h : Changes s t) : t.cycle = s.cycle :=
  h.invariant (I := fun t => t.cycle = s.cycle) (fun _ _ hs hc => hc.cycle.trans hs) rfl

theorem fetchState_cycle (host : HostInput) (r : Run) : (fetchState host r).cycle = r.state.cycle := by
  have hd : (checkAndHandleInterrupts r.state).cycle = r.state.cycle := by
    rcases checkAndHandleInterrupts_cases r.state with h | ⟨irq, h⟩
    · rw [h]
    · rw [h, raiseInterrupt_eq]
      rfl
  exact hd

theorem finish_cycle (r : Run) (fetchPc : Word) (s : Machine) : (finish r fetchPc s).state.cycle = s.cycle + 1 := by
  have htick : (tick { s with pc := s.pc + 4 }).cycle = s.cycle + 1 := by
    simp only [tick]
    split_ifs <;> rfl
  have hspin : ∀ (t : Machine) (d : SpinDetector), (spinDetect t d fetchPc).1.cycle = t.cycle := by
    intro t d
    simp only [spinDetect]
    split_ifs <;> rfl
  exact (hspin _ _).trans htick

end

section
variable [SoftFloat] {r r' : Run} {host : HostInput} {p : List (Run × HostInput)}

theorem fetchExec_cycle {s s' : Machine} (h : fetchExec s = .ok s') : s'.cycle = s.cycle := by
  rcases fetchExec_changes h with ⟨hc, -⟩ | ⟨t, ins, -, -, hc, rfl⟩
  · exact hc.cycle
  · exact hc.cycle

/-- one iteration -/
theorem loopStep_cycle (h : loopStep r host r') :
    r'.state.cycle = r.state.cycle + BitVec.ofNat 64 (if host.quit = false then 1 else 0) := by
  rcases iteration_cases h.2 with ⟨hq, hr⟩ | ⟨hq, s, hx, rfl⟩
  · rw [hr, hq, if_neg (by decide)]
    exact (fetchState_cycle host r).trans (BitVec.add_zero _).symm
  · rw [finish_cycle, fetchExec_cycle hx, fetchState_cycle, if_pos hq]
    rfl

/-- a run -/
theorem cycle_path (hp : Path loopStep r p r') :
    r'.state.cycle = r.state.cycle + BitVec.ofNat 64 (p.countP fun x => x.2.quit = false) := by
  induction hp with
  | nil r => exact (BitVec.add_zero _).symm
  | cons h _ ih =>
    rw [ih, loopStep_cycle h, List.countP_cons, BitVec.add_assoc, ← BitVec.ofNat_add, Nat.add_comm]
    simp only [decide_eq_true_eq]

/-- **The counters agree**: cycle and time, each read in two halves, are the number of iterations since reset. -/
theorem counters_agree {gpr : Reg → Word} {mainMemory : Word → Byte} {programBase : Word} {active : Bool}
    (hp : Path loopStep (runInit gpr mainMemory programBase active) p r) :
    let n := BitVec.ofNat 64 (p.countP fun x => x.2.quit = false)
    csrRead r.state 0xC80 ++ csrRead r.state 0xC00 = n ∧ csrRead r.state 0xC81 ++ csrRead r.state 0xC01 = n := by
  have hcycle := (cycle_path hp).trans (BitVec.zero_add _)
  have hzero : (runInit gpr mainMemory programBase active).state.dev.clint.mtime = 0 :=
    congrArg Clint.mtime (uartUpdateIrq_clint _)
  have hmtime := (run_mtime hp).trans ((congrArg (· + _) hzero).trans (BitVec.zero_add _))
  refine ⟨?_, ?_⟩
  · rw [← hcycle]
    exact halves_append r.state.cycle
  · rw [← hmtime]
    exact halves_append r.state.dev.clint.mtime

end

theorem counters_agree_echoRun : ∃ p r, Path (@loopStep noFloat) echoRun p r ∧
    csrRead r.state 0xC81 ++ csrRead r.state 0xC01 = BitVec.ofNat 64 (p.countP fun x => x.2.quit = false) := by
  obtain ⟨r, hp, -⟩ := echoRun_ends
  exact ⟨echoPath, r, hp, (@counters_agree noFloat _ _ _ _ _ _ hp).2⟩

end RiscvEmu
