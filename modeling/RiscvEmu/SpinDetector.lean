/-
What ends a run of the main loop.

Two things set terminated: the ECALL of the riscv-tests harness, and the detector of its write_tohost loop. The detector
works on a ring of eight pcs and a counter; here it is compared with what it is for, a count over the pcs fetched since the
latest entry into M-mode. Results:
- `Changes.marks`, `fetchExec_marks`: just_trapped records the entries into M-mode, and ECALL alone sets terminated;
- `Watches.step`: one iteration, from the ring and the counter to the history of pcs;
- `last_ends_iff`, `run_ends_iff`: a run has ended exactly when ECALL ended it or the last pcs are a streak of 64;
- `spin_among_eight`: where no ECALL ended it, its last 64 fetches were all among the eight before them;
- `short_loop_ends`: a loop of at most eight instructions after an entry into M-mode ends the run.
-/
import RiscvEmu.Changes
import RiscvEmu.Lib.Recent

namespace RiscvEmu

open Recent Runs

/-! ## The marks of an instruction -/

/-- the entries into M-mode so far -/
def machineTraps (s : Machine) : ℕ := s.traps.countP fun t => t.mode = prvMachine

/-- just_trapped records the entries into M-mode between the two states, and the run has not ended between them -/
structure Marks (s t : Machine) : Prop where
  le : machineTraps s ≤ machineTraps t
  justTrapped : t.justTrapped = (s.justTrapped || machineTraps s < machineTraps t)
  terminated : t.terminated = s.terminated

section
variable {s t u : Machine}

theorem Marks.trans (h : Marks s t) (h' : Marks t u) : Marks s u := by
  refine ⟨h.le.trans h'.le, ?_, h'.terminated.trans h.terminated⟩
  rw [h'.justTrapped, h.justTrapped, Bool.or_assoc, ← Bool.decide_or]
  congr 2
  have := h.le
  have := h'.le
  refine propext ⟨?_, ?_⟩ <;> omega

theorem Marks.of_eq (ht : t.traps = s.traps) (hj : t.justTrapped = s.justTrapped)
    (hend : t.terminated = s.terminated) : Marks s t := by
  have hm : machineTraps t = machineTraps s := congrArg (List.countP _) ht
  exact ⟨hm.ge, by simp [hm, hj], hend⟩

theorem trapEntry_marks (s : Machine) (cause tval epc deleg irq pc : Word) :
    Marks s (trapEntry s cause tval epc deleg irq pc) := by
  have hm : machineTraps (trapEntry s cause tval epc deleg irq pc) =
      machineTraps s + if trapMode s deleg irq = prvMachine then 1 else 0 := by
    simp only [machineTraps, trapEntry, List.countP_cons, decide_eq_true_eq]
  refine ⟨by omega, ?_, rfl⟩
  rw [hm]
  by_cases hmode : trapMode s deleg irq = prvMachine <;> simp [trapEntry, hmode]

theorem csrWrite_marks (s : Machine) (csr : Csr) (val : Word) : Marks s (csrWrite s csr val) := by
  unfold csrWrite
  split_ifs
  · cases (csrTable csr).writeCallback with
    | none => exact .of_eq rfl rfl rfl
    | some f =>
      cases f with
      | setFcsr => simp only [WriteCallback.run, setFcsr]; split_ifs <;> exact .of_eq rfl rfl rfl
      | setFrm => simp only [WriteCallback.run, setFrm]; split_ifs <;> exact .of_eq rfl rfl rfl
      | _ => exact .of_eq rfl rfl rfl
  · exact .of_eq rfl rfl rfl

theorem Change.marks (h : Change s t) : Marks s t := by
  cases h with
  | regs h => obtain ⟨gpr, fpu, rfl⟩ := h; exact .of_eq rfl rfl rfl
  | pc pc => exact .of_eq rfl rfl rfl
  | mem h => obtain ⟨mem, flags, dev, rfl⟩ := h; exact .of_eq rfl rfl rfl
  | csr csr val => exact csrWrite_marks s csr val
  | mstatus => exact .of_eq rfl rfl rfl
  | level privilege pc => exact .of_eq rfl rfl rfl
  | trap cause tval epc => rw [raiseExceptionPc_eq]; exact trapEntry_marks ..

theorem Changes.marks (h : Changes s t) : Marks s t :=
  h.invariant (I := Marks s) (fun _ _ hs hc => hs.trans hc.marks) (.of_eq rfl rfl rfl)

theorem checkAndHandleInterrupts_marks (s : Machine) : Marks s (checkAndHandleInterrupts s) := by
  rcases checkAndHandleInterrupts_cases s with h | ⟨irq, h⟩
  · rw [h]
    exact .of_eq rfl rfl rfl
  · rw [h, raiseInterrupt_eq]
    exact trapEntry_marks ..

theorem fetchState_marks (host : HostInput) (r : Run) : Marks r.state (fetchState host r) :=
  (checkAndHandleInterrupts_marks r.state).trans (.of_eq rfl rfl rfl)

end

/-! ## The detector and a history of pcs -/

/-- the last 64 pcs of the history are a streak -/
def spins (h : Option (List Word)) : Prop := ∃ l, h = some l ∧ 64 ≤ streak 8 0 l

/-- the detector counts the streak of the history, if there is one -/
structure Tracks (d : SpinDetector) (h : Option (List Word)) : Prop where
  active : d.spinDetectActive = true
  armed : d.spinArmed = h.isSome
  holds : ∀ l, h = some l → Holds d.loopWindow d.loopWindowPos 0 l
  count : ∀ l, h = some l → d.spinCount = streak 8 0 l

section
variable {d : SpinDetector} {h : Option (List Word)} {l : List Word}

theorem Tracks.reset (hd : d.spinDetectActive = true) : Tracks (spinReset d) (some []) := by
  refine ⟨hd, rfl, ?_, ?_⟩
  · intro l hl
    obtain rfl := Option.some.inj hl
    exact .init 0 0
  · intro l hl
    obtain rfl := Option.some.inj hl
    rfl

theorem Tracks.advance (ht : Tracks d (some l)) (fetchPc : Word) :
    Tracks (spinAdvance d fetchPc) (some (fetchPc :: l)) := by
  have hw := ht.holds l rfl
  refine ⟨ht.active, ht.armed, ?_, ?_⟩
  · intro l' hl
    obtain rfl := Option.some.inj hl
    exact hw.push fetchPc
  · intro l' hl
    obtain rfl := Option.some.inj hl
    simp only [spinAdvance, streak, hw.exists_iff, ht.count l rfl]

theorem Tracks.spins_iff (ht : Tracks d (some l)) : spins (some l) ↔ 64 ≤ d.spinCount := by
  rw [ht.count l rfl]
  simp [spins]

/-- what is left of spinDetect where it counts -/
theorem spinDetect_tail {s s' : Machine} {d' : SpinDetector} {fetchPc : Word} (ht : Tracks d' (some l))
    (hs : s'.justTrapped = false) (hend : s'.terminated = s.terminated) :
    let d'' := spinAdvance d' fetchPc
    let t := if d''.spinCount ≥ 64 then spinConclude s' else s'
    Tracks d'' (some (fetchPc :: l)) ∧ t.justTrapped = false ∧
      (t.terminated = true ↔ s.terminated = true ∨ spins (some (fetchPc :: l))) := by
  have hnext := ht.advance fetchPc
  refine ⟨hnext, ?_, ?_⟩
  · split_ifs <;> exact hs
  · rw [hnext.spins_iff]
    split_ifs with hc
    · exact iff_of_true rfl (.inr hc)
    · rw [hend]
      exact ⟨Or.inl, fun h => h.resolve_right hc⟩

/-- **The detector after an instruction**: a fresh history after an entry into M-mode, the next pc after another. -/
theorem Tracks.spinDetect (ht : Tracks d h) (s : Machine) (fetchPc : Word) :
    let h' := if s.justTrapped then some [fetchPc] else h.map (fetchPc :: ·)
    Tracks (spinDetect s d fetchPc).2 h' ∧ (spinDetect s d fetchPc).1.justTrapped = false ∧
      ((spinDetect s d fetchPc).1.terminated = true ↔ s.terminated = true ∨ spins h') := by
  cases hj : s.justTrapped with
  | true =>
    have harm : (spinReset d).spinArmed = true ∧ (spinReset d).spinDetectActive = true := ⟨rfl, ht.active⟩
    have hreset : RiscvEmu.spinDetect s d fetchPc =
        (let d := spinAdvance (spinReset d) fetchPc
         let s := { s with justTrapped := false }
         (if d.spinCount ≥ 64 then spinConclude s else s, d)) := by
      unfold RiscvEmu.spinDetect
      rw [if_pos ⟨ht.active, hj⟩]
      exact if_pos harm
    rw [hreset]
    exact spinDetect_tail (Tracks.reset ht.active) rfl rfl
  | false =>
    cases h with
    | none =>
      have harm : d.spinArmed = false := ht.armed
      simp only [RiscvEmu.spinDetect, hj, harm, Bool.false_eq_true, and_false, false_and, if_false, Option.map_none]
      exact ⟨ht, trivial, by simp [spins]⟩
    | some l =>
      have harm : d.spinArmed = true := ht.armed
      simp only [RiscvEmu.spinDetect, hj, harm, ht.active, Bool.false_eq_true, and_false, and_self, if_false, if_true,
        Option.map_some]
      exact spinDetect_tail ht hj rfl

/-- a detector that is off does nothing -/
theorem spinDetect_off (hd : d.spinDetectActive = false) (s : Machine) (fetchPc : Word) :
    spinDetect s d fetchPc = (s, d) := by
  simp [spinDetect, hd]

end

/-! ## Iterations and runs -/

/-- the iteration executes the ECALL of the riscv-tests harness -/
def exitsAt (host : HostInput) (r : Run) : Prop := ∃ t ins, Executes host r t ins ∧ exits t ins

theorem tick_marks (s : Machine) : (tick { s with pc := s.pc + 4 }).justTrapped = s.justTrapped ∧
    (tick { s with pc := s.pc + 4 }).terminated = s.terminated := by
  simp only [tick]
  split_ifs <;> exact ⟨rfl, rfl⟩

/-- the detector is on and tracks the history -/
structure Watches (h : Option (List Word)) (r : Run) : Prop where
  tracks : Tracks r.spin h
  idle : r.quit = false → r.state.justTrapped = false
  short : r.state.terminated = false → ¬ spins h

/-- the detector before the loop -/
theorem watches_init (gpr : Reg → Word) (mainMemory : Word → Byte) (programBase : Word) :
    Watches none (runInit gpr mainMemory programBase true) :=
  ⟨⟨rfl, rfl, nofun, nofun⟩, fun _ => rfl, fun _ hs => by simp [spins] at hs⟩

section
variable [SoftFloat] {r r' : Run} {host : HostInput} {h : Option (List Word)}

/-- a fetch and exec: ECALL alone ends the run -/
theorem fetchExec_marks {s : Machine} (hq : host.quit = false) (hx : fetchExec (fetchState host r) = .ok s) :
    s.justTrapped = (r.state.justTrapped || machineTraps r.state < machineTraps s) ∧
      (s.terminated = true ↔ r.state.terminated = true ∨ exitsAt host r) := by
  have hdispatch := fetchState_marks host r
  rcases fetchExec_changes hx with ⟨hc, hno⟩ | ⟨t, ins, hf, he, hc, rfl⟩
  · have hm := hdispatch.trans hc.marks
    refine ⟨hm.justTrapped, ?_⟩
    rw [hm.terminated]
    refine ⟨Or.inl, ?_⟩
    rintro (ht | ⟨t, ins, hx, he⟩)
    · exact ht
    · exact absurd he (hno t ins hx.2)
  · have hm := hdispatch.trans hc.marks
    exact ⟨hm.justTrapped, iff_of_true rfl (.inr ⟨t, ins, ⟨hq, hf⟩, he⟩)⟩

/-- the iteration enters M-mode -/
def entersMachine (host : HostInput) (r : Run) : Bool :=
  match fetchExec (fetchState host r) with
  | .ok s => machineTraps r.state < machineTraps s
  | .error _ => false

/-- the pcs fetched since the latest entry into M-mode, after one more iteration; none before the first -/
def watch (h : Option (List Word)) (x : Run × HostInput) : Option (List Word) :=
  let fetchPc := (fetchState x.2 x.1).pc
  if x.2.quit then h
  else if entersMachine x.2 x.1 then some [fetchPc]
  else h.map (fetchPc :: ·)

/-- the pcs fetched since the latest entry into M-mode, the latest first -/
def sinceTrap (p : List (Run × HostInput)) : Option (List Word) := p.foldl watch none

/-- **One iteration with the detector on.** -/
theorem Watches.step (hw : Watches h r) (hs : loopStep r host r') :
    Watches (watch h (r, host)) r' ∧
      (r'.state.terminated = true ↔ exitsAt host r ∨ spins (watch h (r, host))) := by
  obtain ⟨hgo, hi⟩ := hs
  have hgoes := not_or.1 hgo
  have hend : r.state.terminated = false := Bool.eq_false_iff.2 hgoes.1
  have hjust := hw.idle (Bool.eq_false_iff.2 hgoes.2)
  cases hq : host.quit with
  | true =>
    have hsame : watch h (r, host) = h := if_pos hq
    rw [iteration, if_pos hq] at hi
    obtain rfl := Except.ok.inj hi
    have hm := fetchState_marks host r
    have hend' : (fetchState host r).terminated = false := hm.terminated.trans hend
    rw [hsame]
    refine ⟨⟨hw.tracks, fun hf => absurd hf.symm Bool.false_ne_true, fun _ => hw.short hend⟩, ?_⟩
    refine iff_of_false (fun ht => absurd (ht.symm.trans hend') (by decide)) ?_
    rintro (⟨t, ins, hx, -⟩ | hs)
    · exact absurd (hq.symm.trans hx.1) (by decide)
    · exact hw.short hend hs
  | false =>
    obtain ⟨hq', -⟩ | ⟨-, s, hx, rfl⟩ := iteration_cases hi
    · exact absurd (hq'.symm.trans hq) (by decide)
    obtain ⟨hj, ht⟩ := fetchExec_marks hq hx
    have hmarks := tick_marks s
    have hnow : (tick { s with pc := s.pc + 4 }).justTrapped = entersMachine host r := by
      rw [hmarks.1, hj, hjust, entersMachine, hx]
      rfl
    have hwatch : watch h (r, host) = if entersMachine host r then some [(fetchState host r).pc]
        else h.map ((fetchState host r).pc :: ·) := if_neg (by simp [hq])
    have hstep := hw.tracks.spinDetect (tick { s with pc := s.pc + 4 }) (fetchState host r).pc
    rw [hnow, ← hwatch, hmarks.2, ht, hend] at hstep
    obtain ⟨htracks, hidle, hstop⟩ := hstep
    have hiff := hstop.trans (or_congr_left (or_iff_right Bool.false_ne_true))
    refine ⟨⟨htracks, fun _ => hidle, ?_⟩, hiff⟩
    intro hf hs
    exact absurd ((hiff.2 (.inr hs)).symm.trans hf) (by decide)

/-- One iteration with the detector off: ECALL alone ends the run. -/
theorem loopStep_off (hoff : r.spin.spinDetectActive = false) (hs : loopStep r host r') :
    r'.spin.spinDetectActive = false ∧ (r'.state.terminated = true ↔ exitsAt host r) := by
  obtain ⟨hgo, hi⟩ := hs
  have hend := (not_or.1 hgo).1
  cases hq : host.quit with
  | true =>
    rw [iteration, if_pos hq] at hi
    obtain rfl := Except.ok.inj hi
    have hm := fetchState_marks host r
    refine ⟨hoff, iff_of_false (fun ht => hend (hm.terminated.symm.trans ht)) ?_⟩
    rintro ⟨t, ins, hx, -⟩
    exact absurd (hq.symm.trans hx.1) (by decide)
  | false =>
    obtain ⟨hq', -⟩ | ⟨-, s, hx, rfl⟩ := iteration_cases hi
    · exact absurd (hq'.symm.trans hq) (by decide)
    have hfin : finish r (fetchState host r).pc s =
        ⟨tick { s with pc := s.pc + 4 }, (fetchState host r).pc, r.spin, false⟩ := by
      rw [finish, spinDetect_off hoff]
    rw [hfin]
    refine ⟨hoff, ?_⟩
    rw [(tick_marks s).2, (fetchExec_marks hq hx).2]
    exact or_iff_right hend

variable {p : List (Run × HostInput)}

theorem Watches.path (hw : Watches h r) (hp : Path loopStep r p r') : Watches (p.foldl watch h) r' := by
  induction hp generalizing h with
  | nil r => exact hw
  | cons hs _ ih => exact ih (hw.step hs).1

/-- the last iteration of the run executes the ECALL of the riscv-tests harness -/
def exitsLast (p : List (Run × HostInput)) : Prop := ∃ x, p.getLast? = some x ∧ exitsAt x.2 x.1

end

/-- an ECALL at 4, its handler at 0, and a jump to itself at 8 -/
def spinStart : Run :=
  runInit (fun _ => 0) (fun a => if a = 0 then 0x6F else if a = 2 then 0x80 else if a = 4 then 0x73 else
    if a = 8 then 0x6F else 0) 4 true

/-- from there, until the detector ends it -/
def spinRun : List (Run × HostInput) := @trace noFloat (List.replicate 70 ⟨[], false⟩) spinStart

theorem spinRun_ends : ∃ r, Path (@loopStep noFloat) spinStart spinRun r ∧ r.state.terminated = true := by
  have hrun : (@run noFloat (List.replicate 70 ⟨[], false⟩) spinStart).toOption.map (·.state.terminated) = some true := by
    decide +kernel
  obtain ⟨r, hr, hend⟩ := ok_of_map hrun
  exact ⟨r, @path_trace noFloat _ _ _ hr, hend⟩

theorem spinRun_since : @sinceTrap noFloat spinRun = some (List.replicate 65 8 ++ [0, 4]) := by decide +kernel

section
variable {r : Run} {p : List (Run × HostInput)} {gpr : Reg → Word} {mainMemory : Word → Byte}
  {programBase : Word} {active : Bool}

/-- the last iteration of a run ends it by its ECALL or with the detector -/
theorem last_ends_iff [SoftFloat] {q : List (Run × HostInput)} {x : Run × HostInput}
    (hp : Path loopStep (runInit gpr mainMemory programBase active) (q ++ [x]) r) :
    r.state.terminated = true ↔ exitsAt x.2 x.1 ∨ active = true ∧ spins (sinceTrap (q ++ [x])) := by
  obtain ⟨hq, v, hs, hv⟩ := hp.split
  cases hv
  have hsince : sinceTrap (q ++ [x]) = watch (sinceTrap q) x := by simp [sinceTrap]
  rw [hsince]
  cases active with
  | true =>
    rw [((watches_init gpr mainMemory programBase).path hq |>.step hs).2, and_iff_right rfl]
    rfl
  | false =>
    have hoff : x.1.spin.spinDetectActive = false :=
      hq.keeps (I := fun r => r.spin.spinDetectActive = false) (fun _ _ _ h hs => (loopStep_off h hs).1) rfl
    rw [(loopStep_off hoff hs).2]
    simp

/-- **What ends a run**: the ECALL of the harness, or 64 fetches in a row among the eight before each of them, all since
the latest entry into M-mode; the latter only where the detector is on. The ring starts with zeros, so address 0 counts as
among the eight until eight were fetched. -/
theorem run_ends_iff [SoftFloat] (hp : Path loopStep (runInit gpr mainMemory programBase active) p r) :
    r.state.terminated = true ↔ exitsLast p ∨ active = true ∧ spins (sinceTrap p) := by
  rcases List.eq_nil_or_concat p with rfl | ⟨q, x, rfl⟩
  · cases hp
    refine iff_of_false (fun h => absurd h Bool.false_ne_true) ?_
    rintro (⟨x, hx, -⟩ | ⟨-, l, hl, -⟩)
    · exact nomatch hx
    · exact nomatch hl
  · rw [List.concat_eq_append] at hp ⊢
    have hlast : exitsLast (q ++ [x]) ↔ exitsAt x.2 x.1 := by simp [exitsLast]
    rw [hlast]
    exact last_ends_iff hp

theorem run_ends_iff_spinRun : ∃ r : Run, r.state.terminated = true ∧
    (exitsLast spinRun ∨ true = true ∧ spins (@sinceTrap noFloat spinRun)) := by
  obtain ⟨r, hp, hend⟩ := spinRun_ends
  exact ⟨r, hend, (@run_ends_iff _ _ _ _ _ _ noFloat hp).1 hend⟩

/-- **The detector does not end a run that gets ahead**: the last 64 fetches were all among the eight before them. -/
theorem spin_among_eight [SoftFloat] (hp : Path loopStep (runInit gpr mainMemory programBase active) p r)
    (hend : r.state.terminated = true) : exitsLast p ∨ ∃ l, sinceTrap p = some l ∧ 64 ≤ l.length ∧
      ∀ pc ∈ l.take 64, pc = 0 ∨ pc ∈ (l.drop 64).take 8 := by
  rcases List.eq_nil_or_concat p with rfl | ⟨q, x, rfl⟩
  · cases hp
    exact absurd hend Bool.false_ne_true
  · rw [List.concat_eq_append] at hp ⊢
    rcases (last_ends_iff hp).1 hend with hx | ⟨-, l, hl, hs⟩
    · exact .inl ⟨x, by simp, hx⟩
    · exact .inr ⟨l, hl, hs.trans (streak_le_length 8 0 l), mem_of_le_streak hs⟩

theorem spin_among_eight_spinRun : exitsLast spinRun ∨ ∃ l, @sinceTrap noFloat spinRun = some l ∧ 64 ≤ l.length ∧
    ∀ pc ∈ l.take 64, pc = 0 ∨ pc ∈ (l.drop 64).take 8 := by
  obtain ⟨r, hp, hend⟩ := spinRun_ends
  exact @spin_among_eight _ _ _ _ _ _ noFloat hp hend

/-- **The detector ends every short loop**: 64 fetches since the latest entry into M-mode that repeat with a period of at
most eight instructions. -/
theorem short_loop_ends [SoftFloat] {l : List Word} {d : ℕ}
    (hp : Path loopStep (runInit gpr mainMemory programBase true) p r) (hl : sinceTrap p = some l)
    (hlen : 64 ≤ l.length) (hd : 0 < d) (hn : d ≤ 8) (hper : ∀ i < 64, l[i]? = l[i + d]?) :
    r.state.terminated = true := by
  rcases List.eq_nil_or_concat p with rfl | ⟨q, x, rfl⟩
  · exact nomatch hl
  · rw [List.concat_eq_append] at hp hl
    exact (last_ends_iff hp).2 (.inr ⟨rfl, l, hl, le_streak hd hn hlen hper⟩)

theorem short_loop_ends_spinRun : ∃ r, Path (@loopStep noFloat) spinStart spinRun r ∧ r.state.terminated = true := by
  obtain ⟨r, hp, -⟩ := spinRun_ends
  exact ⟨r, hp, @short_loop_ends _ _ _ _ _ noFloat _ 1 hp spinRun_since (by decide) (by decide) (by decide)
    (by decide)⟩

end

end RiscvEmu
