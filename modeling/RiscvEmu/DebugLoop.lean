/-
The main loop of the debugger build: the prompt of debugger.c inside the loop of emu.c.

A visit to the prompt is the commands typed, as parsed, and the one that resumes the loop; the terminal decides which,
and when SIGINT comes. What a command prints is left out. Results:
- `Command.Does.of_looks`: the commands that look at registers, RAM and breakpoints leave the machine alone;
- `debug_refines`: a run with no other commands is a run of the plain main loop, poll for poll;
- `Command.Does.changes`, `debugStep_csrFile`: whatever is typed is made of the elementary changes of instructions;
- `no_prompt_iff`: with a breakpoint set and no step asked for, the loop runs on exactly until it is about to fetch
  there.
-/
import RiscvEmu.CsrFile
import RiscvEmu.Debugger

namespace RiscvEmu

open Runs WhileLoop

/-! ## The prompt -/

/-- the fields of g_state that the debugger build adds -/
structure DebugState where
  singleStep : Bool
  breakpoint : Word
  breakpointEnabled : Bool
  breakRequested : Bool

/-- the lines of the prompt that do not resume the loop -/
inductive Command where
  | setPc (addr : Word)
  | setRegister (regNum : Reg) (value : Word)
  | memory (addrs : List Word)
  | write (addr : Word) (vals : List Word)
  | dumpBytes (addr : Word) (count : ℤ)
  | string (addr : Word)
  | dumpRange (start stop : Word)
  /-- without an address, from pc -/
  | disasm (addr : Option Word) (count : ℤ)
  | breakpointSet (addr : Word)
  | breakpointClear
  /-- F with a value in hexadecimal -/
  | setFregister (regNum : Reg) (value : BitVec 64)
  | setFcsr (value : Word)
  /-- fd with format f, d or q -/
  | fdumpSingle (addr : Word)
  | fdumpDouble (addr : Word)
  | fdumpQuad (addr : Word)
  /-- r, D, f, F without a value, fc without one, frm, h, and what is not understood -/
  | print

/-- the lines that resume the loop, and the end of the input -/
inductive Resume where
  | singleStep | continue | quit | eof
deriving DecidableEq

/-- reads at the addresses, one after the other -/
def peek {α : Type} (read : Machine → Word → α × Devices) (s : Machine) (addrs : List Word) : Machine :=
  addrs.foldl (fun s a => { s with dev := (read s a).2 }) s

/-- the addresses of cmd_dump_bytes -/
def dumpBytesAddrs (addr : Word) (count : ℤ) : List Word :=
  (List.range (min count 256).toNat).map fun i => addr + BitVec.ofNat 32 i

/-- the addresses of cmd_disasm, whose count is kept between 1 and 32 -/
def disasmAddrs (addr : Word) (count : ℤ) : List Word :=
  (List.range (min (max count 1) 32).toNat).map fun i => addr + BitVec.ofNat 32 (4 * i)

/-- the loop of cmd_write -/
def cmdWrite (s : Machine) (addr : Word) : List Word → Machine
  | [] => s
  | val :: vals => cmdWrite (memWrite32 s addr val) (addr + 4) vals

/-- x0 takes no value -/
def cmdSetRegister (s : Machine) (regNum : Reg) (value : Word) : Machine :=
  if regNum = 0 then s else { s with gpr := Function.update s.gpr regNum value }

/-- a value of 32 bits is written as a single -/
def cmdSetFregister (s : Machine) (regNum : Reg) (value : BitVec 64) : Machine :=
  { s with fpu :=
    if value ≤ 0xFFFFFFFF then fprWrite .S s.fpu regNum (value.setWidth 32) else fprWrite .D s.fpu regNum value }

/-- what a command does, if it comes back to the prompt: the loops of d and S may not -/
inductive Command.Does : Machine × DebugState → Command → Machine × DebugState → Prop
  | setPc (s : Machine) (g : DebugState) (addr : Word) : Does (s, g) (.setPc addr) ({ s with pc := addr }, g)
  | setRegister (s : Machine) (g : DebugState) (regNum : Reg) (value : Word) :
    Does (s, g) (.setRegister regNum value) (cmdSetRegister s regNum value, g)
  | memory (s : Machine) (g : DebugState) (addrs : List Word) :
    Does (s, g) (.memory addrs) (peek memRead32Unsigned s addrs, g)
  | write (s : Machine) (g : DebugState) (addr : Word) (vals : List Word) :
    Does (s, g) (.write addr vals) (cmdWrite s addr vals, g)
  | dumpBytes (s : Machine) (g : DebugState) (addr : Word) (count : ℤ) :
    Does (s, g) (.dumpBytes addr count) (peek memRead8Unsigned s (dumpBytesAddrs addr count), g)
  | string {s t : Machine} {g : DebugState} {addr : Word} {printed : List Byte}
    (h : Returns cmdStringBody ⟨addr, s, []⟩ (t, printed)) : Does (s, g) (.string addr) (t, g)
  | dumpRange {s t : Machine} {g : DebugState} {start stop : Word} {printed : List (Word × Word)}
    (h : Returns (cmdDumpRangeBody stop) ⟨start, s, []⟩ (t, printed)) : Does (s, g) (.dumpRange start stop) (t, g)
  | disasm (s : Machine) (g : DebugState) (addr : Option Word) (count : ℤ) :
    Does (s, g) (.disasm addr count) (peek memRead32Unsigned s (disasmAddrs (addr.getD s.pc) count), g)
  | breakpointSet (s : Machine) (g : DebugState) (addr : Word) :
    Does (s, g) (.breakpointSet addr) (s, { g with breakpoint := addr, breakpointEnabled := true })
  | breakpointClear (s : Machine) (g : DebugState) :
    Does (s, g) .breakpointClear (s, { g with breakpointEnabled := false })
  | setFregister (s : Machine) (g : DebugState) (regNum : Reg) (value : BitVec 64) :
    Does (s, g) (.setFregister regNum value) (cmdSetFregister s regNum value, g)
  | setFcsr (s : Machine) (g : DebugState) (value : Word) : Does (s, g) (.setFcsr value) (RiscvEmu.setFcsr s value, g)
  | fdumpSingle (s : Machine) (g : DebugState) (addr : Word) :
    Does (s, g) (.fdumpSingle addr) (peek memRead32Unsigned s [addr], g)
  | fdumpDouble (s : Machine) (g : DebugState) (addr : Word) :
    Does (s, g) (.fdumpDouble addr) (peek memRead64Unsigned s [addr], g)
  | fdumpQuad (s : Machine) (g : DebugState) (addr : Word) :
    Does (s, g) (.fdumpQuad addr) (peek memRead64Unsigned s [addr, addr + 8], g)
  | print (s : Machine) (g : DebugState) : Does (s, g) .print (s, g)

/-- the line that resumes the loop -/
def Resume.apply : Resume → Machine × DebugState → Machine × DebugState
  | .singleStep, (s, g) => (s, { g with singleStep := true })
  | .continue, (s, g) => (s, { g with singleStep := false })
  | .quit, (s, g) => ({ s with terminated := true }, g)
  | .eof, x => x

/-- what is typed on one visit to the prompt -/
structure Visit where
  commands : List Command
  resume : Resume

/-- tick_debugger: it reads the word at pc to show it, without translation -/
def TickDebugger (s : Machine) (g : DebugState) (v : Visit) (y : Machine × DebugState) : Prop :=
  ∃ p z, Path Command.Does ({ s with dev := (memRead32Unsigned s s.pc).2 }, g) p z ∧
    p.map Prod.snd = v.commands ∧ y = v.resume.apply z

/-! ## The loop -/

/-- the plain loop's locals and the debugger's -/
structure DebugRun where
  run : Run
  debug : DebugState

/-- what one iteration meets: the poll of the terminal, SIGINT, and what is typed if there is a prompt -/
structure DebugInput where
  host : HostInput
  sigint : Bool
  visit : Visit

/-- what main stores before the loop; --console turns the debugger off -/
def debugInit (consoleMode debugMode : Bool) (breakpoint : Option Word) : DebugState :=
  match breakpoint, consoleMode with
  | some b, false => ⟨!consoleMode && debugMode, b, true, false⟩
  | _, _ => ⟨!consoleMode && debugMode, 0xDEADBEEF, false, false⟩

/-- handle_sigint, the test of the breakpoint, and break_requested taken back -/
def arm (g : DebugState) (sigint : Bool) (pc : Word) : DebugState :=
  let g := if sigint then { g with breakRequested := true, singleStep := true } else g
  let g :=
    if g.breakpointEnabled ∧ pc = g.breakpoint then { g with singleStep := true, breakpointEnabled := false } else g
  { g with breakRequested := false }

/-- the state after the dispatch and the poll -/
def polled (host : HostInput) (r : Run) : Machine := uartPollInput (checkAndHandleInterrupts r.state) host

/-- the debugger's state where the loop asks whether to stop -/
def armed (r : DebugRun) (i : DebugInput) : DebugState := arm r.debug i.sigint (polled i.host r.run).pc

/-- the iteration stops at the prompt -/
def prompts (r : DebugRun) (i : DebugInput) : Prop := i.host.quit = false ∧ (armed r i).singleStep = true

/-- one round of the loop; q leaves it before the fetch -/
def DebugStep [SoftFloat] (r : DebugRun) (i : DebugInput) (r' : DebugRun) : Prop :=
  let s := polled i.host r.run
  r.run.goesOn ∧
    if i.host.quit then r' = { r with run := { r.run with state := s, quit := true } }
    else s.pc.toNat < memSize ∧ ∃ t g,
      (if (armed r i).singleStep then TickDebugger s (armed r i) i.visit (t, g) else (t, g) = (s, armed r i)) ∧
      if t.terminated then r' = ⟨{ r.run with state := t }, g⟩
      else ∃ u, fetchExec { t with gPrevInsPc := r.run.lastFetchPc } = .ok u ∧ r' = ⟨finish r.run t.pc u, g⟩

/-! ## Commands that look -/

/-- a read at the address changes nothing -/
def quiet (addr : Word) : Prop := ¬ inUart addr ∧ ¬ inPlic addr

instance (addr : Word) : Decidable (quiet addr) := by unfold quiet; infer_instance

/-- the byte at the address is not one that S stops at -/
def goesOnAt (s : Machine) (a : Word) : Prop :=
  let c : Byte := (memRead8Unsigned s a).1.setWidth 8
  c ≠ 0 ∧ (32 : Byte).sle c

/-- the command shows registers, or memory by reads that none of them touches the UART or the PLIC, or sets the breakpoint;
S reads up to the byte it stops at -/
def Command.looks (s : Machine) : Command → Prop
  | .memory addrs => ∀ a ∈ addrs, quiet a
  | .dumpBytes addr count => ∀ a ∈ dumpBytesAddrs addr count, quiet a
  | .string addr => ∀ n, (∀ m < n, goesOnAt s (addr + BitVec.ofNat 32 m)) → quiet (addr + BitVec.ofNat 32 n)
  | .dumpRange start stop => ∀ a ∈ wordsUpTo start stop, quiet a
  | .disasm addr count => ∀ a ∈ disasmAddrs (addr.getD s.pc) count, quiet a
  | .fdumpSingle addr => quiet addr
  | .fdumpDouble _ | .fdumpQuad _ | .breakpointSet _ | .breakpointClear | .print => True
  | .setPc _ | .setRegister .. | .write .. | .setFregister .. | .setFcsr _ => False

/-- the visit shows a word outside the UART and the PLIC, looks only, and does not quit -/
def Visit.looks (v : Visit) (s : Machine) : Prop :=
  quiet s.pc ∧ (∀ c ∈ v.commands, c.looks s) ∧ v.resume ≠ .quit

section
variable {s t : Machine} {a : Word}

theorem memRead32Unsigned_quiet (h : quiet a) (s : Machine) : (memRead32Unsigned s a).2 = s.dev := by
  unfold memRead32Unsigned
  rw [if_neg h.1, if_neg h.2]
  split_ifs <;> rfl

theorem memRead8Unsigned_quiet (h : quiet a) (s : Machine) : (memRead8Unsigned s a).2 = s.dev := by
  unfold memRead8Unsigned
  rw [if_neg h.1, if_neg fun hp => h.2 (inPlic8_inPlic hp)]
  split_ifs <;> rfl

theorem peek_eq {α : Type} {read : Machine → Word → α × Devices} {addrs : List Word}
    (h : ∀ a ∈ addrs, (read s a).2 = s.dev) : peek read s addrs = s := by
  induction addrs with
  | nil => rfl
  | cons a addrs ih =>
    obtain ⟨ha, hrest⟩ := List.forall_mem_cons.1 h
    have hs : { s with dev := (read s a).2 } = s := by rw [ha]
    rw [peek, List.foldl_cons, hs]
    exact ih hrest

/-- **The loop of S** over quiet addresses. -/
theorem cmdString_quiet {addr : Word} {printed : List Byte}
    (h : ∀ n, (∀ m < n, goesOnAt s (addr + BitVec.ofNat 32 m)) → quiet (addr + BitVec.ofNat 32 n))
    (hr : Returns cmdStringBody ⟨addr, s, []⟩ (t, printed)) : t = s := by
  refine hr.rule (I := fun l => l.machine = s ∧ ∃ n, l.addr = addr + BitVec.ofNat 32 n ∧
    ∀ m < n, goesOnAt s (addr + BitVec.ofNat 32 m)) (Q := fun r => r.1 = s) ?_ ?_
    ⟨rfl, 0, (BitVec.add_zero addr).symm, fun m hm => absurd hm (Nat.not_lt_zero m)⟩
  · rintro ⟨a, u, cs⟩ l' ⟨rfl, n, rfl, hn⟩ hb
    have hq := memRead8Unsigned_quiet (h n hn) u
    simp only [cmdStringBody] at hb
    split_ifs at hb with hc
    obtain rfl := Sum.inl.inj hb
    refine ⟨by dsimp only; rw [hq], n + 1, ?_, ?_⟩
    · rw [BitVec.ofNat_add, BitVec.add_assoc]
      rfl
    · intro m hm
      rcases Nat.lt_succ_iff_lt_or_eq.1 hm with hlt | rfl
      · exact hn m hlt
      · exact hc
  · rintro ⟨a, u, cs⟩ r ⟨rfl, n, rfl, hn⟩ hb
    have hq := memRead8Unsigned_quiet (h n hn) u
    simp only [cmdStringBody] at hb
    split_ifs at hb
    obtain rfl := Sum.inr.inj hb
    dsimp only
    rw [hq]

theorem readWords_quiet {addrs : List Word} (h : ∀ a ∈ addrs, quiet a) : (readWords s addrs).1 = s := by
  induction addrs with
  | nil => rfl
  | cons a addrs ih =>
    obtain ⟨ha, hrest⟩ := List.forall_mem_cons.1 h
    have hs : { s with dev := (memRead32Unsigned s a).2 } = s := by rw [memRead32Unsigned_quiet ha]
    simp only [readWords, hs]
    exact ih hrest

/-- **The loop of d** over quiet addresses. -/
theorem cmdDumpRange_quiet {start stop : Word} {printed : List (Word × Word)} (h : ∀ a ∈ wordsUpTo start stop, quiet a)
    (hr : Returns (cmdDumpRangeBody stop) ⟨start, s, []⟩ (t, printed)) : t = s := by
  by_cases he : dumpEnds start stop
  · have hw := hr.unique (cmdDumpRange_returns he s)
    exact (congrArg Prod.fst hw).trans (readWords_quiet h)
  · exact absurd hr (cmdDumpRange_not_returns he s _)

theorem Command.Does.of_looks {c : Command} {g g' : DebugState} (h : Command.Does (s, g) c (t, g'))
    (hl : c.looks s) : t = s := by
  cases h with
  | setPc addr => exact hl.elim
  | setRegister regNum value => exact hl.elim
  | memory addrs => exact peek_eq fun a ha => memRead32Unsigned_quiet (hl a ha) s
  | write addr vals => exact hl.elim
  | dumpBytes addr count => exact peek_eq fun a ha => memRead8Unsigned_quiet (hl a ha) s
  | string hr => exact cmdString_quiet hl hr
  | dumpRange hr => exact cmdDumpRange_quiet hl hr
  | disasm addr count => exact peek_eq fun a ha => memRead32Unsigned_quiet (hl a ha) s
  | breakpointSet addr => rfl
  | breakpointClear => rfl
  | setFregister regNum value => exact hl.elim
  | setFcsr value => exact hl.elim
  | fdumpSingle addr => exact peek_eq fun a ha => memRead32Unsigned_quiet (List.mem_singleton.1 ha ▸ hl) s
  | fdumpDouble addr => exact peek_eq fun a _ => memRead64Unsigned_dev s a
  | fdumpQuad addr => exact peek_eq fun a _ => memRead64Unsigned_dev s a
  | print => rfl

theorem commands_look {g g' : DebugState} {p : List ((Machine × DebugState) × Command)}
    (hp : Path Command.Does (s, g) p (t, g')) (hl : ∀ c ∈ p.map Prod.snd, c.looks s) : t = s := by
  generalize hx : (s, g) = x at hp
  generalize hy : (t, g') = y at hp
  induction hp generalizing g with
  | nil x =>
    subst hx
    exact (congrArg Prod.fst hy)
  | @cons x z y c p hc hp ih =>
    subst hx
    rw [List.map_cons, List.forall_mem_cons] at hl
    obtain ⟨u, gu⟩ := z
    obtain rfl := hc.of_looks hl.1
    exact ih hl.2 rfl hy

/-- **A visit that looks** leaves the machine alone. -/
theorem tickDebugger_looks {g g' : DebugState} {v : Visit} (h : TickDebugger s g v (t, g')) (hl : v.looks s) :
    t = s := by
  obtain ⟨p, ⟨u, gu⟩, hp, hcmds, hy⟩ := h
  obtain ⟨hpc, hlooks, hquit⟩ := hl
  have hs : { s with dev := (memRead32Unsigned s s.pc).2 } = s := by rw [memRead32Unsigned_quiet hpc]
  rw [hs] at hp
  obtain rfl := commands_look hp (by rwa [hcmds])
  cases hr : v.resume with
  | quit => exact absurd hr hquit
  | singleStep => rw [hr] at hy; exact congrArg Prod.fst hy
  | «continue» => rw [hr] at hy; exact congrArg Prod.fst hy
  | eof => rw [hr] at hy; exact congrArg Prod.fst hy

end

/-! ## The plain loop -/

section
variable [SoftFloat] {r r' : DebugRun} {i : DebugInput}

/-- the prompts of the iteration look only -/
def looksOnly (r : DebugRun) (i : DebugInput) : Prop := prompts r i → i.visit.looks (polled i.host r.run)

/-- **One round**, as the plain loop makes it. -/
theorem debugStep_refines (h : DebugStep r i r') (hl : looksOnly r i) : loopStep r.run i.host r'.run := by
  obtain ⟨hgo, hstep⟩ := h
  refine ⟨hgo, ?_⟩
  cases hq : i.host.quit with
  | true =>
    rw [if_pos hq] at hstep
    rw [hstep, iteration, if_pos hq]
    rfl
  | false =>
    rw [if_neg (by simp [hq])] at hstep
    obtain ⟨hpc, t, g, hstop, hrest⟩ := hstep
    have ht : t = polled i.host r.run := by
      split_ifs at hstop with hs
      · exact tickDebugger_looks hstop (hl ⟨hq, hs⟩)
      · exact congrArg Prod.fst hstop
    subst ht
    have hend : (polled i.host r.run).terminated = false := by
      have hm := fetchState_marks i.host r.run
      exact hm.terminated.trans (Bool.eq_false_iff.2 (not_or.1 hgo).1)
    rw [if_neg (by simp [hend])] at hrest
    obtain ⟨u, hu, rfl⟩ := hrest
    have hin : ¬ (fetchState i.host r.run).pc.toNat ≥ memSize := Nat.not_le.2 hpc
    rw [iteration_eq hq, if_neg hin]
    change (fetchExec { polled i.host r.run with gPrevInsPc := r.run.lastFetchPc }).map _ = _
    rw [hu]
    rfl

/-- **The debugger build runs the program of the plain build**, as long as the prompt is used to look. -/
theorem debug_refines {p : List (DebugRun × DebugInput)} (hp : Path DebugStep r p r')
    (hl : ∀ x ∈ p, looksOnly x.1 x.2) :
    Path loopStep r.run (p.map fun x => (x.1.run, x.2.host)) r'.run :=
  hp.map (f := DebugRun.run) (g := DebugInput.host) (fun _ _ _ hx h => debugStep_refines h hx) hl

end

/-- stepping through the program of spinStart -/
def debugStart : DebugRun := ⟨spinStart, debugInit false true none⟩

/-- look at a word, set a breakpoint at 8, go on -/
def debugVisit : DebugInput := ⟨⟨[], false⟩, false, ⟨[.memory [0x80000000], .breakpointSet 8], .continue⟩⟩

/-- nothing is typed -/
def noVisit : DebugInput := ⟨⟨[], false⟩, false, ⟨[], .eof⟩⟩

/-- the state in which the loop goes on after debugVisit -/
def debugShown : Machine :=
  let s := polled ⟨[], false⟩ spinStart
  peek memRead32Unsigned { s with dev := (memRead32Unsigned s s.pc).2 } [0x80000000]

theorem debugStart_ends : ∃ r, Path (@DebugStep noFloat) debugStart [(debugStart, debugVisit)] r ∧
    r.debug = ⟨false, 8, true, false⟩ ∧ r.run.goesOn ∧ (polled ⟨[], false⟩ r.run).pc = 0 := by
  have hx : (@fetchExec noFloat { debugShown with gPrevInsPc := 0 }).toOption.map (fun u =>
      decide ((finish spinStart 4 u).goesOn ∧ (polled ⟨[], false⟩ (finish spinStart 4 u)).pc = 0)) = some true := by
    decide
  obtain ⟨u, hu, hf⟩ := ok_of_map hx
  have hshown : TickDebugger (polled ⟨[], false⟩ spinStart) (armed debugStart debugVisit) debugVisit.visit
      (debugShown, ⟨false, 8, true, false⟩) :=
    ⟨_, _, .cons (.memory _ _ _) (.cons (.breakpointSet _ _ _) (.nil _)), rfl, rfl⟩
  have hstep : @DebugStep noFloat debugStart debugVisit ⟨finish spinStart 4 u, ⟨false, 8, true, false⟩⟩ :=
    ⟨by decide, by decide, debugShown, _, hshown, u, hu, rfl⟩
  exact ⟨_, .cons hstep (.nil _), rfl, of_decide_eq_true hf⟩

theorem debug_refines_debugStart : ∃ r, Path (@loopStep noFloat) spinStart [(spinStart, ⟨[], false⟩)] r := by
  obtain ⟨r, hp, -⟩ := debugStart_ends
  refine ⟨r.run, @debug_refines noFloat _ _ _ hp ?_⟩
  intro x hx hprompt
  obtain rfl := List.mem_singleton.1 hx
  refine ⟨by decide, ?_, by decide⟩
  intro c hc
  rcases List.mem_cons.1 hc with rfl | hc
  · exact fun a ha => by rw [List.mem_singleton.1 ha]; decide
  · rw [List.mem_singleton.1 hc]
    trivial

/-! ## The breakpoint -/

/-- a breakpoint at b is set and no step is asked for -/
structure RunsTo (b : Word) (g : DebugState) : Prop where
  running : g.singleStep = false
  enabled : g.breakpointEnabled = true
  breakpoint : g.breakpoint = b

/-- the iteration is about to fetch from b -/
def reaches (b : Word) (r : DebugRun) (i : DebugInput) : Prop := i.host.quit = false ∧ (polled i.host r.run).pc = b

theorem prompts_iff {r : DebugRun} {i : DebugInput} {b : Word} (hb : RunsTo b r.debug) (hs : i.sigint = false) :
    prompts r i ↔ reaches b r i := by
  unfold prompts reaches armed arm
  refine and_congr_right fun _ => ?_
  simp only [hs, hb.enabled, hb.breakpoint, Bool.false_eq_true, if_false, true_and]
  split_ifs with hpc
  · exact iff_of_true rfl hpc
  · exact iff_of_false (by simp [hb.running]) hpc

section
variable [SoftFloat] {r r' : DebugRun} {i : DebugInput}

/-- a round without a prompt changes the debugger's state no further -/
theorem DebugStep.debug_eq (h : DebugStep r i r') (hn : ¬ prompts r i) :
    r'.debug = if i.host.quit then r.debug else armed r i := by
  obtain ⟨-, hstep⟩ := h
  cases hq : i.host.quit with
  | true =>
    rw [if_pos hq] at hstep
    rw [hstep, if_pos rfl]
  | false =>
    rw [if_neg (by simp [hq])] at hstep
    obtain ⟨-, t, g, hstop, hrest⟩ := hstep
    rw [if_neg fun hs => hn ⟨hq, hs⟩] at hstop
    have hdebug : r'.debug = g := by
      split_ifs at hrest
      · rw [hrest]
      · obtain ⟨u, -, rfl⟩ := hrest
        rfl
    rw [hdebug, if_neg (by simp)]
    exact congrArg Prod.snd hstop

theorem DebugStep.runsTo {b : Word} (h : DebugStep r i r') (hb : RunsTo b r.debug) (hs : i.sigint = false)
    (hn : ¬ reaches b r i) : RunsTo b r'.debug := by
  rw [h.debug_eq fun hp => hn ((prompts_iff hb hs).1 hp)]
  split_ifs with hq
  · exact hb
  · have hpc : ¬ (polled i.host r.run).pc = b := fun hpc => hn ⟨by simpa using hq, hpc⟩
    unfold armed arm
    simp only [hs, hb.breakpoint, hpc, Bool.false_eq_true, if_false, and_false]
    exact ⟨hb.running, hb.enabled, rfl⟩

/-- **The breakpoint**: without SIGINT the loop runs on without a prompt exactly as long as it does not come to fetch
there. -/
theorem no_prompt_iff {b : Word} {p : List (DebugRun × DebugInput)} (hp : Path DebugStep r p r')
    (hb : RunsTo b r.debug) (hs : ∀ x ∈ p, x.2.sigint = false) :
    (∀ x ∈ p, ¬ prompts x.1 x.2) ↔ ∀ x ∈ p, ¬ reaches b x.1 x.2 := by
  induction hp with
  | nil r => simp
  | cons h _ ih =>
    obtain ⟨hx, hrest⟩ := List.forall_mem_cons.1 hs
    simp only [List.forall_mem_cons, prompts_iff hb hx]
    refine and_congr_right fun hn => ?_
    exact ih (h.runsTo hb hx hn) hrest

end

/-- an iteration without a prompt, run -/
theorem debugStep_noVisit [SoftFloat] {r : Run} {g : DebugState} (hgo : r.goesOn)
    (hstop : (armed ⟨r, g⟩ noVisit).singleStep = false) (ht : (polled ⟨[], false⟩ r).terminated = false)
    (hx : (iteration ⟨[], false⟩ r).toOption.isSome = true) :
    DebugStep ⟨r, g⟩ noVisit ⟨(iteration ⟨[], false⟩ r).toOption.getD r, armed ⟨r, g⟩ noVisit⟩ := by
  have hi := ok_getD hx r
  have hpc : (polled ⟨[], false⟩ r).pc.toNat < memSize := by
    by_contra hge
    have hout : (fetchState ⟨[], false⟩ r).pc.toNat ≥ memSize := not_lt.1 hge
    rw [iteration_eq rfl, if_pos hout] at hx
    cases hx
  refine ⟨hgo, ?_⟩
  rw [if_neg (by decide)]
  refine ⟨hpc, polled ⟨[], false⟩ r, armed ⟨r, g⟩ noVisit, ?_, ?_⟩
  · rw [if_neg (by rw [hstop]; decide)]
    rfl
  · rw [if_neg (by rw [ht]; decide)]
    obtain ⟨hq, -⟩ | ⟨-, u, hu, hr⟩ := iteration_cases hi
    · cases hq
    · exact ⟨u, hu, congrArg (DebugRun.mk · _) hr⟩

/-- spinStart, which comes to 8 by way of its handler at 0 -/
def spinTrap : Run := (@iteration noFloat ⟨[], false⟩ spinStart).toOption.getD spinStart
def spinHandled : Run := (@iteration noFloat ⟨[], false⟩ spinTrap).toOption.getD spinTrap

/-- c, typed at the prompt -/
def goVisit : DebugInput := ⟨⟨[], false⟩, false, ⟨[], .continue⟩⟩

/-- with a breakpoint at 8 there is no prompt at 4 and at 0, and one at 8 -/
theorem no_prompt_iff_spinStart :
    let r := DebugRun.mk spinStart (debugInit false false (some 8))
    let t := DebugRun.mk spinTrap (debugInit false false (some 8))
    let h := DebugRun.mk spinHandled (debugInit false false (some 8))
    (∀ x ∈ [(r, noVisit), (t, noVisit)], ¬ prompts x.1 x.2) ∧
      ∃ u, Path (@DebugStep noFloat) r [(r, noVisit), (t, noVisit), (h, goVisit)] u ∧
        ¬ ∀ x ∈ [(r, noVisit), (t, noVisit), (h, goVisit)], ¬ prompts x.1 x.2 := by
  intro r t h
  have h1 : @DebugStep noFloat r noVisit t := @debugStep_noVisit noFloat _ _ (by decide) rfl rfl (by decide)
  have h2 : @DebugStep noFloat t noVisit h := @debugStep_noVisit noFloat _ _ (by decide) rfl rfl (by decide)
  have hx : (@fetchExec noFloat (fetchState ⟨[], false⟩ spinHandled)).toOption.map (fun _ => true) = some true := by decide
  obtain ⟨u, hu, -⟩ := ok_of_map hx
  have harmed : armed h goVisit = ⟨true, 8, false, false⟩ := by
    have hpc : (polled goVisit.host spinHandled).pc = 8 := by decide
    simp only [armed, arm, h, goVisit, debugInit] at hpc ⊢
    simp [hpc]
  have hgone : TickDebugger (polled ⟨[], false⟩ spinHandled) (armed h goVisit) goVisit.visit
      (polled ⟨[], false⟩ spinHandled, ⟨false, 8, false, false⟩) := by
    refine ⟨[], _, .nil _, rfl, ?_⟩
    rw [memRead32Unsigned_quiet (by decide), harmed]
    rfl
  have h3 : @DebugStep noFloat h goVisit ⟨finish spinHandled 8 u, ⟨false, 8, false, false⟩⟩ := by
    have hpc : (polled ⟨[], false⟩ spinHandled).pc = 8 := by decide
    refine ⟨(by decide : spinHandled.goesOn), ?_⟩
    rw [if_neg (by decide)]
    refine ⟨(by decide : (polled ⟨[], false⟩ spinHandled).pc.toNat < memSize), polled ⟨[], false⟩ spinHandled,
      ⟨false, 8, false, false⟩, ?_, ?_⟩
    · rw [if_pos (by rw [harmed])]
      exact hgone
    · rw [if_neg (by decide)]
      exact ⟨u, hu, by rw [hpc]⟩
  have hp : Path (@DebugStep noFloat) r [(r, noVisit), (t, noVisit), (h, goVisit)] _ :=
    .cons h1 (.cons h2 (.cons h3 (.nil _)))
  have hruns : RunsTo 8 r.debug := ⟨rfl, rfl, rfl⟩
  refine ⟨?_, _, hp, ?_⟩
  · refine (@no_prompt_iff noFloat _ _ 8 _ (.cons h1 (.cons h2 (.nil _))) hruns (by simp [noVisit])).2 ?_
    intro x hx
    rcases List.mem_pair.1 hx with rfl | rfl
    · exact fun hb => absurd hb.2 (by decide)
    · exact fun hb => absurd hb.2 (by decide)
  · rw [@no_prompt_iff noFloat _ _ 8 _ hp hruns (by simp [noVisit, goVisit])]
    intro hall
    exact hall (h, goVisit) (by simp) ⟨rfl, by decide⟩

/-! ## --console -/

/-- neither a breakpoint nor a step -/
structure DebuggerOff (g : DebugState) : Prop where
  running : g.singleStep = false
  disabled : g.breakpointEnabled = false

theorem DebuggerOff.armed {r : DebugRun} {i : DebugInput} (h : DebuggerOff r.debug) (hs : i.sigint = false) :
    DebuggerOff (armed r i) := by
  unfold RiscvEmu.armed arm
  simp only [hs, h.disabled, Bool.false_eq_true, if_false, false_and]
  exact ⟨h.running, rfl⟩

/-- **With --console the debugger build is the plain build.** -/
theorem console_refines [SoftFloat] {r' : DebugRun} {gpr : Reg → Word} {mainMemory : Word → Byte}
    {programBase : Word} {active debugMode : Bool} {breakpoint : Option Word} {p : List (DebugRun × DebugInput)}
    (hp : Path DebugStep ⟨runInit gpr mainMemory programBase active, debugInit true debugMode breakpoint⟩ p r')
    (hs : ∀ x ∈ p, x.2.sigint = false) :
    Path loopStep (runInit gpr mainMemory programBase active) (p.map fun x => (x.1.run, x.2.host)) r'.run := by
  have hoff : DebuggerOff (debugInit true debugMode breakpoint) := by
    cases breakpoint <;> exact ⟨rfl, rfl⟩
  have hstep : ∀ r i r', DebuggerOff r.debug → i.sigint = false → DebugStep r i r' → DebuggerOff r'.debug := by
    intro r i r' h hi hd
    have ha := h.armed hi
    have hn : ¬ prompts r i := fun hp => Bool.false_ne_true (ha.running.symm.trans hp.2)
    rw [hd.debug_eq hn]
    split_ifs
    · exact h
    · exact ha
  have hall := (hp.invariant_all hstep hoff hs).1
  refine hp.map (f := DebugRun.run) (g := DebugInput.host) (fun _ _ _ hx h => debugStep_refines h hx) ?_
  intro x hx hprompt
  have ha := (hall x hx).armed (hs x hx)
  exact absurd (ha.running.symm.trans hprompt.2) Bool.false_ne_true

theorem console_refines_spinStart : ∃ r, Path (@loopStep noFloat) spinStart [(spinStart, ⟨[], false⟩)] r := by
  have hstep := @debugStep_noVisit noFloat spinStart (debugInit true true (some 4)) (by decide) rfl rfl (by decide)
  exact ⟨_, @console_refines noFloat _ _ _ _ _ _ _ _ (.cons hstep (.nil _)) (by simp [noVisit])⟩

/-! ## The CSRs -/

theorem peek_changes {α : Type} (read : Machine → Word → α × Devices) (s : Machine) (addrs : List Word) :
    Changes s (peek read s addrs) := by
  induction addrs generalizing s with
  | nil => exact .refl s
  | cons a addrs ih => exact (Changes.dev s _).trans (ih _)

theorem cmdWrite_changes (s : Machine) (addr : Word) (vals : List Word) : Changes s (cmdWrite s addr vals) := by
  induction vals generalizing s addr with
  | nil => exact .refl s
  | cons val vals ih => exact (Change.mem (memWrite32_memStep s addr val)).changes.trans (ih _ _)

theorem Command.Does.changes {s t : Machine} {g g' : DebugState} {c : Command}
    (h : Command.Does (s, g) c (t, g')) : Changes s t := by
  cases h with
  | setPc => exact (Change.pc _).changes
  | setRegister =>
    unfold cmdSetRegister
    split_ifs
    · exact .refl s
    · exact .gpr s _
  | memory => exact peek_changes _ s _
  | write => exact cmdWrite_changes s _ _
  | dumpBytes => exact peek_changes _ s _
  | string hr =>
    refine hr.rule (I := fun l => Changes s l.machine) (Q := fun r => Changes s r.1) ?_ ?_ (.refl s)
    · intro l l' hl hb
      simp only [cmdStringBody] at hb
      split_ifs at hb
      obtain rfl := Sum.inl.inj hb
      exact hl.trans (.dev _ _)
    · intro l r hl hb
      simp only [cmdStringBody] at hb
      split_ifs at hb
      obtain rfl := Sum.inr.inj hb
      exact hl.trans (.dev _ _)
  | dumpRange hr =>
    refine hr.rule (I := fun l => Changes s l.machine) (Q := fun r => Changes s r.1) ?_ ?_ (.refl s)
    · intro l l' hl hb
      simp only [cmdDumpRangeBody] at hb
      split_ifs at hb
      obtain rfl := Sum.inl.inj hb
      exact hl.trans (.dev _ _)
    · intro l r hl hb
      simp only [cmdDumpRangeBody] at hb
      split_ifs at hb
      obtain rfl := Sum.inr.inj hb
      exact hl
  | disasm => exact peek_changes _ s _
  | breakpointSet => exact .refl s
  | breakpointClear => exact .refl s
  | setFregister => exact .fpu s _
  | setFcsr => exact (Change.csr csrFcsr _).changes
  | fdumpSingle => exact peek_changes _ s _
  | fdumpDouble => exact peek_changes _ s _
  | fdumpQuad => exact peek_changes _ s _
  | print => exact .refl s

/-- **Whatever is typed on a visit** keeps the CSR file. -/
theorem tickDebugger_csrFile {s t : Machine} {g g' : DebugState} {v : Visit} (h : TickDebugger s g v (t, g'))
    (hs : CsrFile s) : CsrFile t := by
  obtain ⟨p, z, hp, -, hy⟩ := h
  have hz : CsrFile z.1 := by
    refine hp.keeps (I := fun x => CsrFile x.1) ?_ (hs.of_eq rfl rfl)
    rintro ⟨s, g⟩ c ⟨t, g'⟩ hi hd
    exact hd.changes.invariant (fun _ _ => Change.csrFile) hi
  obtain ⟨u, gu⟩ := z
  cases hr : v.resume <;> rw [hr] at hy <;> cases hy
  all_goals first | exact hz | exact hz.of_eq rfl rfl

section
variable [SoftFloat] {r r' : DebugRun} {i : DebugInput}

theorem debugStep_csrFile (hr : CsrFile r.run.state) (h : DebugStep r i r') : CsrFile r'.run.state := by
  obtain ⟨-, hstep⟩ := h
  have hs : CsrFile (polled i.host r.run) := (fetchState_csrFile hr i.host).of_eq rfl rfl
  by_cases hq : i.host.quit = true
  · rw [if_pos hq] at hstep
    rw [hstep]
    exact hs
  · rw [if_neg hq] at hstep
    obtain ⟨-, t, g, hstop, hrest⟩ := hstep
    have ht : CsrFile t := by
      split_ifs at hstop
      · exact tickDebugger_csrFile hstop hs
      · obtain ⟨rfl, -⟩ := Prod.mk.inj hstop
        exact hs
    split_ifs at hrest
    · rw [hrest]
      exact ht
    · obtain ⟨u, hu, rfl⟩ := hrest
      have ht' : CsrFile { t with gPrevInsPc := r.run.lastFetchPc } := ht.of_eq rfl rfl
      exact finish_csrFile (fetchExec_csrFile ht' hu)

/-- **The CSR file over whole runs of the debugger build**, whatever is typed at its prompts. -/
theorem debug_csr_file {gpr : Reg → Word} {mainMemory : Word → Byte} {programBase : Word} {active : Bool}
    {g : DebugState} {p : List (DebugRun × DebugInput)}
    (hp : Path DebugStep ⟨runInit gpr mainMemory programBase active, g⟩ p r) : CsrFile r.run.state :=
  hp.keeps (I := fun r => CsrFile r.run.state) (fun _ _ _ => debugStep_csrFile)
    (csrFile_init gpr mainMemory programBase)

end

theorem debug_csr_file_debugStart : ∃ r, Path (@DebugStep noFloat) debugStart [(debugStart, debugVisit)] r ∧
    CsrFile r.run.state := by
  obtain ⟨r, hp, -⟩ := debugStart_ends
  exact ⟨r, hp, @debug_csr_file noFloat _ _ _ _ _ _ _ hp⟩

end RiscvEmu
