/-
emu.c: the main loop, in the default build (no debugger).

One iteration dispatches an interrupt, polls the host terminal, fetches and executes one instruction, moves pc on by 4,
and ticks the devices and counters. The terminal is outside the repository: an iteration is given the bytes its poll
queues, and whether it asks to quit.
-/
import RiscvEmu.Decode
import RiscvEmu.Sdtrig

namespace RiscvEmu

/-- what one uart_poll_input finds -/
structure HostInput where
  bytes : List Byte
  quit : Bool

def uartPollInput (s : Machine) (host : HostInput) : Machine :=
  { s with dev := host.bytes.foldl uartReceive s.dev }

/-- the locals of main that recognise the riscv-tests write_tohost loop -/
structure SpinDetector where
  spinDetectActive : Bool
  spinArmed : Bool
  loopWindow : Fin 8 → Word
  loopWindowPos : Fin 8
  spinCount : ℕ

structure Run where
  state : Machine
  lastFetchPc : Word
  spin : SpinDetector
  /-- the terminal asked to quit -/
  quit : Bool

section
variable [SoftFloat]

/-- the fetch and exec of one iteration -/
def fetchExec (s : Machine) : Except Fatal Machine :=
  let fetchPc := s.pc
  match mmuFetchOk s fetchPc with
  | (none, s) => .ok s
  | (some ins, s) =>
    match sdtrigCheckFetchTrigger s fetchPc with
    | some s => .ok s
    | none => exec s ins

/-- the clocks and counters after an instruction -/
def tick (s : Machine) : Machine :=
  let s := { s with dev := uartTick { s.dev with clint := clintTick s.dev.clint }, cycle := s.cycle + 1 }
  if s.instretSuppressNext then { s with instretSuppressNext := false } else { s with instret := s.instret + 1 }

def spinReset (d : SpinDetector) : SpinDetector :=
  { d with spinArmed := true, loopWindow := fun _ => 0, loopWindowPos := 0, spinCount := 0 }

/-- the locals of the detector before the loop; spin_detect_active depends on the boot arguments -/
def spinInit (spinDetectActive : Bool) : SpinDetector := ⟨spinDetectActive, false, fun _ => 0, 0, 0⟩

/-- the window after a fetch at fetchPc -/
def spinAdvance (d : SpinDetector) (fetchPc : Word) : SpinDetector :=
  { d with
    spinCount := if ∃ i, d.loopWindow i = fetchPc then d.spinCount + 1 else 0
    loopWindow := Function.update d.loopWindow d.loopWindowPos fetchPc
    loopWindowPos := d.loopWindowPos + 1 }

/-- the end of a test: the result in gp goes where the harness looks for it -/
def spinConclude (s : Machine) : Machine :=
  let gpr := if s.gpr 3 = 1 then Function.update s.gpr 10 0 else s.gpr
  { s with gpr := Function.update gpr 17 93, terminated := true }

def spinDetect (s : Machine) (d : SpinDetector) (fetchPc : Word) : Machine × SpinDetector :=
  let (s, d) :=
    if d.spinDetectActive ∧ s.justTrapped then ({ s with justTrapped := false }, spinReset d) else (s, d)
  if d.spinArmed ∧ d.spinDetectActive then
    let d := spinAdvance d fetchPc
    (if d.spinCount ≥ 64 then spinConclude s else s, d)
  else (s, d)

/-- one pass through the body of the loop -/
def iteration (host : HostInput) (r : Run) : Except Fatal Run :=
  let s := uartPollInput (checkAndHandleInterrupts r.state) host
  if host.quit then .ok { r with state := s, quit := true }
  else if s.pc.toNat ≥ memSize then .error ⟨"PC out of bounds: 0x%x", [s.pc]⟩
  else
    let fetchPc := s.pc
    match fetchExec { s with gPrevInsPc := r.lastFetchPc } with
    | .error e => .error e
    | .ok s =>
      let (s, spin) := spinDetect (tick { s with pc := s.pc + 4 }) r.spin fetchPc
      .ok { state := s, lastFetchPc := fetchPc, spin := spin, quit := false }

/-- the loop over the polls given -/
def run : List HostInput → Run → Except Fatal Run
  | [], r => .ok r
  | host :: hosts, r =>
    if r.state.terminated ∨ r.quit then .ok r
    else
      match iteration host r with
      | .error e => .error e
      | .ok r => run hosts r

end

end RiscvEmu
