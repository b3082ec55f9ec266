/-
device/uart.c: the host side of the console.

uart_poll_input drains stdin in batches of at most 64 bytes; Ctrl-] before x or X quits, with a look-ahead inside a batch and a
flag across batches. What the host does is data: the batches of a poll and how its last read ends. Results:
- `scanBatch_eq`, `drain_eq`: a batch, and all batches of a poll, go on with the scan where it stopped;
- `Scanned.poll`: a poll leaves the scan of what was read so far;
- `uartPollInput_runLoop`: what the run loop takes from it;
- `console_input_chunks`: over every sequence of polls the bytes received and the decision to quit are those of one scan.
-/
import RiscvEmu.Device.UartRegisters
import RiscvEmu.Lib.EscapeScan
import RiscvEmu.RunLoop

namespace RiscvEmu

open EscapeScan

def uartEscChar : Byte := 0x1D
def uartEscQuit : Byte := 0x78
def uartBufSize : ℕ := 64

/-- x or X -/
def escQuits (b : Byte) : Bool := b = uartEscQuit ∨ b = 0x58

/-! ## The host -/

/-- what one read returns -/
structure Batch where
  bytes : List Byte
  nonempty : bytes ≠ []
  fits : bytes.length ≤ uartBufSize

/-- how the reads of a poll end -/
inductive ReadEnd
  | again
  | eof
  | error
  deriving DecidableEq

/-- the host at one poll -/
inductive Poll
  /-- epoll_wait finds nothing -/
  | idle
  | ready (batches : List Batch) (last : ReadEnd)

def Poll.bytes : Poll → List Byte
  | .idle => []
  | .ready batches _ => batches.flatMap Batch.bytes

def Poll.ends : Poll → Prop
  | .idle => False
  | .ready _ last => last = .eof

/-- the terminal at uart_input_setup -/
structure HostTty where
  fcntl : Bool
  /-- isatty and tcgetattr -/
  tty : Bool
  tcsetattr : Bool

/-! ## The code -/

structure UartInput where
  active : Bool
  escHeld : Bool
  terminalRaw : Bool
  quitRequested : Bool
  dev : Devices
  /-- the bytes passed to uart_receive -/
  passed : List Byte

def uartInputSetup (s : UartInput) (rawMode : Bool) (host : HostTty) : UartInput :=
  if ¬ host.fcntl then s
  else
    let s := { s with active := true }
    if ¬ rawMode then s
    else if ¬ host.tty then s
    else if ¬ host.tcsetattr then s
    else { s with terminalRaw := true }

def UartInput.receive (s : UartInput) (c : Byte) : UartInput :=
  { s with dev := uartReceive s.dev c, passed := s.passed ++ [c] }

/-- the loop over the rest of buf -/
def scanBatch (s : UartInput) : List Byte → UartInput
  | [] => s
  | b :: rest =>
    if s.quitRequested then s
    else if s.terminalRaw ∧ b = uartEscChar then
      match rest.head? with
      | some c => if escQuits c then { s with quitRequested := true } else scanBatch (s.receive b) rest
      | none => scanBatch { s with escHeld := true } rest
    else scanBatch (s.receive b) rest

/-- one buffer: the escape held from the last one first -/
def readBatch (s : UartInput) (buf : Batch) : UartInput :=
  if s.escHeld then
    let s := { s with escHeld := false }
    if escQuits (buf.bytes.head buf.nonempty) then { s with quitRequested := true }
    else scanBatch (s.receive uartEscChar) buf.bytes
  else scanBatch s buf.bytes

/-- the reads of a poll -/
def drain (s : UartInput) (last : ReadEnd) : List Batch → UartInput
  | [] => if last = .eof then { s with active := false } else s
  | buf :: rest =>
    let s := readBatch s buf
    if s.quitRequested then s else drain s last rest

def UartInput.uartPollInput (s : UartInput) (host : Poll) : Bool × UartInput :=
  if ¬ s.active then (s.quitRequested, s)
  else if s.quitRequested then (true, s)
  else
    match host with
    | .idle => (false, s)
    | .ready batches last =>
      let s := drain s last batches
      (s.quitRequested, s)

/-! ## One batch -/

/-- the state after a scan from here -/
def UartInput.after (s : UartInput) (r : Scan Byte) : UartInput :=
  { s with
    escHeld := r.held
    quitRequested := r.quit
    dev := r.passed.foldl uartReceive s.dev
    passed := s.passed ++ r.passed }

/-- the state of the console while it scans, with no escape held -/
structure Scanning (s : UartInput) : Prop where
  raw : s.terminalRaw = true
  running : s.quitRequested = false
  released : s.escHeld = false

theorem UartInput.receive_after (s : UartInput) (b : Byte) (r : Scan Byte) : (s.receive b).after r = s.after (r.cons b) := by
  simp only [after, receive, Scan.cons, List.append_assoc, List.singleton_append, List.foldl_cons]

/-- a scan that stops before any byte passes -/
theorem UartInput.after_stop (s : UartInput) (held quit : Bool) :
    s.after ⟨[], held, quit⟩ = { s with escHeld := held, quitRequested := quit } := by
  rw [UartInput.after]
  simp only [List.append_nil, List.foldl_nil]

/-- **One batch.** -/
theorem scanBatch_eq {s : UartInput} (hs : Scanning s) (buf : List Byte) :
    scanBatch s buf = s.after (scan uartEscChar escQuits buf) := by
  induction buf generalizing s with
  | nil =>
    have hself : s.after ⟨[], s.escHeld, s.quitRequested⟩ = s := s.after_stop _ _
    rw [hs.released, hs.running] at hself
    exact hself.symm
  | cons b buf ih =>
    have hpass : scanBatch (s.receive b) buf = s.after ((scan uartEscChar escQuits buf).cons b) := by
      rw [ih (s := s.receive b) ⟨hs.raw, hs.running, hs.released⟩, UartInput.receive_after]
    have hrun : ¬ s.quitRequested = true := by rw [hs.running]; exact Bool.false_ne_true
    rw [scanBatch, if_neg hrun]
    by_cases hb : b = uartEscChar
    · subst hb
      rw [if_pos ⟨hs.raw, rfl⟩]
      cases buf with
      | nil =>
        rw [scan, if_pos rfl, UartInput.after_stop, ← hs.running]
        rfl
      | cons c rest =>
        rw [scan_esc_cons, List.head?_cons]
        dsimp only
        split_ifs with hq
        · rw [UartInput.after_stop, ← hs.released]
        · exact hpass
    · rw [if_neg fun h => hb h.2, scan_cons_of_ne hb, hpass]

/-! ## Polls -/

/-- the console after all of a stream was read -/
structure Scanned (dev : Devices) (stream : List Byte) (s : UartInput) : Prop where
  raw : s.terminalRaw = true
  passed : s.passed = (scan uartEscChar escQuits stream).passed
  held : s.escHeld = (scan uartEscChar escQuits stream).held
  quit : s.quitRequested = (scan uartEscChar escQuits stream).quit
  dev : s.dev = s.passed.foldl uartReceive dev

variable {dev : Devices} {stream : List Byte} {s : UartInput}

/-- a scan goes on from what it holds -/
theorem Scanned.resume (h : Scanned dev stream s) (hrun : s.quitRequested = false) (xs : List Byte) :
    Scanned dev (stream ++ xs) (s.after (scan uartEscChar escQuits (if s.escHeld then uartEscChar :: xs else xs))) := by
  have happ : scan uartEscChar escQuits (stream ++ xs) =
      (scan uartEscChar escQuits stream).resume uartEscChar escQuits xs := scan_append stream xs
  rw [Scan.resume, ← h.quit, hrun, if_neg Bool.false_ne_true, ← h.held] at happ
  refine ⟨h.raw, ?_, ?_, ?_, ?_⟩
  · rw [happ, UartInput.after, h.passed]
    rfl
  · rw [happ]
    rfl
  · rw [happ]
    rfl
  · rw [UartInput.after, h.dev, List.foldl_append]

/-- nothing changes after the quit -/
theorem Scanned.quitted (h : Scanned dev stream s) (hquit : s.quitRequested = true) (xs : List Byte) :
    Scanned dev (stream ++ xs) s := by
  have happ : scan uartEscChar escQuits (stream ++ xs) = scan uartEscChar escQuits stream := by
    rw [scan_append, Scan.resume, ← h.quit, if_pos hquit]
  exact ⟨h.raw, happ ▸ h.passed, happ ▸ h.held, happ ▸ h.quit, h.dev⟩

/-- one buffer -/
theorem Scanned.readBatch (h : Scanned dev stream s) (hrun : s.quitRequested = false) (buf : Batch) :
    Scanned dev (stream ++ buf.bytes) (readBatch s buf) := by
  have hnext := h.resume hrun buf.bytes
  suffices heq : RiscvEmu.readBatch s buf =
      s.after (scan uartEscChar escQuits (if s.escHeld then uartEscChar :: buf.bytes else buf.bytes)) by rwa [heq]
  cases hheld : s.escHeld with
  | false =>
    rw [RiscvEmu.readBatch, hheld, if_neg Bool.false_ne_true, if_neg Bool.false_ne_true]
    exact scanBatch_eq ⟨h.raw, hrun, hheld⟩ buf.bytes
  | true =>
    rw [RiscvEmu.readBatch, hheld, if_pos rfl, if_pos rfl]
    obtain ⟨c, rest, hbytes⟩ := List.exists_cons_of_ne_nil buf.nonempty
    have hhead : buf.bytes.head buf.nonempty = c := by simp only [hbytes, List.head_cons]
    dsimp only
    rw [hhead, hbytes, scan_esc_cons, ← hbytes]
    split_ifs with hq
    · exact (s.after_stop _ _).symm
    · rw [scanBatch_eq (s := ({ s with escHeld := false } : UartInput).receive uartEscChar) ⟨h.raw, hrun, rfl⟩,
        UartInput.receive_after]
      rfl

/-- all batches of a poll; after the quit the rest is not read, nor does it matter -/
theorem Scanned.drain (h : Scanned dev stream s) (hrun : s.quitRequested = false) (last : ReadEnd) (batches : List Batch) :
    Scanned dev (stream ++ batches.flatMap Batch.bytes) (drain s last batches) := by
  induction batches generalizing s stream with
  | nil =>
    rw [List.flatMap_nil, List.append_nil, RiscvEmu.drain]
    split_ifs
    · exact ⟨h.raw, h.passed, h.held, h.quit, h.dev⟩
    · exact h
  | cons buf rest ih =>
    have hone := h.readBatch hrun buf
    rw [List.flatMap_cons, ← List.append_assoc, RiscvEmu.drain]
    split_ifs with hquit
    · exact hone.quitted hquit _
    · exact ih hone (Bool.eq_false_iff.2 hquit)

theorem scanBatch_active (s : UartInput) (buf : List Byte) : (scanBatch s buf).active = s.active := by
  induction buf generalizing s with
  | nil => rfl
  | cons b buf ih =>
    unfold scanBatch
    split_ifs
    · rfl
    · split
      · split_ifs
        · rfl
        · exact ih _
      · exact ih _
    · exact ih _

theorem readBatch_active (s : UartInput) (buf : Batch) : (readBatch s buf).active = s.active := by
  unfold readBatch
  dsimp only
  split_ifs
  · rfl
  · exact scanBatch_active _ _
  · exact scanBatch_active _ _

/-- only the end of the stream stops the input -/
theorem drain_active {last : ReadEnd} (hlast : last ≠ .eof) (s : UartInput) (batches : List Batch) :
    (drain s last batches).active = s.active := by
  induction batches generalizing s with
  | nil => rw [drain, if_neg hlast]
  | cons buf rest ih =>
    rw [drain]
    split_ifs
    · exact readBatch_active s buf
    · exact (ih _).trans (readBatch_active s buf)

theorem UartInput.uartPollInput_active {host : Poll} (hends : ¬ host.ends) (s : UartInput) :
    (s.uartPollInput host).2.active = s.active := by
  unfold UartInput.uartPollInput
  split_ifs
  · rfl
  · cases host with
    | idle => rfl
    | ready batches last => exact drain_active hends s batches
  · rfl

/-- a poll answers whether to quit -/
theorem UartInput.uartPollInput_answer (s : UartInput) (host : Poll) :
    (s.uartPollInput host).1 = (s.uartPollInput host).2.quitRequested := by
  unfold UartInput.uartPollInput
  split_ifs with hact hquit
  · exact hquit.symm
  · cases host with
    | idle => exact (Bool.eq_false_iff.2 hquit).symm
    | ready batches last => rfl
  · rfl

/-- **One poll**, when the input is active or the host has nothing more. -/
theorem Scanned.poll (h : Scanned dev stream s) {host : Poll} (hactive : s.active = true ∨ host.bytes = []) :
    Scanned dev (stream ++ host.bytes) (s.uartPollInput host).2 := by
  unfold UartInput.uartPollInput
  split_ifs with hact hquit
  · exact h.quitted hquit _
  · cases host with
    | idle =>
      rw [Poll.bytes, List.append_nil]
      exact h
    | ready batches last => exact h.drain (Bool.eq_false_iff.2 hquit) last batches
  · rw [hactive.resolve_left hact, List.append_nil]
    exact h

/-! ## The run loop -/

/-- t has received more bytes than s -/
def Receives (s t : UartInput) : Prop := ∃ bytes, t.passed = s.passed ++ bytes ∧ t.dev = bytes.foldl uartReceive s.dev

theorem Receives.refl (s : UartInput) : Receives s s := ⟨[], (List.append_nil _).symm, rfl⟩

theorem Receives.trans {t u : UartInput} (h : Receives s t) (h' : Receives t u) : Receives s u := by
  obtain ⟨xs, hp, hd⟩ := h
  obtain ⟨ys, hp', hd'⟩ := h'
  exact ⟨xs ++ ys, by rw [hp', hp, List.append_assoc], by rw [hd', hd, List.foldl_append]⟩

theorem Receives.receive (s : UartInput) (c : Byte) : Receives s (s.receive c) := ⟨[c], rfl, rfl⟩

theorem scanBatch_receives (s : UartInput) (buf : List Byte) : Receives s (scanBatch s buf) := by
  induction buf generalizing s with
  | nil => exact .refl s
  | cons b buf ih =>
    unfold scanBatch
    split_ifs
    · exact .refl s
    · split
      · split_ifs
        · exact .refl s
        · exact (Receives.receive s b).trans (ih _)
      · exact ih { s with escHeld := true }
    · exact (Receives.receive s b).trans (ih _)

theorem readBatch_receives (s : UartInput) (buf : Batch) : Receives s (readBatch s buf) := by
  unfold readBatch
  dsimp only
  split_ifs
  · exact .refl s
  · exact (Receives.receive { s with escHeld := false } uartEscChar).trans (scanBatch_receives _ _)
  · exact scanBatch_receives s _

theorem drain_receives (s : UartInput) (last : ReadEnd) (batches : List Batch) : Receives s (drain s last batches) := by
  induction batches generalizing s with
  | nil =>
    rw [drain]
    split_ifs <;> exact .refl s
  | cons buf rest ih =>
    rw [drain]
    split_ifs
    · exact readBatch_receives s buf
    · exact (readBatch_receives s buf).trans (ih _)

/-- **What the run loop takes from a poll**: some bytes for the receive queue, and whether to quit. -/
theorem uartPollInput_runLoop (s : UartInput) (host : Poll) (m : Machine) (hdev : m.dev = s.dev) : ∃ found : HostInput,
    (s.uartPollInput host).1 = found.quit ∧ (s.uartPollInput host).2.passed = s.passed ++ found.bytes ∧
      (uartPollInput m found).dev = (s.uartPollInput host).2.dev := by
  have hreceives : Receives s (s.uartPollInput host).2 := by
    unfold UartInput.uartPollInput
    split_ifs
    · exact .refl s
    · cases host with
      | idle => exact .refl s
      | ready batches last => exact drain_receives s last batches
    · exact .refl s
  obtain ⟨bytes, hpassed, hnext⟩ := hreceives
  refine ⟨⟨bytes, (s.uartPollInput host).1⟩, rfl, hpassed, ?_⟩
  rw [hnext, ← hdev]
  rfl

/-! ## The law -/

/-- uart_input_setup in console mode on a terminal -/
def consoleStart (dev : Devices) : UartInput :=
  uartInputSetup ⟨false, false, false, false, dev, []⟩ true ⟨true, true, true⟩

def pollRun (s : UartInput) (polls : List Poll) : UartInput := polls.foldl (fun s host => (s.uartPollInput host).2) s

/-- nothing comes after the end of the stream -/
def EndsOnce (polls : List Poll) : Prop := polls.Pairwise fun p q => p.ends → q.bytes = []

theorem consoleStart_scanned (dev : Devices) : Scanned dev [] (consoleStart dev) := ⟨rfl, rfl, rfl, rfl, rfl⟩

theorem Scanned.pollRun {polls : List Poll} (hends : EndsOnce polls) (h : Scanned dev stream s)
    (hactive : s.active = true ∨ ∀ q ∈ polls, q.bytes = []) :
    Scanned dev (stream ++ polls.flatMap Poll.bytes) (pollRun s polls) := by
  induction polls generalizing s stream with
  | nil =>
    rw [List.flatMap_nil, List.append_nil]
    exact h
  | cons host polls ih =>
    obtain ⟨hlater, hrest⟩ := List.pairwise_cons.1 hends
    have hone := h.poll (hactive.imp id fun hq => hq host List.mem_cons_self)
    rw [List.flatMap_cons, ← List.append_assoc]
    refine ih hrest hone ?_
    by_cases he : host.ends
    · exact .inr fun q hq => hlater q hq he
    · rw [UartInput.uartPollInput_active he]
      exact hactive.imp id fun hall q hq => hall q (List.mem_cons_of_mem _ hq)

/-- **Console input does not depend on its chunks**: after any polls and one more, what was received, what is held and whether
to quit are those of one scan of the bytes read. -/
theorem console_input_chunks (dev : Devices) (polls : List Poll) (host : Poll) (hends : EndsOnce (polls ++ [host])) :
    let r := scan uartEscChar escQuits ((polls ++ [host]).flatMap Poll.bytes)
    let answer := (pollRun (consoleStart dev) polls).uartPollInput host
    answer.1 = r.quit ∧ answer.2.passed = r.passed ∧ answer.2.escHeld = r.held ∧
      answer.2.dev = r.passed.foldl uartReceive dev ∧
      r.Accounts uartEscChar escQuits ((polls ++ [host]).flatMap Poll.bytes) := by
  intro r answer
  have hall := (consoleStart_scanned dev).pollRun hends (.inl rfl)
  rw [List.nil_append, pollRun, List.foldl_append] at hall
  refine ⟨(UartInput.uartPollInput_answer _ _).trans hall.quit, hall.passed, hall.held, ?_, scan_accounts _⟩
  exact hall.dev.trans (congrArg _ hall.passed)

/-- a poll that finds one byte -/
def keystroke (b : Byte) : Poll := .ready [⟨[b], List.cons_ne_nil b [], (by decide : 1 ≤ uartBufSize)⟩] .again

/-- Ctrl-] and x in two polls -/
theorem console_input_chunks_escape :
    ((pollRun (consoleStart zeroDevices) [keystroke uartEscChar]).uartPollInput (keystroke uartEscQuit)).1 = true :=
  (console_input_chunks zeroDevices [keystroke uartEscChar] (keystroke uartEscQuit)
    (by simp [EndsOnce, keystroke, Poll.ends])).1

end RiscvEmu
