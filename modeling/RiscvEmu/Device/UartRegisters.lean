/-
The registers of the UART behind their eight offsets.

LCR, MCR, SCR and, with DLAB clear, IER keep what is written to them; the other writes should touch none of them. Results:
- `uartUpdateIrq_frame`: a refresh of the line leaves the registers, the queue and the transmitter alone;
- `UartOp.step_field`: one operation that does not bleed changes a register only by a write to it;
- `uart_no_bleed_iff`: every register of a run reads back the last value written to it and the silent writes are silent,
  exactly when no write of the run bleeds: into IER through DLH, into SCR through LSR and MSR;
- `dlh_disables_interrupts`: a divisor written in the middle of a session.
-/
import RiscvEmu.Device.UartQueue

namespace RiscvEmu

open Runs

/-! ## Registers -/

/-- the registers that keep what is written to them -/
inductive UartReg
  | ier
  | lcr
  | mcr
  | scr
  deriving DecidableEq

namespace UartReg

def offset : UartReg → ℕ
  | ier => 1
  | lcr => 3
  | mcr => 4
  | scr => 7

def field (u : Uart) : UartReg → Byte
  | ier => u.ier
  | lcr => u.lcr
  | mcr => u.mcr
  | scr => u.scr

/-- what a register has of a written value -/
def kept (val : Word) : UartReg → Byte
  | ier => (val &&& 0x0F).setWidth 8
  | _ => val.setWidth 8

/-- an access at this offset is one of the register; DLAB hides IER -/
def Accessed (g : UartReg) (d : Devices) (offset : Word) : Prop :=
  (offset &&& 7).toNat = g.offset ∧ (g = ier → d.uart.lcr &&& lcrDlab = 0)

instance (g : UartReg) (d : Devices) (offset : Word) : Decidable (g.Accessed d offset) := inferInstanceAs (Decidable (_ ∧ _))

/-- the value an operation writes to the register -/
def written (g : UartReg) (d : Devices) : UartOp → Option Byte
  | .write offset val => if g.Accessed d offset then some (g.kept val) else none
  | _ => none

/-- the last value a run writes to the register, v when there is none -/
def lastWritten (g : UartReg) (v : Byte) (ops : List (Devices × UartOp)) : Byte :=
  ops.foldl (fun v x => (g.written x.1 x.2).getD v) v

end UartReg

/-- a write that no register of the model takes: to LSR and MSR, and with DLAB set to the divisor latch -/
def silentWrite (d : Devices) : UartOp → Prop
  | .write offset _ => let o := (offset &&& 7).toNat
    o = 5 ∨ o = 6 ∨ (o = 0 ∨ o = 1) ∧ d.uart.lcr &&& lcrDlab ≠ 0
  | _ => False

/-- the writes that change IER through DLH, or SCR through LSR and MSR -/
def bleeds (d : Devices) : UartOp → Prop
  | .write offset val => let o := (offset &&& 7).toNat
    o = 1 ∧ d.uart.lcr &&& lcrDlab ≠ 0 ∧ UartReg.ier.kept val ≠ d.uart.ier ∨
      (o = 5 ∨ o = 6) ∧ UartReg.scr.kept val ≠ d.uart.scr
  | _ => False

instance (d : Devices) : (o : UartOp) → Decidable (bleeds d o)
  | .write offset val => inferInstanceAs (Decidable ((offset &&& 7).toNat = 1 ∧ d.uart.lcr &&& lcrDlab ≠ 0 ∧
      UartReg.ier.kept val ≠ d.uart.ier ∨
      ((offset &&& 7).toNat = 5 ∨ (offset &&& 7).toNat = 6) ∧ UartReg.scr.kept val ≠ d.uart.scr))
  | .receive _ | .read _ | .tick | .plicRead _ | .plicWrite _ _ => inferInstanceAs (Decidable False)

/-- the same registers, queue and transmitter -/
structure SameRegisters (u v : Uart) : Prop where
  ier : u.ier = v.ier
  lcr : u.lcr = v.lcr
  mcr : u.mcr = v.mcr
  scr : u.scr = v.scr
  fifo : u.rx = v.rx ∧ u.rxHead = v.rxHead ∧ u.rxCount = v.rxCount
  transmitter : u.thrBusy = v.thrBusy ∧ u.thrTicks = v.thrTicks ∧ u.stdout = v.stdout

/-- a run from d to e in which the registers do not bleed into one another -/
structure NoBleed (d : Devices) (ops : List (Devices × UartOp)) (e : Devices) : Prop where
  readsBack : ∀ (g : UartReg) (offset : Word), g.Accessed e offset →
    (uartRead e offset).1 = (g.lastWritten (g.field d.uart) ops).setWidth 32
  silent : ∀ x ∈ ops, silentWrite x.1 x.2 → SameRegisters (x.2.step x.1).uart x.1.uart

/-! ## One operation -/

section
variable {d : Devices}

theorem uartUpdateIrq_frame : SameRegisters (uartUpdateIrq d).uart d.uart := by
  unfold uartUpdateIrq
  dsimp only
  split_ifs <;> exact ⟨rfl, rfl, rfl, rfl, ⟨rfl, rfl, rfl⟩, rfl, rfl, rfl⟩

theorem SameRegisters.field {u v : Uart} (h : SameRegisters u v) (g : UartReg) : g.field u = g.field v := by
  cases g with
  | ier => exact h.ier
  | lcr => exact h.lcr
  | mcr => exact h.mcr
  | scr => exact h.scr

theorem uartReceive_field (c : Byte) (g : UartReg) : g.field (uartReceive d c).uart = g.field d.uart := by
  unfold uartReceive
  split_ifs
  · rfl
  · exact (uartUpdateIrq_frame.field g).trans (by cases g <;> rfl)

theorem uartTick_field (g : UartReg) : g.field (uartTick d).uart = g.field d.uart := by
  unfold uartTick
  dsimp only
  split_ifs
  · exact (uartUpdateIrq_frame.field g).trans (by cases g <;> rfl)
  · cases g <;> rfl
  · rfl

theorem uartRead_field (offset : Word) (g : UartReg) : g.field (uartRead d offset).2.uart = g.field d.uart := by
  unfold uartRead
  dsimp only
  split <;> try rfl
  split_ifs
  · rfl
  · exact (uartUpdateIrq_frame.field g).trans (by cases g <;> rfl)
  · rfl

theorem offset_lt (offset : Word) : (offset &&& 7).toNat < 8 := by
  rw [BitVec.toNat_and]
  exact Nat.and_lt_two_pow _ (by decide : 7 < 2 ^ 3)

/-- a write takes the register at its offset -/
theorem uartWrite_accessed {g : UartReg} {offset : Word} (val : Word) (ha : g.Accessed d offset) :
    g.field (uartWrite d offset val).uart = g.kept val := by
  obtain ⟨ho, -⟩ := ha
  rw [uartWrite, ho]
  cases g with
  | ier => exact uartUpdateIrq_frame.ier
  | lcr => rfl
  | mcr => rfl
  | scr => rfl

/-- and no other, when it does not bleed -/
theorem uartWrite_other {g : UartReg} {offset val : Word} (hb : ¬ bleeds d (.write offset val))
    (ha : ¬ g.Accessed d offset) : g.field (uartWrite d offset val).uart = g.field d.uart := by
  have hlt := offset_lt offset
  unfold uartWrite
  dsimp only
  split
  · split_ifs
    · rfl
    · exact (uartUpdateIrq_frame.field g).trans (by cases g <;> rfl)
  · next ho =>
    refine (uartUpdateIrq_frame.field g).trans ?_
    cases g with
    | ier =>
      -- DLH
      have hdlab : d.uart.lcr &&& lcrDlab ≠ 0 := fun h => ha ⟨ho, fun _ => h⟩
      exact not_not.1 fun hne => hb (.inl ⟨ho, hdlab, hne⟩)
    | lcr => rfl
    | mcr => rfl
    | scr => rfl
  · exact uartUpdateIrq_frame.field g
  · next ho =>
    cases g with
    | lcr => exact absurd ⟨ho, fun h => nomatch h⟩ ha
    | _ => rfl
  · next ho =>
    cases g with
    | mcr => exact absurd ⟨ho, fun h => nomatch h⟩ ha
    | _ => rfl
  · next _ h0 h1 h2 h3 h4 =>
    cases g with
    | scr =>
      -- LSR or MSR
      have h7 : (offset &&& 7).toNat ≠ 7 := fun h => ha ⟨h, fun h => nomatch h⟩
      rw [imp_false] at h0 h1 h2 h3 h4
      have ho : (offset &&& 7).toNat = 5 ∨ (offset &&& 7).toNat = 6 := by omega
      exact not_not.1 fun hne => hb (.inr ⟨ho, hne⟩)
    | _ => rfl

/-- **One operation** changes a register by a write to it only, if it does not bleed. -/
theorem UartOp.step_field {o : UartOp} (hb : ¬ bleeds d o) (g : UartReg) :
    g.field (o.step d).uart = (g.written d o).getD (g.field d.uart) := by
  cases o with
  | receive c => exact uartReceive_field c g
  | read offset => exact uartRead_field offset g
  | write offset val =>
    change g.field (uartWrite d offset val).uart = (if _ then some _ else none : Option Byte).getD _
    split_ifs with ha
    · exact uartWrite_accessed val ha
    · exact uartWrite_other hb ha
  | tick => exact uartTick_field g
  | plicRead off => rfl
  | plicWrite off val => rfl

theorem bleeds.silentWrite {o : UartOp} (h : bleeds d o) : silentWrite d o := by
  cases o with
  | write offset val =>
    rcases h with ⟨ho, hdlab, -⟩ | ⟨ho | ho, -⟩
    · exact .inr (.inr ⟨.inr ho, hdlab⟩)
    · exact .inl ho
    · exact .inr (.inl ho)
  | _ => exact absurd h id

/-- a write that bleeds shows in a register -/
theorem bleeds.changes {o : UartOp} (h : bleeds d o) : ∃ g : UartReg, g.field (o.step d).uart ≠ g.field d.uart := by
  cases o with
  | write offset val =>
    rcases h with ⟨ho, -, hne⟩ | ⟨ho, hne⟩
    · refine ⟨.ier, fun heq => hne ?_⟩
      rw [UartOp.step, uartWrite, ho] at heq
      exact uartUpdateIrq_frame.ier.symm.trans heq
    · refine ⟨.scr, fun heq => hne ?_⟩
      rcases ho with ho | ho <;> rw [UartOp.step, uartWrite, ho] at heq <;> exact heq
  | _ => exact absurd h id

theorem silentWrite.written {o : UartOp} (h : silentWrite d o) (g : UartReg) : g.written d o = none := by
  cases o with
  | write offset val =>
    refine if_neg ?_
    rintro ⟨ho, hvis⟩
    dsimp only [RiscvEmu.silentWrite] at h
    rw [ho] at h
    cases g with
    | ier =>
      rcases h with h | h | ⟨-, hdlab⟩
      · exact absurd h (by decide)
      · exact absurd h (by decide)
      · exact hdlab (hvis rfl)
    | _ => simp [UartReg.offset] at h
  | _ => rfl

theorem silentWrite.queue {o : UartOp} (h : silentWrite d o) :
    let u := (o.step d).uart
    (u.rx = d.uart.rx ∧ u.rxHead = d.uart.rxHead ∧ u.rxCount = d.uart.rxCount) ∧
      u.thrBusy = d.uart.thrBusy ∧ u.thrTicks = d.uart.thrTicks ∧ u.stdout = d.uart.stdout := by
  cases o with
  | write offset val =>
    rcases h with ho | ho | ⟨ho | ho, hdlab⟩
    · rw [UartOp.step, uartWrite, ho]
      exact ⟨⟨rfl, rfl, rfl⟩, rfl, rfl, rfl⟩
    · rw [UartOp.step, uartWrite, ho]
      exact ⟨⟨rfl, rfl, rfl⟩, rfl, rfl, rfl⟩
    · rw [UartOp.step, uartWrite, ho]
      dsimp only
      rw [if_pos hdlab]
      exact ⟨⟨rfl, rfl, rfl⟩, rfl, rfl, rfl⟩
    · rw [UartOp.step, uartWrite, ho]
      exact ⟨uartUpdateIrq_frame.fifo, uartUpdateIrq_frame.transmitter⟩
  | _ => exact absurd h id

/-- **A silent write** is silent exactly when it does not bleed. -/
theorem UartOp.step_silent {o : UartOp} (hs : silentWrite d o) :
    SameRegisters (o.step d).uart d.uart ↔ ¬ bleeds d o := by
  constructor
  · intro hsame hb
    obtain ⟨g, hne⟩ := hb.changes
    exact hne (hsame.field g)
  · intro hb
    have hfield : ∀ g : UartReg, g.field (o.step d).uart = g.field d.uart := fun g => by
      rw [step_field hb, hs.written]
      rfl
    exact ⟨hfield .ier, hfield .lcr, hfield .mcr, hfield .scr, hs.queue.1, hs.queue.2⟩

/-- a register reads back -/
theorem uartRead_accessed {g : UartReg} {offset : Word} (ha : g.Accessed d offset) :
    (uartRead d offset).1 = (g.field d.uart).setWidth 32 := by
  obtain ⟨ho, hvis⟩ := ha
  rw [uartRead, ho]
  cases g with
  | ier => exact if_neg (not_not.2 (hvis rfl))
  | lcr => rfl
  | mcr => rfl
  | scr => rfl

end

/-! ## Runs -/

theorem UartReg.lastWritten_run {d e : Devices} {ops : List (Devices × UartOp)} (hp : Path UartStep d ops e)
    (hb : ∀ x ∈ ops, ¬ bleeds x.1 x.2) (g : UartReg) : g.field e.uart = g.lastWritten (g.field d.uart) ops := by
  induction hp with
  | nil d => rfl
  | @cons d _ e o ops hstep hp ih =>
    subst hstep
    rw [ih fun x hx => hb x (List.mem_cons_of_mem _ hx), UartOp.step_field (hb _ List.mem_cons_self)]
    rfl

/-- **The registers of the UART do not bleed into one another**, exactly in the runs without a bleeding write. -/
theorem uart_no_bleed_iff {d e : Devices} {ops : List (Devices × UartOp)} (hp : Path UartStep d ops e) :
    NoBleed d ops e ↔ ∀ x ∈ ops, ¬ bleeds x.1 x.2 := by
  refine ⟨fun h x hx hb => ?_, fun hb => ⟨fun g offset ha => ?_, fun x hx hs => ?_⟩⟩
  · exact (UartOp.step_silent hb.silentWrite).1 (h.silent x hx hb.silentWrite) hb
  · rw [uartRead_accessed ha, g.lastWritten_run hp hb]
  · exact (UartOp.step_silent hs).2 (hb x hx)

/-- SCR, MCR and IER written, and SCR read back between a key and its read -/
def scratchSession : List UartOp :=
  [.write 7 0x5A, .write 4 0x0B, .write 1 3, .receive 0x61, .read 7, .read 0, .write 7 0xA5, .read 1, .tick]

/-- no register bleeds into another, though the session writes four of them -/
theorem uart_no_bleed_scratch :
    NoBleed zeroDevices (recorded UartOp.step zeroDevices scratchSession) (scratchSession.foldl UartOp.step zeroDevices) :=
  (uart_no_bleed_iff (UartOp.session_path zeroDevices scratchSession)).2 (by decide)

/-- a session with receive interrupts, and in it DLAB set, DLH written, DLAB clear -/
def divisorSession : List UartOp := [.write 1 1, .write 3 0x83, .write 1 0, .write 3 0x03]

/-- IER reads 0 after the session, though 1 was written to it last -/
theorem dlh_disables_interrupts : ¬ ∀ (d : Devices) (ops : List (Devices × UartOp)) (e : Devices),
    Path UartStep (uartInit d) ops e → NoBleed (uartInit d) ops e := by
  intro h
  have hread := (h zeroDevices _ _ (UartOp.session_path _ divisorSession)).readsBack .ier 1 (by decide)
  exact absurd hread (by decide)

end RiscvEmu
