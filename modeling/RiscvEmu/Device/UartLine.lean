/-
The interrupt line of the UART.

The line is driven from the cached irq_level, which every operation on its inputs has to refresh. Results:
- `uartUpdateIrq_line`: a refresh leaves the cache equal to the pending causes and the PLIC line equal to the cache;
- `UartOp.step_line`: no operation of the UART or on the PLIC's registers breaks this;
- `Shifting.step`: the transmitter counts its ticks down;
- `uart_line_fresh`: line, cache and IIR agree in every state reached, and THRE returns after exactly 64 ticks.
-/
import RiscvEmu.Device.Uart
import RiscvEmu.Lib.Bits
import RiscvEmu.Lib.Runs

namespace RiscvEmu

open Runs

/-! ## Operations -/

inductive UartOp
  | receive (c : Byte)
  | read (offset : Word)
  | write (offset val : Word)
  | tick
  /-- the guest at the PLIC -/
  | plicRead (off : Word)
  | plicWrite (off val : Word)
  deriving DecidableEq

def UartOp.step (d : Devices) : UartOp → Devices
  | .receive c => uartReceive d c
  | .read offset => (uartRead d offset).2
  | .write offset val => uartWrite d offset val
  | .tick => uartTick d
  | .plicRead off => { d with plic := (plicRead32 d.plic off).2 }
  | .plicWrite off val => { d with plic := plicWrite32 d.plic off val }

def UartStep (d : Devices) (o : UartOp) (e : Devices) : Prop := e = o.step d

/-- a write that loads the transmitter -/
def loadsThr (d : Devices) (o : UartOp) : Prop :=
  ∃ offset val : Word, o = .write offset val ∧ (offset &&& 7).toNat = 0 ∧ d.uart.lcr &&& lcrDlab = 0

/-! ## The cached level -/

/-- the line, the cache and the pending causes agree, and a busy transmitter has ticks left -/
structure LineFresh (d : Devices) : Prop where
  line : d.plic.pending.getLsbD uartIrq = d.uart.irqLevel
  level : d.uart.irqLevel = (uartRxPend d.uart || uartTxPend d.uart)
  busy : d.uart.thrBusy = true → 1 ≤ d.uart.thrTicks ∧ d.uart.thrTicks ≤ txShiftTicks

theorem plicSetIrq_uart (p : Plic) (level : Bool) : (plicSetIrq p uartIrq level).pending.getLsbD uartIrq = level := by
  have hput : (plicSetIrq p uartIrq level).pending = Bits.putBit p.pending uartIrq level := by
    cases level <;> rfl
  rw [hput, Bits.getLsbD_putBit _ _ _ (by decide), if_pos rfl]

section
variable {d : Devices}

theorem uartUpdateIrq_line (hline : d.plic.pending.getLsbD uartIrq = d.uart.irqLevel)
    (hbusy : d.uart.thrBusy = true → 1 ≤ d.uart.thrTicks ∧ d.uart.thrTicks ≤ txShiftTicks) :
    LineFresh (uartUpdateIrq d) := by
  unfold uartUpdateIrq
  dsimp only
  split_ifs with hwant
  · exact ⟨plicSetIrq_uart d.plic _, rfl, hbusy⟩
  · exact ⟨hline, (not_not.1 hwant).symm, hbusy⟩

theorem uartUpdateIrq_thrBusy : (uartUpdateIrq d).uart.thrBusy = d.uart.thrBusy := by
  unfold uartUpdateIrq
  dsimp only
  split_ifs <;> rfl

theorem uartUpdateIrq_thrTicks : (uartUpdateIrq d).uart.thrTicks = d.uart.thrTicks := by
  unfold uartUpdateIrq
  dsimp only
  split_ifs <;> rfl

theorem plicRead32_pending (p : Plic) (off : Word) : (plicRead32 p off).2.pending = p.pending := by
  unfold plicRead32
  dsimp only
  split_ifs <;> rfl

theorem plicWrite32_pending (p : Plic) (off val : Word) : (plicWrite32 p off val).pending = p.pending := by
  unfold plicWrite32
  dsimp only
  split_ifs <;> rfl

theorem uartReceive_line (h : LineFresh d) (c : Byte) : LineFresh (uartReceive d c) := by
  unfold uartReceive
  dsimp only
  split_ifs
  · exact h
  · exact uartUpdateIrq_line h.line h.busy

theorem uartRead_line (h : LineFresh d) (offset : Word) : LineFresh (uartRead d offset).2 := by
  unfold uartRead
  dsimp only
  split <;> try exact h
  split_ifs
  · exact h
  · exact uartUpdateIrq_line h.line h.busy
  · exact h

theorem uartWrite_line (h : LineFresh d) (offset val : Word) : LineFresh (uartWrite d offset val) := by
  unfold uartWrite
  dsimp only
  split
  · split_ifs
    · exact h
    · exact uartUpdateIrq_line h.line fun _ => (by decide : (1 : Word) ≤ txShiftTicks ∧ txShiftTicks ≤ txShiftTicks)
  · exact uartUpdateIrq_line h.line h.busy
  · exact uartUpdateIrq_line h.line h.busy
  -- the causes do not read lcr, mcr and scr
  all_goals exact ⟨h.line, h.level, h.busy⟩

theorem uartTick_line (h : LineFresh d) : LineFresh (uartTick d) := by
  unfold uartTick
  dsimp only
  split_ifs with hb hz
  · exact uartUpdateIrq_line h.line fun hb => absurd hb Bool.false_ne_true
  · obtain ⟨h1, h64⟩ := h.busy hb
    refine ⟨h.line, h.level, ?_⟩
    intro _
    simp only [txShiftTicks] at h64 ⊢
    bv_omega
  · exact h

/-- **The line stays fresh** over one operation. -/
theorem UartOp.step_line (o : UartOp) (h : LineFresh d) : LineFresh (o.step d) := by
  cases o with
  | receive c => exact uartReceive_line h c
  | read offset => exact uartRead_line h offset
  | write offset val => exact uartWrite_line h offset val
  | tick => exact uartTick_line h
  | plicRead off => exact ⟨(congrArg (·.getLsbD uartIrq) (plicRead32_pending d.plic off)).trans h.line, h.level, h.busy⟩
  | plicWrite off val =>
    exact ⟨(congrArg (·.getLsbD uartIrq) (plicWrite32_pending d.plic off val)).trans h.line, h.level, h.busy⟩

end

theorem uartInit_line (c : Clint) (u : Uart) : LineFresh (uartInit ⟨c, plicInit, u⟩) :=
  uartUpdateIrq_line (by decide : (0 : Word).getLsbD uartIrq = false) fun h => absurd h Bool.false_ne_true

/-! ## The transmitter -/

/-- the state of the transmitter n ticks after the load -/
def Shifting (n : ℕ) (d : Devices) : Prop :=
  if n < 64 then d.uart.thrBusy = true ∧ d.uart.thrTicks.toNat = 64 - n else d.uart.thrBusy = false

/-- the number of ticks among the steps of a run -/
def ticks (ops : List (Devices × UartOp)) : ℕ := ops.countP fun x => x.2 = .tick

section
variable {d : Devices} {n : ℕ}

theorem Shifting.congr {e : Devices} (h : Shifting n d) (hb : e.uart.thrBusy = d.uart.thrBusy)
    (ht : e.uart.thrTicks = d.uart.thrTicks) : Shifting n e := by
  unfold Shifting at h ⊢
  rwa [hb, ht]

theorem Shifting.thrBusy (h : Shifting n d) : d.uart.thrBusy = decide (n < 64) := by
  unfold Shifting at h
  split_ifs at h with hn
  · rw [h.1, decide_eq_true hn]
  · rw [h, decide_eq_false hn]

/-- the write of a byte -/
theorem uartWrite_shifting {offset : Word} (val : Word) (ho : (offset &&& 7).toNat = 0)
    (hdlab : d.uart.lcr &&& lcrDlab = 0) : Shifting 0 (uartWrite d offset val) := by
  have hwrite : uartWrite d offset val = uartUpdateIrq { d with uart :=
      { d.uart with stdout := d.uart.stdout ++ [val.setWidth 8], thrBusy := true, thrTicks := txShiftTicks } } := by
    rw [uartWrite, ho]
    exact if_neg (not_not.2 hdlab)
  rw [hwrite]
  exact Shifting.congr ⟨rfl, rfl⟩ uartUpdateIrq_thrBusy uartUpdateIrq_thrTicks

theorem uartTick_shifting (h : Shifting n d) : Shifting (n + 1) (uartTick d) := by
  unfold uartTick
  dsimp only
  unfold Shifting at h ⊢
  split_ifs at h with hn
  · obtain ⟨hb, ht⟩ := h
    have hsub : (d.uart.thrTicks - 1).toNat = 64 - (n + 1) := by
      have hone : (1 : Word).toNat = 1 := rfl
      have hlt : 1 ≤ d.uart.thrTicks := BitVec.le_def.2 (by omega)
      rw [BitVec.toNat_sub_of_le hlt, ht, hone]
      omega
    have hzero : (0 : Word).toNat = 0 := rfl
    rw [if_pos hb]
    by_cases hlast : n + 1 < 64
    · have hne : d.uart.thrTicks - 1 ≠ 0 := by
        intro hz
        rw [hz, hzero] at hsub
        omega
      rw [if_pos hlast, if_neg hne]
      exact ⟨hb, hsub⟩
    · have hz : d.uart.thrTicks - 1 = 0 := BitVec.eq_of_toNat_eq (by omega)
      rw [if_neg hlast, if_pos hz]
      exact uartUpdateIrq_thrBusy
  · rw [if_neg (by omega), if_neg (by rw [h]; exact Bool.false_ne_true)]
    exact h

/-- the other operations leave the transmitter alone -/
theorem UartOp.step_transmitter {o : UartOp} (htick : o ≠ .tick) (hload : ¬ loadsThr d o) :
    (o.step d).uart.thrBusy = d.uart.thrBusy ∧ (o.step d).uart.thrTicks = d.uart.thrTicks := by
  cases o with
  | receive c =>
    rw [UartOp.step, uartReceive]
    split_ifs
    · exact ⟨rfl, rfl⟩
    · exact ⟨uartUpdateIrq_thrBusy, uartUpdateIrq_thrTicks⟩
  | read offset =>
    rw [UartOp.step, uartRead]
    split <;> try exact ⟨rfl, rfl⟩
    split_ifs
    · exact ⟨rfl, rfl⟩
    · exact ⟨uartUpdateIrq_thrBusy, uartUpdateIrq_thrTicks⟩
    · exact ⟨rfl, rfl⟩
  | write offset val =>
    rw [UartOp.step, uartWrite]
    split
    · next ho =>
      split_ifs with hdlab
      · exact ⟨rfl, rfl⟩
      · exact absurd ⟨offset, val, rfl, ho, not_not.1 hdlab⟩ hload
    · exact ⟨uartUpdateIrq_thrBusy, uartUpdateIrq_thrTicks⟩
    · exact ⟨uartUpdateIrq_thrBusy, uartUpdateIrq_thrTicks⟩
    all_goals exact ⟨rfl, rfl⟩
  | tick => exact absurd rfl htick
  | plicRead off => exact ⟨rfl, rfl⟩
  | plicWrite off val => exact ⟨rfl, rfl⟩

/-- **The transmitter counts its ticks** over a run that does not load it again. -/
theorem Shifting.run {e : Devices} {ops : List (Devices × UartOp)} (hp : Path UartStep d ops e)
    (hload : ∀ x ∈ ops, ¬ loadsThr x.1 x.2) (h : Shifting n d) : Shifting (n + ticks ops) e := by
  induction hp generalizing n with
  | nil d => exact h
  | @cons d _ e o ops hstep hp ih =>
    subst hstep
    have hrest := fun x hx => hload x (List.mem_cons_of_mem _ hx)
    by_cases ho : o = .tick
    · have hcount : ticks ((d, o) :: ops) = ticks ops + 1 := List.countP_cons_of_pos (by simpa using ho)
      subst ho
      have := ih hrest (uartTick_shifting h)
      rw [hcount]
      rwa [Nat.add_right_comm, Nat.add_assoc] at this
    · have hcount : ticks ((d, o) :: ops) = ticks ops := List.countP_cons_of_neg (by simpa using ho)
      obtain ⟨hb, ht⟩ := UartOp.step_transmitter ho (hload _ List.mem_cons_self)
      rw [hcount]
      exact ih hrest (h.congr hb ht)

end

/-! ## The law -/

/-- what the hart and the guest can rely on -/
structure UartLine (d : Devices) : Prop where
  /-- the line at the PLIC is the cached level -/
  line : d.plic.pending.getLsbD uartIrq = d.uart.irqLevel
  /-- which is up exactly when IIR would report a cause -/
  cause : ∀ offset : Word, offset &&& 7 = 2 → (d.uart.irqLevel = true ↔ (uartRead d offset).1 ≠ iirNopend)
  busy : d.uart.thrBusy = true → 1 ≤ d.uart.thrTicks ∧ d.uart.thrTicks ≤ txShiftTicks
  /-- THRE returns with tick 64 after a load, and not before -/
  thre : ∀ (offset val : Word) (ops : List (Devices × UartOp)) (e : Devices), loadsThr d (.write offset val) →
    Path UartStep (uartWrite d offset val) ops e → (∀ x ∈ ops, ¬ loadsThr x.1 x.2) →
    ∀ lsr : Word, lsr &&& 7 = 5 → ((uartRead e lsr).1 &&& lsrThre ≠ 0 ↔ 64 ≤ ticks ops)

theorem uartRead_iir (d : Devices) {offset : Word} (ho : offset &&& 7 = 2) :
    (uartRead d offset).1 ≠ iirNopend ↔ (uartRxPend d.uart || uartTxPend d.uart) = true := by
  have hread : (uartRead d offset).1 =
      if uartRxPend d.uart then iirRxdata else if uartTxPend d.uart then iirThre else iirNopend := by
    rw [uartRead, ho]
    rfl
  rw [hread]
  cases uartRxPend d.uart <;> cases uartTxPend d.uart <;> decide

theorem uartRead_lsr (d : Devices) {offset : Word} (ho : offset &&& 7 = 5) :
    (uartRead d offset).1 &&& lsrThre ≠ 0 ↔ d.uart.thrBusy = false := by
  have hread : (uartRead d offset).1 =
      (if d.uart.thrBusy then 0 else lsrThre ||| lsrTemt) ||| (if 0 < d.uart.rxCount then lsrDr else 0) := by
    rw [uartRead, ho]
    rfl
  rw [hread]
  by_cases hrx : 0 < d.uart.rxCount
  · rw [if_pos hrx]
    cases d.uart.thrBusy <;> decide
  · rw [if_neg hrx]
    cases d.uart.thrBusy <;> decide

/-- **The line of the UART is never stale**, in every state reached after init_mem. -/
theorem uart_line_fresh (c : Clint) (u : Uart) {ops : List (Devices × UartOp)} {d : Devices}
    (hp : Path UartStep (uartInit ⟨c, plicInit, u⟩) ops d) : UartLine d := by
  have hstep : ∀ s o t, LineFresh s → True → UartStep s o t → LineFresh t := by
    rintro s o t hs - rfl
    exact o.step_line hs
  have hfresh : LineFresh d := hp.invariant hstep (uartInit_line c u) fun _ _ => trivial
  refine ⟨hfresh.line, ?_, hfresh.busy, ?_⟩
  · intro offset ho
    rw [uartRead_iir d ho, hfresh.level]
  · rintro offset val ops e ⟨_, _, heq, ho, hdlab⟩ hrun hload lsr hlsr
    cases heq
    have hend := Shifting.run hrun hload (uartWrite_shifting val ho hdlab)
    rw [uartRead_lsr e hlsr, hend.thrBusy, Nat.zero_add, decide_eq_false_iff_not, Nat.not_lt]

/-- the devices before uart_init -/
def zeroDevices : Devices := ⟨clintInit, plicInit, ⟨fun _ => 0, 0, 0, 0, 0, 0, 0, false, false, 0, []⟩⟩

/-- a session is the run of its operations -/
theorem UartOp.session_path (d : Devices) (ops : List UartOp) :
    Path UartStep d (recorded UartOp.step d ops) (ops.foldl UartOp.step d) := by
  have hstep : ∀ d o, UartStep d o (UartOp.step d o) := fun _ _ => rfl
  exact recorded_path hstep d ops

/-- both interrupts enabled, a key received and its cause read, the byte sent back, a tick, and the key read -/
def keySession : List UartOp := [.write 1 3, .receive 0x61, .read 2, .write 0 0x61, .tick, .read 0]

/-- the line is down after it, with the transmitter busy -/
theorem uart_line_fresh_keySession : UartLine (keySession.foldl UartOp.step (uartInit zeroDevices)) ∧
    (keySession.foldl UartOp.step (uartInit zeroDevices)).uart.thrTicks = 63 :=
  ⟨uart_line_fresh clintInit _ (UartOp.session_path (uartInit zeroDevices) keySession), by decide⟩

end RiscvEmu
