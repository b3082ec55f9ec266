/-
The receive queue of the UART: a ring of 256 bytes between the host and the receiver buffer register.

`waiting` is the queue the ring stands for. Results:
- `uartReceive_waiting`, `uartRead_rbr`, `uartRead_waiting`, `uartWrite_waiting`: one operation on the queue;
- `UartOp.step_queue`: the bounds are kept, and what was waiting and what is accepted is what is delivered and what waits;
- `uart_rx_queue`: over every sequence of operations after uart_init the bytes accepted are the bytes delivered, once each and
  in order, and those that still wait.
-/
import RiscvEmu.Device.UartLine
import RiscvEmu.Lib.Ring

namespace RiscvEmu

open Runs

/-- the bytes received and not read yet, the oldest first -/
def waiting (u : Uart) : List Byte := Ring.contents rxFifoSize u.rx u.rxHead u.rxCount

structure RxBounds (u : Uart) : Prop where
  head : u.rxHead < rxFifoSize
  count : u.rxCount ≤ rxFifoSize

/-- offset is that of RBR, and DLAB is clear -/
def readsRbr (d : Devices) (offset : Word) : Prop := (offset &&& 7).toNat = 0 ∧ d.uart.lcr &&& lcrDlab = 0

instance (d : Devices) (offset : Word) : Decidable (readsRbr d offset) := inferInstanceAs (Decidable (_ ∧ _))

section
variable {d : Devices}

theorem uartUpdateIrq_waiting : waiting (uartUpdateIrq d).uart = waiting d.uart := by
  unfold uartUpdateIrq
  dsimp only
  split_ifs <;> rfl

theorem uartUpdateIrq_bounds : RxBounds (uartUpdateIrq d).uart ↔ RxBounds d.uart := by
  have hhead : (uartUpdateIrq d).uart.rxHead = d.uart.rxHead := by
    unfold uartUpdateIrq
    dsimp only
    split_ifs <;> rfl
  have hcount : (uartUpdateIrq d).uart.rxCount = d.uart.rxCount := by
    unfold uartUpdateIrq
    dsimp only
    split_ifs <;> rfl
  exact ⟨fun h => ⟨hhead ▸ h.head, hcount ▸ h.count⟩, fun h => ⟨hhead ▸ h.head, hcount ▸ h.count⟩⟩

@[simp] theorem waiting_length (u : Uart) : (waiting u).length = u.rxCount := Ring.contents_length

theorem waiting_eq_nil {u : Uart} : waiting u = [] ↔ u.rxCount = 0 := Ring.contents_eq_nil

/-- a byte is dropped when 256 wait, and else appended -/
theorem uartReceive_waiting (c : Byte) : waiting (uartReceive d c).uart =
    if (waiting d.uart).length < rxFifoSize then waiting d.uart ++ [c] else waiting d.uart := by
  rw [waiting_length, uartReceive]
  by_cases hfull : d.uart.rxCount ≥ rxFifoSize
  · rw [if_pos hfull, if_neg (by omega)]
  · rw [if_neg hfull, if_pos (by omega)]
    dsimp only
    rw [uartUpdateIrq_waiting]
    exact Ring.contents_push (by omega) c

theorem uartReceive_bounds (h : RxBounds d.uart) (c : Byte) : RxBounds (uartReceive d c).uart := by
  unfold uartReceive
  split_ifs with hfull
  · exact h
  · exact uartUpdateIrq_bounds.2 ⟨h.head, by change d.uart.rxCount + 1 ≤ rxFifoSize; omega⟩

/-- an RBR read takes the front of the queue; 0 stands for none -/
theorem uartRead_rbr (h : RxBounds d.uart) {offset : Word} (hr : readsRbr d offset) :
    (uartRead d offset).1 = ((waiting d.uart).headD 0).setWidth 32 ∧
      waiting (uartRead d offset).2.uart = (waiting d.uart).tail ∧ RxBounds (uartRead d offset).2.uart := by
  have hread : uartRead d offset =
      if 0 < d.uart.rxCount then
        ((d.uart.rx d.uart.rxHead).setWidth 32, uartUpdateIrq { d with uart :=
          { d.uart with rxHead := (d.uart.rxHead + 1) % rxFifoSize, rxCount := d.uart.rxCount - 1 } })
      else (0, d) := by
    rw [uartRead, hr.1]
    dsimp only
    rw [if_neg (not_not.2 hr.2)]
    rfl
  rw [hread]
  by_cases hpos : 0 < d.uart.rxCount
  · have hfront := Ring.contents_pop d.uart.rx h.head hpos
    rw [if_pos hpos]
    refine ⟨?_, ?_, uartUpdateIrq_bounds.2 ⟨Nat.mod_lt _ (by decide), ?_⟩⟩
    · rw [waiting, hfront]
      rfl
    · rw [uartUpdateIrq_waiting, waiting, waiting, hfront]
      rfl
    · exact (Nat.sub_le _ _).trans h.count
  · have hnil : waiting d.uart = [] := waiting_eq_nil.2 (by omega)
    rw [if_neg hpos, hnil]
    exact ⟨rfl, rfl, h⟩

/-- every other read changes nothing: those with DLAB set too -/
theorem uartRead_other {offset : Word} (hr : ¬ readsRbr d offset) : (uartRead d offset).2 = d := by
  unfold uartRead
  dsimp only
  split
  · next h0 => rw [if_pos fun hdlab => hr ⟨h0, hdlab⟩]
  all_goals rfl

theorem uartWrite_waiting (offset val : Word) : waiting (uartWrite d offset val).uart = waiting d.uart := by
  unfold uartWrite
  dsimp only
  split
  · split_ifs
    · rfl
    · exact uartUpdateIrq_waiting
  · exact uartUpdateIrq_waiting
  · exact uartUpdateIrq_waiting
  all_goals rfl

theorem uartWrite_bounds (h : RxBounds d.uart) (offset val : Word) : RxBounds (uartWrite d offset val).uart := by
  unfold uartWrite
  dsimp only
  split
  · split_ifs
    · exact h
    · exact uartUpdateIrq_bounds.2 ⟨h.head, h.count⟩
  · exact uartUpdateIrq_bounds.2 ⟨h.head, h.count⟩
  · exact uartUpdateIrq_bounds.2 h
  all_goals exact ⟨h.head, h.count⟩

theorem uartTick_waiting : waiting (uartTick d).uart = waiting d.uart := by
  unfold uartTick
  dsimp only
  split_ifs
  · exact uartUpdateIrq_waiting
  · rfl
  · rfl

theorem uartTick_bounds (h : RxBounds d.uart) : RxBounds (uartTick d).uart := by
  unfold uartTick
  dsimp only
  split_ifs
  · exact uartUpdateIrq_bounds.2 ⟨h.head, h.count⟩
  · exact ⟨h.head, h.count⟩
  · exact h

theorem uartRead_lsrDr {offset : Word} (ho : offset &&& 7 = 5) :
    (uartRead d offset).1 &&& lsrDr ≠ 0 ↔ waiting d.uart ≠ [] := by
  have hread : (uartRead d offset).1 =
      (if d.uart.thrBusy then 0 else lsrThre ||| lsrTemt) ||| (if 0 < d.uart.rxCount then lsrDr else 0) := by
    rw [uartRead, ho]
    rfl
  rw [hread, ne_eq (waiting _), waiting_eq_nil]
  by_cases hpos : 0 < d.uart.rxCount
  · rw [if_pos hpos]
    refine iff_of_true ?_ (by omega)
    cases d.uart.thrBusy <;> decide
  · rw [if_neg hpos]
    refine iff_of_false ?_ (by omega)
    cases d.uart.thrBusy <;> decide

end

/-! ## Runs -/

/-- the byte an operation puts into the queue -/
def accepted (d : Devices) : UartOp → List Byte
  | .receive c => if (waiting d.uart).length < rxFifoSize then [c] else []
  | _ => []

/-- the byte a read of RBR returns, when one waits -/
def delivered (d : Devices) : UartOp → List Byte
  | .read offset => if readsRbr d offset ∧ waiting d.uart ≠ [] then [(uartRead d offset).1.setWidth 8] else []
  | _ => []

/-- **One operation keeps the bounds and loses no byte.** -/
theorem UartOp.step_queue {d : Devices} (h : RxBounds d.uart) (o : UartOp) : RxBounds (o.step d).uart ∧
    waiting d.uart ++ accepted d o = delivered d o ++ waiting (o.step d).uart := by
  cases o with
  | receive c =>
    refine ⟨uartReceive_bounds h c, ?_⟩
    change _ ++ (if _ then [c] else []) = [] ++ waiting (uartReceive d c).uart
    rw [uartReceive_waiting]
    split_ifs
    · rfl
    · exact List.append_nil _
  | read offset =>
    change RxBounds (uartRead d offset).2.uart ∧ waiting d.uart ++ [] =
      (if readsRbr d offset ∧ waiting d.uart ≠ [] then _ else _) ++ waiting (uartRead d offset).2.uart
    rw [List.append_nil]
    by_cases hr : readsRbr d offset
    · obtain ⟨hbyte, htail, hbounds⟩ := uartRead_rbr h hr
      refine ⟨hbounds, ?_⟩
      rw [hbyte, htail]
      cases hwait : waiting d.uart with
      | nil => rw [if_neg fun hne => hne.2 rfl]; rfl
      | cons b bs =>
        rw [if_pos ⟨hr, List.cons_ne_nil b bs⟩, List.headD_cons, List.tail_cons,
          BitVec.setWidth_setWidth_of_le _ (by decide), BitVec.setWidth_eq]
        rfl
    · rw [uartRead_other hr, if_neg fun hne => hr hne.1]
      exact ⟨h, rfl⟩
  | write offset val => exact ⟨uartWrite_bounds h offset val, (List.append_nil _).trans (uartWrite_waiting offset val).symm⟩
  | tick => exact ⟨uartTick_bounds h, (List.append_nil _).trans uartTick_waiting.symm⟩
  | plicRead off => exact ⟨h, List.append_nil _⟩
  | plicWrite off val => exact ⟨h, List.append_nil _⟩

/-- the receive queue, as its users see it -/
structure RxQueue (d : Devices) : Prop where
  bounds : RxBounds d.uart
  receive : ∀ c, waiting (uartReceive d c).uart =
    if (waiting d.uart).length < rxFifoSize then waiting d.uart ++ [c] else waiting d.uart
  /-- a read of RBR with DLAB clear returns the oldest byte, 0 when none waits, and takes it -/
  rbr : ∀ offset, readsRbr d offset → (uartRead d offset).1 = ((waiting d.uart).headD 0).setWidth 32 ∧
    waiting (uartRead d offset).2.uart = (waiting d.uart).tail
  /-- every other read consumes nothing -/
  other : ∀ offset, ¬ readsRbr d offset → waiting (uartRead d offset).2.uart = waiting d.uart
  write : ∀ offset val, waiting (uartWrite d offset val).uart = waiting d.uart
  dataReady : ∀ offset : Word, offset &&& 7 = 5 → ((uartRead d offset).1 &&& lsrDr ≠ 0 ↔ waiting d.uart ≠ [])

/-- **UART receive is a lossless bounded queue**, over every sequence of operations after uart_init. -/
theorem uart_rx_queue (d₀ : Devices) {ops : List (Devices × UartOp)} {d : Devices}
    (hp : Path UartStep (uartInit d₀) ops d) : RxQueue d ∧
      ops.flatMap (fun x => accepted x.1 x.2) = ops.flatMap (fun x => delivered x.1 x.2) ++ waiting d.uart := by
  have hinit : RxBounds (uartInit d₀).uart := uartUpdateIrq_bounds.2 ⟨(by decide : 0 < rxFifoSize), Nat.zero_le _⟩
  have hempty : waiting (uartInit d₀).uart = [] := uartUpdateIrq_waiting
  have hstep : ∀ s o t, RxBounds s.uart → UartStep s o t →
      RxBounds t.uart ∧ waiting s.uart ++ accepted s o = delivered s o ++ waiting t.uart := by
    rintro s o t hs rfl
    exact o.step_queue hs
  have hkept : ∀ s o t, RxBounds s.uart → True → UartStep s o t → RxBounds t.uart :=
    fun s o t hs _ h => (hstep s o t hs h).1
  have hbounds : RxBounds d.uart := hp.invariant (I := fun e => RxBounds e.uart) hkept hinit fun _ _ => trivial
  have hconserved := Ring.conserved (fun s => waiting s.uart) accepted delivered hstep hp hinit
  rw [hempty, List.nil_append] at hconserved
  refine ⟨⟨hbounds, uartReceive_waiting, fun offset hr => ?_, fun offset hr => ?_, uartWrite_waiting,
    fun offset => uartRead_lsrDr⟩, hconserved⟩
  · obtain ⟨hbyte, htail, -⟩ := uartRead_rbr hbounds hr
    exact ⟨hbyte, htail⟩
  · rw [uartRead_other hr]

/-- three keys, two reads of RBR, then 256 keys, of which the last finds the queue full; a read of LSR, and one of RBR -/
def burstSession : List UartOp :=
  [.receive 0x61, .receive 0x62, .receive 0x63, .read 0, .read 0] ++ List.replicate 256 (.receive 0x64) ++ [.read 5, .read 0]

theorem uart_rx_queue_burst : RxQueue (burstSession.foldl UartOp.step (uartInit zeroDevices)) ∧
    (waiting (burstSession.foldl UartOp.step (uartInit zeroDevices)).uart).length = 255 ∧
    (recorded UartOp.step (uartInit zeroDevices) burstSession).flatMap (fun x => accepted x.1 x.2) =
      [0x61, 0x62, 0x63] ++ waiting (burstSession.foldl UartOp.step (uartInit zeroDevices)).uart := by
  obtain ⟨hqueue, hbytes⟩ := uart_rx_queue zeroDevices (UartOp.session_path (uartInit zeroDevices) burstSession)
  have hread : (recorded UartOp.step (uartInit zeroDevices) burstSession).flatMap (fun x => delivered x.1 x.2) =
      [0x61, 0x62, 0x63] := by decide +kernel
  rw [hread] at hbytes
  exact ⟨hqueue, by decide +kernel, hbytes⟩

end RiscvEmu
