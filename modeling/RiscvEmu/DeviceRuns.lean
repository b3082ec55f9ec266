/-
The devices under the main loop: the timer, the console in both directions, and its interrupt.

Laws of the devices alone, carried to whole runs by the traffic between hart and devices. Results:
- `timer_pending_iff`: MTIP is the comparison of mtimecmp with the iterations executed;
- `console_fifo`: what the guest reads is what the terminal sent, in order, less what found the queue full; what the
  terminal shows is what the guest wrote;
- `console_interrupt_iff`: the external lines of both modes are up exactly when the UART has a cause the PLIC lets
  through, and M-mode takes it at once.
-/
import Mathlib.Data.List.Flatten
import RiscvEmu.BusViews
import RiscvEmu.DeviceTraffic
import RiscvEmu.Interrupts

namespace RiscvEmu

open Runs

/-! ## The timer -/

section
variable {d e : Devices}

/-- the guest cannot write mtime -/
theorem DevEvent.step_mtime (d : Devices) (o : DevEvent) :
    (o.step d).clint.mtime = d.clint.mtime + if o = .clintTick then 1 else 0 := by
  cases o with
  | uart o =>
    exact (congrArg Clint.mtime (o.step_clint d)).trans (BitVec.add_zero _).symm
  | clintStore addr val =>
    refine Eq.trans ?_ (BitVec.add_zero _).symm
    simp only [DevEvent.step, RiscvEmu.clintStore]
    split_ifs <;> rfl
  | clintTick => rfl

theorem mtime_path {ops : List (Devices × DevEvent)} (hp : Path DevStep d ops e) :
    e.clint.mtime = d.clint.mtime + BitVec.ofNat 64 (ops.countP fun x => x.2 = .clintTick) := by
  induction hp with
  | nil d => exact (BitVec.add_zero _).symm
  | @cons d _ e o ops h hp ih =>
    obtain rfl := h
    rw [ih, DevEvent.step_mtime, List.countP_cons, BitVec.ofNat_add, BitVec.add_assoc]
    congr 1
    rw [BitVec.add_comm]
    congr 1
    by_cases ho : o = .clintTick
    · simp [ho]
    · simp [ho]

end

section
variable [SoftFloat] {r r' : Run} {p : List (Run × HostInput)}

theorem run_mtime (hp : Path loopStep r p r') : r'.state.dev.clint.mtime =
    r.state.dev.clint.mtime + BitVec.ofNat 64 (p.countP fun x => x.2.quit = false) := by
  obtain ⟨ops, hops, ha⟩ := run_traffic hp
  rw [mtime_path hops, ha.timer]

/-- **The machine timer counts iterations**, and its line is the comparison with their number. -/
theorem timer_pending_iff (hp : Path loopStep r p r') :
    let n := p.countP fun x => x.2.quit = false
    let cmp := r'.state.dev.clint.mtimecmp
    r'.state.dev.clint.mtime = r.state.dev.clint.mtime + BitVec.ofNat 64 n ∧
      ((csrRead r'.state csrMip).getLsbD 7 = true ↔
        cmp ≠ 0 ∧ cmp.toNat ≤ (r.state.dev.clint.mtime.toNat + n) % 2 ^ 64) := by
  have hmtime := run_mtime hp
  refine ⟨hmtime, ?_⟩
  rw [csrRead_mip, getLsbD_getMip _ (by decide)]
  simp only [clintMtipPending, hmtime, ge_iff_le, BitVec.le_def, BitVec.toNat_add, BitVec.toNat_ofNat, Nat.add_mod_mod]
  simp

end

/-- lui x5, 0x10000; lbu x6, 0(x5); sb x6, 0(x5): the key pressed is echoed -/
def echoRun : Run :=
  runInit (fun _ => 0) (fun a => Bytes.byte (n := 12) (0x006280230002C303100002B7 : BitVec 96) a.toNat) 0 false

def echoPath : List (Run × HostInput) := @trace noFloat [⟨[0x61], false⟩, ⟨[], false⟩, ⟨[], false⟩] echoRun

theorem echoRun_ends : ∃ r, Path (@loopStep noFloat) echoRun echoPath r ∧ r.state.dev.uart.stdout = [0x61] ∧
    r.state.dev.clint.mtime = 3 := by
  have hend : (@run noFloat [⟨[0x61], false⟩, ⟨[], false⟩, ⟨[], false⟩] echoRun).toOption.map
      (fun r => (r.state.dev.uart.stdout, r.state.dev.clint.mtime)) = some ([0x61], 3) := by decide
  obtain ⟨r, hrun, hr⟩ := ok_of_map hend
  obtain ⟨hout, htime⟩ := Prod.mk.inj hr
  exact ⟨r, @path_trace noFloat _ _ _ hrun, hout, htime⟩

theorem timer_pending_echoRun : ∃ r, Path (@loopStep noFloat) echoRun echoPath r ∧
    (3 : BitVec 64) = BitVec.ofNat 64 (echoPath.countP fun x => x.2.quit = false) := by
  obtain ⟨r, hp, -, htime⟩ := echoRun_ends
  refine ⟨r, hp, ?_⟩
  have hcount := (@timer_pending_iff noFloat _ _ _ hp).1
  rw [htime] at hcount
  exact hcount.trans (BitVec.zero_add _)

/-! ## The console -/

/-- the address of a read that can reach the UART: of a byte or a word -/
def MemOp.reads? : MemOp → Option Word
  | .read8Unsigned a | .read8Signed a | .read32Unsigned a | .read32Signed a => some a
  | _ => none

/-- the address of a write that can, and the byte it writes there -/
def MemOp.writes? : MemOp → Option (Word × Byte)
  | .write8 a val => some (a, val)
  | .write32 a val => some (a, val.setWidth 8)
  | _ => none

/-- the byte of the queue that a read of RBR answers, in its low byte -/
def MemOp.handed (s : Machine) (op : MemOp) : List Byte :=
  if op.reads? = some uartBase ∧ s.dev.uart.lcr &&& lcrDlab = 0 ∧ waiting s.dev.uart ≠ [] then [(op.answer s).setWidth 8]
  else []

/-- the byte that a write of THR sends -/
def MemOp.sent (d : Devices) (op : MemOp) : List Byte :=
  (op.writes?.filter fun x => x.1 = uartBase ∧ d.uart.lcr &&& lcrDlab = 0).elim [] fun x => [x.2]

/-- the bytes the accesses of an iteration hand to the guest -/
def handsOut (r : Run) (host : HostInput) : List Byte := (iterationLog host r).flatMap fun x => x.2.handed x.1

/-- the bytes they send to the terminal -/
def sends (r : Run) (host : HostInput) : List Byte := (iterationLog host r).flatMap fun x => x.2.sent x.1.dev

/-- the step takes the bytes out of the queue and shows the others on the terminal -/
structure ConsoleStep (d e : Devices) (handed sent : List Byte) : Prop where
  bounds : RxBounds d.uart → RxBounds e.uart
  queue : RxBounds d.uart → waiting d.uart = handed ++ waiting e.uart
  stdout : e.uart.stdout = d.uart.stdout ++ sent

section
variable {d e f : Devices} {handed handed' sent sent' : List Byte}

theorem ConsoleStep.of_uart (h : e.uart = d.uart) : ConsoleStep d e [] [] := by
  refine ⟨?_, ?_, ?_⟩
  · rw [h]; exact fun hb => hb
  · rw [h]; exact fun _ => rfl
  · rw [h, List.append_nil]

theorem ConsoleStep.trans (h : ConsoleStep d e handed sent) (h' : ConsoleStep e f handed' sent') :
    ConsoleStep d f (handed ++ handed') (sent ++ sent') := by
  refine ⟨fun hb => h'.bounds (h.bounds hb), ?_, ?_⟩
  · intro hb
    rw [h.queue hb, h'.queue (h.bounds hb), List.append_assoc]
  · rw [h'.stdout, h.stdout, List.append_assoc]

theorem uartUpdateIrq_stdout (d : Devices) : (uartUpdateIrq d).uart.stdout = d.uart.stdout := by
  unfold uartUpdateIrq
  dsimp only
  split_ifs <;> rfl

/-- a read of a register takes what it delivers -/
theorem uartRead_console (d : Devices) (offset : Word) :
    ConsoleStep d (uartRead d offset).2 (delivered d (.read offset)) [] := by
  refine ⟨fun hb => ((UartOp.read offset).step_queue hb).1, ?_, ?_⟩
  · intro hb
    exact (List.append_nil _).symm.trans ((UartOp.read offset).step_queue hb).2
  · rw [List.append_nil, uartRead]
    split <;> try rfl
    split_ifs
    · rfl
    · exact uartUpdateIrq_stdout _
    · rfl

/-- a write of a register shows what it writes to THR -/
theorem uartWrite_console (d : Devices) (offset val : Word) : ConsoleStep d (uartWrite d offset val) []
    (if readsRbr d offset then [val.setWidth 8] else []) := by
  refine ⟨fun hb => uartWrite_bounds hb offset val, fun _ => (uartWrite_waiting offset val).symm, ?_⟩
  have hne : ∀ n, n ≠ 0 → (offset &&& 7).toNat = n → ¬ readsRbr d offset := fun n hn h hr => hn (h.symm.trans hr.1)
  unfold uartWrite
  dsimp only
  split
  · next h0 =>
    by_cases hdlab : d.uart.lcr &&& lcrDlab = 0
    · rw [if_neg (not_not.2 hdlab), if_pos ⟨h0, hdlab⟩, uartUpdateIrq_stdout]
    · rw [if_pos hdlab, if_neg fun hr => hdlab hr.2, List.append_nil]
  · next h1 => rw [if_neg (hne 1 (by decide) h1), List.append_nil, uartUpdateIrq_stdout]
  · next h4 => rw [if_neg (hne _ (by decide) h4), List.append_nil, uartUpdateIrq_stdout]
  · next h3 => rw [if_neg (hne _ (by decide) h3), List.append_nil]
  · next h7 => rw [if_neg (hne _ (by decide) h7), List.append_nil]
  · next h0 _ _ _ _ => rw [if_neg fun hr => h0 hr.1, List.append_nil]

theorem uartReceive_stdout (d : Devices) (c : Byte) : (uartReceive d c).uart.stdout = d.uart.stdout := by
  unfold uartReceive
  split_ifs
  · rfl
  · exact uartUpdateIrq_stdout _

theorem uartTick_stdout (d : Devices) : (uartTick d).uart.stdout = d.uart.stdout := by
  unfold uartTick
  dsimp only
  split_ifs
  · exact uartUpdateIrq_stdout _
  · rfl
  · rfl

/-- of the bytes of a word access only the first of one at RBR is RBR -/
theorem uartBytes_offset {a : Word} (hu : inUart a) {i : ℕ} (hi : i ∈ uartBytes a) (hne : a = uartBase → i ≠ 0)
    (d : Devices) : ¬ readsRbr d (a - uartBase + BitVec.ofNat 32 i) := by
  intro hr
  have hlt : i < 4 := List.mem_range.1 (List.takeWhile_subset _ hi)
  have htake : decide (a + BitVec.ofNat 32 i < uartBase + uartNregs) = true :=
    List.mem_takeWhile_imp (p := fun i => decide (a + BitVec.ofNat 32 i < uartBase + uartNregs)) hi
  have hend : a + BitVec.ofNat 32 i < uartBase + uartNregs := of_decide_eq_true htake
  have hlow := BitVec.le_def.1 hu.1
  have hhigh := BitVec.lt_def.1 hu.2
  have hsize : (uartBase + uartNregs).toNat = uartBase.toNat + 8 := by decide
  have hbase : uartBase.toNat = 0x10000000 := by decide
  have hadd : (a + BitVec.ofNat 32 i).toNat = a.toNat + i := by
    rw [BitVec.toNat_add, BitVec.toNat_ofNat, Nat.mod_eq_of_lt (by omega : i < 2 ^ 32), Nat.mod_eq_of_lt (by omega)]
  have hin : inUart (a + BitVec.ofNat 32 i) := ⟨BitVec.le_def.2 (by omega), hend⟩
  have hzero := (uartOffset_eq_zero hin).1 (sub_add_ofNat a uartBase i ▸ hr.1)
  have hsum : a.toNat + i = uartBase.toNat := hadd.symm.trans (congrArg BitVec.toNat hzero)
  exact hne (BitVec.eq_of_toNat_eq (by omega)) (by omega)

/-- the loop over the bytes of a word written, but for THR -/
theorem uartScatter_foldl (off val : Word) (l : List ℕ) (h : ∀ i ∈ l, ∀ d, ¬ readsRbr d (off + BitVec.ofNat 32 i))
    (d : Devices) : ConsoleStep d (l.foldl (fun d i =>
      uartWrite d (off + BitVec.ofNat 32 i) (((val >>> (i * 8)).setWidth 8).setWidth 32)) d) [] [] := by
  induction l generalizing d with
  | nil => exact .of_uart rfl
  | cons i l ih =>
    have hone := uartWrite_console d (off + BitVec.ofNat 32 i) (((val >>> (i * 8)).setWidth 8).setWidth 32)
    rw [if_neg (h i List.mem_cons_self d)] at hone
    exact hone.trans (ih (fun j hj => h j (List.mem_cons_of_mem _ hj)) _)

/-- what is or-ed in above the low byte leaves it -/
theorem gather_low (f : ℕ → Word) (l : List ℕ) (h : ∀ i ∈ l, i ≠ 0) (v : Word) :
    (l.foldl (fun v i => v ||| f i <<< (i * 8)) v).setWidth 8 = v.setWidth 8 := by
  induction l generalizing v with
  | nil => rfl
  | cons i l ih =>
    have hi := h i List.mem_cons_self
    rw [List.foldl_cons, ih fun j hj => h j (List.mem_cons_of_mem _ hj)]
    apply BitVec.eq_of_getLsbD_eq
    intro b hb
    have hbit : (f i <<< (i * 8)).getLsbD b = false := by
      rw [BitVec.getLsbD_shiftLeft, decide_eq_true (by omega : b < i * 8)]
      simp
    rw [BitVec.getLsbD_setWidth, BitVec.getLsbD_setWidth, BitVec.getLsbD_or, hbit, Bool.or_false]

theorem uartBase_window : inUart uartBase ∧ ¬ inClint uartBase := by decide

theorem uartBytes_base : uartBytes uartBase = [0, 1, 2, 3] := by decide

/-- a word read in the window: of RBR where it starts there, and its low byte is what RBR gives -/
theorem uartGather_console {a : Word} (hu : inUart a) (d : Devices) : ConsoleStep d (uartGather d a).2
    (if a = uartBase ∧ d.uart.lcr &&& lcrDlab = 0 ∧ waiting d.uart ≠ [] then [(uartGather d a).1.setWidth 8] else [])
    [] := by
  by_cases ha : a = uartBase
  · have hbytes : uartBytes a = [0, 1, 2, 3] := ha ▸ uartBytes_base
    have hfirst : a - uartBase + BitVec.ofNat 32 0 = 0 := by rw [ha]; decide
    have hrest : ∀ i ∈ [1, 2, 3], ¬ readsRbr (uartRead d 0).2 (a - uartBase + BitVec.ofNat 32 i) :=
      fun i hi => uartBytes_offset hu (hbytes ▸ List.mem_cons_of_mem 0 hi) (fun _ => by rintro rfl; simp at hi) _
    have hgather : uartGather d a = ([1, 2, 3].foldl (fun v i => v |||
        (((uartRead (uartRead d 0).2 (a - uartBase + BitVec.ofNat 32 i)).1.setWidth 8).setWidth 32) <<< (i * 8))
        (0 ||| (uartRead d 0).1 <<< (0 * 8)), (uartRead d 0).2) := by
      rw [uartGather, hbytes, List.foldl_cons]
      dsimp only
      rw [hfirst]
      exact uartGather_foldl (uartRead d 0).2 (a - uartBase) [1, 2, 3] hrest _
    have hlow : (uartGather d a).1.setWidth 8 = (uartRead d 0).1.setWidth 8 := by
      rw [hgather, gather_low _ _ (by decide)]
      simp
    have hstep := uartRead_console d 0
    have hiff : readsRbr d 0 ↔ (a = uartBase ∧ d.uart.lcr &&& lcrDlab = 0) := by simp [readsRbr, ha]
    rw [delivered] at hstep
    rw [hlow, hgather]
    simpa only [hiff, and_assoc] using hstep
  · have hquiet : ∀ i ∈ uartBytes a, ¬ readsRbr d (a - uartBase + BitVec.ofNat 32 i) :=
      fun i hi => uartBytes_offset hu hi (fun h => absurd h ha) d
    rw [if_neg fun hc => ha hc.1, uartGather, uartGather_foldl d _ _ hquiet]
    exact .of_uart rfl

theorem uartScatter_console {a : Word} (hu : inUart a) (d : Devices) (val : Word) :
    ConsoleStep d (uartScatter d a val) []
      (if a = uartBase ∧ d.uart.lcr &&& lcrDlab = 0 then [val.setWidth 8] else []) := by
  by_cases ha : a = uartBase
  · have hbytes : uartBytes a = [0, 1, 2, 3] := ha ▸ uartBytes_base
    have hfirst : a - uartBase + BitVec.ofNat 32 0 = 0 := by rw [ha]; decide
    have hrest : ∀ i ∈ [1, 2, 3], ∀ d, ¬ readsRbr d (a - uartBase + BitVec.ofNat 32 i) :=
      fun i hi => uartBytes_offset hu (hbytes ▸ List.mem_cons_of_mem 0 hi) (fun _ => by rintro rfl; simp at hi)
    have hthr := uartWrite_console d 0 (((val >>> (0 * 8)).setWidth 8).setWidth 32)
    have hiff : readsRbr d 0 ↔ (a = uartBase ∧ d.uart.lcr &&& lcrDlab = 0) := by simp [readsRbr, ha]
    have hbyte : ((((val >>> (0 * 8)).setWidth 8).setWidth 32).setWidth 8 : Byte) = val.setWidth 8 := by simp
    rw [hbyte] at hthr
    have hall := hthr.trans (uartScatter_foldl (a - uartBase) val [1, 2, 3] hrest _)
    simp only [List.append_nil, hiff] at hall
    rw [uartScatter, hbytes, List.foldl_cons, hfirst]
    exact hall
  · rw [if_neg fun hc => ha hc.1]
    exact uartScatter_foldl (a - uartBase) val (uartBytes a) (fun i hi => uartBytes_offset hu hi fun h => absurd h ha) d

end

theorem uartWindow_reads {a : Word} (hu : inUart a) (d : Devices) :
    readsRbr d (a - uartBase) ↔ a = uartBase ∧ d.uart.lcr &&& lcrDlab = 0 := by
  rw [readsRbr, uartOffset_eq_zero hu]

section
variable {s : Machine} {a : Word} (op : MemOp)

/-- a read answers the queue in the window of the UART only -/
theorem MemOp.read_console (hr : op.reads? = some a)
    (hin : inUart a → ¬ inClint a → ConsoleStep s.dev (op.step s).dev
      (if a = uartBase ∧ s.dev.uart.lcr &&& lcrDlab = 0 ∧ waiting s.dev.uart ≠ [] then [(op.answer s).setWidth 8] else [])
      [])
    (hout : ¬ (inUart a ∧ ¬ inClint a) → (op.step s).dev.uart = s.dev.uart) :
    ConsoleStep s.dev (op.step s).dev (op.handed s) [] := by
  rw [MemOp.handed, hr]
  simp only [Option.some.injEq]
  by_cases hu : inUart a ∧ ¬ inClint a
  · exact hin hu.1 hu.2
  · have hno : a ≠ uartBase := by
      rintro rfl
      exact hu uartBase_window
    rw [if_neg fun hc => hno hc.1]
    exact .of_uart (hout hu)

theorem MemOp.write_console {c : Byte} (hw : op.writes? = some (a, c))
    (hin : inUart a → ¬ inClint a → ConsoleStep s.dev (op.step s).dev []
      (if a = uartBase ∧ s.dev.uart.lcr &&& lcrDlab = 0 then [c] else []))
    (hout : ¬ (inUart a ∧ ¬ inClint a) → (op.step s).dev.uart = s.dev.uart) :
    ConsoleStep s.dev (op.step s).dev [] (op.sent s.dev) := by
  have hsent : op.sent s.dev = if a = uartBase ∧ s.dev.uart.lcr &&& lcrDlab = 0 then [c] else [] := by
    rw [MemOp.sent, hw]
    simp only [Option.filter, decide_eq_true_iff]
    split_ifs <;> rfl
  rw [hsent]
  by_cases hu : inUart a ∧ ¬ inClint a
  · exact hin hu.1 hu.2
  · have hno : a ≠ uartBase := by
      rintro rfl
      exact hu uartBase_window
    rw [if_neg fun hc => hno hc.1]
    exact .of_uart (hout hu)

end

section
variable (s : Machine) (a : Word)

theorem memClearReservation_uart : (memClearReservation s a).dev.uart = s.dev.uart :=
  congrArg Devices.uart (memClearReservation_dev s a)

theorem memRead8Unsigned_console :
    ConsoleStep s.dev (memRead8Unsigned s a).2 ((MemOp.read8Unsigned a).handed s) [] := by
  refine MemOp.read_console (.read8Unsigned a) rfl ?_ ?_
  · intro hu hc
    have hread := uartRead_console s.dev (a - uartBase)
    simp only [delivered, uartWindow_reads hu, and_assoc] at hread
    simp only [MemOp.step, MemOp.answer, memRead8Unsigned, if_neg hc, if_pos hu]
    rw [BitVec.setWidth_setWidth_of_le _ (by decide)]
    exact hread
  · intro hout
    simp only [MemOp.step, memRead8Unsigned]
    by_cases hc : inClint a
    · rw [if_pos hc]
    · rw [if_neg hc, if_neg fun hu => hout ⟨hu, hc⟩]
      split_ifs <;> rfl

theorem memRead8Signed_console : ConsoleStep s.dev (memRead8Signed s a).2 ((MemOp.read8Signed a).handed s) [] := by
  refine MemOp.read_console (.read8Signed a) rfl ?_ ?_
  · intro hu hc
    have hread := uartRead_console s.dev (a - uartBase)
    simp only [delivered, uartWindow_reads hu, and_assoc] at hread
    simp only [MemOp.step, MemOp.answer, memRead8Signed, if_neg hc, if_pos hu]
    rw [BitVec.setWidth_setWidth_of_le _ (by decide), BitVec.setWidth_setWidth_of_le _ (by decide), BitVec.setWidth_eq]
    exact hread
  · intro hout
    simp only [MemOp.step, memRead8Signed]
    by_cases hc : inClint a
    · rw [if_pos hc]
    · rw [if_neg hc, if_neg fun hu => hout ⟨hu, hc⟩]
      split_ifs <;> rfl

theorem memRead32Unsigned_console :
    ConsoleStep s.dev (memRead32Unsigned s a).2 ((MemOp.read32Unsigned a).handed s) [] := by
  refine MemOp.read_console (.read32Unsigned a) rfl ?_ ?_
  · intro hu hc
    simp only [MemOp.step, MemOp.answer, memRead32Unsigned, if_neg hc, if_pos hu]
    rw [BitVec.setWidth_setWidth_of_le _ (by decide)]
    exact uartGather_console hu s.dev
  · intro hout
    simp only [MemOp.step, memRead32Unsigned]
    by_cases hc : inClint a
    · rw [if_pos hc]
    · rw [if_neg hc, if_neg fun hu => hout ⟨hu, hc⟩]
      split_ifs <;> rfl

theorem memWrite8_console (val : Byte) :
    ConsoleStep s.dev (memWrite8 s a val).dev [] ((MemOp.write8 a val).sent s.dev) := by
  refine MemOp.write_console (.write8 a val) rfl ?_ ?_
  · intro hu hc
    have hwrite := uartWrite_console s.dev (a - uartBase) (val.setWidth 32)
    simp only [uartWindow_reads hu] at hwrite
    rw [BitVec.setWidth_setWidth_of_le _ (by decide), BitVec.setWidth_eq] at hwrite
    simp only [MemOp.step, memWrite8, if_neg hc, if_pos hu, memClearReservation_dev]
    exact hwrite
  · intro hout
    simp only [MemOp.step, memWrite8]
    by_cases hc : inClint a
    · rw [if_pos hc]
      exact memClearReservation_uart s a
    · rw [if_neg hc, if_neg fun hu => hout ⟨hu, hc⟩]
      split_ifs <;> exact memClearReservation_uart s a

theorem memWrite32_console (val : Word) :
    ConsoleStep s.dev (memWrite32 s a val).dev [] ((MemOp.write32 a val).sent s.dev) := by
  refine MemOp.write_console (.write32 a val) rfl ?_ ?_
  · intro hu hc
    simp only [MemOp.step, memWrite32, if_neg hc, if_pos hu, memClearReservation_dev]
    exact uartScatter_console hu s.dev val
  · intro hout
    simp only [MemOp.step, memWrite32]
    by_cases hc : inClint a
    · rw [if_pos hc]
      exact memClearReservation_uart s a
    · rw [if_neg hc, if_neg fun hu => hout ⟨hu, hc⟩]
      split_ifs <;> exact memClearReservation_uart s a

end

/-- **One access**: the queue gives up the byte the access answers, and the terminal shows the byte it writes. -/
theorem MemOp.step_console (s : Machine) (op : MemOp) :
    ConsoleStep s.dev (op.step s).dev (op.handed s) (op.sent s.dev) := by
  -- the accesses of 16 and of 64 bits reach the CLINT and the memory only
  cases op with
  | write8 a v => exact memWrite8_console s a v
  | write32 a v => exact memWrite32_console s a v
  | read8Unsigned a => exact memRead8Unsigned_console s a
  | read8Signed a => exact memRead8Signed_console s a
  | read32Unsigned a => exact memRead32Unsigned_console s a
  | read32Signed a => exact memRead32Unsigned_console s a
  | write16 a v =>
    refine .of_uart ?_
    simp only [MemOp.step, memWrite16]
    split_ifs <;> exact memClearReservation_uart s a
  | write64 a v =>
    refine .of_uart ?_
    simp only [MemOp.step, memWrite64]
    split_ifs <;> exact memClearReservation_uart s a
  | read16Unsigned a =>
    refine .of_uart ?_
    simp only [MemOp.step, memRead16Unsigned]
    split_ifs <;> rfl
  | read16Signed a =>
    refine .of_uart ?_
    simp only [MemOp.step, memRead16Signed, memRead16Unsigned]
    split_ifs <;> rfl
  | read64Unsigned a =>
    refine .of_uart ?_
    simp only [MemOp.step, memRead64Unsigned]
    split_ifs <;> rfl

section
variable {d e : Devices}

/-- the accesses of a log take their bytes out of the queue, and send theirs -/
theorem Leads.console {log : BusLog} (h : Leads d log e) :
    ConsoleStep d e (log.flatMap fun x => x.2.handed x.1) (log.flatMap fun x => x.2.sent x.1.dev) := by
  induction log generalizing d with
  | nil =>
    cases h
    exact .of_uart rfl
  | cons x log ih =>
    cases h with
    | cons hx hp =>
      have hone := x.2.step_console x.1
      exact hone.trans (ih (hx.2 ▸ hp))

/-- what the queue takes in of the bytes of a poll -/
def takesIn (d : Devices) : List Byte → List Byte
  | [] => []
  | c :: bytes => accepted d (.receive c) ++ takesIn (uartReceive d c) bytes

/-- a poll appends what the queue takes in -/
theorem poll_queue (bytes : List Byte) (d : Devices) (hb : RxBounds d.uart) :
    RxBounds (bytes.foldl uartReceive d).uart ∧
      waiting (bytes.foldl uartReceive d).uart = waiting d.uart ++ takesIn d bytes ∧
      (bytes.foldl uartReceive d).uart.stdout = d.uart.stdout := by
  induction bytes generalizing d with
  | nil => exact ⟨hb, (List.append_nil _).symm, rfl⟩
  | cons c bytes ih =>
    obtain ⟨hbounds, hqueue, hout⟩ := ih (uartReceive d c) (uartReceive_bounds hb c)
    have hone := ((UartOp.receive c).step_queue hb).2
    refine ⟨hbounds, ?_, hout.trans (uartReceive_stdout d c)⟩
    rw [takesIn, ← List.append_assoc, hone]
    exact hqueue

end

section
variable [SoftFloat] {r : Run} {p : List (Run × HostInput)}

/-- **One iteration** loses no byte of the queue, and shows what its accesses send. -/
theorem Serves.console {r' : Run} {host : HostInput} (h : Serves r host r') (hb : RxBounds r.state.dev.uart) :
    RxBounds r'.state.dev.uart ∧
      waiting r.state.dev.uart ++ takesIn r.state.dev host.bytes = handsOut r host ++ waiting r'.state.dev.uart ∧
      r'.state.dev.uart.stdout = r.state.dev.uart.stdout ++ sends r host := by
  obtain ⟨d, hlog, hdev⟩ := h.devices
  obtain ⟨hpoll, hqueue, hout⟩ := poll_queue host.bytes r.state.dev hb
  have hguest := hlog.console
  have htail : ConsoleStep d r'.state.dev [] [] := by
    rw [hdev]
    cases host.quit with
    | true => exact .of_uart rfl
    | false =>
      rw [if_neg Bool.false_ne_true]
      refine ⟨fun hd => uartTick_bounds hd, fun _ => ?_, ?_⟩
      · exact (uartTick_waiting (d := { d with clint := clintTick d.clint })).symm
      · exact (uartTick_stdout _).trans (List.append_nil _).symm
  have hall := hguest.trans htail
  rw [List.append_nil, List.append_nil] at hall
  refine ⟨hall.bounds hpoll, ?_, ?_⟩
  · rw [← hqueue]
    exact hall.queue hpoll
  · rw [← hout]
    exact hall.stdout

end

/-- the line of the UART is fresh, and no other source of the PLIC has one -/
structure ConsoleLine (d : Devices) : Prop where
  fresh : LineFresh d
  others : ∀ i, i ≠ uartIrq → d.plic.pending.getLsbD i = false

section
variable {d : Devices} {i : ℕ}

theorem uartUpdateIrq_others (hi : i ≠ uartIrq) :
    (uartUpdateIrq d).plic.pending.getLsbD i = d.plic.pending.getLsbD i := by
  have hset : ∀ level, (plicSetIrq d.plic uartIrq level).pending.getLsbD i = d.plic.pending.getLsbD i := by
    intro level
    by_cases hlt : i < 32
    · have hput : (plicSetIrq d.plic uartIrq level).pending = Bits.putBit d.plic.pending uartIrq level := by
        cases level <;> rfl
      rw [hput, Bits.getLsbD_putBit _ _ _ hlt, if_neg hi]
    · rw [BitVec.getLsbD_of_ge _ _ (not_lt.1 hlt), BitVec.getLsbD_of_ge _ _ (not_lt.1 hlt)]
  unfold uartUpdateIrq
  dsimp only
  split_ifs
  · exact hset _
  · rfl

theorem UartOp.step_others (o : UartOp) (hi : i ≠ uartIrq) :
    (o.step d).plic.pending.getLsbD i = d.plic.pending.getLsbD i := by
  cases o with
  | receive c =>
    simp only [UartOp.step, uartReceive]
    split_ifs
    · rfl
    · exact uartUpdateIrq_others hi
  | read offset =>
    simp only [UartOp.step, uartRead]
    split <;> try rfl
    split_ifs
    · rfl
    · exact uartUpdateIrq_others hi
    · rfl
  | write offset val =>
    simp only [UartOp.step, uartWrite]
    split
    · split_ifs
      · rfl
      · exact uartUpdateIrq_others hi
    · exact uartUpdateIrq_others hi
    · exact uartUpdateIrq_others hi
    all_goals rfl
  | tick =>
    simp only [UartOp.step, uartTick]
    split_ifs
    · exact uartUpdateIrq_others hi
    · rfl
    · rfl
  | plicRead off => exact congrArg (·.getLsbD i) (plicRead32_pending d.plic off)
  | plicWrite off val => exact congrArg (·.getLsbD i) (plicWrite32_pending d.plic off val)

theorem DevEvent.step_consoleLine (h : ConsoleLine d) (o : DevEvent) : ConsoleLine (o.step d) := by
  cases o with
  | uart o => exact ⟨o.step_line h.fresh, fun i hi => (o.step_others hi).trans (h.others i hi)⟩
  | clintStore addr val => exact ⟨⟨h.fresh.line, h.fresh.level, h.fresh.busy⟩, h.others⟩
  | clintTick => exact ⟨⟨h.fresh.line, h.fresh.level, h.fresh.busy⟩, h.others⟩

theorem runInit_consoleLine (gpr : Reg → Word) (mainMemory : Word → Byte) (programBase : Word) (active : Bool) :
    ConsoleLine (runInit gpr mainMemory programBase active).state.dev :=
  ⟨uartInit_line clintInit ⟨fun _ => 0, 0, 0, 0, 0, 0, 0, false, false, 0, []⟩,
    fun _ hi => (uartUpdateIrq_others hi).trans BitVec.getLsbD_zero⟩

/-- a byte waits and IER enables its interrupt, or the transmitter is empty and IER enables that one; and the PLIC lets
the UART through to the context -/
def rings (d : Devices) (ctx : ℕ) : Prop :=
  (waiting d.uart ≠ [] ∧ d.uart.ier.getLsbD 0 = true ∨ d.uart.thrBusy = false ∧ d.uart.ier.getLsbD 1 = true) ∧
    (d.plic.enable ctx).getLsbD uartIrq = true ∧ d.plic.threshold ctx < d.plic.priority uartIrq ∧
    d.plic.claimed ctx uartIrq = false

instance (d : Devices) (ctx : ℕ) : Decidable (rings d ctx) := by unfold rings; infer_instance

/-- what raises the line of the UART -/
theorem uart_pend_iff (u : Uart) : (uartRxPend u || uartTxPend u) = true ↔
    waiting u ≠ [] ∧ u.ier.getLsbD 0 = true ∨ u.thrBusy = false ∧ u.ier.getLsbD 1 = true := by
  have hrx : uartRxPend u = true ↔ waiting u ≠ [] ∧ u.ier.getLsbD 0 = true := by
    rw [uartRxPend, decide_eq_true_iff, ne_eq (waiting u), waiting_eq_nil, Nat.pos_iff_ne_zero]
    exact and_congr_right' (Bits.and_bit_ne_zero (k := 0) u.ier)
  have htx : uartTxPend u = true ↔ u.thrBusy = false ∧ u.ier.getLsbD 1 = true := by
    rw [uartTxPend, decide_eq_true_iff, Bool.not_eq_true]
    exact and_congr_right' (Bits.and_bit_ne_zero (k := 1) u.ier)
  rw [Bool.or_eq_true, hrx, htx]

/-- the only source that can be the best is the UART -/
theorem ConsoleLine.best_iff (h : ConsoleLine d) (ctx : ℕ) : plicBestSource d.plic ctx ≠ 0 ↔ rings d ctx := by
  have hline : d.plic.pending.getLsbD uartIrq = true ↔ waiting d.uart ≠ [] ∧ d.uart.ier.getLsbD 0 = true ∨
      d.uart.thrBusy = false ∧ d.uart.ier.getLsbD 1 = true := by
    rw [h.fresh.line, h.fresh.level]
    exact uart_pend_iff d.uart
  rw [plicBestSource_ne_zero]
  refine ⟨?_, ?_⟩
  · intro hx
    obtain ⟨id, -, hp, he, ht, hc⟩ := hx
    by_cases hid : id = uartIrq
    · subst hid
      exact ⟨hline.1 hp, he, ht, hc⟩
    · rw [h.others id hid] at hp
      cases hp
  · intro hr
    obtain ⟨hp, he, ht, hc⟩ := hr
    exact ⟨uartIrq, ⟨by decide, by decide⟩, hline.2 hp, he, ht, hc⟩

end

section
variable [SoftFloat] {r : Run} {p : List (Run × HostInput)}

/-- **No console interrupt is lost and none is spurious.** In every state reached, the external lines of M-mode and of
S-mode are up exactly when the UART has a cause that the PLIC lets through, and M-mode with interrupts enabled takes its
line before it fetches again. -/
theorem console_interrupt_iff (gpr : Reg → Word) (mainMemory : Word → Byte) (programBase : Word) (active : Bool)
    (hp : Path loopStep (runInit gpr mainMemory programBase active) p r) :
    ((csrRead r.state csrMip).getLsbD 11 = true ↔ rings r.state.dev 0) ∧
      ((csrRead r.state csrMip).getLsbD 9 = true ↔ rings r.state.dev 1) ∧
      (r.state.privilege = prvMachine → machineEnabled r.state = true → (r.state.csr csrMie).getLsbD 11 = true →
        rings r.state.dev 0 → checkAndHandleInterrupts r.state = raiseInterrupt r.state 11) := by
  have hline : ConsoleLine r.state.dev := devices_invariant (fun d o h => DevEvent.step_consoleLine h o) hp
    (runInit_consoleLine gpr mainMemory programBase active)
  have hmeip : (csrRead r.state csrMip).getLsbD 11 = true ↔ rings r.state.dev 0 := by
    have hmip := getLsbD_getMip r.state (i := 11) (by decide)
    rw [if_neg (by decide), if_pos rfl] at hmip
    rw [csrRead_mip, hmip, decide_eq_true_iff]
    exact hline.best_iff 0
  refine ⟨hmeip, ?_, ?_⟩
  · have hmip := getLsbD_getMip r.state (i := 9) (by decide)
    rw [if_pos rfl] at hmip
    rw [csrRead_mip, hmip, decide_eq_true_iff]
    exact hline.best_iff 1
  · intro hm hmie hmeie hr
    have hbit : (getMip r.state &&& r.state.csr csrMie).getLsbD 11 = true := by
      rw [BitVec.getLsbD_and, hmeie, Bool.and_true]
      exact hmeip.2 hr
    have hhigh : highest (getMip r.state &&& r.state.csr csrMie) = some 11 := by
      rw [highest, irqOrder, List.find?_cons_of_pos]
      exact hbit
    rw [checkAndHandleInterrupts_machine hm, hmie, if_pos rfl, hhigh]
    rfl

end

/-- lui x5, 0x10000; li x6, 1; sb x6, 1(x5); lui x7, 0xC000; sw x6, 40(x7); lui x7, 0xC002; li x8, 0x400; sw x8, 0(x7);
lui x8, 1; addi x8, x8, -0x800; csrw mie, x8; csrsi mstatus, 8: the key pressed interrupts -/
def bellRun : Run :=
  let program : List Word := [0x100002B7, 0x00100313, 0x006280A3, 0x0C0003B7, 0x0263A423, 0x0C0023B7, 0x40000413, 0x0083A023,
    0x00001437, 0x80040413, 0x30441073, 0x30046073]
  runInit (fun _ => 0) (fun a => Bytes.byte (n := 4) (program.getD (a.toNat / 4) 0) (a.toNat % 4)) 0 false

theorem console_interrupt_bellRun : ∃ p r, Path (@loopStep noFloat) bellRun p r ∧
    (csrRead r.state csrMip).getLsbD 11 = true ∧ checkAndHandleInterrupts r.state = raiseInterrupt r.state 11 := by
  have hend : (@run noFloat (List.replicate 11 ⟨[], false⟩ ++ [⟨[0x61], false⟩]) bellRun).toOption.map
      (fun r => decide (r.state.privilege = prvMachine ∧ machineEnabled r.state = true ∧
        (r.state.csr csrMie).getLsbD 11 = true ∧ rings r.state.dev 0)) = some true := by decide
  obtain ⟨r, hrun, hr⟩ := ok_of_map hend
  obtain ⟨hm, hie, hmeie, hrings⟩ := of_decide_eq_true hr
  obtain ⟨p, hp⟩ := @run_path noFloat _ _ _ hrun
  obtain ⟨hline, -, htaken⟩ := @console_interrupt_iff noFloat _ _ _ _ _ _ hp
  exact ⟨p, r, hp, hline.2 hrings, htaken hm hie hmeie hrings⟩

end RiscvEmu
