/-
The traffic between the hart and its devices, over whole runs.

Whatever the guest does reaches the devices through the registers of the CLINT, the PLIC and the UART, one access after
the other; the terminal and the clocks add their own events between instructions. So a law that each of these events
keeps is a law of the main loop. Results:
- `MemOp.step_traffic`: a physical access acts on the devices through their registers only;
- `Leads.traffic`: so do the accesses of an instruction;
- `iteration_traffic`: an iteration adds the bytes of its poll and one tick of each clock;
- `run_traffic`: a run of the loop is a run of the devices, with the bytes of all polls in their order.
-/
import RiscvEmu.BusLog
import RiscvEmu.Device.UartQueue

namespace RiscvEmu

open Runs

/-! ## Events -/

/-- an operation of the UART or on the PLIC, a byte stored to the CLINT, or the tick of its timer -/
inductive DevEvent
  | uart (o : UartOp)
  | clintStore (addr : Word) (val : Byte)
  | clintTick
deriving DecidableEq

def DevEvent.step (d : Devices) : DevEvent → Devices
  | .uart o => o.step d
  | .clintStore addr val => { d with clint := RiscvEmu.clintStore d.clint addr val }
  | .clintTick => { d with clint := RiscvEmu.clintTick d.clint }

def DevStep (d : Devices) (o : DevEvent) (e : Devices) : Prop := e = o.step d

theorem uartUpdateIrq_clint (d : Devices) : (uartUpdateIrq d).clint = d.clint := by
  unfold uartUpdateIrq
  dsimp only
  split_ifs <;> rfl

/-- no operation of the UART reaches the CLINT -/
theorem UartOp.step_clint (d : Devices) (o : UartOp) : (o.step d).clint = d.clint := by
  cases o with
  | receive c =>
    simp only [UartOp.step, uartReceive]
    split_ifs
    · rfl
    · exact uartUpdateIrq_clint _
  | read offset =>
    simp only [UartOp.step, uartRead]
    split <;> try rfl
    split_ifs
    · rfl
    · exact uartUpdateIrq_clint _
    · rfl
  | write offset val =>
    simp only [UartOp.step, uartWrite]
    split
    · split_ifs
      · rfl
      · exact uartUpdateIrq_clint _
    · exact uartUpdateIrq_clint _
    · exact uartUpdateIrq_clint _
    all_goals rfl
  | tick =>
    simp only [UartOp.step, uartTick]
    split_ifs
    · exact uartUpdateIrq_clint _
    · rfl
    · rfl
  | plicRead off => rfl
  | plicWrite off val => rfl

/-- an access of the guest: no byte of the terminal and no clock -/
def DevEvent.byGuest : DevEvent → Bool
  | .uart (.receive _) | .uart .tick | .clintTick => false
  | _ => true

/-- the guest's accesses lead from d to e -/
def Traffic (d e : Devices) : Prop := ∃ ops, Path DevStep d ops e ∧ ∀ x ∈ ops, x.2.byGuest = true

section
variable {d e f : Devices}

theorem Traffic.refl (d : Devices) : Traffic d d := ⟨[], .nil d, by simp⟩

theorem Traffic.trans (h : Traffic d e) (h' : Traffic e f) : Traffic d f := by
  obtain ⟨ops, hp, hg⟩ := h
  obtain ⟨ops', hp', hg'⟩ := h'
  exact ⟨ops ++ ops', hp.append hp', List.forall_mem_append.2 ⟨hg, hg'⟩⟩

theorem Traffic.event {o : DevEvent} (hg : o.byGuest = true) (d : Devices) : Traffic d (o.step d) :=
  ⟨[(d, o)], .cons rfl (.nil _), by simpa using hg⟩

/-- accesses made in a loop -/
theorem Traffic.foldl {α : Type} {f : Devices → α → Devices} (h : ∀ d a, Traffic d (f d a)) (l : List α)
    (d : Devices) : Traffic d (l.foldl f d) := by
  induction l generalizing d with
  | nil => exact .refl d
  | cons a l ih => exact (h d a).trans (ih (f d a))

/-- and with a value gathered on the way -/
theorem Traffic.foldl_snd {α β : Type} {f : β × Devices → α → β × Devices} (h : ∀ x a, Traffic x.2 (f x a).2)
    (l : List α) (x : β × Devices) : Traffic x.2 (l.foldl f x).2 := by
  induction l generalizing x with
  | nil => exact .refl x.2
  | cons a l ih => exact (h x a).trans (ih (f x a))

end

/-! ## Physical accesses -/

/-- the accesses lead from the devices of s to those of t -/
def Drives (s t : Machine) : Prop := Traffic s.dev t.dev

def readDrives {α : Type} (read : Machine → Word → α × Devices) : Prop := ∀ s a, Traffic s.dev (read s a).2

def writeDrives {α : Type} (write : Machine → Word → α → Machine) : Prop := ∀ s a v, Drives s (write s a v)

section
variable (d : Devices)

theorem uartRead_traffic (off : Word) : Traffic d (uartRead d off).2 := Traffic.event (o := .uart (.read off)) rfl d

theorem uartWrite_traffic (off val : Word) : Traffic d (uartWrite d off val) :=
  Traffic.event (o := .uart (.write off val)) rfl d

theorem plicReadDev_traffic (off : Word) : Traffic d (plicReadDev d off).2 :=
  Traffic.event (o := .uart (.plicRead off)) rfl d

theorem plicWriteDev_traffic (off val : Word) : Traffic d (plicWriteDev d off val) :=
  Traffic.event (o := .uart (.plicWrite off val)) rfl d

/-- the loop over the bytes of a word read from the UART -/
theorem uartGather_traffic (addr : Word) : Traffic d (uartGather d addr).2 := by
  unfold uartGather
  refine Traffic.foldl_snd ?_ (uartBytes addr) (0, d)
  intro x i
  exact uartRead_traffic x.2 _

theorem uartScatter_traffic (addr val : Word) : Traffic d (uartScatter d addr val) :=
  Traffic.foldl (fun d _ => uartWrite_traffic d _ _) _ d

theorem clintScatter_traffic {w : ℕ} (addr : Word) (n : ℕ) (val : BitVec w) :
    Traffic d { d with clint := clintScatter d.clint addr n val } := by
  have hfold : ∀ (l : List ℕ) (d : Devices), Traffic d { d with clint := l.foldl (fun c i =>
      clintStore c (addr + BitVec.ofNat 32 i) ((val >>> (i * 8)).setWidth 8)) d.clint } := by
    intro l
    induction l with
    | nil => intro d; exact .refl d
    | cons i l ih =>
      intro d
      have hone := Traffic.event (o := .clintStore (addr + BitVec.ofNat 32 i) ((val >>> (i * 8)).setWidth 8)) rfl d
      exact hone.trans (ih _)
  exact hfold _ d

end

theorem memRead8Unsigned_drives : readDrives memRead8Unsigned := by
  intro s a
  unfold memRead8Unsigned
  split_ifs
  · exact .refl _
  · exact uartRead_traffic _ _
  · exact plicReadDev_traffic _ _
  · exact .refl _
  · exact .refl _

theorem memRead8Signed_drives : readDrives memRead8Signed := by
  intro s a
  unfold memRead8Signed
  split_ifs
  · exact .refl _
  · exact uartRead_traffic _ _
  · exact .refl _
  · exact .refl _

theorem memRead16Unsigned_drives : readDrives memRead16Unsigned := by
  intro s a
  unfold memRead16Unsigned
  split_ifs <;> exact .refl _

theorem memRead16Signed_drives : readDrives memRead16Signed := fun s a => memRead16Unsigned_drives s a

theorem memRead32Unsigned_drives : readDrives memRead32Unsigned := by
  intro s a
  unfold memRead32Unsigned
  split_ifs
  · exact .refl _
  · exact uartGather_traffic _ _
  · exact plicReadDev_traffic _ _
  · exact .refl _
  · exact .refl _

theorem memRead64Unsigned_drives : readDrives memRead64Unsigned := by
  intro s a
  unfold memRead64Unsigned
  split_ifs <;> exact .refl _

section
variable {s t u : Machine}

theorem Drives.trans (h : Drives s t) (h' : Drives t u) : Drives s u := Traffic.trans h h'

theorem Drives.of_eq (h : t.dev = s.dev) : Drives s t := by
  rw [Drives, h]
  exact .refl _

end

theorem memWrite8_drives : writeDrives memWrite8 := by
  intro s a v
  refine Drives.trans (.of_eq (memClearReservation_dev s a)) ?_
  unfold memWrite8
  generalize memClearReservation s a = t
  dsimp only
  split_ifs
  · exact Traffic.event (o := .clintStore a v) rfl _
  · exact uartWrite_traffic _ _ _
  · exact (plicReadDev_traffic _ _).trans (plicWriteDev_traffic _ _ _)
  · exact .refl _
  · exact .refl _

theorem memWrite16_drives : writeDrives memWrite16 := by
  intro s a v
  refine Drives.trans (.of_eq (memClearReservation_dev s a)) ?_
  unfold memWrite16
  generalize memClearReservation s a = t
  dsimp only
  split_ifs
  · exact clintScatter_traffic _ _ _ _
  · exact .refl _
  · exact .refl _

theorem memWrite32_drives : writeDrives memWrite32 := by
  intro s a v
  refine Drives.trans (.of_eq (memClearReservation_dev s a)) ?_
  unfold memWrite32
  generalize memClearReservation s a = t
  dsimp only
  split_ifs
  · exact clintScatter_traffic _ _ _ _
  · exact uartScatter_traffic _ _ _
  · exact plicWriteDev_traffic _ _ _
  · exact .refl _
  · exact .refl _

theorem memWrite64_drives : writeDrives memWrite64 := by
  intro s a v
  refine Drives.trans (.of_eq (memClearReservation_dev s a)) ?_
  unfold memWrite64
  generalize memClearReservation s a = t
  dsimp only
  split_ifs
  · exact clintScatter_traffic _ _ _ _
  · exact .refl _
  · exact .refl _

theorem MemOp.step_traffic (s : Machine) (op : MemOp) : Traffic s.dev (op.step s).dev := by
  cases op with
  | write8 a v => exact memWrite8_drives s a v
  | write16 a v => exact memWrite16_drives s a v
  | write32 a v => exact memWrite32_drives s a v
  | write64 a v => exact memWrite64_drives s a v
  | read8Unsigned a => exact memRead8Unsigned_drives s a
  | read8Signed a => exact memRead8Signed_drives s a
  | read16Unsigned a => exact memRead16Unsigned_drives s a
  | read16Signed a => exact memRead16Signed_drives s a
  | read32Unsigned a => exact memRead32Unsigned_drives s a
  | read32Signed a => exact memRead32Unsigned_drives s a
  | read64Unsigned a => exact memRead64Unsigned_drives s a

/-- the accesses of an instruction are traffic -/
theorem Leads.traffic {d e : Devices} {log : BusLog} (h : Leads d log e) : Traffic d e := by
  induction log generalizing d with
  | nil =>
    cases h
    exact .refl _
  | cons x log ih =>
    cases h with
    | cons hx hp => exact (x.2.step_traffic x.1).trans (ih (hx.2 ▸ hp))

/-! ## Iterations and runs -/

/-- the bytes of the terminal among the events -/
def received (ops : List (Devices × DevEvent)) : List Byte :=
  ops.filterMap fun x => match x.2 with
    | .uart (.receive c) => some c
    | _ => none

/-- the events bring the bytes, in this order, and n ticks of each clock -/
structure Accounts (ops : List (Devices × DevEvent)) (bytes : List Byte) (n : ℕ) : Prop where
  bytes : received ops = bytes
  timer : ops.countP (fun x => x.2 = .clintTick) = n
  shifts : ops.countP (fun x => x.2 = .uart .tick) = n

section
variable {ops ops' : List (Devices × DevEvent)} {bytes bytes' : List Byte} {m n : ℕ}

theorem Accounts.append (h : Accounts ops bytes m) (h' : Accounts ops' bytes' n) :
    Accounts (ops ++ ops') (bytes ++ bytes') (m + n) := by
  refine ⟨?_, ?_, ?_⟩
  · rw [← h.bytes, ← h'.bytes, received, List.filterMap_append]
    rfl
  · rw [List.countP_append, h.timer, h'.timer]
  · rw [List.countP_append, h.shifts, h'.shifts]

theorem Accounts.guest (h : ∀ x ∈ ops, x.2.byGuest = true) : Accounts ops [] 0 := by
  refine ⟨?_, ?_, ?_⟩
  · rw [received, List.filterMap_eq_nil_iff]
    intro x hx
    have hg := h x hx
    rcases x with ⟨d, (_ | _ | _ | _ | _ | _) | _ | _⟩ <;> simp_all [DevEvent.byGuest]
  all_goals
    rw [List.countP_eq_zero]
    intro x hx
    have hg := h x hx
    rcases x with ⟨d, (_ | _ | _ | _ | _ | _) | _ | _⟩ <;> simp_all [DevEvent.byGuest]

end

/-- the bytes of a poll -/
theorem receive_path (bytes : List Byte) (d : Devices) :
    ∃ ops, Path DevStep d ops (bytes.foldl uartReceive d) ∧ Accounts ops bytes 0 := by
  induction bytes generalizing d with
  | nil => exact ⟨[], .nil d, rfl, rfl, rfl⟩
  | cons c bytes ih =>
    obtain ⟨ops, hp, ha⟩ := ih (uartReceive d c)
    refine ⟨(d, .uart (.receive c)) :: ops, .cons rfl hp, ?_⟩
    have hone : Accounts [(d, .uart (.receive c))] [c] 0 := ⟨rfl, rfl, rfl⟩
    exact hone.append ha

/-- the clocks after an instruction -/
theorem tick_path (d : Devices) : ∃ ops, Path DevStep d ops (uartTick { d with clint := clintTick d.clint }) ∧
    Accounts ops [] 1 :=
  ⟨[(d, .clintTick), (_, .uart .tick)], .cons rfl (.cons rfl (.nil _)), rfl, rfl, rfl⟩

section
variable [SoftFloat] {r r' : Run} {host : HostInput}

/-- **One iteration**: the bytes of its poll, the accesses of its instruction, one tick of each clock. -/
theorem iteration_traffic (h : iteration host r = .ok r') : ∃ ops, Path DevStep r.state.dev ops r'.state.dev ∧
    Accounts ops host.bytes (if host.quit then 0 else 1) := by
  obtain ⟨polled, hpoll, hbytes⟩ := receive_path host.bytes r.state.dev
  obtain ⟨d, hlog, hdev⟩ := (iteration_serves h).devices
  obtain ⟨guest, hguest, hg⟩ := hlog.traffic
  have hall := hbytes.append (Accounts.guest hg)
  rw [List.append_nil] at hall
  rw [hdev]
  cases host.quit with
  | true => exact ⟨polled ++ guest, hpoll.append hguest, hall⟩
  | false =>
    obtain ⟨ticks, htick, ht⟩ := tick_path d
    have hticks := hall.append ht
    rw [List.append_nil] at hticks
    exact ⟨(polled ++ guest) ++ ticks, (hpoll.append hguest).append htick, hticks⟩

/-- **A run of the loop is a run of the devices.** The terminal's bytes come in the order of the polls, and each clock
ticks once for every iteration that is not told to quit. -/
theorem run_traffic {p : List (Run × HostInput)} (hp : Path loopStep r p r') :
    ∃ ops, Path DevStep r.state.dev ops r'.state.dev ∧
      Accounts ops (p.flatMap fun x => x.2.bytes) (p.countP fun x => x.2.quit = false) := by
  induction hp with
  | nil r => exact ⟨[], .nil _, rfl, rfl, rfl⟩
  | @cons r r₁ r' host p h hp ih =>
    obtain ⟨ops, hops, ha⟩ := iteration_traffic h.2
    obtain ⟨ops', hops', ha'⟩ := ih
    refine ⟨ops ++ ops', hops.append hops', ?_⟩
    have hall := ha.append ha'
    rw [List.flatMap_cons, List.countP_cons, Nat.add_comm]
    cases hq : host.quit <;> simpa [hq] using hall

/-- a law that every event keeps is a law of the loop -/
theorem devices_invariant {I : Devices → Prop} (hI : ∀ d o, I d → I (DevEvent.step d o)) {p : List (Run × HostInput)}
    (hp : Path loopStep r p r') (hr : I r.state.dev) : I r'.state.dev := by
  obtain ⟨ops, hops, -⟩ := run_traffic hp
  refine hops.keeps ?_ hr
  rintro d o e hd rfl
  exact hI d o hd

end

end RiscvEmu
