/-
RAM across the access widths: under any sequence of mem_read* and mem_write* to RAM, at any alignment, the memory is a
map from addresses to bytes.

A byte of RAM lies below MEM_SIZE and in no device window. An access all of whose bytes are such passes every window
test and every bound of its own path, so each write is a plain store and each read a plain load; one step keeps the
memory equal to what the writes so far leave, and the run lemma is the induction over the sequence.
Main results:
- `ramBytes_window`: such an access starts outside the windows and ends below MEM_SIZE;
- `MemOp.step_mainMemory`: what one access does to the memory;
- `ram_coherent`: after any sequence every read answers the bytes written last.
-/
import RiscvEmu.Frame
import RiscvEmu.Init

namespace RiscvEmu

open Bytes

/-! ## Bytes and accesses of RAM -/

/-- the n bytes from addr on are bytes of RAM -/
def RamBytes (addr : Word) (n : ℕ) : Prop := ∀ i < n, isRamByte (addr + BitVec.ofNat 32 i)

instance (addr : Word) (n : ℕ) : Decidable (RamBytes addr n) := by unfold RamBytes; infer_instance

theorem RamBytes.first {addr : Word} {n : ℕ} (h : RamBytes addr n) (hn : 0 < n) : isRamByte addr := by
  have h0 := h 0 hn
  simpa using h0

/-- the byte at MEM_SIZE would be one of the access, were it not to end below -/
theorem RamBytes.le_memSize {addr : Word} {n : ℕ} (h : RamBytes addr n) (hn : 0 < n) : addr.toNat + n ≤ memSize := by
  by_contra hover
  have hfirst := (h.first hn).2.2.2
  have hlast := (h (memSize - addr.toNat) (by omega)).2.2.2
  have hsize : memSize < 2 ^ 32 := by decide
  rw [BitVec.toNat_add, BitVec.toNat_ofNat, Nat.mod_eq_of_lt (by omega : memSize - addr.toNat < 2 ^ 32),
    Nat.mod_eq_of_lt (by omega)] at hlast
  omega

theorem ramBytes_window {addr : Word} {n : ℕ} (h : RamBytes addr n) (hn : 0 < n) :
    ¬ inClint addr ∧ ¬ inUart addr ∧ ¬ inPlic addr ∧ addr.toNat + n ≤ memSize := by
  obtain ⟨hc, hu, hp, -⟩ := h.first hn
  exact ⟨hc, hu, hp, h.le_memSize hn⟩

/-! ## The accesses one by one -/

/-- every read of RAM is a load from the given bytes, and leaves the devices as they are -/
structure ReadsAs (s : Machine) (ram : Word → Byte) : Prop where
  read8Unsigned : ∀ a, RamBytes a 1 → memRead8Unsigned s a = ((loadLE ram a 1).setWidth 32, s.dev)
  read8Signed : ∀ a, RamBytes a 1 → memRead8Signed s a = ((loadLE ram a 1).signExtend 32, s.dev)
  read16Unsigned : ∀ a, RamBytes a 2 → memRead16Unsigned s a = ((loadLE ram a 2).setWidth 32, s.dev)
  read16Signed : ∀ a, RamBytes a 2 → memRead16Signed s a = ((loadLE ram a 2).signExtend 32, s.dev)
  read32Unsigned : ∀ a, RamBytes a 4 → memRead32Unsigned s a = (loadLE ram a 4, s.dev)
  read32Signed : ∀ a, RamBytes a 4 → memRead32Signed s a = (loadLE ram a 4, s.dev)
  read64Unsigned : ∀ a, RamBytes a 8 → memRead64Unsigned s a = (loadLE ram a 8, s.dev)

theorem loadLE_one (m : Word → Byte) (a : Word) : loadLE m a 1 = m a := by
  apply ext_byte
  intro k hk
  obtain rfl : k = 0 := by omega
  rw [byte_loadLE _ _ _ _ hk]
  simp [byte]

theorem memRead8Unsigned_ram (s : Machine) {a : Word} (h : RamBytes a 1) :
    memRead8Unsigned s a = ((loadLE s.mainMemory a 1).setWidth 32, s.dev) := by
  obtain ⟨hc, hu, hp, hend⟩ := ramBytes_window h (by decide)
  rw [memRead8Unsigned, if_neg hc, if_neg hu, if_neg (mt inPlic8_inPlic hp), if_neg (by omega), loadLE_one]

theorem memRead8Signed_ram (s : Machine) {a : Word} (h : RamBytes a 1) :
    memRead8Signed s a = ((loadLE s.mainMemory a 1).signExtend 32, s.dev) := by
  obtain ⟨hc, hu, -, hend⟩ := ramBytes_window h (by decide)
  rw [memRead8Signed, if_neg hc, if_neg hu, if_neg (by omega), loadLE_one]

theorem memRead16Unsigned_ram (s : Machine) {a : Word} (h : RamBytes a 2) :
    memRead16Unsigned s a = ((loadLE s.mainMemory a 2).setWidth 32, s.dev) := by
  obtain ⟨hc, -, -, hend⟩ := ramBytes_window h (by decide)
  rw [memRead16Unsigned, if_neg hc, if_neg (by omega)]

theorem memRead16Signed_ram (s : Machine) {a : Word} (h : RamBytes a 2) :
    memRead16Signed s a = ((loadLE s.mainMemory a 2).signExtend 32, s.dev) := by
  rw [memRead16Signed, memRead16Unsigned_ram s h]
  dsimp only
  rw [BitVec.setWidth_setWidth_of_le _ (by decide), BitVec.setWidth_eq]

theorem memRead32Unsigned_ram (s : Machine) {a : Word} (h : RamBytes a 4) :
    memRead32Unsigned s a = (loadLE s.mainMemory a 4, s.dev) := by
  obtain ⟨hc, hu, hp, hend⟩ := ramBytes_window h (by decide)
  rw [memRead32Unsigned, if_neg hc, if_neg hu, if_neg hp, if_neg (by omega)]

theorem memRead64Unsigned_ram (s : Machine) {a : Word} (h : RamBytes a 8) :
    memRead64Unsigned s a = (loadLE s.mainMemory a 8, s.dev) := by
  obtain ⟨hc, -, -, hend⟩ := ramBytes_window h (by decide)
  rw [memRead64Unsigned, if_neg hc, if_neg (by omega)]

/-- a read sees its own bytes only, so another map with the same bytes in RAM does as well -/
theorem ReadsAs.of_agree {s : Machine} {ram : Word → Byte} (h : ∀ b, isRamByte b → s.mainMemory b = ram b) :
    ReadsAs s ram := by
  have hload : ∀ a n, RamBytes a n → loadLE s.mainMemory a n = loadLE ram a n :=
    fun a n hram => loadLE_congr a n fun i hi => h _ (hram i hi)
  exact
    { read8Unsigned := fun a ha => by rw [memRead8Unsigned_ram s ha, hload a 1 ha]
      read8Signed := fun a ha => by rw [memRead8Signed_ram s ha, hload a 1 ha]
      read16Unsigned := fun a ha => by rw [memRead16Unsigned_ram s ha, hload a 2 ha]
      read16Signed := fun a ha => by rw [memRead16Signed_ram s ha, hload a 2 ha]
      read32Unsigned := fun a ha => by rw [memRead32Unsigned_ram s ha, hload a 4 ha]
      read32Signed := fun a ha => (memRead32Unsigned_ram s ha).trans (by rw [hload a 4 ha])
      read64Unsigned := fun a ha => by rw [memRead64Unsigned_ram s ha, hload a 8 ha] }

/-- a store of n bytes to RAM, as every mem_write* makes it -/
def ramStore (s : Machine) (a : Word) (n : ℕ) (v : BitVec (8 * n)) : Machine :=
  { memClearReservation s a with mainMemory := storeLE s.mainMemory a n v }

theorem memWrite8_ram (s : Machine) {a : Word} (v : Byte) (h : RamBytes a 1) :
    memWrite8 s a v = ramStore s a 1 v := by
  obtain ⟨hc, hu, hp, hend⟩ := ramBytes_window h (by decide)
  unfold memWrite8 ramStore
  rw [if_neg hc, if_neg hu, if_neg (mt inPlic8_inPlic hp), if_neg (by omega), memClearReservation_mainMemory]

theorem memWrite16_ram (s : Machine) {a : Word} (v : BitVec 16) (h : RamBytes a 2) :
    memWrite16 s a v = ramStore s a 2 v := by
  obtain ⟨hc, -, -, hend⟩ := ramBytes_window h (by decide)
  unfold memWrite16 ramStore
  rw [if_neg hc, if_neg (by omega), memClearReservation_mainMemory]

theorem memWrite32_ram (s : Machine) {a : Word} (v : Word) (h : RamBytes a 4) :
    memWrite32 s a v = ramStore s a 4 v := by
  obtain ⟨hc, hu, hp, hend⟩ := ramBytes_window h (by decide)
  unfold memWrite32 ramStore
  rw [if_neg hc, if_neg hu, if_neg hp, if_neg (by omega), memClearReservation_mainMemory]

theorem memWrite64_ram (s : Machine) {a : Word} (v : BitVec 64) (h : RamBytes a 8) :
    memWrite64 s a v = ramStore s a 8 v := by
  obtain ⟨hc, -, -, hend⟩ := ramBytes_window h (by decide)
  unfold memWrite64 ramStore
  rw [if_neg hc, if_neg (by omega), memClearReservation_mainMemory]

/-! ## Sequences -/

inductive MemOp where
  | write8 (addr : Word) (val : Byte)
  | write16 (addr : Word) (val : BitVec 16)
  | write32 (addr val : Word)
  | write64 (addr : Word) (val : BitVec 64)
  | read8Unsigned (addr : Word)
  | read8Signed (addr : Word)
  | read16Unsigned (addr : Word)
  | read16Signed (addr : Word)
  | read32Unsigned (addr : Word)
  | read32Signed (addr : Word)
  | read64Unsigned (addr : Word)
deriving DecidableEq

namespace MemOp

/-- the machine after the access; a read leaves its effects on the devices -/
def step (s : Machine) : MemOp → Machine
  | write8 a v => memWrite8 s a v
  | write16 a v => memWrite16 s a v
  | write32 a v => memWrite32 s a v
  | write64 a v => memWrite64 s a v
  | read8Unsigned a => { s with dev := (memRead8Unsigned s a).2 }
  | read8Signed a => { s with dev := (memRead8Signed s a).2 }
  | read16Unsigned a => { s with dev := (memRead16Unsigned s a).2 }
  | read16Signed a => { s with dev := (memRead16Signed s a).2 }
  | read32Unsigned a => { s with dev := (memRead32Unsigned s a).2 }
  | read32Signed a => { s with dev := (memRead32Signed s a).2 }
  | read64Unsigned a => { s with dev := (memRead64Unsigned s a).2 }

/-- all bytes of the access are bytes of RAM -/
def InRam : MemOp → Prop
  | write8 a _ | read8Unsigned a | read8Signed a => RamBytes a 1
  | write16 a _ | read16Unsigned a | read16Signed a => RamBytes a 2
  | write32 a _ | read32Unsigned a | read32Signed a => RamBytes a 4
  | write64 a _ | read64Unsigned a => RamBytes a 8

instance : (op : MemOp) → Decidable op.InRam
  | write8 a _ | read8Unsigned a | read8Signed a => inferInstanceAs (Decidable (RamBytes a 1))
  | write16 a _ | read16Unsigned a | read16Signed a => inferInstanceAs (Decidable (RamBytes a 2))
  | write32 a _ | read32Unsigned a | read32Signed a => inferInstanceAs (Decidable (RamBytes a 4))
  | write64 a _ | read64Unsigned a => inferInstanceAs (Decidable (RamBytes a 8))

/-- what the access writes, if it is a write -/
def write? : MemOp → Option (Write 32)
  | write8 a v => some ⟨a, 1, v⟩
  | write16 a v => some ⟨a, 2, v⟩
  | write32 a v => some ⟨a, 4, v⟩
  | write64 a v => some ⟨a, 8, v⟩
  | _ => none

def run (s : Machine) (ops : List MemOp) : Machine := ops.foldl step s

/-- the bytes a sequence leaves over zeroed memory -/
def ram (ops : List MemOp) : Word → Byte := lastByte (fun _ => 0) (ops.filterMap write?)

/-- a write stores its bytes, a read changes none -/
theorem step_mainMemory (s : Machine) {op : MemOp} (h : op.InRam) :
    (op.step s).mainMemory = (op.write?.elim s.mainMemory fun x => storeLE s.mainMemory x.addr x.n x.val) := by
  cases op with
  | write8 a v => exact congrArg Machine.mainMemory (memWrite8_ram s v h)
  | write16 a v => exact congrArg Machine.mainMemory (memWrite16_ram s v h)
  | write32 a v => exact congrArg Machine.mainMemory (memWrite32_ram s v h)
  | write64 a v => exact congrArg Machine.mainMemory (memWrite64_ram s v h)
  | _ => rfl

theorem ram_append (ops : List MemOp) (op : MemOp) :
    ram (ops ++ [op]) = (op.write?.elim (ram ops) fun x => storeLE (ram ops) x.addr x.n x.val) := by
  unfold ram
  rw [List.filterMap_append]
  cases hw : op.write? with
  | none => simp [hw]
  | some x =>
    rw [List.filterMap_cons_some hw]
    exact lastByte_append _ _ x

/-- the memory after a run is the map of the bytes written last -/
theorem run_mainMemory (s : Machine) (hs : s.mainMemory = fun _ => 0) (ops : List MemOp) (h : ∀ op ∈ ops, op.InRam) :
    (run s ops).mainMemory = ram ops := by
  induction ops using List.reverseRecOn with
  | nil => exact hs
  | append_singleton ops op ih =>
    have hops := ih fun o ho => h o (List.mem_append_left _ ho)
    have hop : op.InRam := h op (List.mem_append_right _ List.mem_cons_self)
    have hrun : run s (ops ++ [op]) = op.step (run s ops) := by
      unfold run
      rw [List.foldl_append, List.foldl_cons, List.foldl_nil]
    rw [hrun, step_mainMemory _ hop, hops, ram_append]

end MemOp

/-- **RAM is a map from addresses to bytes.** From any machine whose memory is zero: a prefix of a sequence is a
sequence, so this is what every read on the way answers. -/
theorem ram_coherent (s : Machine) (ops : List MemOp) (h : ∀ op ∈ ops, op.InRam) :
    ReadsAs (MemOp.run { s with mainMemory := fun _ => 0 } ops) (MemOp.ram ops) := by
  apply ReadsAs.of_agree
  intro b _
  rw [MemOp.run_mainMemory _ rfl ops h]

/-- a word at an odd address, a byte over its second byte, and the signed halfword of its first two -/
theorem ram_coherent_overlap :
    (memRead16Signed (MemOp.run { machineInit (fun _ => 0) (fun _ => 0) 0 with mainMemory := fun _ => 0 }
      [.write32 0x80000001 0x11223344, .write8 0x80000002 0xFF]) 0x80000001).1 = 0xFFFFFF44 :=
  (congrArg Prod.fst ((ram_coherent (machineInit (fun _ => 0) (fun _ => 0) 0)
    [.write32 0x80000001 0x11223344, .write8 0x80000002 0xFF] (by decide)).read16Signed _ (by decide))).trans (by decide)

end RiscvEmu
