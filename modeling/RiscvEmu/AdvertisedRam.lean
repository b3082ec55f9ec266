/-
The memory the device tree declares against the memory mem.h serves: /memory@80000000 runs from FDT_RAM_START to the
end of the 4 GiB address space, MEM_SIZE is one page short of it.

Below MEM_SIZE the declared range holds no device window, so an access there is an access of RAM. Past MEM_SIZE each
width falls through to its own bound and reads 0, whatever was written.
Main results:
- `ramBytes_declared`: a declared access that ends below MEM_SIZE is one of RAM;
- `advertised_memory_iff`: a declared access behaves as memory exactly when it ends below MEM_SIZE.
-/
import RiscvEmu.Device.Fdt
import RiscvEmu.RamCoherence

namespace RiscvEmu

open Bytes

inductive Width where
  | w8 | w16 | w32 | w64
deriving DecidableEq, Repr

def Width.bytes : Width → ℕ
  | w8 => 1
  | w16 => 2
  | w32 => 4
  | w64 => 8

/-- the access lies in the range of /memory -/
def Declared (w : Width) (a : Word) : Prop :=
  fdtRamStart.toNat ≤ a.toNat ∧ a.toNat + w.bytes ≤ fdtRamStart.toNat + fdtRamSize.toNat

instance (w : Width) (a : Word) : Decidable (Declared w a) := inferInstanceAs (Decidable (_ ∧ _))

/-- a value written reads back, in the extension ext of the read -/
def ReadsBack {n m : ℕ} (write : Machine → Word → BitVec n → Machine) (read : Machine → Word → BitVec m × Devices)
    (ext : BitVec n → BitVec m) (a : Word) : Prop :=
  ∀ s v, (read (write s a v) a).1 = ext v

/-- a write changes no byte outside the k bytes from a on -/
def OnlyAt {n : ℕ} (write : Machine → Word → BitVec n → Machine) (a : Word) (k : ℕ) : Prop :=
  ∀ s v b, ¬ (b - a).toNat < k →
    (write s a v).mainMemory b = s.mainMemory b ∧ (memRead8Unsigned (write s a v) b).1 = (memRead8Unsigned s b).1

/-- the accesses of the width at a are accesses of memory -/
def MemoryAt (a : Word) : Width → Prop
  | .w8 => ReadsBack memWrite8 memRead8Unsigned (·.setWidth 32) a ∧
      ReadsBack memWrite8 memRead8Signed (·.signExtend 32) a ∧ OnlyAt memWrite8 a 1
  | .w16 => ReadsBack memWrite16 memRead16Unsigned (·.setWidth 32) a ∧
      ReadsBack memWrite16 memRead16Signed (·.signExtend 32) a ∧ OnlyAt memWrite16 a 2
  | .w32 => ReadsBack memWrite32 memRead32Unsigned id a ∧ ReadsBack memWrite32 memRead32Signed id a ∧
      OnlyAt memWrite32 a 4
  | .w64 => ReadsBack memWrite64 memRead64Unsigned id a ∧ OnlyAt memWrite64 a 8

/-! ## Below MEM_SIZE -/

/-- the declared range starts past every device window -/
theorem declared_window {a : Word} (h : fdtRamStart.toNat ≤ a.toNat) : ¬ inClint a ∧ ¬ inUart a ∧ ¬ inPlic a := by
  have hclint : (clintBase + clintSize).toNat ≤ fdtRamStart.toNat := by decide
  have huart : (uartBase + uartNregs).toNat ≤ fdtRamStart.toNat := by decide
  have hplic : (plicBase + plicSize).toNat ≤ fdtRamStart.toNat := by decide
  refine ⟨?_, ?_, ?_⟩ <;>
  · intro h
    have hlt := BitVec.lt_def.1 h.2
    omega

theorem ramBytes_declared {a : Word} {n : ℕ} (hlo : fdtRamStart.toNat ≤ a.toNat) (hhi : a.toNat + n ≤ memSize) :
    RamBytes a n := by
  intro i hi
  have hsize : memSize < 2 ^ 32 := by decide
  have hat : (a + BitVec.ofNat 32 i).toNat = a.toNat + i := by
    rw [BitVec.toNat_add, BitVec.toNat_ofNat, Nat.mod_eq_of_lt (by omega : i < 2 ^ 32), Nat.mod_eq_of_lt (by omega)]
  obtain ⟨hc, hu, hp⟩ := declared_window (a := a + BitVec.ofNat 32 i) (by omega)
  exact ⟨hc, hu, hp, by omega⟩

/-- the byte view of an address depends on its byte and on the devices only -/
theorem memRead8Unsigned_congr {s s' : Machine} {b : Word} (hdev : s'.dev = s.dev)
    (hmem : s'.mainMemory b = s.mainMemory b) : memRead8Unsigned s' b = memRead8Unsigned s b := by
  unfold memRead8Unsigned
  rw [hdev, hmem]

theorem onlyAt_ramStore {n : ℕ} {write : Machine → Word → BitVec (8 * n) → Machine} {a : Word}
    (hw : ∀ s v, write s a v = ramStore s a n v) : OnlyAt write a n := by
  intro s v b hb
  have hmem : (write s a v).mainMemory b = s.mainMemory b := by
    rw [hw]
    exact storeLE_other _ _ _ hb
  have hdev : (write s a v).dev = s.dev := by
    rw [hw]
    exact memClearReservation_dev s a
  exact ⟨hmem, congrArg Prod.fst (memRead8Unsigned_congr hdev hmem)⟩

/-- a store followed by a load of the same bytes -/
theorem readsBack_ramStore {n m : ℕ} {write : Machine → Word → BitVec (8 * n) → Machine}
    {read : Machine → Word → BitVec m × Devices} {ext : BitVec (8 * n) → BitVec m} {a : Word} (hn : n ≤ 2 ^ 32)
    (hw : ∀ s v, write s a v = ramStore s a n v) (hr : ∀ s, (read s a).1 = ext (loadLE s.mainMemory a n)) :
    ReadsBack write read ext a := by
  intro s v
  rw [hr, hw]
  exact congrArg ext (loadLE_storeLE _ _ _ hn)

theorem memoryAt_of_ram {w : Width} {a : Word} (h : RamBytes a w.bytes) : MemoryAt a w := by
  cases w with
  | w8 =>
    have hw : ∀ s v, memWrite8 s a v = ramStore s a 1 v := fun s v => memWrite8_ram s v h
    exact ⟨readsBack_ramStore (n := 1) (by decide) hw fun s => congrArg Prod.fst (memRead8Unsigned_ram s h),
      readsBack_ramStore (n := 1) (by decide) hw fun s => congrArg Prod.fst (memRead8Signed_ram s h), onlyAt_ramStore (n := 1) hw⟩
  | w16 =>
    have hw : ∀ s v, memWrite16 s a v = ramStore s a 2 v := fun s v => memWrite16_ram s v h
    exact ⟨readsBack_ramStore (n := 2) (by decide) hw fun s => congrArg Prod.fst (memRead16Unsigned_ram s h),
      readsBack_ramStore (n := 2) (by decide) hw fun s => congrArg Prod.fst (memRead16Signed_ram s h), onlyAt_ramStore (n := 2) hw⟩
  | w32 =>
    have hw : ∀ s v, memWrite32 s a v = ramStore s a 4 v := fun s v => memWrite32_ram s v h
    have hread : ReadsBack memWrite32 memRead32Unsigned id a :=
      readsBack_ramStore (n := 4) (by decide) hw fun s => congrArg Prod.fst (memRead32Unsigned_ram s h)
    exact ⟨hread, hread, onlyAt_ramStore (n := 4) hw⟩
  | w64 =>
    have hw : ∀ s v, memWrite64 s a v = ramStore s a 8 v := fun s v => memWrite64_ram s v h
    exact ⟨readsBack_ramStore (n := 8) (by decide) hw fun s => congrArg Prod.fst (memRead64Unsigned_ram s h),
      onlyAt_ramStore (n := 8) hw⟩

/-! ## Past MEM_SIZE -/

theorem not_readsBack_of_zero {n m : ℕ} {write : Machine → Word → BitVec n → Machine}
    {read : Machine → Word → BitVec m × Devices} {ext : BitVec n → BitVec m} {a : Word} (hr : ∀ s, (read s a).1 = 0)
    {v : BitVec n} (hv : ext v ≠ 0) : ¬ ReadsBack write read ext a := by
  intro h
  have hback := h (machineInit (fun _ => 0) (fun _ => 0) 0) v
  exact hv (hback.symm.trans (hr _))

/-- the reads that cross MEM_SIZE answer 0 in every state, so a 1 does not read back -/
theorem not_memoryAt_past {w : Width} {a : Word} (hlo : fdtRamStart.toNat ≤ a.toNat)
    (hpast : ¬ a.toNat + w.bytes ≤ memSize) : ¬ MemoryAt a w := by
  obtain ⟨hc, hu, hp⟩ := declared_window hlo
  have hsize : memSize = 4294963200 := rfl
  intro h
  cases w with
  | w8 =>
    have hend : a.toNat ≥ memSize := by
      change ¬ a.toNat + 1 ≤ memSize at hpast
      omega
    refine not_readsBack_of_zero (v := 1) (fun s => ?_) (by decide) h.1
    rw [memRead8Unsigned, if_neg hc, if_neg hu, if_neg (mt inPlic8_inPlic hp), if_pos hend]
  | w16 =>
    have hend : a.toNat ≥ memSize - 1 := by
      change ¬ a.toNat + 2 ≤ memSize at hpast
      omega
    refine not_readsBack_of_zero (v := 1) (fun s => ?_) (by decide) h.1
    rw [memRead16Unsigned, if_neg hc, if_pos hend]
  | w32 =>
    have hend : a.toNat ≥ memSize - 3 := by
      change ¬ a.toNat + 4 ≤ memSize at hpast
      omega
    refine not_readsBack_of_zero (v := 1) (fun s => ?_) (by decide) h.1
    rw [memRead32Unsigned, if_neg hc, if_neg hu, if_neg hp, if_pos hend]
  | w64 =>
    have hend : a.toNat ≥ memSize - 7 := by
      change ¬ a.toNat + 8 ≤ memSize at hpast
      omega
    refine not_readsBack_of_zero (v := 1) (fun s => ?_) (by decide) h.1
    rw [memRead64Unsigned, if_neg hc, if_pos hend]

/-- **Advertised memory is memory up to MEM_SIZE, and only there.** -/
theorem advertised_memory_iff (w : Width) (a : Word) (h : Declared w a) :
    MemoryAt a w ↔ a.toNat + w.bytes ≤ memSize := by
  refine ⟨?_, fun hend => memoryAt_of_ram (ramBytes_declared h.1 hend)⟩
  intro hmem
  by_contra hpast
  exact not_memoryAt_past h.1 hpast hmem

theorem advertised_memory_first_word : MemoryAt 0x80000000 .w32 ↔ (0x80000000 : Word).toNat + 4 ≤ memSize :=
  advertised_memory_iff .w32 0x80000000 (by decide)

/-- the first byte of the page the tree declares past MEM_SIZE: a 1 written there reads 0 -/
theorem advertised_past_mem_size : ¬ ∀ (w : Width) (a : Word), Declared w a → MemoryAt a w := by
  intro h
  have hback := (h .w8 0xFFFFF000 (by decide)).1 (machineInit (fun _ => 0) (fun _ => 0) 0) 1
  exact absurd hback (by decide)

end RiscvEmu
