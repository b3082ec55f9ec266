/-
The views of the bus: what a signed byte read and the wider reads answer against the unsigned byte reads of the same
addresses.

Each accessor has its own device windows. Where it has one, it answers the device's bytes; where it has none, it answers
the main memory under the window. Windows, registers and MEM_SIZE are all aligned to eight bytes, so a naturally aligned
access lies in a window as a whole or not at all, and each view is `view` of a decidable choice between the two.
Main results:
- `memRead16Unsigned_view`, `memRead32Unsigned_view`, `memRead64Unsigned_view`, `loadLE_byteView`: what each width
  answers on an aligned access;
- `memRead8Unsigned_effect`: an access that covers neither RBR nor a claim register changes nothing;
- `bus_views_iff`: the views of an address agree exactly when no byte is sign-extended short and the memory under a
  window that some width misses holds the bytes of the registers.
-/
import Mathlib.Data.List.TakeWhile
import RiscvEmu.Device.PlicClaim
import RiscvEmu.Device.UartQueue
import RiscvEmu.Init
import RiscvEmu.Mem

namespace RiscvEmu

open Bytes

/-! ## Registers and views -/

/-- the byte a device has at an address of its window; the registers of the PLIC are words -/
def deviceByte (d : Devices) (a : Word) : Byte :=
  if inClint a then (clintRead d.clint a).setWidth 8
  else if inUart a then (uartRead d (a - uartBase)).1.setWidth 8
  else ((plicRead32 d.plic ((a - plicBase) &&& ~~~3)).1 >>> ((a &&& 3).toNat * 8)).setWidth 8

/-- the byte of main memory, under the windows too; past MEM_SIZE there is none -/
def underByte (s : Machine) (a : Word) : Byte := if a.toNat ≥ memSize then 0 else s.mainMemory a

def CoversRbr (d : Devices) (a : Word) (n : ℕ) : Prop :=
  ∃ i < n, a + BitVec.ofNat 32 i = uartBase ∧ readsRbr d 0

def CoversClaim (a : Word) (n : ℕ) : Prop :=
  ∃ i < n, ∃ ctx < plicNctx, (a + BitVec.ofNat 32 i) &&& ~~~3 = plicBase + plicClaimReg ctx

/-- the n bytes from a on include a register whose read has an effect -/
def HasEffect (d : Devices) (a : Word) (n : ℕ) : Prop := CoversRbr d a n ∨ CoversClaim a n

instance (d : Devices) (a : Word) (n : ℕ) : Decidable (CoversRbr d a n) := by unfold CoversRbr; infer_instance
instance (a : Word) (n : ℕ) : Decidable (CoversClaim a n) := by unfold CoversClaim; infer_instance
instance (d : Devices) (a : Word) (n : ℕ) : Decidable (HasEffect d a n) := inferInstanceAs (Decidable (_ ∨ _))

/-- the byte mem_read8_unsigned answers -/
def byteView (s : Machine) (a : Word) : Byte := (memRead8Unsigned s a).1.setWidth 8

/-- the signed byte and the naturally aligned wider reads at a are what the unsigned byte reads make them -/
structure ViewsAgree (s : Machine) (a : Word) : Prop where
  signed : ¬ HasEffect s.dev a 1 → (memRead8Signed s a).1 = (byteView s a).signExtend 32
  half : 2 ∣ a.toNat → ¬ HasEffect s.dev a 2 → (memRead16Unsigned s a).1 = (loadLE (byteView s) a 2).setWidth 32
  word : 4 ∣ a.toNat → ¬ HasEffect s.dev a 4 → (memRead32Unsigned s a).1 = loadLE (byteView s) a 4
  double : 8 ∣ a.toNat → ¬ HasEffect s.dev a 8 → (memRead64Unsigned s a).1 = loadLE (byteView s) a 8

/-- of the two views of n bytes one has the window of the device at a and the other has not -/
def Shadowed (a : Word) : ℕ → Prop
  | 1 => inPlic8 a
  | 4 => inPlic a ∧ ¬ inPlic8 a
  | _ => inUart a ∨ inPlic8 a

/-- where a view misses a window, the memory under it holds the bytes of the registers -/
structure ShadowMatches (s : Machine) (a : Word) : Prop where
  sign : inClint a ∨ inUart a → ¬ HasEffect s.dev a 1 → (deviceByte s.dev a).msb = false
  under : ∀ n ∈ [1, 2, 4, 8], n ∣ a.toNat → ¬ HasEffect s.dev a n → Shadowed a n →
    ∀ i < n, s.mainMemory (a + BitVec.ofNat 32 i) = deviceByte s.dev (a + BitVec.ofNat 32 i)

/-- a view with the windows p, and one without -/
def view (s : Machine) (p : Prop) [Decidable p] : Word → Byte := if p then deviceByte s.dev else underByte s

/-! ## Aligned accesses -/

section
variable {a : Word} {n i : ℕ}

theorem toNat_add_aligned (hn : n ∈ [1, 2, 4, 8]) (ha : n ∣ a.toNat) (hi : i < n) :
    (a + BitVec.ofNat 32 i).toNat = a.toNat + i := by
  have hlt := a.isLt
  rw [BitVec.toNat_add, BitVec.toNat_ofNat]
  simp only [List.mem_cons, List.not_mem_nil, or_false] at hn
  rcases hn with rfl | rfl | rfl | rfl <;> omega

/-- an aligned access does not cross the edge of a window -/
theorem window_aligned {lo hi' : Word} (hn : n ∈ [1, 2, 4, 8]) (ha : n ∣ a.toNat) (hi : i < n)
    (hlo : 8 ∣ lo.toNat) (hhi : 8 ∣ hi'.toNat) :
    (a + BitVec.ofNat 32 i ≥ lo ∧ a + BitVec.ofNat 32 i < hi') ↔ (a ≥ lo ∧ a < hi') := by
  rw [ge_iff_le, ge_iff_le, BitVec.le_def, BitVec.lt_def, BitVec.le_def, BitVec.lt_def, toNat_add_aligned hn ha hi]
  simp only [List.mem_cons, List.not_mem_nil, or_false] at hn
  rcases hn with rfl | rfl | rfl | rfl <;> omega

theorem inClint_aligned (hn : n ∈ [1, 2, 4, 8]) (ha : n ∣ a.toNat) (hi : i < n) :
    inClint (a + BitVec.ofNat 32 i) ↔ inClint a :=
  window_aligned hn ha hi (by decide) (by decide)

theorem inUart_aligned (hn : n ∈ [1, 2, 4, 8]) (ha : n ∣ a.toNat) (hi : i < n) :
    inUart (a + BitVec.ofNat 32 i) ↔ inUart a :=
  window_aligned hn ha hi (by decide) (by decide)

theorem inPlic_aligned (hn : n ∈ [1, 2, 4, 8]) (ha : n ∣ a.toNat) (hi : i < n) :
    inPlic (a + BitVec.ofNat 32 i) ↔ inPlic a :=
  window_aligned hn ha hi (by decide) (by decide)

theorem inPlic8_aligned (hn : n ∈ [1, 2, 4, 8]) (ha : n ∣ a.toNat) (hi : i < n) :
    inPlic8 (a + BitVec.ofNat 32 i) ↔ inPlic8 a :=
  window_aligned hn ha hi (by decide) (by decide)

/-- MEM_SIZE is aligned as well -/
theorem loadLE_underByte (s : Machine) (hn : n ∈ [1, 2, 4, 8]) (ha : n ∣ a.toNat) :
    loadLE (underByte s) a n = if a.toNat ≥ memSize - (n - 1) then 0 else loadLE s.mainMemory a n := by
  have hsize : memSize = 4294963200 := rfl
  have hpos : 0 < n := by
    rcases Nat.eq_zero_or_pos n with rfl | h
    · exact absurd hn (by decide)
    · exact h
  apply ext_byte
  intro k hk
  rw [byte_loadLE _ _ _ _ hk, underByte, toNat_add_aligned hn ha hk]
  have hedge : a.toNat + k ≥ memSize ↔ a.toNat ≥ memSize - (n - 1) := by
    simp only [List.mem_cons, List.not_mem_nil, or_false] at hn
    rcases hn with rfl | rfl | rfl | rfl <;> omega
  by_cases h : a.toNat ≥ memSize - (n - 1)
  · rw [if_pos (hedge.2 h), if_pos h]
    simp [byte]
  · rw [if_neg (mt hedge.1 h), if_neg h, byte_loadLE _ _ _ _ hk]

end

/-! ## What the devices answer -/

theorem setWidth_byte {v : Word} (h : v.toNat < 256) : (v.setWidth 8).setWidth 32 = v := by
  apply BitVec.eq_of_toNat_eq
  rw [BitVec.toNat_setWidth, BitVec.toNat_setWidth]
  omega

/-- clint_read answers a byte everywhere in the window -/
theorem clintRead_lt (c : Clint) {a : Word} (h : inClint a) : (clintRead c a).toNat < 256 := by
  have hmask : ∀ v : BitVec 64, ((v &&& 0xFF).setWidth 32).toNat < 256 := fun v => by
    have hle : (v &&& 0xFF).toNat ≤ 0xFF := Nat.and_le_right
    rw [BitVec.toNat_setWidth]
    omega
  unfold clintRead
  split_ifs with hcmp htime hwindow
  · exact hmask _
  · exact hmask _
  · decide
  · exact absurd h hwindow

theorem uartRead_lt (d : Devices) (off : Word) : (uartRead d off).1.toNat < 256 := by
  have hbyte : ∀ b : Byte, (b.setWidth 32 : Word).toNat < 256 := fun b => by
    rw [BitVec.toNat_setWidth]
    omega
  have hconst : (0 : Word).toNat < 256 := by decide
  unfold uartRead
  dsimp only
  split
  · split_ifs
    · exact hconst
    · exact hbyte _
    · exact hconst
  · split_ifs
    · exact hconst
    · exact hbyte _
  · split_ifs <;>
    · dsimp only
      decide
  · exact hbyte _
  · exact hbyte _
  · split_ifs <;>
    · dsimp only
      decide
  · exact hconst
  · exact hbyte _

/-- the register of the PLIC at word k, below the contexts -/
def plicRegister (p : Plic) (k : ℕ) : Word :=
  if 1 ≤ k ∧ k ≤ plicNdev then p.priority k
  else if k = 0x400 then p.pending
  else if 0x800 ≤ k ∧ k < 0x840 then if (k - 0x800) % 0x20 = 0 then p.enable ((k - 0x800) / 0x20) else 0
  else 0

/-- the bytes of a word all read the register of the word -/
theorem plicRead32_register (p : Plic) {off : Word} (h : off.toNat < 0x10000) :
    plicRead32 p off = (plicRegister p (off.toNat / 4), p) := by
  have hctx : ¬ (off ≥ plicContextBase ∧ off.toNat < plicContextBase.toNat + plicContextStride * plicNctx) := by
    intro hc
    have hle := BitVec.le_def.1 hc.1
    have hbase : plicContextBase.toNat = 0x200000 := rfl
    omega
  have hpri : (off ≥ 4 ∧ off < plicPriorityEnd) ↔ 1 ≤ off.toNat / 4 ∧ off.toNat / 4 ≤ plicNdev := by
    rw [ge_iff_le, BitVec.le_def, BitVec.lt_def, show (4 : Word).toNat = 4 from rfl,
      show plicPriorityEnd.toNat = 44 from rfl, show plicNdev = 10 from rfl]
    omega
  have hpend : (off ≥ plicPendingBase ∧ off < plicPendingBase + 4) ↔ off.toNat / 4 = 0x400 := by
    rw [ge_iff_le, BitVec.le_def, BitVec.lt_def, show plicPendingBase.toNat = 0x1000 from rfl,
      show (plicPendingBase + 4).toNat = 0x1004 from rfl]
    omega
  have hen : (off ≥ plicEnableBase ∧ off.toNat < plicEnableBase.toNat + plicEnableStride * plicNctx) ↔
      0x800 ≤ off.toNat / 4 ∧ off.toNat / 4 < 0x840 := by
    rw [ge_iff_le, BitVec.le_def, show plicEnableBase.toNat = 0x2000 from rfl,
      show plicEnableStride * plicNctx = 0x100 from rfl]
    omega
  unfold plicRead32 plicRegister
  by_cases h1 : 1 ≤ off.toNat / 4 ∧ off.toNat / 4 ≤ plicNdev
  · rw [if_pos (hpri.2 h1), if_pos h1]
    dsimp only
    rw [if_pos h1]
  rw [if_neg (mt hpri.1 h1), if_neg h1]
  by_cases h2 : off.toNat / 4 = 0x400
  · rw [if_pos (hpend.2 h2), if_pos h2]
  rw [if_neg (mt hpend.1 h2), if_neg h2]
  by_cases h3 : 0x800 ≤ off.toNat / 4 ∧ off.toNat / 4 < 0x840
  · have hdiff : (off - plicEnableBase).toNat = off.toNat - 0x2000 := BitVec.toNat_sub_of_le (hen.2 h3).1
    have hword : (off.toNat - 0x2000) % plicEnableStride / 4 = (off.toNat / 4 - 0x800) % 0x20 := by
      rw [show plicEnableStride = 0x80 from rfl]
      omega
    have hsel : (off.toNat - 0x2000) / plicEnableStride = (off.toNat / 4 - 0x800) / 0x20 := by
      rw [show plicEnableStride = 0x80 from rfl]
      omega
    rw [if_pos (hen.2 h3), if_pos h3]
    dsimp only
    rw [hdiff, hword, hsel]
  rw [if_neg (mt hen.1 h3), if_neg hctx, if_neg h3]

theorem inPlic8_off {a : Word} (h : inPlic8 a) : (a - plicBase).toNat < 0x10000 := by
  have hlt := BitVec.lt_def.1 h.2
  rw [BitVec.toNat_sub_of_le h.1]
  have hend : (plicBase + 0x10000).toNat = plicBase.toNat + 0x10000 := by decide
  omega

/-- the device windows do not meet -/
theorem windows_apart {a : Word} : (inClint a → ¬ inUart a ∧ ¬ inPlic a) ∧ (inUart a → ¬ inPlic a) := by
  unfold inClint inUart inPlic
  simp only [ge_iff_le, BitVec.le_def, BitVec.lt_def]
  rw [show clintBase.toNat = 0x02000000 from rfl, show (clintBase + clintSize).toNat = 0x02010000 from rfl,
    show uartBase.toNat = 0x10000000 from rfl, show (uartBase + uartNregs).toNat = 0x10000008 from rfl,
    show plicBase.toNat = 0x0C000000 from rfl, show (plicBase + plicSize).toNat = 0x10000000 from rfl]
  omega

/-! ## The unsigned byte -/

/-- a byte of the PLIC, in the window of the byte reads: the shift is from the low bits of the address -/
theorem plicByte_eq (d : Devices) {a : Word} (h : inPlic8 a) :
    ((plicRead32 d.plic (a - plicBase)).1 >>> ((a &&& 3).toNat * 8)).setWidth 8 = deviceByte d a := by
  have hoff := inPlic8_off h
  have hin := inPlic8_inPlic h
  have hdown : ((a - plicBase) &&& ~~~3).toNat = (a - plicBase).toNat / 4 * 4 := Bits.toNat_and_not_mask (k := 2) _ 3 rfl
  rw [deviceByte, if_neg fun hc => (windows_apart.1 hc).2 hin, if_neg fun hu => windows_apart.2 hu hin,
    plicRead32_register _ hoff, plicRead32_register _ (by omega), hdown, Nat.mul_div_cancel _ (by decide)]

theorem byteView_eq (s : Machine) (a : Word) :
    byteView s a = if inClint a ∨ inUart a ∨ inPlic8 a then deviceByte s.dev a else underByte s a := by
  unfold byteView memRead8Unsigned
  by_cases hc : inClint a
  · have hpos : ¬ (clintRead s.dev.clint a).slt 0 := by
      rw [← setWidth_byte (clintRead_lt s.dev.clint hc)]
      generalize (clintRead s.dev.clint a).setWidth 8 = b
      decide +revert
    rw [if_pos hc, if_pos (.inl hc), deviceByte, if_pos hc]
    dsimp only
    rw [if_neg hpos]
  rw [if_neg hc]
  by_cases hu : inUart a
  · rw [if_pos hu, if_pos (.inr (.inl hu)), deviceByte, if_neg hc, if_pos hu]
  rw [if_neg hu]
  by_cases hp : inPlic8 a
  · rw [if_pos hp, if_pos (.inr (.inr hp)), ← plicByte_eq s.dev hp]
    change ((_ : Word) &&& 0xFF).setWidth 8 = _
    rw [BitVec.setWidth_and]
    exact BitVec.and_allOnes
  rw [if_neg hp, if_neg (not_or.2 ⟨hc, not_or.2 ⟨hu, hp⟩⟩), underByte]
  split_ifs
  · rfl
  · exact BitVec.setWidth_setWidth_of_le _ (by decide)

/-- the value is the byte, with nothing above it -/
theorem memRead8Unsigned_byte (s : Machine) (a : Word) : (memRead8Unsigned s a).1 = (byteView s a).setWidth 32 := by
  refine (setWidth_byte ?_).symm
  unfold memRead8Unsigned
  split_ifs with hc hu hp hend
  · dsimp only
    split_ifs
    · decide
    · exact clintRead_lt _ hc
  · exact uartRead_lt _ _
  · have hle := Nat.and_le_right (n := ((plicRead32 s.dev.plic (a - plicBase)).1 >>> ((a &&& 3).toNat * 8)).toNat)
      (m := 0xFF)
    exact Nat.lt_succ_of_le hle
  · dsimp only
    decide
  · dsimp only
    rw [BitVec.toNat_setWidth]
    omega

/-! ## The other views -/

theorem memRead8Signed_view (s : Machine) (a : Word) : (memRead8Signed s a).1 =
    if inClint a ∨ inUart a then (deviceByte s.dev a).setWidth 32 else (underByte s a).signExtend 32 := by
  unfold memRead8Signed
  by_cases hc : inClint a
  · rw [if_pos hc, if_pos (.inl hc), deviceByte, if_pos hc, setWidth_byte (clintRead_lt _ hc)]
  rw [if_neg hc]
  by_cases hu : inUart a
  · rw [if_pos hu, if_pos (.inr hu), deviceByte, if_neg hc, if_pos hu]
  rw [if_neg hu, if_neg (not_or.2 ⟨hc, hu⟩), underByte]
  by_cases hend : a.toNat ≥ memSize
  · rw [if_pos hend, if_pos hend]
    rfl
  · rw [if_neg hend, if_neg hend]

section
variable (s : Machine) {a : Word} {n : ℕ}

theorem loadLE_byteView (hn : n ∈ [1, 2, 4, 8]) (ha : n ∣ a.toNat) :
    loadLE (byteView s) a n = loadLE (view s (inClint a ∨ inUart a ∨ inPlic8 a)) a n := by
  apply loadLE_congr
  intro i hi
  rw [byteView_eq, view]
  simp only [inClint_aligned hn ha hi, inUart_aligned hn ha hi, inPlic8_aligned hn ha hi]
  split_ifs <;> rfl

/-- the loop over the bytes of the CLINT -/
theorem clintGather_view {w : ℕ} (hn : n ∈ [1, 2, 4, 8]) (ha : n ∣ a.toNat) (hw : 8 * n ≤ w) (hc : inClint a) :
    clintGather w s.dev.clint a n = (loadLE (deviceByte s.dev) a n).setWidth w := by
  have hload : loadLE (deviceByte s.dev) a n = loadLE (fun x => (clintRead s.dev.clint x).setWidth 8) a n := by
    apply loadLE_congr
    intro i hi
    rw [deviceByte, if_pos ((inClint_aligned hn ha hi).2 hc)]
  rw [hload]
  exact gather_eq_loadLE (fun x => (clintRead s.dev.clint x).setWidth 8) a n hw

theorem memRead16Unsigned_view (ha : 2 ∣ a.toNat) :
    (memRead16Unsigned s a).1 = (loadLE (view s (inClint a)) a 2).setWidth 32 := by
  unfold memRead16Unsigned view
  by_cases hc : inClint a
  · rw [if_pos hc, if_pos hc]
    exact clintGather_view s (by decide) ha (by decide) hc
  · rw [if_neg hc, if_neg hc, loadLE_underByte s (by decide) ha]
    split_ifs <;> rfl

theorem memRead64Unsigned_view (ha : 8 ∣ a.toNat) :
    (memRead64Unsigned s a).1 = loadLE (view s (inClint a)) a 8 := by
  unfold memRead64Unsigned view
  by_cases hc : inClint a
  · rw [if_pos hc, if_pos hc]
    exact (clintGather_view s (by decide) ha (by decide) hc).trans (BitVec.setWidth_eq _)
  · rw [if_neg hc, if_neg hc, loadLE_underByte s (by decide) ha]
    split_ifs <;> rfl

/-- a word of the PLIC, anywhere in its window -/
theorem plicWord_view (d : Devices) (ha : 4 ∣ a.toNat) (hp : inPlic a) :
    (plicRead32 d.plic (a - plicBase)).1 = loadLE (deviceByte d) a 4 := by
  refine ext_byte (n := 4) ?_
  intro k hk
  have hin := (inPlic_aligned (by decide) ha hk).2 hp
  have hsum := toNat_add_aligned (a := a) (n := 4) (by decide) ha hk
  have hbase : 4 ∣ plicBase.toNat := by decide
  have hsub : (a - plicBase).toNat = a.toNat - plicBase.toNat := BitVec.toNat_sub_of_le hp.1
  have hdown : (a + BitVec.ofNat 32 k - plicBase) &&& ~~~3 = a - plicBase := by
    apply BitVec.eq_of_toNat_eq
    have hle := BitVec.le_def.1 hp.1
    rw [Bits.toNat_and_not_mask (k := 2) _ 3 rfl, BitVec.toNat_sub_of_le hin.1, hsum, hsub]
    omega
  have hlow : ((a + BitVec.ofNat 32 k) &&& 3).toNat = k := by
    rw [Bits.toNat_and_mask (k := 2) _ 3 rfl, hsum]
    omega
  rw [byte_loadLE _ _ _ _ hk, deviceByte, if_neg fun hc => (windows_apart.1 hc).2 hin,
    if_neg fun hu => windows_apart.2 hu hin, hdown, hlow]
  apply BitVec.eq_of_getLsbD_eq
  intro b hb
  simp [byte, hb, Nat.mul_comm]

theorem sub_add_ofNat (a b : Word) (i : ℕ) : a - b + BitVec.ofNat 32 i = a + BitVec.ofNat 32 i - b := by
  rw [BitVec.sub_eq_add_neg, BitVec.sub_eq_add_neg, BitVec.add_assoc, BitVec.add_comm (-b), BitVec.add_assoc]

/-- the reads of the UART that are not of RBR change nothing, so the loop reads one state -/
theorem uartGather_foldl (d : Devices) (off : Word) (l : List ℕ) (h : ∀ i ∈ l, ¬ readsRbr d (off + BitVec.ofNat 32 i))
    (v : Word) :
    l.foldl (fun (x : Word × Devices) i =>
        let (b, d) := uartRead x.2 (off + BitVec.ofNat 32 i)
        (x.1 ||| b <<< (i * 8), d)) (v, d) =
      (l.foldl (fun v i => v ||| (((uartRead d (off + BitVec.ofNat 32 i)).1.setWidth 8).setWidth 32) <<< (i * 8)) v,
        d) := by
  induction l generalizing v with
  | nil => rfl
  | cons i l ih =>
    rw [List.foldl_cons, List.foldl_cons]
    dsimp only
    rw [uartRead_other (h i List.mem_cons_self), setWidth_byte (uartRead_lt _ _)]
    exact ih (fun j hj => h j (List.mem_cons_of_mem _ hj)) _

/-- of the eight addresses of the window the first is that of register 0 -/
theorem uartOffset_eq_zero (hu : inUart a) : ((a - uartBase) &&& 7).toNat = 0 ↔ a = uartBase := by
  have hle := BitVec.le_def.1 hu.1
  have hlt : (a - uartBase).toNat < 8 := by
    have hend := BitVec.lt_def.1 hu.2
    rw [BitVec.toNat_sub_of_le hu.1]
    have hsize : (uartBase + uartNregs).toNat = uartBase.toNat + 8 := by decide
    omega
  rw [Bits.toNat_and_mask (k := 3) _ 7 rfl, Nat.mod_eq_of_lt (b := 2 ^ 3) hlt, BitVec.toNat_sub_of_le hu.1]
  refine ⟨fun h => BitVec.eq_of_toNat_eq (by omega), ?_⟩
  rintro rfl
  exact Nat.sub_self _

/-- an access that covers the address of RBR without reading it -/
theorem not_readsRbr {d : Devices} {i : ℕ} (hu : inUart (a + BitVec.ofNat 32 i)) (hno : ¬ CoversRbr d a n) (hi : i < n) :
    ¬ readsRbr d (a - uartBase + BitVec.ofNat 32 i) := by
  intro hr
  obtain ⟨hzero, hdlab⟩ := hr
  rw [sub_add_ofNat, uartOffset_eq_zero hu] at hzero
  exact hno ⟨i, hi, hzero, rfl, hdlab⟩

theorem uartGather_view (d : Devices) (ha : 4 ∣ a.toNat) (hu : inUart a) (hno : ¬ CoversRbr d a 4) :
    uartGather d a = (loadLE (deviceByte d) a 4, d) := by
  have hin : ∀ i < 4, inUart (a + BitVec.ofNat 32 i) := fun i hi => (inUart_aligned (by decide) ha hi).2 hu
  have hbytes : uartBytes a = List.range 4 := by
    refine List.takeWhile_eq_self_iff.2 ?_
    intro i hi
    exact decide_eq_true (hin i (List.mem_range.1 hi)).2
  have hload : loadLE (deviceByte d) a 4 = loadLE (fun x => (uartRead d (x - uartBase)).1.setWidth 8) a 4 := by
    apply loadLE_congr
    intro i hi
    rw [deviceByte, if_neg fun hc => (windows_apart.1 hc).1 (hin i hi), if_pos (hin i hi)]
  unfold uartGather
  rw [hbytes]
  refine (uartGather_foldl d (a - uartBase) (List.range 4) ?_ 0).trans ?_
  · intro i hi
    have hi4 := List.mem_range.1 hi
    exact not_readsRbr (hin i hi4) hno hi4
  · simp only [sub_add_ofNat]
    rw [hload]
    exact congrArg (·, d) ((gather_eq_loadLE (fun x => (uartRead d (x - uartBase)).1.setWidth 8) a 4 (by decide)).trans
      (BitVec.setWidth_eq _))

theorem memRead32Unsigned_view (ha : 4 ∣ a.toNat) (hno : ¬ HasEffect s.dev a 4) :
    (memRead32Unsigned s a).1 = loadLE (view s (inClint a ∨ inUart a ∨ inPlic a)) a 4 := by
  unfold memRead32Unsigned view
  by_cases hc : inClint a
  · rw [if_pos hc, if_pos (.inl hc)]
    exact (clintGather_view s (by decide) ha (by decide) hc).trans (BitVec.setWidth_eq _)
  rw [if_neg hc]
  by_cases hu : inUart a
  · rw [if_pos hu, if_pos (.inr (.inl hu)), uartGather_view s.dev ha hu fun h => hno (.inl h)]
  rw [if_neg hu]
  by_cases hp : inPlic a
  · rw [if_pos hp, if_pos (.inr (.inr hp))]
    exact plicWord_view s.dev ha hp
  rw [if_neg hp, if_neg (not_or.2 ⟨hc, not_or.2 ⟨hu, hp⟩⟩), loadLE_underByte s (by decide) ha]
  split_ifs <;> rfl

/-- reads that cover no such register leave the devices as they are -/
theorem memRead8Unsigned_effect (hno : ¬ HasEffect s.dev a 1) : (memRead8Unsigned s a).2 = s.dev := by
  unfold memRead8Unsigned
  split_ifs with hc hu hp hend
  · rfl
  · have hr : ¬ readsRbr s.dev (a - uartBase) := by
      have h0 := not_readsRbr (a := a) (n := 1) (i := 0) (by simpa using hu) (fun h => hno (.inl h)) (by decide)
      simpa using h0
    exact uartRead_other hr
  · dsimp only [plicReadDev]
    rw [plicRead32_register _ (inPlic8_off hp)]
  · rfl
  · rfl

theorem memRead32Unsigned_effect (ha : 4 ∣ a.toNat) (hno : ¬ HasEffect s.dev a 4) :
    (memRead32Unsigned s a).2 = s.dev := by
  unfold memRead32Unsigned
  split_ifs with hc hu hp hend
  · rfl
  · rw [uartGather_view s.dev ha hu fun h => hno (.inl h)]
  · have hother : ∀ ctx < plicNctx, a - plicBase ≠ plicClaimReg ctx := by
      intro ctx hctx heq
      refine hno (.inr ⟨0, by decide, ctx, hctx, ?_⟩)
      rw [← heq, BitVec.add_comm plicBase, BitVec.sub_add_cancel, BitVec.add_zero]
      apply BitVec.eq_of_toNat_eq
      rw [Bits.toNat_and_not_mask (k := 2) _ 3 rfl]
      omega
    dsimp only [plicReadDev]
    rw [plicRead32_other _ hother]
  · rfl
  · rfl

/-! ## Agreement -/

theorem Shadowed.window {a : Word} {n : ℕ} (h : Shadowed a n) : inUart a ∨ inPlic a := by
  unfold Shadowed at h
  split at h
  · exact .inr (inPlic8_inPlic h)
  · exact .inr h.1
  · exact h.imp_right inPlic8_inPlic

/-- every window lies below MEM_SIZE, so there is memory under it -/
theorem underByte_window (hw : inUart a ∨ inPlic a) : underByte s a = s.mainMemory a := by
  have hlt : a.toNat < memSize := by
    have huart : (uartBase + uartNregs).toNat < memSize := by decide
    have hplic : (plicBase + plicSize).toNat < memSize := by decide
    rcases hw with h | h
    · have := BitVec.lt_def.1 h.2
      omega
    · have := BitVec.lt_def.1 h.2
      omega
  rw [underByte, if_neg (by omega)]

/-- two views of one access, of which exactly one has the window when the access is shadowed -/
theorem view_eq_view_iff {p q : Prop} [Decidable p] [Decidable q] (hn : n ∈ [1, 2, 4, 8]) (ha : n ∣ a.toNat)
    (hpq : (p ↔ q) ↔ ¬ Shadowed a n) : loadLE (view s p) a n = loadLE (view s q) a n ↔
      (Shadowed a n → ∀ i < n, s.mainMemory (a + BitVec.ofNat 32 i) = deviceByte s.dev (a + BitVec.ofNat 32 i)) := by
  by_cases hsh : Shadowed a n
  · have hunder : ∀ i < n, underByte s (a + BitVec.ofNat 32 i) = s.mainMemory (a + BitVec.ofNat 32 i) := by
      intro i hi
      refine underByte_window s ?_
      rw [inUart_aligned hn ha hi, inPlic_aligned hn ha hi]
      exact hsh.window
    rw [loadLE_eq_iff]
    unfold view
    by_cases hp : p
    · have hq : ¬ q := fun hq => hpq.1 (iff_of_true hp hq) hsh
      rw [if_pos hp, if_neg hq]
      refine ⟨?_, ?_⟩
      · intro h _ i hi
        rw [← hunder i hi, h i hi]
      · intro h i hi
        rw [hunder i hi, h hsh i hi]
    · have hq : q := by_contra fun hq => hpq.1 (iff_of_false hp hq) hsh
      rw [if_neg hp, if_pos hq]
      refine ⟨?_, ?_⟩
      · intro h _ i hi
        rw [← hunder i hi, h i hi]
      · intro h i hi
        rw [hunder i hi, h hsh i hi]
  · have hsame : view s p = view s q := if_congr (hpq.2 hsh) rfl rfl
    rw [hsame]
    exact iff_of_true rfl fun h => absurd h hsh

theorem signExtend_byte_inj {b c : Byte} : (b.signExtend 32 : Word) = c.signExtend 32 ↔ b = c := by
  refine ⟨fun h => BitVec.eq_of_getLsbD_eq fun i hi => ?_, congrArg _⟩
  have hbit : (b.signExtend 32 : Word).getLsbD i = (c.signExtend 32 : Word).getLsbD i := by rw [h]
  rw [BitVec.getLsbD_signExtend, BitVec.getLsbD_signExtend, if_pos hi, if_pos hi] at hbit
  simpa [show i < 32 by omega] using hbit

/-- the zero and the sign extension of a byte differ when its top bit is set -/
theorem setWidth_eq_signExtend_byte {b : Byte} : (b.setWidth 32 : Word) = b.signExtend 32 ↔ b.msb = false := by
  decide +revert

theorem signed_iff (s : Machine) (a : Word) : (memRead8Signed s a).1 = (byteView s a).signExtend 32 ↔
    (inClint a ∨ inUart a → (deviceByte s.dev a).msb = false) ∧ (inPlic8 a → s.mainMemory a = deviceByte s.dev a) := by
  rw [memRead8Signed_view, byteView_eq]
  by_cases hw : inClint a ∨ inUart a
  · have hp : ¬ inPlic8 a := fun hp => by
      rcases hw with hc | hu
      · exact (windows_apart.1 hc).2 (inPlic8_inPlic hp)
      · exact windows_apart.2 hu (inPlic8_inPlic hp)
    rw [if_pos hw, if_pos (by rwa [← or_assoc, or_iff_left hp]), setWidth_eq_signExtend_byte]
    exact ⟨fun h => ⟨fun _ => h, fun h8 => absurd h8 hp⟩, fun h => h.1 hw⟩
  · rw [if_neg hw, signExtend_byte_inj]
    by_cases hp : inPlic8 a
    · rw [if_pos (.inr (.inr hp)), underByte_window s (.inr (inPlic8_inPlic hp))]
      exact ⟨fun h => ⟨fun hc => absurd hc hw, fun _ => h⟩, fun h => h.2 hp⟩
    · rw [if_neg (by rwa [← or_assoc, or_iff_left hp])]
      exact iff_of_true rfl ⟨fun hc => absurd hc hw, fun h8 => absurd h8 hp⟩

theorem half_iff (ha : 2 ∣ a.toNat) : (memRead16Unsigned s a).1 = (loadLE (byteView s) a 2).setWidth 32 ↔
    (Shadowed a 2 → ∀ i < 2, s.mainMemory (a + BitVec.ofNat 32 i) = deviceByte s.dev (a + BitVec.ofNat 32 i)) := by
  have hpq : (inClint a ↔ inClint a ∨ inUart a ∨ inPlic8 a) ↔ ¬ Shadowed a 2 := by
    have hapart := @windows_apart a
    have hin := @inPlic8_inPlic a
    change _ ↔ ¬ (inUart a ∨ inPlic8 a)
    tauto
  have hinj : ∀ u v : BitVec (8 * 2), (u.setWidth 32 : Word) = v.setWidth 32 ↔ u = v := fun u v => by
    refine ⟨?_, congrArg _⟩
    intro h
    have hlow := congrArg (fun x : Word => x.setWidth 16) h
    rwa [BitVec.setWidth_setWidth_of_le _ (by decide), BitVec.setWidth_setWidth_of_le _ (by decide), BitVec.setWidth_eq,
      BitVec.setWidth_eq] at hlow
  rw [memRead16Unsigned_view s ha, loadLE_byteView s (by decide) ha, hinj]
  exact view_eq_view_iff s (by decide) ha hpq

theorem word_iff (ha : 4 ∣ a.toNat) (hno : ¬ HasEffect s.dev a 4) :
    (memRead32Unsigned s a).1 = loadLE (byteView s) a 4 ↔
      (Shadowed a 4 → ∀ i < 4, s.mainMemory (a + BitVec.ofNat 32 i) = deviceByte s.dev (a + BitVec.ofNat 32 i)) := by
  have hpq : (inClint a ∨ inUart a ∨ inPlic a ↔ inClint a ∨ inUart a ∨ inPlic8 a) ↔ ¬ Shadowed a 4 := by
    have hapart := @windows_apart a
    have hin := @inPlic8_inPlic a
    change _ ↔ ¬ (inPlic a ∧ ¬ inPlic8 a)
    tauto
  rw [memRead32Unsigned_view s ha hno, loadLE_byteView s (by decide) ha]
  exact view_eq_view_iff s (by decide) ha hpq

theorem double_iff (ha : 8 ∣ a.toNat) : (memRead64Unsigned s a).1 = loadLE (byteView s) a 8 ↔
    (Shadowed a 8 → ∀ i < 8, s.mainMemory (a + BitVec.ofNat 32 i) = deviceByte s.dev (a + BitVec.ofNat 32 i)) := by
  have hpq : (inClint a ↔ inClint a ∨ inUart a ∨ inPlic8 a) ↔ ¬ Shadowed a 8 := by
    have hapart := @windows_apart a
    have hin := @inPlic8_inPlic a
    change _ ↔ ¬ (inUart a ∨ inPlic8 a)
    tauto
  rw [memRead64Unsigned_view s ha, loadLE_byteView s (by decide) ha]
  exact view_eq_view_iff s (by decide) ha hpq

end

/-- **The views of the bus agree** exactly where no device byte is sign-extended short and the memory under a window
that a width misses matches the registers. -/
theorem bus_views_iff (s : Machine) (a : Word) : ViewsAgree s a ↔ ShadowMatches s a := by
  constructor
  · intro h
    refine ⟨fun hw hno => ((signed_iff s a).1 (h.signed hno)).1 hw, ?_⟩
    intro n hn ha hno
    simp only [List.mem_cons, List.not_mem_nil, or_false] at hn
    rcases hn with rfl | rfl | rfl | rfl
    · intro hsh i hi
      obtain rfl : i = 0 := by omega
      rw [BitVec.add_zero]
      exact ((signed_iff s a).1 (h.signed hno)).2 hsh
    · exact (half_iff s ha).1 (h.half ha hno)
    · exact (word_iff s ha hno).1 (h.word ha hno)
    · exact (double_iff s ha).1 (h.double ha hno)
  · intro h
    refine ⟨fun hno => (signed_iff s a).2 ⟨fun hw => h.sign hw hno, fun hp => ?_⟩, fun ha hno => ?_, fun ha hno => ?_,
      fun ha hno => ?_⟩
    · simpa using h.under 1 (by decide) (one_dvd _) hno hp 0 (by decide)
    · exact (half_iff s ha).2 (h.under 2 (by decide) ha hno)
    · exact (word_iff s ha hno).2 (h.under 4 (by decide) ha hno)
    · exact (double_iff s ha).2 (h.under 8 (by decide) ha hno)

/-- the scratch register of the UART with its top bit set: lb reads 0x80 -/
theorem uart_byte_not_extended : ¬ ∀ (s : Machine) (a : Word), ViewsAgree s a := by
  intro h
  have hno : ¬ HasEffect (memWrite8 (machineInit (fun _ => 0) (fun _ => 0) 0) 0x10000007 0x80).dev 0x10000007 1 := by
    decide
  have hsigned := (h (memWrite8 (machineInit (fun _ => 0) (fun _ => 0) 0) 0x10000007 0x80) 0x10000007).signed hno
  exact absurd hsigned (by decide)

end RiscvEmu
