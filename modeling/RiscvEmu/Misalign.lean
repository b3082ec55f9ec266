/-
The loads and stores in the build with CONFIG_SUPPORT_MISALIGN on.

A misaligned access goes byte by byte through the MMU: `gather` and `scatter` are the loops of mmu_misaligned_load16 to
mmu_misaligned_store64. insf_flq and insf_fsq run the same loops on physical memory. No loop looks at whether a byte has
trapped. An aligned access is as in the other build.

`Access.reference` is the access one would have meant: each byte at its own translation, and nothing at all if one has none.
Results:
- `gather_of_readBytes`, `physLoad128_of_readBytes`: what the load loops answer when every byte can be read;
- `scatter_eq_storeState`, `physStore128_eq`: the store loops, byte by byte;
- `loadLogs`, `storeLogs`: each byte that faults is one trap;
- `storeState_scattered`: which bytes of main memory a store loop writes.
-/
import RiscvEmu.BusViews
import RiscvEmu.FpAccess
import RiscvEmu.Lib.BlindLoop
import RiscvEmu.Lib.ByteList
import RiscvEmu.Reservation

namespace RiscvEmu

open BlindLoop ByteList Scatter

namespace Misalign

/-! ## mmu.h -/

/-- n byte reads from addr on, put together from the lowest byte up -/
def gather (w n : ℕ) (read : Machine → Word → Word × Machine) (s : Machine) (addr : Word) : BitVec w × Machine :=
  (List.range n).foldl
    (fun (val, s) i =>
      let (b, s) := read s (addr + BitVec.ofNat 32 i)
      (val ||| b.setWidth w <<< (8 * i), s)) (0, s)

/-- n byte writes from addr on, from the lowest byte of val up -/
def scatter {w : ℕ} (n : ℕ) (write : Machine → Word → Byte → Machine) (s : Machine) (addr : Word) (val : BitVec w) :
    Machine :=
  (List.range n).foldl (fun s i => write s (addr + BitVec.ofNat 32 i) ((val >>> (8 * i)).setWidth 8)) s

def mmuMisalignedLoad16 := gather 16 2 mmuRead8Unsigned
def mmuMisalignedLoad32 := gather 32 4 mmuRead8Unsigned
def mmuMisalignedLoad64 := gather 64 8 mmuRead8Unsigned
def mmuMisalignedStore16 (s : Machine) (vaddr : Word) (val : BitVec 16) := scatter 2 mmuWrite8 s vaddr val
def mmuMisalignedStore32 (s : Machine) (vaddr : Word) (val : Word) := scatter 4 mmuWrite8 s vaddr val
def mmuMisalignedStore64 (s : Machine) (vaddr : Word) (val : BitVec 64) := scatter 8 mmuWrite8 s vaddr val

/-! ## basic_instructions.h -/

def insiILoad (mask : Word) (misaligned read : Machine → Word → Word × Machine) (s : Machine) (imm : Word)
    (rs1 rd : Reg) : Machine :=
  let addr := regRead s rs1 + imm
  match sdtrigCheckLoadTrigger s addr with
  | some s => s
  | none =>
    let (val, s) := if addr &&& mask ≠ 0 then misaligned s addr else read s addr
    regWrite s rd val

def insiILh := insiILoad 1 (fun s addr => ((mmuMisalignedLoad16 s addr).1.signExtend 32, (mmuMisalignedLoad16 s addr).2))
  mmuRead16Signed
def insiILw := insiILoad 3 mmuMisalignedLoad32 mmuRead32Signed
def insiILhu := insiILoad 1 (fun s addr => ((mmuMisalignedLoad16 s addr).1.setWidth 32, (mmuMisalignedLoad16 s addr).2))
  mmuRead16Unsigned

def insiSStore (mask : Word) (misaligned write : Machine → Word → Word → Machine) (s : Machine) (imm : Word)
    (rs2 rs1 : Reg) : Machine :=
  let addr := regRead s rs1 + imm
  match sdtrigCheckStoreTrigger s addr with
  | some s => s
  | none => if addr &&& mask ≠ 0 then misaligned s addr (regRead s rs2) else write s addr (regRead s rs2)

def insiSSh := insiSStore 1 (fun s addr val => mmuMisalignedStore16 s addr ((val &&& 0xFFFF).setWidth 16))
  fun s addr val => mmuWrite16 s addr ((val &&& 0xFFFF).setWidth 16)
def insiSSw := insiSStore 3 mmuMisalignedStore32 mmuWrite32

/-! ## f_extension.c -/

def isAligned (addr size : Word) : Bool := addr &&& (size - 1) = 0

def insfLoad (fmt : Fmt) (size : Word) (misaligned read : Machine → Word → BitVec fmt.width × Machine) (s : Machine)
    (imm : Word) (rs1 rd : Reg) : Machine :=
  let addr := regRead s rs1 + imm
  let (val, s) := if ¬ isAligned addr size then misaligned s addr else read s addr
  { s with fpu := fprWrite fmt s.fpu rd val }

/-- mem_read8_unsigned, with the machine it leaves -/
def memRead8 (s : Machine) (addr : Word) : Word × Machine :=
  ((memRead8Unsigned s addr).1, { s with dev := (memRead8Unsigned s addr).2 })

/-- two loops of eight bytes in physical memory -/
def physLoad128 (s : Machine) (addr : Word) : BitVec 128 × Machine :=
  let (lo, s) := gather 64 8 memRead8 s addr
  let (hi, s) := gather 64 8 memRead8 s (addr + 8)
  (hi ++ lo, s)

def insfFlw := insfLoad .S 4 mmuMisalignedLoad32 mmuRead32Unsigned
def insfFld := insfLoad .D 8 mmuMisalignedLoad64 mmuRead64Unsigned
def insfFlh := insfLoad .H 2 mmuMisalignedLoad16 fun s addr =>
  ((mmuRead16Unsigned s addr).1.setWidth 16, (mmuRead16Unsigned s addr).2)
def insfFlq := insfLoad .Q 16 physLoad128 fun s addr =>
  let (lo, s) := mmuRead64Unsigned s addr
  let (hi, s) := mmuRead64Unsigned s (addr + 8)
  (hi ++ lo, s)

def insfStore (fmt : Fmt) (size : Word) (misaligned write : Machine → Word → BitVec fmt.width → Machine) (s : Machine)
    (imm : Word) (rs1 rs2 : Reg) : Machine :=
  let addr := regRead s rs1 + imm
  let val := fprRead fmt s.fpu rs2
  if ¬ isAligned addr size then misaligned s addr val else write s addr val

def physStore128 (s : Machine) (addr : Word) (val : BitVec 128) : Machine :=
  let s := scatter 8 memWrite8 s addr (val.setWidth 64)
  scatter 8 memWrite8 s (addr + 8) ((val >>> 64).setWidth 64)

def insfFsw := insfStore .S 4 mmuMisalignedStore32 mmuWrite32
def insfFsd := insfStore .D 8 mmuMisalignedStore64 mmuWrite64
def insfFsh := insfStore .H 2 mmuMisalignedStore16 mmuWrite16
def insfFsq := insfStore .Q 16 physStore128 fun s addr val =>
  let s := mmuWrite64 s addr (val.setWidth 64)
  mmuWrite64 s (addr + 8) ((val >>> 64).setWidth 64)

/-! ## All loads and stores -/

def execLoad (s : Machine) (imm : Word) (rs1 rd : Reg) : LoadOp → Machine
  | .lb => insiILb s imm rs1 rd
  | .lh => insiILh s imm rs1 rd
  | .lw => insiILw s imm rs1 rd
  | .lbu => insiILbu s imm rs1 rd
  | .lhu => insiILhu s imm rs1 rd

def execStore (s : Machine) (imm : Word) (rs2 rs1 : Reg) : StoreOp → Machine
  | .sb => insiSSb s imm rs2 rs1
  | .sh => insiSSh s imm rs2 rs1
  | .sw => insiSSw s imm rs2 rs1

def execFLoad (s : Machine) (imm : Word) (rs1 rd : Reg) : FLoadOp → Machine
  | .flh => insfFlh s imm rs1 rd
  | .flw => insfFlw s imm rs1 rd
  | .fld => insfFld s imm rs1 rd
  | .flq => insfFlq s imm rs1 rd

def execFStore (s : Machine) (imm : Word) (rs1 rs2 : Reg) : FStoreOp → Machine
  | .fsh => insfFsh s imm rs1 rs2
  | .fsw => insfFsw s imm rs1 rs2
  | .fsd => insfFsd s imm rs1 rs2
  | .fsq => insfFsq s imm rs1 rs2

def exec (a : Access) (s : Machine) : Machine :=
  match a with
  | .load op imm rs1 rd => execLoad s imm rs1 rd op
  | .store op imm rs2 rs1 => execStore s imm rs2 rs1 op
  | .fload op imm rs1 rd => execFLoad s imm rs1 rd op
  | .fstore op imm rs1 rs2 => execFStore s imm rs1 rs2 op

end Misalign

/-! ## Byte accesses -/

/-- read one byte at its translation -/
def byteLoad (s : Machine) (vaddr : Word) : Option (Byte × Machine) :=
  match mmuWalk s vaddr .load with
  | (none, _) => none
  | (some pa, d) =>
    let (b, d) := memRead8Unsigned { s with dev := d } pa
    some (b.setWidth 8, { s with dev := d })

/-- write one byte at its translation -/
def byteStore (s : Machine) (vaddr : Word) (b : Byte) : Option Machine :=
  match mmuWalk s vaddr .store with
  | (none, _) => none
  | (some pa, d) => some (memWrite8 { s with dev := d } pa b)

/-- read one byte of physical memory -/
def physLoad (s : Machine) (addr : Word) : Option (Byte × Machine) :=
  let (b, s) := Misalign.memRead8 s addr
  some (b.setWidth 8, s)

def physStore (s : Machine) (addr : Word) (b : Byte) : Option Machine := some (memWrite8 s addr b)

/-- n bytes from addr on, up to the first that cannot be read -/
def readBytes (read : Machine → Word → Option (Byte × Machine)) (n : ℕ) (s : Machine) (addr : Word) :
    Option (List Byte × Machine) :=
  checked (fun i (r : List Byte × Machine) => (read r.2 (addr + BitVec.ofNat 32 i)).map fun (b, s) => (r.1 ++ [b], s))
    ([], s) n

/-- the bytes b from addr on, up to the first that cannot be written -/
def writeBytes (write : Machine → Word → Byte → Option Machine) (n : ℕ) (s : Machine) (addr : Word) (b : ℕ → Byte) :
    Option Machine :=
  checked (fun i s => write s (addr + BitVec.ofNat 32 i) (b i)) s n

def LoadOp.bytes : LoadOp → ℕ
  | .lb | .lbu => 1
  | .lh | .lhu => 2
  | .lw => 4

/-- what a load makes of its bytes -/
def LoadOp.extend (bs : List Byte) : LoadOp → Word
  | .lb => (ofBytes 8 bs).signExtend 32
  | .lh => (ofBytes 16 bs).signExtend 32
  | .lw => ofBytes 32 bs
  | .lbu => (ofBytes 8 bs).setWidth 32
  | .lhu => (ofBytes 16 bs).setWidth 32

def Access.bytes : Access → ℕ
  | .load op .. => op.bytes
  | .store op .. => op.width
  | .fload op .. => op.fmt.bytes
  | .fstore op .. => op.fmt.bytes

/-- byte i of the operand of a store -/
def Access.storeByte (a : Access) (s : Machine) (i : ℕ) : Byte :=
  match a with
  | .store _ _ rs2 _ => (regRead s rs2).extractLsb' (8 * i) 8
  | .fstore _ _ _ rs2 => fprByte s.fpu rs2 i
  | _ => 0

/-- the state after the access, or none where some byte has no translation -/
def Access.reference (a : Access) (s : Machine) : Option Machine :=
  match a with
  | .load op _ _ rd => (readBytes byteLoad a.bytes s (a.addr s)).map fun (bs, t) => regWrite t rd (op.extend bs)
  | .fload op _ _ rd => (readBytes byteLoad a.bytes s (a.addr s)).map fun (bs, t) =>
    { t with fpu := fprWrite op.fmt t.fpu rd (ofBytes op.fmt.width bs) }
  | .store .. | .fstore .. => writeBytes byteStore a.bytes s (a.addr s) (a.storeByte s)

/-! ## The byte loops -/

section
variable {s t : Machine} {vaddr pa : Word} {d : Devices} {b : Byte}

theorem byteLoad_of_walk (hw : mmuWalk s vaddr .load = (some pa, d)) : byteLoad s vaddr =
    some ((memRead8Unsigned { s with dev := d } pa).1.setWidth 8,
      { s with dev := (memRead8Unsigned { s with dev := d } pa).2 }) := by
  unfold byteLoad
  rw [hw]

theorem byteStore_of_walk (hw : mmuWalk s vaddr .store = (some pa, d)) :
    byteStore s vaddr b = some (memWrite8 { s with dev := d } pa b) := by
  unfold byteStore
  rw [hw]

theorem byteLoad_none : byteLoad s vaddr = none ↔ pageFaults s vaddr .load := by
  unfold pageFaults
  rcases hw : mmuWalk s vaddr .load with ⟨_ | pa, d⟩
  · simp only [byteLoad, hw, mmuTranslate_none hw]
  · simp only [byteLoad_of_walk hw, mmuTranslate_some hw, reduceCtorEq]

theorem byteStore_none : byteStore s vaddr b = none ↔ pageFaults s vaddr .store := by
  unfold pageFaults
  rcases hw : mmuWalk s vaddr .store with ⟨_ | pa, d⟩
  · simp only [byteStore, hw, mmuTranslate_none hw]
  · simp only [byteStore_of_walk hw, mmuTranslate_some hw, reduceCtorEq]

theorem physLoad_eq (s : Machine) (addr : Word) : physLoad s addr =
    some ((Misalign.memRead8 s addr).1.setWidth 8, (Misalign.memRead8 s addr).2) := rfl

/-- a physical byte read answers a byte -/
theorem memRead8Unsigned_low : ((memRead8Unsigned s vaddr).1.setWidth 8).setWidth 32 = (memRead8Unsigned s vaddr).1 := by
  rw [memRead8Unsigned_byte]
  apply congrArg
  exact (BitVec.setWidth_setWidth_of_le _ (by decide)).trans (BitVec.setWidth_eq _)

theorem mmuRead8Unsigned_of_byteLoad (h : byteLoad s vaddr = some (b, t)) :
    mmuRead8Unsigned s vaddr = (b.setWidth 32, t) := by
  rcases hw : mmuWalk s vaddr .load with ⟨_ | pa, d⟩
  · have hnone : byteLoad s vaddr = none := byteLoad_none.2 (congrArg Prod.fst (mmuTranslate_none hw))
    rw [h] at hnone
    exact nomatch hnone
  · rw [byteLoad_of_walk hw, Option.some_inj, Prod.mk.injEq] at h
    obtain ⟨rfl, rfl⟩ := h
    rw [memRead8Unsigned_low]
    exact mmuRead_some hw

theorem mmuWrite8_of_byteStore (h : byteStore s vaddr b = some t) : mmuWrite8 s vaddr b = t := by
  rcases hw : mmuWalk s vaddr .store with ⟨_ | pa, d⟩
  · have hnone : byteStore s vaddr b = none := byteStore_none.2 (congrArg Prod.fst (mmuTranslate_none hw))
    rw [h] at hnone
    exact nomatch hnone
  · rw [byteStore_of_walk hw, Option.some_inj] at h
    exact (mmuWrite_some hw).trans h

/-- one byte more -/
theorem readBytes_succ (read : Machine → Word → Option (Byte × Machine)) (n : ℕ) (s : Machine) (addr : Word) :
    readBytes read (n + 1) s addr = (readBytes read n s addr).bind fun r =>
      (read r.2 (addr + BitVec.ofNat 32 n)).map fun x => (r.1 ++ [x.1], x.2) := by
  unfold readBytes
  rw [checked_succ]

theorem readBytes_length {read : Machine → Word → Option (Byte × Machine)} {n : ℕ} {addr : Word} {bs : List Byte}
    (h : readBytes read n s addr = some (bs, t)) : bs.length = n := by
  refine checked_invariant (I := fun i (r : List Byte × Machine) => r.1.length = i) _ _ n ?_ rfl h
  intro i r r' hi hr
  obtain ⟨x, -, rfl⟩ := Option.map_eq_some_iff.1 hr
  rw [List.length_append, hi]
  rfl

theorem gather_succ (w n : ℕ) (read : Machine → Word → Word × Machine) (s : Machine) (addr : Word) :
    Misalign.gather w (n + 1) read s addr =
      let r := Misalign.gather w n read s addr
      let x := read r.2 (addr + BitVec.ofNat 32 n)
      (r.1 ||| x.1.setWidth w <<< (8 * n), x.2) := by
  unfold Misalign.gather
  rw [List.range_succ, List.foldl_append]
  rfl

/-- the loop that ors the bytes together answers the word of the bytes -/
theorem gather_of_readBytes {read : Machine → Word → Word × Machine} {tryRead : Machine → Word → Option (Byte × Machine)}
    (hread : ∀ s a b t, tryRead s a = some (b, t) → read s a = (b.setWidth 32, t)) {w n : ℕ} (hw : 8 * n ≤ w) {addr : Word}
    {bs : List Byte} (h : readBytes tryRead n s addr = some (bs, t)) :
    Misalign.gather w n read s addr = (ofBytes w bs, t) := by
  induction n generalizing bs t with
  | zero =>
    obtain ⟨rfl, rfl⟩ := Prod.mk.inj (Option.some.inj h)
    rfl
  | succ n ih =>
    rw [readBytes_succ] at h
    obtain ⟨⟨cs, u⟩, hn, hlast⟩ := Option.bind_eq_some_iff.1 h
    obtain ⟨⟨b, v⟩, hb, heq⟩ := Option.map_eq_some_iff.1 hlast
    obtain ⟨rfl, rfl⟩ := Prod.mk.inj heq
    have hlen := readBytes_length hn
    have hwide : (b.setWidth 32).setWidth w = b.setWidth w := by
      apply BitVec.eq_of_toNat_eq
      rw [BitVec.toNat_setWidth, BitVec.toNat_setWidth, BitVec.toNat_setWidth, Nat.mod_eq_of_lt (by omega : b.toNat < 2 ^ 32)]
    rw [gather_succ, ih (by omega) hn]
    dsimp only
    rw [hread u _ b v hb, hwide, ofBytes_concat b (by omega), hlen]

/-- the loops of the MMU loads -/
theorem gather_of_byteLoads {w n : ℕ} (hw : 8 * n ≤ w) {addr : Word} {bs : List Byte}
    (h : readBytes byteLoad n s addr = some (bs, t)) :
    Misalign.gather w n mmuRead8Unsigned s addr = (ofBytes w bs, t) :=
  gather_of_readBytes (fun _ _ _ _ hb => mmuRead8Unsigned_of_byteLoad hb) hw h

/-- m bytes and then n -/
theorem readBytes_add (read : Machine → Word → Option (Byte × Machine)) (m n : ℕ) (s : Machine) (addr : Word) :
    readBytes read (m + n) s addr = (readBytes read m s addr).bind fun r =>
      (readBytes read n r.2 (addr + BitVec.ofNat 32 m)).map fun x => (r.1 ++ x.1, x.2) := by
  induction n with
  | zero =>
    cases readBytes read m s addr with
    | none => rfl
    | some r => exact congrArg some (Prod.ext (List.append_nil _).symm rfl)
  | succ n ih =>
    rw [← Nat.add_assoc, readBytes_succ, ih]
    cases readBytes read m s addr with
    | none => rfl
    | some r =>
      have haddr : addr + BitVec.ofNat 32 (m + n) = addr + BitVec.ofNat 32 m + BitVec.ofNat 32 n := by
        rw [BitVec.ofNat_add, BitVec.add_assoc]
      rw [Option.bind_some, Option.bind_some, readBytes_succ, haddr]
      cases readBytes read n r.2 (addr + BitVec.ofNat 32 m) with
      | none => rfl
      | some x =>
        simp only [Option.map_some, Option.bind_some, Option.map_map, Function.comp_def, List.append_assoc]

/-- the two physical loops of insf_flq -/
theorem physLoad128_of_readBytes {addr : Word} {bs : List Byte} (h : readBytes physLoad 16 s addr = some (bs, t)) :
    Misalign.physLoad128 s addr = (ofBytes 128 bs, t) := by
  have hread : ∀ (s : Machine) (a : Word) (b : Byte) (t : Machine), physLoad s a = some (b, t) →
      Misalign.memRead8 s a = (b.setWidth 32, t) := by
    intro s a b t hp
    rw [physLoad_eq, Option.some_inj, Prod.mk.injEq] at hp
    obtain ⟨rfl, rfl⟩ := hp
    exact Prod.ext memRead8Unsigned_low.symm rfl
  rw [show 16 = 8 + 8 from rfl, readBytes_add] at h
  obtain ⟨⟨lo, u⟩, hlo, hrest⟩ := Option.bind_eq_some_iff.1 h
  obtain ⟨⟨hi, v⟩, hhi, heq⟩ := Option.map_eq_some_iff.1 hrest
  obtain ⟨rfl, rfl⟩ := Prod.mk.inj heq
  have hlolen := readBytes_length hlo
  have hhilen := readBytes_length hhi
  unfold Misalign.physLoad128
  dsimp only
  rw [gather_of_readBytes hread (by decide) hlo]
  dsimp only
  rw [show (8 : Word) = BitVec.ofNat 32 8 from rfl, gather_of_readBytes hread (by decide) hhi]
  exact Prod.ext (ofBytes_append (by omega) (by omega)) rfl

/-- byte i of a word, cut out as the store loops do -/
theorem shiftRight_setWidth {w : ℕ} (val : BitVec w) (i : ℕ) : (val >>> (8 * i)).setWidth 8 = val.extractLsb' (8 * i) 8 := by
  apply BitVec.eq_of_getLsbD_eq
  intro j hj
  simp only [BitVec.getLsbD_setWidth, BitVec.getLsbD_ushiftRight, BitVec.getLsbD_extractLsb']

/-- the two physical loops of insf_fsq -/
theorem physStore128_eq (s : Machine) (addr : Word) (val : BitVec 128) :
    writeBytes physStore 16 s addr (fun i => val.extractLsb' (8 * i) 8) = some (Misalign.physStore128 s addr val) := by
  unfold writeBytes Misalign.physStore128 Misalign.scatter
  refine (checked_some _ s 16).trans (congrArg some ?_)
  rw [show 16 = 8 + 8 from rfl, after_add]
  have hlow : after (fun i s => memWrite8 s (addr + BitVec.ofNat 32 i) (val.extractLsb' (8 * i) 8)) s 8 =
      after (fun i s => memWrite8 s (addr + BitVec.ofNat 32 i) (((val.setWidth 64) >>> (8 * i)).setWidth 8)) s 8 := by
    refine after_congr _ s 8 ?_
    intro i hi
    rw [shiftRight_setWidth, extract_setWidth val (by omega)]
  rw [hlow]
  refine after_congr _ _ 8 ?_
  intro i hi
  have haddr : addr + BitVec.ofNat 32 (8 + i) = addr + 8 + BitVec.ofNat 32 i := by
    rw [BitVec.ofNat_add, BitVec.add_assoc]
    rfl
  have hbyte : val.extractLsb' (8 * (8 + i)) 8 = (((val >>> 64).setWidth 64) >>> (8 * i)).setWidth 8 := by
    rw [shiftRight_setWidth, extract_setWidth (val >>> 64) (by omega)]
    apply BitVec.eq_of_getLsbD_eq
    intro j hj
    simp only [BitVec.getLsbD_extractLsb', BitVec.getLsbD_ushiftRight, hj, decide_true, Bool.true_and]
    exact congrArg val.getLsbD (by omega)
  rw [haddr]
  dsimp only
  rw [hbyte]

end

/-! ## The states of the loops -/

/-- after n byte reads, whatever they did -/
def loadState (s : Machine) (vaddr : Word) (n : ℕ) : Machine :=
  after (fun i s => (mmuRead8Unsigned s (vaddr + BitVec.ofNat 32 i)).2) s n

/-- after n byte writes, whatever they did -/
def storeState (s : Machine) (vaddr : Word) (b : ℕ → Byte) (n : ℕ) : Machine :=
  after (fun i s => mmuWrite8 s (vaddr + BitVec.ofNat 32 i) (b i)) s n

/-- byte i of the access faults in state s -/
def byteFaults (access : MmuAccess) (vaddr : Word) (i : ℕ) (s : Machine) : Prop :=
  pageFaults s (vaddr + BitVec.ofNat 32 i) access

instance (access : MmuAccess) (vaddr : Word) (i : ℕ) (s : Machine) : Decidable (byteFaults access vaddr i s) :=
  inferInstanceAs (Decidable (pageFaults _ _ _))

section
variable (s : Machine) (vaddr : Word) (b : ℕ → Byte) (n : ℕ)

theorem gather_state (w : ℕ) : (Misalign.gather w n mmuRead8Unsigned s vaddr).2 = loadState s vaddr n := by
  induction n with
  | zero => rfl
  | succ n ih =>
    have hsucc : loadState s vaddr (n + 1) = (mmuRead8Unsigned (loadState s vaddr n) (vaddr + BitVec.ofNat 32 n)).2 :=
      after_succ ..
    rw [gather_succ]
    dsimp only
    rw [ih, hsucc]

theorem scatter_state {w : ℕ} (val : BitVec w) : Misalign.scatter n mmuWrite8 s vaddr val =
    storeState s vaddr (fun i => val.extractLsb' (8 * i) 8) n := by
  refine after_congr _ s n ?_
  intro i _
  rw [shiftRight_setWidth]

theorem loadFollows : Follows (fun i s => (mmuRead8Unsigned s (vaddr + BitVec.ofNat 32 i)).2)
    (fun i (r : List Byte × Machine) => (byteLoad r.2 (vaddr + BitVec.ofNat 32 i)).map fun x => (r.1 ++ [x.1], x.2))
    (byteFaults .load vaddr) (fun _ s r => r.2 = s) := by
  constructor
  · rintro i s ⟨bs, t⟩ ⟨bs', t'⟩ rfl hr
    obtain ⟨⟨x, u⟩, hx, heq⟩ := Option.map_eq_some_iff.1 hr
    obtain ⟨-, rfl⟩ := Prod.mk.inj heq
    refine ⟨?_, ?_⟩
    · intro hf
      rw [byteLoad_none.2 hf] at hx
      exact nomatch hx
    · rw [mmuRead8Unsigned_of_byteLoad hx]
  · rintro i s ⟨bs, t⟩ rfl hr
    exact byteLoad_none.1 (Option.map_eq_none_iff.1 hr)

theorem storeFollows : Follows (fun i s => mmuWrite8 s (vaddr + BitVec.ofNat 32 i) (b i))
    (fun i s => byteStore s (vaddr + BitVec.ofNat 32 i) (b i)) (byteFaults .store vaddr) (fun _ s t => t = s) := by
  constructor
  · rintro i s t t' rfl hr
    refine ⟨?_, (mmuWrite8_of_byteStore hr).symm⟩
    intro hf
    rw [byteStore_none.2 hf] at hr
    exact nomatch hr
  · rintro i s t rfl hr
    exact byteStore_none.1 hr

theorem readBytes_none : readBytes byteLoad n s vaddr = none ↔ ∃ i < n, byteFaults .load vaddr i (loadState s vaddr i) :=
  (loadFollows vaddr).none_iff rfl

theorem writeBytes_none : writeBytes byteStore n s vaddr b = none ↔
    ∃ i < n, byteFaults .store vaddr i (storeState s vaddr b i) :=
  (storeFollows vaddr b).none_iff rfl

theorem writeBytes_some {t : Machine} (h : writeBytes byteStore n s vaddr b = some t) : storeState s vaddr b n = t :=
  ((storeFollows vaddr b).of_some rfl h).2.symm

/-- a byte read that faults is one trap -/
theorem loadLogs : Logs (fun i s => (mmuRead8Unsigned s (vaddr + BitVec.ofNat 32 i)).2) (byteFaults .load vaddr)
    Machine.traps (fun x => x.cause = pageFaultCause .load) := by
  constructor
  · intro i s hf
    have hk := (mmuTranslate_trap hf).traps
    have hs : (mmuRead8Unsigned s (vaddr + BitVec.ofNat 32 i)).2 = (mmuTranslate s (vaddr + BitVec.ofNat 32 i) .load).2 :=
      mmuRead_fault hf
    rw [← hs, raiseExceptionPc_traps] at hk
    exact ⟨_, hk, rfl⟩
  · intro i s hf
    exact (mmuRead_kept memRead8Unsigned s _).traps.trans (mmuTranslate_kept hf).traps

theorem storeLogs : Logs (fun i s => mmuWrite8 s (vaddr + BitVec.ofNat 32 i) (b i)) (byteFaults .store vaddr)
    Machine.traps (fun x => x.cause = pageFaultCause .store) := by
  constructor
  · intro i s hf
    have hk := (mmuTranslate_trap hf).traps
    have hs : mmuWrite8 s (vaddr + BitVec.ofNat 32 i) (b i) = (mmuTranslate s (vaddr + BitVec.ofNat 32 i) .store).2 :=
      mmuWrite_fault hf
    rw [← hs, raiseExceptionPc_traps] at hk
    exact ⟨_, hk, rfl⟩
  · intro i s hf
    exact (mmuWrite_kept memWrite8_memStep s _ (b i)).traps.trans (mmuTranslate_kept hf).traps

/-! ## What the loops leave alone -/

/-- s with other registers -/
def Machine.withRegs (s : Machine) (g : Reg → Word) (f : Fpu) : Machine := { s with gpr := g, fpu := f }

theorem raiseExceptionPc_regs (g : Reg → Word) (f : Fpu) (cause tval epc : Word) :
    raiseExceptionPc (s.withRegs g f) cause tval epc = (raiseExceptionPc s cause tval epc).withRegs g f := by
  have hclear : (clearReservations (s.withRegs g f)).mmuFlags = (clearReservations s).mmuFlags := by
    unfold clearReservations Machine.withRegs
    dsimp only
    split_ifs <;> rfl
  rw [raiseExceptionPc_eq, raiseExceptionPc_eq, trapEntry, hclear]
  rfl

theorem mmuRead8Unsigned_regs (g : Reg → Word) (f : Fpu) : mmuRead8Unsigned (s.withRegs g f) vaddr =
    ((mmuRead8Unsigned s vaddr).1, (mmuRead8Unsigned s vaddr).2.withRegs g f) := by
  rcases hw : mmuWalk s vaddr .load with ⟨_ | pa, d⟩
  · have hw' : mmuWalk (s.withRegs g f) vaddr .load = (none, d) := hw
    unfold mmuRead8Unsigned
    rw [mmuRead_none hw, mmuRead_none hw']
    exact Prod.ext rfl (raiseExceptionPc_regs { s with dev := d } g f causeLoadPageFault vaddr s.pc)
  · have hw' : mmuWalk (s.withRegs g f) vaddr .load = (some pa, d) := hw
    unfold mmuRead8Unsigned
    rw [mmuRead_some hw, mmuRead_some hw']
    rfl

/-- a load loop reads no register -/
theorem gather_regs (w : ℕ) (g : Reg → Word) (f : Fpu) : Misalign.gather w n mmuRead8Unsigned (s.withRegs g f) vaddr =
    ((Misalign.gather w n mmuRead8Unsigned s vaddr).1, (Misalign.gather w n mmuRead8Unsigned s vaddr).2.withRegs g f) := by
  induction n with
  | zero => rfl
  | succ n ih =>
    rw [gather_succ, gather_succ, ih]
    dsimp only
    rw [mmuRead8Unsigned_regs]

theorem mmuRead8Unsigned_mainMemory : (mmuRead8Unsigned s vaddr).2.mainMemory = s.mainMemory := by
  unfold mmuRead8Unsigned
  rcases hw : mmuWalk s vaddr .load with ⟨_ | pa, d⟩
  · rw [mmuRead_none hw, raiseExceptionPc_mainMemory]
  · rw [mmuRead_some hw]

theorem loadState_mainMemory : (loadState s vaddr n).mainMemory = s.mainMemory :=
  after_keeps (f := Machine.mainMemory) _ s n fun _ _ => mmuRead8Unsigned_mainMemory ..

theorem storeState_fpu : (storeState s vaddr b n).fpu = s.fpu :=
  after_keeps (f := Machine.fpu) _ s n fun _ s => (mmuWrite_kept_side s memWrite8_side _ _).1

theorem storeState_gpr : (storeState s vaddr b n).gpr = s.gpr := by
  refine after_keeps (f := Machine.gpr) _ s n ?_
  intro i s
  unfold mmuWrite8
  rcases hw : mmuWalk s (vaddr + BitVec.ofNat 32 i) .store with ⟨_ | pa, d⟩
  · rw [mmuWrite_none hw, raiseExceptionPc_gpr]
  · obtain ⟨mem, flags, dev, hstep⟩ := memWrite8_memStep { s with dev := d } pa (b i)
    rw [mmuWrite_some hw, hstep]

/-! ## The bytes of main memory a store loop writes -/

/-- a byte access at addr reaches main memory and no device -/
def isRam8 (addr : Word) : Prop := ¬ inClint addr ∧ ¬ inUart addr ∧ ¬ inPlic8 addr ∧ addr.toNat < memSize

instance (addr : Word) : Decidable (isRam8 addr) := by unfold isRam8; infer_instance

/-- the byte of main memory a store to vaddr writes, if any -/
def byteDest (s : Machine) (vaddr : Word) : Option Word := (mmuWalk s vaddr .store).1.filter fun pa => isRam8 pa

theorem memWrite8_isRam8 {addr : Word} (h : isRam8 addr) (v : Byte) :
    (memWrite8 s addr v).mainMemory = Function.update s.mainMemory addr v := by
  obtain ⟨h1, h2, h3, h4⟩ := h
  rw [memWrite8, if_neg h1, if_neg h2, if_neg h3, if_neg (Nat.not_le.2 h4)]
  funext x
  dsimp only
  rw [memClearReservation_mainMemory, Bytes.storeLE, Function.update_apply]
  by_cases hx : x = addr
  · subst hx
    simp [Bytes.byte]
  · have hne : ¬ (x - addr).toNat < 1 := by
      intro hlt
      have h0 : (x - addr).toNat = 0 := by omega
      exact hx (sub_eq_zero.1 (BitVec.eq_of_toNat_eq h0))
    rw [if_neg hne, if_neg hx]

theorem memWrite8_not_isRam8 {addr : Word} (h : ¬ isRam8 addr) (v : Byte) : (memWrite8 s addr v).mainMemory = s.mainMemory := by
  rw [← memClearReservation_mainMemory s addr]
  unfold memWrite8
  dsimp only
  split_ifs with h1 h2 h3 h4
  · rfl
  · rfl
  · rfl
  · rfl
  · exact absurd ⟨h1, h2, h3, Nat.not_le.1 h4⟩ h

theorem mmuWrite8_some {x : Word} (h : byteDest s vaddr = some x) (v : Byte) :
    (mmuWrite8 s vaddr v).mainMemory = Function.update s.mainMemory x v := by
  obtain ⟨hx, hram⟩ := Option.filter_eq_some_iff.1 h
  have hw : mmuWalk s vaddr .store = (some x, (mmuWalk s vaddr .store).2) := Prod.ext hx rfl
  unfold mmuWrite8
  rw [mmuWrite_some hw]
  exact memWrite8_isRam8 _ (of_decide_eq_true hram) v

theorem mmuWrite8_none (h : byteDest s vaddr = none) (v : Byte) : (mmuWrite8 s vaddr v).mainMemory = s.mainMemory := by
  unfold mmuWrite8
  rcases hw : mmuWalk s vaddr .store with ⟨_ | pa, d⟩
  · rw [mmuWrite_none hw, raiseExceptionPc_mainMemory]
  · rw [mmuWrite_some hw]
    refine memWrite8_not_isRam8 _ ?_ v
    intro hram
    rw [byteDest, hw, Option.filter_some, if_pos (decide_eq_true hram)] at h
    exact nomatch h

/-- translation keeps the bytes of an access apart -/
theorem byteDest_ne {s s' : Machine} {i j : ℕ} (hi : i < 4096) (hj : j < 4096) (hij : i ≠ j) {x : Word}
    (h : byteDest s (vaddr + BitVec.ofNat 32 i) = some x) : byteDest s' (vaddr + BitVec.ofNat 32 j) ≠ some x := by
  intro h'
  have hx := mmuWalk_pageOffset (Prod.ext (Option.filter_eq_some_iff.1 h).1 rfl)
  have hx' := mmuWalk_pageOffset (Prod.ext (Option.filter_eq_some_iff.1 h').1 rfl)
  have hoff := congrArg BitVec.toNat (hx.symm.trans hx')
  have hmask : ∀ v : Word, (v &&& 0xFFF).toNat = v.toNat % 4096 := fun v => Nat.and_two_pow_sub_one_eq_mod v.toNat 12
  rw [hmask, hmask, BitVec.toNat_add, BitVec.toNat_add, BitVec.toNat_ofNat, BitVec.toNat_ofNat] at hoff
  omega

/-- **What a store loop does to main memory.** Each byte goes to its place, in the state the bytes before it leave. -/
theorem storeState_scattered (hn : n ≤ 4096) : Scattered s.mainMemory (storeState s vaddr b n).mainMemory n
    (fun i => byteDest (storeState s vaddr b i) (vaddr + BitVec.ofNat 32 i)) b := by
  induction n with
  | zero => exact ⟨nofun, fun _ _ => rfl⟩
  | succ n ih =>
    have hsucc : storeState s vaddr b (n + 1) = mmuWrite8 (storeState s vaddr b n) (vaddr + BitVec.ofNat 32 n) (b n) :=
      after_succ ..
    refine (ih (by omega)).concat ?_ ?_ ?_
    · intro x hx
      rw [hsucc, mmuWrite8_some _ _ hx]
    · intro hx
      rw [hsucc, mmuWrite8_none _ _ hx]
    · intro i hi x hx
      exact byteDest_ne vaddr (by omega) (by omega) hi.ne hx

end

end RiscvEmu
