/-
Where the FP loads and stores go.

insf_flw and its siblings have no alignment test. Each makes one MMU access, insf_flq and insf_fsq two, and each MMU access
translates its first byte only. Nothing tests for a fault: a load goes on to box 0, the quad forms go on to their second
half. Results:
- `one_load_iff`, `flq_iff`, `one_store_iff`, `fsq_iff`: when each form is translated byte by byte and faults cleanly;
- `fp_access_iff`: the same of every word that makes an FP access;
- `fp_load_fault_writes`: an FLW that faults overwrites its register.
-/
import RiscvEmu.Lib.Bits
import RiscvEmu.Lib.Scatter
import RiscvEmu.NanBoxing

namespace RiscvEmu

open Bytes Scatter

/-! ## The property -/

def Fmt.bytes : Fmt → ℕ
  | H => 2
  | S => 4
  | D => 8
  | Q => 16

def FStoreOp.fmt : FStoreOp → Fmt
  | .fsh => .H
  | .fsw => .S
  | .fsd => .D
  | .fsq => .Q

/-- byte i of an FP register -/
def fprByte (f : Fpu) (r : Reg) (i : ℕ) : Byte := (f.fpr r).extractLsb' (8 * i) 8

/-- what byte i of an access at vaddr translates to -/
def byteAt (s : Machine) (access : MmuAccess) (vaddr : Word) (i : ℕ) : Option Word :=
  (mmuWalk s (vaddr + BitVec.ofNat 32 i) access).1

/-- p gives the physical address of each byte -/
def Translates (s : Machine) (access : MmuAccess) (vaddr : Word) (n : ℕ) (p : ℕ → Word) : Prop :=
  ∀ i < n, byteAt s access vaddr i = some (p i)

/-- one page fault, and memory and the FP registers as before -/
structure FaultsOnce (s s' : Machine) (access : MmuAccess) : Prop where
  once : ∃ t, s'.traps = t :: s.traps ∧ t.cause = pageFaultCause access
  mem : s'.mainMemory = s.mainMemory
  fpr : s'.fpu.fpr = s.fpu.fpr

/-- what an access of n bytes promises; `moves` is the transfer of the bytes, when all are plain RAM -/
structure AccessLaw (s s' : Machine) (access : MmuAccess) (vaddr : Word) (n : ℕ) (moves : (ℕ → Word) → Prop) : Prop where
  quiet : (∀ i < n, byteAt s access vaddr i ≠ none) → s'.traps = s.traps
  moved : ∀ p, Translates s access vaddr n p → (∀ i < n, isRamByte (p i)) → moves p
  fault : ∀ i < n, byteAt s access vaddr i = none → FaultsOnce s s' access

/-- byte i comes from p i -/
def LoadLaw (s s' : Machine) (vaddr : Word) (n : ℕ) (rd : Reg) : Prop :=
  AccessLaw s s' .load vaddr n fun p => ∀ i < n, fprByte s'.fpu rd i = s.mainMemory (p i)

/-- byte i goes to p i, and no other byte changes -/
def StoreLaw (s s' : Machine) (vaddr : Word) (n : ℕ) (rs2 : Reg) : Prop :=
  AccessLaw s s' .store vaddr n fun p => Meant s.mainMemory s'.mainMemory n p (fprByte s.fpu rs2)

/-! ## When it holds -/

/-- an n-byte access at pa that is no CLINT access reaches main memory unless it runs past its end -/
def ramDest (n : ℕ) (pa : Word) : Prop := ¬ inClint pa ∧ pa.toNat < memSize - (n - 1)

instance (n : ℕ) (pa : Word) : Decidable (ramDest n pa) := by unfold ramDest; infer_instance

/-- what lies i bytes after pa, for an n-byte access: past the end of main memory there are zeros -/
def busByte (s : Machine) (n : ℕ) (pa : Word) (i : ℕ) : Byte :=
  if inClint pa then (clintGather (8 * n) s.dev.clint pa n).extractLsb' (8 * i) 8
  else if pa.toNat < memSize - (n - 1) then s.mainMemory (pa + BitVec.ofNat 32 i)
  else 0

/-- where byte i of an n-byte store at pa goes -/
def dest (n : ℕ) (pa : Word) (i : ℕ) : Option Word := if ramDest n pa then some (pa + BitVec.ofNat 32 i) else none

/-- FLH, FLW and FLD: the bytes after the first lie where they translate to, or what lies there is the same; or the first
byte faults and rd holds the boxed 0 already -/
def oneLoadWorks (s : Machine) (vaddr : Word) (fmt : Fmt) (rd : Reg) : Prop :=
  match (mmuWalk s vaddr .load).1 with
  | some pa => (∀ i < fmt.bytes, byteAt s .load vaddr i ≠ none) ∧
      ∀ p, Translates s .load vaddr fmt.bytes p → (∀ i < fmt.bytes, isRamByte (p i)) →
        ∀ i < fmt.bytes, busByte s fmt.bytes pa i = s.mainMemory (p i)
  | none => s.fpu.fpr rd = box fmt 0

/-- FSH, FSW and FSD: each byte goes where it translates to, or changes nothing; or the first byte faults -/
def oneStoreWorks (s : Machine) (vaddr : Word) (n : ℕ) (rs2 : Reg) : Prop :=
  match (mmuWalk s vaddr .store).1 with
  | some pa => (∀ i < n, byteAt s .store vaddr i ≠ none) ∧
      ∀ p, Translates s .store vaddr n p → (∀ i < n, isRamByte (p i)) →
        Agrees s.mainMemory n (dest n pa) p (fprByte s.fpu rs2)
  | none => True

/-- a condition on the two translations of a quad form, which must not both fault -/
def quadWorks (both : Word → Word → Prop) (onlyLo onlyHi : Word → Prop) : Option Word → Option Word → Prop
  | some pa, some pa' => both pa pa'
  | some pa, none => onlyLo pa
  | none, some pa' => onlyHi pa'
  | none, none => False

/-- FLQ: the same of its two halves, the second translated in the state s₁ the first one leaves; s₂ is the state after both.
If one half faults, rd holds what the other half reads, with 0 in the place of the faulting one -/
def flqWorks (s s₁ s₂ : Machine) (vaddr : Word) (rd : Reg) : Prop :=
  quadWorks
    (fun pa pa' => (∀ i < 16, byteAt s .load vaddr i ≠ none) ∧
      ∀ p, Translates s .load vaddr 16 p → (∀ i < 16, isRamByte (p i)) →
        ∀ i < 8, busByte s₁ 8 pa i = s.mainMemory (p i) ∧ busByte s₂ 8 pa' i = s.mainMemory (p (8 + i)))
    (fun pa => (∃ i < 16, byteAt s .load vaddr i = none) ∧
      ∀ i < 8, fprByte s.fpu rd i = busByte s₁ 8 pa i ∧ fprByte s.fpu rd (8 + i) = 0)
    (fun pa' => ∀ i < 8, fprByte s.fpu rd i = 0 ∧ fprByte s.fpu rd (8 + i) = busByte s₂ 8 pa' i)
    (mmuWalk s vaddr .load).1 (mmuWalk s₁ (vaddr + 8) .load).1

/-- FSQ: the same of its two halves. If one half faults, what the other half writes is there already -/
def fsqWorks (s s₁ : Machine) (vaddr : Word) (rs2 : Reg) : Prop :=
  quadWorks
    (fun pa pa' => (∀ i < 16, byteAt s .store vaddr i ≠ none) ∧
      ∀ p, Translates s .store vaddr 16 p → (∀ i < 16, isRamByte (p i)) →
        Agrees s.mainMemory 16 (fun i => if i < 8 then dest 8 pa i else dest 8 pa' (i - 8)) p (fprByte s.fpu rs2))
    (fun pa => (∃ i < 16, byteAt s .store vaddr i = none) ∧
      ∀ i < 8, ∀ x, dest 8 pa i = some x → s.mainMemory x = fprByte s.fpu rs2 i)
    (fun pa' => ∀ i < 8, ∀ x, dest 8 pa' i = some x → s.mainMemory x = fprByte s.fpu rs2 (8 + i))
    (mmuWalk s vaddr .store).1 (mmuWalk s₁ (vaddr + 8) .store).1

/-! ## Bytes -/

section
variable {s s' : Machine} {access : MmuAccess} {vaddr : Word} {n : ℕ}

theorem byteAt_zero : byteAt s access vaddr 0 = (mmuWalk s vaddr access).1 := by
  unfold byteAt
  rw [BitVec.add_zero]

theorem Translates.all {p : ℕ → Word} (h : Translates s access vaddr n p) : ∀ i < n, byteAt s access vaddr i ≠ none := by
  intro i hi
  rw [h i hi]
  nofun

/-- the law of an access that raised nothing -/
theorem accessLaw_quiet {moves : (ℕ → Word) → Prop} (h : s'.traps = s.traps) :
    AccessLaw s s' access vaddr n moves ↔ (∀ i < n, byteAt s access vaddr i ≠ none) ∧
      ∀ p, Translates s access vaddr n p → (∀ i < n, isRamByte (p i)) → moves p := by
  constructor
  · rintro ⟨-, hmoved, hfault⟩
    refine ⟨?_, hmoved⟩
    intro i hi hnone
    obtain ⟨t, ht, -⟩ := (hfault i hi hnone).once
    rw [h] at ht
    simp at ht
  · rintro ⟨hall, hmoved⟩
    exact ⟨fun _ => h, hmoved, fun i hi hnone => absurd hnone (hall i hi)⟩

/-- the law of an access that raised something -/
theorem accessLaw_fault {moves : (ℕ → Word) → Prop} (h : ∃ t l, s'.traps = t :: l ++ s.traps) :
    AccessLaw s s' access vaddr n moves ↔ (∃ i < n, byteAt s access vaddr i = none) ∧ FaultsOnce s s' access := by
  constructor
  · rintro ⟨hquiet, -, hfault⟩
    by_cases hno : ∃ i < n, byteAt s access vaddr i = none
    · obtain ⟨i, hi, hnone⟩ := hno
      exact ⟨⟨i, hi, hnone⟩, hfault i hi hnone⟩
    · obtain ⟨t, l, h⟩ := h
      have hlen := congrArg List.length ((hquiet fun i hi hnone => hno ⟨i, hi, hnone⟩).symm.trans h)
      simp at hlen
      omega
  · rintro ⟨⟨i, hi, hnone⟩, hfault⟩
    exact ⟨fun hall => absurd hnone (hall i hi), fun p hp => absurd hnone (hp.all i hi), fun _ _ _ => hfault⟩

/-- a byte of a wide word is a byte of its low part -/
theorem extract_setWidth {w : ℕ} (x : BitVec 128) {i : ℕ} (h : 8 * i + 8 ≤ w) :
    (x.setWidth w).extractLsb' (8 * i) 8 = x.extractLsb' (8 * i) 8 := by
  apply BitVec.eq_of_getLsbD_eq
  intro j hj
  have hlt : 8 * i + j < w := by omega
  simp [hj, hlt]

theorem fprByte_fprWrite (fmt : Fmt) (f : Fpu) (rd : Reg) (v : BitVec fmt.width) {i : ℕ} (hi : i < fmt.bytes) :
    fprByte (fprWrite fmt f rd v) rd i = v.extractLsb' (8 * i) 8 := by
  have hle : 8 * i + 8 ≤ fmt.width := by cases fmt <;> simp only [Fmt.bytes, Fmt.width] at hi ⊢ <;> omega
  have hread : ((fprWrite fmt f rd v).fpr rd).setWidth fmt.width = v := fprRead_fprWrite fmt f rd v
  rw [fprByte, ← extract_setWidth _ hle, hread]

theorem fprWrite_self_iff (fmt : Fmt) (f : Fpu) (rd : Reg) (v : BitVec fmt.width) :
    (fprWrite fmt f rd v).fpr = f.fpr ↔ f.fpr rd = box fmt v :=
  Function.update_eq_self_iff.trans eq_comm

/-- the half at position j of a register is the register's bytes from 8 * j on -/
theorem extract_append (hi lo : BitVec 64) {i : ℕ} (h : i < 8) :
    (hi ++ lo).extractLsb' (8 * i) 8 = lo.extractLsb' (8 * i) 8 ∧
      (hi ++ lo).extractLsb' (8 * (8 + i)) 8 = hi.extractLsb' (8 * i) 8 := by
  constructor
  · apply BitVec.eq_of_getLsbD_eq
    intro j hj
    have hlt : 8 * i + j < 64 := by omega
    rw [BitVec.getLsbD_extractLsb', BitVec.getLsbD_append, if_pos hlt, BitVec.getLsbD_extractLsb']
  · apply BitVec.eq_of_getLsbD_eq
    intro j hj
    have hge : ¬ 8 * (8 + i) + j < 64 := by omega
    have hsub : 8 * (8 + i) + j - 64 = 8 * i + j := by omega
    rw [BitVec.getLsbD_extractLsb', BitVec.getLsbD_append, if_neg hge, hsub, BitVec.getLsbD_extractLsb']

/-! ## Physical reads -/

theorem extract_loadLE (m : Word → Byte) (pa : Word) {n i : ℕ} (hi : i < n) :
    (loadLE m pa n).extractLsb' (8 * i) 8 = m (pa + BitVec.ofNat 32 i) := byte_loadLE m pa n i hi

theorem busByte_ram {pa : Word} (h : isRamByte pa) (i : ℕ) : busByte s n pa i =
    if pa.toNat < memSize - (n - 1) then s.mainMemory (pa + BitVec.ofNat 32 i) else 0 := if_neg h.1

/-- what the physical read answers, when it starts in RAM -/
def readsBytes {α : Type} (fmt : Fmt) (read : Machine → Word → α × Devices) (conv : α → BitVec fmt.width) : Prop :=
  ∀ s pa, isRamByte pa → ∀ i < fmt.bytes, (conv (read s pa).1).extractLsb' (8 * i) 8 = busByte s fmt.bytes pa i

theorem memRead16_bytes : readsBytes .H memRead16Unsigned (·.setWidth 16) := by
  intro s pa h i hi
  rw [busByte_ram h, memRead16Unsigned, if_neg h.1]
  split_ifs with hend hend' hend'
  · exact absurd hend (Nat.not_le.2 hend')
  · exact BitVec.extractLsb'_zero ..
  · have hself : ((loadLE s.mainMemory pa 2).setWidth 32).setWidth 16 = loadLE s.mainMemory pa 2 :=
      BitVec.setWidth_setWidth_of_le _ (by decide)
    exact (congrArg (BitVec.extractLsb' (8 * i) 8) hself).trans (extract_loadLE _ _ hi)
  · exact absurd (Nat.not_le.1 hend) hend'

theorem memRead32_bytes : readsBytes .S memRead32Unsigned id := by
  intro s pa h i hi
  rw [busByte_ram h, memRead32Unsigned, if_neg h.1, if_neg h.2.1, if_neg h.2.2.1]
  split_ifs with hend hend' hend'
  · exact absurd hend (Nat.not_le.2 hend')
  · exact BitVec.extractLsb'_zero ..
  · exact extract_loadLE _ _ hi
  · exact absurd (Nat.not_le.1 hend) hend'

/-- the 64-bit read has no other window -/
theorem memRead64_bytes (s : Machine) (pa : Word) {i : ℕ} (hi : i < 8) :
    ((memRead64Unsigned s pa).1).extractLsb' (8 * i) 8 = busByte s 8 pa i := by
  unfold memRead64Unsigned busByte
  split_ifs with hc hend hend' hend'
  · rfl
  · exact absurd hend (Nat.not_le.2 hend')
  · exact BitVec.extractLsb'_zero ..
  · exact extract_loadLE _ _ hi
  · exact absurd (Nat.not_le.1 hend) hend'

/-! ## Loads -/

variable {rd : Reg}

theorem Fmt.bytes_pos (fmt : Fmt) : 0 < fmt.bytes := by cases fmt <;> decide

/-- s' took one page fault, and is otherwise as s in what the law speaks of -/
structure OneFault (s s' : Machine) (access : MmuAccess) : Prop where
  once : ∃ t, s'.traps = t :: s.traps ∧ t.cause = pageFaultCause access
  mem : s'.mainMemory = s.mainMemory
  fpu : s'.fpu = s.fpu

theorem oneFault (s : Machine) (d : Devices) (vaddr : Word) (access : MmuAccess) :
    OneFault s (raiseExceptionPc { s with dev := d } (pageFaultCause access) vaddr s.pc) access :=
  ⟨⟨_, raiseExceptionPc_traps .., rfl⟩, raiseExceptionPc_mainMemory .., raiseExceptionPc_fpu ..⟩

/-- what it then writes must be there already -/
theorem OneFault.faultsOnce {t : Machine} (h : OneFault s t .load) {fmt : Fmt} (v : BitVec fmt.width) :
    FaultsOnce s { t with fpu := fprWrite fmt t.fpu rd v } .load ↔ s.fpu.fpr rd = box fmt v := by
  rw [← fprWrite_self_iff fmt s.fpu rd v, h.fpu]
  constructor
  · intro hf
    exact hf.fpr
  · intro hf
    exact ⟨h.once, h.mem, hf⟩

/-- a load that raised nothing, and put the bytes b in rd -/
theorem load_quiet {t : Machine} (ht : t.traps = s.traps) {b : ℕ → Byte}
    (hb : ∀ p, Translates s .load vaddr n p → (∀ i < n, isRamByte (p i)) → ∀ i < n, fprByte t.fpu rd i = b i) :
    LoadLaw s t vaddr n rd ↔ (∀ i < n, byteAt s .load vaddr i ≠ none) ∧
      ∀ p, Translates s .load vaddr n p → (∀ i < n, isRamByte (p i)) → ∀ i < n, b i = s.mainMemory (p i) := by
  unfold LoadLaw
  rw [accessLaw_quiet ht]
  refine and_congr_right fun _ => forall_congr' fun p => ?_
  refine imp_congr_right fun hp => imp_congr_right fun hram => ?_
  exact forall₂_congr fun i hi => by rw [hb p hp hram i hi]

/-- a load that raised one fault, and put v in rd -/
theorem OneFault.loadLaw {t : Machine} (h : OneFault s t .load) (hex : ∃ i < n, byteAt s .load vaddr i = none) {fmt : Fmt}
    (v : BitVec fmt.width) :
    LoadLaw s { t with fpu := fprWrite fmt t.fpu rd v } vaddr n rd ↔ s.fpu.fpr rd = box fmt v := by
  obtain ⟨x, hx, -⟩ := h.once
  have hlaw : LoadLaw s { t with fpu := fprWrite fmt t.fpu rd v } vaddr n rd ↔
      (∃ i < n, byteAt s .load vaddr i = none) ∧ FaultsOnce s { t with fpu := fprWrite fmt t.fpu rd v } .load :=
    accessLaw_fault ⟨x, [], hx⟩
  rw [hlaw, h.faultsOnce v]
  exact and_iff_right hex

/-- one MMU read, and a register written with what it answers -/
def oneLoad {α : Type} [Zero α] (fmt : Fmt) (read : Machine → Word → α × Devices) (conv : α → BitVec fmt.width)
    (s : Machine) (vaddr : Word) (rd : Reg) : Machine :=
  let r := mmuRead read s vaddr
  { r.2 with fpu := fprWrite fmt r.2.fpu rd (conv r.1) }

theorem one_load_iff {α : Type} [Zero α] {fmt : Fmt} {read : Machine → Word → α × Devices} {conv : α → BitVec fmt.width}
    (hread : readsBytes fmt read conv) (hzero : conv 0 = 0) :
    LoadLaw s (oneLoad fmt read conv s vaddr rd) vaddr fmt.bytes rd ↔ oneLoadWorks s vaddr fmt rd := by
  unfold oneLoadWorks oneLoad
  rcases hw : mmuWalk s vaddr .load with ⟨_ | pa, d⟩
  · -- the access faults, and the register gets a 0
    have hr : mmuRead read s vaddr = (0, raiseExceptionPc { s with dev := d } causeLoadPageFault vaddr s.pc) :=
      mmuRead_none hw
    have hex : ∃ i < fmt.bytes, byteAt s .load vaddr i = none := ⟨0, fmt.bytes_pos, by rw [byteAt_zero, hw]⟩
    rw [hr]
    dsimp only
    rw [hzero]
    exact (oneFault s d vaddr .load).loadLaw hex 0
  · -- the access is made at pa
    have hr : mmuRead read s vaddr =
        ((read { s with dev := d } pa).1, { s with dev := (read { s with dev := d } pa).2 }) := mmuRead_some hw
    have hbytes : ∀ p, Translates s .load vaddr fmt.bytes p → (∀ i < fmt.bytes, isRamByte (p i)) → ∀ i < fmt.bytes,
        fprByte (fprWrite fmt s.fpu rd (conv (read { s with dev := d } pa).1)) rd i = busByte s fmt.bytes pa i := by
      intro p hp hram i hi
      have hpa : pa = p 0 := by
        have h0 := hp 0 fmt.bytes_pos
        rw [byteAt_zero, hw] at h0
        exact Option.some.inj h0
      have hram0 : isRamByte pa := hpa ▸ hram 0 fmt.bytes_pos
      rw [fprByte_fprWrite fmt s.fpu rd _ hi, hread _ _ hram0 i hi, busByte_ram hram0, busByte_ram hram0]
    rw [hr]
    refine Iff.trans (load_quiet ?_ hbytes) Iff.rfl
    rfl

theorem box_quad (v : BitVec 128) : box .Q v = v := by
  have hlane : BitVec.allOnes 128 <<< Fmt.Q.width = 0#128 := rfl
  rw [box, hlane, BitVec.zero_or]
  exact BitVec.setWidth_eq ..

/-- a quad, byte by byte -/
theorem quad_iff (f : Fpu) (hi lo : BitVec 64) : f.fpr rd = box .Q (hi ++ lo) ↔ ∀ i < 8,
    fprByte f rd i = lo.extractLsb' (8 * i) 8 ∧ fprByte f rd (8 + i) = hi.extractLsb' (8 * i) 8 := by
  have hbox : box .Q (hi ++ lo) = hi ++ lo := box_quad _
  rw [hbox]
  constructor
  · intro h i hlt
    obtain ⟨hl, hh⟩ := extract_append hi lo hlt
    rw [fprByte, fprByte, h]
    exact ⟨hl, hh⟩
  · intro h
    refine ext_byte (n := 16) ?_
    intro k hk
    by_cases hlow : k < 8
    · exact (h k hlow).1.trans (extract_append hi lo hlow).1.symm
    · obtain ⟨j, rfl⟩ : ∃ j, k = 8 + j := ⟨k - 8, by omega⟩
      have hj : j < 8 := by omega
      exact (h j hj).2.trans (extract_append hi lo hj).2.symm

theorem memRead64_dev (s : Machine) (pa : Word) : (memRead64Unsigned s pa).2 = s.dev := by
  unfold memRead64Unsigned
  split_ifs <;> rfl

/-- a 64-bit read at a translated address -/
theorem mmuRead64_some {pa : Word} {d : Devices} (h : mmuWalk s vaddr .load = (some pa, d)) :
    mmuRead64Unsigned s vaddr = ((memRead64Unsigned { s with dev := d } pa).1, { s with dev := d }) := by
  rw [mmuRead64Unsigned, mmuRead_some h, memRead64_dev]

theorem forall_lt_sixteen {P : ℕ → Prop} : (∀ i < 16, P i) ↔ ∀ i < 8, P i ∧ P (8 + i) := by
  constructor
  · intro h i hi
    exact ⟨h i (by omega), h (8 + i) (by omega)⟩
  · intro h i hi
    by_cases hlow : i < 8
    · exact (h i hlow).1
    · have hsub := (h (i - 8) (by omega)).2
      rwa [Nat.add_sub_cancel' (Nat.not_lt.1 hlow)] at hsub

theorem flq_iff (imm : Word) (rs1 : Reg) :
    let addr := regRead s rs1 + imm
    let s₁ := (mmuRead64Unsigned s addr).2
    LoadLaw s (insfFlq s imm rs1 rd) addr 16 rd ↔ flqWorks s s₁ (mmuRead64Unsigned s₁ (addr + 8)).2 addr rd := by
  intro addr s₁
  generalize hs₂ : (mmuRead64Unsigned s₁ (addr + 8)).2 = s₂
  obtain ⟨v, hv⟩ : ∃ v : BitVec Fmt.Q.width, (mmuRead64Unsigned s₁ (addr + 8)).1 ++ (mmuRead64Unsigned s addr).1 = v :=
    ⟨_, rfl⟩
  have hfinal : insfFlq s imm rs1 rd = { s₂ with fpu := fprWrite .Q s₂.fpu rd v } := by
    rw [← hs₂, ← hv]
    rfl
  have hzero : ∀ i, (0 : BitVec 64).extractLsb' (8 * i) 8 = 0 := fun i => BitVec.extractLsb'_zero
  rw [hfinal, flqWorks]
  rcases hlo : mmuWalk s addr .load with ⟨_ | pa, d⟩
  · have hr₁ : mmuRead64Unsigned s addr = (0, raiseExceptionPc { s with dev := d } causeLoadPageFault addr s.pc) :=
      mmuRead_none hlo
    have hs₁ : OneFault s s₁ .load := by
      change OneFault s (mmuRead64Unsigned s addr).2 .load
      rw [hr₁]
      exact oneFault s d addr .load
    have hex : ∃ i < 16, byteAt s .load addr i = none := ⟨0, by decide, by rw [byteAt_zero, hlo]⟩
    rcases hhi : mmuWalk s₁ (addr + 8) .load with ⟨_ | pa', d'⟩
    · -- both halves fault
      have htraps : ∃ t t', s₂.traps = t :: t' :: s.traps := by
        obtain ⟨t', ht', -⟩ := hs₁.once
        obtain ⟨t, ht, -⟩ := (oneFault s₁ d' (addr + 8) .load).once
        rw [← hs₂, mmuRead64Unsigned, mmuRead_none hhi]
        exact ⟨t, t', ht.trans (congrArg (t :: ·) ht')⟩
      obtain ⟨t, t', ht⟩ := htraps
      refine iff_false_intro ?_
      intro hlaw
      obtain ⟨t₁, ht₁, -⟩ := (hlaw.fault 0 (by decide) (by rw [byteAt_zero, hlo])).once
      have hlen := congrArg List.length (ht.symm.trans ht₁)
      simp at hlen
    · -- the second half is read in the mode trapped into
      have hr₂ := mmuRead64_some hhi
      rw [hr₁, hr₂] at hv
      rw [hr₂] at hs₂
      have hs₂' : { s₁ with dev := d' } = s₂ := hs₂
      have hfault : OneFault s s₂ .load := by
        rw [← hs₂']
        exact ⟨hs₁.once, hs₁.mem, hs₁.fpu⟩
      rw [hfault.loadLaw hex, ← hv, quad_iff]
      refine forall₂_congr ?_
      intro i hi
      rw [hzero, memRead64_bytes _ _ hi, hs₂']
  · have hr₁ := mmuRead64_some hlo
    have hs₁ : { s with dev := d } = s₁ := (congrArg Prod.snd hr₁).symm
    rcases hhi : mmuWalk s₁ (addr + 8) .load with ⟨_ | pa', d'⟩
    · -- the second half faults
      have hr₂ : mmuRead64Unsigned s₁ (addr + 8) =
          (0, raiseExceptionPc { s₁ with dev := d' } causeLoadPageFault (addr + 8) s₁.pc) := mmuRead_none hhi
      rw [hr₁, hr₂] at hv
      rw [hr₂] at hs₂
      have hs₂' : raiseExceptionPc { s₁ with dev := d' } causeLoadPageFault (addr + 8) s₁.pc = s₂ := hs₂
      have hfault : OneFault s s₂ .load := by
        rw [← hs₂', ← hs₁]
        exact oneFault s d' (addr + 8) .load
      have hquad : s.fpu.fpr rd = box .Q v ↔
          ∀ i < 8, fprByte s.fpu rd i = busByte s₁ 8 pa i ∧ fprByte s.fpu rd (8 + i) = 0 := by
        rw [← hv, quad_iff]
        refine forall₂_congr ?_
        intro i hi
        rw [hzero, memRead64_bytes _ _ hi, hs₁]
      refine Iff.trans ?_ (and_congr_right fun _ => hquad)
      by_cases hex : ∃ i < 16, byteAt s .load addr i = none
      · exact (hfault.loadLaw hex v).trans (and_iff_right hex).symm
      · -- every byte translates in s, so nothing may be raised
        refine iff_of_false ?_ fun h => hex h.1
        intro hlaw
        obtain ⟨t, ht, -⟩ := hfault.once
        have hquiet := hlaw.quiet fun i hi hnone => hex ⟨i, hi, hnone⟩
        have hlen := congrArg List.length (hquiet.symm.trans ht)
        simp at hlen
    · -- neither half faults
      have hr₂ := mmuRead64_some hhi
      rw [hr₁, hr₂] at hv
      rw [hr₂] at hs₂
      have hs₂' : { s₁ with dev := d' } = s₂ := hs₂
      have hb : ∀ i < 8, fprByte (fprWrite .Q s₂.fpu rd v) rd i = busByte s₁ 8 pa i ∧
          fprByte (fprWrite .Q s₂.fpu rd v) rd (8 + i) = busByte s₂ 8 pa' i := by
        have hq := (quad_iff (fprWrite .Q s₂.fpu rd v) _ _).1 (by rw [fprWrite_fpr, ← hv])
        intro i hi
        obtain ⟨hlo', hhi'⟩ := hq i hi
        rw [hlo', hhi', memRead64_bytes _ _ hi, memRead64_bytes _ _ hi, hs₁, hs₂']
        exact ⟨rfl, rfl⟩
      refine Iff.trans (load_quiet ?_ fun _ _ _ _ _ => rfl) ?_
      · rw [← hs₂', ← hs₁]
      · refine and_congr_right fun _ => forall_congr' fun p => imp_congr_right fun _ => imp_congr_right fun _ => ?_
        refine forall_lt_sixteen.trans (forall₂_congr ?_)
        intro i hi
        rw [(hb i hi).1, (hb i hi).2]

/-! ## Stores -/

variable {pa : Word} {rs2 : Reg}

theorem toNat_add_ofNat (a : Word) (i : ℕ) : (a + BitVec.ofNat 32 i).toNat % 4096 = (a.toNat + i) % 4096 := by
  rw [BitVec.toNat_add, BitVec.toNat_ofNat]
  omega

/-- a byte keeps its page offset -/
theorem byteAt_offset {x : Word} {i : ℕ} (h : byteAt s access vaddr i = some x) : x.toNat % 4096 = (vaddr.toNat + i) % 4096 := by
  have hoff := congrArg BitVec.toNat (mmuWalk_pageOffset (Prod.ext h rfl : mmuWalk s _ access = (some x, _)))
  rw [Bits.toNat_and_mask (k := 12) _ _ rfl, Bits.toNat_and_mask (k := 12) _ _ rfl] at hoff
  exact hoff.trans (toNat_add_ofNat vaddr i)

theorem dest_offset {x : Word} {i : ℕ} (h : dest n pa i = some x) : x.toNat % 4096 = (pa.toNat + i) % 4096 := by
  unfold dest at h
  split_ifs at h
  rw [← Option.some.inj h]
  exact toNat_add_ofNat pa i

/-- the physical write reaches main memory where dest says -/
theorem scattered_store {m m' : Word → Byte} {v : BitVec (8 * n)} {b : ℕ → Byte} (hn : n ≤ 16)
    (hm : m' = if ramDest n pa then storeLE m pa n v else m) (hv : ∀ i < n, v.extractLsb' (8 * i) 8 = b i) :
    Scattered m m' n (dest n pa) b := by
  rw [hm]
  constructor
  · intro i hi x hx
    unfold dest at hx
    split_ifs at hx with hd
    rw [if_pos hd, ← Option.some.inj hx, ← hv i hi]
    exact storeLE_byte m pa v (by omega) i hi
  · intro x hx
    split_ifs with hd
    · refine storeLE_other m pa v fun hlt => hx _ hlt ?_
      rw [dest, if_pos hd, add_dist]
    · rfl

theorem memWrite16_dest (s : Machine) (pa : Word) (v : BitVec 16) : (memWrite16 s pa v).mainMemory =
    if ramDest 2 pa then storeLE s.mainMemory pa 2 v else s.mainMemory := by
  by_cases h : ramDest 2 pa
  · have hend : ¬ pa.toNat ≥ memSize - 1 := Nat.not_le.2 h.2
    rw [if_pos h, memWrite16, if_neg h.1, if_neg hend]
    simp only [memClearReservation_mainMemory]
  · rw [if_neg h, ← memClearReservation_mainMemory s pa, memWrite16]
    split_ifs with hc hend
    · rfl
    · rfl
    · exact absurd ⟨hc, Nat.not_le.1 hend⟩ h

theorem memWrite64_dest (s : Machine) (pa : Word) (v : BitVec 64) : (memWrite64 s pa v).mainMemory =
    if ramDest 8 pa then storeLE s.mainMemory pa 8 v else s.mainMemory := by
  by_cases h : ramDest 8 pa
  · have hend : ¬ pa.toNat ≥ memSize - 7 := Nat.not_le.2 h.2
    rw [if_pos h, memWrite64, if_neg h.1, if_neg hend]
    simp only [memClearReservation_mainMemory]
  · rw [if_neg h, ← memClearReservation_mainMemory s pa, memWrite64]
    split_ifs with hc hend
    · rfl
    · rfl
    · exact absurd ⟨hc, Nat.not_le.1 hend⟩ h

theorem memWrite32_dest (s : Machine) (pa v : Word) (h : isRamByte pa) : (memWrite32 s pa v).mainMemory =
    if ramDest 4 pa then storeLE s.mainMemory pa 4 v else s.mainMemory := by
  have hiff : isRam32 pa ↔ ramDest 4 pa := ⟨fun hr => ⟨hr.1, hr.2.2.2⟩, fun hd => ⟨h.1, h.2.1, h.2.2.1, hd.2⟩⟩
  rw [memWrite32_mainMemory]
  simp only [hiff]

/-- a store that raised one fault -/
theorem store_fault {t : Machine} (hone : ∃ x, t.traps = x :: s.traps ∧ x.cause = pageFaultCause .store)
    (hfpu : t.fpu = s.fpu) : StoreLaw s t vaddr n rs2 ↔
      (∃ i < n, byteAt s .store vaddr i = none) ∧ t.mainMemory = s.mainMemory := by
  obtain ⟨x, hx, -⟩ := id hone
  have hlaw : StoreLaw s t vaddr n rs2 ↔ (∃ i < n, byteAt s .store vaddr i = none) ∧ FaultsOnce s t .store :=
    accessLaw_fault ⟨x, [], hx⟩
  rw [hlaw]
  exact and_congr_right fun _ => ⟨fun h => h.mem, fun h => ⟨hone, h, congrArg Fpu.fpr hfpu⟩⟩

/-- a store that raised nothing, and put its bytes where q says -/
theorem store_quiet {t : Machine} (ht : t.traps = s.traps) {q : ℕ → Option Word} (hn : n ≤ 16)
    (hs : ∀ p, Translates s .store vaddr n p → (∀ i < n, isRamByte (p i)) →
      Scattered s.mainMemory t.mainMemory n q (fprByte s.fpu rs2))
    (hq : ∀ i < n, ∀ x, q i = some x → x.toNat % 4096 = (vaddr.toNat + i) % 4096) :
    StoreLaw s t vaddr n rs2 ↔ (∀ i < n, byteAt s .store vaddr i ≠ none) ∧
      ∀ p, Translates s .store vaddr n p → (∀ i < n, isRamByte (p i)) →
        Agrees s.mainMemory n q p (fprByte s.fpu rs2) := by
  unfold StoreLaw
  rw [accessLaw_quiet ht]
  refine and_congr_right fun _ => forall_congr' fun p => imp_congr_right fun hp => imp_congr_right fun hram => ?_
  refine (hs p hp hram).meant_iff ?_
  intro i hi j hj hij
  -- the offset in the page tells the bytes apart
  have hoff := (hq i hi _ hij).symm.trans (byteAt_offset (hp j hj))
  omega

theorem one_store_iff {write : Machine → Word → BitVec (8 * n) → Machine} {v : BitVec (8 * n)} (hpos : 0 < n) (hn : n ≤ 16)
    (hstep : ∀ s a v, MemStep s (write s a v)) (hram : ∀ s pa v, isRamByte pa →
      (write s pa v).mainMemory = if ramDest n pa then storeLE s.mainMemory pa n v else s.mainMemory)
    (hv : ∀ i < n, v.extractLsb' (8 * i) 8 = fprByte s.fpu rs2 i) :
    StoreLaw s (mmuWrite write s vaddr v) vaddr n rs2 ↔ oneStoreWorks s vaddr n rs2 := by
  unfold oneStoreWorks
  rcases hw : mmuWalk s vaddr .store with ⟨_ | pa, d⟩
  · rw [mmuWrite_none hw]
    have hex : ∃ i < n, byteAt s .store vaddr i = none := ⟨0, hpos, by rw [byteAt_zero, hw]⟩
    have hfault := oneFault s d vaddr .store
    exact iff_of_true ((store_fault hfault.once hfault.fpu).2 ⟨hex, hfault.mem⟩) trivial
  · rw [mmuWrite_some hw]
    have hmem := hram { s with dev := d } pa v
    have hoff : pa.toNat % 4096 = (vaddr.toNat + 0) % 4096 := byteAt_offset (i := 0) (by rw [byteAt_zero, hw])
    have htraps : (write { s with dev := d } pa v).traps = s.traps := (hstep _ _ _).kept.traps
    refine store_quiet htraps hn ?_ ?_
    · intro p hp hp'
      have hpa : pa = p 0 := by
        have h0 := hp 0 hpos
        rw [byteAt_zero, hw] at h0
        exact Option.some.inj h0
      exact scattered_store hn (hmem (hpa ▸ hp' 0 hpos)) hv
    · intro i hi x hx
      have hx' := dest_offset hx
      omega

theorem fsq_iff (imm : Word) (rs1 : Reg) :
    let addr := regRead s rs1 + imm
    StoreLaw s (insfFsq s imm rs1 rs2) addr 16 rs2 ↔
      fsqWorks s (mmuWrite64 s addr ((fprRead .Q s.fpu rs2).setWidth 64)) addr rs2 := by
  intro addr
  generalize hs₁ : mmuWrite64 s addr ((fprRead .Q s.fpu rs2).setWidth 64) = s₁
  have hfinal : insfFsq s imm rs1 rs2 = mmuWrite64 s₁ (addr + 8) (((fprRead .Q s.fpu rs2) >>> 64).setWidth 64) := by
    rw [← hs₁]
    rfl
  have hread : fprRead .Q s.fpu rs2 = s.fpu.fpr rs2 := BitVec.setWidth_eq ..
  have hlo : ∀ i < 8, ((fprRead .Q s.fpu rs2).setWidth 64).extractLsb' (8 * i) 8 = fprByte s.fpu rs2 i := by
    intro i hi
    rw [hread]
    exact extract_setWidth _ (by omega)
  have hhi : ∀ i < 8, (((fprRead .Q s.fpu rs2) >>> 64).setWidth 64).extractLsb' (8 * i) 8 = fprByte s.fpu rs2 (8 + i) := by
    intro i hi
    rw [hread]
    refine (extract_setWidth _ (by omega)).trans ?_
    apply BitVec.eq_of_getLsbD_eq
    intro j hj
    have hsum : 64 + (8 * i + j) = 8 * (8 + i) + j := by omega
    simp [fprByte, hj, hsum]
  rw [hfinal, fsqWorks]
  generalize (fprRead .Q s.fpu rs2).setWidth 64 = lo at hs₁ hlo
  generalize ((fprRead .Q s.fpu rs2) >>> 64).setWidth 64 = hi at hhi
  rcases hw : mmuWalk s addr .store with ⟨_ | pa, d⟩
  · have hs₁' : OneFault s s₁ .store := by
      rw [← hs₁, mmuWrite64, mmuWrite_none hw]
      exact oneFault s d addr .store
    have hex : ∃ i < 16, byteAt s .store addr i = none := ⟨0, by decide, by rw [byteAt_zero, hw]⟩
    rcases hw' : mmuWalk s₁ (addr + 8) .store with ⟨_ | pa', d'⟩
    · -- both halves fault
      obtain ⟨t', ht', -⟩ := hs₁'.once
      obtain ⟨t, ht, -⟩ := (oneFault s₁ d' (addr + 8) .store).once
      rw [mmuWrite64, mmuWrite_none hw']
      refine iff_false_intro ?_
      intro hlaw
      obtain ⟨t₁, ht₁, -⟩ := (hlaw.fault 0 (by decide) (by rw [byteAt_zero, hw])).once
      have hlen := congrArg List.length ((ht.trans (congrArg (t :: ·) ht')).symm.trans ht₁)
      simp at hlen
    · -- the second half is written in the mode trapped into
      rw [mmuWrite64, mmuWrite_some hw']
      have hmem := memWrite64_dest { s₁ with dev := d' } pa' hi
      obtain ⟨mem, flags, dev, hs₂⟩ := memWrite64_memStep { s₁ with dev := d' } pa' hi
      rw [hs₂] at hmem ⊢
      have hscatter : Scattered s.mainMemory mem 8 (dest 8 pa') fun i => fprByte s.fpu rs2 (8 + i) := by
        rw [← hs₁'.mem]
        exact scattered_store (by decide) hmem hhi
      refine Iff.trans (store_fault ?_ ?_) ((and_iff_right hex).trans hscatter.eq_iff)
      · exact hs₁'.once
      · exact hs₁'.fpu
  · have hmem := memWrite64_dest { s with dev := d } pa lo
    obtain ⟨mem, flags, dev, hs₂⟩ := memWrite64_memStep { s with dev := d } pa lo
    rw [mmuWrite64, mmuWrite_some hw, hs₂] at hs₁
    rw [hs₂] at hmem
    have hscatter : Scattered s.mainMemory mem 8 (dest 8 pa) (fprByte s.fpu rs2) := scattered_store (by decide) hmem hlo
    rcases hw' : mmuWalk s₁ (addr + 8) .store with ⟨_ | pa', d'⟩
    · -- the second half faults
      have hfault := oneFault s₁ d' (addr + 8) .store
      rw [mmuWrite64, mmuWrite_none hw']
      refine Iff.trans (store_fault ?_ ?_) (and_congr_right ?_)
      · obtain ⟨t, ht, hcause⟩ := hfault.once
        exact ⟨t, ht.trans (by rw [← hs₁]), hcause⟩
      · exact hfault.fpu.trans (by rw [← hs₁])
      · intro _
        have hm : s₁.mainMemory = mem := by rw [← hs₁]
        rw [raiseExceptionPc_mainMemory, hm]
        exact hscatter.eq_iff
    · -- neither half faults
      rw [mmuWrite64, mmuWrite_some hw']
      have hmem' := memWrite64_dest { s₁ with dev := d' } pa' hi
      obtain ⟨mem', flags', dev', hs₂'⟩ := memWrite64_memStep { s₁ with dev := d' } pa' hi
      rw [hs₂'] at hmem' ⊢
      have hscatter' : Scattered mem mem' 8 (dest 8 pa') fun i => fprByte s.fpu rs2 (8 + i) := by
        rw [← hs₁] at hmem'
        exact scattered_store (by decide) hmem' hhi
      have hoff : pa.toNat % 4096 = (addr.toNat + 0) % 4096 := byteAt_offset (i := 0) (by rw [byteAt_zero, hw])
      have hoff' : pa'.toNat % 4096 = ((addr + 8).toNat + 0) % 4096 := byteAt_offset (i := 0) (by rw [byteAt_zero, hw'])
      have h8 : (addr + 8).toNat % 4096 = (addr.toNat + 8) % 4096 := toNat_add_ofNat addr 8
      have hboth := hscatter.append hscatter' fun i hi j hj x hx hx' => by
        have h1 := dest_offset hx
        have h2 := dest_offset hx'
        omega
      refine Iff.trans (store_quiet ?_ (by decide) (fun _ _ _ => hboth) fun i hi x hx => ?_) Iff.rfl
      · rw [← hs₁]
      · split_ifs at hx with hlow
        · have h1 := dest_offset hx
          omega
        · have h1 := dest_offset hx
          omega

end

/-! ## The eight forms -/

theorem memRead64_reads : readsBytes .D memRead64Unsigned id := fun s pa _ _ hi => memRead64_bytes s pa hi

def FLoadOp.works (op : FLoadOp) (s : Machine) (vaddr : Word) (rd : Reg) : Prop :=
  match op with
  | .flh => oneLoadWorks s vaddr .H rd
  | .flw => oneLoadWorks s vaddr .S rd
  | .fld => oneLoadWorks s vaddr .D rd
  | .flq =>
    let s₁ := (mmuRead64Unsigned s vaddr).2
    flqWorks s s₁ (mmuRead64Unsigned s₁ (vaddr + 8)).2 vaddr rd

def FStoreOp.works (op : FStoreOp) (s : Machine) (vaddr : Word) (rs2 : Reg) : Prop :=
  match op with
  | .fsh => oneStoreWorks s vaddr 2 rs2
  | .fsw => oneStoreWorks s vaddr 4 rs2
  | .fsd => oneStoreWorks s vaddr 8 rs2
  | .fsq => fsqWorks s (mmuWrite64 s vaddr ((s.fpu.fpr rs2).setWidth 64)) vaddr rs2

theorem FLoadOp.exec_law (op : FLoadOp) (s : Machine) (imm : Word) (rs1 rd : Reg) :
    LoadLaw s (op.exec s imm rs1 rd) (regRead s rs1 + imm) op.fmt.bytes rd ↔ op.works s (regRead s rs1 + imm) rd := by
  cases op with
  | flh =>
    have hexec : insfFlh s imm rs1 rd = oneLoad .H memRead16Unsigned (·.setWidth 16) s (regRead s rs1 + imm) rd := rfl
    rw [FLoadOp.exec, hexec]
    exact one_load_iff memRead16_bytes rfl
  | flw =>
    have hexec : insfFlw s imm rs1 rd = oneLoad .S memRead32Unsigned id s (regRead s rs1 + imm) rd := rfl
    rw [FLoadOp.exec, hexec]
    exact one_load_iff memRead32_bytes rfl
  | fld =>
    have hexec : insfFld s imm rs1 rd = oneLoad .D memRead64Unsigned id s (regRead s rs1 + imm) rd := rfl
    rw [FLoadOp.exec, hexec]
    exact one_load_iff memRead64_reads rfl
  | flq => exact flq_iff imm rs1

theorem FStoreOp.exec_law (op : FStoreOp) (s : Machine) (imm : Word) (rs1 rs2 : Reg) :
    StoreLaw s (op.exec s imm rs1 rs2) (regRead s rs1 + imm) op.fmt.bytes rs2 ↔
      op.works s (regRead s rs1 + imm) rs2 := by
  cases op with
  | fsh =>
    exact one_store_iff (n := 2) (by decide) (by decide) memWrite16_memStep (fun s pa v _ => memWrite16_dest s pa v)
      fun i hi => extract_setWidth _ (by omega)
  | fsw =>
    exact one_store_iff (n := 4) (by decide) (by decide) memWrite32_memStep memWrite32_dest
      fun i hi => extract_setWidth _ (by omega)
  | fsd =>
    exact one_store_iff (n := 8) (by decide) (by decide) memWrite64_memStep (fun s pa v _ => memWrite64_dest s pa v)
      fun i hi => extract_setWidth _ (by omega)
  | fsq =>
    have hread : fprRead .Q s.fpu rs2 = s.fpu.fpr rs2 := BitVec.setWidth_eq ..
    have h : StoreLaw s (insfFsq s imm rs1 rs2) (regRead s rs1 + imm) 16 rs2 ↔
        fsqWorks s (mmuWrite64 s (regRead s rs1 + imm) ((fprRead .Q s.fpu rs2).setWidth 64)) (regRead s rs1 + imm) rs2 :=
      fsq_iff imm rs1
    rw [hread] at h
    exact h

/-! ## Words -/

def Insn.fpAccess : Insn → Option Access
  | .fp (.load op imm rs1 rd) => some (.fload op imm rs1 rd)
  | .fp (.store op imm rs1 rs2) => some (.fstore op imm rs1 rs2)
  | _ => none

/-- the FP load or store the word executes as; the 32-bit forms need the FPU on -/
def fpAccess (s : Machine) (ins : Word) : Option Access :=
  if ¬ fetchAligned s then none
  else if misaCEnabled s ∧ ins.extractLsb' 0 2 ≠ 3 then (compressedOp (ins.setWidth 16)).filter Access.isFp
  else if fpuFsOff s then none
  else (decode ins).fpAccess

def Access.law (a : Access) (s s' : Machine) : Prop :=
  match a with
  | .fload op imm rs1 rd => LoadLaw s s' (regRead s rs1 + imm) op.fmt.bytes rd
  | .fstore op imm rs1 rs2 => StoreLaw s s' (regRead s rs1 + imm) op.fmt.bytes rs2
  | _ => True

def Access.works (a : Access) (s : Machine) : Prop :=
  match a with
  | .fload op imm rs1 rd => op.works s (regRead s rs1 + imm) rd
  | .fstore op imm rs1 rs2 => op.works s (regRead s rs1 + imm) rs2
  | _ => True

section
variable {s s' : Machine} {a : Access}

theorem Access.exec_law (a : Access) (s : Machine) : a.law s (a.exec s) ↔ a.works s := by
  cases a with
  | load op imm rs1 rd => exact Iff.rfl
  | store op imm rs2 rs1 => exact Iff.rfl
  | fload op imm rs1 rd => exact op.exec_law s imm rs1 rd
  | fstore op imm rs1 rs2 => exact op.exec_law s imm rs1 rs2

theorem AccessLaw.withPc {access : MmuAccess} {vaddr : Word} {n : ℕ} {moves : (ℕ → Word) → Prop} (pc : Word) :
    AccessLaw s { s' with pc := pc } access vaddr n moves ↔ AccessLaw s s' access vaddr n moves := by
  constructor
  · rintro ⟨hquiet, hmoved, hfault⟩
    exact ⟨hquiet, hmoved, fun i hi hnone => ⟨(hfault i hi hnone).once, (hfault i hi hnone).mem, (hfault i hi hnone).fpr⟩⟩
  · rintro ⟨hquiet, hmoved, hfault⟩
    exact ⟨hquiet, hmoved, fun i hi hnone => ⟨(hfault i hi hnone).once, (hfault i hi hnone).mem, (hfault i hi hnone).fpr⟩⟩

/-- the law does not look at pc -/
theorem Access.law_pc (pc : Word) : a.law s { s' with pc := pc } ↔ a.law s s' := by
  cases a with
  | load op imm rs1 rd => exact Iff.rfl
  | store op imm rs2 rs1 => exact Iff.rfl
  | fload op imm rs1 rd => exact AccessLaw.withPc pc
  | fstore op imm rs1 rs2 => exact AccessLaw.withPc pc

/-- **FP accesses, exactly.** -/
theorem fp_access_iff [SoftFloat] {ins : Word} (h : fpAccess s ins = some a) :
    (∃ s', exec s ins = .ok s' ∧ a.law s s') ↔ a.works s := by
  unfold fpAccess at h
  split_ifs at h with ha hc hoff
  · have hop := (Option.filter_eq_some_iff.1 h).1
    obtain ⟨pc, hpc⟩ := cAccess_pc s a.exec
    rw [exec_compressed ha hc.1 hc.2, execCInsn_op hop, hpc, ← a.exec_law s, ← Access.law_pc pc]
    simp
  · have hexec : exec s ins = .ok (a.exec s) := by
      rw [exec_decode ha hc]
      cases hd : decode ins with
      | fp i =>
        rw [hd] at h
        rw [Insn.run, if_neg hoff]
        cases i with
        | load op imm rs1 rd => obtain rfl := Option.some.inj h; rfl
        | store op imm rs1 rs2 => obtain rfl := Option.some.inj h; rfl
        | _ => cases h
      | _ =>
        rw [hd] at h
        cases h
    rw [hexec, ← a.exec_law s]
    simp

end

/-- a supervisor with the FPU on and no page mapped -/
def fpPagedMachine : Machine :=
  let s := pagedMachine prvSupervisor fun _ => 0
  { s with csr := Function.update s.csr csrMstatus (1#32 <<< 13) }

/-- FLW f1, 0(x0) -/
theorem fp_access_flw :
    let _ : SoftFloat := noFloat
    fpAccess fpPagedMachine 0x00002087 = some (.fload .flw 0 0 1) ∧
      ((∃ s', exec fpPagedMachine 0x00002087 = .ok s' ∧ (Access.fload .flw 0 0 1).law fpPagedMachine s') ↔
        (Access.fload .flw 0 0 1).works fpPagedMachine) :=
  ⟨by decide, @fp_access_iff _ _ noFloat _ (by decide)⟩

/-- it page-faults, and leaves the boxed 0 in f1, which held 0 -/
theorem fp_load_fault_writes :
    ¬ ∃ s', @exec noFloat fpPagedMachine 0x00002087 = .ok s' ∧ (Access.fload .flw 0 0 1).law fpPagedMachine s' := by
  rintro ⟨s', hs', hlaw⟩
  have hrun : (@exec noFloat fpPagedMachine 0x00002087).toOption.map (fun t => t.fpu.fpr 1) = some (box .S 0) := by decide
  have hfpr := congrFun (hlaw.fault 0 (by decide) (by decide)).fpr 1
  rw [hs'] at hrun
  have hbox : s'.fpu.fpr 1 = box .S 0 := Option.some.inj hrun
  exact absurd (hbox.symm.trans hfpr) (by decide)

end RiscvEmu
