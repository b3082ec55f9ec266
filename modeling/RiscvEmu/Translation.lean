/-
SV32 translation in mmu.h against the Sv32 of the privileged architecture.

Page tables lie in plain RAM, and their valid entries have no reserved encoding and no page number beyond 32-bit
addresses (`PageTables`). Results:
- `mmuWalk_eq_find`: the walk ends at the leaf that `Sv32.find` finds, and checks it with `mmuGrants`;
- `mmuGrants_eq_permits`: for loads and stores those checks are the specification's;
- `data_translation_eq_sv32`: loads and stores translate as Sv32 does;
- `fetch_translation_eq_sv32_iff`: fetches do except that SUM lets S-mode execute user pages.
-/
import RiscvEmu.Lib.Sv32
import RiscvEmu.Init
import RiscvEmu.Status

namespace RiscvEmu

open Bytes Sv32

/-! ## Page tables in memory -/

def MmuAccess.sv32 : MmuAccess → Access
  | .fetch => .fetch
  | .load => .load
  | .store => .store

/-- the fields of mstatus, its MPP being the code of mpp -/
def sv32Status (s : Machine) (mpp : Mode) : Status where
  mprv := (s.csr csrMstatus).getLsbD 17
  mpp := mpp
  sum := (s.csr csrMstatus).getLsbD 18
  mxr := (s.csr csrMstatus).getLsbD 19

/-- the word of main memory at a physical address -/
def ramPte (s : Machine) (a : ℕ) : Pte := loadLE s.mainMemory (BitVec.ofNat 32 a) 4

/-- a valid entry is no reserved encoding and points into 32-bit addresses -/
def GoodPte (p : Pte) : Prop := p.v = true → p.reserved = false ∧ p.ppn < 2 ^ 20

/-- the 1024 entries at a lie in plain RAM -/
structure TableAt (s : Machine) (a : ℕ) : Prop where
  ram : ∀ i < 2 ^ 10, isRam32 (BitVec.ofNat 32 (a + 4 * i))
  good : ∀ i < 2 ^ 10, GoodPte (ramPte s (a + 4 * i))

structure PageTables (s : Machine) : Prop where
  rootPpn : ((s.csr csrSatp).extractLsb' 0 22).toNat < 2 ^ 20
  root : TableAt s (rootAddr (s.csr csrSatp))
  second : ∀ i < 2 ^ 10, (ramPte s (rootAddr (s.csr csrSatp) + 4 * i)).v = true →
    (ramPte s (rootAddr (s.csr csrSatp) + 4 * i)).leaf = false →
      TableAt s ((ramPte s (rootAddr (s.csr csrSatp) + 4 * i)).ppn * pageSize)

/-! ## Entries, field by field -/

section
variable (p : Pte)

theorem pteV_eq_zero : p &&& pteV = 0 ↔ p.v = false := Bits.and_bit_eq_zero p (k := 0)
theorem pteR_eq_zero : p &&& pteR = 0 ↔ p.r = false := Bits.and_bit_eq_zero p (k := 1)
theorem pteW_eq_zero : p &&& pteW = 0 ↔ p.w = false := Bits.and_bit_eq_zero p (k := 2)
theorem pteX_eq_zero : p &&& pteX = 0 ↔ p.x = false := Bits.and_bit_eq_zero p (k := 3)
theorem pteU_eq_zero : p &&& pteU = 0 ↔ p.u = false := Bits.and_bit_eq_zero p (k := 4)
theorem pteA_eq_zero : p &&& pteA = 0 ↔ p.a = false := Bits.and_bit_eq_zero p (k := 6)
theorem pteD_eq_zero : p &&& pteD = 0 ↔ p.d = false := Bits.and_bit_eq_zero p (k := 7)

/-- the source's test for a leaf; it differs from the specification's on the reserved encoding only -/
theorem pteRwx_eq_zero : p &&& (pteR ||| pteW ||| pteX) = 0 ↔ p.w = false ∧ p.leaf = false := by
  rw [BitVec.and_or_distrib_left, BitVec.and_or_distrib_left]
  calc p &&& pteR ||| p &&& pteW ||| p &&& pteX = 0
      ↔ (p &&& pteR = 0 ∧ p &&& pteW = 0) ∧ p &&& pteX = 0 :=
        BitVec.or_eq_zero_iff.trans (and_congr_left' BitVec.or_eq_zero_iff)
    _ ↔ (p.r = false ∧ p.w = false) ∧ p.x = false := by rw [pteR_eq_zero, pteW_eq_zero, pteX_eq_zero]
    _ ↔ p.w = false ∧ p.leaf = false := by simp only [Pte.leaf, Bool.or_eq_false_iff]; tauto

theorem ppn_eq : p.ppn = p.toNat / 2 ^ 10 := by
  have := p.isLt
  rw [Pte.ppn, BitVec.extractLsb'_toNat, Nat.shiftRight_eq_div_pow, Nat.mod_eq_of_lt (by omega)]

theorem superpage_aligned_iff : p >>> ptePpnShift &&& 0x3FF = 0 ↔ p.aligned 1 = true := by
  rw [Pte.aligned, decide_eq_true_iff, ppn_eq, BitVec.toNat_eq, BitVec.toNat_and, BitVec.toNat_ushiftRight,
    Nat.shiftRight_eq_div_pow, show (0x3FF : Word).toNat = 2 ^ 10 - 1 from rfl, Nat.and_two_pow_sub_one_eq_mod]
  rfl

end

/-- the page of an entry, as the source computes its address -/
theorem page_eq (p : Pte) : (p >>> ptePpnShift) <<< pgshift = BitVec.ofNat 32 (p.ppn * pageSize) := by
  apply BitVec.eq_of_toNat_eq
  rw [BitVec.toNat_shiftLeft, BitVec.toNat_ushiftRight, BitVec.toNat_ofNat, Nat.shiftLeft_eq,
    Nat.shiftRight_eq_div_pow, ppn_eq]
  rfl

theorem root_eq (s : Machine) : mmuSatpRootPpn s <<< pgshift = BitVec.ofNat 32 (rootAddr (s.csr csrSatp)) := by
  have hppn : (mmuSatpRootPpn s).toNat = (s.csr csrSatp).toNat % 2 ^ 22 := by
    rw [mmuSatpRootPpn, csrRead_satp]
    exact Bits.toNat_and_mask _ _ rfl
  apply BitVec.eq_of_toNat_eq
  rw [BitVec.toNat_shiftLeft, hppn, BitVec.toNat_ofNat, Nat.shiftLeft_eq, rootAddr, BitVec.extractLsb'_toNat]
  rfl

theorem vpn1_eq (va : Word) : va >>> 22 &&& 0x3FF = BitVec.ofNat 32 (vpn va 1) := by
  have := va.isLt
  apply BitVec.eq_of_toNat_eq
  rw [BitVec.toNat_and, BitVec.toNat_ushiftRight, BitVec.toNat_ofNat, Nat.shiftRight_eq_div_pow,
    show (0x3FF : Word).toNat = 2 ^ 10 - 1 from rfl, Nat.and_two_pow_sub_one_eq_mod, vpn]
  omega

theorem vpn0_eq (va : Word) : va >>> 12 &&& 0x3FF = BitVec.ofNat 32 (vpn va 0) := by
  apply BitVec.eq_of_toNat_eq
  rw [BitVec.toNat_and, BitVec.toNat_ushiftRight, BitVec.toNat_ofNat, Nat.shiftRight_eq_div_pow,
    show (0x3FF : Word).toNat = 2 ^ 10 - 1 from rfl, Nat.and_two_pow_sub_one_eq_mod, vpn]
  omega

theorem vpn_lt (va : Word) (i : ℕ) : vpn va i < 2 ^ 10 := Nat.mod_lt _ (by decide)

/-- the address of an entry, as the source computes it -/
theorem entry_eq (va : Word) (i a : ℕ) :
    BitVec.ofNat 32 a + BitVec.ofNat 32 (vpn va i) * 4 = BitVec.ofNat 32 (entryAddr va i a) := by
  rw [entryAddr, Nat.mul_comm 4, BitVec.ofNat_add, BitVec.ofNat_mul]
  rfl

/-- the physical address of a superpage -/
theorem superpageAddr_eq {p : Pte} (va : Word) (h : p.aligned 1 = true) :
    (p >>> ptePpnShift) <<< pgshift ||| va &&& 0x3FFFFF = BitVec.ofNat 32 (leafAddr va 1 p) := by
  simp only [Pte.aligned, decide_eq_true_iff] at h
  obtain ⟨q, hq⟩ := Nat.dvd_of_mod_eq_zero h
  apply BitVec.eq_of_toNat_eq
  rw [page_eq, BitVec.toNat_or, BitVec.toNat_and, BitVec.toNat_ofNat, BitVec.toNat_ofNat,
    show (0x3FFFFF : Word).toNat = 2 ^ 22 - 1 from rfl, Nat.and_two_pow_sub_one_eq_mod, leafAddr, hq]
  have hlow : va.toNat % 2 ^ 22 < 2 ^ 22 := Nat.mod_lt _ (by decide)
  have hpage : 2 ^ (10 * 1) * q * pageSize % 2 ^ 32 = 2 ^ 22 * (q % 2 ^ 10) := by
    simp only [pageSize]; omega
  rw [hpage, ← Nat.two_pow_add_eq_or_of_lt hlow]
  simp only [Nat.mul_one]
  omega

/-- the physical address of a page -/
theorem pageAddr_eq (p : Pte) (va : Word) :
    (p >>> ptePpnShift) <<< pgshift ||| va &&& 0xFFF = BitVec.ofNat 32 (leafAddr va 0 p) := by
  apply BitVec.eq_of_toNat_eq
  rw [page_eq, BitVec.toNat_or, BitVec.toNat_and, BitVec.toNat_ofNat, BitVec.toNat_ofNat,
    show (0xFFF : Word).toNat = 2 ^ 12 - 1 from rfl, Nat.and_two_pow_sub_one_eq_mod, leafAddr]
  have hlow : va.toNat % 2 ^ 12 < 2 ^ 12 := Nat.mod_lt _ (by decide)
  have hpage : p.ppn * pageSize % 2 ^ 32 = 2 ^ 12 * (p.ppn % 2 ^ 20) := by
    simp only [pageSize]; omega
  rw [hpage, ← Nat.two_pow_add_eq_or_of_lt hlow]
  simp only [Nat.mul_zero]
  omega

/-! ## The walk -/

/-- the checks of the source on the leaf reached at a level -/
def mmuGrants (s : Machine) (epriv : Priv) (access : MmuAccess) (l : ℕ × Pte) : Bool :=
  l.2.aligned l.1 && mmuCheckPte s l.2 epriv access

/-- the physical address the source forms from a leaf, or none -/
def mmuLeaf (s : Machine) (vaddr : Word) (epriv : Priv) (access : MmuAccess) (l : ℕ × Pte) : Option Word :=
  if mmuGrants s epriv access l then some (BitVec.ofNat 32 (leafAddr vaddr l.1 l.2)) else none

/-- an entry of a table in RAM is read without touching a device -/
theorem TableAt.read {s : Machine} {a : ℕ} (h : TableAt s a) (vaddr : Word) (i : ℕ) :
    memRead32Unsigned s (BitVec.ofNat 32 (entryAddr vaddr i a)) = (ramPte s (entryAddr vaddr i a), s.dev) :=
  memRead32_ram (h.ram _ (vpn_lt vaddr i))

/-- the source's tests on a valid entry without reserved encoding are the specification's -/
theorem entry_cases {p : Pte} (hg : GoodPte p) {α : Type} (fault leaf next : α) :
    (if p &&& pteV = 0 then fault else if p &&& (pteR ||| pteW ||| pteX) = 0 then next else leaf) =
      if !p.v || p.reserved then fault else if p.leaf then leaf else next := by
  cases hv : p.v with
  | false =>
    rw [if_pos ((pteV_eq_zero p).2 hv)]
    simp only [Bool.not_false, Bool.true_or, if_true]
  | true =>
    have hr := (hg hv).1
    have hw : p.leaf = false → p.w = false := by
      intro hl
      simp only [Pte.leaf, Bool.or_eq_false_iff] at hl
      simpa [Pte.reserved, hl.1] using hr
    rw [if_neg (by rw [pteV_eq_zero, hv]; decide)]
    simp only [Bool.not_true, hr, Bool.or_false, Bool.false_eq_true, if_false]
    cases hl : p.leaf with
    | false => rw [if_pos ((pteRwx_eq_zero p).2 ⟨hw hl, hl⟩), if_neg Bool.false_ne_true]
    | true => rw [if_neg (fun h => by rw [pteRwx_eq_zero, hl] at h; exact absurd h.2 (by decide)), if_pos rfl]

/-- the leaf of the first level -/
theorem mmuLeaf_one (s : Machine) (vaddr : Word) (epriv : Priv) (access : MmuAccess) (p : Pte) :
    (if p >>> ptePpnShift &&& 0x3FF ≠ 0 then none
      else if mmuCheckPte s p epriv access then some ((p >>> ptePpnShift) <<< pgshift ||| vaddr &&& 0x3FFFFF)
      else none) = mmuLeaf s vaddr epriv access (1, p) := by
  unfold mmuLeaf mmuGrants
  cases ha : p.aligned 1 with
  | false => rw [if_pos (by rw [ne_eq, superpage_aligned_iff, ha]; decide)]; simp
  | true => rw [if_neg (not_not.2 ((superpage_aligned_iff p).2 ha)), superpageAddr_eq vaddr ha]; simp

/-- the leaf of the second level -/
theorem mmuLeaf_zero (s : Machine) (vaddr : Word) (epriv : Priv) (access : MmuAccess) (p : Pte) :
    (if mmuCheckPte s p epriv access then some ((p >>> ptePpnShift) <<< pgshift ||| vaddr &&& 0xFFF) else none) =
      mmuLeaf s vaddr epriv access (0, p) := by
  have ha : p.aligned 0 = true := by simp [Pte.aligned, Nat.mod_one]
  rw [pageAddr_eq, mmuLeaf, mmuGrants, ha, Bool.true_and]

/-- **The walk.** It ends at the leaf the specification finds, and changes no device. -/
theorem mmuWalk_eq_find {s : Machine} (ht : PageTables s) (vaddr : Word) (access : MmuAccess)
    (hv : mmuVmActive s (effectivePriv s access) = true) :
    mmuWalk s vaddr access = ((find (ramPte s) vaddr 1 (rootAddr (s.csr csrSatp))).bind
      (mmuLeaf s vaddr (effectivePriv s access) access), s.dev) := by
  have hgood := ht.root.good _ (vpn_lt vaddr 1)
  have hsecond := ht.second _ (vpn_lt vaddr 1)
  have hread := ht.root.read vaddr 1
  have hpair (c : Prop) [Decidable c] (x y : Option Word) :
      (if c then (x, s.dev) else (y, s.dev)) = (if c then x else y, s.dev) := by split_ifs <;> rfl
  rw [← entryAddr] at hgood hsecond
  simp only [mmuWalk, hv, not_true_eq_false, if_false, root_eq, vpn1_eq, vpn0_eq, entry_eq]
  rw [hread]
  simp only [find]
  generalize ramPte s (entryAddr vaddr 1 (rootAddr (s.csr csrSatp))) = p at *
  simp only [ne_eq, ite_not, entry_cases hgood]
  simp only [← ite_not (p >>> ptePpnShift &&& 0x3FF = 0), hpair, ← ne_eq, mmuLeaf_one]
  by_cases h1 : (!p.v || p.reserved) = true
  · simp only [h1, if_true]
    rfl
  by_cases h2 : p.leaf = true
  · simp only [h1, h2, Bool.false_eq_true, if_false, if_true]
    rfl
  -- a pointer: the same tests on the entry of the second level
  have hvalid : p.v = true := by
    cases h : p.v with
    | false => simp [h] at h1
    | true => rfl
  have htable := hsecond hvalid (by simpa using h2)
  have hread0 : memRead32Unsigned { s with dev := s.dev } (BitVec.ofNat 32 (entryAddr vaddr 0 (p.ppn * pageSize))) =
      (ramPte s (entryAddr vaddr 0 (p.ppn * pageSize)), s.dev) := htable.read vaddr 0
  have hgood0 := htable.good _ (vpn_lt vaddr 0)
  rw [← entryAddr] at hgood0
  simp only [h1, h2, Bool.false_eq_true, if_false, page_eq p, entry_eq, hread0]
  generalize ramPte s (entryAddr vaddr 0 (p.ppn * pageSize)) = q at *
  rw [entry_cases hgood0]
  simp only [hpair, mmuLeaf_zero]
  split_ifs <;> rfl

/-- the leaf found lies below 4 GiB -/
theorem PageTables.find_ppn {s : Machine} (ht : PageTables s) {vaddr : Word} {l : ℕ × Pte}
    (h : find (ramPte s) vaddr 1 (rootAddr (s.csr csrSatp)) = some l) : l.2.ppn < 2 ^ 20 := by
  have hl := (find_leaf h).2.1
  have hgood := ht.root.good _ (vpn_lt vaddr 1)
  have hsecond := ht.second _ (vpn_lt vaddr 1)
  rw [← entryAddr] at hgood hsecond
  simp only [find] at h
  generalize ramPte s (entryAddr vaddr 1 (rootAddr (s.csr csrSatp))) = p at *
  split_ifs at h with h1 h2 h3 h4
  · obtain rfl := Option.some.inj h
    exact (hgood hl).2
  · obtain rfl := Option.some.inj h
    have hvalid : p.v = true := by
      cases h : p.v with
      | false => simp [h] at h1
      | true => rfl
    exact ((hsecond hvalid (by simpa using h2)).good _ (vpn_lt vaddr 0) hl).2

theorem leafAddr_lt {vaddr : Word} {l : ℕ × Pte} (hi : l.1 ≤ 1) (h : l.2.ppn < 2 ^ 20) :
    leafAddr vaddr l.1 l.2 < 2 ^ 32 := by
  obtain ⟨i, p⟩ := l
  simp only [leafAddr] at hi h ⊢
  interval_cases i <;> simp only [Nat.mul_zero, Nat.mul_one] <;> omega

/-! ## Privileges -/

section
variable {s : Machine} {priv mpp : Mode}

theorem effectivePriv_eq (hp : s.privilege = priv.code) (hm : mppOf (s.csr csrMstatus) = mpp.code)
    (access : MmuAccess) :
    effectivePriv s access = (effectiveMode (sv32Status s mpp) priv access.sv32).code := by
  have hmprv : s.csr csrMstatus &&& mstatusMprv ≠ 0 ↔ (s.csr csrMstatus).getLsbD 17 = true :=
    Bits.and_bit_ne_zero _
  have hdata : mmuEffectiveDpriv s = if (s.csr csrMstatus).getLsbD 17 then mpp.code else priv.code := by
    rw [mmuEffectiveDpriv, csrRead_mstatus, ← hm, ← hp]
    simp only [hmprv]
    rfl
  unfold effectivePriv effectiveMode sv32Status
  rw [hdata, hp]
  generalize (s.csr csrMstatus).getLsbD 17 = mprv
  cases access <;> cases mprv <;> rfl

theorem mmuSatpMode_ne_zero (s : Machine) : mmuSatpMode s ≠ 0 ↔ satpOn (s.csr csrSatp) = true := by
  have hbit : s.csr csrSatp &&& satp32ModeBit ≠ 0 ↔ (s.csr csrSatp).getLsbD 31 = true := by
    rw [show satp32ModeBit = 1#32 <<< 31 by decide, Bits.and_bit_ne_zero]
  rw [mmuSatpMode, csrRead_satp, satpOn, ← hbit]
  by_cases h : s.csr csrSatp &&& satp32ModeBit ≠ 0
  · rw [if_pos h]; exact iff_of_true (by decide) h
  · rw [if_neg h]; exact iff_of_false (by decide) h

theorem Mode.code_eq_machine (m : Mode) : m.code = prvMachine ↔ m = .machine := by
  cases m <;> decide

theorem mmuVmActive_eq (s : Machine) (m : Mode) :
    mmuVmActive s m.code = true ↔ ¬ (m = .machine ∨ satpOn (s.csr csrSatp) = false) := by
  unfold mmuVmActive
  by_cases h : m = .machine
  · rw [if_pos ((Mode.code_eq_machine m).2 h)]
    simp [h]
  · rw [if_neg (fun hc => h ((Mode.code_eq_machine m).1 hc)), decide_eq_true_iff, mmuSatpMode_ne_zero]
    simp [h]

end

/-! ## Checks -/

section
variable (s : Machine) (mpp : Mode) (p : Pte)

theorem pteAllowsAccess_eq (access : MmuAccess) : pteAllowsAccess s p access =
    (allowsAccess (sv32Status s mpp) access.sv32 p && (access.sv32 ≠ .store || p.d)) := by
  have hmxr : s.csr csrMstatus &&& mstatusMxr ≠ 0 ↔ (sv32Status s mpp).mxr = true := Bits.and_bit_ne_zero _
  rw [Bool.eq_iff_iff]
  cases access with
  | fetch => simp only [pteAllowsAccess, ne_eq, pteX_eq_zero]; simp [MmuAccess.sv32, allowsAccess]
  | load =>
    simp only [pteAllowsAccess, csrRead_mstatus, hmxr]
    simp only [ne_eq, pteR_eq_zero, pteX_eq_zero]
    simp [MmuAccess.sv32, allowsAccess]
  | store => simp only [pteAllowsAccess, ne_eq, pteW_eq_zero, pteD_eq_zero]; simp [MmuAccess.sv32, allowsAccess]

/-- the source asks SUM of any supervisor access to a user page, a fetch included -/
theorem pteAllowsPriv_eq {mode : Mode} (hm : mode ≠ .machine) :
    pteAllowsPriv s p mode.code = allowsMode (sv32Status s mpp) mode .load p := by
  have hsum : s.csr csrMstatus &&& mstatusSum ≠ 0 ↔ (sv32Status s mpp).sum = true := Bits.and_bit_ne_zero _
  rw [Bool.eq_iff_iff]
  cases mode with
  | machine => exact absurd rfl hm
  | user =>
    rw [pteAllowsPriv, if_neg (by decide), if_pos (by decide), decide_eq_true_iff, ne_eq, pteU_eq_zero]
    simp [allowsMode]
  | supervisor =>
    rw [pteAllowsPriv, if_pos (by decide), decide_eq_true_iff, csrRead_mstatus, hsum, pteU_eq_zero]
    simp [allowsMode]

/-- **The checks on a leaf.** They are the specification's, with the privilege rule of loads for every access. -/
theorem mmuGrants_eq {mode : Mode} (hm : mode ≠ .machine) (access : MmuAccess) (i : ℕ) :
    mmuGrants s mode.code access (i, p) =
      (allowsAccess (sv32Status s mpp) access.sv32 p && allowsMode (sv32Status s mpp) mode .load p && p.aligned i &&
        marked access.sv32 p) := by
  have ha : decide (p &&& pteA ≠ 0) = p.a := by
    rw [Bool.eq_iff_iff, decide_eq_true_iff, ne_eq, pteA_eq_zero, Bool.not_eq_false]
  rw [mmuGrants, mmuCheckPte, if_neg (fun hc => hm ((Mode.code_eq_machine mode).1 hc)), pteAllowsAccess_eq s mpp,
    pteAllowsPriv_eq s mpp p hm, Bool.decide_and, Bool.decide_and, Bool.decide_eq_true, Bool.decide_eq_true, ha, marked]
  ac_rfl

/-- for loads and stores they are the specification's -/
theorem mmuGrants_eq_permits {mode : Mode} (hm : mode ≠ .machine) {access : MmuAccess} (ha : access ≠ .fetch) (i : ℕ) :
    mmuGrants s mode.code access (i, p) = permits (sv32Status s mpp) mode access.sv32 i p := by
  have hload : allowsMode (sv32Status s mpp) mode .load p = allowsMode (sv32Status s mpp) mode access.sv32 p := by
    cases access with
    | fetch => exact absurd rfl ha
    | load => rfl
    | store => rfl
  rw [mmuGrants_eq s mpp p hm, permits, hload]

end

/-! ## Data -/

/-- mmu_translate answers as the reference does: the address and no change of state, or the page fault on vaddr -/
def TranslatesAs (s : Machine) (vaddr : Word) (access : MmuAccess) : Option ℕ → Prop
  | some pa => pa < 2 ^ 32 ∧ mmuTranslate s vaddr access = (some (BitVec.ofNat 32 pa), s)
  | none =>
    let s' := raiseException s (pageFaultCause access) vaddr
    mmuTranslate s vaddr access = (none, s') ∧
      s'.csr (causeOf s'.privilege) = pageFaultCause access ∧ s'.csr (tvalOf s'.privilege) = vaddr

/-- a page fault leaves its cause and the address in the registers of the mode it goes to -/
theorem raiseException_names (s : Machine) (cause tval : Word) :
    (raiseException s cause tval).csr (causeOf (raiseException s cause tval).privilege) = cause ∧
      (raiseException s cause tval).csr (tvalOf (raiseException s cause tval).privilege) = tval := by
  simp only [raiseException_eq_pc, raiseExceptionPc_csr, raiseExceptionPc_privilege]
  exact ⟨trapCsr_cause .., trapCsr_tval ..⟩

/-- the answer of mmu_translate from that of the walk -/
theorem TranslatesAs.of_walk {s : Machine} {vaddr : Word} {access : MmuAccess} {r : Option ℕ}
    (h : mmuWalk s vaddr access = (r.map (BitVec.ofNat 32), s.dev)) (hr : ∀ pa, r = some pa → pa < 2 ^ 32) :
    TranslatesAs s vaddr access r := by
  cases r with
  | some pa => exact ⟨hr pa rfl, mmuTranslate_some h⟩
  | none => exact ⟨mmuTranslate_none h, raiseException_names s _ _⟩

/-- where translation is off, the address stands for itself -/
theorem TranslatesAs.bare {s : Machine} {vaddr : Word} {access : MmuAccess}
    (h : mmuVmActive s (effectivePriv s access) = false) : TranslatesAs s vaddr access (some vaddr.toNat) := by
  refine .of_walk ?_ ?_
  · simp [mmuWalk, h]
  · intro pa hpa
    rw [← Option.some.inj hpa]
    exact vaddr.isLt

/-- **Data translation is Sv32.** -/
theorem data_translation_eq_sv32 (s : Machine) (priv mpp : Mode) (hp : s.privilege = priv.code)
    (hm : mppOf (s.csr csrMstatus) = mpp.code) (ht : mmuSatpMode s ≠ 0 → PageTables s) (vaddr : Word)
    (access : MmuAccess) (ha : access ≠ .fetch) :
    TranslatesAs s vaddr access
      (Sv32.translate (ramPte s) (s.csr csrSatp) (sv32Status s mpp) priv access.sv32 vaddr) := by
  have hpriv := effectivePriv_eq hp hm access
  have hactive := mmuVmActive_eq s (effectiveMode (sv32Status s mpp) priv access.sv32)
  rw [Sv32.translate]
  generalize effectiveMode (sv32Status s mpp) priv access.sv32 = mode at *
  split_ifs with hb
  · refine .bare ?_
    rw [hpriv, ← Bool.not_eq_true, hactive]
    exact not_not.2 hb
  · have hmode : mode ≠ .machine := fun h => hb (Or.inl h)
    have htables := ht ((mmuSatpMode_ne_zero s).2 (by simpa using fun h => hb (Or.inr h)))
    refine .of_walk ?_ ?_
    · rw [mmuWalk_eq_find htables vaddr access (by rw [hpriv]; exact hactive.2 hb), hpriv]
      cases hf : find (ramPte s) vaddr 1 (rootAddr (s.csr csrSatp)) with
      | none => rfl
      | some l =>
        simp only [Option.bind_some, mmuLeaf, grant, mmuGrants_eq_permits s mpp l.2 hmode ha l.1]
        split_ifs <;> rfl
    · intro pa hpa
      obtain ⟨l, hf, hg⟩ := Option.bind_eq_some_iff.1 hpa
      rw [grant] at hg
      split_ifs at hg
      rw [← Option.some.inj hg]
      exact leafAddr_lt (find_leaf hf).1 (htables.find_ppn hf)

/-! ## Fetches -/

/-- the leaf for pc lets the mode execute: aligned, with V, X and A, and U exactly in U-mode -/
def FetchLeaf (s : Machine) (mode : Mode) (pc : Word) : Prop :=
  ∃ i p, find (ramPte s) pc 1 (rootAddr (s.csr csrSatp)) = some (i, p) ∧
    p.aligned i = true ∧ p.v = true ∧ p.x = true ∧ p.a = true ∧ (p.u = true ↔ mode = .user)

/-- S-mode is about to execute a user page that SUM opens to its loads -/
def sumOpensFetch (s : Machine) (mode : Mode) (pc : Word) : Prop :=
  mode = .supervisor ∧ (s.csr csrMstatus).getLsbD 18 = true ∧
    ∃ i p, find (ramPte s) pc 1 (rootAddr (s.csr csrSatp)) = some (i, p) ∧
      p.aligned i = true ∧ p.x = true ∧ p.a = true ∧ p.u = true

/-- s with MPRV and MPP as given -/
def withMprv (s : Machine) (mprv : Bool) (mpp : Priv) : Machine :=
  setCsr s csrMstatus (Bits.putBit (Bits.putBit (Bits.putBit (s.csr csrMstatus) 17 mprv) 11 (mpp.getLsbD 0)) 12
    (mpp.getLsbD 1))

/-- the law of fetch translation: who may execute what, where it lands, and no influence of MPRV and MPP -/
structure FetchSv32 (s : Machine) (mode : Mode) (pc : Word) : Prop where
  succeeds : (mmuTranslate s pc .fetch).1.isSome = true ↔ FetchLeaf s mode pc
  lands : ∀ pa, (mmuTranslate s pc .fetch).1 = some pa →
    ∃ l, find (ramPte s) pc 1 (rootAddr (s.csr csrSatp)) = some l ∧ pa = BitVec.ofNat 32 (leafAddr pc l.1 l.2)
  mprv : ∀ mprv mpp, (mmuTranslate (withMprv s mprv mpp) pc .fetch).1 = (mmuTranslate s pc .fetch).1

section
variable {s : Machine} {mode : Mode}

theorem mmuTranslate_fst (s : Machine) (vaddr : Word) (access : MmuAccess) :
    (mmuTranslate s vaddr access).1 = (mmuWalk s vaddr access).1 := by
  rw [mmuTranslate]
  rcases mmuWalk s vaddr access with ⟨_ | pa, d⟩ <;> rfl

theorem fetch_answer (hm : mode ≠ .machine) (hp : s.privilege = mode.code) (hs : mmuSatpMode s ≠ 0)
    (ht : PageTables s) (pc : Word) : (mmuTranslate s pc .fetch).1 =
      (find (ramPte s) pc 1 (rootAddr (s.csr csrSatp))).bind (mmuLeaf s pc mode.code .fetch) := by
  have hactive : mmuVmActive s (effectivePriv s .fetch) = true := by
    rw [effectivePriv, if_pos rfl, hp, mmuVmActive_eq, ← Bool.not_eq_true, ← mmuSatpMode_ne_zero]
    exact fun h => h.elim hm (absurd hs)
  rw [mmuTranslate_fst, mmuWalk_eq_find ht pc .fetch hactive, effectivePriv, if_pos rfl, hp]

/-- the leaf found is one the source lets the mode execute -/
theorem fetch_isSome (hm : mode ≠ .machine) (hp : s.privilege = mode.code) (hs : mmuSatpMode s ≠ 0)
    (ht : PageTables s) (pc : Word) : (mmuTranslate s pc .fetch).1.isSome = true ↔
      ∃ i p, find (ramPte s) pc 1 (rootAddr (s.csr csrSatp)) = some (i, p) ∧ mmuGrants s mode.code .fetch (i, p) = true := by
  rw [fetch_answer hm hp hs ht]
  cases hf : find (ramPte s) pc 1 (rootAddr (s.csr csrSatp)) with
  | none => simp
  | some l =>
    simp only [Option.bind_some, mmuLeaf, Option.isSome_ite, Option.some.injEq]
    refine ⟨fun h => ⟨l.1, l.2, rfl, h⟩, ?_⟩
    intro h
    obtain ⟨i, p, rfl, hg⟩ := h
    exact hg

theorem mmuGrants_fetch (s : Machine) {mode : Mode} (hm : mode ≠ .machine) (i : ℕ) (p : Pte) :
    mmuGrants s mode.code .fetch (i, p) = true ↔ p.aligned i = true ∧ p.x = true ∧ p.a = true ∧
      ((p.u = true ↔ mode = .user) ∨ mode = .supervisor ∧ (s.csr csrMstatus).getLsbD 18 = true ∧ p.u = true) := by
  rw [mmuGrants_eq s .user p hm]
  cases mode with
  | machine => exact absurd rfl hm
  | user => simp [allowsAccess, allowsMode, marked, MmuAccess.sv32]; tauto
  | supervisor =>
    cases hu : p.u with
    | false => simp [allowsAccess, allowsMode, marked, MmuAccess.sv32, hu]; tauto
    | true => simp [allowsAccess, allowsMode, marked, MmuAccess.sv32, sv32Status, hu]; tauto

theorem withMprv_tables (ht : PageTables s) (mprv : Bool) (mpp : Priv) : PageTables (withMprv s mprv mpp) :=
  ⟨ht.rootPpn, ⟨ht.root.ram, ht.root.good⟩, fun i hi hv hl => ⟨(ht.second i hi hv hl).ram, (ht.second i hi hv hl).good⟩⟩

theorem withMprv_sum (s : Machine) (mprv : Bool) (mpp : Priv) :
    ((withMprv s mprv mpp).csr csrMstatus).getLsbD 18 = (s.csr csrMstatus).getLsbD 18 := by
  simp only [withMprv, setCsr, Function.update_self, Bits.getLsbD_putBit _ _ _ (show 18 < 32 by decide)]
  rfl

end

/-- **Fetch translation, exactly.** The law holds unless SUM opens a user page to S-mode's fetch. -/
theorem fetch_translation_eq_sv32_iff (s : Machine) (mode : Mode) (hm : mode ≠ .machine)
    (hp : s.privilege = mode.code) (hs : mmuSatpMode s ≠ 0) (ht : PageTables s) (pc : Word) :
    FetchSv32 s mode pc ↔ ¬ sumOpensFetch s mode pc := by
  have hsome := fetch_isSome hm hp hs ht pc
  simp only [mmuGrants_fetch s hm] at hsome
  refine ⟨?_, ?_⟩
  · intro h hopen
    obtain ⟨rfl, hsum, i, p, hf, ha, hx, hpa, hu⟩ := hopen
    obtain ⟨j, q, hf', -, -, -, -, hu'⟩ := h.succeeds.1 (hsome.2 ⟨i, p, hf, ha, hx, hpa, Or.inr ⟨rfl, hsum, hu⟩⟩)
    rw [hf] at hf'
    obtain ⟨rfl, rfl⟩ := Prod.mk.inj (Option.some.inj hf')
    exact absurd (hu'.1 hu) (by decide)
  · intro hclosed
    refine ⟨?_, ?_, ?_⟩
    · rw [hsome]
      refine ⟨?_, ?_⟩
      · intro h
        obtain ⟨i, p, hf, ha, hx, hpa, hu | ⟨hmode, hsum, hu⟩⟩ := h
        · exact ⟨i, p, hf, ha, (find_leaf hf).2.1, hx, hpa, hu⟩
        · exact absurd ⟨hmode, hsum, i, p, hf, ha, hx, hpa, hu⟩ hclosed
      · intro h
        obtain ⟨i, p, hf, ha, -, hx, hpa, hu⟩ := h
        exact ⟨i, p, hf, ha, hx, hpa, Or.inl hu⟩
    · intro pa hpa
      rw [fetch_answer hm hp hs ht] at hpa
      obtain ⟨l, hf, hl⟩ := Option.bind_eq_some_iff.1 hpa
      rw [mmuLeaf] at hl
      split_ifs at hl
      exact ⟨l, hf, (Option.some.inj hl).symm⟩
    · intro mprv mpp
      rw [fetch_answer hm hp hs ht, fetch_answer (s := withMprv s mprv mpp) hm hp hs (withMprv_tables ht mprv mpp)]
      have hleaf : mmuLeaf (withMprv s mprv mpp) pc mode.code .fetch = mmuLeaf s pc mode.code .fetch := by
        funext l
        have hg : mmuGrants (withMprv s mprv mpp) mode.code .fetch l = mmuGrants s mode.code .fetch l := by
          rw [Bool.eq_iff_iff, mmuGrants_fetch _ hm, mmuGrants_fetch _ hm, withMprv_sum]
        rw [mmuLeaf, mmuLeaf, hg]
      rw [hleaf]
      rfl

/-! ## A machine under translation -/

/-- main memory from 2 GiB on is behind no device window -/
theorem isRam32_high {a : ℕ} (hlo : 0x80000000 ≤ a) (hhi : a < memSize - 3) : isRam32 (BitVec.ofNat 32 a) := by
  have ha : (BitVec.ofNat 32 a).toNat = a := by
    rw [BitVec.toNat_ofNat, Nat.mod_eq_of_lt (by simp only [memSize] at hhi; omega)]
  refine ⟨?_, ?_, ?_, by rw [ha]; exact hhi⟩
  all_goals
    intro h
    have hlt := BitVec.lt_def.1 h.2
    rw [ha] at hlt
    exact absurd hlt (by simp [clintBase, clintSize, uartBase, uartNregs, plicBase, plicSize]; omega)

/-- a memory of copies of one word -/
def filled (v : Word) : Word → Byte := fun a => byte (n := 4) v (a.toNat % 4)

theorem loadLE_filled (v a : Word) (ha : a.toNat % 4 = 0) : loadLE (filled v) a 4 = v := by
  apply ext_byte
  intro k hk
  rw [byte_loadLE _ _ _ _ hk, filled]
  congr 1
  rw [BitVec.toNat_add, BitVec.toNat_ofNat]
  omega

/-- S-mode with SUM and MXR set, its page tables at 2 GiB, memory filled with one entry -/
def superpageMachine (entry : Word) : Machine :=
  { machineInit (fun _ => 0) (filled entry) 0 with
    privilege := prvSupervisor
    csr := Function.update (Function.update (fun _ => 0) csrSatp 0x80080000) csrMstatus (mstatusSum ||| mstatusMxr) }

theorem superpageMachine_satp (entry : Word) : (superpageMachine entry).csr csrSatp = 0x80080000 := rfl

theorem superpageMachine_pte (entry : Word) (i : ℕ) :
    ramPte (superpageMachine entry) (rootAddr 0x80080000 + 4 * i) = entry := by
  rw [show rootAddr 0x80080000 = 0x80000000 by decide]
  refine loadLE_filled entry _ ?_
  rw [BitVec.toNat_ofNat]
  omega

theorem superpageMachine_tables {entry : Pte} (hg : GoodPte entry) (hl : entry.leaf = true) :
    PageTables (superpageMachine entry) := by
  refine ⟨by rw [superpageMachine_satp]; decide, ⟨fun i hi => ?_, fun i hi => ?_⟩, fun i hi _ hn => ?_⟩
  · rw [superpageMachine_satp, show rootAddr 0x80080000 = 0x80000000 by decide]
    exact isRam32_high (Nat.le_add_right _ _) (by simp only [memSize]; omega)
  · rw [superpageMachine_satp, superpageMachine_pte entry i]
    exact hg
  · rw [superpageMachine_satp, superpageMachine_pte entry i, hl] at hn
    exact absurd hn (by decide)

/-- a load in S-mode of a word of a user superpage, with SUM -/
theorem data_translation_superpage :
    mmuTranslate (superpageMachine 0xDF) 0x00001234 .load = (some 0x00001234, superpageMachine 0xDF) :=
  (data_translation_eq_sv32 (superpageMachine 0xDF) .supervisor .user rfl rfl
    (fun _ => superpageMachine_tables (fun _ => ⟨rfl, by decide⟩) rfl) 0x00001234 .load (by decide)).2

/-- a fetch there succeeds, and no leaf lets S-mode execute -/
theorem fetch_from_user_page : ¬ FetchSv32 (superpageMachine 0xDF) .supervisor 0x00001234 := by
  intro h
  obtain ⟨i, p, hf, -, -, -, -, hu⟩ := h.succeeds.1 (by decide)
  have hp : find (ramPte (superpageMachine 0xDF)) 0x00001234 1 (rootAddr ((superpageMachine 0xDF).csr csrSatp)) =
      some (1, 0xDF) := by decide
  rw [hp] at hf
  obtain ⟨-, rfl⟩ := Prod.mk.inj (Option.some.inj hf)
  exact absurd (hu.1 rfl) (by decide)

/-- a supervisor superpage, executed in S-mode -/
theorem fetch_translation_superpage : FetchSv32 (superpageMachine 0xCF) .supervisor 0x00001234 := by
  refine (fetch_translation_eq_sv32_iff (superpageMachine 0xCF) .supervisor (by decide) rfl (by decide)
    (superpageMachine_tables (fun _ => ⟨rfl, by decide⟩) rfl) 0x00001234).2 ?_
  intro h
  obtain ⟨-, -, i, p, hf, -, -, -, hu⟩ := h
  have hp : find (ramPte (superpageMachine 0xCF)) 0x00001234 1 (rootAddr ((superpageMachine 0xCF).csr csrSatp)) =
      some (1, 0xCF) := by decide
  rw [hp] at hf
  obtain ⟨-, rfl⟩ := Prod.mk.inj (Option.some.inj hf)
  exact absurd hu (by decide)

end RiscvEmu
