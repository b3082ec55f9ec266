/-
What the SV32 walk of mmu.h refuses: entries with W and no R, and page numbers beyond 4 GiB.

The walk takes any of R, W and X for a leaf and shifts a 22-bit page number in 32 bits, at the root, at the next table
and at the leaf, so neither stops it. What is left are the checks every leaf meets. No assumption is made on the page
tables here, a device may answer for them.
Main results:
- `mmuWalk_eq_leaf`: the walk is the leaf it reaches, checked by `mmuGrants`, with the address taken modulo 4 GiB;
- `mmuGrants_eq_false`: those checks, bit by bit;
- `unreachable_refused_iff`: a walk through such an entry faults exactly when it ends at no leaf or another check of the
  leaf refuses it.
-/
import RiscvEmu.Translation

namespace RiscvEmu

open Sv32

/-! ## The entries of a walk -/

/-- the entry of the first level, and the devices after it is read -/
def rootEntry (s : Machine) (vaddr : Word) : Pte × Devices :=
  memRead32Unsigned s (mmuSatpRootPpn s <<< pgshift + (vaddr >>> 22 &&& 0x3FF) * 4)

/-- the entry of the second level, where the first is a pointer -/
def secondEntry (s : Machine) (vaddr : Word) : Pte × Devices :=
  memRead32Unsigned { s with dev := (rootEntry s vaddr).2 }
    (((rootEntry s vaddr).1 >>> ptePpnShift) <<< pgshift + (vaddr >>> 12 &&& 0x3FF) * 4)

/-- R, W and X clear: the source goes on to the next table -/
def isPointer (p : Pte) : Prop := p &&& (pteR ||| pteW ||| pteX) = 0

instance (p : Pte) : Decidable (isPointer p) := inferInstanceAs (Decidable (_ = _))

/-- the leaf the walk reaches, with its level -/
def walkLeaf (s : Machine) (vaddr : Word) : Option (ℕ × Pte) :=
  let p := (rootEntry s vaddr).1
  if p.v = false then none
  else if ¬ isPointer p then some (1, p)
  else
    let q := (secondEntry s vaddr).1
    if q.v = false ∨ isPointer q then none else some (0, q)

/-- the walk uses a page number of 2^20 or more -/
def UsesFarPpn (s : Machine) (vaddr : Word) : Prop :=
  2 ^ 20 ≤ (mmuSatpRootPpn s).toNat ∨ 2 ^ 20 ≤ (rootEntry s vaddr).1.ppn ∨
    isPointer (rootEntry s vaddr).1 ∧ 2 ^ 20 ≤ (secondEntry s vaddr).1.ppn

/-- the entries the walk reads lie in RAM -/
def WalkInRam (s : Machine) (vaddr : Word) : Prop :=
  isRam32 (mmuSatpRootPpn s <<< pgshift + (vaddr >>> 22 &&& 0x3FF) * 4) ∧
    (isPointer (rootEntry s vaddr).1 →
      isRam32 (((rootEntry s vaddr).1 >>> ptePpnShift) <<< pgshift + (vaddr >>> 12 &&& 0x3FF) * 4))

/-- the walk ends at a leaf with W set and R clear, or uses a page number beyond 4 GiB -/
def NeverGrants (s : Machine) (vaddr : Word) : Prop :=
  (∃ l, walkLeaf s vaddr = some l ∧ l.2.reserved = true) ∨ UsesFarPpn s vaddr

/-- the access raises its page fault, and does nothing else but read the tables -/
def PageFaults (s : Machine) (vaddr : Word) (access : MmuAccess) : Prop :=
  ∃ d, mmuTranslate s vaddr access = (none, raiseException { s with dev := d } (pageFaultCause access) vaddr)

/-- what an access asks of the R, W, X and D of its leaf, with MXR, and the leaf has not -/
def LacksAccess (mxr : Bool) (p : Pte) : MmuAccess → Prop
  | .fetch => p.x = false
  | .load => p.r = false ∧ (p.x = false ∨ mxr = false)
  | .store => p.w = false ∨ p.d = false

/-- the leaf is a misaligned superpage, or lacks A, the bits of the access or the U of the privilege -/
def LeafRefused (s : Machine) (access : MmuAccess) (l : ℕ × Pte) : Prop :=
  l.2.aligned l.1 = false ∨ l.2.a = false ∨ LacksAccess ((s.csr csrMstatus).getLsbD 19) l.2 access ∨
    effectivePriv s access = prvSupervisor ∧ l.2.u = true ∧ (s.csr csrMstatus).getLsbD 18 = false ∨
    effectivePriv s access = prvUser ∧ l.2.u = false

/-! ## The walk -/

section
variable (s : Machine) (vaddr : Word) (access : MmuAccess)

/-- **The walk is its leaf.** -/
theorem mmuWalk_eq_leaf (hv : mmuVmActive s (effectivePriv s access) = true) : (mmuWalk s vaddr access).1 =
    (walkLeaf s vaddr).bind (mmuLeaf s vaddr (effectivePriv s access) access) := by
  have hpair (c : Prop) [Decidable c] (x y : Option Word) (d : Devices) :
      (if c then (x, d) else (y, d)).1 = if c then x else y := by split_ifs <;> rfl
  obtain ⟨p, d1, hroot⟩ : ∃ p d, rootEntry s vaddr = (p, d) := ⟨_, _, rfl⟩
  obtain ⟨q, d2, hsecond⟩ : ∃ q d, secondEntry s vaddr = (q, d) := ⟨_, _, rfl⟩
  have hleaf1 := mmuLeaf_one s vaddr (effectivePriv s access) access p
  have hleaf0 := mmuLeaf_zero s vaddr (effectivePriv s access) access q
  unfold mmuWalk walkLeaf
  rw [secondEntry, hroot] at hsecond
  rw [hroot, secondEntry, hroot, hsecond]
  rw [rootEntry] at hroot
  simp only [hv, not_true_eq_false, if_false]
  rw [hroot]
  dsimp only
  by_cases h1 : p &&& pteV = 0
  · rw [if_pos h1, if_pos ((pteV_eq_zero p).1 h1)]
    rfl
  rw [if_neg h1, if_neg (mt (pteV_eq_zero p).2 h1)]
  by_cases h2 : isPointer p
  · have hcode : ¬ p &&& (pteR ||| pteW ||| pteX) ≠ 0 := not_not.2 h2
    dsimp only at hsecond
    rw [if_neg hcode, if_neg (not_not.2 h2), hsecond]
    dsimp only
    by_cases h3 : q &&& pteV = 0
    · rw [if_pos h3, if_pos (.inl ((pteV_eq_zero q).1 h3))]
      rfl
    rw [if_neg h3]
    by_cases h4 : q &&& (pteR ||| pteW ||| pteX) = 0
    · rw [if_pos h4, if_pos (.inr h4)]
      rfl
    have hleaf : ¬ (q.v = false ∨ isPointer q) := not_or.2 ⟨mt (pteV_eq_zero q).2 h3, h4⟩
    rw [if_neg h4, if_neg hleaf, Option.bind_some, ← hleaf0, hpair]
  · have hcode : p &&& (pteR ||| pteW ||| pteX) ≠ 0 := h2
    rw [if_pos hcode, if_pos h2, Option.bind_some, ← hleaf1]
    split_ifs <;> rfl

/-- the walk answers no address exactly when the access raises its page fault -/
theorem pageFaults_walk_iff : PageFaults s vaddr access ↔ (mmuWalk s vaddr access).1 = none := by
  obtain ⟨⟨r, d⟩, hr⟩ : ∃ x, mmuWalk s vaddr access = x := ⟨_, rfl⟩
  unfold PageFaults mmuTranslate
  rw [hr]
  cases r with
  | none => exact iff_of_true ⟨d, rfl⟩ rfl
  | some pa =>
    refine iff_of_false ?_ (Option.some_ne_none pa)
    intro h
    obtain ⟨e, he⟩ := h
    exact absurd (congrArg Prod.fst he) (Option.some_ne_none pa)

/-- **The checks that are left**, bit by bit -/
theorem mmuGrants_eq_false (hv : mmuVmActive s (effectivePriv s access) = true) (l : ℕ × Pte) :
    mmuGrants s (effectivePriv s access) access l = false ↔ LeafRefused s access l := by
  have hmachine : effectivePriv s access ≠ prvMachine := by
    intro hm
    rw [mmuVmActive, if_pos hm] at hv
    exact Bool.false_ne_true hv
  have hsum : s.csr csrMstatus &&& mstatusSum ≠ 0 ↔ (s.csr csrMstatus).getLsbD 18 = true := Bits.and_bit_ne_zero _
  have haccess : pteAllowsAccess s l.2 access = false ↔ LacksAccess ((s.csr csrMstatus).getLsbD 19) l.2 access := by
    rw [pteAllowsAccess_eq s .user]
    cases access with
    | fetch => simp [allowsAccess, MmuAccess.sv32, LacksAccess]
    | load =>
      simp only [allowsAccess, MmuAccess.sv32, LacksAccess, sv32Status]
      cases l.2.r <;> cases l.2.x <;> simp
    | store =>
      simp only [allowsAccess, MmuAccess.sv32, LacksAccess]
      cases l.2.w <;> simp
  have hpriv : pteAllowsPriv s l.2 (effectivePriv s access) = false ↔
      effectivePriv s access = prvSupervisor ∧ l.2.u = true ∧ (s.csr csrMstatus).getLsbD 18 = false ∨
        effectivePriv s access = prvUser ∧ l.2.u = false := by
    rw [pteAllowsPriv, csrRead_mstatus]
    by_cases hs : effectivePriv s access = prvSupervisor
    · rw [if_pos hs, decide_eq_false_iff_not, hsum, pteU_eq_zero]
      simp [hs]
    rw [if_neg hs]
    by_cases hu : effectivePriv s access = prvUser
    · rw [if_pos hu, decide_eq_false_iff_not, ne_eq, pteU_eq_zero]
      simp [hu]
    · rw [if_neg hu]
      simp [hs, hu]
  have ha : l.2 &&& pteA ≠ 0 ↔ l.2.a = true := by rw [ne_eq, pteA_eq_zero, Bool.not_eq_false]
  rw [mmuGrants, mmuCheckPte, if_neg hmachine, LeafRefused, ← haccess, ← hpriv, Bool.and_eq_false_iff,
    decide_eq_false_iff_not, not_and_or, not_and_or, ha, Bool.not_eq_true, Bool.not_eq_true, Bool.not_eq_true]

/-- **Entries that never grant access, exactly.** -/
theorem unreachable_refused_iff (hv : mmuVmActive s (effectivePriv s access) = true) :
    (NeverGrants s vaddr → PageFaults s vaddr access) ↔
      (NeverGrants s vaddr → ∀ l, walkLeaf s vaddr = some l → LeafRefused s access l) := by
  refine imp_congr_right ?_
  intro _
  rw [pageFaults_walk_iff, mmuWalk_eq_leaf s vaddr access hv, Option.bind_eq_none_iff]
  refine forall₂_congr ?_
  intro l _
  rw [← mmuGrants_eq_false s access hv, mmuLeaf]
  cases mmuGrants s (effectivePriv s access) access l <;> simp

end

/-- a store through a leaf with V and W only: A is clear -/
theorem unreachable_refused_reserved : PageFaults (superpageMachine 0x05) 0x00001234 .store := by
  have hleaf : walkLeaf (superpageMachine 0x05) 0x00001234 = some (1, 0x05) := by decide
  refine (unreachable_refused_iff (superpageMachine 0x05) 0x00001234 .store (by decide)).2 (fun _ l hl => ?_)
    (.inl ⟨_, hleaf, rfl⟩)
  obtain rfl : (1, 0x05) = l := Option.some.inj (hleaf.symm.trans hl)
  exact .inr (.inl rfl)

/-- a leaf at page 2^20 (every entry is 0x400000CF): the load goes through, to page 1 of low memory -/
theorem far_leaf_granted : ¬ ∀ (s : Machine) (vaddr : Word) (access : MmuAccess),
    mmuVmActive s (effectivePriv s access) = true → WalkInRam s vaddr → NeverGrants s vaddr →
      PageFaults s vaddr access := by
  intro h
  have hleaf : rootEntry (superpageMachine 0x400000CF) 0x00001234 =
      (0x400000CF, (superpageMachine 0x400000CF).dev) := rfl
  have hram : WalkInRam (superpageMachine 0x400000CF) 0x00001234 :=
    ⟨by decide, fun hp => absurd hp (by rw [hleaf]; decide)⟩
  have hfar : NeverGrants (superpageMachine 0x400000CF) 0x00001234 :=
    .inr (.inr (.inl (by rw [hleaf]; decide)))
  have hfault := h (superpageMachine 0x400000CF) 0x00001234 .load (by decide) hram hfar
  rw [pageFaults_walk_iff] at hfault
  exact absurd hfault (by decide)

end RiscvEmu
