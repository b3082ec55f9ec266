/-
The bits of mstatus across trap entry and return, seen through mstatus and through its view sstatus, and those of mip.

- `sstatusOf_eq`, `sstatusInto_eq`: the view reads and writes the bits of its mask;
- `getLsbD_mstatusOnTrap`, `getLsbD_sstatusOnTrap`: what a trap into M-mode or S-mode makes of each bit;
- `getLsbD_mstatusOnReturn`, `getLsbD_sstatusOnReturn`: what the returns make of it;
- `getLsbD_getMip`: the bits of mip as it reads.
-/
import Mathlib.Tactic.IntervalCases
import RiscvEmu.Frame
import RiscvEmu.Lib.Bits

namespace RiscvEmu

open Bits

/-! ## The view -/

theorem sstatusOf_eq (m : Word) : sstatusOf m = m &&& sstatusMask := by
  have h0 : (if m &&& mstatusUie ≠ 0 then 1#32 else 0) = m &&& mstatusUie := ite_bit m 0
  have h1 : (if m &&& mstatusSie ≠ 0 then 2#32 else 0) = m &&& mstatusSie := ite_bit m 1
  have h4 : (if m &&& mstatusUpie ≠ 0 then 16#32 else 0) = m &&& mstatusUpie := ite_bit m 4
  have h5 : (if m &&& mstatusSpie ≠ 0 then 32#32 else 0) = m &&& mstatusSpie := ite_bit m 5
  have h8 : (if m &&& mstatusSpp ≠ 0 then 256#32 else 0) = m &&& mstatusSpp := ite_bit m 8
  have h13 : ((m &&& mstatusFsMask) >>> 13) <<< 13 = m &&& mstatusFsMask := shift_field m 3 13
  have h15 : ((m &&& mstatusXsMask) >>> 15) <<< 15 = m &&& mstatusXsMask := shift_field m 3 15
  have h18 : (if m &&& mstatusSum ≠ 0 then 1#32 <<< 18 else 0) = m &&& mstatusSum := ite_bit m 18
  have h19 : (if m &&& mstatusMxr ≠ 0 then 1#32 <<< 19 else 0) = m &&& mstatusMxr := ite_bit m 19
  rw [sstatusOf, h0, h1, h4, h5, h8, h13, h15, h18, h19]
  simp only [sstatusMask, BitVec.and_or_distrib_left]

theorem sstatusInto_eq (m v : Word) : sstatusInto m v = m &&& ~~~sstatusMask ||| v &&& sstatusMask := by
  have h0 (x : Word) : (if v &&& 1 ≠ 0 then x ||| mstatusUie else x) = x ||| v &&& mstatusUie := ite_or_bit x v 0
  have h1 (x : Word) : (if v &&& 2 ≠ 0 then x ||| mstatusSie else x) = x ||| v &&& mstatusSie := ite_or_bit x v 1
  have h4 (x : Word) : (if v &&& 16 ≠ 0 then x ||| mstatusUpie else x) = x ||| v &&& mstatusUpie := ite_or_bit x v 4
  have h5 (x : Word) : (if v &&& 32 ≠ 0 then x ||| mstatusSpie else x) = x ||| v &&& mstatusSpie := ite_or_bit x v 5
  have h8 (x : Word) : (if v &&& 256 ≠ 0 then x ||| mstatusSpp else x) = x ||| v &&& mstatusSpp := ite_or_bit x v 8
  have h13 : (v >>> 13 &&& 3) <<< 13 = v &&& mstatusFsMask := put_field v 3 13
  have h15 : (v >>> 15 &&& 3) <<< 15 = v &&& mstatusXsMask := put_field v 3 15
  have h18 (x : Word) : (if v &&& (1#32 <<< 18) ≠ 0 then x ||| mstatusSum else x) = x ||| v &&& mstatusSum :=
    ite_or_bit x v 18
  have h19 (x : Word) : (if v &&& (1#32 <<< 19) ≠ 0 then x ||| mstatusMxr else x) = x ||| v &&& mstatusMxr :=
    ite_or_bit x v 19
  simp only [sstatusInto, h0, h1, h4, h5, h8, h13, h15, h18, h19]
  simp only [sstatusMask, BitVec.and_or_distrib_left, BitVec.or_assoc]

/-- writing the view back unchanged is writing nothing, and any write keeps the bits outside the mask -/
theorem getLsbD_sstatusInto (m v : Word) {i : ℕ} (hi : i < 32) :
    (sstatusInto m v).getLsbD i = if sstatusMask.getLsbD i then v.getLsbD i else m.getLsbD i := by
  rw [sstatusInto_eq, BitVec.getLsbD_or, BitVec.getLsbD_and, BitVec.getLsbD_and, BitVec.getLsbD_not]
  cases sstatusMask.getLsbD i <;> simp [hi]

/-! ## Into M-mode and back -/

theorem getLsbD_mppField (m : Word) (p : Priv) {i : ℕ} (hi : i < 32) :
    (m &&& ~~~mstatusMppMask ||| p.setWidth 32 <<< mstatusMppShift).getLsbD i =
      if i = 11 then p.getLsbD 0 else if i = 12 then p.getLsbD 1 else m.getLsbD i := by
  have hmask : mstatusMppMask.getLsbD i = decide (i = 11 ∨ i = 12) := by interval_cases i <;> rfl
  rw [BitVec.getLsbD_or, BitVec.getLsbD_and, BitVec.getLsbD_not, hmask, BitVec.getLsbD_shiftLeft, BitVec.getLsbD_setWidth,
    mstatusMppShift]
  by_cases h11 : i = 11
  · simp [h11]
  · by_cases h12 : i = 12
    · simp [h12]
    · have hp : p.getLsbD (i - 11) = true → ¬ i < 11 → False := fun h hn => by
        have := BitVec.lt_of_getLsbD h
        omega
      by_cases hlt : i < 11
      · simp [h11, h12, hi, hlt]
      · have : p.getLsbD (i - 11) = false := by
          cases h : p.getLsbD (i - 11) with
          | false => rfl
          | true => exact (hp h hlt).elim
        simp [h11, h12, hi, this]

theorem mstatusOnTrap_eq (m : Word) (p : Priv) : mstatusOnTrap m p =
    let m' := m &&& ~~~mstatusMppMask ||| p.setWidth 32 <<< mstatusMppShift
    putBit (putBit m' 7 (m'.getLsbD 3)) 3 false := by
  simp only [mstatusOnTrap, ← ite_eq_putBit]
  rfl

/-- MIE goes to MPIE and is cleared, the privilege goes to MPP -/
theorem getLsbD_mstatusOnTrap (m : Word) (p : Priv) {i : ℕ} (hi : i < 32) : (mstatusOnTrap m p).getLsbD i =
    if i = 3 then false else if i = 7 then m.getLsbD 3 else if i = 11 then p.getLsbD 0
    else if i = 12 then p.getLsbD 1 else m.getLsbD i := by
  rw [mstatusOnTrap_eq]
  simp only [getLsbD_putBit _ _ _ hi, getLsbD_mppField _ _ hi, getLsbD_mppField _ _ (show 3 < 32 by decide)]
  rfl

theorem mstatusOnReturn_eq (m : Word) :
    mstatusOnReturn m = putBit (putBit (putBit (putBit m 3 (m.getLsbD 7)) 7 true) 11 false) 12 false := by
  have hmask : ∀ x : Word, x &&& ~~~mstatusMppMask = putBit (putBit x 11 false) 12 false := by
    intro x
    have : ~~~mstatusMppMask = ~~~(1#32 <<< 11) &&& ~~~(1#32 <<< 12) := by decide
    simp only [putBit, Bool.false_eq_true, if_false, this, BitVec.and_assoc]
  simp only [mstatusOnReturn, hmask, ← ite_eq_putBit]
  rfl

theorem getLsbD_mstatusOnReturn (m : Word) {i : ℕ} (hi : i < 32) : (mstatusOnReturn m).getLsbD i =
    if i = 12 then false else if i = 11 then false else if i = 7 then true else if i = 3 then m.getLsbD 7
    else m.getLsbD i := by
  rw [mstatusOnReturn_eq]
  simp only [getLsbD_putBit _ _ _ hi]

/-- the privilege MRET returns to -/
def mppOf (m : Word) : Priv := ((m &&& mstatusMppMask) >>> mstatusMppShift).setWidth 2

theorem getLsbD_mppOf (m : Word) {i : ℕ} (hi : i < 2) : (mppOf m).getLsbD i = m.getLsbD (11 + i) := by
  have hmask : mstatusMppMask.getLsbD (11 + i) = true := by interval_cases i <;> rfl
  simp [mppOf, mstatusMppShift, hi, hmask]

/-! ## Into S-mode and back -/

theorem sstatusOnTrap_eq (v : Word) (p : Priv) : sstatusOnTrap v p =
    let v' := putBit v 8 (p = prvSupervisor)
    putBit (putBit v' 5 (v'.getLsbD 1)) 1 false := by
  simp only [sstatusOnTrap, ← ite_eq_putBit]
  simp only [putBit, decide_eq_true_eq]
  rfl

/-- SIE goes to SPIE and is cleared, SPP says whether the trap came from S-mode -/
theorem getLsbD_sstatusOnTrap (v : Word) (p : Priv) {i : ℕ} (hi : i < 32) : (sstatusOnTrap v p).getLsbD i =
    if i = 1 then false else if i = 5 then v.getLsbD 1 else if i = 8 then decide (p = prvSupervisor)
    else v.getLsbD i := by
  rw [sstatusOnTrap_eq]
  simp only [getLsbD_putBit _ _ _ hi, getLsbD_putBit _ _ _ (show 1 < 32 by decide)]
  rfl

theorem sstatusOnReturn_eq (v : Word) :
    sstatusOnReturn v = putBit (putBit (putBit v 1 (v.getLsbD 5)) 5 true) 8 false := by
  simp only [sstatusOnReturn, ← ite_eq_putBit]
  rfl

theorem getLsbD_sstatusOnReturn (v : Word) {i : ℕ} (hi : i < 32) : (sstatusOnReturn v).getLsbD i =
    if i = 8 then false else if i = 5 then true else if i = 1 then v.getLsbD 5 else v.getLsbD i := by
  rw [sstatusOnReturn_eq]
  simp only [getLsbD_putBit _ _ _ hi]

/-! ## The live bits -/

/-- mip as it reads: the stored bits under the three live ones -/
theorem getLsbD_getMip (s : Machine) {i : ℕ} (hi : i < 32) : (getMip s).getLsbD i =
    if i = 9 then decide (plicExternalPendingS s.dev.plic ≠ 0)
    else if i = 11 then decide (plicExternalPending s.dev.plic ≠ 0)
    else if i = 7 then clintMtipPending s.dev.clint
    else (s.csr csrMip).getLsbD i := by
  have hput (x : Word) (k : ℕ) (p : Prop) [Decidable p] :
      (if p then x ||| 1#32 <<< k else x &&& ~~~(1#32 <<< k)) = putBit x k (decide p) := by
    unfold putBit
    simp only [decide_eq_true_eq]
  have hmip : getMip s = putBit (putBit (putBit (s.csr csrMip) 7 (clintMtipPending s.dev.clint)) 11
      (decide (plicExternalPending s.dev.plic ≠ 0))) 9 (decide (plicExternalPendingS s.dev.plic ≠ 0)) := by
    unfold getMip mipMtip mipMeip mipSeip
    simp only [hput, Bool.decide_eq_true]
  rw [hmip, getLsbD_putBit _ _ _ hi, getLsbD_putBit _ _ _ hi, getLsbD_putBit _ _ _ hi]

end RiscvEmu
