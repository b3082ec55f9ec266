/-
mtimecmp, written through the bus in pieces of any width.

A byte store replaces one lane of the register, the loops of the wider accesses store lane by lane, and a read gathers
lanes. So the register is a memory of eight bytes: `cmpByte` is that memory and mtimecmp the word loaded from it, and what
a sequence of writes leaves is a matter of the last write that covers each byte.
Main results:
- `clintStore_byte`, `clintScatter_byte`: one access changes the lanes it covers;
- `MemOp.step_mtimecmp`: a write inside the register is a store to it and to nothing else;
- `mtimecmp_assembled`: writes of pieces of a value that cover the register leave that value, in any order.
-/
import RiscvEmu.BusViews
import RiscvEmu.RamCoherence
import RiscvEmu.Status

namespace RiscvEmu

open Bytes

/-- the eight bytes of mtimecmp -/
def inMtimecmp (a : Word) : Prop := a ≥ clintMtimecmpHart0 ∧ a < clintMtimecmpHart0 + 8

instance (a : Word) : Decidable (inMtimecmp a) := inferInstanceAs (Decidable (_ ∧ _))

/-- the byte clint_read answers -/
def cmpByte (c : Clint) (a : Word) : Byte := (clintRead c a).setWidth 8

/-- the write lies inside the register -/
def InMtimecmp (x : Write 32) : Prop := ∃ k, k + x.n ≤ 8 ∧ x.addr = clintMtimecmpHart0 + BitVec.ofNat 32 k

/-- the access writes the bytes of v that belong where it writes, inside the register -/
def WritesPiece (v : BitVec 64) (op : MemOp) : Prop :=
  ∃ x, op.write? = some x ∧ ∃ k, k + x.n ≤ 8 ∧ x.addr = clintMtimecmpHart0 + BitVec.ofNat 32 k ∧
    x.val = v.extractLsb' (8 * k) (8 * x.n)

/-- the access writes byte i of the register -/
def CoversLane (op : MemOp) (i : ℕ) : Prop := ∃ x ∈ op.write?, x.Covers (clintMtimecmpHart0 + BitVec.ofNat 32 i)

instance (op : MemOp) (i : ℕ) : Decidable (CoversLane op i) := inferInstanceAs (Decidable (∃ x ∈ op.write?, _))

/-- the accesses write pieces of v, and every byte of the register is written by one of them and no other -/
structure Tiles (ops : List MemOp) (v : BitVec 64) : Prop where
  piece : ∀ op ∈ ops, WritesPiece v op
  once : ∀ i < 8, ∃ l₁ op l₂, ops = l₁ ++ op :: l₂ ∧ CoversLane op i ∧ ∀ o ∈ l₁ ++ l₂, ¬ CoversLane o i

/-- every read inside the register answers its piece of v; a signed byte is not extended -/
structure ReadsPieces (s : Machine) (v : BitVec 64) : Prop where
  read8Unsigned : ∀ k, k + 1 ≤ 8 →
    (memRead8Unsigned s (clintMtimecmpHart0 + BitVec.ofNat 32 k)).1 = (v.extractLsb' (8 * k) 8).setWidth 32
  read8Signed : ∀ k, k + 1 ≤ 8 →
    (memRead8Signed s (clintMtimecmpHart0 + BitVec.ofNat 32 k)).1 = (v.extractLsb' (8 * k) 8).setWidth 32
  read16Unsigned : ∀ k, k + 2 ≤ 8 →
    (memRead16Unsigned s (clintMtimecmpHart0 + BitVec.ofNat 32 k)).1 = (v.extractLsb' (8 * k) 16).setWidth 32
  read16Signed : ∀ k, k + 2 ≤ 8 →
    (memRead16Signed s (clintMtimecmpHart0 + BitVec.ofNat 32 k)).1 = (v.extractLsb' (8 * k) 16).signExtend 32
  read32Unsigned : ∀ k, k + 4 ≤ 8 →
    (memRead32Unsigned s (clintMtimecmpHart0 + BitVec.ofNat 32 k)).1 = v.extractLsb' (8 * k) 32
  read32Signed : ∀ k, k + 4 ≤ 8 →
    (memRead32Signed s (clintMtimecmpHart0 + BitVec.ofNat 32 k)).1 = v.extractLsb' (8 * k) 32
  read64Unsigned : (memRead64Unsigned s clintMtimecmpHart0).1 = v

/-! ## The register as a memory -/

section
variable (c : Clint)

theorem getLsbD_ff (i : ℕ) : (0xFF : BitVec 64).getLsbD i = decide (i < 8) := by
  have hones : (0xFF : BitVec 64) = (BitVec.allOnes 8).setWidth 64 := rfl
  rw [hones, BitVec.getLsbD_setWidth, BitVec.getLsbD_allOnes]
  by_cases h : i < 8
  · simp only [h, show i < 64 by omega, decide_true, Bool.and_self]
  · simp only [h, decide_false, Bool.and_false]

theorem byte_put (x : BitVec 64) (b : Byte) {j : ℕ} (k : ℕ) (hj : j < 8) :
    (x &&& ~~~((0xFF : BitVec 64) <<< (k * 8)) ||| b.setWidth 64 <<< (k * 8)).extractLsb' (8 * j) 8 =
      if j = k then b else x.extractLsb' (8 * j) 8 := by
  apply BitVec.eq_of_getLsbD_eq
  intro i hi
  have hin : 8 * j + i < 64 := by omega
  simp only [BitVec.getLsbD_extractLsb', BitVec.getLsbD_or, BitVec.getLsbD_and, BitVec.getLsbD_not,
    BitVec.getLsbD_shiftLeft, BitVec.getLsbD_setWidth, getLsbD_ff, hi, hin, decide_true, Bool.true_and]
  rcases lt_trichotomy j k with hlt | rfl | hgt
  · rw [if_neg hlt.ne]
    simp [hi, show 8 * j + i < k * 8 by omega]
  · rw [if_pos rfl]
    simp [hi, show ¬ 8 * j + i < j * 8 by omega, show 8 * j + i - j * 8 = i by omega, show i < 64 by omega]
  · rw [if_neg hgt.ne']
    have hpast : b.getLsbD (8 * j + i - k * 8) = false := BitVec.getLsbD_of_ge _ _ (by omega)
    simp [hi, hpast, show ¬ 8 * j + i - k * 8 < 8 by omega]

theorem byte_get (x : BitVec 64) (k : ℕ) :
    (((x >>> (k * 8)) &&& 0xFF).setWidth 32).setWidth 8 = x.extractLsb' (8 * k) 8 := by
  rw [BitVec.setWidth_setWidth_of_le _ (by decide), BitVec.setWidth_and, Nat.mul_comm k 8]
  exact BitVec.and_allOnes

theorem inMtimecmp_offset {a : Word} (h : inMtimecmp a) : (a - clintMtimecmpHart0).toNat < 8 := by
  have hlt := BitVec.lt_def.1 h.2
  have hend : (clintMtimecmpHart0 + 8).toNat = clintMtimecmpHart0.toNat + 8 := by decide
  rw [BitVec.toNat_sub_of_le h.1]
  omega

theorem inMtimecmp_add {k : ℕ} (hk : k < 8) : inMtimecmp (clintMtimecmpHart0 + BitVec.ofNat 32 k) ∧
    (clintMtimecmpHart0 + BitVec.ofNat 32 k - clintMtimecmpHart0).toNat = k := by
  interval_cases k <;> decide

theorem cmpByte_in {a : Word} (h : inMtimecmp a) :
    cmpByte c a = c.mtimecmp.extractLsb' (8 * (a - clintMtimecmpHart0).toNat) 8 := by
  have hread : clintRead c a = ((c.mtimecmp >>> ((a - clintMtimecmpHart0).toNat * 8)) &&& 0xFF).setWidth 32 := if_pos h
  rw [cmpByte, hread, byte_get]

/-- the register is its bytes -/
theorem mtimecmp_eq : c.mtimecmp = loadLE (cmpByte c) clintMtimecmpHart0 8 := by
  refine ext_byte (n := 8) ?_
  intro k hk
  rw [byte_loadLE _ _ _ _ hk, cmpByte_in c (inMtimecmp_add hk).1, (inMtimecmp_add hk).2]
  rfl

@[simp] theorem clintStore_mtime (a : Word) (v : Byte) : (clintStore c a v).mtime = c.mtime := by
  unfold clintStore
  split_ifs <;> rfl

/-- **One byte store changes one lane.** -/
theorem clintStore_byte (a : Word) (v : Byte) (x : Word) :
    cmpByte (clintStore c a v) x = if inMtimecmp a ∧ x = a then v else cmpByte c x := by
  by_cases ha : inMtimecmp a
  · have hstore : clintStore c a v = { c with mtimecmp := c.mtimecmp &&& ~~~((0xFF : BitVec 64) <<<
        ((a - clintMtimecmpHart0).toNat * 8)) ||| v.setWidth 64 <<< ((a - clintMtimecmpHart0).toNat * 8) } := if_pos ha
    by_cases hx : inMtimecmp x
    · have hsame : (x - clintMtimecmpHart0).toNat = (a - clintMtimecmpHart0).toNat ↔ inMtimecmp a ∧ x = a := by
        refine ⟨fun h => ⟨ha, ?_⟩, fun h => by rw [h.2]⟩
        have h' := BitVec.eq_of_toNat_eq h
        bv_omega
      rw [cmpByte_in _ hx, cmpByte_in _ hx, hstore]
      dsimp only
      rw [byte_put _ _ _ (inMtimecmp_offset hx)]
      simp only [hsame]
    · have hne : ¬ (inMtimecmp a ∧ x = a) := fun h => hx (h.2 ▸ h.1)
      have hx' : ¬ (x ≥ clintMtimecmpHart0 ∧ x < clintMtimecmpHart0 + 8) := hx
      rw [if_neg hne, hstore, cmpByte, cmpByte, clintRead, clintRead, if_neg hx', if_neg hx']
  · have hstore : clintStore c a v = c := if_neg ha
    rw [hstore, if_neg fun h => ha h.1]

/-! ## The loops over the lanes -/

theorem clintScatter_mtime {w : ℕ} (a : Word) (n : ℕ) (val : BitVec w) : (clintScatter c a n val).mtime = c.mtime := by
  unfold clintScatter
  induction n with
  | zero => rfl
  | succ n ih => rw [List.range_succ, List.foldl_append, List.foldl_cons, List.foldl_nil, clintStore_mtime, ih]

/-- the lanes a loop of n byte stores changes -/
theorem clintScatter_byte (a : Word) {n : ℕ} (hn : n ≤ 2 ^ 32) (val : BitVec (8 * n)) (x : Word) :
    cmpByte (clintScatter c a n val) x =
      if inMtimecmp x ∧ (x - a).toNat < n then byte val (x - a).toNat else cmpByte c x := by
  have hloop : ∀ m ≤ n, cmpByte ((List.range m).foldl
      (fun c i => clintStore c (a + BitVec.ofNat 32 i) ((val >>> (i * 8)).setWidth 8)) c) x =
        if inMtimecmp x ∧ (x - a).toNat < m then byte val (x - a).toNat else cmpByte c x := by
    intro m hm
    induction m with
    | zero => rw [List.range_zero, List.foldl_nil, if_neg fun h => Nat.not_lt_zero _ h.2]
    | succ m ih =>
      have hat : x = a + BitVec.ofNat 32 m ↔ (x - a).toNat = m := by
        constructor
        · rintro rfl
          exact dist_add a (by omega)
        · rintro rfl
          exact (add_dist a x).symm
      have hbyte : (val >>> (m * 8)).setWidth 8 = byte val m := by
        apply BitVec.eq_of_getLsbD_eq
        intro i hi
        simp [byte, hi, Nat.mul_comm]
      rw [List.range_succ, List.foldl_append, List.foldl_cons, List.foldl_nil, clintStore_byte, ih (by omega), hbyte]
      by_cases hx : x = a + BitVec.ofNat 32 m
      · have hlast := hat.1 hx
        by_cases hin : inMtimecmp x
        · rw [if_pos ⟨hx ▸ hin, hx⟩, if_pos ⟨hin, by omega⟩, hlast]
        · rw [if_neg fun h => hin (hx ▸ h.1), if_neg fun h => hin h.1, if_neg fun h => hin h.1]
      · have hlt : (x - a).toNat < m + 1 ↔ (x - a).toNat < m := by
          have hne := mt hat.2 hx
          omega
        rw [if_neg fun h => hx h.2]
        simp only [hlt]
  exact hloop n (le_refl n)

end

/-! ## The bus -/

theorem InMtimecmp.covers {x : Write 32} (h : InMtimecmp x) {a : Word} (hc : x.Covers a) : inMtimecmp a := by
  obtain ⟨k, hk, hx⟩ := h
  have hoff : (a - x.addr).toNat < x.n := hc
  rw [← add_dist_of_eq hx a]
  exact (inMtimecmp_add (by omega)).1

theorem inMtimecmp_inClint {k : ℕ} (hk : k < 8) : inClint (clintMtimecmpHart0 + BitVec.ofNat 32 k) := by
  interval_cases k <;> decide

theorem MemOp.write?_pos {op : MemOp} {x : Write 32} (h : op.write? = some x) : 0 < x.n ∧ x.n ≤ 8 := by
  cases op <;> cases h <;> dsimp only <;> omega

/-- **A write inside the register stores to it and to nothing else.** -/
theorem MemOp.step_mtimecmp (s : Machine) {op : MemOp} {x : Write 32} (hw : op.write? = some x) (hin : InMtimecmp x) :
    (op.step s).mainMemory = s.mainMemory ∧
      (op.step s).dev = { s.dev with clint := clintScatter s.dev.clint x.addr x.n x.val } := by
  obtain ⟨k, hk, haddr⟩ := hin
  have hpos := (MemOp.write?_pos hw).1
  have hc : inClint x.addr := haddr ▸ inMtimecmp_inClint (by omega)
  have hmem := memClearReservation_mainMemory s x.addr
  have hdev := memClearReservation_dev s x.addr
  cases op with
  | write8 a v =>
    cases hw
    have hone : clintScatter s.dev.clint a 1 v = clintStore s.dev.clint a v := by simp [clintScatter]
    rw [MemOp.step, memWrite8]
    dsimp only at hc hmem hdev ⊢
    rw [if_pos hc, hmem, hdev, hone]
    exact ⟨rfl, rfl⟩
  | write16 a v =>
    cases hw
    rw [MemOp.step, memWrite16]
    dsimp only at hc hmem hdev ⊢
    rw [if_pos hc, clintWriteBytes, hmem, hdev]
    exact ⟨rfl, rfl⟩
  | write32 a v =>
    cases hw
    rw [MemOp.step, memWrite32]
    dsimp only at hc hmem hdev ⊢
    rw [if_pos hc, clintWriteBytes, hmem, hdev]
    exact ⟨rfl, rfl⟩
  | write64 a v =>
    cases hw
    rw [MemOp.step, memWrite64]
    dsimp only at hc hmem hdev ⊢
    rw [if_pos hc, clintWriteBytes, hmem, hdev]
    exact ⟨rfl, rfl⟩
  | _ => cases hw

theorem MemOp.step_cmpByte (s : Machine) {op : MemOp} {x : Write 32} (hw : op.write? = some x) (hin : InMtimecmp x) :
    cmpByte (op.step s).dev.clint = storeLE (cmpByte s.dev.clint) x.addr x.n x.val := by
  have hn := (MemOp.write?_pos hw).2
  funext a
  rw [(MemOp.step_mtimecmp s hw hin).2]
  dsimp only
  rw [clintScatter_byte _ _ (hn.trans (by decide)), storeLE]
  by_cases hc : (a - x.addr).toNat < x.n
  · rw [if_pos ⟨hin.covers hc, hc⟩, if_pos hc]
  · rw [if_neg fun h => hc h.2, if_neg hc]

theorem WritesPiece.inMtimecmp {v : BitVec 64} {op : MemOp} (h : WritesPiece v op) :
    ∃ x, op.write? = some x ∧ InMtimecmp x := by
  obtain ⟨x, hw, k, hk, hx, -⟩ := h
  exact ⟨x, hw, k, hk, hx⟩

/-- the register after a run of writes inside it holds the bytes written last -/
theorem MemOp.run_cmpByte (s : Machine) (ops : List MemOp) (h : ∀ op ∈ ops, ∃ x, op.write? = some x ∧ InMtimecmp x) :
    cmpByte (run s ops).dev.clint = lastByte (cmpByte s.dev.clint) (ops.filterMap write?) ∧
      (run s ops).dev.clint.mtime = s.dev.clint.mtime := by
  induction ops using List.reverseRecOn with
  | nil => exact ⟨rfl, rfl⟩
  | append_singleton ops op ih =>
    obtain ⟨hbytes, htime⟩ := ih fun o ho => h o (List.mem_append_left _ ho)
    obtain ⟨x, hw, hin⟩ := h op (List.mem_append_right _ List.mem_cons_self)
    have hrun : run s (ops ++ [op]) = op.step (run s ops) := by
      unfold run
      rw [List.foldl_append, List.foldl_cons, List.foldl_nil]
    rw [hrun, step_cmpByte _ hw hin, hbytes, List.filterMap_append, List.filterMap_cons_some hw, List.filterMap_nil,
      lastByte_append, (step_mtimecmp _ hw hin).2]
    exact ⟨rfl, (clintScatter_mtime ..).trans htime⟩

/-! ## Reads -/

theorem extractLsb'_slice (v : BitVec 64) (k n : ℕ) : (v >>> (8 * k)).setWidth (8 * n) = v.extractLsb' (8 * k) (8 * n) := by
  apply BitVec.eq_of_getLsbD_eq
  intro i hi
  simp [hi]

/-- the byte a piece has for byte i of the register -/
theorem byte_piece (v : BitVec 64) {i k n : ℕ} (hi : i < 8) (hk : k + n ≤ 8)
    (hc : (clintMtimecmpHart0 + BitVec.ofNat 32 i - (clintMtimecmpHart0 + BitVec.ofNat 32 k)).toNat < n) :
    byte (v.extractLsb' (8 * k) (8 * n))
      (clintMtimecmpHart0 + BitVec.ofNat 32 i - (clintMtimecmpHart0 + BitVec.ofNat 32 k)).toNat = byte (n := 8) v i := by
  obtain ⟨j, hj⟩ : ∃ j, (clintMtimecmpHart0 + BitVec.ofNat 32 i - (clintMtimecmpHart0 + BitVec.ofNat 32 k)).toNat = j :=
    ⟨_, rfl⟩
  rw [hj] at hc ⊢
  have hat : clintMtimecmpHart0 + BitVec.ofNat 32 (k + j) = clintMtimecmpHart0 + BitVec.ofNat 32 i := by
    rw [← hj]
    exact add_dist_of_eq rfl _
  have hsum : k + j = i := by
    rw [← (inMtimecmp_add (k := k + j) (by omega)).2, hat, (inMtimecmp_add hi).2]
  rw [← hsum]
  apply BitVec.eq_of_getLsbD_eq
  intro b hb
  simp [byte, hb, show 8 * j + b < 8 * n by omega, show 8 * k + (8 * j + b) = 8 * (k + j) + b by omega]

section
variable {s : Machine} {k : ℕ}

theorem loadLE_cmpByte (c : Clint) {n : ℕ} (hk : k + n ≤ 8) :
    loadLE (cmpByte c) (clintMtimecmpHart0 + BitVec.ofNat 32 k) n = c.mtimecmp.extractLsb' (8 * k) (8 * n) := by
  rw [← loadLE_slice (cmpByte c) clintMtimecmpHart0 hk, ← mtimecmp_eq, extractLsb'_slice]

theorem clintGather_mtimecmp (w : ℕ) {n : ℕ} (hw : 8 * n ≤ w) (hk : k + n ≤ 8) :
    clintGather w s.dev.clint (clintMtimecmpHart0 + BitVec.ofNat 32 k) n =
      (s.dev.clint.mtimecmp.extractLsb' (8 * k) (8 * n)).setWidth w := by
  rw [← loadLE_cmpByte _ hk]
  exact gather_eq_loadLE (cmpByte s.dev.clint) _ n hw

theorem readsPieces (s : Machine) : ReadsPieces s s.dev.clint.mtimecmp := by
  have hbyte : ∀ k, k + 1 ≤ 8 → cmpByte s.dev.clint (clintMtimecmpHart0 + BitVec.ofNat 32 k) =
      s.dev.clint.mtimecmp.extractLsb' (8 * k) 8 := by
    intro k hk
    obtain ⟨hin, hoff⟩ := inMtimecmp_add (k := k) hk
    rw [cmpByte_in _ hin, hoff]
  refine ⟨?_, ?_, ?_, ?_, ?_, ?_, ?_⟩
  · intro k hk
    have hc := inMtimecmp_inClint (k := k) hk
    rw [memRead8Unsigned_byte, byteView_eq, if_pos (.inl hc), deviceByte, if_pos hc, ← hbyte k hk]
    rfl
  · intro k hk
    have hc := inMtimecmp_inClint (k := k) hk
    rw [memRead8Signed, if_pos hc, ← hbyte k hk]
    exact (setWidth_byte (clintRead_lt _ hc)).symm
  · intro k hk
    rw [memRead16Unsigned, if_pos (inMtimecmp_inClint (by omega))]
    exact clintGather_mtimecmp 32 (by decide) hk
  · intro k hk
    rw [memRead16Signed, memRead16Unsigned, if_pos (inMtimecmp_inClint (by omega))]
    dsimp only
    rw [clintGather_mtimecmp 32 (by decide) hk, BitVec.setWidth_setWidth_of_le _ (by decide), BitVec.setWidth_eq]
  · intro k hk
    rw [memRead32Unsigned, if_pos (inMtimecmp_inClint (by omega))]
    exact (clintGather_mtimecmp 32 (by decide) hk).trans (BitVec.setWidth_eq _)
  · intro k hk
    rw [memRead32Signed, memRead32Unsigned, if_pos (inMtimecmp_inClint (by omega))]
    exact (clintGather_mtimecmp 32 (by decide) hk).trans (BitVec.setWidth_eq _)
  · have hgather := clintGather_mtimecmp (s := s) (k := 0) 64 (n := 8) (by decide) (by decide)
    rw [memRead64Unsigned, if_pos (by decide)]
    refine hgather.trans ((BitVec.setWidth_eq _).trans ?_)
    exact BitVec.extractLsb'_eq_self

end

/-! ## The law -/

/-- the access changes the bytes of the register it covers, and nothing else of the timer or of memory -/
structure ChangesItsLanes (s : Machine) (op : MemOp) : Prop where
  lanes : ∀ i < 8, ¬ CoversLane op i → cmpByte (op.step s).dev.clint (clintMtimecmpHart0 + BitVec.ofNat 32 i) =
    cmpByte s.dev.clint (clintMtimecmpHart0 + BitVec.ofNat 32 i)
  mtime : (op.step s).dev.clint.mtime = s.dev.clint.mtime
  mainMemory : (op.step s).mainMemory = s.mainMemory

theorem WritesPiece.changesItsLanes {v : BitVec 64} {op : MemOp} (h : WritesPiece v op) (s : Machine) :
    ChangesItsLanes s op := by
  obtain ⟨x, hw, hin⟩ := h.inMtimecmp
  obtain ⟨hmem, hdev⟩ := MemOp.step_mtimecmp s hw hin
  refine ⟨?_, ?_, hmem⟩
  · intro i hi hno
    rw [MemOp.step_cmpByte s hw hin]
    exact storeLE_other _ _ _ fun hc => hno ⟨x, hw, hc⟩
  · rw [hdev]
    exact clintScatter_mtime ..

/-- **mtimecmp is assembled from any accesses**, in any order. -/
theorem mtimecmp_assembled (s : Machine) (v : BitVec 64) (ops : List MemOp) (h : Tiles ops v) :
    (MemOp.run s ops).dev.clint = ⟨s.dev.clint.mtime, v⟩ ∧ ReadsPieces (MemOp.run s ops) v ∧
      ((csrRead (MemOp.run s ops) csrMip).getLsbD 7 = true ↔ v ≠ 0 ∧ s.dev.clint.mtime ≥ v) ∧
      ∀ t, ∀ op ∈ ops, ChangesItsLanes t op := by
  obtain ⟨hbytes, htime⟩ := MemOp.run_cmpByte s ops fun op ho => (h.piece op ho).inMtimecmp
  have hcmp : (MemOp.run s ops).dev.clint.mtimecmp = v := by
    rw [mtimecmp_eq, hbytes]
    refine loadLE_lastByte (n := 8) _ ?_ ?_
    · intro x hx i hi hc
      obtain ⟨op, ho, hw⟩ := List.mem_filterMap.1 hx
      obtain ⟨y, hy, k, hk, haddr, hval⟩ := h.piece op ho
      obtain rfl : x = y := Option.some.inj (hw.symm.trans hy)
      obtain ⟨a, n, val⟩ := x
      dsimp only at hk haddr hval hc ⊢
      subst haddr hval
      exact byte_piece v hi hk hc
    · intro i hi
      obtain ⟨l₁, op, l₂, rfl, hcovers, -⟩ := h.once i hi
      obtain ⟨x, hw, hc⟩ := hcovers
      exact ⟨x, List.mem_filterMap.2 ⟨op, by simp, hw⟩, hc⟩
  have hclint : (MemOp.run s ops).dev.clint = ⟨s.dev.clint.mtime, v⟩ := by
    rw [← hcmp, ← htime]
  refine ⟨hclint, hcmp ▸ readsPieces _, ?_, fun t op ho => (h.piece op ho).changesItsLanes t⟩
  rw [csrRead_mip, getLsbD_getMip _ (by decide), hclint]
  simp [clintMtipPending]

/-- the high word, the two bytes in the middle of the low one, its first and its last -/
def assembly : List MemOp :=
  [.write32 0x02004004 0x11223344, .write16 0x02004001 0x6677, .write8 0x02004000 0x88, .write8 0x02004003 0x55]

theorem assembly_tiles : Tiles assembly 0x1122334455667788 where
  piece := by
    simp only [assembly, List.forall_mem_cons, List.not_mem_nil, false_implies, implies_true, and_true]
    exact ⟨⟨_, rfl, 4, by decide, by decide, by decide⟩, ⟨_, rfl, 1, by decide, by decide, by decide⟩,
      ⟨_, rfl, 0, by decide, by decide, by decide⟩, ⟨_, rfl, 3, by decide, by decide, by decide⟩⟩
  once := by
    have hword : ∀ i < 8, 4 ≤ i → CoversLane (.write32 0x02004004 0x11223344) i ∧
        ∀ o ∈ assembly.tail, ¬ CoversLane o i := by decide
    have hhalf : ∀ i < 3, 1 ≤ i → CoversLane (.write16 0x02004001 0x6677) i ∧
        ∀ o ∈ assembly.take 1 ++ assembly.drop 2, ¬ CoversLane o i := by decide
    intro i hi
    rcases Nat.lt_or_ge i 4 with hlow | hhigh
    · interval_cases i
      · exact ⟨assembly.take 2, .write8 0x02004000 0x88, assembly.drop 3, rfl, by decide, by decide⟩
      · exact ⟨assembly.take 1, _, assembly.drop 2, rfl, hhalf 1 (by decide) (by decide)⟩
      · exact ⟨assembly.take 1, _, assembly.drop 2, rfl, hhalf 2 (by decide) (by decide)⟩
      · exact ⟨assembly.take 3, .write8 0x02004003 0x55, [], rfl, by decide, by decide⟩
    · exact ⟨[], _, assembly.tail, rfl, hword i hi hhigh⟩

theorem mtimecmp_assembled_pieces :
    (MemOp.run (machineInit (fun _ => 0) (fun _ => 0) 0) assembly).dev.clint = ⟨0, 0x1122334455667788⟩ :=
  (mtimecmp_assembled (machineInit (fun _ => 0) (fun _ => 0) 0) _ _ assembly_tiles).1

end RiscvEmu
