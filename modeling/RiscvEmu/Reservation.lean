/-
The reservations over one instruction.

The table mmu_flags holds a key for each word reserved. A physical write removes the key of its first byte, trap entry
removes all; LR.W adds and SC.W removes the key of the address it is given. Results:
- `Effect`: memory changes in the bytes written only, and a reservation survives unless a trap is taken or a write
  starts in its word;
- `Insn.run_effect`, `execCInsn_effect`: every instruction but LR.W and SC.W;
- `exec_reserves`: every instruction;
- `scFails_iff`: SC.W fails exactly when its word is not reserved.
-/
import RiscvEmu.Lib.Bits
import RiscvEmu.Steps

namespace RiscvEmu

open Bytes

/-! ## The table -/

/-- word k has a reservation -/
def reserved (s : Machine) (k : Word) : Prop := ∃ v, s.mmuFlags.get k = some v ∧ v &&& 1 ≠ 0

section
variable {s s' t : Machine}

theorem getReserveStatus_iff (s : Machine) (addr : Word) :
    getReserveStatus s addr = true ↔ reserved s (getReservationKey addr) := by
  unfold getReserveStatus reserved
  cases s.mmuFlags.get (getReservationKey addr) <;> simp

theorem reserved_congr (h : s'.mmuFlags = s.mmuFlags) (k : Word) : reserved s' k ↔ reserved s k := by
  rw [reserved, reserved, h]

theorem not_reserved_raise (s : Machine) (cause tval epc k : Word) : ¬ reserved (raiseExceptionPc s cause tval epc) k := by
  intro h
  obtain ⟨v, hv, -⟩ := h
  rw [raiseExceptionPc_get] at hv
  cases hv

theorem memClearReservation_get (s : Machine) (addr k : Word) : (memClearReservation s addr).mmuFlags.get k =
    if k = getReservationKey addr then none else s.mmuFlags.get k := by
  unfold memClearReservation
  by_cases hz : s.mmuFlags.size > 0
  · rw [if_pos hz]
    exact Hashmap.get_remove _ _ _
  · rw [if_neg hz, Hashmap.get_of_size_zero (by omega), ite_self]

theorem reserved_memClear (s : Machine) (addr k : Word) :
    reserved (memClearReservation s addr) k ↔ reserved s k ∧ k ≠ getReservationKey addr := by
  unfold reserved
  rw [memClearReservation_get]
  split_ifs with h <;> simp [h]

/-- an aligned address is the key of its word -/
theorem getReservationKey_aligned {addr : Word} (h : addr &&& 3 = 0) : getReservationKey addr = addr := by
  have hs : addr &&& ~~~(3 : Word) ||| addr &&& 3 = addr := by
    rw [← BitVec.and_or_distrib_left, BitVec.or_comm, BitVec.or_not_self, BitVec.and_allOnes]
  rw [h] at hs
  simpa [getReservationKey] using hs

theorem low_bit (v : Word) : v &&& 1 ≠ 0 ↔ v.getLsbD 0 = true := Bits.and_bit_ne_zero (k := 0) v

theorem reserved_set (s : Machine) (addr k : Word) :
    reserved (setReserveStatus s addr) k ↔ reserved s k ∨ k = getReservationKey addr := by
  have hbit : ∀ v : Word, (v ||| 1) &&& 1 ≠ 0 := by
    intro v
    rw [low_bit, BitVec.getLsbD_or]
    exact Bool.or_true _
  unfold reserved
  simp only [setReserveStatus, Hashmap.get_put]
  split_ifs with h
  · exact iff_of_true ⟨_, rfl, hbit _⟩ (Or.inr h)
  · exact (or_iff_left h).symm

theorem reserved_clear (s : Machine) (addr k : Word) :
    reserved (clearReserveStatus s addr) k ↔ reserved s k ∧ k ≠ getReservationKey addr := by
  have hbit : ∀ v : Word, ¬ (v &&& ~~~1 &&& 1 ≠ 0) := by
    intro v
    rw [low_bit, BitVec.getLsbD_and]
    simp
  simp only [clearReserveStatus]
  cases hg : s.mmuFlags.get (getReservationKey addr) with
  | none =>
    refine ⟨fun h => ⟨h, ?_⟩, And.left⟩
    rintro rfl
    obtain ⟨v, hv, -⟩ := h
    exact absurd (hv.symm.trans hg) (by simp)
  | some v =>
    unfold reserved
    simp only
    split_ifs with hz
    · rw [Hashmap.get_remove]
      split_ifs with hk <;> simp [hk]
    · rw [Hashmap.get_put]
      split_ifs with hk
      · refine iff_of_false ?_ fun h => h.2 hk
        intro h
        obtain ⟨u, hu, hb⟩ := h
        obtain rfl := Option.some.inj hu
        exact hbit v hb
      · exact (and_iff_left hk).symm

end

/-! ## Writes -/

/-- a physical write: the address of its first byte and its width -/
structure PhysWrite where
  addr : Word
  width : ℕ
deriving DecidableEq, Repr

/-- byte x is written -/
def PhysWrite.covers (b : PhysWrite) (x : Word) : Prop := (x - b.addr).toNat < b.width

instance (b : PhysWrite) (x : Word) : Decidable (b.covers x) := by unfold PhysWrite.covers; infer_instance

/-- the word of the first byte -/
def PhysWrite.word (b : PhysWrite) : Word := getReservationKey b.addr

/-- an instruction, or a part of one, that makes the writes l -/
structure Effect (s : Machine) (l : List PhysWrite) (s' : Machine) : Prop where
  memory : ∀ x, (∀ b ∈ l, ¬ b.covers x) → s'.mainMemory x = s.mainMemory x
  table : s'.traps = s.traps ∧ (∀ k, reserved s' k ↔ reserved s k ∧ ∀ b ∈ l, k ≠ b.word) ∨
    s.traps.length < s'.traps.length ∧ ∀ k, ¬ reserved s' k

section
variable {s t s' : Machine} {l l' : List PhysWrite}

theorem Effect.same (hm : s'.mainMemory = s.mainMemory) (hf : s'.mmuFlags = s.mmuFlags) (ht : s'.traps = s.traps) :
    Effect s [] s' := by
  refine ⟨fun x _ => by rw [hm], Or.inl ⟨ht, fun k => ?_⟩⟩
  rw [reserved_congr hf]
  simp

theorem Effect.fpu (s : Machine) (f : Fpu) : Effect s [] { s with fpu := f } := .same rfl rfl rfl

theorem Effect.refl (s : Machine) : Effect s [] s := .same rfl rfl rfl

theorem Effect.trans (h : Effect s l t) (h' : Effect t l' s') : Effect s (l ++ l') s' := by
  refine ⟨?_, ?_⟩
  · intro x hx
    rw [h'.memory x fun b hb => hx b (List.mem_append_right _ hb), h.memory x fun b hb => hx b (List.mem_append_left _ hb)]
  · rcases h'.table with ⟨ht', hk'⟩ | ⟨ht', hk'⟩
    · rcases h.table with ⟨ht, hk⟩ | ⟨ht, hk⟩
      · refine Or.inl ⟨ht'.trans ht, ?_⟩
        intro k
        rw [hk', hk, List.forall_mem_append, and_assoc]
      · refine Or.inr ⟨by rw [ht']; exact ht, fun k hr => ?_⟩
        exact hk k ((hk' k).1 hr).1
    · refine Or.inr ⟨?_, hk'⟩
      rcases h.table with ⟨ht, -⟩ | ⟨ht, -⟩
      · rw [ht] at ht'
        exact ht'
      · omega

/-- nothing but registers after it -/
theorem Effect.trans_nil (h : Effect s l t) (h' : Effect t [] s') : Effect s l s' := by
  have := h.trans h'
  rwa [List.append_nil] at this

theorem Effect.nil_trans (h : Effect s [] t) (h' : Effect t l s') : Effect s l s' := h.trans h'

theorem Effect.raise (s : Machine) (cause tval epc : Word) : Effect s [] (raiseExceptionPc s cause tval epc) := by
  refine ⟨fun x _ => by rw [raiseExceptionPc_mainMemory], Or.inr ⟨?_, not_reserved_raise s cause tval epc⟩⟩
  rw [raiseExceptionPc_traps]
  simp

theorem Plain.effect (h : Plain s s') : Effect s [] s' := by
  cases h with
  | regs gpr pc terminated => exact .same rfl rfl rfl
  | trap cause tval => exact .raise _ _ _ _

theorem RegStep.effect (h : RegStep s s') : Effect s [] s' := by
  obtain ⟨gpr, fpu, rfl⟩ := h
  exact .same rfl rfl rfl

/-- the physical writes -/
theorem Effect.write {b : PhysWrite} (hf : s'.mmuFlags = (memClearReservation s b.addr).mmuFlags)
    (ht : s'.traps = s.traps) (hm : ∀ x, ¬ b.covers x → s'.mainMemory x = s.mainMemory x) : Effect s [b] s' := by
  refine ⟨fun x hx => hm x (hx b (List.mem_singleton_self b)), Or.inl ⟨ht, ?_⟩⟩
  intro k
  rw [reserved_congr hf, reserved_memClear, List.forall_mem_singleton]
  rfl

theorem memClearReservation_eq (s : Machine) (addr : Word) :
    memClearReservation s addr = { s with mmuFlags := (memClearReservation s addr).mmuFlags } := by
  unfold memClearReservation
  split_ifs <;> rfl

end

section
variable (s : Machine) (addr : Word)

theorem memWrite8_effect (val : Byte) : Effect s [⟨addr, 1⟩] (memWrite8 s addr val) := by
  unfold memWrite8
  rw [memClearReservation_eq]
  split_ifs
  · exact .write rfl rfl fun _ _ => rfl
  · exact .write rfl rfl fun _ _ => rfl
  · exact .write rfl rfl fun _ _ => rfl
  · exact .write rfl rfl fun _ _ => rfl
  · exact .write rfl rfl fun x hx => storeLE_other s.mainMemory addr val hx

theorem memWrite16_effect (val : BitVec 16) : Effect s [⟨addr, 2⟩] (memWrite16 s addr val) := by
  unfold memWrite16
  rw [memClearReservation_eq]
  split_ifs
  · exact .write rfl rfl fun _ _ => rfl
  · exact .write rfl rfl fun _ _ => rfl
  · exact .write rfl rfl fun x hx => storeLE_other s.mainMemory addr val hx

theorem memWrite32_effect (val : Word) : Effect s [⟨addr, 4⟩] (memWrite32 s addr val) := by
  unfold memWrite32
  rw [memClearReservation_eq]
  split_ifs
  · exact .write rfl rfl fun _ _ => rfl
  · exact .write rfl rfl fun _ _ => rfl
  · exact .write rfl rfl fun _ _ => rfl
  · exact .write rfl rfl fun _ _ => rfl
  · exact .write rfl rfl fun x hx => storeLE_other s.mainMemory addr val hx

theorem memWrite64_effect (val : BitVec 64) : Effect s [⟨addr, 8⟩] (memWrite64 s addr val) := by
  unfold memWrite64
  rw [memClearReservation_eq]
  split_ifs
  · exact .write rfl rfl fun _ _ => rfl
  · exact .write rfl rfl fun _ _ => rfl
  · exact .write rfl rfl fun x hx => storeLE_other s.mainMemory addr val hx

end

/-! ## Virtual accesses -/

/-- the physical write of a store of n bytes, unless its translation faults -/
def accessWrite (s : Machine) (vaddr : Word) (n : ℕ) : List PhysWrite :=
  (mmuWalk s vaddr .store).1.toList.map fun pa => ⟨pa, n⟩

/-- without translation the address of the instruction is the physical one -/
theorem accessWrite_bare {s : Machine} (h : mmuVmActive s (mmuEffectiveDpriv s) = false) (vaddr : Word) (n : ℕ) :
    accessWrite s vaddr n = [⟨vaddr, n⟩] := by
  have hw : (mmuWalk s vaddr .store).1 = some vaddr := by
    simp [mmuWalk, effectivePriv, h]
  rw [accessWrite, hw]
  rfl

section
variable {α : Type} (s : Machine) (vaddr : Word)

theorem mmuTranslate_effect (access : MmuAccess) : Effect s [] (mmuTranslate s vaddr access).2 := by
  rcases hw : mmuWalk s vaddr access with ⟨_ | pa, d⟩
  · rw [mmuTranslate_none hw]
    exact (Effect.same rfl rfl rfl : Effect s [] { s with dev := d }).nil_trans (.raise _ _ _ _)
  · rw [mmuTranslate_some hw]
    exact .same rfl rfl rfl

theorem mmuRead_effect [Zero α] (read : Machine → Word → α × Devices) : Effect s [] (mmuRead read s vaddr).2 := by
  have ht := mmuTranslate_effect s vaddr .load
  unfold mmuRead
  rcases hm : mmuTranslate s vaddr .load with ⟨_ | pa, t⟩
  · rw [hm] at ht
    exact ht
  · rw [hm] at ht
    exact ht.trans_nil (.same rfl rfl rfl)

theorem mmuWrite_effect {n : ℕ} {write : Machine → Word → α → Machine}
    (hw : ∀ s pa val, Effect s [⟨pa, n⟩] (write s pa val)) (val : α) :
    Effect s (accessWrite s vaddr n) (mmuWrite write s vaddr val) := by
  have ht := mmuTranslate_effect s vaddr .store
  unfold accessWrite
  rcases hm : mmuWalk s vaddr .store with ⟨_ | pa, d⟩
  · rw [mmuWrite_none hm]
    rw [mmuTranslate_none hm] at ht
    exact ht
  · rw [mmuWrite_some hm]
    rw [mmuTranslate_some hm] at ht
    exact ht.nil_trans (hw _ _ _)

end

/-! ## The routines -/

/-- the bytes a store writes -/
def StoreOp.width : StoreOp → ℕ
  | .sb => 1
  | .sh => 2
  | .sw => 4

/-- the bits of an address that must be clear -/
def StoreOp.mask : StoreOp → Word
  | .sb => 0
  | .sh => 1
  | .sw => 3

/-- the writes of a store, none where it raises an exception -/
def StoreOp.writes (op : StoreOp) (s : Machine) (imm : Word) (rs1 : Reg) : List PhysWrite :=
  let addr := regRead s rs1 + imm
  if sdtrigCheckStoreTrigger s addr = none ∧ addr &&& op.mask = 0 then accessWrite s addr op.width else []

/-- the writes of an FP store: FSQ makes two -/
def FStoreOp.writes (op : FStoreOp) (s : Machine) (imm : Word) (rs1 rs2 : Reg) : List PhysWrite :=
  let addr := regRead s rs1 + imm
  match op with
  | .fsh => accessWrite s addr 2
  | .fsw => accessWrite s addr 4
  | .fsd => accessWrite s addr 8
  | .fsq =>
    accessWrite s addr 8 ++ accessWrite (mmuWrite64 s addr ((fprRead .Q s.fpu rs2).setWidth 64)) (addr + 8) 8

section
variable (s : Machine) (imm : Word) (rs1 rs2 rd : Reg)

theorem LoadOp.exec_effect (op : LoadOp) : Effect s [] (op.exec s imm rs1 rd) := by
  rw [op.exec_eq]
  rcases insiILoad_cases op.mask op.read s imm rs1 rd with
    ⟨-, h⟩ | ⟨-, -, h⟩ | ⟨-, -, d, -, h⟩ | ⟨-, -, pa, d, -, h⟩
  · rw [h]; exact .raise _ _ _ _
  · rw [h]; exact .raise _ _ _ _
  · rw [h]
    have hd : Effect s [] { s with dev := d } := .same rfl rfl rfl
    exact hd.nil_trans ((Effect.raise _ _ _ _).trans_nil (.same rfl rfl rfl))
  · rw [h]; exact .same rfl rfl rfl

theorem insiSStore_effect {α : Type} {n : ℕ} (mask : Word) {write : Machine → Word → α → Machine} (trunc : Word → α)
    (hw : ∀ s pa val, Effect s [⟨pa, n⟩] (write s pa val)) :
    Effect s (if sdtrigCheckStoreTrigger s (regRead s rs1 + imm) = none ∧ (regRead s rs1 + imm) &&& mask = 0 then
        accessWrite s (regRead s rs1 + imm) n else [])
      (insiSStore mask (fun s a v => mmuWrite write s a (trunc v)) s imm rs2 rs1) := by
  unfold accessWrite
  rcases insiSStore_cases mask write trunc s imm rs2 rs1 with
    ⟨ht, h⟩ | ⟨ht, ha, h⟩ | ⟨ht, ha, d, hm, h⟩ | ⟨ht, ha, pa, d, hm, h⟩
  · rw [h, if_neg fun hc => ht hc.1]
    exact .raise _ _ _ _
  · rw [h, if_neg fun hc => ha hc.2]
    exact .raise _ _ _ _
  · rw [h, if_pos ⟨ht, ha⟩, hm]
    have hd : Effect s [] { s with dev := d } := .same rfl rfl rfl
    exact hd.nil_trans (.raise _ _ _ _)
  · rw [h, if_pos ⟨ht, ha⟩, hm]
    have hd : Effect s [] { s with dev := d } := .same rfl rfl rfl
    exact hd.nil_trans (hw _ _ _)

theorem StoreOp.exec_effect (op : StoreOp) : Effect s (op.writes s imm rs1) (op.exec s imm rs2 rs1) := by
  unfold StoreOp.writes
  cases op with
  | sb => exact insiSStore_effect s imm rs1 rs2 0 (fun v => (v &&& 0xFF).setWidth 8) memWrite8_effect
  | sh => exact insiSStore_effect s imm rs1 rs2 1 (fun v => (v &&& 0xFFFF).setWidth 16) memWrite16_effect
  | sw => exact insiSStore_effect s imm rs1 rs2 3 id memWrite32_effect

theorem FLoadOp.exec_effect (op : FLoadOp) : Effect s [] (op.exec s imm rs1 rd) := by
  cases op with
  | flh => exact (mmuRead_effect s _ memRead16Unsigned).trans_nil (.fpu _ _)
  | flw => exact (mmuRead_effect s _ memRead32Unsigned).trans_nil (.fpu _ _)
  | fld => exact (mmuRead_effect s _ memRead64Unsigned).trans_nil (.fpu _ _)
  | flq =>
    have h2 := (mmuRead_effect s (regRead s rs1 + imm) memRead64Unsigned).nil_trans
      (mmuRead_effect _ (regRead s rs1 + imm + 8) memRead64Unsigned)
    exact h2.trans_nil (.fpu _ _)

theorem FStoreOp.exec_effect (op : FStoreOp) : Effect s (op.writes s imm rs1 rs2) (op.exec s imm rs1 rs2) := by
  cases op with
  | fsh => exact mmuWrite_effect s _ memWrite16_effect _
  | fsw => exact mmuWrite_effect s _ memWrite32_effect _
  | fsd => exact mmuWrite_effect s _ memWrite64_effect _
  | fsq => exact (mmuWrite_effect s _ memWrite64_effect _).trans (mmuWrite_effect _ _ memWrite64_effect _)

theorem csrWrite_effect (csr : Csr) (val : Word) : Effect s [] (csrWrite s csr val) := by
  unfold csrWrite
  split_ifs
  · cases (csrTable csr).writeCallback with
    | none => exact .same rfl rfl rfl
    | some f =>
      cases f with
      | setFcsr => simp only [WriteCallback.run, setFcsr]; split_ifs <;> exact .same rfl rfl rfl
      | setFrm => simp only [WriteCallback.run, setFrm]; split_ifs <;> exact .same rfl rfl rfl
      | _ => exact .same rfl rfl rfl
  · exact .refl s

theorem CsrOp.exec_effect (op : CsrOp) (csr : Csr) (ins : Word) : Effect s [] (op.exec s rs1 rd csr ins) := by
  have hcheck : Effect s [] (checkCsrAccess s csr ins) := by
    unfold checkCsrAccess
    split_ifs
    · exact .raise _ _ _ _
    · exact .refl s
  rw [op.exec_eq]
  simp only [insZicsr]
  cases op.newVal rs1 (checkCsrAccess s csr ins) (csrRead (checkCsrAccess s csr ins) csr) with
  | none =>
    simp only
    split_ifs
    · exact hcheck.nil_trans (.same rfl rfl rfl)
    · exact hcheck
  | some val =>
    simp only
    have hw := hcheck.nil_trans (csrWrite_effect _ csr val)
    split_ifs
    · exact hw.nil_trans (.same rfl rfl rfl)
    · exact hw

theorem insSret_effect : Effect s [] (insSret s) := by
  unfold insSret
  split_ifs
  · exact .raise _ _ _ _
  · exact (csrWrite_effect s csrSstatus (sstatusOnReturn (csrRead s csrSstatus))).trans_nil (.same rfl rfl rfl)

end

/-! ## Every instruction -/

/-- the writes of an instruction; an AMO translates its address again after its read, SC.W writes if it succeeds -/
def Insn.writes (s : Machine) : Insn → List PhysWrite
  | .store op imm _ rs1 => op.writes s imm rs1
  | .fp (.store op imm rs1 rs2) => if fpuFsOff s then [] else op.writes s imm rs1 rs2
  | .atomic (.amo _) rs1 _ _ => accessWrite (mmuRead32Unsigned s (regRead s rs1)).2 (regRead s rs1) 4
  | .atomic .sc rs1 _ _ => if getReserveStatus s (regRead s rs1) then accessWrite s (regRead s rs1) 4 else []
  | _ => []

/-- the address of an LR.W -/
def Insn.lrAddr (s : Machine) : Insn → Option Word
  | .atomic .lr rs1 _ _ => some (regRead s rs1)
  | _ => none

/-- the address of an SC.W -/
def Insn.scAddr (s : Machine) : Insn → Option Word
  | .atomic .sc rs1 _ _ => some (regRead s rs1)
  | _ => none

theorem AmoOp.exec_effect {o : AmoOp} {s s' : Machine} {rs1 rs2 rd : Reg} (h : o.exec s rs1 rs2 rd = .ok s') :
    Effect s (accessWrite (mmuRead32Unsigned s (regRead s rs1)).2 (regRead s rs1) 4) s' := by
  obtain ⟨-, value, rfl⟩ := AmoOp.exec_cases h
  have hr := mmuRead_effect s (regRead s rs1) memRead32Unsigned
  exact (hr.nil_trans (mmuWrite_effect _ _ memWrite32_effect _)).trans_nil (.same rfl rfl rfl)

section
variable [SoftFloat] {s s' : Machine} {ins : Word}

theorem FpInsn.run_effect {i : FpInsn} (hfs : fpuFsOff s = false) (h : i.run s ins = .ok s') :
    Effect s ((Insn.fp i).writes s) s' := by
  cases i with
  | load op imm rs1 rd => obtain rfl := Except.ok.inj h; exact op.exec_effect s imm rs1 rd
  | store op imm rs1 rs2 =>
    obtain rfl := Except.ok.inj h
    rw [Insn.writes, if_neg (by rw [hfs]; decide)]
    exact op.exec_effect s imm rs1 rs2
  | fma subop => obtain rfl := Except.ok.inj h; exact (insfRFma_frame s ins subop).effect
  | fpop => exact (insfRFpop_frame h).effect
  | fatal f => cases h

/-- **Every instruction but LR.W and SC.W.** -/
theorem Insn.run_effect {i : Insn} (hlr : i.lrAddr s = none) (hsc : i.scAddr s = none) (h : i.run s ins = .ok s') :
    Effect s (i.writes s) s' := by
  cases i with
  | fatal f => cases h
  | fp i =>
    simp only [Insn.run] at h
    cases hfs : fpuFsOff s with
    | true =>
      rw [hfs, if_pos rfl] at h
      obtain rfl := Except.ok.inj h
      have hw : (Insn.fp i).writes s = [] := by
        cases i <;> simp [Insn.writes, hfs]
      rw [hw]
      exact .raise _ _ _ _
    | false =>
      rw [hfs, if_neg Bool.false_ne_true] at h
      exact FpInsn.run_effect hfs h
  | atomic a rs1 rs2 rd =>
    cases a with
    | amo o => exact AmoOp.exec_effect h
    | lr => cases hlr
    | sc => cases hsc
  | load op imm rs1 rd => obtain rfl := Except.ok.inj h; exact op.exec_effect s imm rs1 rd
  | store op imm rs2 rs1 => obtain rfl := Except.ok.inj h; exact op.exec_effect s imm rs1 rs2
  | zicsr op rs1 rd csr => obtain rfl := Except.ok.inj h; exact op.exec_effect s rs1 rd csr ins
  | sret => obtain rfl := Except.ok.inj h; exact insSret_effect s
  | mret => obtain rfl := Except.ok.inj h; exact .same rfl rfl rfl
  | mnret => obtain rfl := Except.ok.inj h; exact .same rfl rfl rfl
  | _ => exact (Insn.run_plain rfl h).effect

end

/-! ## The compressed instructions -/

/-- the writes of a compressed store -/
def compressedWrites (s : Machine) (c : BitVec 16) : List PhysWrite :=
  match c.extractLsb' 0 2, c.extractLsb' 13 3 with
  | 0#2, 5#3 => FStoreOp.fsd.writes s (cLsUimm c) (cRs1p c) (cRs2p c)
  | 0#2, 6#3 => StoreOp.sw.writes s (cLsUimm c) (cRs1p c)
  | 0#2, 7#3 => FStoreOp.fsw.writes s (cLsUimm c) (cRs1p c) (cRs2p c)
  | 2#2, 6#3 => StoreOp.sw.writes s (cSwspUimm c) 2
  | _, _ => []

section
variable {s : Machine} {c : BitVec 16}

theorem cAccess_effect {f : Machine → Machine} {l : List PhysWrite} (h : Effect s l (f s)) :
    Effect s l (cAccess s f).1 := by
  simp only [cAccess]
  split_ifs
  · exact h.trans_nil (.same rfl rfl rfl)
  · exact h

theorem compressedAccess_effect {f : Machine → Machine} (h : compressedAccess c = some f) :
    Effect s (compressedWrites s c) (f s) := by
  unfold compressedAccess at h
  simp only at h
  unfold compressedWrites
  split at h
  case h_9 => cases h
  case h_7 hq h3 =>
    split_ifs at h
    obtain rfl := Option.some.inj h
    rw [hq, h3]
    exact LoadOp.exec_effect s _ _ _ .lw
  all_goals
    rename_i hq h3
    obtain rfl := Option.some.inj h
    rw [hq, h3]
  · exact FLoadOp.exec_effect s _ _ _ .fld
  · exact LoadOp.exec_effect s _ _ _ .lw
  · exact FLoadOp.exec_effect s _ _ _ .flw
  · exact FStoreOp.exec_effect s _ _ _ .fsd
  · exact StoreOp.exec_effect s _ _ _ .sw
  · exact FStoreOp.exec_effect s _ _ _ .fsw
  · exact StoreOp.exec_effect s _ _ _ .sw

/-- a compressed instruction without an access makes no write -/
theorem compressedWrites_none (h : compressedAccess c = none) : compressedWrites s c = [] := by
  unfold compressedWrites
  split
  all_goals
    first
      | rfl
      | rename_i hq h3
        simp [compressedAccess, hq, h3] at h

/-- **The compressed instructions.** -/
theorem execCInsn_effect (h3 : c.extractLsb' 0 2 ≠ 3#2) : Effect s (compressedWrites s c) (execCInsn s c).1 := by
  cases ha : compressedAccess c with
  | some f =>
    rw [execCInsn_access ha]
    exact cAccess_effect (compressedAccess_effect ha)
  | none =>
    rw [compressedWrites_none ha]
    exact (execCInsn_plain h3 ha).effect

end

/-! ## exec -/

/-- the writes the word makes in state s -/
def execWrites (s : Machine) (ins : Word) : List PhysWrite :=
  if ¬ fetchAligned s then []
  else if misaCEnabled s ∧ ins.extractLsb' 0 2 ≠ 3 then compressedWrites s (ins.setWidth 16)
  else (decode ins).writes s

/-- the word is an LR.W to address a -/
def isLr (s : Machine) (ins a : Word) : Prop := toSwitch s ins ∧ (decode ins).lrAddr s = some a

/-- the word is an SC.W to address a -/
def isSc (s : Machine) (ins a : Word) : Prop := toSwitch s ins ∧ (decode ins).scAddr s = some a

theorem isLr_eq {s : Machine} {ins a : Word} (h : isLr s ins a) :
    ∃ rs1 rs2 rd, decode ins = .atomic .lr rs1 rs2 rd ∧ regRead s rs1 = a := by
  obtain ⟨-, haddr⟩ := h
  cases hd : decode ins with
  | atomic o rs1 rs2 rd =>
    rw [hd] at haddr
    cases o with
    | lr => exact ⟨rs1, rs2, rd, rfl, Option.some.inj haddr⟩
    | _ => cases haddr
  | _ => rw [hd] at haddr; cases haddr

theorem isSc_eq {s : Machine} {ins a : Word} (h : isSc s ins a) :
    ∃ rs1 rs2 rd, decode ins = .atomic .sc rs1 rs2 rd ∧ regRead s rs1 = a := by
  obtain ⟨-, haddr⟩ := h
  cases hd : decode ins with
  | atomic o rs1 rs2 rd =>
    rw [hd] at haddr
    cases o with
    | sc => exact ⟨rs1, rs2, rd, rfl, Option.some.inj haddr⟩
    | _ => cases haddr
  | _ => rw [hd] at haddr; cases haddr

section
variable {s s' : Machine} {rs1 rs2 rd : Reg}

/-- LR.W is a read, then the reservation, also after a page fault -/
theorem insaRLrW_eq (h : insaRLrW s rs1 rd = .ok s') : ∃ u, Effect s [] u ∧ s' = setReserveStatus u (regRead s rs1) ∧
    getReservationKey (regRead s rs1) = regRead s rs1 := by
  simp only [insaRLrW] at h
  split_ifs at h with ha
  obtain rfl := Except.ok.inj h
  have hr := mmuRead_effect s (regRead s rs1) memRead32Unsigned
  have hw : Effect (mmuRead32Unsigned s (regRead s rs1)).2 []
      (regWrite (mmuRead32Unsigned s (regRead s rs1)).2 rd (mmuRead32Unsigned s (regRead s rs1)).1) := .same rfl rfl rfl
  exact ⟨_, hr.nil_trans hw, rfl, getReservationKey_aligned (not_not.1 ha)⟩

/-- SC.W on a word that is not reserved fails; else it writes and gives up the reservation -/
theorem insaRScW_eq (h : insaRScW s rs1 rs2 rd = .ok s') :
    getReservationKey (regRead s rs1) = regRead s rs1 ∧
      (getReserveStatus s (regRead s rs1) = false ∧ s' = regWrite s rd 1 ∨
        getReserveStatus s (regRead s rs1) = true ∧ ∃ u, Effect s (accessWrite s (regRead s rs1) 4) u ∧
          s' = clearReserveStatus u (regRead s rs1)) := by
  simp only [insaRScW] at h
  split_ifs at h with ha hs
  · obtain rfl := Except.ok.inj h
    have hw := mmuWrite_effect s (regRead s rs1) memWrite32_effect (regRead s rs2)
    have hr : Effect (mmuWrite32 s (regRead s rs1) (regRead s rs2)) []
        (regWrite (mmuWrite32 s (regRead s rs1) (regRead s rs2)) rd 0) := .same rfl rfl rfl
    exact ⟨getReservationKey_aligned (not_not.1 ha), Or.inr ⟨hs, _, hw.trans_nil hr, rfl⟩⟩
  · obtain rfl := Except.ok.inj h
    exact ⟨getReservationKey_aligned (not_not.1 ha), Or.inl ⟨Bool.eq_false_iff.2 hs, rfl⟩⟩

end

/-- the reservations after a step that makes the writes l, reserves the words lr and gives up the words sc -/
structure Reserves (s s' : Machine) (l : List PhysWrite) (lr sc : Word → Prop) : Prop where
  memory : ∀ x, (∀ b ∈ l, ¬ b.covers x) → s'.mainMemory x = s.mainMemory x
  traps_le : s.traps.length ≤ s'.traps.length
  quiet : s'.traps.length = s.traps.length → ∀ k, reserved s' k ↔ lr k ∨ reserved s k ∧ (∀ b ∈ l, k ≠ b.word) ∧ ¬ sc k
  trap : s'.traps.length ≠ s.traps.length → ∀ k, reserved s' k ↔ lr k

section
variable {s u s' : Machine} {l : List PhysWrite} {a : Word}

theorem Effect.reserves (h : Effect s l s') : Reserves s s' l (fun _ => False) (fun _ => False) := by
  refine ⟨h.memory, ?_, ?_, ?_⟩
  · rcases h.table with ⟨ht, -⟩ | ⟨ht, -⟩
    · rw [ht]
    · omega
  · intro hn k
    rcases h.table with ⟨-, hk⟩ | ⟨ht, -⟩
    · rw [hk]; simp
    · omega
  · intro hn k
    rcases h.table with ⟨ht, -⟩ | ⟨-, hk⟩
    · exact absurd (by rw [ht]) hn
    · exact iff_of_false (hk k) id

theorem Reserves.lr (h : Effect s [] u) (ha : getReservationKey a = a) :
    Reserves s (setReserveStatus u a) [] (fun k => a = k) (fun _ => False) := by
  have hu := h.reserves
  refine ⟨hu.memory, hu.traps_le, ?_, ?_⟩
  · intro hn k
    rw [reserved_set, ha, hu.quiet hn]
    simp [or_comm, eq_comm]
  · intro hn k
    rw [reserved_set, ha, hu.trap hn, false_or, eq_comm]

theorem Reserves.sc (h : Effect s l u) (ha : getReservationKey a = a) :
    Reserves s (clearReserveStatus u a) l (fun _ => False) (fun k => a = k) := by
  have hu := h.reserves
  have hk : Kept u (clearReserveStatus u a) := clearReserveStatus_kept u a
  have hmem : (clearReserveStatus u a).mainMemory = u.mainMemory := by
    simp only [clearReserveStatus]
    split
    · rfl
    · split_ifs <;> rfl
  refine ⟨?_, ?_, ?_, ?_⟩
  · intro x hx
    rw [hmem, hu.memory x hx]
  · rw [hk.traps]
    exact hu.traps_le
  · intro hn k
    rw [hk.traps] at hn
    rw [reserved_clear, ha, hu.quiet hn]
    simp only [false_or, not_false_eq_true, and_true, and_assoc, ne_eq, eq_comm]
  · intro hn k
    rw [hk.traps] at hn
    rw [reserved_clear, hu.trap hn, false_and]

/-- an SC.W that fails has no reservation to give up -/
theorem Reserves.scFails (hm : s'.mainMemory = s.mainMemory) (hf : s'.mmuFlags = s.mmuFlags) (ht : s'.traps = s.traps)
    (ha : getReservationKey a = a) (hn : getReserveStatus s a = false) :
    Reserves s s' [] (fun _ => False) (fun k => a = k) := by
  have hs := (Effect.same hm hf ht).reserves
  have hr : ¬ reserved s a := by
    rw [← ha, ← getReserveStatus_iff, hn]
    decide
  refine ⟨hs.memory, hs.traps_le, ?_, hs.trap⟩
  intro he k
  rw [hs.quiet he]
  by_cases hk : a = k
  · subst hk
    simp [hr]
  · simp [hk]

/-- what comes before a step and makes no write -/
theorem Reserves.after {l : List PhysWrite} {lr sc : Word → Prop} {t : Machine} (h : Reserves t s' l lr sc)
    (he : Effect s [] t) : Reserves s s' l lr sc := by
  have hr := he.reserves
  have hle := hr.traps_le
  have hle' := h.traps_le
  refine ⟨fun x hx => ?_, by omega, fun hn k => ?_, fun hn k => ?_⟩
  · rw [h.memory x hx, hr.memory x (by simp)]
  · rw [h.quiet (by omega), hr.quiet (by omega)]
    simp
  · by_cases ht : s'.traps.length = t.traps.length
    · rw [h.quiet ht, hr.trap (by omega)]
      simp
    · exact h.trap ht k

end

section
variable [SoftFloat] {s s' : Machine} {ins : Word}

theorem Insn.run_reserves {i : Insn} (h : i.run s ins = .ok s') :
    Reserves s s' (i.writes s) (fun k => i.lrAddr s = some k) (fun k => i.scAddr s = some k) := by
  cases hlr : i.lrAddr s with
  | some a =>
    cases i with
    | atomic o rs1 rs2 rd =>
      cases o with
      | lr =>
        obtain rfl := Option.some.inj hlr
        obtain ⟨u, hu, rfl, ha⟩ := insaRLrW_eq h
        simpa [Insn.writes, Insn.scAddr] using Reserves.lr hu ha
      | _ => cases hlr
    | _ => cases hlr
  | none =>
    cases hsc : i.scAddr s with
    | some a =>
      cases i with
      | atomic o rs1 rs2 rd =>
        cases o with
        | sc =>
          obtain rfl := Option.some.inj hsc
          simp only [Insn.writes, reduceCtorEq, Option.some.injEq]
          obtain ⟨ha, ⟨hf, rfl⟩ | ⟨hf, u, hu, rfl⟩⟩ := insaRScW_eq h
          · rw [hf, if_neg Bool.false_ne_true]
            exact Reserves.scFails rfl rfl rfl ha hf
          · rw [hf, if_pos rfl]
            exact Reserves.sc hu ha
        | _ => cases hsc
      | _ => cases hsc
    | none => simpa using (Insn.run_effect hlr hsc h).reserves

/-- **One instruction.** A trap leaves the reservation of a faulting LR.W only. Without a trap, a word is reserved
after it if it was LR.W to the word, or if the word was reserved, no write of it starts in the word and it is no SC.W to
the word. Memory changes in the bytes it writes only. -/
theorem exec_reserves (h : exec s ins = .ok s') :
    Reserves s s' (execWrites s ins) (isLr s ins) (isSc s ins) := by
  unfold isLr isSc execWrites
  obtain ⟨ha, rfl⟩ | ⟨ha, hc, rfl⟩ | ⟨hs, hrun⟩ := exec_cases h
  · simpa [toSwitch, ha] using (Effect.raise s causeMisalignedFetch s.pc s.gPrevInsPc).reserves
  · have he := execCInsn_effect (s := s) (compressed_quadrant hc.2)
    have hs : ¬ toSwitch s ins := fun hs => hs.2 hc
    rw [if_neg (not_not.2 ha), if_pos hc]
    simpa [hs] using he.reserves
  · rw [if_neg (not_not.2 hs.1), if_neg hs.2]
    simpa [hs] using Insn.run_reserves hrun

/-- a misaligned LR.W is a fatal error -/
theorem isLr_aligned {a : Word} (h : isLr s ins a) (hok : exec s ins = .ok s') : a &&& 3 = 0 := by
  obtain ⟨rs1, rs2, rd, hd, rfl⟩ := isLr_eq h
  rw [exec_decode h.1.1 h.1.2, hd] at hok
  have hrun : insaRLrW s rs1 rd = .ok s' := hok
  simp only [insaRLrW] at hrun
  split_ifs at hrun with ha
  exact not_not.1 ha

/-- an aligned SC.W is none -/
theorem isSc_ok {a : Word} (h : isSc s ins a) (ha : a &&& 3 = 0) : ∃ s', exec s ins = .ok s' := by
  obtain ⟨rs1, rs2, rd, hd, rfl⟩ := isSc_eq h
  rw [exec_decode h.1.1 h.1.2, hd]
  change ∃ s', insaRScW s rs1 rs2 rd = .ok s'
  simp only [insaRScW, if_neg (not_not.2 ha)]
  split_ifs <;> exact ⟨_, rfl⟩

/-- SC.W has failed: it answers 1 and does nothing else -/
def scFails (s : Machine) (ins : Word) : Prop :=
  ∃ rs1 rs2 rd, decode ins = .atomic .sc rs1 rs2 rd ∧ exec s ins = .ok (regWrite s rd 1)

/-- **SC.W fails exactly when its word is not reserved.** -/
theorem scFails_iff {a : Word} (hsc : isSc s ins a) (h : exec s ins = .ok s') : scFails s ins ↔ ¬ reserved s a := by
  obtain ⟨rs1, rs2, rd, hd, rfl⟩ := isSc_eq hsc
  have hrun := h
  rw [exec_decode hsc.1.1 hsc.1.2, hd] at hrun
  obtain ⟨ha, hcases⟩ := insaRScW_eq hrun
  have hr : reserved s (regRead s rs1) ↔ getReserveStatus s (regRead s rs1) = true := by
    rw [getReserveStatus_iff, ha]
  rcases hcases with ⟨hf, rfl⟩ | ⟨hf, u, hu, rfl⟩
  · refine iff_of_true ⟨rs1, rs2, rd, hd, h⟩ ?_
    rw [hr, hf]
    decide
  · refine iff_of_false ?_ (by rw [hr]; exact fun hn => hn hf)
    intro hx
    obtain ⟨rs1', rs2', rd', hd', hx⟩ := hx
    -- a failing SC.W would leave its word reserved
    have he := Except.ok.inj (h.symm.trans hx)
    have hk : reserved (clearReserveStatus u (regRead s rs1)) (regRead s rs1) := by
      rw [he]
      exact hr.2 hf
    rw [reserved_clear] at hk
    exact hk.2 ha.symm

end

end RiscvEmu
