/-
What trap entry, translation and memory accesses change, field by field.

- `raiseExceptionPc_*`, `raiseInterrupt_*`: trap entry changes privilege, pc, the reservations, just_trapped and the
  trap CSRs of one mode, and records one trap;
- `csr_mstatus_csrWrite`: a CSR write reaches mstatus through one of its two views;
- `mmuTranslate_some`, `mmuTranslate_none`: a translation changes devices only, or is a trap entry;
- `memWrite*_memStep`: a write changes memory, devices and reservations only.
-/
import RiscvEmu.Mmu

namespace RiscvEmu

open Bytes

/-! ## Trap entry -/

/-- the mode a trap with this cause goes to, by the delegation register given -/
def trapMode (s : Machine) (deleg cause : Word) : Priv :=
  if delegateToS s.privilege deleg cause then prvSupervisor else prvMachine

/-- the mode an exception goes to -/
def exceptionMode (s : Machine) (cause : Word) : Priv := trapMode s (s.csr csrMedeleg) cause

def epcOf (mode : Priv) : Csr := if mode = prvMachine then csrMepc else csrSepc
def causeOf (mode : Priv) : Csr := if mode = prvMachine then csrMcause else csrScause
def tvalOf (mode : Priv) : Csr := if mode = prvMachine then csrMtval else csrStval
def tvecOf (mode : Priv) : Csr := if mode = prvMachine then csrMtvec else csrStvec

/-- mstatus after a trap into the given mode from the given privilege -/
def statusOnTrap (mode : Priv) (mstatus : Word) (privilege : Priv) : Word :=
  if mode = prvMachine then mstatusOnTrap mstatus privilege &&& mstatusWritableMask
  else sstatusInto mstatus (sstatusOnTrap (sstatusOf mstatus) privilege)

/-- the CSR values after a trap into the given mode -/
def trapCsr (s : Machine) (mode : Priv) (cause tval epc : Word) : Csr → Word :=
  Function.update (Function.update (Function.update (Function.update s.csr
    csrMstatus (statusOnTrap mode (s.csr csrMstatus) s.privilege)) (causeOf mode) cause) (tvalOf mode) tval)
    (epcOf mode) epc

/-- the CSRs trap entry leaves alone, among those the model names -/
def keptByTrap (c : Csr) : Prop :=
  c ≠ csrMstatus ∧ c ≠ csrMcause ∧ c ≠ csrMtval ∧ c ≠ csrMepc ∧ c ≠ csrScause ∧ c ≠ csrStval ∧ c ≠ csrSepc

instance (c : Csr) : Decidable (keptByTrap c) := by unfold keptByTrap; infer_instance

section
variable (s : Machine) (mode : Priv) (cause tval epc : Word)

theorem trapCsr_mstatus :
    trapCsr s mode cause tval epc csrMstatus = statusOnTrap mode (s.csr csrMstatus) s.privilege := by
  unfold trapCsr causeOf tvalOf epcOf
  split_ifs <;> rfl

theorem trapCsr_epc : trapCsr s mode cause tval epc (epcOf mode) = epc := by simp [trapCsr]

theorem trapCsr_tval : trapCsr s mode cause tval epc (tvalOf mode) = tval := by
  unfold trapCsr tvalOf epcOf
  split_ifs <;> simp

theorem trapCsr_cause : trapCsr s mode cause tval epc (causeOf mode) = cause := by
  unfold trapCsr causeOf tvalOf epcOf
  split_ifs <;> simp

theorem trapCsr_kept {c : Csr} (hk : keptByTrap c) : trapCsr s mode cause tval epc c = s.csr c := by
  obtain ⟨hmstatus, hmcause, hmtval, hmepc, hscause, hstval, hsepc⟩ := hk
  unfold trapCsr causeOf tvalOf epcOf
  split_ifs <;> simp [Function.update_of_ne, *]

/-- **Trap entry, in closed form.** Exceptions and interrupts differ in the delegation register, the cause and the pc. -/
def trapEntry (deleg irq pc : Word) : Machine :=
  let mode := trapMode s deleg irq
  { s with
    mmuFlags := (clearReservations s).mmuFlags, privilege := mode, pc := pc, csr := trapCsr s mode cause tval epc,
    justTrapped := s.justTrapped || mode = prvMachine, traps := ⟨cause, tval, epc, s.privilege, mode⟩ :: s.traps }

end

section
variable (s : Machine)

/-- trap entry clears the reservations and nothing else before it saves the state -/
theorem clearReservations_eq : clearReservations s = { s with mmuFlags := (clearReservations s).mmuFlags } := by
  unfold clearReservations
  split_ifs <;> rfl

theorem clearReservations_get (k : Word) : (clearReservations s).mmuFlags.get k = none := by
  unfold clearReservations
  split_ifs with h
  · exact Hashmap.get_clear _ _
  · exact Hashmap.get_of_size_zero (by omega) _

end

section
variable (s : Machine) (cause tval epc : Word)

theorem raiseExceptionPc_eq : raiseExceptionPc s cause tval epc =
    trapEntry s cause tval epc (s.csr csrMedeleg) cause
      ((s.csr (tvecOf (exceptionMode s cause)) &&& ~~~(3 : Word)) - 4) := by
  unfold raiseExceptionPc trapEntry exceptionMode trapMode
  rw [clearReservations_eq s]
  cases hd : delegateToS s.privilege (s.csr csrMedeleg) cause <;> simp [hd]
  · simp [raiseMachineException, enterMachine, tvecOf, trapCsr, statusOnTrap, causeOf, tvalOf, epcOf]
  · simp [raiseSupervisorException, enterSupervisor, tvecOf, trapCsr, statusOnTrap, causeOf, tvalOf, epcOf]

theorem raiseInterrupt_eq (irq : Word) : raiseInterrupt s irq =
    trapEntry s (irq ||| 1#32 <<< 31) 0 s.pc (s.csr csrMideleg) irq
      (interruptVector (s.csr (tvecOf (trapMode s (s.csr csrMideleg) irq))) irq) := by
  unfold raiseInterrupt trapEntry trapMode
  rw [clearReservations_eq s]
  cases hd : delegateToS s.privilege (s.csr csrMideleg) irq <;> simp [hd]
  · simp [raiseMachineInterrupt, enterMachine, tvecOf, trapCsr, statusOnTrap, causeOf, tvalOf, epcOf]
  · simp [raiseSupervisorInterruptInternal, enterSupervisor, tvecOf, trapCsr, statusOnTrap, causeOf, tvalOf, epcOf]

@[simp] theorem raiseException_eq_pc : raiseException s cause tval = raiseExceptionPc s cause tval s.pc := rfl
@[simp] theorem raiseIllegal_eq (ins : Word) :
    raiseIllegal s ins = raiseExceptionPc s causeIllegalInstruction ins s.pc := rfl

@[simp] theorem raiseExceptionPc_gpr : (raiseExceptionPc s cause tval epc).gpr = s.gpr := by
  rw [raiseExceptionPc_eq]; rfl
@[simp] theorem raiseExceptionPc_mainMemory : (raiseExceptionPc s cause tval epc).mainMemory = s.mainMemory := by
  rw [raiseExceptionPc_eq]; rfl
@[simp] theorem raiseExceptionPc_terminated : (raiseExceptionPc s cause tval epc).terminated = s.terminated := by
  rw [raiseExceptionPc_eq]; rfl
@[simp] theorem raiseExceptionPc_trig : (raiseExceptionPc s cause tval epc).trig = s.trig := by
  rw [raiseExceptionPc_eq]; rfl
@[simp] theorem raiseExceptionPc_fpu : (raiseExceptionPc s cause tval epc).fpu = s.fpu := by
  rw [raiseExceptionPc_eq]; rfl
@[simp] theorem raiseExceptionPc_gPrevInsPc : (raiseExceptionPc s cause tval epc).gPrevInsPc = s.gPrevInsPc := by
  rw [raiseExceptionPc_eq]; rfl
@[simp] theorem raiseExceptionPc_dev : (raiseExceptionPc s cause tval epc).dev = s.dev := by
  rw [raiseExceptionPc_eq]; rfl

@[simp] theorem raiseExceptionPc_traps : (raiseExceptionPc s cause tval epc).traps =
    ⟨cause, tval, epc, s.privilege, exceptionMode s cause⟩ :: s.traps := by
  rw [raiseExceptionPc_eq]; rfl
@[simp] theorem raiseExceptionPc_privilege :
    (raiseExceptionPc s cause tval epc).privilege = exceptionMode s cause := by
  rw [raiseExceptionPc_eq]; rfl
@[simp] theorem raiseExceptionPc_csr :
    (raiseExceptionPc s cause tval epc).csr = trapCsr s (exceptionMode s cause) cause tval epc := by
  rw [raiseExceptionPc_eq]; rfl
@[simp] theorem raiseExceptionPc_pc : (raiseExceptionPc s cause tval epc).pc =
    (s.csr (tvecOf (exceptionMode s cause)) &&& ~~~(3 : Word)) - 4 := by
  rw [raiseExceptionPc_eq]; rfl

/-- no reservation outlives a trap -/
theorem raiseExceptionPc_get (k : Word) : (raiseExceptionPc s cause tval epc).mmuFlags.get k = none := by
  rw [raiseExceptionPc_eq]; exact clearReservations_get s k

end

section
variable (s : Machine) (irq : Word)

/-- the mode an interrupt goes to -/
def interruptMode : Priv := trapMode s (s.csr csrMideleg) irq

@[simp] theorem raiseInterrupt_gpr : (raiseInterrupt s irq).gpr = s.gpr := by rw [raiseInterrupt_eq]; rfl
@[simp] theorem raiseInterrupt_mainMemory : (raiseInterrupt s irq).mainMemory = s.mainMemory := by
  rw [raiseInterrupt_eq]; rfl
@[simp] theorem raiseInterrupt_traps : (raiseInterrupt s irq).traps =
    ⟨irq ||| 1#32 <<< 31, 0, s.pc, s.privilege, interruptMode s irq⟩ :: s.traps := by
  rw [raiseInterrupt_eq]; rfl
@[simp] theorem raiseInterrupt_privilege : (raiseInterrupt s irq).privilege = interruptMode s irq := by
  rw [raiseInterrupt_eq]; rfl
@[simp] theorem raiseInterrupt_csr : (raiseInterrupt s irq).csr =
    trapCsr s (interruptMode s irq) (irq ||| 1#32 <<< 31) 0 s.pc := by
  rw [raiseInterrupt_eq]; rfl

end

/-! ## The CSR writes -/

/-- the trap CSRs a write callback can reach: the entry's own value, or mstatus through one of its views -/
def writesOnly (csr : Csr) : Option WriteCallback → Prop
  | some (.setValue c) => c = csr ∨ keptByTrap c
  | some .mstatusWrite => csr = csrMstatus
  | some .sstatusWrite => csr = csrSstatus
  | _ => True

theorem csrTable_writesOnly (csr : Csr) : writesOnly csr (csrTable csr).writeCallback := by
  unfold csrTable
  split
  all_goals try first | exact Or.inl rfl | exact trivial | exact rfl | (right; decide)
  split_ifs
  · right; decide
  · trivial

theorem csrWrite_other {csr x : Csr} (hk : keptByTrap csr) (hs : csr ≠ csrSstatus) (hx : ¬ keptByTrap x) (s : Machine)
    (val : Word) : (csrWrite s csr val).csr x = s.csr x := by
  have hne : ∀ {c : Csr}, keptByTrap c → x ≠ c := fun hc he => hx (he ▸ hc)
  have hw := csrTable_writesOnly csr
  unfold csrWrite
  split_ifs
  · cases hcb : (csrTable csr).writeCallback with
    | none => exact Function.update_of_ne (hne hk) _ _
    | some f =>
      rw [hcb] at hw
      cases f with
      | setValue c =>
        have hc : keptByTrap c := by
          rcases hw with rfl | hc
          · exact hk
          · exact hc
        exact Function.update_of_ne (hne hc) _ _
      | mstatusWrite => exact absurd hw hk.1
      | sstatusWrite => exact absurd hw hs
      | setSie => exact Function.update_of_ne (hne (by decide)) _ _
      | setSip => exact Function.update_of_ne (hne (by decide)) _ _
      | setFcsr => simp only [WriteCallback.run, setFcsr]; split_ifs <;> rfl
      | setFrm => simp only [WriteCallback.run, setFrm]; split_ifs <;> rfl
      | _ => rfl
  · rfl

/-- what a CSR write makes of mstatus: it goes through one of its two views, or leaves it -/
theorem csr_mstatus_csrWrite (s : Machine) (csr : Csr) (val : Word) : (csrWrite s csr val).csr csrMstatus =
    if csr = csrMstatus then val &&& mstatusWritableMask
    else if csr = csrSstatus then sstatusInto (s.csr csrMstatus) val else s.csr csrMstatus := by
  by_cases hm : csr = csrMstatus
  · subst hm
    rw [csrWrite_mstatus, if_pos rfl]
    exact Function.update_self csrMstatus _ s.csr
  by_cases hs : csr = csrSstatus
  · subst hs
    rw [csrWrite_sstatus, if_neg hm, if_pos rfl]
    exact Function.update_self csrMstatus _ s.csr
  rw [if_neg hm, if_neg hs]
  have hw := csrTable_writesOnly csr
  have hne : ∀ c : Csr, c ≠ csrMstatus → ∀ x, (setCsr s c x).csr csrMstatus = s.csr csrMstatus :=
    fun c hc x => Function.update_of_ne (Ne.symm hc) _ _
  unfold csrWrite
  split_ifs
  · cases hcb : (csrTable csr).writeCallback with
    | none => exact hne csr hm _
    | some f =>
      rw [hcb] at hw
      cases f with
      | setValue c =>
        rcases hw with rfl | hc
        · exact hne _ hm _
        · exact hne _ hc.1 _
      | mstatusWrite => exact absurd hw hm
      | sstatusWrite => exact absurd hw hs
      | setSie => exact hne _ (by decide) _
      | setSip => exact hne _ (by decide) _
      | setFcsr => simp only [WriteCallback.run, setFcsr]; split_ifs <;> rfl
      | setFrm => simp only [WriteCallback.run, setFrm]; split_ifs <;> rfl
      | _ => rfl
  · rfl

/-! ## Translation -/

theorem pageOffset_or (x v m : Word) (hm : m &&& 0xFFF = 0xFFF#32) :
    (x <<< 12 ||| v &&& m) &&& 0xFFF = v &&& 0xFFF := by
  have h0 : x <<< 12 &&& 0xFFF = 0#32 := by
    apply BitVec.eq_of_toNat_eq
    rw [BitVec.toNat_and, show (0xFFF : Word).toNat = 2 ^ 12 - 1 from rfl, Nat.and_two_pow_sub_one_eq_mod,
      BitVec.toNat_shiftLeft, Nat.shiftLeft_eq, BitVec.toNat_ofNat]
    omega
  rw [BitVec.and_or_distrib_right, h0, BitVec.and_assoc, hm, BitVec.zero_or]
  rfl

/-- translation keeps the page offset -/
theorem mmuWalk_pageOffset {s : Machine} {vaddr pa : Word} {access : MmuAccess} {d : Devices}
    (h : mmuWalk s vaddr access = (some pa, d)) : pa &&& 0xFFF = vaddr &&& 0xFFF := by
  simp only [mmuWalk] at h
  split_ifs at h with h1 h2 h3 h4 h5 h6 h7 h8
  all_goals simp only [Prod.mk.injEq, Option.some.injEq, reduceCtorEq, false_and] at h
  · rw [← h.1]; exact pageOffset_or _ _ _ rfl
  · rw [← h.1]; exact pageOffset_or _ _ _ rfl
  · rw [← h.1]
section
variable {s : Machine} {vaddr pa : Word} {d : Devices}

theorem mmuTranslate_some {access : MmuAccess} (h : mmuWalk s vaddr access = (some pa, d)) :
    mmuTranslate s vaddr access = (some pa, { s with dev := d }) := by
  simp only [mmuTranslate, h]

theorem mmuTranslate_none {access : MmuAccess} (h : mmuWalk s vaddr access = (none, d)) :
    mmuTranslate s vaddr access =
      (none, raiseExceptionPc { s with dev := d } (pageFaultCause access) vaddr s.pc) := by
  simp only [mmuTranslate, h, raiseException_eq_pc]

variable {α : Type}

theorem mmuRead_some [Zero α] {read : Machine → Word → α × Devices} (h : mmuWalk s vaddr .load = (some pa, d)) :
    mmuRead read s vaddr =
      ((read { s with dev := d } pa).1, { s with dev := (read { s with dev := d } pa).2 }) := by
  simp only [mmuRead, mmuTranslate_some h]

theorem mmuRead_none [Zero α] {read : Machine → Word → α × Devices} (h : mmuWalk s vaddr .load = (none, d)) :
    mmuRead read s vaddr = (0, raiseExceptionPc { s with dev := d } causeLoadPageFault vaddr s.pc) := by
  simp only [mmuRead, mmuTranslate_none h, pageFaultCause]

theorem mmuWrite_some {write : Machine → Word → α → Machine} {val : α} (h : mmuWalk s vaddr .store = (some pa, d)) :
    mmuWrite write s vaddr val = write { s with dev := d } pa val := by
  simp only [mmuWrite, mmuTranslate_some h]

theorem mmuWrite_none {write : Machine → Word → α → Machine} {val : α} (h : mmuWalk s vaddr .store = (none, d)) :
    mmuWrite write s vaddr val = raiseExceptionPc { s with dev := d } causeStorePageFault vaddr s.pc := by
  simp only [mmuWrite, mmuTranslate_none h, pageFaultCause]

end

/-! ## Physical writes -/

/-- s' is s but for memory, devices and reservations -/
def MemStep (s s' : Machine) : Prop :=
  ∃ mem flags dev, s' = { s with mainMemory := mem, mmuFlags := flags, dev := dev }

theorem memClearReservation_memStep (s : Machine) (addr : Word) : MemStep s (memClearReservation s addr) := by
  unfold memClearReservation
  split_ifs
  · exact ⟨_, _, _, rfl⟩
  · exact ⟨s.mainMemory, s.mmuFlags, s.dev, rfl⟩

@[simp] theorem memClearReservation_mainMemory (s : Machine) (addr : Word) :
    (memClearReservation s addr).mainMemory = s.mainMemory := by
  unfold memClearReservation
  split_ifs <;> rfl

theorem memClearReservation_dev (s : Machine) (addr : Word) : (memClearReservation s addr).dev = s.dev := by
  unfold memClearReservation
  split_ifs <;> rfl

theorem memWrite8_memStep (s : Machine) (addr : Word) (val : Byte) : MemStep s (memWrite8 s addr val) := by
  obtain ⟨mem, flags, dev, h⟩ := memClearReservation_memStep s addr
  simp only [memWrite8, h]
  split_ifs <;> exact ⟨_, _, _, rfl⟩

theorem memWrite16_memStep (s : Machine) (addr : Word) (val : BitVec 16) : MemStep s (memWrite16 s addr val) := by
  obtain ⟨mem, flags, dev, h⟩ := memClearReservation_memStep s addr
  simp only [memWrite16, clintWriteBytes, h]
  split_ifs <;> exact ⟨_, _, _, rfl⟩

theorem memWrite32_memStep (s : Machine) (addr val : Word) : MemStep s (memWrite32 s addr val) := by
  obtain ⟨mem, flags, dev, h⟩ := memClearReservation_memStep s addr
  simp only [memWrite32, clintWriteBytes, h]
  split_ifs <;> exact ⟨_, _, _, rfl⟩

theorem memWrite64_memStep (s : Machine) (addr : Word) (val : BitVec 64) : MemStep s (memWrite64 s addr val) := by
  obtain ⟨mem, flags, dev, h⟩ := memClearReservation_memStep s addr
  simp only [memWrite64, clintWriteBytes, h]
  split_ifs <;> exact ⟨_, _, _, rfl⟩

/-- a word access at addr reaches main memory and no device -/
def isRam32 (addr : Word) : Prop := ¬ inClint addr ∧ ¬ inUart addr ∧ ¬ inPlic addr ∧ addr.toNat < memSize - 3

instance (addr : Word) : Decidable (isRam32 addr) := by unfold isRam32; infer_instance

theorem memWrite32_mainMemory (s : Machine) (addr val : Word) : (memWrite32 s addr val).mainMemory =
    if isRam32 addr then storeLE s.mainMemory addr 4 val else s.mainMemory := by
  by_cases h : isRam32 addr
  · obtain ⟨h1, h2, h3, h4⟩ := id h
    rw [if_pos h, memWrite32, if_neg h1, if_neg h2, if_neg h3, if_neg (by omega)]
    simp only [memClearReservation_mainMemory]
  · rw [if_neg h, ← memClearReservation_mainMemory s addr]
    simp only [memWrite32, clintWriteBytes]
    split_ifs with h1 h2 h3 h4
    · rfl
    · rfl
    · rfl
    · rfl
    · exact absurd ⟨h1, h2, h3, by omega⟩ h

theorem memRead32_ram {s : Machine} {addr : Word} (h : isRam32 addr) :
    memRead32Unsigned s addr = (loadLE s.mainMemory addr 4, s.dev) := by
  obtain ⟨h1, h2, h3, h4⟩ := h
  rw [memRead32Unsigned, if_neg h1, if_neg h2, if_neg h3, if_neg (by omega)]

theorem memRead64Unsigned_dev (s : Machine) (pa : Word) : (memRead64Unsigned s pa).2 = s.dev := by
  unfold memRead64Unsigned
  split_ifs <;> rfl

end RiscvEmu
