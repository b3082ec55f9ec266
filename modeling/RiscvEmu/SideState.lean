/-
The trigger slots and the FP state, seen from the other routines.

Translation, memory, traps, registers and jumps neither read nor write them: a routine run with other slots and another FP
state does what it did, and leaves these as they were. Results:
- `mmuTranslate_side`, `mmuRead_side`, `mmuWrite_side`: the accesses commute with replacing them;
- `ignoresSide_kept`: so a routine that commutes keeps them;
- `insiILoad_body`, `insiSStore_body`: the integer accesses commute past their trigger check;
- `AInsn.exec_side`: the atomics commute.
-/
import RiscvEmu.Outcome

namespace RiscvEmu

/-- s with other trigger slots and another FP state -/
def Machine.withSide (s : Machine) (tr : Sdtrig) (f : Fpu) : Machine := { s with trig := tr, fpu := f }

/-- the routine neither reads nor writes them -/
def ignoresSide (r : Machine → Machine) : Prop := ∀ s tr f, r (s.withSide tr f) = (r s).withSide tr f

section
variable {r : Machine → Machine}

/-- it leaves them as they were -/
theorem ignoresSide_kept (h : ignoresSide r) (s : Machine) : (r s).fpu = s.fpu ∧ (r s).trig = s.trig := by
  have hr : r s = (r s).withSide s.trig s.fpu := h s s.trig s.fpu
  rw [hr]
  exact ⟨rfl, rfl⟩

end

section
variable (s : Machine) (tr : Sdtrig) (f : Fpu)

theorem raiseExceptionPc_side (cause tval epc : Word) :
    raiseExceptionPc (s.withSide tr f) cause tval epc = (raiseExceptionPc s cause tval epc).withSide tr f := by
  have hclear : (clearReservations (s.withSide tr f)).mmuFlags = (clearReservations s).mmuFlags := by
    unfold clearReservations Machine.withSide
    dsimp only
    split_ifs <;> rfl
  rw [raiseExceptionPc_eq, raiseExceptionPc_eq, trapEntry, hclear]
  rfl

/-! ## Memory -/

/-- a physical read that does not look at them -/
def readIgnoresSide {α : Type} (read : Machine → Word → α × Devices) : Prop :=
  ∀ s tr f a, read (Machine.withSide s tr f) a = read s a

def writeIgnoresSide {α : Type} (write : Machine → Word → α → Machine) : Prop :=
  ∀ s tr f a v, write (Machine.withSide s tr f) a v = (write s a v).withSide tr f

theorem memRead8Unsigned_side : readIgnoresSide memRead8Unsigned := fun _ _ _ _ => rfl
theorem memRead16Unsigned_side : readIgnoresSide memRead16Unsigned := fun _ _ _ _ => rfl
theorem memRead32Unsigned_side : readIgnoresSide memRead32Unsigned := fun _ _ _ _ => rfl
theorem memRead64Unsigned_side : readIgnoresSide memRead64Unsigned := fun _ _ _ _ => rfl

theorem memClearReservation_side (addr : Word) :
    memClearReservation (s.withSide tr f) addr = (memClearReservation s addr).withSide tr f := by
  unfold memClearReservation
  split_ifs <;> first | rfl | contradiction

theorem memWrite8_side : writeIgnoresSide memWrite8 := by
  intro s tr f a v
  unfold memWrite8
  rw [memClearReservation_side]
  dsimp only
  split_ifs <;> rfl

theorem memWrite16_side : writeIgnoresSide memWrite16 := by
  intro s tr f a v
  unfold memWrite16
  rw [memClearReservation_side]
  dsimp only
  split_ifs <;> rfl

theorem memWrite32_side : writeIgnoresSide memWrite32 := by
  intro s tr f a v
  unfold memWrite32
  rw [memClearReservation_side]
  dsimp only
  split_ifs <;> rfl

theorem memWrite64_side : writeIgnoresSide memWrite64 := by
  intro s tr f a v
  unfold memWrite64
  rw [memClearReservation_side]
  dsimp only
  split_ifs <;> rfl

theorem mmuWalk_side (vaddr : Word) (access : MmuAccess) : mmuWalk (s.withSide tr f) vaddr access = mmuWalk s vaddr access :=
  rfl

theorem mmuTranslate_side (vaddr : Word) (access : MmuAccess) : mmuTranslate (s.withSide tr f) vaddr access =
    ((mmuTranslate s vaddr access).1, (mmuTranslate s vaddr access).2.withSide tr f) := by
  unfold mmuTranslate
  rw [mmuWalk_side]
  rcases mmuWalk s vaddr access with ⟨_ | pa, d⟩
  · have h := raiseExceptionPc_side { s with dev := d } tr f (pageFaultCause access) vaddr s.pc
    exact Prod.ext rfl h
  · rfl

theorem mmuRead_side {α : Type} [Zero α] {read : Machine → Word → α × Devices} (hr : readIgnoresSide read)
    (vaddr : Word) : mmuRead read (s.withSide tr f) vaddr =
      ((mmuRead read s vaddr).1, (mmuRead read s vaddr).2.withSide tr f) := by
  unfold mmuRead
  rw [mmuTranslate_side]
  rcases mmuTranslate s vaddr .load with ⟨_ | pa, t⟩
  · rfl
  · dsimp only
    rw [hr]
    rfl

theorem mmuWrite_side {α : Type} {write : Machine → Word → α → Machine} (hw : writeIgnoresSide write) (vaddr : Word)
    (val : α) : mmuWrite write (s.withSide tr f) vaddr val = (mmuWrite write s vaddr val).withSide tr f := by
  unfold mmuWrite
  rw [mmuTranslate_side]
  rcases mmuTranslate s vaddr .store with ⟨_ | pa, t⟩
  · rfl
  · exact hw t tr f pa val

theorem mmuRead_kept_side {α : Type} [Zero α] {read : Machine → Word → α × Devices} (hr : readIgnoresSide read)
    (vaddr : Word) : (mmuRead read s vaddr).2.fpu = s.fpu ∧ (mmuRead read s vaddr).2.trig = s.trig :=
  ignoresSide_kept (r := fun s => (mmuRead read s vaddr).2) (fun s tr f => congrArg Prod.snd (mmuRead_side s tr f hr vaddr)) s

theorem mmuWrite_kept_side {α : Type} {write : Machine → Word → α → Machine} (hw : writeIgnoresSide write)
    (vaddr : Word) (val : α) : (mmuWrite write s vaddr val).fpu = s.fpu ∧ (mmuWrite write s vaddr val).trig = s.trig :=
  ignoresSide_kept (r := fun s => mmuWrite write s vaddr val) (fun s tr f => mmuWrite_side s tr f hw vaddr val) s

end

/-! ## The routines -/

/-- a load once its address has passed the triggers -/
def loadBody (mask : Word) (read : Machine → Word → Word × Machine) (addr : Word) (rd : Reg) (s : Machine) : Machine :=
  if addr &&& mask ≠ 0 then raiseException s causeMisalignedLoad addr
  else
    let (val, s) := read s addr
    regWrite s rd val

def storeBody (mask : Word) (write : Machine → Word → Word → Machine) (addr val : Word) (s : Machine) : Machine :=
  if addr &&& mask ≠ 0 then raiseException s causeMisalignedStore addr else write s addr val

theorem loadBody_side {read : Machine → Word → Word × Devices} (hr : readIgnoresSide read) (mask addr : Word) (rd : Reg) :
    ignoresSide (loadBody mask (mmuRead read) addr rd) := by
  intro s tr f
  unfold loadBody
  split_ifs
  · exact raiseExceptionPc_side s tr f _ _ _
  · rw [mmuRead_side s tr f hr]
    rfl

theorem storeBody_side {α : Type} {write : Machine → Word → α → Machine} (hw : writeIgnoresSide write) (trunc : Word → α)
    (mask addr val : Word) : ignoresSide (storeBody mask (fun s a v => mmuWrite write s a (trunc v)) addr val) := by
  intro s tr f
  unfold storeBody
  split_ifs
  · exact raiseExceptionPc_side s tr f _ _ _
  · exact mmuWrite_side s tr f hw addr (trunc val)

/-- a load raises the breakpoint, or goes on to its body -/
theorem insiILoad_body (mask : Word) (read : Machine → Word → Word × Machine) (s : Machine) (imm : Word) (rs1 rd : Reg) :
    insiILoad mask read s imm rs1 rd =
      if triggerFires s (regRead s rs1 + imm) sdtrigLoad then raiseException s causeBreakpoint (regRead s rs1 + imm)
      else loadBody mask read (regRead s rs1 + imm) rd s := by
  unfold insiILoad sdtrigCheckLoadTrigger sdtrigCheck loadBody
  dsimp only
  cases triggerFires s (regRead s rs1 + imm) sdtrigLoad <;> rfl

theorem insiSStore_body (mask : Word) (write : Machine → Word → Word → Machine) (s : Machine) (imm : Word)
    (rs2 rs1 : Reg) : insiSStore mask write s imm rs2 rs1 =
      if triggerFires s (regRead s rs1 + imm) sdtrigStore then raiseException s causeBreakpoint (regRead s rs1 + imm)
      else storeBody mask write (regRead s rs1 + imm) (regRead s rs2) s := by
  unfold insiSStore sdtrigCheckStoreTrigger sdtrigCheck storeBody
  dsimp only
  cases triggerFires s (regRead s rs1 + imm) sdtrigStore <;> rfl

theorem LoadOp.read_side (op : LoadOp) : readIgnoresSide op.read := by
  cases op <;> exact fun _ _ _ _ => rfl

theorem clearReserveStatus_side (addr : Word) : ignoresSide (clearReserveStatus · addr) := by
  intro s tr f
  simp only [clearReserveStatus, Machine.withSide]
  cases s.mmuFlags.get (getReservationKey addr) with
  | none => rfl
  | some value =>
    dsimp only
    split_ifs <;> rfl

/-- **The atomics commute.** -/
theorem AInsn.exec_side (a : AInsn) (s : Machine) (tr : Sdtrig) (f : Fpu) (rs1 rs2 rd : Reg) :
    a.exec (s.withSide tr f) rs1 rs2 rd = (a.exec s rs1 rs2 rd).map (·.withSide tr f) := by
  have hreg : ∀ r, regRead (s.withSide tr f) r = regRead s r := fun _ => rfl
  cases a with
  | amo o =>
    have hamo : ∀ msg op, insaRAmo msg op (s.withSide tr f) rs1 rs2 rd =
        (insaRAmo msg op s rs1 rs2 rd).map (·.withSide tr f) := by
      intro msg op
      unfold insaRAmo
      dsimp only
      rw [hreg, hreg]
      split_ifs
      · rfl
      · have hr := mmuRead_side s tr f memRead32Unsigned_side (regRead s rs1)
        have hw := mmuWrite_side (mmuRead memRead32Unsigned s (regRead s rs1)).2 tr f memWrite32_side (regRead s rs1)
          (op (mmuRead memRead32Unsigned s (regRead s rs1)).1 (regRead s rs2))
        simp only [mmuRead32Unsigned, mmuWrite32, hr, hw]
        rfl
    obtain ⟨msg, op, ho⟩ := o.exec_routine
    rw [AInsn.exec, AInsn.exec, ho, ho]
    exact hamo msg op
  | lr =>
    simp only [AInsn.exec, insaRLrW, hreg]
    split_ifs
    · rfl
    · have hr := mmuRead_side s tr f memRead32Unsigned_side (regRead s rs1)
      simp only [mmuRead32Unsigned, hr]
      rfl
  | sc =>
    have hres : getReserveStatus (s.withSide tr f) (regRead s rs1) = getReserveStatus s (regRead s rs1) := rfl
    simp only [AInsn.exec, insaRScW, hreg, hres]
    split_ifs
    · rfl
    · have hw := mmuWrite_side s tr f memWrite32_side (regRead s rs1) (regRead s rs2)
      have hc := clearReserveStatus_side (regRead s rs1)
        (regWrite (mmuWrite memWrite32 s (regRead s rs1) (regRead s rs2)) rd 0) tr f
      simp only [mmuWrite32, hw, Except.map]
      exact congrArg Except.ok hc
    · rfl

theorem AInsn.exec_kept {a : AInsn} {s s' : Machine} {rs1 rs2 rd : Reg} (h : a.exec s rs1 rs2 rd = .ok s') :
    s'.fpu = s.fpu ∧ s'.trig = s.trig := by
  have hs := a.exec_side s s.trig s.fpu rs1 rs2 rd
  have hself : s.withSide s.trig s.fpu = s := rfl
  rw [hself, h] at hs
  have hs' : s' = s'.withSide s.trig s.fpu := Except.ok.inj hs
  rw [hs']
  exact ⟨rfl, rfl⟩

end RiscvEmu
