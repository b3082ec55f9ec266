/-
The timer line in sip.

get_sip shows the CLINT timer as STIP, on top of the stored bit 5 of mip. A read-modify-write of sip reads the merged value
and set_sip stores it, so the line is latched: get_sip never clears STIP again, where get_mip recomputes MTIP, MEIP and
SEIP both ways. Results:
- `getSip_stip`, `setSip_stip`: what sip shows and what a write of it stores;
- `SipOp.step_stored`: what one operation makes of the stored bit;
- `stip_tracks_timer_iff`: STIP follows the timer in a whole run exactly when a timer read-modify-written while pending
  stays pending until the next write of sip;
- `stip_latched`: clearing SSIP with the timer pending and re-arming the timer leaves STIP set.
-/
import RiscvEmu.Init
import RiscvEmu.Lib.Runs
import RiscvEmu.Outcome
import RiscvEmu.Status

namespace RiscvEmu

open Runs

/-- the stored bit -/
def stipStored (s : Machine) : Bool := (s.csr csrMip).getLsbD 5

def timerPending (s : Machine) : Bool := clintMtipPending s.dev.clint

/-- STIP, read through sip, is set exactly when the timer is pending -/
def stipFollows (s : Machine) : Prop := (csrRead s csrSip).getLsbD 5 = timerPending s

section
variable (s : Machine)

/-- bit 5 of mip is none of the live ones -/
theorem getMip_stip : (getMip s).getLsbD 5 = stipStored s := getLsbD_getMip s (by decide)

theorem getSip_stip : (getSip s).getLsbD 5 = (stipStored s || timerPending s) := by
  have hmask : sipSieSBits.getLsbD 5 = true := by decide
  have hstip : mipStip.getLsbD 5 = true := by decide
  unfold getSip timerPending
  dsimp only
  split_ifs with h
  · rw [BitVec.getLsbD_or, hstip, h, Bool.or_true, Bool.or_true]
  · rw [BitVec.getLsbD_and, hmask, getMip_stip, Bool.and_true, Bool.eq_false_iff.2 h, Bool.or_false]

theorem stipFollows_iff : stipFollows s ↔ (stipStored s = true → timerPending s = true) := by
  unfold stipFollows
  rw [csrRead_sip, getSip_stip]
  cases stipStored s <;> simp

theorem setSip_stip (val : Word) : stipStored (setSip s val) = val.getLsbD 5 := by
  have hmask : sipSieSBits.getLsbD 5 = true ∧ (~~~sipSieSBits).getLsbD 5 = false := by decide
  have hval : (setSip s val).csr csrMip = getMip s &&& ~~~sipSieSBits ||| val &&& sipSieSBits :=
    Function.update_self csrMip _ s.csr
  rw [stipStored, hval, BitVec.getLsbD_or, BitVec.getLsbD_and, BitVec.getLsbD_and, hmask.1, hmask.2]
  simp

end

/-! ## Operations -/

inductive SipOp
  /-- a CSR instruction on sip; rs1 is the register or the immediate field -/
  | csr (op : CsrOp) (rs1 rd : Reg) (ins : Word)
  | tick
  /-- a store of n bytes to the CLINT -/
  | store (addr : Word) (n : ℕ) (val : BitVec 64)

def SipOp.step (s : Machine) : SipOp → Machine
  | .csr op rs1 rd ins => op.exec s rs1 rd csrSip ins
  | .tick => { s with dev := { s.dev with clint := clintTick s.dev.clint } }
  | .store addr n val => clintWriteBytes s addr n val

/-- no source operand of a CSRRW or CSRRS has bit 5 set -/
def SipOp.plain (s : Machine) : SipOp → Prop
  | .csr .rw rs1 _ _ | .csr .rs rs1 _ _ => (regRead s rs1).getLsbD 5 = false
  | _ => True

def SipStep (s : Machine) (o : SipOp) (t : Machine) : Prop := o.plain s ∧ t = o.step s

/-- the operation writes sip -/
def SipOp.writes : SipOp → Bool
  | .csr op rs1 rd _ => (Insn.zicsr op rs1 rd csrSip).writesCsr
  | _ => false

/-- the operation reads sip and writes it back without clearing STIP -/
def SipOp.keepsStip (s : Machine) : SipOp → Bool
  | .csr .rs rs1 _ _ | .csr .rsi rs1 _ _ | .csr .rci rs1 _ _ => rs1 ≠ 0
  | .csr .rc rs1 _ _ => rs1 ≠ 0 ∧ (regRead s rs1).getLsbD 5 = false
  | _ => false

theorem checkCsrAccess_kept (s : Machine) (csr : Csr) (ins : Word) :
    (checkCsrAccess s csr ins).gpr = s.gpr ∧ (checkCsrAccess s csr ins).dev = s.dev ∧
      ∀ c, keptByTrap c → (checkCsrAccess s csr ins).csr c = s.csr c := by
  unfold checkCsrAccess
  split_ifs
  · rw [raiseException_eq_pc]
    refine ⟨raiseExceptionPc_gpr .., raiseExceptionPc_dev .., ?_⟩
    intro c hk
    rw [raiseExceptionPc_csr]
    exact trapCsr_kept s _ _ _ _ hk
  · exact ⟨rfl, rfl, fun _ _ => rfl⟩

theorem uimm_stip (x : Reg) : (x.setWidth 32 &&& 0x1F : Word).getLsbD 5 = false := by
  rw [BitVec.getLsbD_and]
  exact Bool.and_false _

/-- the value a CSR instruction writes to sip: STIP is what was read where the operation keeps it -/
theorem newVal_stip {s : Machine} {op : CsrOp} {rs1 rd : Reg} {ins : Word} (hp : (SipOp.csr op rs1 rd ins).plain s)
    (hw : (SipOp.csr op rs1 rd ins).writes = true) (old : Word) : ∃ val, op.newVal rs1 s old = some val ∧
      val.getLsbD 5 = (old.getLsbD 5 && (SipOp.csr op rs1 rd ins).keepsStip s) := by
  have hu := uimm_stip rs1
  cases op with
  | rw => exact ⟨_, rfl, hp.trans (Bool.and_false _).symm⟩
  | rwi => exact ⟨_, rfl, hu.trans (Bool.and_false _).symm⟩
  | rs =>
    have h0 : rs1 ≠ 0 := of_decide_eq_true hw
    have hp : (regRead s rs1).getLsbD 5 = false := hp
    refine ⟨_, if_pos h0, ?_⟩
    rw [BitVec.getLsbD_or, hp, Bool.or_false, SipOp.keepsStip, decide_eq_true h0, Bool.and_true]
  | rc =>
    have h0 : rs1 ≠ 0 := of_decide_eq_true hw
    refine ⟨_, if_pos h0, ?_⟩
    rw [BitVec.getLsbD_and, BitVec.getLsbD_not, SipOp.keepsStip]
    by_cases hb : (regRead s rs1).getLsbD 5 = false
    · rw [decide_eq_true (p := rs1 ≠ 0 ∧ _) ⟨h0, hb⟩, hb]
      rfl
    · rw [decide_eq_false (p := rs1 ≠ 0 ∧ _) fun h => hb h.2, Bool.eq_true_of_not_eq_false hb]
      rfl
  | rsi =>
    have h0 : rs1 ≠ 0 := of_decide_eq_true hw
    refine ⟨_, if_pos h0, ?_⟩
    rw [BitVec.getLsbD_or, hu, Bool.or_false, SipOp.keepsStip, decide_eq_true h0, Bool.and_true]
  | rci =>
    have h0 : rs1 ≠ 0 := of_decide_eq_true hw
    refine ⟨_, if_pos h0, ?_⟩
    rw [BitVec.getLsbD_and, BitVec.getLsbD_not, hu, SipOp.keepsStip, decide_eq_true h0]
    rfl

theorem newVal_congr {s t : Machine} (h : t.gpr = s.gpr) (op : CsrOp) (rs1 : Reg) (old : Word) :
    op.newVal rs1 t old = op.newVal rs1 s old := by
  have hreg : regRead t rs1 = regRead s rs1 := by
    rw [regRead, regRead, h]
  cases op <;> simp only [CsrOp.newVal, hreg]

/-- a CSR instruction on sip, legal or not, with what it writes -/
theorem exec_sip (s : Machine) (op : CsrOp) (rs1 rd : Reg) (ins : Word) :
    (op.exec s rs1 rd csrSip ins).dev = s.dev ∧ stipStored (op.exec s rs1 rd csrSip ins) =
      ((op.newVal rs1 s (csrRead (checkCsrAccess s csrSip ins) csrSip)).map (·.getLsbD 5)).getD (stipStored s) := by
  obtain ⟨hgpr, hdev, hcsr⟩ := checkCsrAccess_kept s csrSip ins
  have hmip : stipStored (checkCsrAccess s csrSip ins) = stipStored s :=
    congrArg (·.getLsbD 5) (hcsr csrMip (by decide))
  rw [op.exec_eq, insZicsr, newVal_congr hgpr]
  cases op.newVal rs1 s (csrRead (checkCsrAccess s csrSip ins) csrSip) with
  | none =>
    dsimp only
    split_ifs <;> exact ⟨hdev, hmip⟩
  | some val =>
    have hstored : stipStored (csrWrite (checkCsrAccess s csrSip ins) csrSip val) = val.getLsbD 5 := setSip_stip _ val
    dsimp only
    split_ifs <;> exact ⟨hdev, hstored⟩

/-- **One operation, on the stored bit.** A write stores STIP as it was read, merged, or clears it. -/
theorem SipOp.step_stored {s t : Machine} {o : SipOp} (h : SipStep s o t) : stipStored t =
    if o.writes then (stipStored s || timerPending s) && o.keepsStip s else stipStored s := by
  obtain ⟨hp, rfl⟩ := h
  cases o with
  | csr op rs1 rd ins =>
    obtain ⟨-, hdev, hcsr⟩ := checkCsrAccess_kept s csrSip ins
    have hread : (csrRead (checkCsrAccess s csrSip ins) csrSip).getLsbD 5 = (stipStored s || timerPending s) := by
      rw [csrRead_sip, getSip_stip, stipStored, timerPending, hcsr csrMip (by decide), hdev]
      rfl
    rw [SipOp.step, (exec_sip s op rs1 rd ins).2]
    cases hw : (SipOp.csr op rs1 rd ins).writes with
    | false =>
      rw [CsrOp.newVal_none hw]
      rfl
    | true =>
      obtain ⟨val, hval, hbit⟩ := newVal_stip hp hw (csrRead (checkCsrAccess s csrSip ins) csrSip)
      rw [hval, if_pos rfl, ← hread]
      exact hbit
  | tick => rfl
  | store addr n val => rfl

/-! ## Runs -/

/-- the operation latches the line -/
def SipOp.latches (s : Machine) (o : SipOp) : Prop := o.keepsStip s = true ∧ timerPending s = true

/-- the timer is pending up to the next write of sip, or to the end -/
def pendingUntilWrite : List (Machine × SipOp) → Machine → Prop
  | [], u => timerPending u = true
  | (s, o) :: ops, u => timerPending s = true ∧ (o.writes = false → pendingUntilWrite ops u)

/-- after every write of sip that latches the line, the timer stays pending until sip is written again -/
def latchHarmless : List (Machine × SipOp) → Machine → Prop
  | [], _ => True
  | (s, o) :: ops, u => (o.latches s → pendingUntilWrite ops u) ∧ latchHarmless ops u

theorem SipOp.writes_of_keeps {s : Machine} {o : SipOp} (h : o.keepsStip s = true) : o.writes = true := by
  cases o with
  | csr op rs1 rd ins =>
    cases op <;> simp_all [SipOp.keepsStip, SipOp.writes, Insn.writesCsr]
  | _ => exact absurd h Bool.false_ne_true

/-- in any state: what the run makes of a stored bit -/
theorem stipFollows_run {s u : Machine} {ops : List (Machine × SipOp)} (hp : Path SipStep s ops u) :
    ((∀ x ∈ ops, stipFollows x.1) ∧ stipFollows u) ↔
      (stipStored s = true → pendingUntilWrite ops u) ∧ latchHarmless ops u := by
  induction hp with
  | nil s => simp [stipFollows_iff, pendingUntilWrite, latchHarmless]
  | @cons s t u o ops hstep hp ih =>
    have hstored := SipOp.step_stored hstep
    have hcons : ((∀ x ∈ (s, o) :: ops, stipFollows x.1) ∧ stipFollows u) ↔
        stipFollows s ∧ (stipStored t = true → pendingUntilWrite ops u) ∧ latchHarmless ops u := by
      rw [List.forall_mem_cons, and_assoc, ih]
    rw [hcons, stipFollows_iff, pendingUntilWrite, latchHarmless]
    cases hw : o.writes with
    | true =>
      -- the bit read is the timer's, where the line has been followed so far
      rw [hw, if_pos rfl] at hstored
      have hlatch : (stipStored s = true → timerPending s = true) → (stipStored t = true ↔ o.latches s) := by
        intro hs
        rw [hstored, SipOp.latches]
        cases hb : stipStored s <;> cases ht : timerPending s <;> simp_all
      constructor
      · rintro ⟨hs, ht, hrest⟩
        exact ⟨fun hb => ⟨hs hb, fun h => absurd h (by decide)⟩, fun hl => ht ((hlatch hs).2 hl), hrest⟩
      · rintro ⟨hs, hl, hrest⟩
        exact ⟨fun hb => (hs hb).1, fun ht => hl ((hlatch fun hb => (hs hb).1).1 ht), hrest⟩
    | false =>
      rw [hw, if_neg Bool.false_ne_true] at hstored
      have hno : ¬ o.latches s := fun h => by
        rw [SipOp.writes_of_keeps h.1] at hw
        exact absurd hw (by decide)
      rw [hstored]
      constructor
      · rintro ⟨hs, ht, hrest⟩
        exact ⟨fun hb => ⟨hs hb, fun _ => ht hb⟩, fun h => absurd h hno, hrest⟩
      · rintro ⟨hs, -, hrest⟩
        exact ⟨fun hb => (hs hb).1, fun hb => (hs hb).2 rfl, hrest⟩

/-- **STIP follows the timer, exactly.** From a state without a stored STIP, over every sequence of operations. -/
theorem stip_tracks_timer_iff {s u : Machine} {ops : List (Machine × SipOp)} (hs : stipStored s = false)
    (hp : Path SipStep s ops u) : ((∀ x ∈ ops, stipFollows x.1) ∧ stipFollows u) ↔ latchHarmless ops u := by
  rw [stipFollows_run hp, hs]
  simp

/-- the timer pending, and the mask of SSIP in x5 -/
def ssipMachine : Machine :=
  let s := machineInit (fun r => if r = 5 then 2 else 0) (fun _ => 0) 0
  { s with dev := { s.dev with clint := ⟨1, 1⟩ } }

/-- CSRRC x0, sip, x5 latches STIP, and CSRRW x0, sip, x0 clears it before a store moves mtimecmp out of reach -/
def ssipSession : List SipOp :=
  [.csr .rc 5 0 0x1442B073, .tick, .csr .rw 0 0 0x14401073, .store clintMtimecmpHart0 8 0xFFFFFFFFFFFFFFFF, .tick]

theorem stip_tracks_timer_ssipSession :
    (∀ x ∈ recorded SipOp.step ssipMachine ssipSession, stipFollows x.1) ∧
      stipFollows (ssipSession.foldl SipOp.step ssipMachine) := by
  have hpath : Path SipStep ssipMachine (recorded SipOp.step ssipMachine ssipSession)
      (ssipSession.foldl SipOp.step ssipMachine) :=
    .cons ⟨trivial, rfl⟩ (.cons ⟨trivial, rfl⟩ (.cons ⟨by rfl, rfl⟩ (.cons ⟨trivial, rfl⟩ (.cons ⟨trivial, rfl⟩ (.nil _)))))
  have hquiet : ∀ {m : Machine} {o : SipOp}, o.keepsStip m = false → ¬ o.latches m := by
    intro m o h hl
    exact absurd (h.symm.trans hl.1) (by decide)
  refine (stip_tracks_timer_iff (by decide) hpath).2 ⟨fun _ => ?_, fun h => absurd h (hquiet rfl),
    fun h => absurd h (hquiet rfl), fun h => absurd h (hquiet rfl), fun h => absurd h (hquiet rfl), trivial⟩
  -- the timer is pending from the latch to the write of sip
  exact ⟨by decide, fun _ => ⟨by decide, fun hw => absurd hw (by decide)⟩⟩

/-- CSRRC x0, sip, x5 while the timer is pending, and then mtimecmp moved out of reach -/
theorem stip_latched :
    let clearSsip := SipOp.csr .rc 5 0 0x1442B073
    let rearm := SipOp.store clintMtimecmpHart0 8 0xFFFFFFFFFFFFFFFF
    let s := clearSsip.step ssipMachine
    stipStored ssipMachine = false ∧ Path SipStep ssipMachine [(ssipMachine, clearSsip), (s, rearm)] (rearm.step s) ∧
      timerPending (rearm.step s) = false ∧ (csrRead (rearm.step s) csrSip).getLsbD 5 = true := by
  refine ⟨by decide, .cons ⟨trivial, rfl⟩ (.cons ⟨trivial, rfl⟩ (.nil _)), by decide, by decide⟩

end RiscvEmu
