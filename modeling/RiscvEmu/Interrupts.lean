/-
Interrupt dispatch: which line check_and_handle_interrupts takes, from which mode, into which mode.

The two if-chains of the source are one search down a priority order (`highest`). Results:
- `dispatch_below_machine`: from S-mode and U-mode, the supervisor lines first, gated by SIE or UIE, then the others,
  gated by MIE;
- `machine_line_blocked`: a pending machine line is not taken from S-mode while MIE is clear;
- `delegated_masked_iff`: from M-mode a delegated line is masked only as long as it is not the highest one pending;
- `delegated_line_taken`: a delegated SSIP interrupts M-mode.
-/
import RiscvEmu.Init
import RiscvEmu.Status

namespace RiscvEmu

open Bits

/-! ## The priority order -/

/-- MEI, MSI, MTI, SEI, SSI, STI -/
def irqOrder : List Word := [11, 3, 7, 9, 1, 5]

/-- the first line of the order that is set -/
def highest (lines : Word) : Option Word := irqOrder.find? fun irq => lines.getLsbD irq.toNat

/-- a search whose answer survives in a smaller set of candidates answers it there too -/
theorem find?_of_imp {α : Type} {xs : List α} {p q : α → Bool} {b : α} (hqp : ∀ a, q a = true → p a = true)
    (h : xs.find? p = some b) (hb : q b = true) : xs.find? q = some b := by
  obtain ⟨-, as, bs, rfl, has⟩ := List.find?_eq_some_iff_append.1 h
  refine List.find?_eq_some_iff_append.2 ⟨hb, as, bs, rfl, fun a ha => ?_⟩
  cases hq : q a with
  | false => rfl
  | true => simpa [hqp a hq] using has a ha

theorem highest_set {lines irq : Word} (h : highest lines = some irq) : lines.getLsbD irq.toNat = true := by
  have := List.find?_some h
  exact this

theorem highest_mem {lines irq : Word} (h : highest lines = some irq) : irq ∈ irqOrder := List.mem_of_find?_eq_some h

theorem toNat_of_mem {irq : Word} (h : irq ∈ irqOrder) : irq.toNat < 32 := by
  simp only [irqOrder, List.mem_cons, List.not_mem_nil, or_false] at h
  rcases h with rfl | rfl | rfl | rfl | rfl | rfl <;> decide

theorem find?_cons_if {α : Type} (p : α → Bool) (a : α) (l : List α) :
    (a :: l).find? p = if p a = true then some a else l.find? p := by
  cases h : p a <;> simp [h]

theorem pickSupervisorIrq_eq (sp : Word) : pickSupervisorIrq sp =
    ([9, 1, 5] : List Word).find? fun irq => sp.getLsbD irq.toNat := by
  simp only [pickSupervisorIrq, mipSeip, mipSsip, mipStip, and_bit_ne_zero, find?_cons_if]
  rfl

theorem pickIrq_eq (mp : Word) : pickIrq mp = highest mp := by
  simp only [pickIrq, pickSupervisorIrq_eq, mipMeip, mipMsip, mipMtip, and_bit_ne_zero, highest, irqOrder, find?_cons_if]
  rfl

/-! ## Below M-mode -/

/-- the lines destined for S-mode: pending in sip, enabled in sie, delegated -/
def supervisorLines (s : Machine) : Word := getSip s &&& (s.csr csrMie &&& sipSieSBits) &&& s.csr csrMideleg

/-- the lines destined for M-mode: pending in mip, enabled in mie, not delegated -/
def machineLines (s : Machine) : Word := getMip s &&& s.csr csrMie &&& ~~~s.csr csrMideleg

/-- the enable bit of the current mode: SIE in S-mode, UIE in U-mode -/
def modeEnabled (s : Machine) : Bool :=
  (s.csr csrMstatus).getLsbD (if s.privilege = prvSupervisor then 1 else 0)

def machineEnabled (s : Machine) : Bool := (s.csr csrMstatus).getLsbD 3

/-- the line taken below M-mode and its destination -/
def dispatched (s : Machine) : Option (Word × Priv) :=
  match if modeEnabled s then highest (supervisorLines s) else none with
  | some irq => some (irq, prvSupervisor)
  | none => if machineEnabled s then (highest (machineLines s)).map (·, prvMachine) else none

theorem getLsbD_sSBits {i : ℕ} (hi : i < 32) : sipSieSBits.getLsbD i = decide (i = 1 ∨ i = 5 ∨ i = 9) := by
  interval_cases i <;> rfl

theorem getLsbD_getSip (s : Machine) {i : ℕ} (h : (getMip s).getLsbD i = true)
    (hs : sipSieSBits.getLsbD i = true) : (getSip s).getLsbD i = true := by
  unfold getSip
  split_ifs <;> simp [h, hs]

/-- with nothing but supervisor lines delegated, what the source masks is what is delegated -/
theorem machineLines_eq {s : Machine} (hd : s.csr csrMideleg &&& ~~~sipSieSBits = 0) :
    getMip s &&& s.csr csrMie &&& ~~~(getSip s &&& (s.csr csrMie &&& sipSieSBits) &&& s.csr csrMideleg) =
      machineLines s := by
  apply BitVec.eq_of_getLsbD_eq
  intro i hi
  simp only [machineLines, BitVec.getLsbD_and, BitVec.getLsbD_not, hi, decide_true, Bool.true_and]
  cases hm : (getMip s).getLsbD i with
  | false => simp
  | true =>
    cases he : (s.csr csrMie).getLsbD i with
    | false => simp
    | true =>
      cases hg : (s.csr csrMideleg).getLsbD i with
      | false => simp
      | true =>
        have hs : sipSieSBits.getLsbD i = true := by
          have := congrArg (fun x : Word => x.getLsbD i) hd
          simpa [hi, hg] using this
        simp [getLsbD_getSip s hm hs, hs]

/-- the supervisor lines are searched in the common order -/
theorem pickSupervisorIrq_lines (s : Machine) : pickSupervisorIrq (supervisorLines s) = highest (supervisorLines s) := by
  have hz : ∀ i < 32, i ≠ 1 ∧ i ≠ 5 ∧ i ≠ 9 → (supervisorLines s).getLsbD i = false := by
    intro i hi hn
    simp only [supervisorLines, BitVec.getLsbD_and, getLsbD_sSBits hi]
    simp [hn.1, hn.2.1, hn.2.2]
  have h11 := hz 11 (by decide) (by decide)
  have h3 := hz 3 (by decide) (by decide)
  have h7 := hz 7 (by decide) (by decide)
  simp only [pickSupervisorIrq_eq, highest, irqOrder, find?_cons_if, show (11 : Word).toNat = 11 from rfl,
    show (3 : Word).toNat = 3 from rfl, show (7 : Word).toNat = 7 from rfl, h11, h3, h7, Bool.false_eq_true, if_false]

theorem delegated_iff (deleg irq : Word) (h : irq.toNat < 32) :
    deleg &&& bitOf irq ≠ 0 ↔ deleg.getLsbD irq.toNat = true := by
  rw [bitOf, Nat.mod_eq_of_lt h, and_bit_ne_zero]

/-- what a dispatch does with the line it takes -/
structure Takes (s : Machine) (irq : Word) (mode : Priv) : Prop where
  raised : checkAndHandleInterrupts s = raiseInterrupt s irq
  goesTo : (checkAndHandleInterrupts s).privilege = mode
  record : (checkAndHandleInterrupts s).traps = ⟨irq ||| 1#32 <<< 31, 0, s.pc, s.privilege, mode⟩ :: s.traps

theorem takes_of_raised {s : Machine} {irq : Word} {mode : Priv} (h : checkAndHandleInterrupts s = raiseInterrupt s irq)
    (hm : interruptMode s irq = mode) : Takes s irq mode := by
  refine ⟨h, ?_, ?_⟩
  · rw [h, raiseInterrupt_privilege, hm]
  · rw [h, raiseInterrupt_traps, hm]

theorem checkAndHandleInterrupts_below {s : Machine} (hp : s.privilege = prvSupervisor ∨ s.privilege = prvUser)
    (hd : s.csr csrMideleg &&& ~~~sipSieSBits = 0) : checkAndHandleInterrupts s =
      match dispatched s with
      | some (irq, _) => raiseInterrupt s irq
      | none => s := by
  have hM : s.privilege ≠ prvMachine := by rcases hp with h | h <;> rw [h] <;> decide
  have hen : (s.csr csrMstatus &&& (if s.privilege = prvSupervisor then mstatusSie else mstatusUie) ≠ 0) ↔
      modeEnabled s = true := by
    unfold modeEnabled
    split_ifs
    · exact and_bit_ne_zero _
    · exact and_bit_ne_zero _
  have hmie : (s.csr csrMstatus &&& mstatusMie ≠ 0) ↔ machineEnabled s = true := and_bit_ne_zero _
  have hsl : getSip s &&& (s.csr csrMie &&& sipSieSBits) &&& s.csr csrMideleg = supervisorLines s := rfl
  unfold checkAndHandleInterrupts dispatched
  simp only [csrRead_mip, csrRead_mie, csrRead_mstatus, csrRead_mideleg, csrRead_sip, csrRead_sie, hM, if_false, hen, hmie,
    machineLines_eq hd, pickIrq_eq]
  rw [hsl, pickSupervisorIrq_lines]
  cases (if modeEnabled s = true then highest (supervisorLines s) else none) with
  | some irq => rfl
  | none =>
    simp only
    split_ifs
    · cases highest (machineLines s) <;> rfl
    · rfl

/-- the destination is where the trap goes -/
theorem interruptMode_dispatched {s : Machine} (hp : s.privilege = prvSupervisor ∨ s.privilege = prvUser)
    {irq : Word} {mode : Priv} (h : dispatched s = some (irq, mode)) : interruptMode s irq = mode := by
  have hdel : irq.toNat < 32 → (interruptMode s irq =
      if (s.csr csrMideleg).getLsbD irq.toNat then prvSupervisor else prvMachine) := by
    intro hlt
    have hi := delegated_iff (s.csr csrMideleg) irq hlt
    rcases hp with hp | hp <;> simp only [interruptMode, trapMode, delegateToS, hp, hi] <;> simp
  unfold dispatched at h
  split at h
  · rename_i irq' hsup
    simp only [Option.some.injEq, Prod.mk.injEq] at h
    obtain ⟨rfl, rfl⟩ := h
    split_ifs at hsup
    have hset := highest_set hsup
    simp only [supervisorLines, BitVec.getLsbD_and, Bool.and_eq_true] at hset
    rw [hdel (toNat_of_mem (highest_mem hsup)), hset.2, if_pos rfl]
  · split_ifs at h
    obtain ⟨irq', hm, he⟩ := Option.map_eq_some_iff.1 h
    simp only [Prod.mk.injEq] at he
    obtain ⟨rfl, rfl⟩ := he
    have hset := highest_set hm
    simp only [machineLines, BitVec.getLsbD_and, BitVec.getLsbD_not, Bool.and_eq_true, Bool.not_eq_true'] at hset
    rw [hdel (toNat_of_mem (highest_mem hm)), hset.2.2, if_neg Bool.false_ne_true]

/-- **Dispatch below M-mode.** The supervisor lines come first, gated by SIE or UIE; the machine lines follow, gated by
MIE; nothing else is taken. -/
theorem dispatch_below_machine (s : Machine) (hp : s.privilege = prvSupervisor ∨ s.privilege = prvUser)
    (hd : s.csr csrMideleg &&& ~~~sipSieSBits = 0) :
    (∀ irq mode, dispatched s = some (irq, mode) → Takes s irq mode) ∧
      (dispatched s = none → checkAndHandleInterrupts s = s) := by
  have hc := checkAndHandleInterrupts_below hp hd
  refine ⟨?_, ?_⟩
  · intro irq mode h
    rw [h] at hc
    exact takes_of_raised hc (interruptMode_dispatched hp h)
  · intro h
    rw [h] at hc
    exact hc

/-- supervisor mode with MSIP pending and enabled and nothing delegated; MIE is clear -/
def blockedMachine : Machine :=
  { machineInit (fun _ => 0) (fun _ => 0) 0 with
    privilege := prvSupervisor
    csr := fun c => if c = csrMip then 8 else if c = csrMie then 8 else (csrTable c).value }

theorem dispatch_below_machine_blocked :
    blockedMachine.csr csrMideleg &&& ~~~sipSieSBits = 0 ∧ dispatched blockedMachine = none ∧
      checkAndHandleInterrupts blockedMachine = blockedMachine :=
  ⟨by decide, by decide, (dispatch_below_machine blockedMachine (Or.inl rfl) (by decide)).2 (by decide)⟩

/-- the machine line is pending, enabled and not delegated, and it is not taken -/
theorem machine_line_blocked : blockedMachine.privilege = prvSupervisor ∧
    highest (machineLines blockedMachine) = some 3 ∧
      (checkAndHandleInterrupts blockedMachine).traps = blockedMachine.traps := by
  refine ⟨rfl, by decide, List.eq_nil_of_length_eq_zero (by decide)⟩

/-! ## In M-mode -/

/-- the line M-mode code may be interrupted by: enabled by MIE, and the highest one not delegated -/
def machineModeLine (s : Machine) : Option Word := if machineEnabled s then highest (machineLines s) else none

/-- M-mode code is interrupted by that line or not at all -/
def DelegatedMasked (s : Machine) : Prop :=
  (checkAndHandleInterrupts s).traps = s.traps ∨
    ∃ irq, machineModeLine s = some irq ∧ checkAndHandleInterrupts s = raiseInterrupt s irq

theorem checkAndHandleInterrupts_machine {s : Machine} (hp : s.privilege = prvMachine) : checkAndHandleInterrupts s =
    if machineEnabled s then raisePicked s (highest (getMip s &&& s.csr csrMie)) else s := by
  have hmie : (s.csr csrMstatus &&& mstatusMie = 0) ↔ ¬ machineEnabled s = true :=
    not_iff_not.1 ((and_bit_ne_zero _).trans not_not.symm)
  unfold checkAndHandleInterrupts
  simp only [csrRead_mip, csrRead_mie, csrRead_mstatus, hp, if_true, hmie, pickIrq_eq]
  split_ifs <;> rfl

theorem cause_injective {i j : Word} (hi : i ∈ irqOrder) (hj : j ∈ irqOrder)
    (h : i ||| 1#32 <<< 31 = j ||| 1#32 <<< 31) : i = j := by
  simp only [irqOrder, List.mem_cons, List.not_mem_nil, or_false] at hi hj
  rcases hi with rfl | rfl | rfl | rfl | rfl | rfl <;> rcases hj with rfl | rfl | rfl | rfl | rfl | rfl <;>
    first | rfl | exact absurd h (by decide)

theorem machineLines_bit (s : Machine) {i : ℕ} (hi : i < 32) : (machineLines s).getLsbD i =
    ((getMip s &&& s.csr csrMie).getLsbD i && !(s.csr csrMideleg).getLsbD i) := by
  simp [machineLines, hi]

/-- **Delegated lines in M-mode.** They stay masked exactly when MIE is clear or the highest pending and enabled line is
not delegated. -/
theorem delegated_masked_iff (s : Machine) (hp : s.privilege = prvMachine) : DelegatedMasked s ↔
    machineEnabled s = false ∨
      ∀ irq, highest (getMip s &&& s.csr csrMie) = some irq → (s.csr csrMideleg).getLsbD irq.toNat = false := by
  have hc := checkAndHandleInterrupts_machine hp
  unfold DelegatedMasked machineModeLine
  cases he : machineEnabled s with
  | false =>
    rw [he] at hc
    simp [hc]
  | true =>
    rw [he, if_pos rfl] at hc
    simp only [if_true, Bool.true_eq_false, false_or]
    cases hh : highest (getMip s &&& s.csr csrMie) with
    | none =>
      rw [hh, raisePicked] at hc
      simp [hc]
    | some irq =>
      rw [hh, raisePicked] at hc
      have hlt := toNat_of_mem (highest_mem hh)
      simp only [hc, raiseInterrupt_traps, Option.some.injEq, forall_eq']
      refine ⟨?_, ?_⟩
      · intro hx
        rcases hx with h | ⟨j, hj, hr⟩
        · simpa using congrArg List.length h
        · have ht := congrArg Machine.traps hr
          simp only [raiseInterrupt_traps, List.cons.injEq, Trap.mk.injEq] at ht
          obtain rfl := cause_injective (highest_mem hh) (highest_mem hj) ht.1.1
          have hset := highest_set hj
          rw [machineLines_bit s hlt, Bool.and_eq_true, Bool.not_eq_true'] at hset
          exact hset.2
      · intro hd
        refine Or.inr ⟨irq, find?_of_imp (fun a ha => ?_) hh ?_, rfl⟩
        · have hla := BitVec.lt_of_getLsbD ha
          rw [machineLines_bit s hla, Bool.and_eq_true] at ha
          exact ha.1
        · rw [machineLines_bit s hlt, highest_set hh, hd]
          rfl

/-- M-mode with MIE set; SSIP is pending, enabled and delegated -/
def delegatingMachine : Machine :=
  { machineInit (fun _ => 0) (fun _ => 0) 0 with
    csr := fun c => if c = csrMstatus then 8 else if c = csrMip then 2 else if c = csrMie then 2
      else if c = csrMideleg then 2 else (csrTable c).value }

theorem delegated_masked_delegatingMachine : delegatingMachine.privilege = prvMachine ∧
    (DelegatedMasked delegatingMachine ↔ machineEnabled delegatingMachine = false ∨
      ∀ irq, highest (getMip delegatingMachine &&& delegatingMachine.csr csrMie) = some irq →
        (delegatingMachine.csr csrMideleg).getLsbD irq.toNat = false) :=
  ⟨rfl, delegated_masked_iff delegatingMachine rfl⟩

/-- the delegated SSIP interrupts M-mode -/
theorem delegated_line_taken : ¬ DelegatedMasked delegatingMachine := by
  intro hx
  rcases hx with h | ⟨irq, hirq, -⟩
  · exact absurd (congrArg List.length h) (by decide)
  · exact absurd hirq (by rw [show machineModeLine delegatingMachine = none by decide]; exact nofun)

end RiscvEmu
