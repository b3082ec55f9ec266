/-
Privilege: what exec can raise it to without a trap.

No routine but the returns writes the privilege outside trap entry, and the returns do not ask who executes them: MRET
takes the mode from mstatus.MPP in any mode, SRET from SPP, SFENCE.VMA is ignored in user mode. Results:
- `exec_privilege`: an instruction that neither traps nor returns keeps the privilege;
- `privilege_law_iff`: privilege rises only through a trap, and the four instructions are refused out of place, unless
  one of the four is executed out of place;
- `mret_raises_privilege`: an MRET in user mode enters M-mode.
-/
import RiscvEmu.Init
import RiscvEmu.Steps

namespace RiscvEmu

/-- a word whose low bits are not set is no 32-bit instruction -/
theorem decode_low {ins : Word} (h : ins.extractLsb' 0 2 ≠ 3) : decode ins = .illegal := by
  have hlow := getOpcode_low ins
  unfold decode
  split
  case h_20 => rfl
  all_goals
    rename_i ho
    rw [ho] at hlow
    exact absurd hlow.symm h

/-- the instruction is one of the four the current mode may not execute -/
def outOfPlace (s : Machine) : Insn → Bool
  | .mret | .mnret => s.privilege ≠ prvMachine
  | .sret | .sfenceVma => s.privilege = prvUser
  | _ => false

section
variable [SoftFloat]

/-- privilege rises only through a trap, and an instruction out of place is refused by a trap entry and nothing else -/
structure PrivilegeLaw (s : Machine) (ins : Word) : Prop where
  noRise : ∀ s', exec s ins = .ok s' → s'.traps = s.traps → s'.privilege ≤ s.privilege
  refused : fetchAligned s = true → outOfPlace s (decode ins) = true →
    ∃ tval, exec s ins = .ok (raiseException s causeIllegalInstruction tval)

theorem exec_outOfPlace {s : Machine} {ins : Word} (ha : fetchAligned s = true)
    (ho : outOfPlace s (decode ins) = true) : exec s ins = (decode ins).run s ins := by
  refine exec_decode ha ?_
  intro hc
  rw [decode_low hc.2] at ho
  exact nomatch ho

/-! ## The law -/

/-- a return sets the privilege to the mode saved, at most M, or at most S -/
theorem return_privilege {s s' : Machine} {ins : Word} {i : Insn} (hr : i.isReturn = true) (h : i.run s ins = .ok s')
    (ht : s'.traps = s.traps) (ho : outOfPlace s i = false) : s'.privilege ≤ s.privilege := by
  have hle : ∀ p : Priv, p ≤ prvMachine := by decide
  cases i with
  | mret =>
    obtain rfl := Except.ok.inj h
    rw [show s.privilege = prvMachine by simpa [outOfPlace] using ho]
    exact hle _
  | mnret =>
    obtain rfl := Except.ok.inj h
    rw [show s.privilege = prvMachine by simpa [outOfPlace] using ho]
    exact hle _
  | sret =>
    obtain rfl := Except.ok.inj h
    have hp : s.privilege ≠ prvUser := by simpa [outOfPlace] using ho
    have hs : ∀ p : Priv, p ≠ prvUser → prvSupervisor ≤ p ∧ prvUser ≤ p := by decide
    unfold insSret at ht ⊢
    split_ifs at ht ⊢
    · simp at ht
    · simp only
      split_ifs
      · exact (hs _ hp).1
      · exact (hs _ hp).2
  | _ => cases hr

/-- **An instruction that enters no trap and does not return keeps the privilege.** -/
theorem exec_privilege {s s' : Machine} {ins : Word} (h : exec s ins = .ok s') (ht : s'.traps = s.traps)
    (hr : (decode ins).isReturn = false) : s'.privilege = s.privilege := by
  cases hw : (decode ins).writesCsr with
  | false => exact (exec_quiet h ht hr hw).privilege
  | true =>
    obtain ⟨-, rfl⟩ | ⟨-, hc, -⟩ | ⟨-, hrun⟩ := exec_cases h
    · simp at ht
    · rw [decode_low hc.2] at hw
      cases hw
    · cases hd : decode ins with
      | zicsr op rs1 rd csr =>
        rw [hd] at hrun
        obtain rfl := Except.ok.inj hrun
        cases hi : csrAccessIllegal s csr with
        | false => exact (op.exec_legal s rs1 rd csr ins hi).privilege
        | true =>
          rw [(op.exec_illegal s rs1 rd csr ins hi).2] at ht
          simp at ht
      | _ => rw [hd] at hw; cases hw

/-- what the four do out of place: no trap -/
theorem outOfPlace_run {s s' : Machine} {ins : Word} {i : Insn} (ho : outOfPlace s i = true)
    (h : i.run s ins = .ok s') : s'.traps = s.traps := by
  have hu : prvUser ≠ prvSupervisor := by decide
  cases i with
  | mret => obtain rfl := Except.ok.inj h; rfl
  | mnret => obtain rfl := Except.ok.inj h; rfl
  | sret =>
    obtain rfl := Except.ok.inj h
    have hp : s.privilege = prvUser := by simpa [outOfPlace] using ho
    unfold insSret
    rw [if_neg fun hc => hu (hp.symm.trans hc.1)]
    rfl
  | sfenceVma =>
    obtain rfl := Except.ok.inj h
    have hp : s.privilege = prvUser := by simpa [outOfPlace] using ho
    unfold insSfenceVma
    rw [if_neg fun hc => hu (hp.symm.trans hc.1)]
  | _ => cases ho

/-- **Privilege rises only through a trap, exactly when no return or SFENCE.VMA is executed out of place.** -/
theorem privilege_law_iff (s : Machine) (ins : Word) :
    PrivilegeLaw s ins ↔ ¬ (fetchAligned s = true ∧ outOfPlace s (decode ins) = true) := by
  refine ⟨?_, ?_⟩
  · rintro hlaw ⟨ha, ho⟩
    obtain ⟨tval, he⟩ := hlaw.refused ha ho
    have hrun := (exec_outOfPlace ha ho).symm.trans he
    have ht := outOfPlace_run ho hrun
    simp at ht
  · intro hn
    refine ⟨?_, fun ha ho => absurd ⟨ha, ho⟩ hn⟩
    intro s' h ht
    cases hr : (decode ins).isReturn with
    | false => exact exec_privilege h ht hr ▸ BitVec.le_refl _
    | true =>
      obtain ⟨-, rfl⟩ | ⟨-, hc, -⟩ | ⟨hs, hrun⟩ := exec_cases h
      · simp at ht
      · rw [decode_low hc.2] at hr
        cases hr
      · exact return_privilege hr hrun ht (by simpa [hs.1] using hn)

end

/-- user mode, with M in mstatus.MPP -/
def mppMachine : Machine :=
  { pagedMachine prvUser fun _ => 0 with csr := Function.update (fun i => (csrTable i).value) csrMstatus 0x1800 }

/-- MRET in user mode enters M-mode without a trap -/
theorem mret_raises_privilege : ¬ @PrivilegeLaw noFloat mppMachine 0x30200073 := by
  let _ : SoftFloat := noFloat
  intro h
  have hd : decode 0x30200073 = .mret := by decide
  have ha : fetchAligned mppMachine = true := by decide
  have hrun : exec mppMachine 0x30200073 = .ok (insMret mppMachine) := by
    rw [exec_decode ha (by decide), hd]
    rfl
  exact absurd (h.noRise _ hrun rfl) (by decide)

end RiscvEmu
