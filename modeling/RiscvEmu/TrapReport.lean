/-
What exec_c_insn returns.

Its comment promises 1 if a trap was raised, 0 otherwise, with pc placed for the loop's += 4. Every exit does that but
two kinds. A load or store form compares pc with its old value after it has moved pc back, so it returns 1 whatever
happened, and takes a trap whose handler is 4 bytes on for none; c.jalr x1 reads its target after writing the link.
Results:
- `Reports`: the law, for one state and one word;
- `cAccess_reports_iff`, `execQuadrant0_reports`, ..: each kind of exit;
- `execCInsn_reports_iff`: the law, exactly where none of these happens;
- `load_reports_trap`: a load that succeeds and reports a trap.
-/
import RiscvEmu.Compressed

namespace RiscvEmu

/-! ## The law -/

/-- where the instruction goes on unless it traps: 2 bytes on, or at its target -/
def cTarget (s : Machine) (c : BitVec 16) : Word :=
  match c.extractLsb' 0 2, c.extractLsb' 13 3 with
  | 1#2, 1#3 => s.pc + (jumpOffset c).signExtend 32
  | 1#2, 5#3 => s.pc + (jumpOffset c).signExtend 32
  | 1#2, 6#3 => if regRead s (popularReg c 7) = 0 then s.pc + (branchOffset c).signExtend 32 else s.pc + 2
  | 1#2, 7#3 => if regRead s (popularReg c 7) ≠ 0 then s.pc + (branchOffset c).signExtend 32 else s.pc + 2
  | 2#2, 4#3 => if cRs2 c = 0 ∧ cRd c ≠ 0 then regRead s (cRd c) else s.pc + 2
  | 3#2, 4#3 => if cRs2 c = 0 ∧ cRd c ≠ 0 then regRead s (cRd c) else s.pc + 2
  | _, _ => s.pc + 2

/-- r, a state and a flag, is what exec_c_insn promises: the flag says whether there was a trap, and pc is 4 below the
next instruction, the one c goes on to or the handler's first -/
structure Reports (s : Machine) (c : BitVec 16) (r : Machine × Bool) : Prop where
  flag : r.2 = true ↔ r.1.traps ≠ s.traps
  next : r.1.traps = s.traps → r.1.pc + 4 = cTarget s c
  handler : r.1.traps ≠ s.traps →
    ∃ t, r.1.traps = t :: s.traps ∧ r.1.pc + 4 = s.csr (tvecOf t.mode) &&& ~~~(3 : Word)

/-! ## When it holds -/

/-- the word exec_c_insn takes c for: low bits 11 go the way of 10 -/
def asQuadrant2 (c : BitVec 16) : BitVec 16 := if c.extractLsb' 0 2 = 3#2 then c - 1 else c

/-- c.jalr x1 -/
def isJalrLink (c : BitVec 16) : Prop := asQuadrant2 c = 0x9082

/-- a load or store form raises an exception and its handler is not 4 bytes on; c.jalr x1 traps on its target, or x1 is
the link already -/
def reportsTrap (s : Machine) (c : BitVec 16) : Prop :=
  (compressedAccess (asQuadrant2 c) ≠ none →
    ∃ cause, compressedCause s (asQuadrant2 c) = some cause ∧ handlerElsewhere s cause) ∧
  (isJalrLink c → regRead s 1 &&& (if misaCEnabled s then 1 else 3) ≠ 0 ∨ regRead s 1 = s.pc + 2)

/-! ## Each kind of exit -/

section
variable {s t : Machine} {c : BitVec 16}

theorem reports_quiet (ht : t.traps = s.traps) (hpc : t.pc + 4 = cTarget s c) : Reports s c (t, false) :=
  ⟨⟨fun h => absurd h Bool.false_ne_true, fun h => absurd ht h⟩, fun _ => hpc, fun h => absurd ht h⟩

/-- a trap entry, and then nothing that matters to it -/
theorem reports_trap {cause tval : Word} (h : Kept (raiseExceptionPc s cause tval s.pc) t) : Reports s c (t, true) := by
  have ht := h.traps.trans (raiseExceptionPc_traps s cause tval s.pc)
  have hne : t.traps ≠ s.traps := by rw [ht]; simp
  refine ⟨⟨fun _ => hne, fun _ => rfl⟩, fun h0 => absurd h0 hne, fun _ => ⟨_, ht, ?_⟩⟩
  rw [h.pc, raiseExceptionPc_pc, BitVec.sub_add_cancel]

theorem reports_raise (cause tval : Word) : Reports s c (raiseExceptionPc s cause tval s.pc, true) :=
  reports_trap (Kept.refl _)

theorem cNext_reports {gpr : Reg → Word} (h : cTarget s c = s.pc + 2) : Reports s c (cNext { s with gpr := gpr }) := by
  refine reports_quiet rfl ?_
  rw [h]
  change s.pc - 2 + 4 = s.pc + 2
  bv_omega

theorem cIllegal_reports : Reports s c (cIllegal s c) := reports_raise _ _

theorem jump_reports {gpr : Reg → Word} {target : Word} (h : cTarget s c = target) :
    Reports s c (pcBackward { s with gpr := gpr, pc := target }, false) := by
  refine reports_quiet rfl ?_
  rw [h]
  exact BitVec.sub_add_cancel _ _

theorem branch_reports {p : Prop} [Decidable p] {offset : Word}
    (h : cTarget s c = if p then s.pc + offset else s.pc + 2) :
    Reports s c (if p then (pcBackward { s with pc := s.pc + offset }, false) else cNext s) := by
  split_ifs with hp
  · exact jump_reports (h.trans (if_pos hp))
  · exact cNext_reports (h.trans (if_neg hp))

/-- the flag of a load or store form -/
theorem cAccess_flag (s : Machine) (f : Machine → Machine) : (cAccess s f).2 = true := by
  simp only [cAccess]
  by_cases h : (f s).pc = s.pc
  · have hne : s.pc - 2 ≠ s.pc := by bv_omega
    simp only [h, if_true, hne, ne_eq, not_false_eq_true, decide_true]
  · simp only [h, if_false, ne_eq, not_false_eq_true, decide_true]

/-- **A load or store form** reports truthfully exactly when it traps to a handler elsewhere. -/
theorem cAccess_reports_iff {f : Machine → Machine} {cause : Option Word} (hf : AccessSpec cause s (f s)) :
    Reports s c (cAccess s f) ↔ ∃ k, cause = some k ∧ handlerElsewhere s k := by
  have hflag := cAccess_flag s f
  cases cause with
  | none =>
    have ht : (cAccess s f).1.traps = s.traps := by
      simp only [cAccess]
      split_ifs <;> exact hf.traps
    refine ⟨fun h => absurd ht (h.flag.1 hflag), ?_⟩
    intro h
    obtain ⟨k, hn, -⟩ := h
    cases hn
  | some k =>
    obtain ⟨tval, hk⟩ := hf
    have hpc : (f s).pc = (s.csr (tvecOf (exceptionMode s k)) &&& ~~~(3 : Word)) - 4 := by
      rw [hk.pc, raiseExceptionPc_pc]
    have hiff : (f s).pc ≠ s.pc ↔ handlerElsewhere s k := by rw [hpc, handlerElsewhere]
    refine ⟨fun h => ⟨k, rfl, ?_⟩, ?_⟩
    · -- taken for no trap, the word leaves pc 2 below where the handler wants it
      by_contra hn
      have hin : (f s).pc = s.pc := not_not.1 (mt hiff.1 hn)
      have hr : (cAccess s f).1 = { f s with pc := s.pc - 2 } := by simp only [cAccess, hin, if_true]
      obtain ⟨t, ht, hv⟩ := h.handler (h.flag.1 hflag)
      rw [hr] at ht hv
      obtain ⟨rfl, -⟩ := List.cons.inj (ht.symm.trans (hk.traps.trans (raiseExceptionPc_traps _ _ _ _)))
      change s.pc - 2 + 4 = s.csr (tvecOf (exceptionMode s k)) &&& ~~~(3 : Word) at hv
      rw [← hv, hin] at hpc
      bv_omega
    · intro h
      obtain ⟨_, hk', hh⟩ := h
      obtain rfl := Option.some.inj hk'
      have hr : cAccess s f = (f s, true) := Prod.ext (by simp only [cAccess, if_neg (hiff.2 hh)]) hflag
      rw [hr]
      exact reports_trap hk

end

/-! ## The quadrants -/

section
variable {s : Machine} {c : BitVec 16}

theorem execQuadrant0_reports (hq : c.extractLsb' 0 2 = 0#2) (h : compressedAccess c = none) :
    Reports s c (execQuadrant0 s c) := by
  have hnext : cTarget s c = s.pc + 2 := by simp [cTarget, hq]
  unfold execQuadrant0
  simp only
  split
  · split_ifs
    · exact cIllegal_reports
    · exact cNext_reports hnext
  case h_8 => exact cIllegal_reports
  all_goals
    rename_i h3
    simp [compressedAccess, hq, h3] at h

theorem execQuadrant1_reports (hq : c.extractLsb' 0 2 = 1#2) : Reports s c (execQuadrant1 s c) := by
  unfold execQuadrant1
  simp only [cJalOffset_eq, cBranchOffset_eq, cRs1p_eq]
  split
  case h_2 h3 => exact jump_reports (by simp only [cTarget, hq, h3]; rfl)
  case h_6 h3 => exact jump_reports (by simp only [cTarget, hq, h3])
  case h_7 h0 h1 h2 h3 h4 h5 =>
    have h67 : ∀ x : BitVec 3, x ≠ 0 → x ≠ 1 → x ≠ 2 → x ≠ 3 → x ≠ 4 → x ≠ 5 → x = 6 ∨ x = 7 := by decide
    rcases h67 _ h0 h1 h2 h3 h4 h5 with h | h
    · rw [h]
      exact branch_reports (by simp [cTarget, hq, h])
    · rw [h]
      exact branch_reports (by simp [cTarget, hq, h])
  all_goals
    rename_i h3
    have hnext : cTarget s c = s.pc + 2 := by simp only [cTarget, hq, h3]; rfl
  · exact cNext_reports hnext
  · exact cNext_reports hnext
  · split_ifs
    · exact cNext_reports hnext
    · exact cNext_reports hnext
    · exact cIllegal_reports
  · split_ifs <;> first | exact cNext_reports hnext | exact cIllegal_reports

/-- the fields exec_c_insn reads but the quadrant -/
theorem asQuadrant2_field (c : BitVec 16) {k : ℕ} (hk : 2 ≤ k) (n : ℕ) :
    (asQuadrant2 c).extractLsb' k n = c.extractLsb' k n := by
  unfold asQuadrant2
  split_ifs with hq
  · have h4 : c.toNat % 4 = 3 := by simpa [← BitVec.toNat_inj] using hq
    have hdiv : ∀ a, a / 2 ^ k = a / 4 / 2 ^ (k - 2) := fun a => by
      rw [Nat.div_div_eq_div_mul, show (4 : ℕ) = 2 ^ 2 from rfl, ← pow_add, Nat.add_sub_cancel' hk]
    have hsub : (c - 1).toNat = c.toNat - 1 := by bv_omega
    apply BitVec.eq_of_toNat_eq
    simp only [BitVec.extractLsb'_toNat, Nat.shiftRight_eq_div_pow, hsub, hdiv]
    congr 2
    omega
  · rfl

theorem asQuadrant2_quadrant (hq : c.extractLsb' 0 2 = 2#2 ∨ c.extractLsb' 0 2 = 3#2) :
    (asQuadrant2 c).extractLsb' 0 2 = 2#2 := by
  unfold asQuadrant2
  split_ifs with h
  · have h4 : c.toNat % 4 = 3 := by simpa [← BitVec.toNat_inj] using h
    apply BitVec.eq_of_toNat_eq
    have hsub : (c - 1).toNat = c.toNat - 1 := by bv_omega
    simp only [BitVec.extractLsb'_toNat, Nat.shiftRight_zero, hsub]
    change (c.toNat - 1) % 4 = 2
    omega
  · exact hq.resolve_right h

theorem isJalrLink_iff : isJalrLink c ↔ (c.extractLsb' 0 2 = 2#2 ∨ c.extractLsb' 0 2 = 3#2) ∧
    c.extractLsb' 13 3 = 4#3 ∧ c.extractLsb' 12 1 ≠ 0 ∧ cRd c = 1 ∧ cRs2 c = 0 := by
  refine ⟨fun h => ⟨?_, ?_, ?_, ?_, ?_⟩, ?_⟩
  · by_cases hq : c.extractLsb' 0 2 = 3#2
    · exact .inr hq
    · unfold isJalrLink asQuadrant2 at h
      rw [if_neg hq] at h
      rw [h]
      exact .inl rfl
  · rw [← asQuadrant2_field c (by decide), h]
    rfl
  · rw [← asQuadrant2_field c (by decide), h]
    decide
  · rw [cRd, ← asQuadrant2_field c (by decide), h]
    rfl
  · rw [cRs2, ← asQuadrant2_field c (by decide), h]
    rfl
  · intro h
    obtain ⟨hq, h3, h12, hrd, hrs2⟩ := h
    have hq := asQuadrant2_quadrant hq
    rw [← asQuadrant2_field c (by decide)] at h3 h12
    rw [cRd, ← asQuadrant2_field c (by decide)] at hrd
    rw [cRs2, ← asQuadrant2_field c (by decide)] at hrs2
    unfold isJalrLink
    generalize asQuadrant2 c = a at *
    simp only [ne_eq, ← BitVec.toNat_inj, BitVec.extractLsb'_toNat, Nat.shiftRight_eq_div_pow] at *
    simp at *
    omega

/-- c.jr, c.mv, c.ebreak, c.jalr and c.add: all but c.jalr x1 -/
theorem execQuadrant2_register_reports (hq : c.extractLsb' 0 2 = 2#2 ∨ c.extractLsb' 0 2 = 3#2)
    (h3 : c.extractLsb' 13 3 = 4#3) (hne : ¬ isJalrLink c) : Reports s c (execQuadrant2 s c) := by
  have htarget : cTarget s c = if cRs2 c = 0 ∧ cRd c ≠ 0 then regRead s (cRd c) else s.pc + 2 := by
    rcases hq with hq | hq <;> simp only [cTarget, hq, h3]
  simp only [execQuadrant2, h3]
  split_ifs with h12 hrs2 hrd hrd hrs2
  · exact cNext_reports (htarget.trans (if_neg fun h => h.2 hrd))
  · -- c.jr
    cases hr : raiseIfMisalignedFetch s (regRead s (cRd c)) with
    | some t => rw [raiseIfMisalignedFetch_some hr]; exact reports_raise _ _
    | none => exact jump_reports (htarget.trans (if_pos ⟨hrs2, hrd⟩))
  · exact cNext_reports (htarget.trans (if_neg fun h => hrs2 h.1))
  · exact reports_raise _ _
  · -- c.jalr
    have hrd1 : cRd c ≠ 1 := fun he => hne (isJalrLink_iff.2 ⟨hq, h3, h12, he, hrs2⟩)
    cases hr : raiseIfMisalignedFetch s (regRead s (cRd c)) with
    | some t => rw [raiseIfMisalignedFetch_some hr]; exact reports_raise _ _
    | none =>
      simp only [regRead_regWrite_of_ne s _ hrd1]
      exact jump_reports (htarget.trans (if_pos ⟨hrs2, hrd⟩))
  · exact cNext_reports (htarget.trans (if_neg fun h => hrs2 h.1))

/-- **c.jalr x1** goes to its link. -/
theorem execQuadrant2_jalrLink_reports_iff (h : isJalrLink c) : Reports s c (execQuadrant2 s c) ↔
    regRead s 1 &&& (if misaCEnabled s then 1 else 3) ≠ 0 ∨ regRead s 1 = s.pc + 2 := by
  obtain ⟨hq, h3, h12, hrd, hrs2⟩ := isJalrLink_iff.1 h
  have htarget : cTarget s c = regRead s 1 := by
    rcases hq with hq | hq <;> simp [cTarget, hq, h3, hrd, hrs2]
  have h10 : (1 : Reg) ≠ 0 := by decide
  simp only [execQuadrant2, h3, if_neg h12, hrd, hrs2, if_neg h10, if_true]
  cases hr : raiseIfMisalignedFetch s (regRead s 1) with
  | some t =>
    have hm : regRead s 1 &&& (if misaCEnabled s then 1 else 3) ≠ 0 := fun h0 =>
      absurd (hr.symm.trans (raiseIfMisalignedFetch_eq_none.2 h0)) (Option.some_ne_none t)
    rw [raiseIfMisalignedFetch_some hr]
    exact ⟨fun _ => .inl hm, fun _ => reports_raise _ _⟩
  | none =>
    have hm := raiseIfMisalignedFetch_eq_none.1 hr
    have hlink : regRead (regWrite s 1 (s.pc + 2)) 1 = s.pc + 2 := rfl
    simp only [hlink, hm, ne_eq, not_true_eq_false, false_or]
    refine ⟨?_, fun h => jump_reports (htarget.trans h)⟩
    intro h
    have hpc : s.pc + 2 - 4 + 4 = cTarget s c := h.next rfl
    rw [← htarget, ← hpc, BitVec.sub_add_cancel]

/-- the rest of quadrant 2 but its accesses -/
theorem execQuadrant2_reports (hq : c.extractLsb' 0 2 = 2#2 ∨ c.extractLsb' 0 2 = 3#2)
    (h : compressedAccess (asQuadrant2 c) = none) (hne : ¬ isJalrLink c) : Reports s c (execQuadrant2 s c) := by
  by_cases h4 : c.extractLsb' 13 3 = 4#3
  · exact execQuadrant2_register_reports hq h4 hne
  have hq2 := asQuadrant2_quadrant hq
  have hnext : cTarget s c = s.pc + 2 := by
    rcases hq with hq | hq <;> simp [cTarget, hq, h4]
  unfold execQuadrant2
  simp only
  split
  · split_ifs
    · exact cIllegal_reports
    · exact cNext_reports hnext
  · rename_i h3
    split_ifs with hrd
    · exact cIllegal_reports
    · exact absurd (by simpa [compressedAccess, hq2, asQuadrant2_field, cRd, h3] using h) hrd
  · rename_i h3
    exact absurd h3 h4
  · rename_i h3
    simp [compressedAccess, hq2, asQuadrant2_field, h3] at h
  · exact cIllegal_reports

theorem execCInsn_of_quadrant2 (hq : c.extractLsb' 0 2 = 2#2 ∨ c.extractLsb' 0 2 = 3#2) :
    execCInsn s c = execQuadrant2 s c := by
  rcases hq with hq | hq
  · exact execCInsn_quadrant2 s hq
  · simp only [execCInsn, hq]
    rfl

/-- the load and store forms, low bits 11 among them -/
theorem execCInsn_asQuadrant2 {f : Machine → Machine} (h : compressedAccess (asQuadrant2 c) = some f) :
    execCInsn s c = cAccess s f := by
  by_cases hq : c.extractLsb' 0 2 = 3#2
  · have hq2 := asQuadrant2_quadrant (.inr hq)
    have hrd : cRd (asQuadrant2 c) = cRd c := asQuadrant2_field c (by decide) 5
    have hrs2 : cRs2 (asQuadrant2 c) = cRs2 c := asQuadrant2_field c (by decide) 5
    have hlw : cLwspUimm (asQuadrant2 c) = cLwspUimm c := by
      simp only [cLwspUimm_eq, lwspUimm, asQuadrant2_field, Nat.reduceLeDiff]
    have hsw : cSwspUimm (asQuadrant2 c) = cSwspUimm c := by
      simp only [cSwspUimm_eq, swspUimm, asQuadrant2_field, Nat.reduceLeDiff]
    rw [execCInsn_of_quadrant2 (.inr hq)]
    unfold compressedAccess at h
    simp only [hq2, asQuadrant2_field, Nat.reduceLeDiff, hrd, hrs2, hlw, hsw] at h
    split at h
    case h_7 h3 =>
      split_ifs at h with h0
      obtain rfl := Option.some.inj h
      simp only [execQuadrant2, h3, h0]
      rfl
    case h_8 h3 =>
      obtain rfl := Option.some.inj h
      simp only [execQuadrant2, h3]
    case h_9 => cases h
    all_goals
      rename_i hq0 _
      cases hq0
  · unfold asQuadrant2 at h
    rw [if_neg hq] at h
    exact execCInsn_access h

/-- **exec_c_insn reports traps truthfully exactly when a load or store form traps to a handler elsewhere and c.jalr x1
does not link.** -/
theorem execCInsn_reports_iff (s : Machine) (c : BitVec 16) : Reports s c (execCInsn s c) ↔ reportsTrap s c := by
  cases ha : compressedAccess (asQuadrant2 c) with
  | some f =>
    have hlink : ¬ isJalrLink c := fun h => by
      rw [h] at ha
      exact absurd ha.symm (Option.some_ne_none f)
    rw [execCInsn_asQuadrant2 ha, cAccess_reports_iff (compressedCause_spec ha s), reportsTrap]
    exact ⟨fun h => ⟨fun _ => h, fun hl => absurd hl hlink⟩, fun h => h.1 (by rw [ha]; exact Option.some_ne_none f)⟩
  | none =>
    by_cases hlink : isJalrLink c
    · rw [execCInsn_of_quadrant2 (isJalrLink_iff.1 hlink).1, execQuadrant2_jalrLink_reports_iff hlink, reportsTrap]
      exact ⟨fun h => ⟨fun hn => absurd ha hn, fun _ => h⟩, fun h => h.2 hlink⟩
    · have hq : ∀ q : BitVec 2, q = 0 ∨ q = 1 ∨ q = 2 ∨ q = 3 := by decide
      have hright : reportsTrap s c := ⟨fun hn => absurd ha hn, fun h => absurd h hlink⟩
      refine ⟨fun _ => hright, ?_⟩
      intro _
      have hsame : c.extractLsb' 0 2 ≠ 3#2 → asQuadrant2 c = c := fun h => if_neg h
      rcases hq (c.extractLsb' 0 2) with hq | hq | hq
      · rw [hsame (by rw [hq]; decide)] at ha
        rw [execCInsn_quadrant0 s hq]
        exact execQuadrant0_reports hq ha
      · rw [execCInsn_quadrant1 s hq]
        exact execQuadrant1_reports hq
      · rw [execCInsn_of_quadrant2 hq]
        exact execQuadrant2_reports hq ha hlink

end

/-! ## A load that succeeds -/

/-- c.lw x8, 0(x8) at reset loads 0 from address 0 and reports a trap -/
theorem load_reports_trap : ¬ Reports jumpMachine 0x4000 (execCInsn jumpMachine 0x4000) := by
  intro h
  have ht : (execCInsn jumpMachine 0x4000).1.traps = jumpMachine.traps := by decide
  exact h.flag.1 (by decide) ht

end RiscvEmu
