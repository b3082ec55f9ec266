/-
The privilege of data accesses below M-mode.

With mstatus.MPRV set, loads and stores have the privilege in MPP. MRET clears MPP, so it takes no borrowed privilege
along; SRET leaves MPRV and MPP as they are. The runs are those of M-mode software and what runs below it, CSR accesses
being enforced: an illegal one does nothing after its trap. Results:
- `NoBorrow.entries`, `NoBorrow.mret`, `NoBorrow.zicsr`: trap entry, MRET and legal CSR accesses keep the law;
- `NoBorrow.sret_iff`: SRET keeps it unless MPRV is set and MPP above the mode returned to;
- `no_borrow_iff`: so do runs from reset;
- `sret_borrows`: a run into S-mode whose data accesses have the privilege M.
-/
import RiscvEmu.Modes

namespace RiscvEmu

open Runs

def belowMachine (p : Priv) : Prop := p = prvUser ∨ p = prvSupervisor

instance (p : Priv) : Decidable (belowMachine p) := by unfold belowMachine; infer_instance

/-- the law: below M-mode a data access has no higher privilege than the hart, and SV32 translates it -/
structure NoBorrow (s : Machine) : Prop where
  bounded : belowMachine s.privilege → mmuEffectiveDpriv s ≤ s.privilege
  translated : belowMachine s.privilege → mmuSatpMode s ≠ 0 → ∀ access, access ≠ .fetch →
    mmuVmActive s (effectivePriv s access) = true

/-! ## The law on the fields of mstatus -/

theorem mmuEffectiveDpriv_eq (s : Machine) : mmuEffectiveDpriv s =
    if (s.csr csrMstatus).getLsbD 17 then mppOf (s.csr csrMstatus) else s.privilege := by
  have hmprv : s.csr csrMstatus &&& mstatusMprv ≠ 0 ↔ (s.csr csrMstatus).getLsbD 17 = true :=
    Bits.and_bit_ne_zero _
  rw [mmuEffectiveDpriv, csrRead_mstatus]
  simp only [hmprv]
  rfl

/-- MPRV does not raise the privilege of data accesses above the given one -/
def mprvBelow (mstatus : Word) (privilege : Priv) : Prop := mstatus.getLsbD 17 = true → mppOf mstatus ≤ privilege

theorem noBorrow_iff (s : Machine) :
    NoBorrow s ↔ (belowMachine s.privilege → mprvBelow (s.csr csrMstatus) s.privilege) := by
  have hb : mmuEffectiveDpriv s ≤ s.privilege ↔ mprvBelow (s.csr csrMstatus) s.privilege := by
    rw [mmuEffectiveDpriv_eq, mprvBelow]
    split_ifs with h
    · exact ⟨fun hle _ => hle, fun hle => hle h⟩
    · exact iff_of_true (BitVec.le_refl _) fun hm => absurd hm h
  refine ⟨fun h hp => hb.1 (h.bounded hp), fun h => ⟨fun hp => hb.2 (h hp), fun hp hs access ha => ?_⟩⟩
  have hle := hb.2 (h hp)
  have hne : mmuEffectiveDpriv s ≠ prvMachine := by
    intro he
    rw [he] at hle
    rcases hp with hp | hp <;> rw [hp] at hle <;> exact absurd hle (by decide)
  rw [effectivePriv, if_neg ha, mmuVmActive, if_neg hne, decide_eq_true_iff]
  exact hs

section
variable {s s' : Machine}

theorem NoBorrow.congr (hp : s'.privilege = s.privilege) (hm : s'.csr csrMstatus = s.csr csrMstatus) :
    NoBorrow s' ↔ NoBorrow s := by
  rw [noBorrow_iff, noBorrow_iff, hp, hm]

theorem NoBorrow.quiet_iff (h : Quiet s s') : NoBorrow s' ↔ NoBorrow s :=
  NoBorrow.congr h.privilege (by rw [h.csr])

/-! ## Trap entry -/

theorem trapMode_cases (s : Machine) (deleg cause : Word) : trapMode s deleg cause = prvMachine ∨
    trapMode s deleg cause = prvSupervisor ∧ belowMachine s.privilege := by
  unfold trapMode delegateToS belowMachine
  split_ifs <;> simp_all

theorem NoBorrow.trapEntry (h : NoBorrow s) (cause tval epc deleg irq pc : Word) :
    NoBorrow (trapEntry s cause tval epc deleg irq pc) := by
  rw [noBorrow_iff] at h ⊢
  change belowMachine (trapMode s deleg irq) →
    mprvBelow (trapCsr s (trapMode s deleg irq) cause tval epc csrMstatus) (trapMode s deleg irq)
  rw [trapCsr_mstatus]
  unfold mprvBelow
  rw [mprv_statusOnTrap, mppOf_statusOnTrap]
  rcases trapMode_cases s deleg irq with hm | ⟨hm, hp⟩
  · intro hb
    rw [hm] at hb
    exact absurd hb (by decide)
  · -- into S-mode from S or U: MPRV and MPP stay, the privilege does not fall
    intro _ hmprv
    rw [hm, if_neg (by decide)]
    refine BitVec.le_trans (h hp hmprv) ?_
    rcases hp with hp | hp <;> rw [hp] <;> decide

theorem NoBorrow.exception (h : NoBorrow s) (cause tval epc : Word) : NoBorrow (raiseExceptionPc s cause tval epc) := by
  rw [raiseExceptionPc_eq]
  exact h.trapEntry ..

theorem NoBorrow.entries (h : NoBorrow s) (he : Entries s s') : NoBorrow s' := by
  refine he.invariant (fun _ _ h hq => (NoBorrow.quiet_iff hq).2 h) (fun _ cause tval epc h => h.exception cause tval epc)
    ?_ h
  intro s irq h
  rw [raiseInterrupt_eq]
  exact h.trapEntry ..

/-! ## Returns and CSR accesses -/

/-- MRET leaves MPP at U, so MPRV borrows nothing -/
theorem NoBorrow.mret (s : Machine) : NoBorrow (insMret s) := by
  rw [noBorrow_iff]
  change belowMachine (mppOf (s.csr csrMstatus)) → mprvBelow
    (Function.update s.csr csrMstatus (mstatusOnReturn (s.csr csrMstatus)) csrMstatus) (mppOf (s.csr csrMstatus))
  rw [Function.update_self]
  intro _ _
  rw [mppOf_mstatusOnReturn]
  exact BitVec.le_def.2 (Nat.zero_le _)

/-- the mode SRET returns to -/
def sretTarget (s : Machine) : Priv := if csrRead s csrSstatus >>> 8 &&& 1 ≠ 0 then prvSupervisor else prvUser

/-- SRET is refused by TSR -/
def sretRefused (s : Machine) : Prop := s.privilege = prvSupervisor ∧ s.csr csrMstatus &&& mstatusTsr ≠ 0

theorem NoBorrow.sret_iff (h : NoBorrow s) :
    NoBorrow (insSret s) ↔ (¬ sretRefused s → mprvBelow (s.csr csrMstatus) (sretTarget s)) := by
  unfold insSret
  by_cases hr : sretRefused s
  · have hc : s.privilege = prvSupervisor ∧ s.csr csrMstatus &&& mstatusTsr ≠ 0 := hr
    rw [if_pos hc]
    exact iff_of_true (h.exception _ _ _) fun hn => absurd hr hn
  · have hc : ¬ (s.privilege = prvSupervisor ∧ s.csr csrMstatus &&& mstatusTsr ≠ 0) := hr
    rw [if_neg hc, noBorrow_iff]
    have hmstatus : (csrWrite s csrSstatus (sstatusOnReturn (csrRead s csrSstatus))).csr csrMstatus =
        sstatusInto (s.csr csrMstatus) (sstatusOnReturn (csrRead s csrSstatus)) := by
      rw [csr_mstatus_csrWrite, if_neg (by decide), if_pos rfl]
    change (belowMachine (sretTarget s) → mprvBelow
      ((csrWrite s csrSstatus (sstatusOnReturn (csrRead s csrSstatus))).csr csrMstatus) (sretTarget s)) ↔ _
    have hb : belowMachine (sretTarget s) := by
      unfold sretTarget
      split_ifs <;> decide
    rw [hmstatus, mprvBelow, mprv_sstatusInto, mppOf_sstatusInto, mprvBelow]
    simp only [hb, hr, forall_const, not_false_eq_true]

/-- a legal CSR access below M-mode does not reach mstatus but through sstatus -/
theorem NoBorrow.zicsr (h : NoBorrow s) (op : CsrOp) (rs1 rd : Reg) (csr : Csr) (ins : Word)
    (hl : csrAccessIllegal s csr = false) : NoBorrow (op.exec s rs1 rd csr ins) := by
  rw [NoBorrow.quiet_iff (op.exec_kept s rs1 rd csr ins).quiet, checkCsrAccess, hl, if_neg Bool.false_ne_true]
  unfold csrAfterWrite
  cases op.newVal rs1 s (csrRead s csr) with
  | none => exact h
  | some val =>
    have hp := (csrWrite_sameMode s csr val).privilege
    rw [noBorrow_iff] at h ⊢
    rw [hp, csr_mstatus_csrWrite]
    intro hb
    have hne : csr ≠ csrMstatus := by
      intro he
      subst he
      rcases hb with hb | hb <;> simp [csrAccessIllegal, csrTable, hb, CsrOperation.full] at hl
    rw [if_neg hne]
    split_ifs
    · unfold mprvBelow
      rw [mprv_sstatusInto, mppOf_sstatusInto]
      exact h hb
    · exact h hb

end

/-! ## Runs with CSR accesses enforced -/

/-- the word is a CSR instruction whose access state t refuses -/
def illegalCsrAccess (t : Machine) (ins : Word) : Prop :=
  toSwitch t ins ∧ match decode ins with
    | .zicsr _ _ _ csr => csrAccessIllegal t csr = true
    | _ => False

instance (t : Machine) (ins : Word) : Decidable (illegalCsrAccess t ins) := by
  unfold illegalCsrAccess
  cases decode ins <;> infer_instance

theorem noBorrow_runInit (gpr : Reg → Word) (mainMemory : Word → Byte) (programBase : Word) (active : Bool) :
    NoBorrow (runInit gpr mainMemory programBase active).state := by
  rw [noBorrow_iff]
  intro hb
  exact absurd hb (by change ¬ belowMachine prvMachine; decide)

section
variable [SoftFloat]

/-- one round of the main loop in which a refused CSR access does nothing after its trap -/
def enforcedStep (r : Run) (host : HostInput) (r' : Run) : Prop :=
  r.goesOn ∧
    ((∃ t ins, Executes host r t ins ∧ illegalCsrAccess t ins ∧ (fetchState host r).pc.toNat < memSize ∧
        r' = finish r (fetchState host r).pc (raiseException t causeIllegalInstruction ins)) ∨
      (∀ t ins, Executes host r t ins → ¬ illegalCsrAccess t ins) ∧ iteration host r = .ok r')

/-- an SRET that goes through has MPRV clear or an MPP no higher than the mode it returns to -/
def sretKeeps (r : Run) (host : HostInput) : Prop :=
  ∀ t ins, Executes host r t ins → toSwitch t ins → decode ins = .sret → ¬ sretRefused t →
    mprvBelow (t.csr csrMstatus) (sretTarget t)

/-- **One instruction.** -/
theorem NoBorrow.run_iff {s s' : Machine} {ins : Word} (h : NoBorrow s) (hr : (decode ins).run s ins = .ok s')
    (hc : (decode ins).changesMode = true) (hs : toSwitch s ins) (hl : ¬ illegalCsrAccess s ins) :
    NoBorrow s' ↔ (decode ins = .sret → ¬ sretRefused s → mprvBelow (s.csr csrMstatus) (sretTarget s)) := by
  unfold illegalCsrAccess at hl
  cases hd : decode ins with
  | zicsr op rs1 rd csr =>
    rw [hd] at hr hl
    obtain rfl := Except.ok.inj hr
    have hlegal : csrAccessIllegal s csr = false := Bool.eq_false_iff.2 fun hi => hl ⟨hs, hi⟩
    exact iff_of_true (h.zicsr op rs1 rd csr ins hlegal) (by simp)
  | sret =>
    rw [hd] at hr
    obtain rfl := Except.ok.inj hr
    rw [h.sret_iff]
    exact ⟨fun hk _ => hk, fun hk => hk rfl⟩
  | mret =>
    rw [hd] at hr
    obtain rfl := Except.ok.inj hr
    exact iff_of_true (NoBorrow.mret s) (by simp)
  | mnret =>
    rw [hd] at hr
    obtain rfl := Except.ok.inj hr
    exact iff_of_true (NoBorrow.mret s) (by simp)
  | _ => rw [hd] at hc; cases hc

/-- **One round.** -/
theorem noBorrow_step_iff (r : Run) (host : HostInput) (r' : Run) (hI : NoBorrow r.state)
    (h : enforcedStep r host r') : NoBorrow r'.state ↔ sretKeeps r host := by
  rcases h.2 with ⟨t, ins, hx, hi, -, rfl⟩ | ⟨hl, hit⟩
  · have hk : Kept (fetchState host r) t := mmuFetchOk_some_kept hx.2.1
    have ht : NoBorrow t := hI.entries ((fetchState_entries host r).trans hk.entries)
    refine iff_of_true ?_ ?_
    · exact (NoBorrow.quiet_iff (finish_quiet _ _ _)).2 (ht.exception _ _ _)
    · intro t' ins' hx' _ hd
      obtain ⟨rfl, rfl⟩ := hx.unique hx'
      have hrefused := hi.2
      rw [hd] at hrefused
      exact hrefused.elim
  · rcases iteration_modes hit with ⟨hn, he⟩ | ⟨t, ins, u, he, hx, hs, hc, hr, hq⟩
    · refine iff_of_true (hI.entries he) ?_
      intro t ins hx hs hd
      have hm := hn t ins hx hs
      rw [hd] at hm
      cases hm
    · rw [NoBorrow.quiet_iff hq, (hI.entries he).run_iff hr hc hs (hl t ins hx)]
      refine ⟨?_, fun hk => hk t ins hx hs⟩
      intro hk t' ins' hx' _
      obtain ⟨rfl, rfl⟩ := hx.unique hx'
      exact hk

/-- **Borrowed privilege, over runs from reset.** The law holds in every state of a run exactly when every SRET of the
run that goes through has MPRV clear or an MPP no higher than the mode it returns to. -/
theorem no_borrow_iff (gpr : Reg → Word) (mainMemory : Word → Byte) (programBase : Word) (active : Bool)
    (p : List (Run × HostInput)) (r : Run) (hp : Path enforcedStep (runInit gpr mainMemory programBase active) p r) :
    ((∀ x ∈ p, NoBorrow x.1.state) ∧ NoBorrow r.state) ↔ ∀ x ∈ p, sretKeeps x.1 x.2 :=
  hp.always_iff (I := fun r => NoBorrow r.state) noBorrow_step_iff (noBorrow_runInit ..)

end

/-! ## A run that borrows -/

/-- M-mode about to write 0x21800 from x5 to mstatus, setting MPRV and MPP to M, and to execute SRET -/
def borrowRun : Run :=
  runInit (Function.update (fun _ => 0) 5 0x21800)
    (fun a => Bytes.byte (n := 8) (0x1020007330029073 : BitVec 64) a.toNat) 0 false

/-- an iteration has no refused CSR access to execute -/
def legalAccess (host : HostInput) (r : Run) : Prop := ∀ x ∈ executed host r, ¬ illegalCsrAccess x.1 x.2

instance (host : HostInput) (r : Run) : Decidable (legalAccess host r) := by unfold legalAccess; infer_instance

section
variable [SoftFloat]

/-- the rounds for the given inputs, so long as no CSR access is refused -/
def enforcedRun : List HostInput → Run → Option Run
  | [], r => some r
  | host :: hosts, r =>
    if r.goesOn ∧ legalAccess host r then (iteration host r).toOption.bind (enforcedRun hosts) else none

theorem enforcedRun_path {hosts : List HostInput} {r r' : Run} (h : enforcedRun hosts r = some r') :
    ∃ p, Path enforcedStep r p r' := by
  induction hosts generalizing r with
  | nil =>
    obtain rfl := Option.some.inj h
    exact ⟨[], .nil r⟩
  | cons host hosts ih =>
    simp only [enforcedRun] at h
    split_ifs at h with hc
    cases hi : iteration host r with
    | error e => rw [hi] at h; cases h
    | ok t =>
      rw [hi] at h
      obtain ⟨p, hp⟩ := ih h
      refine ⟨(r, host) :: p, .cons ⟨hc.1, Or.inr ⟨?_, hi⟩⟩ hp⟩
      intro u ins hx
      exact hc.2 (u, ins) ((executes_iff host r u ins).1 hx)

end

/-- the run is one of enforced rounds and leaves U-mode with the privilege M for its data -/
theorem borrowRun_ends : ∃ p r, Path (@enforcedStep noFloat) borrowRun p r ∧ r.state.privilege = prvUser ∧
    mmuEffectiveDpriv r.state = prvMachine := by
  have hend : (@enforcedRun noFloat [⟨[], false⟩, ⟨[], false⟩] borrowRun).map
      (fun r => (r.state.privilege, mmuEffectiveDpriv r.state)) = some (prvUser, prvMachine) := by decide
  obtain ⟨r, hr, hpair⟩ := Option.map_eq_some_iff.1 hend
  obtain ⟨p, hp⟩ := @enforcedRun_path noFloat _ _ _ hr
  exact ⟨p, r, hp, congrArg Prod.fst hpair, congrArg Prod.snd hpair⟩

/-- SRET keeps MPRV and MPP, so U-mode loads and stores have the privilege M -/
theorem sret_borrows : ¬ ∀ p r, Path (@enforcedStep noFloat) borrowRun p r → NoBorrow r.state := by
  intro h
  obtain ⟨p, r, hp, hpriv, hdpriv⟩ := borrowRun_ends
  have hle := (h p r hp).bounded (Or.inl hpriv)
  rw [hpriv, hdpriv] at hle
  exact absurd hle (by decide)

/-- so one of its SRETs fails the condition -/
theorem no_borrow_borrowRun : ∃ p r, Path (@enforcedStep noFloat) borrowRun p r ∧
    ¬ ∀ x ∈ p, sretKeeps x.1 x.2 := by
  obtain ⟨p, r, hp, hpriv, hdpriv⟩ := borrowRun_ends
  refine ⟨p, r, hp, ?_⟩
  intro hk
  have hle := ((@no_borrow_iff noFloat _ _ _ _ p r hp).2 hk).2.bounded (Or.inl hpriv)
  rw [hpriv, hdpriv] at hle
  exact absurd hle (by decide)

end RiscvEmu
