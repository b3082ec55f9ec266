/-
Memory below M-mode, over whole runs.

A hart below M-mode is confined by the page tables: it stores where some virtual address maps to with the right to
store, and no further than the last byte of such a store (a misaligned FP store runs past the end of its page). If the
tables lie in RAM and out of reach of the stores they allow, this stays so as long as no trap is taken and no return
executed. Results:
- `exec_storable`: an instruction writes where a store is allowed to reach, unless its first access faults and it goes on
  to a second;
- `walk_congr`: a translation depends on satp, mstatus, privilege and the bytes of its own entries;
- `isolation`: over runs, the last instruction included, and the translations stay;
- `amo_escapes`: the exception is real: below M-mode an AMO to a page that is not mapped for loads writes physical
  memory at the virtual address.
-/
import RiscvEmu.Atomic
import RiscvEmu.DataPrivilege
import RiscvEmu.PteRefusal
import RiscvEmu.ReservationRuns

namespace RiscvEmu

open Bytes Sv32 Runs

/-! ## What a hart can reach -/

/-- where the two entries of a walk are read -/
def rootEntryAddr (s : Machine) (v : Word) : Word := mmuSatpRootPpn s <<< pgshift + (v >>> 22 &&& 0x3FF) * 4

def secondEntryAddr (s : Machine) (v : Word) : Word :=
  ((rootEntry s v).1 >>> ptePpnShift) <<< pgshift + (v >>> 12 &&& 0x3FF) * 4

/-- the walk goes on to the second level -/
def descends (s : Machine) (v : Word) : Prop := (rootEntry s v).1.v = true ∧ isPointer (rootEntry s v).1

/-- byte x belongs to an entry the walk of v reads -/
def tableByte (s : Machine) (v x : Word) : Prop :=
  ∃ k < 4, x = rootEntryAddr s v + BitVec.ofNat 32 k ∨ descends s v ∧ x = secondEntryAddr s v + BitVec.ofNat 32 k

/-- byte x is one of the eight from an address that can be stored to: no access is longer -/
def storable (s : Machine) (x : Word) : Prop := ∃ v pa, (mmuWalk s v .store).1 = some pa ∧ (x - pa).toNat < 8

/-- the page tables lie in RAM, and no store they allow reaches them -/
structure Fenced (s : Machine) : Prop where
  ram : ∀ v, isRam32 (rootEntryAddr s v) ∧ (descends s v → isRam32 (secondEntryAddr s v))
  fence : ∀ v x, tableByte s v x → ¬ storable s x

/-! ## Translation depends on its entries -/

/-- t has the CSRs and the privilege of s, and the bytes no store of s reaches -/
structure Confined (s t : Machine) : Prop where
  csr : t.csr = s.csr
  privilege : t.privilege = s.privilege
  memory : ∀ x, ¬ storable s x → t.mainMemory x = s.mainMemory x

section
variable {s t u : Machine}

theorem Confined.refl (s : Machine) : Confined s s := ⟨rfl, rfl, fun _ _ => rfl⟩

theorem mmuLeaf_congr (hc : t.csr = s.csr) (v : Word) (epriv : Priv) (access : MmuAccess) (l : ℕ × Pte) :
    mmuLeaf t v epriv access l = mmuLeaf s v epriv access l := by
  cases s
  cases t
  obtain rfl := hc
  cases access <;> rfl

theorem effectivePriv_congr (h : Confined s t) (access : MmuAccess) :
    effectivePriv t access = effectivePriv s access := by
  have hm : csrRead t csrMstatus = csrRead s csrMstatus := congrFun h.csr csrMstatus
  simp only [effectivePriv, mmuEffectiveDpriv, hm, h.privilege]

theorem mmuVmActive_congr (hc : t.csr = s.csr) (epriv : Priv) : mmuVmActive t epriv = mmuVmActive s epriv := by
  cases s
  cases t
  obtain rfl := hc
  rfl

theorem rootEntry_ram (hf : Fenced s) (h : Confined s t) (v : Word) :
    (rootEntry t v).1 = (rootEntry s v).1 ∧ (rootEntry t v).2 = t.dev := by
  have haddr : rootEntryAddr t v = rootEntryAddr s v := by
    have hs : csrRead t csrSatp = csrRead s csrSatp := congrFun h.csr csrSatp
    simp only [rootEntryAddr, mmuSatpRootPpn, hs]
  have hr := (hf.ram v).1
  have ht : rootEntry t v = (loadLE t.mainMemory (rootEntryAddr s v) 4, t.dev) := by
    change memRead32Unsigned t (rootEntryAddr t v) = _
    rw [haddr, memRead32_ram hr]
  have hs : rootEntry s v = (loadLE s.mainMemory (rootEntryAddr s v) 4, s.dev) := memRead32_ram hr
  rw [ht, hs]
  refine ⟨loadLE_congr _ _ ?_, rfl⟩
  intro k hk
  exact h.memory _ (hf.fence v _ ⟨k, hk, Or.inl rfl⟩)

theorem secondEntry_ram (hf : Fenced s) (h : Confined s t) {v : Word} (hd : descends s v) :
    (secondEntry t v).1 = (secondEntry s v).1 := by
  obtain ⟨hroot, hdev⟩ := rootEntry_ram hf h v
  obtain ⟨-, hdev'⟩ := rootEntry_ram hf (.refl s) v
  have hr := (hf.ram v).2 hd
  have ht : secondEntry t v = (loadLE t.mainMemory (secondEntryAddr s v) 4, (rootEntry t v).2) := by
    rw [secondEntry, hroot]
    exact memRead32_ram (s := { t with dev := (rootEntry t v).2 }) hr
  have hs : secondEntry s v = (loadLE s.mainMemory (secondEntryAddr s v) 4, (rootEntry s v).2) :=
    memRead32_ram (s := { s with dev := (rootEntry s v).2 }) hr
  rw [ht, hs]
  refine loadLE_congr _ _ ?_
  intro k hk
  exact h.memory _ (hf.fence v _ ⟨k, hk, Or.inr ⟨hd, rfl⟩⟩)

/-- **A translation stays while its entries do.** -/
theorem walk_congr (hf : Fenced s) (h : Confined s t) (v : Word) (access : MmuAccess) :
    (mmuWalk t v access).1 = (mmuWalk s v access).1 := by
  have hpriv := effectivePriv_congr h access
  have hvm : mmuVmActive t (effectivePriv t access) = mmuVmActive s (effectivePriv s access) := by
    rw [hpriv, mmuVmActive_congr h.csr]
  cases hv : mmuVmActive s (effectivePriv s access) with
  | false =>
    have hbare : ∀ u : Machine, mmuVmActive u (effectivePriv u access) = false → (mmuWalk u v access).1 = some v := by
      intro u hu
      simp only [mmuWalk, hu, Bool.false_eq_true, not_false_eq_true, if_true]
    rw [hbare t (hvm.trans hv), hbare s hv]
  | true =>
    rw [mmuWalk_eq_leaf t v access (hvm.trans hv), mmuWalk_eq_leaf s v access hv, hpriv]
    have hleaf : walkLeaf t v = walkLeaf s v := by
      obtain ⟨hroot, -⟩ := rootEntry_ram hf h v
      simp only [walkLeaf, hroot]
      by_cases h1 : (rootEntry s v).1.v = false
      · rw [if_pos h1, if_pos h1]
      by_cases h2 : isPointer (rootEntry s v).1
      · have hsecond := secondEntry_ram hf h ⟨Bool.eq_true_of_not_eq_false h1, h2⟩
        rw [if_neg h1, if_neg h1, hsecond]
      · rw [if_neg h1, if_neg h1, if_pos h2, if_pos h2]
    rw [hleaf]
    congr 1
    funext l
    exact mmuLeaf_congr h.csr v _ access l

theorem storable_congr (hf : Fenced s) (h : Confined s t) (x : Word) : storable t x ↔ storable s x := by
  unfold storable
  simp only [walk_congr hf h]

theorem Confined.trans (hf : Fenced s) (h : Confined s t) (h' : Confined t u) : Confined s u := by
  refine ⟨h'.csr.trans h.csr, h'.privilege.trans h.privilege, ?_⟩
  intro x hx
  rw [h'.memory x ((storable_congr hf h x).not.2 hx), h.memory x hx]

end

/-! ## One instruction -/

/-- the instruction makes two accesses and the first faults: the second is made in the state the trap leaves -/
def Insn.storesAfterFault (s : Machine) : Insn → Prop
  | .atomic (.amo _) rs1 _ _ => pageFaults s (regRead s rs1) .load
  | .fp (.store .fsq imm rs1 _) => pageFaults s (regRead s rs1 + imm) .store
  | _ => False

instance (s : Machine) : (i : Insn) → Decidable (i.storesAfterFault s)
  | .atomic (.amo _) _ _ _ => inferInstanceAs (Decidable (pageFaults s _ .load))
  | .fp (.store .fsq _ _ _) => inferInstanceAs (Decidable (pageFaults s _ .store))
  | i => by unfold Insn.storesAfterFault; split <;> infer_instance

section
variable {s t : Machine} {b : PhysWrite} {x : Word}

/-- a store below the tables of s writes where s allows it -/
theorem accessWrite_storable (hf : Fenced s) (h : Confined s t) {v : Word} {n : ℕ} (hn : n ≤ 8)
    (hb : b ∈ accessWrite t v n) (hx : b.covers x) : storable s x := by
  obtain ⟨pa, hpa, rfl⟩ := List.mem_map.1 hb
  refine ⟨v, pa, ?_, lt_of_lt_of_le hx hn⟩
  rw [← walk_congr hf h]
  exact Option.mem_toList.1 hpa

theorem StoreOp.writes_storable (hf : Fenced s) {op : StoreOp} {imm : Word} {rs1 : Reg} (hb : b ∈ op.writes s imm rs1)
    (hx : b.covers x) : storable s x := by
  have hn : op.width ≤ 8 := by cases op <;> decide
  simp only [StoreOp.writes] at hb
  split_ifs at hb
  · exact accessWrite_storable hf (.refl s) hn hb hx
  · cases hb

/-- the first half of an FSQ, if it does not fault -/
theorem Confined.write64 {v : Word} {val : BitVec 64} (hp : ¬ pageFaults s v .store) :
    Confined s (mmuWrite64 s v val) := by
  rcases hw : mmuWalk s v .store with ⟨_ | pa, d⟩
  · exact absurd (by rw [pageFaults, mmuTranslate_none hw]) hp
  · obtain ⟨mem, flags, dev, he⟩ := memWrite64_memStep { s with dev := d } pa val
    have heff := memWrite64_effect { s with dev := d } pa val
    rw [mmuWrite64, mmuWrite_some hw]
    refine ⟨by rw [he], by rw [he], ?_⟩
    intro x hx
    refine heff.memory x ?_
    intro b hb hc
    obtain rfl := List.mem_singleton.1 hb
    exact hx ⟨v, pa, by rw [hw], hc⟩

theorem FStoreOp.writes_storable (hf : Fenced s) (op : FStoreOp) {imm : Word} {rs1 rs2 : Reg}
    (hp : op = .fsq → ¬ pageFaults s (regRead s rs1 + imm) .store) (hb : b ∈ op.writes s imm rs1 rs2)
    (hx : b.covers x) : storable s x := by
  cases op with
  | fsh => exact accessWrite_storable hf (.refl s) (by decide) hb hx
  | fsw => exact accessWrite_storable hf (.refl s) (by decide) hb hx
  | fsd => exact accessWrite_storable hf (.refl s) (by decide) hb hx
  | fsq =>
    rcases List.mem_append.1 hb with hb | hb
    · exact accessWrite_storable hf (.refl s) le_rfl hb hx
    · exact accessWrite_storable hf (.write64 (hp rfl)) le_rfl hb hx

/-- the read of an AMO, if it does not fault -/
theorem Confined.read32 {v : Word} (hp : ¬ pageFaults s v .load) : Confined s (mmuRead32Unsigned s v).2 := by
  rcases hw : mmuWalk s v .load with ⟨_ | pa, d⟩
  · exact absurd (by rw [pageFaults, mmuTranslate_none hw]) hp
  · rw [mmuRead32Unsigned, mmuRead_some hw]
    exact ⟨rfl, rfl, fun _ _ => rfl⟩

theorem Insn.writes_storable (hf : Fenced s) {i : Insn} (hp : ¬ i.storesAfterFault s) (hb : b ∈ i.writes s)
    (hx : b.covers x) : storable s x := by
  cases i with
  | store op imm rs2 rs1 => exact StoreOp.writes_storable hf hb hx
  | fp i =>
    cases i with
    | store op imm rs1 rs2 =>
      simp only [Insn.writes] at hb
      split_ifs at hb
      · cases hb
      · refine FStoreOp.writes_storable hf op ?_ hb hx
        rintro rfl
        exact hp
    | _ => cases hb
  | atomic a rs1 rs2 rd =>
    cases a with
    | amo o => exact accessWrite_storable hf (.read32 hp) (by decide) hb hx
    | sc =>
      simp only [Insn.writes] at hb
      split_ifs at hb
      · exact accessWrite_storable hf (.refl s) (by decide) hb hx
      · cases hb
    | lr => cases hb
  | _ => cases hb

theorem compressedWrites_storable (hf : Fenced s) {c : BitVec 16} (hb : b ∈ compressedWrites s c) (hx : b.covers x) :
    storable s x := by
  unfold compressedWrites at hb
  split at hb
  · exact FStoreOp.writes_storable hf .fsd (fun h => nomatch h) hb hx
  · exact StoreOp.writes_storable hf hb hx
  · exact FStoreOp.writes_storable hf .fsw (fun h => nomatch h) hb hx
  · exact StoreOp.writes_storable hf hb hx
  · cases hb

variable [SoftFloat] {s' : Machine} {ins : Word}

/-- **An instruction writes where a store is allowed to reach**, unless it goes on after a fault. -/
theorem exec_storable (hf : Fenced s) (h : exec s ins = .ok s') (hp : toSwitch s ins → ¬ (decode ins).storesAfterFault s)
    (hx : ¬ storable s x) : s'.mainMemory x = s.mainMemory x := by
  refine (exec_reserves h).memory x ?_
  intro b hb hc
  apply hx
  unfold execWrites at hb
  by_cases ha : fetchAligned s = true
  · rw [if_neg (not_not.2 ha)] at hb
    by_cases hq : misaCEnabled s = true ∧ ins.extractLsb' 0 2 ≠ 3
    · rw [if_pos hq] at hb
      exact compressedWrites_storable hf hb hc
    · rw [if_neg hq] at hb
      exact Insn.writes_storable hf (hp ⟨ha, hq⟩) hb hc
  · rw [if_pos ha] at hb
    cases hb

end

/-! ## Runs -/

theorem Fenced.confined {s t : Machine} (hf : Fenced s) (h : Confined s t) : Fenced t := by
  have hroot : ∀ v, rootEntryAddr t v = rootEntryAddr s v := by
    intro v
    have hs : csrRead t csrSatp = csrRead s csrSatp := congrFun h.csr csrSatp
    simp only [rootEntryAddr, mmuSatpRootPpn, hs]
  have hentry : ∀ v, (rootEntry t v).1 = (rootEntry s v).1 := fun v => (rootEntry_ram hf h v).1
  have hdesc : ∀ v, descends t v ↔ descends s v := by
    intro v
    unfold descends
    rw [hentry]
  have hsecond : ∀ v, secondEntryAddr t v = secondEntryAddr s v := by
    intro v
    unfold secondEntryAddr
    rw [hentry]
  refine ⟨?_, ?_⟩
  · intro v
    rw [hroot, hsecond, hdesc]
    exact hf.ram v
  · intro v x hx
    rw [storable_congr hf h]
    unfold tableByte at hx
    simp only [hroot, hsecond, hdesc] at hx
    exact hf.fence v x hx

/-- the callbacks of the FP status registers -/
def isFpCallback : Option WriteCallback → Prop
  | some .setFcsr | some .setFflags | some .setFrm => True
  | _ => False

/-- the registers U-mode may write are those of the FPU -/
theorem csrTable_user (csr : Csr) :
    (csrTable csr).privilege = prvUser → (csrTable csr).rw = true → isFpCallback (csrTable csr).writeCallback := by
  unfold csrTable
  split
  all_goals
    try
      first
      | exact fun h => absurd h (by decide)
      | exact fun _ h => absurd h (by decide)
      | exact fun _ _ => trivial
  split_ifs
  all_goals exact fun h => absurd h (by decide)

/-- a CSR write of U-mode reaches the FPU only -/
theorem csrWrite_user {s : Machine} {csr : Csr} (h : csrAccessIllegal s csr = false) (hp : s.privilege = prvUser)
    (val : Word) : Quiet s (csrWrite s csr val) := by
  simp only [csrAccessIllegal, decide_eq_false_iff_not, not_or] at h
  obtain ⟨-, hpriv, -⟩ := h
  have huser : (csrTable csr).privilege = prvUser := by
    rw [hp, BitVec.lt_def, not_lt] at hpriv
    exact BitVec.eq_of_toNat_eq (Nat.le_zero.1 hpriv)
  have hcallback := csrTable_user csr huser
  unfold csrWrite
  cases hrw : (csrTable csr).rw with
  | false => exact ⟨rfl, rfl, rfl⟩
  | true =>
    have hc := hcallback hrw
    rw [if_pos rfl]
    cases hw : (csrTable csr).writeCallback with
    | none => rw [hw] at hc; exact hc.elim
    | some f =>
      rw [hw] at hc
      cases f with
      | setFcsr =>
        simp only [WriteCallback.run, setFcsr]
        split_ifs <;> exact ⟨rfl, rfl, rfl⟩
      | setFrm =>
        simp only [WriteCallback.run, setFrm]
        split_ifs <;> exact ⟨rfl, rfl, rfl⟩
      | setFflags => exact ⟨rfl, rfl, rfl⟩
      | _ => exact hc.elim

/-- what may not be executed: a return, and above U-mode a CSR write -/
def keepsTables (s : Machine) (ins : Word) : Prop :=
  (decode ins).isReturn = false ∧ (s.privilege = prvUser ∨ (decode ins).writesCsr = false)

instance (s : Machine) (ins : Word) : Decidable (keepsTables s ins) := by unfold keepsTables; infer_instance

section
variable [SoftFloat] {s s' : Machine} {ins : Word}

theorem exec_user_quiet (h : exec s ins = .ok s') (ht : s'.traps = s.traps) (hk : keepsTables s ins) : Quiet s s' := by
  obtain ⟨hret, hu | hw⟩ := hk
  · obtain ⟨-, rfl⟩ | ⟨-, hc, rfl⟩ | ⟨-, hrun⟩ := exec_cases h
    · simp at ht
    · exact execCInsn_quiet (compressed_quadrant hc.2) ht
    · cases hd : decode ins with
      | zicsr op rs1 rd csr =>
        rw [hd] at hrun
        obtain rfl := Except.ok.inj hrun
        cases hi : csrAccessIllegal s csr with
        | true =>
          rw [(op.exec_illegal s rs1 rd csr ins hi).2] at ht
          simp at ht
        | false =>
          have hexec := op.exec_kept s rs1 rd csr ins
          rw [checkCsrAccess, hi, if_neg Bool.false_ne_true, csrAfterWrite] at hexec
          refine Quiet.trans ?_ hexec.quiet
          cases op.newVal rs1 s (csrRead s csr) with
          | none => exact ⟨rfl, rfl, rfl⟩
          | some val => exact csrWrite_user hi hu val
      | _ => exact Insn.run_quiet hrun ht hret (by rw [hd]; rfl)
  · exact exec_quiet h ht hret hw

/-- an instruction that goes on after a fault records it -/
theorem Insn.storesAfterFault_traps {i : Insn} (h : i.run s ins = .ok s') (hp : i.storesAfterFault s) :
    s.traps.length < s'.traps.length := by
  have hfault : ∀ {v : Word} {access : MmuAccess}, pageFaults s v access →
      s.traps.length < (mmuTranslate s v access).2.traps.length := by
    intro v access hp
    rw [(mmuTranslate_trap hp).traps, raiseExceptionPc_traps]
    simp
  cases i with
  | atomic a rs1 rs2 rd =>
    cases a with
    | amo o =>
      obtain ⟨-, value, rfl⟩ := AmoOp.exec_cases h
      have hread : s.traps.length < (mmuRead32Unsigned s (regRead s rs1)).2.traps.length := by
        rw [mmuRead32Unsigned, mmuRead_fault hp]
        exact hfault hp
      exact lt_of_lt_of_le hread (mmuWrite_effect _ _ memWrite32_effect value).reserves.traps_le
    | _ => exact hp.elim
  | fp i =>
    cases i with
    | store op imm rs1 rs2 =>
      cases op with
      | fsq =>
        simp only [Insn.run] at h
        split_ifs at h with hfs
        · obtain rfl := Except.ok.inj h
          simp
        · obtain rfl := Except.ok.inj h
          have hwrite : s.traps.length <
              (mmuWrite64 s (regRead s rs1 + imm) ((fprRead .Q s.fpu rs2).setWidth 64)).traps.length := by
            rw [mmuWrite64, mmuWrite_fault hp]
            exact hfault hp
          exact lt_of_lt_of_le hwrite (mmuWrite_effect _ _ memWrite64_effect _).reserves.traps_le
      | _ => exact hp.elim
    | _ => exact hp.elim
  | _ => exact hp.elim

theorem exec_confined (hf : Fenced s) (h : exec s ins = .ok s') (ht : s'.traps = s.traps) (hk : keepsTables s ins) :
    Confined s s' := by
  have hq := exec_user_quiet h ht hk
  refine ⟨hq.csr, hq.privilege, fun x hx => exec_storable hf h ?_ hx⟩
  intro hs hp
  obtain ⟨ha, -⟩ | ⟨-, hc, -⟩ | ⟨-, hrun⟩ := exec_cases h
  · exact absurd (hs.1.symm.trans ha) (by decide)
  · exact hs.2 hc
  · have hlt := Insn.storesAfterFault_traps hrun hp
    rw [ht] at hlt
    omega

end

/-- the state an iteration executes in, if no interrupt was taken -/
theorem Executes.confined {host : HostInput} {r : Run} {t : Machine} {ins : Word} (h : Executes host r t ins)
    (ht : t.traps = r.state.traps) : Confined r.state t := by
  obtain ⟨d, rfl⟩ := mmuFetchOk_dev h.2.1
  have hd : checkAndHandleInterrupts r.state = r.state := by
    refine checkAndHandleInterrupts_idle (le_of_eq (congrArg List.length ?_))
    exact ht
  unfold fetchState
  rw [hd]
  exact ⟨rfl, rfl, fun _ _ => rfl⟩

section
variable [SoftFloat] {r r' : Run}

/-- **One iteration** without a trap -/
theorem iteration_confined {host : HostInput} (hf : Fenced r.state) (h : iteration host r = .ok r')
    (ht : r'.state.traps = r.state.traps) (hk : ∀ x ∈ executed host r, keepsTables x.1 x.2) :
    Confined r.state r'.state := by
  rcases iteration_cases h with ⟨-, hr⟩ | ⟨hq, u, he, rfl⟩
  · have hd : checkAndHandleInterrupts r.state = r.state :=
      checkAndHandleInterrupts_idle (by rw [← ht, hr]; rfl)
    rw [hr, hd]
    exact ⟨rfl, rfl, fun _ _ => rfl⟩
  · have hfin := finish_quiet r (fetchState host r).pc u
    have hmem := (finish_effect r (fetchState host r).pc u).memory
    have hlen := fetchExec_traps_le he
    have hd : checkAndHandleInterrupts r.state = r.state :=
      checkAndHandleInterrupts_idle (by rw [← ht, hfin.traps]; exact hlen)
    have hstate : (fetchState host r).traps = r.state.traps := by
      unfold fetchState
      rw [hd]
      rfl
    rcases fetchExec_cases he with ⟨-, cause, hraise⟩ | ⟨t, ins, hfetch, hkept, hexec⟩
    · rw [hfin.traps, hraise.traps, raiseExceptionPc_traps, hstate] at ht
      simp at ht
    · have hx : Executes host r t ins := ⟨hq, hfetch⟩
      have hconf := hx.confined (hkept.traps.trans hstate)
      have hmem' := exec_confined (hf.confined hconf) hexec
        ((hfin.traps.symm.trans ht).trans (hkept.traps.trans hstate).symm) (hk _ ((executes_iff host r t ins).1 hx))
      refine (hconf.trans hf hmem').trans hf ⟨hfin.csr, hfin.privilege, fun x _ => hmem x (by simp)⟩

/-- **Isolation.** Until a trap is taken, what no store of the first state reaches stays, and so do all translations;
the instruction that takes the trap changes nothing else either, unless it goes on after a fault. -/
theorem isolation {p : List (Run × HostInput)} (hp : Path loopStep r p r') (hf : Fenced r.state)
    (ht : ∀ x ∈ p, x.1.state.traps = r.state.traps) (ht' : r'.state.traps = r.state.traps)
    (hk : ∀ x ∈ p, ∀ y ∈ executed x.2 x.1, keepsTables y.1 y.2) :
    (∀ x, ¬ storable r.state x → r'.state.mainMemory x = r.state.mainMemory x) ∧
      (∀ v access, (mmuWalk r'.state v access).1 = (mmuWalk r.state v access).1) ∧
      ∀ host t ins u, Executes host r' t ins → t.traps = r.state.traps → exec t ins = .ok u →
        (toSwitch t ins → ¬ (decode ins).storesAfterFault t) →
        ∀ x, ¬ storable r.state x → u.mainMemory x = r.state.mainMemory x := by
  have hrun : Confined r.state r'.state := by
    induction hp with
    | nil r => exact .refl _
    | @cons r r₁ r' host p h hp ih =>
      have ht₁ : r₁.state.traps = r.state.traps := by
        cases hp with
        | nil => exact ht'
        | cons => exact ht _ (List.mem_cons_of_mem _ List.mem_cons_self)
      have hstep := iteration_confined hf h.2 ht₁ (hk _ List.mem_cons_self)
      refine hstep.trans hf (ih (hf.confined hstep) ?_ (ht'.trans ht₁.symm) ?_)
      · exact fun x hx => (ht x (List.mem_cons_of_mem _ hx)).trans ht₁.symm
      · exact fun x hx => hk x (List.mem_cons_of_mem _ hx)
  refine ⟨hrun.memory, fun v access => walk_congr hf hrun v access, ?_⟩
  intro host t ins u hx htt hexec hgo x hs
  have hconf := hrun.trans hf (hx.confined (htt.trans ht'.symm))
  rw [exec_storable (hf.confined hconf) hexec hgo ((storable_congr hf hconf x).not.2 hs)]
  exact hconf.memory x hs

end

/-! ## A hart in U-mode -/

/-- sw x6, 256(x0) at 0, and page tables at 2 GiB that map every superpage to the first 4 MiB -/
def fencedMemory (a : Word) : Byte := if a.toNat < 4 then byte (n := 4) (0x10602023 : Word) a.toNat else filled 0xDF a

def fencedRun : Run :=
  { runInit (fun _ => 5) fencedMemory 0 false with
    state := { machineInit (fun _ => 5) fencedMemory 0 with
      privilege := prvUser
      csr := Function.update (fun _ => 0) csrSatp 0x80080000 } }

theorem fencedRun_root (v : Word) : 0x80000000 ≤ (rootEntryAddr fencedRun.state v).toNat ∧
    (rootEntryAddr fencedRun.state v).toNat + 4 ≤ 0x80001000 ∧ (rootEntryAddr fencedRun.state v).toNat % 4 = 0 := by
  have hr : mmuSatpRootPpn fencedRun.state <<< pgshift = 0x80000000 := by decide
  have hm : (v >>> 22 &&& 0x3FF).toNat < 1024 := by
    rw [Bits.toNat_and_mask (k := 10) _ _ rfl]
    exact Nat.mod_lt _ (by decide)
  have h4 : (4 : Word).toNat = 4 := rfl
  have hb : (0x80000000 : Word).toNat = 0x80000000 := rfl
  rw [rootEntryAddr, hr, BitVec.toNat_add, BitVec.toNat_mul, h4, hb]
  omega

theorem fencedRun_entry (v : Word) :
    isRam32 (rootEntryAddr fencedRun.state v) ∧ (rootEntry fencedRun.state v).1 = 0xDF := by
  obtain ⟨hlo, hhi, h4⟩ := fencedRun_root v
  have hram : isRam32 (rootEntryAddr fencedRun.state v) := by
    have h := isRam32_high (a := (rootEntryAddr fencedRun.state v).toNat) hlo (by simp only [memSize]; omega)
    rwa [BitVec.ofNat_toNat, BitVec.setWidth_eq] at h
  refine ⟨hram, ?_⟩
  have he : rootEntry fencedRun.state v =
      (loadLE fencedMemory (rootEntryAddr fencedRun.state v) 4, fencedRun.state.dev) := memRead32_ram hram
  rw [he]
  refine (loadLE_congr _ 4 ?_).trans (loadLE_filled 0xDF _ h4)
  intro k hk
  have hk' : ¬ (rootEntryAddr fencedRun.state v + BitVec.ofNat 32 k).toNat < 4 := by
    rw [BitVec.toNat_add, BitVec.toNat_ofNat]
    omega
  exact if_neg hk'

theorem fencedRun_storable {x : Word} (h : storable fencedRun.state x) : x.toNat < 0x400008 := by
  obtain ⟨v, pa, hpa, hx⟩ := h
  rw [mmuWalk_eq_leaf _ _ _ (by decide)] at hpa
  have hleaf : walkLeaf fencedRun.state v = some (1, 0xDF) := by
    simp only [walkLeaf, (fencedRun_entry v).2]
    rfl
  rw [hleaf, Option.bind_some, mmuLeaf] at hpa
  split_ifs at hpa
  obtain rfl := Option.some.inj hpa
  have haddr : leafAddr v 1 0xDF = v.toNat % 2 ^ 22 := by
    have hp : Pte.ppn 0xDF = 0 := by decide
    rw [leafAddr, hp]
    omega
  have hlt : (BitVec.ofNat 32 (leafAddr v 1 0xDF)).toNat < 0x400000 := by
    rw [haddr, BitVec.toNat_ofNat]
    omega
  change (x - BitVec.ofNat 32 (leafAddr v 1 0xDF)).toNat < 8 at hx
  rw [BitVec.toNat_sub] at hx
  omega

theorem fencedRun_fenced : Fenced fencedRun.state := by
  have hnot : ∀ v, ¬ descends fencedRun.state v := by
    intro v h
    have hp := h.2
    rw [(fencedRun_entry v).2] at hp
    exact absurd hp (by decide)
  refine ⟨fun v => ⟨(fencedRun_entry v).1, fun h => absurd h (hnot v)⟩, ?_⟩
  intro v x h hx
  obtain ⟨k, hk, rfl | ⟨hd, -⟩⟩ := h
  · have hlt := fencedRun_storable hx
    obtain ⟨hlo, hhi, -⟩ := fencedRun_root v
    rw [BitVec.toNat_add, BitVec.toNat_ofNat] at hlt
    omega
  · exact hnot v hd

/-- the store writes its page and leaves the tables -/
theorem isolation_fencedRun : ∃ r', Path (@loopStep noFloat) fencedRun [(fencedRun, ⟨[], false⟩)] r' ∧
    r'.state.mainMemory 256 = 5 ∧ (∀ x, ¬ storable fencedRun.state x → r'.state.mainMemory x = fencedMemory x) ∧
    ¬ storable fencedRun.state 0x80000000 := by
  have hstep : (match @iteration noFloat ⟨[], false⟩ fencedRun with
    | .ok r => some (r.state.traps.length, r.state.mainMemory 256)
    | .error _ => none) = some (0, 5) := by decide
  cases h : @iteration noFloat ⟨[], false⟩ fencedRun with
  | error e => rw [h] at hstep; cases hstep
  | ok r =>
    rw [h] at hstep
    obtain ⟨htraps, hmem⟩ := Prod.mk.inj (Option.some.inj hstep)
    have hpath : Path (@loopStep noFloat) fencedRun [(fencedRun, ⟨[], false⟩)] r := .cons ⟨by decide, h⟩ (.nil r)
    have hiso := @isolation noFloat _ _ _ hpath fencedRun_fenced
      (by simp) (List.eq_nil_of_length_eq_zero htraps) (by decide)
    refine ⟨r, hpath, hmem, hiso.1, ?_⟩
    intro hx
    exact absurd (fencedRun_storable hx) (by decide)

/-! ## The exception -/

section
variable [SoftFloat] {s : Machine} {ins : Word} {o : AmoOp} {rs1 rs2 rd : Reg}

/-- **An AMO escapes.** Where its page may not be read and the fault goes to M-mode, it writes the physical word at its
virtual address, whatever the page tables say of it. -/
theorem amo_escapes (hs : toSwitch s ins) (hd : decode ins = .atomic (.amo o) rs1 rs2 rd)
    (hp : pageFaults s (regRead s rs1) .load) (hm : exceptionMode s causeLoadPageFault = prvMachine)
    (hmprv : (s.csr csrMstatus).getLsbD 17 = false) (ha : regRead s rs1 &&& 3 = 0) (hr : isRam32 (regRead s rs1)) :
    ∃ s', exec s ins = .ok s' ∧
      s'.mainMemory = storeLE s.mainMemory (regRead s rs1) 4 (o.apply 0 (regRead s rs2)) := by
  obtain ⟨msg, hexec⟩ := o.exec_eq s rs1 rs2 rd
  obtain ⟨d, hw⟩ : ∃ d, mmuWalk s (regRead s rs1) .load = (none, d) := by
    rcases hw : mmuWalk s (regRead s rs1) .load with ⟨_ | pa, d⟩
    · exact ⟨d, rfl⟩
    · rw [pageFaults, mmuTranslate_some hw] at hp
      cases hp
  have hread : mmuRead32Unsigned s (regRead s rs1) = (0, raiseExceptionPc { s with dev := d } causeLoadPageFault
      (regRead s rs1) s.pc) := mmuRead_none hw
  -- the trap leaves M-mode with MPRV clear, so the store is not translated
  generalize hu : raiseExceptionPc { s with dev := d } causeLoadPageFault (regRead s rs1) s.pc = u at hread
  have hpriv : u.privilege = prvMachine := by
    rw [← hu, raiseExceptionPc_privilege]
    exact hm
  have hbit : (u.csr csrMstatus).getLsbD 17 = false := by
    rw [← hu, raiseExceptionPc_csr, trapCsr_mstatus, mprv_statusOnTrap]
    exact hmprv
  have hdpriv : mmuEffectiveDpriv u = prvMachine := by
    rw [mmuEffectiveDpriv_eq, hbit, if_neg Bool.false_ne_true, hpriv]
  have hbare : mmuWalk u (regRead s rs1) .store = (some (regRead s rs1), u.dev) := by
    have hvm : mmuVmActive u (effectivePriv u .store) = false := by
      have he : effectivePriv u .store = prvMachine := hdpriv
      rw [mmuVmActive, if_pos he]
    simp only [mmuWalk, hvm, Bool.false_eq_true, not_false_eq_true, if_true]
  have hmem : u.mainMemory = s.mainMemory := by
    rw [← hu, raiseExceptionPc_mainMemory]
  refine ⟨regWrite (mmuWrite32 u (regRead s rs1) (o.apply 0 (regRead s rs2))) rd 0, ?_, ?_⟩
  · rw [exec_decode hs.1 hs.2, hd, Insn.run]
    change o.exec s rs1 rs2 rd = _
    rw [hexec, insaRAmo]
    simp only [hread]
    rw [if_neg (not_not.2 ha)]
  · change (mmuWrite32 u (regRead s rs1) (o.apply 0 (regRead s rs2))).mainMemory = _
    rw [mmuWrite32, mmuWrite_some hbare, memWrite32_mainMemory, if_pos hr]
    exact congrArg (storeLE · (regRead s rs1) 4 (o.apply 0 (regRead s rs2))) hmem

end

/-- amoadd.w x7, x6, (x5) in user mode, at a page that is not mapped -/
theorem amo_escapes_amoMachine : ∃ s', @exec noFloat amoMachine 0x0062A3AF = .ok s' ∧
    s'.mainMemory = storeLE amoMachine.mainMemory (regRead amoMachine 5) 4 1 :=
  @amo_escapes noFloat amoMachine 0x0062A3AF .amoadd 5 6 7 (by decide) (by decide) (by decide) (by decide) (by decide)
    (by decide) (by decide)

end RiscvEmu
