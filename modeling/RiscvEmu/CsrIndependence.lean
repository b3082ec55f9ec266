/-
Which CSRs share storage.

The callbacks of csr_table read and write a few places: the value of an entry, the trigger slots, tcontrol, fcsr and the
two halves of instret. Two registers interfere exactly when their callbacks meet in a place. Results:
- `WriteCallback.run_same`, `ReadCallback.run_congr`: a write touches its own place, a read depends on its own place;
- `csrTable_registered`: from the table, the register whose storage each entry uses;
- `csr_independent_iff`: a write to one register shows in another exactly when both are pmpaddr or both are pmpcfg
  registers, outside the documented groups;
- `pmp_shared`: a write to pmpaddr1 shows in pmpaddr0.
-/
import RiscvEmu.Init

namespace RiscvEmu

/-! ## Groups -/

/-- the group of registers that show the same state by specification, under the number of one of them -/
def aliasGroup (c : Csr) : Csr :=
  if c = csrSstatus then csrMstatus
  else if c = csrSie then csrMie
  else if c = csrSip then csrMip
  else if c = csrFflags ∨ c = csrFrm then csrFcsr
  else if c = 0xB02#12 then 0xC02#12
  else if c = 0xB82#12 then 0xC82#12
  else if c = 0x7A1#12 ∨ c = 0x7A2#12 then 0x7A0#12
  else c

/-- the same number, or views of one register -/
def aliased (a b : Csr) : Prop := aliasGroup a = aliasGroup b

instance (a b : Csr) : Decidable (aliased a b) := by unfold aliased; infer_instance

def isPmpcfg (c : Csr) : Prop := csrPmpcfg0 ≤ c ∧ c < csrPmpcfg0 + 4
def isPmpaddr (c : Csr) : Prop := csrPmpaddr0 ≤ c ∧ c < csrPmpaddr0 + 16

instance (c : Csr) : Decidable (isPmpcfg c) := by unfold isPmpcfg; infer_instance
instance (c : Csr) : Decidable (isPmpaddr c) := by unfold isPmpaddr; infer_instance

/-! ## Places -/

/-- what the callbacks of csr_table read and write -/
inductive Place
  | value (c : Csr)
  | triggers | tcontrol | fcsr | instretL | instretH
deriving DecidableEq

/-- the two states agree on the place -/
def Place.same (s t : Machine) : Place → Prop
  | .value c => s.csr c = t.csr c
  | .triggers => s.trig.slots = t.trig.slots ∧ s.trig.tselect = t.trig.tselect
  | .tcontrol => s.trig.tcontrol = t.trig.tcontrol
  | .fcsr => s.fpu.fcsr = t.fpu.fcsr
  | .instretL => s.instret.setWidth 32 = t.instret.setWidth 32
  | .instretH => (s.instret >>> 32).setWidth 32 = (t.instret >>> 32).setWidth 32

def WriteCallback.place : WriteCallback → Place
  | .setValue c => .value c
  | .mstatusWrite | .sstatusWrite => .value csrMstatus
  | .setSie => .value csrMie
  | .setSip => .value csrMip
  | .setTselect | .setTdata1 | .setTdata2 => .triggers
  | .setTcontrol => .tcontrol
  | .setFcsr | .setFflags | .setFrm => .fcsr
  | .setZicntrMinstretL => .instretL
  | .setZicntrMinstretH => .instretH

/-- the constants, the timer and the cycle counter have no place that a CSR write reaches -/
def ReadCallback.place : ReadCallback → Option Place
  | .getValue c => some (.value c)
  | .mstatusRead | .sstatusRead => some (.value csrMstatus)
  | .getMip | .getSip => some (.value csrMip)
  | .getSie => some (.value csrMie)
  | .getTselect | .getTdata1 | .getTdata2 => some .triggers
  | .getTcontrol => some .tcontrol
  | .getFcsr | .getFflags | .getFrm => some .fcsr
  | .getZicntrInstretL => some .instretL
  | .getZicntrInstretH => some .instretH
  | _ => none

/-- an entry without a callback uses its own value -/
def CsrOperation.writePlace (op : CsrOperation) (c : Csr) : Place :=
  match op.writeCallback with
  | some f => f.place
  | none => .value c

def CsrOperation.readPlace (op : CsrOperation) (c : Csr) : Option Place :=
  match op.readCallback with
  | some f => f.place
  | none => some (.value c)

/-- the entry reads, and writes, the value of entry x as it is -/
def CsrOperation.readsValue (op : CsrOperation) (c x : Csr) : Prop :=
  op.readCallback = none ∧ x = c ∨ op.readCallback = some (.getValue x)

def CsrOperation.writesValue (op : CsrOperation) (c x : Csr) : Prop :=
  op.writeCallback = none ∧ x = c ∨ op.writeCallback = some (.setValue x)

/-- a plain read-write register: no view of another one, no field that is not stored -/
def plainRegister (c : Csr) : Prop := (csrTable c).rw = true ∧ ∃ x, (csrTable c).readsValue c x

section
variable (s : Machine) (val : Word)

/-- a write of minstret keeps the high half of the counter, a write of minstreth the low half -/
theorem minstret_high (x : BitVec 64) :
    ((x &&& 0xFFFFFFFF00000000 ||| val.setWidth 64) >>> 32).setWidth 32 = (x >>> 32).setWidth 32 := by
  have hmask : ∀ i < 32, (0xFFFFFFFF00000000#64).getLsbD (32 + i) = true := by decide
  apply BitVec.eq_of_getLsbD_eq
  intro i hi
  simp [hi, hmask i hi]

theorem minstreth_low (x : BitVec 64) :
    (x &&& 0x00000000FFFFFFFF#64 ||| val.setWidth 64 <<< 32).setWidth 32 = x.setWidth 32 := by
  have hmask : ∀ i < 32, (0x00000000FFFFFFFF#64).getLsbD i = true := by decide
  apply BitVec.eq_of_getLsbD_eq
  intro i hi
  rw [BitVec.getLsbD_setWidth, BitVec.getLsbD_or, BitVec.getLsbD_and, BitVec.getLsbD_shiftLeft, hmask i hi]
  simp [hi]

theorem Place.same_refl (p : Place) : p.same s s := by
  cases p <;> simp [Place.same]

theorem setCsr_same {c : Csr} {p : Place} (hp : p ≠ .value c) : p.same (setCsr s c val) s := by
  cases p with
  | value x => exact Function.update_of_ne (fun h => hp (congrArg Place.value h)) _ _
  | triggers => exact ⟨rfl, rfl⟩
  | _ => rfl

theorem setFcsrReg_same {p : Place} (hp : p ≠ .fcsr) : p.same (setFcsrReg s val) s := by
  cases p with
  | triggers => exact ⟨rfl, rfl⟩
  | fcsr => exact absurd rfl hp
  | _ => rfl

/-- **A write touches its own place only.** -/
theorem WriteCallback.run_same (f : WriteCallback) {p : Place} (hp : p ≠ f.place) : p.same (f.run s val) s := by
  cases f with
  | setValue c => exact setCsr_same s _ hp
  | mstatusWrite => exact setCsr_same s _ hp
  | sstatusWrite => exact setCsr_same s _ hp
  | setSie => exact setCsr_same s _ hp
  | setSip => exact setCsr_same s _ hp
  | setFcsr =>
    simp only [WriteCallback.run, RiscvEmu.setFcsr]
    split_ifs <;> exact setFcsrReg_same s _ hp
  | setFflags => exact setFcsrReg_same s _ hp
  | setFrm =>
    simp only [WriteCallback.run, RiscvEmu.setFrm]
    split_ifs
    · exact p.same_refl s
    · exact setFcsrReg_same s _ hp
  | setTcontrol =>
    cases p with
    | triggers => exact ⟨rfl, rfl⟩
    | tcontrol => exact absurd rfl hp
    | _ => rfl
  | setZicntrMinstretL =>
    cases p with
    | triggers => exact ⟨rfl, rfl⟩
    | instretL => exact absurd rfl hp
    | instretH => exact minstret_high val s.instret
    | _ => rfl
  | setZicntrMinstretH =>
    cases p with
    | triggers => exact ⟨rfl, rfl⟩
    | instretL => exact minstreth_low val s.instret
    | instretH => exact absurd rfl hp
    | _ => rfl
  | _ =>
    cases p with
    | triggers => exact absurd rfl hp
    | _ => rfl

/-- no write reaches the devices or the cycle counter -/
theorem WriteCallback.run_live (f : WriteCallback) : (f.run s val).dev = s.dev ∧ (f.run s val).cycle = s.cycle := by
  cases f with
  | setFcsr =>
    simp only [WriteCallback.run, RiscvEmu.setFcsr]
    split_ifs <;> exact ⟨rfl, rfl⟩
  | setFrm =>
    simp only [WriteCallback.run, RiscvEmu.setFrm]
    split_ifs <;> exact ⟨rfl, rfl⟩
  | _ => exact ⟨rfl, rfl⟩

end

/-- **A read depends on its own place**, and on the devices and the cycle counter. -/
theorem ReadCallback.run_congr (f : ReadCallback) {s t : Machine} (hd : t.dev = s.dev) (hc : t.cycle = s.cycle)
    (hp : ∀ p, f.place = some p → p.same t s) : f.run t = f.run s := by
  cases f with
  | getConst v => rfl
  | getValue c => exact hp _ rfl
  | mstatusRead => exact hp _ rfl
  | sstatusRead => exact congrArg sstatusOf (hp _ rfl)
  | getMip =>
    have hm : t.csr csrMip = s.csr csrMip := hp _ rfl
    simp only [ReadCallback.run, RiscvEmu.getMip, hm, hd]
  | getSie =>
    have hm : t.csr csrMie = s.csr csrMie := hp _ rfl
    simp only [ReadCallback.run, RiscvEmu.getSie, getMie, hm]
  | getSip =>
    have hm : t.csr csrMip = s.csr csrMip := hp _ rfl
    simp only [ReadCallback.run, RiscvEmu.getSip, RiscvEmu.getMip, hm, hd]
  | getTselect =>
    obtain ⟨-, hsel⟩ := hp _ rfl
    simp only [ReadCallback.run, hsel]
  | getTdata1 =>
    obtain ⟨hslots, hsel⟩ := hp _ rfl
    simp only [ReadCallback.run, hslots, hsel]
  | getTdata2 =>
    obtain ⟨hslots, hsel⟩ := hp _ rfl
    simp only [ReadCallback.run, hslots, hsel]
  | getTcontrol => exact hp _ rfl
  | getFcsr => exact hp _ rfl
  | getFflags => exact congrArg (· &&& 0b11111) (hp _ rfl)
  | getFrm =>
    have hf : t.fpu.fcsr = s.fpu.fcsr := hp _ rfl
    simp only [ReadCallback.run, hf]
  | getZicntrCycleL => simp only [ReadCallback.run, hc]
  | getZicntrCycleH => simp only [ReadCallback.run, hc]
  | getZicntrTimeL => simp only [ReadCallback.run, hd]
  | getZicntrTimeH => simp only [ReadCallback.run, hd]
  | getZicntrInstretL => exact hp _ rfl
  | getZicntrInstretH => exact hp _ rfl

/-! ## Registers -/

/-- the register a place belongs to -/
def Place.register : Place → Csr
  | .value c => c
  | .triggers => 0x7A0#12
  | .tcontrol => 0x7A5#12
  | .fcsr => csrFcsr
  | .instretL => 0xC02#12
  | .instretH => 0xC82#12

/-- the register whose storage the table gives to c: its group, or the first of the PMP registers of its kind -/
def storage (c : Csr) : Csr :=
  if isPmpcfg c then csrPmpcfg0 else if isPmpaddr c then csrPmpaddr0 else aliasGroup c

/-- what the table has to say of an entry -/
structure Registered (c : Csr) (op : CsrOperation) : Prop where
  write : op.valid = true → (op.writePlace c).register = storage c
  read : op.valid = true → ∀ p, op.readPlace c = some p → p.register = storage c
  plain : op.rw = true → ∀ x, op.readsValue c x → op.writesValue c x

theorem not_isPmpcfg {c : Csr} (h : isPmpaddr c) : ¬ isPmpcfg c := by
  unfold isPmpaddr isPmpcfg at *
  bv_omega

section
variable {c : Csr}

/-- a read-only entry -/
theorem registered_ro {op : CsrOperation} (hw : op.rw = false) (hp : op.writePlace c = .value c) (hc : c = storage c)
    (hr : ∀ p, op.readPlace c = some p → p.register = storage c) : Registered c op where
  write := fun _ => by
    rw [hp]
    exact hc
  read := fun _ => hr
  plain := fun h => by
    rw [hw] at h
    exact absurd h Bool.false_ne_true

/-- an entry that reads and writes the value of entry x -/
theorem registered_value {op : CsrOperation} {x : Csr} (hr : op.readsValue c x) (hw : op.writesValue c x)
    (hx : x = storage c) : Registered c op where
  write := fun _ => by
    rcases hw with ⟨hw, rfl⟩ | hw <;> simp only [CsrOperation.writePlace, hw] <;> exact hx
  read := fun _ p hp => by
    rcases hr with ⟨hr, rfl⟩ | hr <;> simp only [CsrOperation.readPlace, hr] at hp <;> obtain rfl := Option.some.inj hp <;>
      exact hx
  plain := by
    intro _ y hy
    have hxy : y = x := by
      rcases hr with ⟨hr, rfl⟩ | hr <;> rcases hy with ⟨hy, hy'⟩ | hy <;> rw [hr] at hy <;> cases hy
      · exact hy'
      · rfl
    rwa [hxy]

/-- an entry with a view of its own -/
theorem registered_full {p : Priv} {f : ReadCallback} {g : WriteCallback} (hg : g.place.register = storage c)
    (hf : f.place = some g.place) (hv : ∀ x, f ≠ .getValue x) : Registered c (.full p f g) where
  write := fun _ => hg
  read := fun _ q hq => by
    obtain rfl := Option.some.inj (hf.symm.trans hq)
    exact hg
  plain := by
    rintro - x (⟨h, -⟩ | h)
    · cases h
    · exact absurd (Option.some.inj h) (hv x)

end

/-- **The table**, entry by entry. -/
theorem csrTable_registered (c : Csr) : Registered c (csrTable c) := by
  unfold csrTable
  split
  all_goals try exact registered_value (.inr rfl) (.inr rfl) rfl
  all_goals try exact registered_value (.inl ⟨rfl, rfl⟩) (.inl ⟨rfl, rfl⟩) rfl
  all_goals try exact registered_value (.inr rfl) (.inl ⟨rfl, rfl⟩) rfl
  all_goals try exact registered_full rfl rfl fun _ => nofun
  all_goals try exact registered_ro rfl rfl rfl fun _ hp => Option.some.inj hp ▸ rfl
  all_goals try exact registered_ro rfl rfl rfl fun _ => nofun
  split_ifs with hp
  · have hp : isPmpaddr _ := hp
    refine registered_value (.inr rfl) (.inr rfl) ?_
    rw [storage, if_neg (not_isPmpcfg hp), if_pos hp]
  · refine ⟨nofun, nofun, ?_⟩
    rintro - x (⟨-, hx⟩ | h)
    · exact Or.inl ⟨rfl, hx⟩
    · cases h

/-! ## Independence -/

section
variable (s : Machine) (val : Word) {a b : Csr}

theorem csrWrite_same (c : Csr) {p : Place} (hp : p ≠ (csrTable c).writePlace c) : p.same (csrWrite s c val) s := by
  unfold csrWrite
  unfold CsrOperation.writePlace at hp
  split_ifs
  · cases hw : (csrTable c).writeCallback with
    | none =>
      rw [hw] at hp
      exact setCsr_same s val hp
    | some f =>
      rw [hw] at hp
      exact f.run_same s val hp
  · exact p.same_refl s

theorem csrWrite_live (c : Csr) : (csrWrite s c val).dev = s.dev ∧ (csrWrite s c val).cycle = s.cycle := by
  unfold csrWrite
  split_ifs
  · cases (csrTable c).writeCallback with
    | none => exact ⟨rfl, rfl⟩
    | some f => exact f.run_live s val
  · exact ⟨rfl, rfl⟩

theorem csrRead_congr (c : Csr) {t : Machine} (hd : t.dev = s.dev) (hc : t.cycle = s.cycle)
    (hp : ∀ p, (csrTable c).readPlace c = some p → p.same t s) : csrRead t c = csrRead s c := by
  unfold csrRead
  unfold CsrOperation.readPlace at hp
  cases hr : (csrTable c).readCallback with
  | none =>
    rw [hr] at hp
    exact hp _ rfl
  | some f =>
    rw [hr] at hp
    exact f.run_congr hd hc hp

/-- registers with storage of their own do not interfere -/
theorem csrRead_csrWrite (ha : (csrTable a).valid = true) (hb : (csrTable b).valid = true)
    (hne : storage a ≠ storage b) : csrRead (csrWrite s a val) b = csrRead s b := by
  obtain ⟨hdev, hcycle⟩ := csrWrite_live s val a
  refine csrRead_congr s b hdev hcycle ?_
  intro p hp
  have hread := (csrTable_registered b).read hb p hp
  refine csrWrite_same s val a fun h => hne ?_
  rw [← (csrTable_registered a).write ha, ← h, hread]

theorem csrRead_of_readsValue {c x : Csr} (h : (csrTable c).readsValue c x) : csrRead s c = s.csr x := by
  unfold csrRead
  rcases h with ⟨h, rfl⟩ | h <;> rw [h]
  rfl

theorem csrWrite_of_writesValue {c x : Csr} (hw : (csrTable c).rw = true) (h : (csrTable c).writesValue c x) :
    csrWrite s c val = setCsr s x val := by
  unfold csrWrite
  rw [if_pos hw]
  rcases h with ⟨h, rfl⟩ | h <;> rw [h]
  rfl

/-- a plain register reads back what is written -/
theorem plainRegister_readback (h : plainRegister a) : csrRead (csrWrite s a val) a = val := by
  obtain ⟨hw, x, hr⟩ := h
  rw [csrRead_of_readsValue _ hr, csrWrite_of_writesValue s val hw ((csrTable_registered a).plain hw x hr)]
  exact Function.update_self x val s.csr

theorem csrTable_pmpcfg {c : Csr} (h : isPmpcfg c) : csrTable c = .stored 0 csrPmpcfg0 := by
  have hc : c = 0x3A0#12 ∨ c = 0x3A1#12 ∨ c = 0x3A2#12 ∨ c = 0x3A3#12 := by
    unfold isPmpcfg at h
    bv_omega
  rcases hc with rfl | rfl | rfl | rfl <;> rfl

theorem csrTable_pmpaddr {c : Csr} (h : isPmpaddr c) : csrTable c = .stored 0 csrPmpaddr0 := by
  unfold csrTable
  split
  all_goals try exact absurd h (by decide)
  exact if_pos h

/-- two registers on one entry -/
theorem csrRead_stored {v : Word} {x : Csr} (ha : csrTable a = .stored v x) (hb : csrTable b = .stored v x) :
    csrRead (csrWrite s a val) b = val ∧ csrRead s b = s.csr x := by
  have hra : (csrTable b).readsValue b x := .inr (by rw [hb]; rfl)
  have hwa : (csrTable a).writesValue a x := .inr (by rw [ha]; rfl)
  refine ⟨?_, csrRead_of_readsValue s hra⟩
  rw [csrRead_of_readsValue _ hra, csrWrite_of_writesValue s val (by rw [ha]; rfl) hwa]
  exact Function.update_self x val s.csr

/-- both are configuration registers, or both address registers, of the PMP -/
def sharePmp (a b : Csr) : Prop := a ≠ b ∧ (isPmpcfg a ∧ isPmpcfg b ∨ isPmpaddr a ∧ isPmpaddr b)

/-- the entry whose value the PMP registers of the kind of c share -/
def pmpEntry (c : Csr) : Csr := if isPmpcfg c then csrPmpcfg0 else csrPmpaddr0

theorem sharePmp_table (h : sharePmp a b) :
    csrTable a = .stored 0 (pmpEntry a) ∧ csrTable b = .stored 0 (pmpEntry a) := by
  unfold pmpEntry
  rcases h.2 with ⟨ha, hb⟩ | ⟨ha, hb⟩
  · rw [if_pos ha]
    exact ⟨csrTable_pmpcfg ha, csrTable_pmpcfg hb⟩
  · rw [if_neg (not_isPmpcfg ha)]
    exact ⟨csrTable_pmpaddr ha, csrTable_pmpaddr hb⟩

/-- a PMP register is a group of its own -/
theorem aliasGroup_pmp {c : Csr} (h : isPmpcfg c ∨ isPmpaddr c) : aliasGroup c = c := by
  unfold aliasGroup
  split_ifs with he he he he he he he
  · exact absurd (he ▸ h) (by decide)
  · exact absurd (he ▸ h) (by decide)
  · exact absurd (he ▸ h) (by decide)
  · rcases he with rfl | rfl <;> exact absurd h (by decide)
  · exact absurd (he ▸ h) (by decide)
  · exact absurd (he ▸ h) (by decide)
  · rcases he with rfl | rfl <;> exact absurd h (by decide)
  · rfl

/-- and no other register is in it -/
theorem eq_of_aliasGroup {c x : Csr} (hx : isPmpcfg x ∨ isPmpaddr x) (h : aliasGroup c = x) : c = x := by
  unfold aliasGroup at h
  split_ifs at h
  all_goals first | exact h | exact absurd (h ▸ hx) (by decide)

theorem not_aliased_of_sharePmp (h : sharePmp a b) : ¬ aliased a b := by
  obtain ⟨hne, hshare⟩ := h
  intro hal
  refine hne ?_
  rcases hshare with ⟨ha, hb⟩ | ⟨ha, hb⟩
  · exact (aliasGroup_pmp (.inl ha)).symm.trans (hal.trans (aliasGroup_pmp (.inl hb)))
  · exact (aliasGroup_pmp (.inr ha)).symm.trans (hal.trans (aliasGroup_pmp (.inr hb)))

theorem storage_eq_aliasGroup {c : Csr} (h1 : ¬ isPmpcfg c) (h2 : ¬ isPmpaddr c) : storage c = aliasGroup c := by
  rw [storage, if_neg h1, if_neg h2]

theorem isPmpcfg_of_storage (h : storage b = csrPmpcfg0) : isPmpcfg b := by
  by_contra hb
  unfold storage at h
  rw [if_neg hb] at h
  split_ifs at h
  · exact absurd h (by decide)
  · exact hb (eq_of_aliasGroup (.inl (by decide)) h ▸ by decide)

theorem isPmpaddr_of_storage (h : storage b = csrPmpaddr0) : isPmpaddr b := by
  by_contra hb
  unfold storage at h
  rw [if_neg hb] at h
  split_ifs at h
  · exact absurd h (by decide)
  · exact hb (eq_of_aliasGroup (.inr (by decide)) h ▸ by decide)

/-- registers with common storage are views of one register, or PMP registers of a kind -/
theorem aliased_of_storage (h : storage a = storage b) (hno : ¬ sharePmp a b) : aliased a b := by
  by_cases hne : a = b
  · rw [hne]
    exact rfl
  have hcfg : ∀ {x y : Csr}, isPmpcfg x → storage x = storage y → isPmpcfg y := fun hx hxy =>
    isPmpcfg_of_storage (hxy.symm.trans (if_pos hx))
  have haddr : ∀ {x y : Csr}, isPmpaddr x → storage x = storage y → isPmpaddr y := fun {x _} hx hxy =>
    isPmpaddr_of_storage (hxy.symm.trans (by rw [storage, if_neg (not_isPmpcfg hx), if_pos hx]))
  have ha1 : ¬ isPmpcfg a := fun ha => hno ⟨hne, .inl ⟨ha, hcfg ha h⟩⟩
  have ha2 : ¬ isPmpaddr a := fun ha => hno ⟨hne, .inr ⟨ha, haddr ha h⟩⟩
  have hb1 : ¬ isPmpcfg b := fun hb => ha1 (hcfg hb h.symm)
  have hb2 : ¬ isPmpaddr b := fun hb => ha2 (haddr hb h.symm)
  rwa [storage_eq_aliasGroup ha1 ha2, storage_eq_aliasGroup hb1 hb2] at h

end

/-- **Independence, exactly.** A write shows in a register outside the groups only between PMP registers of a kind, and
only if it changes the word they share. -/
theorem csr_independent_iff (s : Machine) (val : Word) {a b : Csr} (ha : (csrTable a).valid = true)
    (hb : (csrTable b).valid = true) :
    ((¬ aliased a b → csrRead (csrWrite s a val) b = csrRead s b) ∧
        (plainRegister a → csrRead (csrWrite s a val) a = val)) ↔
      (sharePmp a b → val = s.csr (pmpEntry a)) := by
  refine ⟨?_, fun h => ⟨fun hno => ?_, plainRegister_readback s val⟩⟩
  · rintro ⟨hind, -⟩ hshare
    obtain ⟨hta, htb⟩ := sharePmp_table hshare
    obtain ⟨hafter, hbefore⟩ := csrRead_stored s val hta htb
    rw [← hafter, hind (not_aliased_of_sharePmp hshare), hbefore]
  · by_cases hst : storage a = storage b
    · have hshare : sharePmp a b := by
        by_contra hs
        exact hno (aliased_of_storage hst hs)
      obtain ⟨hta, htb⟩ := sharePmp_table hshare
      obtain ⟨hafter, hbefore⟩ := csrRead_stored s val hta htb
      rw [hafter, hbefore, h hshare]
    · exact csrRead_csrWrite s val ha hb hst

theorem csr_independent_mscratch :
    let s := machineInit (fun _ => 0) (fun _ => 0) 0
    ((¬ aliased csrMscratch csrMepc → csrRead (csrWrite s csrMscratch 7) csrMepc = csrRead s csrMepc) ∧
        (plainRegister csrMscratch → csrRead (csrWrite s csrMscratch 7) csrMscratch = 7)) ↔
      (sharePmp csrMscratch csrMepc → 7 = s.csr (pmpEntry csrMscratch)) :=
  csr_independent_iff _ 7 (by decide) (by decide)

/-- a write of pmpaddr1 overwrites pmpaddr0, and one of pmpcfg1 pmpcfg0 -/
theorem pmp_shared :
    let s := machineInit (fun _ => 0) (fun _ => 0) 0
    (csrTable csrPmpaddr0).valid = true ∧ (csrTable (csrPmpaddr0 + 1)).valid = true ∧
      ¬ aliased (csrPmpaddr0 + 1) csrPmpaddr0 ∧
      csrRead (csrWrite s (csrPmpaddr0 + 1) 7) csrPmpaddr0 ≠ csrRead s csrPmpaddr0 ∧
      csrRead (csrWrite s (csrPmpcfg0 + 1) 7) csrPmpcfg0 ≠ csrRead s csrPmpcfg0 := by
  decide

end RiscvEmu
