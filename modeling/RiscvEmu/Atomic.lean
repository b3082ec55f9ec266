/-
All-or-nothing: what LR, SC and the AMOs leave when an access of theirs faults.

An AMO that faults on its load goes on to store and to write rd, in the mode trapped into; one that faults on its store
still writes rd. LR sets its reservation after a page fault, SC reports success. Results:
- `AmoOp.exec_eq`: each AMO stores the value its name says, with signed and unsigned comparison as integers;
- `amo_iff`, `lr_iff`, `sc_iff`: when each instruction is all-or-nothing;
- `atomic_all_or_nothing_iff`: the three together;
- `amo_fault_writes`: an AMO in user mode writes physical memory after its page fault.
-/
import RiscvEmu.Frame
import RiscvEmu.Init
import RiscvEmu.Insn

namespace RiscvEmu

open Bytes

/-! ## The instructions -/

/-- the value an AMO stores -/
def AmoOp.apply : AmoOp → Word → Word → Word
  | .amoswap, _, v => v
  | .amoadd, old, v => old + v
  | .amoand, old, v => old &&& v
  | .amoor, old, v => old ||| v
  | .amoxor, old, v => old ^^^ v
  | .amomax, old, v => BitVec.ofInt 32 (max old.toInt v.toInt)
  | .amomin, old, v => BitVec.ofInt 32 (min old.toInt v.toInt)
  | .amomaxu, old, v => BitVec.ofNat 32 (max old.toNat v.toNat)
  | .amominu, old, v => BitVec.ofNat 32 (min old.toNat v.toNat)

theorem amomax_eq (old v : Word) :
    (if v.slt old then old else v) = BitVec.ofInt 32 (max old.toInt v.toInt) := by
  split_ifs with h <;> rw [BitVec.slt_iff_toInt_lt] at h
  · rw [max_eq_left h.le, BitVec.ofInt_toInt]
  · rw [max_eq_right (not_lt.1 h), BitVec.ofInt_toInt]

theorem amomin_eq (old v : Word) :
    (if old.slt v then old else v) = BitVec.ofInt 32 (min old.toInt v.toInt) := by
  split_ifs with h <;> rw [BitVec.slt_iff_toInt_lt] at h
  · rw [min_eq_left h.le, BitVec.ofInt_toInt]
  · rw [min_eq_right (not_lt.1 h), BitVec.ofInt_toInt]

theorem amomaxu_eq (old v : Word) : (if old > v then old else v) = BitVec.ofNat 32 (max old.toNat v.toNat) := by
  split_ifs with h <;> rw [gt_iff_lt, BitVec.lt_def] at h
  · rw [max_eq_left h.le, BitVec.ofNat_toNat, BitVec.setWidth_eq]
  · rw [max_eq_right (not_lt.1 h), BitVec.ofNat_toNat, BitVec.setWidth_eq]

theorem amominu_eq (old v : Word) : (if old < v then old else v) = BitVec.ofNat 32 (min old.toNat v.toNat) := by
  split_ifs with h <;> rw [BitVec.lt_def] at h
  · rw [min_eq_left h.le, BitVec.ofNat_toNat, BitVec.setWidth_eq]
  · rw [min_eq_right (not_lt.1 h), BitVec.ofNat_toNat, BitVec.setWidth_eq]

theorem AmoOp.exec_eq (o : AmoOp) (s : Machine) (rs1 rs2 rd : Reg) :
    ∃ msg, o.exec s rs1 rs2 rd = insaRAmo msg o.apply s rs1 rs2 rd := by
  cases o with
  | amomax => exact ⟨_, by rw [← show _ = AmoOp.amomax.apply from funext₂ amomax_eq]; rfl⟩
  | amomin => exact ⟨_, by rw [← show _ = AmoOp.amomin.apply from funext₂ amomin_eq]; rfl⟩
  | amomaxu => exact ⟨_, by rw [← show _ = AmoOp.amomaxu.apply from funext₂ amomaxu_eq]; rfl⟩
  | amominu => exact ⟨_, by rw [← show _ = AmoOp.amominu.apply from funext₂ amominu_eq]; rfl⟩
  | _ => exact ⟨_, rfl⟩

/-! ## The property -/

/-- exactly one trap was taken, and memory and general registers are as before -/
structure TrapsCleanly (s s' : Machine) : Prop where
  once : ∃ t, s'.traps = t :: s.traps
  gpr : s'.gpr = s.gpr
  mem : s'.mainMemory = s.mainMemory

/-- the AMO took no trap, and a word of plain RAM was updated and its old value put in rd -/
structure AmoCompletes (o : AmoOp) (s s' : Machine) (addr value : Word) (rd : Reg) : Prop where
  noTrap : s'.traps = s.traps
  done : ∃ pa, (mmuWalk s addr .load).1 = some pa ∧ (isRam32 pa →
    s'.mainMemory = storeLE s.mainMemory pa 4 (o.apply (loadLE s.mainMemory pa 4) value) ∧
      s'.gpr = writeGpr s.gpr rd (loadLE s.mainMemory pa 4))

/-- an SC that faults leaves rd as it was, so it writes no success code there -/
def AllOrNothing (a : AInsn) (s s' : Machine) (rs1 rs2 rd : Reg) : Prop :=
  match a with
  | .amo o => AmoCompletes o s s' (regRead s rs1) (regRead s rs2) rd ∨ TrapsCleanly s s'
  | .lr => s'.traps ≠ s.traps → TrapsCleanly s s' ∧ getReserveStatus s' (regRead s rs1) = false
  | .sc => s'.traps ≠ s.traps → TrapsCleanly s s'

/-! ## When it holds -/

/-- the AMO's two translations, in the states they are made in, and what is at stake in each outcome -/
def amoWorks (o : AmoOp) (s : Machine) (addr value : Word) (rd : Reg) : Prop :=
  match mmuWalk s addr .load with
  | (some pa, d) =>
    let r := memRead32Unsigned { s with dev := d } pa
    match (mmuWalk { s with dev := r.2 } addr .store).1 with
    | some pa' =>
      -- the two differ only where the page table lies in a device whose registers change when read
      let v := o.apply (loadLE s.mainMemory pa 4) value
      isRam32 pa → pa' = pa ∨ loadLE s.mainMemory pa 4 = v ∧ (isRam32 pa' → loadLE s.mainMemory pa' 4 = v)
    | none => rd = 0 ∨ s.gpr rd = r.1
  | (none, d) =>
    let t := raiseExceptionPc { s with dev := d } causeLoadPageFault addr s.pc
    match (mmuWalk t addr .store).1 with
    | some pa' => (rd = 0 ∨ s.gpr rd = 0) ∧ (isRam32 pa' → loadLE s.mainMemory pa' 4 = o.apply 0 value)
    | none => False

def atomicWorks (a : AInsn) (s : Machine) (rs1 rs2 rd : Reg) : Prop :=
  let addr := regRead s rs1
  match a with
  | .amo o => amoWorks o s addr (regRead s rs2) rd
  | .lr => (mmuWalk s addr .load).1 ≠ none
  | .sc => getReserveStatus s addr = false ∨ (mmuWalk s addr .store).1 ≠ none ∨ rd = 0 ∨ s.gpr rd = 0

/-! ## AMOs -/

/-- words at two different aligned addresses share no byte -/
theorem aligned_disjoint {a b : Word} (ha : a.toNat % 4 = 0) (hb : b.toNat % 4 = 0) (hab : a ≠ b) (x : Word)
    (hx : (x - a).toNat < 4) : ¬ (x - b).toNat < 4 := by
  intro hy
  apply hab
  apply BitVec.eq_of_toNat_eq
  rw [BitVec.toNat_sub] at hx hy
  omega

theorem mmuWalk_aligned {s : Machine} {vaddr pa : Word} {access : MmuAccess} {d : Devices}
    (h : mmuWalk s vaddr access = (some pa, d)) (ha : vaddr &&& 3 = 0) : pa.toNat % 4 = 0 := by
  have ho : pa &&& 3 = 0#32 := by
    have := congrArg (· &&& (3 : Word)) (mmuWalk_pageOffset h)
    simp only [BitVec.and_assoc] at this
    exact this.trans ha
  have := congrArg BitVec.toNat ho
  rwa [BitVec.toNat_and, show (3 : Word).toNat = 2 ^ 2 - 1 from rfl, Nat.and_two_pow_sub_one_eq_mod] at this

theorem amo_iff (msg : String) (o : AmoOp) (s : Machine) (rs1 rs2 rd : Reg) (ha : regRead s rs1 &&& 3 = 0) :
    (∃ s', insaRAmo msg o.apply s rs1 rs2 rd = .ok s' ∧
      (AmoCompletes o s s' (regRead s rs1) (regRead s rs2) rd ∨ TrapsCleanly s s')) ↔
      amoWorks o s (regRead s rs1) (regRead s rs2) rd := by
  generalize hA : regRead s rs1 = addr at ha
  generalize hV : regRead s rs2 = value
  unfold amoWorks
  simp only [insaRAmo, hA, hV, ha, ne_eq, not_true_eq_false, if_false, mmuRead32Unsigned, mmuWrite32,
    Except.ok.injEq, exists_eq_left']
  rcases hl : mmuWalk s addr .load with ⟨_ | pa, d⟩
  · -- the load faults
    rw [mmuRead_none hl]
    simp only
    generalize ht : raiseExceptionPc { s with dev := d } causeLoadPageFault addr s.pc = t
    have htt : ∃ r, t.traps = r :: s.traps := by rw [← ht, raiseExceptionPc_traps]; exact ⟨_, rfl⟩
    have htg : t.gpr = s.gpr := by rw [← ht, raiseExceptionPc_gpr]
    have htm : t.mainMemory = s.mainMemory := by rw [← ht, raiseExceptionPc_mainMemory]
    obtain ⟨r, hr⟩ := htt
    rcases hs : mmuWalk t addr .store with ⟨_ | pa', d'⟩
    · rw [mmuWrite_none hs]
      simp only [iff_false, not_or]
      refine ⟨?_, ?_⟩
      · intro h
        have := congrArg List.length h.noTrap
        simp [hr] at this
        omega
      · intro h
        obtain ⟨q, hq⟩ := h.once
        have := congrArg List.length hq
        simp [hr] at this
    · rw [mmuWrite_some hs]
      obtain ⟨mem, flags, dev, hm⟩ := memWrite32_memStep { t with dev := d' } pa' (o.apply 0 value)
      have hmem := memWrite32_mainMemory { t with dev := d' } pa' (o.apply 0 value)
      rw [hm] at hmem ⊢
      simp only [htm] at hmem
      refine ⟨?_, ?_⟩
      · intro hx
        rcases hx with h | h
        · have := congrArg List.length h.noTrap
          simp [hr] at this
        · have hg := h.gpr
          have hmm := h.mem
          simp only [regWrite, htg, writeGpr_eq_self] at hg hmm
          refine ⟨hg, ?_⟩
          intro hram
          rw [hmem, if_pos hram, storeLE_eq_self_iff _ _ _ (by decide)] at hmm
          exact hmm
      · intro hx
        obtain ⟨hg, hw⟩ := hx
        refine Or.inr ⟨⟨r, by simp [hr]⟩, ?_, ?_⟩
        · simp only [regWrite, htg, writeGpr_eq_self]; exact hg
        · simp only [regWrite]
          rw [hmem]
          split_ifs with hram
          · exact (storeLE_eq_self_iff _ _ _ (by decide)).2 (hw hram)
          · rfl
  · -- the load answers the word at pa
    rw [mmuRead_some hl]
    simp only
    generalize hold : (memRead32Unsigned { s with dev := d } pa).1 = old
    generalize (memRead32Unsigned { s with dev := d } pa).2 = d2
    have hram : isRam32 pa → old = loadLE s.mainMemory pa 4 := fun h => by rw [← hold, memRead32_ram h]
    rcases hs : mmuWalk { s with dev := d2 } addr .store with ⟨_ | pa', d'⟩
    · rw [mmuWrite_none hs]
      simp only
      refine ⟨?_, ?_⟩
      · intro hx
        rcases hx with h | h
        · have := congrArg List.length h.noTrap
          simp at this
        · have hg := h.gpr
          simpa only [regWrite, raiseExceptionPc_gpr, writeGpr_eq_self] using hg
      · intro hg
        refine Or.inr ⟨⟨_, raiseExceptionPc_traps _ _ _ _⟩, ?_, by simp⟩
        simpa only [regWrite, raiseExceptionPc_gpr, writeGpr_eq_self] using hg
    · rw [mmuWrite_some hs]
      obtain ⟨mem, flags, dev, hm⟩ := memWrite32_memStep { s with dev := d' } pa' (o.apply old value)
      have hmem := memWrite32_mainMemory { s with dev := d' } pa' (o.apply old value)
      have hal := mmuWalk_aligned hl ha
      have hal' := mmuWalk_aligned hs ha
      simp only [hm] at hmem ⊢
      have hno : ¬ TrapsCleanly s (regWrite { s with mainMemory := mem, mmuFlags := flags, dev := dev } rd old) := by
        rintro ⟨⟨q, hq⟩, -, -⟩
        have := congrArg List.length hq
        simp at this
      rw [or_iff_left hno]
      -- what is left is the content of the word
      have hword : isRam32 pa → (mem = storeLE s.mainMemory pa 4 (o.apply (loadLE s.mainMemory pa 4) value) ↔
          pa' = pa ∨ loadLE s.mainMemory pa 4 = o.apply (loadLE s.mainMemory pa 4) value ∧
            (isRam32 pa' → loadLE s.mainMemory pa' 4 = o.apply (loadLE s.mainMemory pa 4) value)) := by
        intro h
        rw [hram h] at hmem
        by_cases he : pa' = pa
        · subst he
          simp only [true_or, iff_true]
          rw [hmem, if_pos h]
        · rw [or_iff_right he, hmem]
          split_ifs with h'
          · rw [storeLE_eq_storeLE_iff _ _ _ (by decide) (aligned_disjoint hal' hal he), and_comm]
            simp [h']
          · rw [eq_comm, storeLE_eq_self_iff _ _ _ (by decide)]
            simp [h']
      refine ⟨?_, ?_⟩
      · rintro ⟨-, q, hq, hd⟩ h
        rw [hl] at hq
        obtain rfl := Option.some.inj hq
        exact (hword h).1 (hd h).1
      · intro h
        refine ⟨rfl, pa, by rw [hl], fun h' => ⟨(hword h').2 (h h'), ?_⟩⟩
        rw [← hram h']
        rfl

/-! ## LR and SC -/

theorem setReserveStatus_get (s : Machine) (addr : Word) : getReserveStatus (setReserveStatus s addr) addr = true := by
  simp only [getReserveStatus, setReserveStatus, Hashmap.get_put, if_true]
  have hb : ∀ v : Word, (v ||| 1) &&& 1 ≠ 0 := by
    intro v h
    have := congrArg (fun x : Word => x.getLsbD 0) h
    simp at this
  simpa using hb _

theorem clearReserveStatus_eq (s : Machine) (addr : Word) :
    ∃ flags, clearReserveStatus s addr = { s with mmuFlags := flags } := by
  simp only [clearReserveStatus]
  split
  · exact ⟨s.mmuFlags, rfl⟩
  · split_ifs <;> exact ⟨_, rfl⟩

theorem lr_iff (s : Machine) (rs1 rd : Reg) (ha : regRead s rs1 &&& 3 = 0) :
    (∃ s', insaRLrW s rs1 rd = .ok s' ∧
      (s'.traps ≠ s.traps → TrapsCleanly s s' ∧ getReserveStatus s' (regRead s rs1) = false)) ↔
      (mmuWalk s (regRead s rs1) .load).1 ≠ none := by
  simp only [insaRLrW, ha, ne_eq, not_true_eq_false, if_false, mmuRead32Unsigned, Except.ok.injEq, exists_eq_left',
    setReserveStatus_get]
  rcases hl : mmuWalk s (regRead s rs1) .load with ⟨_ | pa, d⟩
  · rw [mmuRead_none hl]
    simp [setReserveStatus]
  · rw [mmuRead_some hl]
    simp [setReserveStatus]

theorem sc_iff (s : Machine) (rs1 rs2 rd : Reg) (ha : regRead s rs1 &&& 3 = 0) :
    (∃ s', insaRScW s rs1 rs2 rd = .ok s' ∧ (s'.traps ≠ s.traps → TrapsCleanly s s')) ↔
      getReserveStatus s (regRead s rs1) = false ∨ (mmuWalk s (regRead s rs1) .store).1 ≠ none ∨ rd = 0 ∨
        s.gpr rd = 0 := by
  simp only [insaRScW, ha, ne_eq, not_true_eq_false, if_false, mmuWrite32]
  cases hr : getReserveStatus s (regRead s rs1) with
  | false => simp
  | true =>
    simp only [if_true, Except.ok.injEq, exists_eq_left', Bool.true_eq_false, false_or]
    rcases hs : mmuWalk s (regRead s rs1) .store with ⟨_ | pa, d⟩
    · rw [mmuWrite_none hs]
      obtain ⟨flags, hf⟩ := clearReserveStatus_eq
        (regWrite (raiseExceptionPc { s with dev := d } causeStorePageFault (regRead s rs1) s.pc) rd 0) (regRead s rs1)
      rw [hf]
      refine ⟨?_, ?_⟩
      · intro h
        have hg := (h (by simp)).gpr
        simp only [regWrite, raiseExceptionPc_gpr, writeGpr_eq_self] at hg
        exact Or.inr hg
      · rintro h -
        refine ⟨⟨_, raiseExceptionPc_traps _ _ _ _⟩, ?_, by simp⟩
        simp only [regWrite, raiseExceptionPc_gpr, writeGpr_eq_self]
        simpa using h
    · rw [mmuWrite_some hs]
      obtain ⟨mem, flags, dev, hm⟩ := memWrite32_memStep { s with dev := d } pa (regRead s rs2)
      obtain ⟨flags', hf⟩ := clearReserveStatus_eq
        (regWrite (memWrite32 { s with dev := d } pa (regRead s rs2)) rd 0) (regRead s rs1)
      rw [hf, hm]
      simp

/-! ## The three together -/

/-- **All or nothing, exactly.** -/
theorem atomic_all_or_nothing_iff (a : AInsn) (s : Machine) (rs1 rs2 rd : Reg) (ha : regRead s rs1 &&& 3 = 0) :
    (∃ s', a.exec s rs1 rs2 rd = .ok s' ∧ AllOrNothing a s s' rs1 rs2 rd) ↔ atomicWorks a s rs1 rs2 rd := by
  cases a with
  | amo o =>
    obtain ⟨msg, hm⟩ := o.exec_eq s rs1 rs2 rd
    rw [AInsn.exec, hm]
    exact amo_iff msg o s rs1 rs2 rd ha
  | lr => exact lr_iff s rs1 rd ha
  | sc => exact sc_iff s rs1 rs2 rd ha

/-- user mode, every page unmapped, the address 0x5000 in x5 and 1 in x6 -/
def amoMachine : Machine := pagedMachine prvUser fun r => if r = 5 then 0x5000 else if r = 6 then 1 else 0

theorem atomic_all_or_nothing_amoMachine : regRead amoMachine 5 &&& 3 = 0 ∧
    ((∃ s', AInsn.exec amoMachine 5 6 7 (.amo .amoadd) = .ok s' ∧ AllOrNothing (.amo .amoadd) amoMachine s' 5 6 7) ↔
      atomicWorks (.amo .amoadd) amoMachine 5 6 7) :=
  ⟨by decide, atomic_all_or_nothing_iff (.amo .amoadd) amoMachine 5 6 7 (by decide)⟩

/-- amoadd.w x7, x6, (x5): the load faults into M-mode and the store then writes physical 0x5000 -/
theorem amo_fault_writes :
    ¬ ∃ s', AInsn.exec amoMachine 5 6 7 (.amo .amoadd) = .ok s' ∧ AllOrNothing (.amo .amoadd) amoMachine s' 5 6 7 := by
  have hmem : (AInsn.exec amoMachine 5 6 7 (.amo .amoadd)).toOption.map (fun m => m.mainMemory 0x5000) = some 1 := by
    decide
  have htrap : (AInsn.exec amoMachine 5 6 7 (.amo .amoadd)).toOption.map (fun m => m.traps.length) = some 1 := by
    decide
  intro hx
  obtain ⟨s', hs', h⟩ := hx
  rw [hs'] at hmem htrap
  rcases h with h | h
  · rw [show (Except.ok s' : Except Fatal Machine).toOption = some s' from rfl, Option.map_some, h.noTrap] at htrap
    exact absurd htrap (by decide)
  · rw [show (Except.ok s' : Except Fatal Machine).toOption = some s' from rfl, Option.map_some, h.mem] at hmem
    exact absurd hmem (by decide)

end RiscvEmu
