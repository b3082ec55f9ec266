/-
Compressed FP loads and stores against their expansions.

`expandCFp` is the specification's table of the eight forms. exec_c_insn has the four of quadrant 0, without the test of FS
and with the offset of a 4-byte access for c.fld and c.fsd too, and takes the four on the stack pointer for illegal
instructions; and as for the integer forms a handler 4 bytes on is taken for no trap. Results:
- `ldUimm_eq`: the two offsets of c.fld and c.fsd agree exactly when bit 6 is clear;
- `memWrite64_agree_iff`: doublewords stored at two places leave one memory only when both were there;
- `compressed_fp_iff`: exactly when an encoding means its expansion;
- `fs_not_tested`: c.flw with FS = 0.
-/
import RiscvEmu.ClintRegisters
import RiscvEmu.Compressed
import RiscvEmu.FpuOff
import RiscvEmu.NanBoxing

namespace RiscvEmu

open Bytes

/-! ## The specification's table -/

section
variable (c : BitVec 16)

/-- uimm[7:6|5:3] at c[6:5|12:10] -/
def ldUimm := c.extractLsb' 5 2 ++ c.extractLsb' 10 3 ++ 0#3

/-- uimm[8:6|5|4:3] at c[4:2|12|6:5] -/
def ldspUimm := c.extractLsb' 2 3 ++ c.extractLsb' 12 1 ++ c.extractLsb' 5 2 ++ 0#3

/-- uimm[8:6|5:3] at c[9:7|12:10] -/
def sdspUimm := c.extractLsb' 7 3 ++ c.extractLsb' 10 3 ++ 0#3

/-- the FP load or store an encoding of RV32FC or RV32DC stands for -/
def expandCFp : Option FpInsn :=
  match c.extractLsb' 0 2, c.extractLsb' 13 3 with
  | 0#2, 1#3 => some (.load .fld ((ldUimm c).setWidth 32) (popularReg c 7) (popularReg c 2))
  | 0#2, 3#3 => some (.load .flw ((lsUimm c).setWidth 32) (popularReg c 7) (popularReg c 2))
  | 0#2, 5#3 => some (.store .fsd ((ldUimm c).setWidth 32) (popularReg c 7) (popularReg c 2))
  | 0#2, 7#3 => some (.store .fsw ((lsUimm c).setWidth 32) (popularReg c 7) (popularReg c 2))
  | 2#2, 1#3 => some (.load .fld ((ldspUimm c).setWidth 32) 2 (cRd c))
  | 2#2, 3#3 => some (.load .flw ((lwspUimm c).setWidth 32) 2 (cRd c))
  | 2#2, 5#3 => some (.store .fsd ((sdspUimm c).setWidth 32) 2 (cRs2 c))
  | 2#2, 7#3 => some (.store .fsw ((swspUimm c).setWidth 32) 2 (cRs2 c))
  | _, _ => none

/-- c.fld and c.fsd with bit 6 set: c_ls_uimm puts it at bit 2 of the offset, the specification at bit 7 -/
def wrongOffset : Prop := c.extractLsb' 0 2 = 0#2 ∧ (c.extractLsb' 13 3 = 1#3 ∨ c.extractLsb' 13 3 = 5#3) ∧
  c.getLsbD 6 = true

instance : Decidable (wrongOffset c) := inferInstanceAs (Decidable (_ ∧ _))

end

/-! ## The property -/

/-- the same FP registers, memory with its devices, traps and next pc -/
structure SameEffect (s t : Machine) : Prop where
  fpr : s.fpu.fpr = t.fpu.fpr
  mainMemory : s.mainMemory = t.mainMemory
  dev : s.dev = t.dev
  traps : s.traps = t.traps
  pc : s.pc = t.pc

/-- exec_c_insn and the loop's pc += 4 have the effect of the expansion, 2 bytes long -/
def MeansFp [SoftFloat] (s : Machine) (c : BitVec 16) (i : FpInsn) : Prop :=
  ∃ t, (Insn.fp i).expanded s (c.setWidth 32) = .ok t ∧ SameEffect t (pcForward (execCInsn s c).1)

/-- a doubleword stored at pa is there already -/
structure NoChange64 (s : Machine) (pa : Word) (v : BitVec 64) : Prop where
  mainMemory : (memWrite64 s pa v).mainMemory = s.mainMemory
  dev : (memWrite64 s pa v).dev = s.dev

/-- the doublewords at the two offsets are as good as each other: neither access faults, the walks leave the devices alike,
and the values loaded are equal, or the value stored is at both places already -/
def OffsetsAlike (s : Machine) (c : BitVec 16) : Prop :=
  let a := regRead s (popularReg c 7) + cLsUimm c
  let b := regRead s (popularReg c 7) + (ldUimm c).setWidth 32
  if c.extractLsb' 13 3 = 1#3 then
    ∃ pa pb d, mmuWalk s a .load = (some pa, d) ∧ mmuWalk s b .load = (some pb, d) ∧
      (memRead64Unsigned { s with dev := d } pa).1 = (memRead64Unsigned { s with dev := d } pb).1
  else
    ∃ pa pb d, mmuWalk s a .store = (some pa, d) ∧ mmuWalk s b .store = (some pb, d) ∧
      NoChange64 { s with dev := d } pa (fprRead .D s.fpu (popularReg c 2)) ∧
      NoChange64 { s with dev := d } pb (fprRead .D s.fpu (popularReg c 2))

/-- the encoding means its expansion in this state -/
def compressedFpWorks (s : Machine) (c : BitVec 16) : Prop :=
  if fpuFsOff s then compressedFpSp c
  else compressedFp c ∧
    if wrongOffset c then OffsetsAlike s c else ∀ cause, compressedCause s c = some cause → handlerElsewhere s cause

/-! ## Offsets -/

/-- **The two offsets**, 124 apart when bit 6 is set. -/
theorem ldUimm_eq (c : BitVec 16) : (ldUimm c).setWidth 32 = cLsUimm c + if c.getLsbD 6 then 124 else 0 := by
  have hpair : c.extractLsb' 5 2 = c.extractLsb' 6 1 ++ c.extractLsb' 5 1 := by
    apply BitVec.eq_of_getLsbD_eq
    intro i hi
    rw [BitVec.getLsbD_append]
    interval_cases i <;> simp
  have hbit : c.getLsbD 6 = (c.extractLsb' 6 1).getLsbD 0 := by simp
  rw [cLsUimm_eq, ldUimm, lsUimm, hpair, hbit]
  generalize c.extractLsb' 6 1 = b6
  generalize c.extractLsb' 5 1 = b5
  generalize c.extractLsb' 10 3 = m
  revert b6 b5 m
  decide

/-! ## Two stores -/

/-- two maps that change different places of one are equal only when neither changes any -/
theorem unchanged_of_apart {α β : Type} {m f g : α → β} {A B : α → Prop} (hf : ∀ x, ¬ A x → f x = m x)
    (hg : ∀ x, ¬ B x → g x = m x) (hd : ∀ x, A x → ¬ B x) (h : f = g) : f = m ∧ g = m := by
  have hsame : f = m := by
    funext x
    by_cases hx : A x
    · rw [h, hg x (hd x hx)]
    · exact hf x hx
  exact ⟨hsame, h ▸ hsame⟩

theorem clint_ext {c c' : Clint} (htime : c.mtime = c'.mtime) (hbytes : cmpByte c = cmpByte c') : c = c' := by
  have hcmp : c.mtimecmp = c'.mtimecmp := by rw [mtimecmp_eq, mtimecmp_eq, hbytes]
  cases c
  cases c'
  cases htime
  cases hcmp
  rfl

/-- a doubleword store changes its eight bytes of memory or of the timer, and no other device -/
theorem memWrite64_elsewhere (s : Machine) (pa : Word) (v : BitVec 64) :
    (∀ x, ¬ (x - pa).toNat < 8 → (memWrite64 s pa v).mainMemory x = s.mainMemory x) ∧
      ∃ c, (memWrite64 s pa v).dev = { s.dev with clint := c } ∧ c.mtime = s.dev.clint.mtime ∧
        ∀ x, ¬ (x - pa).toNat < 8 → cmpByte c x = cmpByte s.dev.clint x := by
  have hmem := memClearReservation_mainMemory s pa
  have hdev := memClearReservation_dev s pa
  unfold memWrite64
  dsimp only
  split_ifs
  · rw [clintWriteBytes]
    dsimp only
    rw [hmem, hdev]
    refine ⟨fun _ _ => rfl, _, rfl, clintScatter_mtime .., ?_⟩
    intro x hx
    exact (clintScatter_byte s.dev.clint pa (n := 8) (by decide) v x).trans (if_neg fun h => hx h.2)
  · rw [hmem, hdev]
    exact ⟨fun _ _ => rfl, _, rfl, rfl, fun _ _ => rfl⟩
  · rw [hmem, hdev]
    exact ⟨fun x hx => storeLE_other _ _ (n := 8) v hx, _, rfl, rfl, fun _ _ => rfl⟩

/-- a store to another machine with the same devices but for what the walk left -/
theorem memWrite64_agree_iff (s : Machine) {pa pb : Word} (v : BitVec 64) {da db : Devices} (hclint : da.clint = db.clint)
    (hapart : ∀ x : Word, (x - pa).toNat < 8 → ¬ (x - pb).toNat < 8) :
    ((memWrite64 { s with dev := da } pa v).mainMemory = (memWrite64 { s with dev := db } pb v).mainMemory ∧
      (memWrite64 { s with dev := da } pa v).dev = (memWrite64 { s with dev := db } pb v).dev) ↔
      da = db ∧ NoChange64 { s with dev := da } pa v ∧ NoChange64 { s with dev := da } pb v := by
  constructor
  · rintro ⟨hmem, hdev⟩
    obtain ⟨ha, ca, hdeva, htimea, hbytesa⟩ := memWrite64_elsewhere { s with dev := da } pa v
    obtain ⟨hb, cb, hdevb, htimeb, hbytesb⟩ := memWrite64_elsewhere { s with dev := db } pb v
    have hsame : da = db := by
      rw [hdeva, hdevb] at hdev
      cases da
      cases db
      simp only [Devices.mk.injEq] at hdev hclint ⊢
      exact ⟨hclint, hdev.2⟩
    subst hsame
    have hc : ca = cb := by
      rw [hdeva, hdevb] at hdev
      exact congrArg Devices.clint hdev
    subst hc
    obtain ⟨hma, hmb⟩ := unchanged_of_apart ha hb hapart hmem
    obtain ⟨hca, -⟩ := unchanged_of_apart hbytesa hbytesb hapart rfl
    have hclintSame : ca = da.clint := clint_ext htimea hca
    subst hclintSame
    exact ⟨rfl, ⟨hma, hdeva⟩, hmb, hdevb⟩
  · rintro ⟨rfl, ha, hb⟩
    exact ⟨ha.mainMemory.trans hb.mainMemory.symm, ha.dev.trans hb.dev.symm⟩

/-! ## Walks and the timer -/

theorem uartRead_clint (d : Devices) (off : Word) : (uartRead d off).2.clint = d.clint := by
  by_cases hr : readsRbr d off
  · unfold uartRead
    dsimp only
    split
    · split_ifs
      · rfl
      · unfold uartUpdateIrq
        dsimp only
        split_ifs <;> rfl
      · rfl
    all_goals rfl
  · rw [uartRead_other hr]

theorem uartGather_clint (d : Devices) (addr : Word) : (uartGather d addr).2.clint = d.clint := by
  unfold uartGather
  generalize (0 : Word) = v
  induction uartBytes addr generalizing v d with
  | nil => rfl
  | cons i l ih =>
    rw [List.foldl_cons]
    exact (ih _ _).trans (uartRead_clint d _)

theorem memRead32Unsigned_clint (s : Machine) (addr : Word) : (memRead32Unsigned s addr).2.clint = s.dev.clint := by
  unfold memRead32Unsigned
  split_ifs
  · rfl
  · exact uartGather_clint _ _
  · rfl
  · rfl
  · rfl

/-- a walk reads tables, and no read changes the timer -/
theorem mmuWalk_clint (s : Machine) (vaddr : Word) (access : MmuAccess) :
    (mmuWalk s vaddr access).2.clint = s.dev.clint := by
  have hroot := memRead32Unsigned_clint s (mmuSatpRootPpn s <<< pgshift + (vaddr >>> 22 &&& 0x3FF) * 4)
  unfold mmuWalk
  dsimp only
  generalize memRead32Unsigned s (mmuSatpRootPpn s <<< pgshift + (vaddr >>> 22 &&& 0x3FF) * 4) = r at hroot ⊢
  obtain ⟨p, d⟩ := r
  dsimp only at hroot ⊢
  have hnext := memRead32Unsigned_clint { s with dev := d } ((p >>> ptePpnShift) <<< pgshift + (vaddr >>> 12 &&& 0x3FF) * 4)
  split_ifs <;> first | rfl | exact hroot | exact hnext.trans hroot

/-! ## A doubleword access -/

/-- the trap of a page fault -/
def faultTrap (s : Machine) (cause addr : Word) : Trap := ⟨cause, addr, s.pc, s.privilege, exceptionMode s cause⟩

theorem insfFld_cases (s : Machine) (imm : Word) (rs1 rd : Reg) :
    (∃ d, mmuWalk s (regRead s rs1 + imm) .load = (none, d) ∧
      (insfFld s imm rs1 rd).traps = faultTrap s causeLoadPageFault (regRead s rs1 + imm) :: s.traps) ∨
    ∃ pa d, mmuWalk s (regRead s rs1 + imm) .load = (some pa, d) ∧ insfFld s imm rs1 rd =
      { s with dev := d, fpu := fprWrite .D s.fpu rd (memRead64Unsigned { s with dev := d } pa).1 } := by
  unfold insfFld mmuRead64Unsigned
  rcases hw : mmuWalk s (regRead s rs1 + imm) .load with ⟨_ | pa, d⟩
  · rw [mmuRead_none hw]
    exact .inl ⟨d, rfl, raiseExceptionPc_traps ..⟩
  · rw [mmuRead_some hw, memRead64Unsigned_dev]
    exact .inr ⟨pa, d, rfl, rfl⟩

theorem insfFsd_cases (s : Machine) (imm : Word) (rs1 rs2 : Reg) :
    (∃ d, mmuWalk s (regRead s rs1 + imm) .store = (none, d) ∧
      (insfFsd s imm rs1 rs2).traps = faultTrap s causeStorePageFault (regRead s rs1 + imm) :: s.traps) ∨
    ∃ pa d, mmuWalk s (regRead s rs1 + imm) .store = (some pa, d) ∧
      insfFsd s imm rs1 rs2 = memWrite64 { s with dev := d } pa (fprRead .D s.fpu rs2) := by
  unfold insfFsd mmuWrite64
  rcases hw : mmuWalk s (regRead s rs1 + imm) .store with ⟨_ | pa, d⟩
  · rw [mmuWrite_none hw]
    exact .inl ⟨d, rfl, raiseExceptionPc_traps ..⟩
  · rw [mmuWrite_some hw]
    exact .inr ⟨pa, d, rfl, rfl⟩

/-- two accesses at different addresses, a compressed one and a 32-bit one 2 bytes long: one effect when neither faults and
they leave the same registers and memory -/
theorem sameEffect_apart_iff {s : Machine} {f g : Machine → Machine} {cause a b : Word} (hne : a ≠ b)
    (hf : (f s).traps = faultTrap s cause a :: s.traps ∨ Kept s (f s))
    (hg : (g s).traps = faultTrap s cause b :: s.traps ∨ Kept s (g s)) :
    SameEffect (if (g s).traps = s.traps then { g s with pc := s.pc + 2 } else pcForward (g s))
      (pcForward (cAccess s f).1) ↔
      ((f s).traps = s.traps ∧ (g s).traps = s.traps) ∧ (g s).fpu.fpr = (f s).fpu.fpr ∧
        (g s).mainMemory = (f s).mainMemory ∧ (g s).dev = (f s).dev := by
  have hgtraps : (if (g s).traps = s.traps then { g s with pc := s.pc + 2 } else pcForward (g s)).traps = (g s).traps := by
    split_ifs <;> rfl
  have hftraps : (pcForward (cAccess s f).1).traps = (f s).traps := cAccess_traps s f
  have hcons : ∀ t : Trap, t :: s.traps ≠ s.traps := fun t => List.cons_ne_self t s.traps
  rcases hf with hf | hf
  · refine iff_of_false ?_ fun h => hcons _ (hf.symm.trans h.1.1)
    intro h
    have htraps : (g s).traps = faultTrap s cause a :: s.traps := by rw [← hgtraps, h.traps, hftraps, hf]
    rcases hg with hg | hg
    · exact hne (congrArg Trap.tval (List.cons.inj (htraps.symm.trans hg)).1)
    · exact hcons _ (htraps.symm.trans hg.traps)
  rcases hg with hg | hg
  · refine iff_of_false ?_ fun h => hcons _ (hg.symm.trans h.1.2)
    intro h
    exact hcons _ (hg.symm.trans (by rw [← hgtraps, h.traps, hftraps, hf.traps]))
  · have hpc : s.pc + 2 = s.pc - 2 + 4 := by bv_omega
    rw [if_pos hg.traps, cAccess, if_pos hf.pc, hf.pc]
    constructor
    · intro h
      exact ⟨⟨hf.traps, hg.traps⟩, h.fpr, h.mainMemory, h.dev⟩
    · rintro ⟨-, hfpr, hmem, hdev⟩
      exact ⟨hfpr, hmem, hdev, hg.traps.trans hf.traps.symm, hpc⟩

/-! ## The expansion -/

section
variable {s : Machine} {c : BitVec 16} {i : FpInsn} {a : Access}

/-- the instruction is this access -/
def FpInsn.Is [SoftFloat] (i : FpInsn) (a : Access) : Prop := ∀ s ins, i.run s ins = .ok (a.exec s)

/-- the address of the access at the offset of the emulator -/
abbrev codeAddr (s : Machine) (c : BitVec 16) : Word := regRead s (popularReg c 7) + cLsUimm c

/-- the address of c.fld and c.fsd in the specification -/
abbrev specAddr (s : Machine) (c : BitVec 16) : Word := regRead s (popularReg c 7) + (ldUimm c).setWidth 32

/-- the eight forms: on the stack pointer, at the right offset, c.fld and c.fsd at the wrong one -/
theorem expandCFp_cases [SoftFloat] (hx : expandCFp c = some i) :
    (compressedFpSp c ∧ ∃ a : Access, a.isFp = true ∧ i.Is a) ∨
    (compressedFp c ∧ ¬ wrongOffset c ∧ ∃ a, compressedOp c = some a ∧ i.Is a) ∨
    (wrongOffset c ∧ c.extractLsb' 13 3 = 1#3 ∧
      compressedOp c = some (.fload .fld (cLsUimm c) (popularReg c 7) (popularReg c 2)) ∧
      i = .load .fld ((ldUimm c).setWidth 32) (popularReg c 7) (popularReg c 2)) ∨
    (wrongOffset c ∧ c.extractLsb' 13 3 = 5#3 ∧
      compressedOp c = some (.fstore .fsd (cLsUimm c) (popularReg c 7) (popularReg c 2)) ∧
      i = .store .fsd ((ldUimm c).setWidth 32) (popularReg c 7) (popularReg c 2)) := by
  have hright : ¬ c.getLsbD 6 = true → (ldUimm c).setWidth 32 = cLsUimm c := by
    intro h6
    rw [ldUimm_eq, if_neg h6]
    exact BitVec.add_zero _
  unfold expandCFp at hx
  split at hx
  case h_1 hq h3 => -- c.fld
    obtain rfl := Option.some.inj hx
    have hop : compressedOp c = some (.fload .fld (cLsUimm c) (popularReg c 7) (popularReg c 2)) := by
      simp only [compressedOp, hq, h3, cRs1p_eq, cRs2p_eq]
    by_cases h6 : c.getLsbD 6 = true
    · exact .inr (.inr (.inl ⟨⟨hq, .inl h3, h6⟩, h3, hop, rfl⟩))
    · refine .inr (.inl ⟨⟨hq, .inl h3⟩, fun h => h6 h.2.2, _, hop, ?_⟩)
      intro _ _
      rw [hright h6]
      rfl
  case h_2 hq h3 => -- c.flw
    obtain rfl := Option.some.inj hx
    have hop : compressedOp c = some (.fload .flw ((lsUimm c).setWidth 32) (popularReg c 7) (popularReg c 2)) := by
      simp only [compressedOp, hq, h3, cRs1p_eq, cRs2p_eq, cLsUimm_eq]
    exact .inr (.inl ⟨⟨hq, .inr (.inl h3)⟩, fun h => by simp [wrongOffset, h3] at h, _, hop, fun _ _ => rfl⟩)
  case h_3 hq h3 => -- c.fsd
    obtain rfl := Option.some.inj hx
    have hop : compressedOp c = some (.fstore .fsd (cLsUimm c) (popularReg c 7) (popularReg c 2)) := by
      simp only [compressedOp, hq, h3, cRs1p_eq, cRs2p_eq]
    by_cases h6 : c.getLsbD 6 = true
    · exact .inr (.inr (.inr ⟨⟨hq, .inr h3, h6⟩, h3, hop, rfl⟩))
    · refine .inr (.inl ⟨⟨hq, .inr (.inr (.inl h3))⟩, fun h => h6 h.2.2, _, hop, ?_⟩)
      intro _ _
      rw [hright h6]
      rfl
  case h_4 hq h3 => -- c.fsw
    obtain rfl := Option.some.inj hx
    have hop : compressedOp c = some (.fstore .fsw ((lsUimm c).setWidth 32) (popularReg c 7) (popularReg c 2)) := by
      simp only [compressedOp, hq, h3, cRs1p_eq, cRs2p_eq, cLsUimm_eq]
    exact .inr (.inl ⟨⟨hq, .inr (.inr (.inr h3))⟩, fun h => by simp [wrongOffset, h3] at h, _, hop, fun _ _ => rfl⟩)
  case h_5 hq h3 =>
    obtain rfl := Option.some.inj hx
    exact .inl ⟨⟨hq, .inl h3⟩, .fload .fld _ _ _, rfl, fun _ _ => rfl⟩
  case h_6 hq h3 =>
    obtain rfl := Option.some.inj hx
    exact .inl ⟨⟨hq, .inr (.inl h3)⟩, .fload .flw _ _ _, rfl, fun _ _ => rfl⟩
  case h_7 hq h3 =>
    obtain rfl := Option.some.inj hx
    exact .inl ⟨⟨hq, .inr (.inr (.inl h3))⟩, .fstore .fsd _ _ _, rfl, fun _ _ => rfl⟩
  case h_8 hq h3 =>
    obtain rfl := Option.some.inj hx
    exact .inl ⟨⟨hq, .inr (.inr (.inr h3))⟩, .fstore .fsw _ _ _, rfl, fun _ _ => rfl⟩
  case h_9 => cases hx

variable [SoftFloat]

theorem expanded_off (hoff : fpuFsOff s = true) (ins : Word) (i : FpInsn) :
    (Insn.fp i).expanded s ins = .ok (pcForward (raiseExceptionPc s causeIllegalInstruction ins s.pc)) := by
  have ht : ¬ (raiseExceptionPc s causeIllegalInstruction ins s.pc).traps = s.traps := by
    rw [raiseExceptionPc_traps]
    simp
  rw [Insn.expanded, Insn.run, if_pos hoff, raiseException_eq_pc]
  exact congrArg Except.ok (if_neg ht)

theorem expanded_on (hon : fpuFsOff s = false) (ins : Word) (hi : i.Is a) : (Insn.fp i).expanded s ins =
    .ok (if (a.exec s).traps = s.traps then { a.exec s with pc := s.pc + 2 } else pcForward (a.exec s)) := by
  rw [Insn.expanded, Insn.run, hon, if_neg Bool.false_ne_true, hi s ins]
  rfl

/-- the property, with the expansion run -/
theorem meansFp_on (hon : fpuFsOff s = false) (hi : i.Is a) : MeansFp s c i ↔ SameEffect
    (if (a.exec s).traps = s.traps then { a.exec s with pc := s.pc + 2 } else pcForward (a.exec s))
    (pcForward (execCInsn s c).1) := by
  unfold MeansFp
  rw [expanded_on hon _ hi]
  exact ⟨fun ⟨t, ht, h⟩ => Except.ok.inj ht ▸ h, fun h => ⟨_, rfl, h⟩⟩

/-- **The forms on the stack pointer** mean their expansion while the FPU is off, and never else. -/
theorem meansFp_sp_iff (hsp : compressedFpSp c) (ha : a.isFp = true) (hi : i.Is a) :
    MeansFp s c i ↔ fpuFsOff s = true := by
  have hcode := execCInsn_fpSp (s := s) hsp
  cases hoff : fpuFsOff s with
  | true =>
    refine iff_of_true ?_ rfl
    rw [MeansFp, expanded_off hoff, hcode]
    exact ⟨_, rfl, rfl, rfl, rfl, rfl, rfl⟩
  | false =>
    refine iff_of_false ?_ Bool.false_ne_true
    rw [meansFp_on hoff hi, hcode]
    intro h
    have htraps : (a.exec s).traps =
        ⟨causeIllegalInstruction, c.setWidth 32, s.pc, s.privilege, exceptionMode s causeIllegalInstruction⟩ :: s.traps := by
      have hall := h.traps
      change _ = (raiseExceptionPc s causeIllegalInstruction (c.setWidth 32) s.pc).traps at hall
      rw [raiseExceptionPc_traps] at hall
      split_ifs at hall <;> exact hall
    obtain ⟨access, hcause⟩ := (Access.exec_pageFaults ha s).cause htraps
    dsimp only at hcause
    cases access <;> exact absurd hcause (by decide)

/-- **With the FPU off** the forms of quadrant 0 do not raise what their expansion raises. -/
theorem not_meansFp_off (hoff : fpuFsOff s = true) (hfp : compressedFp c) : ¬ MeansFp s c i := by
  rw [MeansFp, expanded_off hoff]
  rintro ⟨t, ht, h⟩
  obtain rfl := Except.ok.inj ht
  have htraps := h.traps
  change (raiseExceptionPc s causeIllegalInstruction (c.setWidth 32) s.pc).traps = (execCInsn s c).1.traps at htraps
  rw [raiseExceptionPc_traps] at htraps
  exact compressedFp_traps hfp htraps.symm rfl

/-- **The right offset**: the expansion, unless a handler 4 bytes on hides the trap. -/
theorem meansFp_right_iff (hon : fpuFsOff s = false) (hop : compressedOp c = some a) (hi : i.Is a) :
    MeansFp s c i ↔ ∀ cause, compressedCause s c = some cause → handlerElsewhere s cause := by
  have haccess : compressedAccess c = some a.exec := by rw [compressedAccess_op, hop]; rfl
  have hspec := compressedCause_spec haccess s
  rw [meansFp_on hon hi, execCInsn_op hop]
  cases hc : compressedCause s c with
  | none =>
    rw [hc] at hspec
    have hpc : s.pc + 2 = s.pc - 2 + 4 := by bv_omega
    refine iff_of_true ?_ fun _ h => absurd h.symm (Option.some_ne_none _)
    rw [if_pos hspec.traps, cAccess, if_pos hspec.pc, hspec.pc]
    exact ⟨rfl, rfl, rfl, rfl, hpc⟩
  | some cause =>
    rw [hc] at hspec
    obtain ⟨tval, hk⟩ := hspec
    have ht : (a.exec s).traps ≠ s.traps := by rw [hk.traps, raiseExceptionPc_traps]; simp
    have hpc : (a.exec s).pc = s.pc ↔ ¬ handlerElsewhere s cause := by
      rw [hk.pc, raiseExceptionPc_pc, handlerElsewhere, not_not]
    rw [if_neg ht]
    by_cases hh : handlerElsewhere s cause
    · refine iff_of_true ?_ fun x hx => Option.some.inj hx ▸ hh
      rw [cAccess, if_neg fun h => hpc.1 h hh]
      exact ⟨rfl, rfl, rfl, rfl, rfl⟩
    · refine iff_of_false ?_ fun hall => hh (hall cause rfl)
      intro h
      have hend := h.pc
      rw [cAccess, if_pos (hpc.2 hh)] at hend
      change (a.exec s).pc + 4 = (a.exec s).pc - 2 + 4 at hend
      bv_omega

end

/-! ## The wrong offset -/

/-- the addresses are 124 apart, so the doublewords do not meet, wherever the pages are -/
theorem frames_apart {va pa pb : Word} (ha : pa &&& 0xFFF = va &&& 0xFFF) (hb : pb &&& 0xFFF = (va + 124) &&& 0xFFF)
    (x : Word) (hx : (x - pa).toNat < 8) : ¬ (x - pb).toNat < 8 := by
  have hmask : (0xFFF : Word).toNat = 2 ^ 12 - 1 := rfl
  have ha' := congrArg BitVec.toNat ha
  have hb' := congrArg BitVec.toNat hb
  rw [Bits.toNat_and_mask _ _ hmask, Bits.toNat_and_mask _ _ hmask] at ha' hb'
  rw [BitVec.toNat_add, show (124 : Word).toNat = 124 from rfl] at hb'
  rw [BitVec.toNat_sub] at hx ⊢
  have hva := va.isLt
  have hpa := pa.isLt
  have hpb := pb.isLt
  omega

section
variable {s : Machine} {c : BitVec 16}

theorem addrs_apart (hw : wrongOffset c) : specAddr s c = codeAddr s c + 124 := by
  rw [specAddr, ldUimm_eq, if_pos hw.2.2, BitVec.add_assoc]

theorem addrs_ne (hw : wrongOffset c) : codeAddr s c ≠ specAddr s c := by
  rw [addrs_apart hw]
  bv_omega

variable [SoftFloat]

theorem meansFp_fld_iff (hon : fpuFsOff s = false) (hw : wrongOffset c) (h3 : c.extractLsb' 13 3 = 1#3)
    (hop : compressedOp c = some (.fload .fld (cLsUimm c) (popularReg c 7) (popularReg c 2))) :
    MeansFp s c (.load .fld ((ldUimm c).setWidth 32) (popularReg c 7) (popularReg c 2)) ↔ OffsetsAlike s c := by
  have hi : (FpInsn.load .fld ((ldUimm c).setWidth 32) (popularReg c 7) (popularReg c 2)).Is
      (.fload .fld ((ldUimm c).setWidth 32) (popularReg c 7) (popularReg c 2)) := fun _ _ => rfl
  have ha := insfFld_cases s (cLsUimm c) (popularReg c 7) (popularReg c 2)
  have hb := insfFld_cases s ((ldUimm c).setWidth 32) (popularReg c 7) (popularReg c 2)
  have hiff := sameEffect_apart_iff (s := s) (f := fun s => insfFld s (cLsUimm c) (popularReg c 7) (popularReg c 2))
    (g := fun s => insfFld s ((ldUimm c).setWidth 32) (popularReg c 7) (popularReg c 2)) (addrs_ne hw)
    (ha.imp (fun ⟨_, _, h⟩ => h) fun ⟨_, _, _, h⟩ => h ▸ ⟨rfl, rfl, rfl, rfl⟩)
    (hb.imp (fun ⟨_, _, h⟩ => h) fun ⟨_, _, _, h⟩ => h ▸ ⟨rfl, rfl, rfl, rfl⟩)
  rw [meansFp_on hon hi, execCInsn_op hop, OffsetsAlike, if_pos h3]
  refine hiff.trans ?_
  constructor
  · rintro ⟨⟨hta, htb⟩, hfpr, -, hdev⟩
    rcases ha with ⟨_, _, hfault⟩ | ⟨pa, da, hwa, hfa⟩
    · exact absurd (hfault.symm.trans hta) (List.cons_ne_self _ _)
    rcases hb with ⟨_, _, hfault⟩ | ⟨pb, db, hwb, hfb⟩
    · exact absurd (hfault.symm.trans htb) (List.cons_ne_self _ _)
    rw [hfa, hfb] at hfpr hdev
    obtain rfl : db = da := hdev
    refine ⟨pa, pb, db, hwa, hwb, ?_⟩
    have hval := congrArg (fun g : Reg → BitVec 128 => (g (popularReg c 2)).setWidth 64) hfpr
    have hread : ∀ v, ((fprWrite .D s.fpu (popularReg c 2) v).fpr (popularReg c 2)).setWidth 64 = v :=
      fun v => fprRead_fprWrite .D s.fpu (popularReg c 2) v
    dsimp only at hval
    rw [hread, hread] at hval
    exact hval.symm
  · rintro ⟨pa, pb, d, hwa, hwb, hval⟩
    rcases ha with ⟨_, hnone, _⟩ | ⟨pa', da, hwa', hfa⟩
    · exact absurd (hnone.symm.trans hwa) (by simp)
    rcases hb with ⟨_, hnone, _⟩ | ⟨pb', db, hwb', hfb⟩
    · exact absurd (hnone.symm.trans hwb) (by simp)
    obtain ⟨rfl, rfl⟩ : pa' = pa ∧ da = d := by simpa using hwa'.symm.trans hwa
    obtain ⟨rfl, rfl⟩ : pb' = pb ∧ db = da := by simpa using hwb'.symm.trans hwb
    rw [hfa, hfb, hval]
    exact ⟨⟨rfl, rfl⟩, rfl, rfl, rfl⟩

theorem meansFp_fsd_iff (hon : fpuFsOff s = false) (hw : wrongOffset c) (h3 : c.extractLsb' 13 3 = 5#3)
    (hop : compressedOp c = some (.fstore .fsd (cLsUimm c) (popularReg c 7) (popularReg c 2))) :
    MeansFp s c (.store .fsd ((ldUimm c).setWidth 32) (popularReg c 7) (popularReg c 2)) ↔ OffsetsAlike s c := by
  have hi : (FpInsn.store .fsd ((ldUimm c).setWidth 32) (popularReg c 7) (popularReg c 2)).Is
      (.fstore .fsd ((ldUimm c).setWidth 32) (popularReg c 7) (popularReg c 2)) := fun _ _ => rfl
  have ha := insfFsd_cases s (cLsUimm c) (popularReg c 7) (popularReg c 2)
  have hb := insfFsd_cases s ((ldUimm c).setWidth 32) (popularReg c 7) (popularReg c 2)
  have hkept : ∀ d pa v, Kept s (memWrite64 { s with dev := d } pa v) := fun d pa v =>
    Kept.trans (t := { s with dev := d }) ⟨rfl, rfl, rfl, rfl⟩ (memWrite64_memStep _ _ _).kept
  have hfpu : ∀ d pa v, (memWrite64 { s with dev := d } pa v).fpu = s.fpu := fun d pa v => by
    obtain ⟨mem, flags, dev, h⟩ := memWrite64_memStep { s with dev := d } pa v
    rw [h]
  have hiff := sameEffect_apart_iff (s := s) (f := fun s => insfFsd s (cLsUimm c) (popularReg c 7) (popularReg c 2))
    (g := fun s => insfFsd s ((ldUimm c).setWidth 32) (popularReg c 7) (popularReg c 2)) (addrs_ne hw)
    (ha.imp (fun ⟨_, _, h⟩ => h) fun ⟨pa, d, _, h⟩ => h ▸ hkept d pa _)
    (hb.imp (fun ⟨_, _, h⟩ => h) fun ⟨pb, d, _, h⟩ => h ▸ hkept d pb _)
  have hne : ¬ c.extractLsb' 13 3 = 1#3 := by rw [h3]; decide
  rw [meansFp_on hon hi, execCInsn_op hop, OffsetsAlike, if_neg hne]
  refine hiff.trans ?_
  -- where both walks succeed, the stores are apart
  have hagree : ∀ {pa pb da db}, mmuWalk s (codeAddr s c) .store = (some pa, da) →
      mmuWalk s (specAddr s c) .store = (some pb, db) → _ := fun {pa pb da db} hwa hwb =>
    memWrite64_agree_iff s (fprRead .D s.fpu (popularReg c 2))
      (((congrArg (fun r => r.2.clint) hwa).symm.trans (mmuWalk_clint s _ _)).trans
        ((congrArg (fun r => r.2.clint) hwb).symm.trans (mmuWalk_clint s _ _)).symm)
      (frames_apart (mmuWalk_pageOffset hwa) (addrs_apart hw ▸ mmuWalk_pageOffset hwb))
  constructor
  · rintro ⟨⟨hta, htb⟩, -, hmem, hdev⟩
    rcases ha with ⟨_, _, hfault⟩ | ⟨pa, da, hwa, hfa⟩
    · exact absurd (hfault.symm.trans hta) (List.cons_ne_self _ _)
    rcases hb with ⟨_, _, hfault⟩ | ⟨pb, db, hwb, hfb⟩
    · exact absurd (hfault.symm.trans htb) (List.cons_ne_self _ _)
    rw [hfa, hfb] at hmem hdev
    obtain ⟨rfl, hna, hnb⟩ := (hagree hwa hwb).1 ⟨hmem.symm, hdev.symm⟩
    exact ⟨pa, pb, da, hwa, hwb, hna, hnb⟩
  · rintro ⟨pa, pb, d, hwa, hwb, hna, hnb⟩
    rcases ha with ⟨_, hnone, _⟩ | ⟨pa', da, hwa', hfa⟩
    · exact absurd (hnone.symm.trans hwa) (by simp)
    rcases hb with ⟨_, hnone, _⟩ | ⟨pb', db, hwb', hfb⟩
    · exact absurd (hnone.symm.trans hwb) (by simp)
    obtain ⟨rfl, rfl⟩ : pa' = pa ∧ da = d := by simpa using hwa'.symm.trans hwa
    obtain ⟨rfl, rfl⟩ : pb' = pb ∧ db = da := by simpa using hwb'.symm.trans hwb
    obtain ⟨hmem, hdev⟩ := (hagree hwa hwb).2 ⟨rfl, hna, hnb⟩
    rw [hfa, hfb]
    exact ⟨⟨(hkept _ _ _).traps, (hkept _ _ _).traps⟩, (congrArg Fpu.fpr ((hfpu _ _ _).trans (hfpu _ _ _).symm)),
      hmem.symm, hdev.symm⟩

/-! ## The law -/

/-- **Compressed FP loads and stores mean their expansions**, exactly in these states. -/
theorem compressed_fp_iff (s : Machine) (c : BitVec 16) (i : FpInsn) (hx : expandCFp c = some i) :
    MeansFp s c i ↔ compressedFpWorks s c := by
  have hq : ∀ {c : BitVec 16}, compressedFp c → ¬ compressedFpSp c := fun h h' => by
    exact absurd (h.1.symm.trans h'.1) (by decide)
  have hfp : wrongOffset c → compressedFp c := fun hw => ⟨hw.1, hw.2.1.imp id fun h => .inr (.inl h)⟩
  unfold compressedFpWorks
  rcases expandCFp_cases hx with ⟨hsp, a, ha, hi⟩ | ⟨hc, hw, a, hop, hi⟩ | ⟨hw, h3, hop, rfl⟩ | ⟨hw, h3, hop, rfl⟩
  · rw [meansFp_sp_iff hsp ha hi]
    split_ifs with hoff
    · exact iff_of_true hoff hsp
    all_goals exact iff_of_false hoff fun h => hq h.1 hsp
  · cases hoff : fpuFsOff s with
    | true => exact iff_of_false (not_meansFp_off hoff hc) (hq hc)
    | false =>
      rw [meansFp_right_iff hoff hop hi, if_neg Bool.false_ne_true, if_neg hw]
      exact (and_iff_right hc).symm
  · cases hoff : fpuFsOff s with
    | true => exact iff_of_false (not_meansFp_off hoff (hfp hw)) (hq (hfp hw))
    | false =>
      rw [meansFp_fld_iff hoff hw h3 hop, if_neg Bool.false_ne_true, if_pos hw]
      exact (and_iff_right (hfp hw)).symm
  · cases hoff : fpuFsOff s with
    | true => exact iff_of_false (not_meansFp_off hoff (hfp hw)) (hq (hfp hw))
    | false =>
      rw [meansFp_fsd_iff hoff hw h3 hop, if_neg Bool.false_ne_true, if_pos hw]
      exact (and_iff_right (hfp hw)).symm

end

/-- c.fswsp f8, 0(x2) with FS = 0 -/
theorem compressed_fp_fswsp : let s := machineInit (fun _ => 0) (fun _ => 0) 0
    @MeansFp noFloat s 0xE022 (.store .fsw 0 2 8) :=
  (@compressed_fp_iff noFloat (machineInit (fun _ => 0) (fun _ => 0) 0) 0xE022 (.store .fsw 0 2 8) (by decide)).2
    (by rw [compressedFpWorks, if_pos (by decide)]; exact ⟨by decide, by decide⟩)

/-- c.flw f8, 0(x8) with FS = 0 loads the register -/
theorem fs_not_tested : ¬ ∀ (s : Machine) (c : BitVec 16) (i : FpInsn), expandCFp c = some i →
    @MeansFp noFloat s c i := by
  intro h
  obtain ⟨t, ht, hs⟩ := h (machineInit (fun _ => 0) (fun _ => 0) 0) 0x6000 (.load .flw 0 8 8) (by decide)
  -- the specification traps, the code does not
  have hspec : t = _ := Except.ok.inj (ht.symm.trans (@expanded_off _ noFloat (by decide) _ _))
  have htraps := congrArg List.length hs.traps
  rw [hspec] at htraps
  exact absurd htraps (by decide)

end RiscvEmu
