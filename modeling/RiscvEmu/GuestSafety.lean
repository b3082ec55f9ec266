/-
Which steps of the main loop end in fatal().

exec ends in fatal() on many encodings it has no instruction for, where it ends in raise_illegal on others, and runs yet
others as the instruction they come closest to; LR, SC and the AMOs end in fatal() on a misaligned address, and the main
loop does on a pc beyond MEM_SIZE. Results:
- `insfRFpop_ok_iff`, `AInsn.ok_iff`, `exec_ok_iff`: the fatal leaves of each part;
- `undefined_of_listed`, `listed_of_decode`: the switch against the instruction listing;
- `FpInsn.run_not_raisesIllegal`, `Insn.partly_not_raisesIllegal`: what runs raises no illegal-instruction trap;
- `exec_safe_iff`: a word meets the law exactly when it is listed, or `refused`, and aligned if it is an atomic;
- `guest_safe_iff`: and an iteration when its pc is below MEM_SIZE as well.
-/
import RiscvEmu.Access
import RiscvEmu.Init
import RiscvEmu.Listing
import RiscvEmu.Steps

namespace RiscvEmu

open Rv32Listing

/-! ## FP operations -/

/-- the conversions fcvt_fp_fp has no case for: from the format itself and from unknown ones -/
def fcvtUnsupported (dfmt : Fmt) (sfmt : BitVec 5) : Bool :=
  Fmt.ofSource sfmt = none ∨ Fmt.ofSource sfmt = some dfmt

/-- the FP-OP encodings insf_r_fpop has no case for -/
def fpopUnsupported (ins : Word) : Bool :=
  let f3 := ins.extractLsb' 12 3
  let rs2 := ins.extractLsb' 20 5
  let op := ins.extractLsb' 27 5
  if op = 28 then f3 ≠ 0 ∧ f3 ≠ 1
  else if op = 30 then f3 ≠ 0 ∨ rs2 ≠ 0
  else if op = 8 then fcvtUnsupported (Fmt.ofField (ins.extractLsb' 25 2)) rs2
  else op ∉ [0, 1, 2, 3, 4, 5, 11, 20, 24, 26]

section
variable [SoftFloat]

theorem fcvtFpFp_ok_iff (dfmt : Fmt) (s : Machine) (sfmt : BitVec 5) (rs1 : Reg) (rm : BitVec 3) (rd : Reg) :
    (∃ s', fcvtFpFp dfmt s sfmt rs1 rm rd = .ok s') ↔ fcvtUnsupported dfmt sfmt = false := by
  unfold fcvtFpFp fcvtUnsupported
  cases Fmt.ofSource sfmt with
  | none => cases dfmt <;> simp
  | some f => cases dfmt <;> cases f <;> simp

theorem insfRFpop_ok_iff (s : Machine) (ins : Word) :
    (∃ s', insfRFpop s ins = .ok s') ↔ fpopUnsupported ins = false := by
  unfold insfRFpop fpopUnsupported
  generalize ins.extractLsb' 27 5 = op
  simp only
  split
  case h_9 =>
    generalize ins.extractLsb' 12 3 = f3
    by_cases h0 : f3 = 0
    · simp [h0]
    · by_cases h1 : f3 = 1
      · simp [h1]
      · rw [if_neg h0, if_neg h1, if_pos (by decide)]
        simpa using ⟨h0, h1⟩
  case h_10 =>
    rw [if_neg (show ¬ 30#5 = 28 by decide), if_pos (show 30#5 = 30 by decide)]
    by_cases h : ins.extractLsb' 12 3 ≠ 0 ∨ ins.extractLsb' 20 5 ≠ 0
    · rw [if_pos h, decide_eq_true h]
      simp
    · rw [if_neg h, decide_eq_false h]
      simp
  case h_13 => exact fcvtFpFp_ok_iff ..
  case h_14 => simp_all
  all_goals simp

end

/-! ## Atomics -/

/-- LR, SC and the AMOs go through on an aligned address only -/
theorem AInsn.ok_iff (a : AInsn) (s : Machine) (rs1 rs2 rd : Reg) :
    (∃ s', a.exec s rs1 rs2 rd = .ok s') ↔ regRead s rs1 &&& 3 = 0 := by
  have hamo : ∀ msg op, (∃ s', insaRAmo msg op s rs1 rs2 rd = .ok s') ↔ regRead s rs1 &&& 3 = 0 := by
    intro msg op
    unfold insaRAmo
    by_cases h : regRead s rs1 &&& 3 = 0
    · simp only [h, ne_eq, not_true_eq_false, if_false, iff_true]
      exact ⟨_, rfl⟩
    · simp only [h, ne_eq, not_false_eq_true, if_true, iff_false]
      simp
  cases a with
  | amo o =>
    obtain ⟨msg, op, hm⟩ := o.exec_amo s rs1 rs2 rd
    rw [AInsn.exec, hm]
    exact hamo msg op
  | lr =>
    by_cases h : regRead s rs1 &&& 3 = 0
    · simp only [AInsn.exec, insaRLrW, h, ne_eq, not_true_eq_false, if_false, iff_true]
      exact ⟨_, rfl⟩
    · simp only [AInsn.exec, insaRLrW, h, ne_eq, not_false_eq_true, if_true, iff_false]
      simp
  | sc =>
    by_cases h : regRead s rs1 &&& 3 = 0
    · simp only [AInsn.exec, insaRScW, h, ne_eq, not_true_eq_false, if_false, iff_true]
      split_ifs <;> exact ⟨_, rfl⟩
    · simp only [AInsn.exec, insaRScW, h, ne_eq, not_false_eq_true, if_true, iff_false]
      simp

/-! ## The switch -/

/-- the FP instructions that end in fatal() when mstatus.FS lets them run -/
def FpInsn.undefined (ins : Word) : FpInsn → Bool
  | .fatal _ => true
  | .fpop => fpopUnsupported ins
  | _ => false

/-- the switch has no instruction for the word: it ends in raise_illegal or in fatal() -/
def Insn.undefined (ins : Word) : Insn → Bool
  | .illegal | .fatal _ => true
  | .fp i => i.undefined ins
  | _ => false

/-- the leaf that ends in fatal() in state s -/
def Insn.fatalIn (s : Machine) (ins : Word) : Insn → Bool
  | .fatal _ => true
  | .fp i => !fpuFsOff s && i.undefined ins
  | .atomic _ rs1 _ _ => regRead s rs1 &&& 3 ≠ 0
  | _ => false

section
variable [SoftFloat] (s : Machine) (ins : Word)

theorem FpInsn.ok_iff (i : FpInsn) : (∃ s', i.run s ins = .ok s') ↔ i.undefined ins = false := by
  cases i with
  | fpop => exact insfRFpop_ok_iff s ins
  | fatal f => simp [FpInsn.run, FpInsn.undefined]
  | _ => simp [FpInsn.run, FpInsn.undefined]

theorem Insn.ok_iff (i : Insn) : (∃ s', i.run s ins = .ok s') ↔ i.fatalIn s ins = false := by
  cases i with
  | fp i =>
    cases hf : fpuFsOff s with
    | true => simp [Insn.run, Insn.fatalIn, hf]
    | false => simpa [Insn.run, Insn.fatalIn, hf] using FpInsn.ok_iff s ins i
  | atomic a rs1 rs2 rd => rw [Insn.run, AInsn.ok_iff, Insn.fatalIn, decide_eq_false_iff_not, not_not]
  | fatal f => simp [Insn.run, Insn.fatalIn]
  | _ => simp [Insn.run, Insn.fatalIn]

/-- **The fatal leaves of exec.** -/
theorem exec_ok_iff : (∃ s', exec s ins = .ok s') ↔ (toSwitch s ins → (decode ins).fatalIn s ins = false) := by
  unfold toSwitch
  cases ha : fetchAligned s with
  | false => simp [exec_misaligned ha]
  | true =>
    by_cases hc : misaCEnabled s = true ∧ ins.extractLsb' 0 2 ≠ 3
    · simp only [exec_compressed ha hc.1 hc.2, Except.ok.injEq, exists_eq', true_iff]
      intro h
      exact absurd hc h.2
    · rw [exec_decode ha hc, Insn.ok_iff]
      simp only [hc, not_false_eq_true, and_self, forall_const]

end

/-! ## Illegal-instruction traps -/

/-- an illegal-instruction trap was entered -/
def raisesIllegal (s s' : Machine) : Prop := ∃ t, s'.traps = t :: s.traps ∧ t.cause = causeIllegalInstruction

section
variable {s s' : Machine}

theorem not_raisesIllegal_of_traps (h : s'.traps = s.traps) : ¬ raisesIllegal s s' := by
  intro hx
  obtain ⟨t, ht, -⟩ := hx
  exact List.cons_ne_self _ _ (ht.symm.trans h)

theorem raisesIllegal_of_traps {t : Trap} (h : s'.traps = t :: s.traps) :
    raisesIllegal s s' ↔ t.cause = causeIllegalInstruction := by
  refine ⟨?_, fun hc => ⟨t, h, hc⟩⟩
  intro hx
  obtain ⟨t', ht', hc⟩ := hx
  obtain ⟨rfl, -⟩ := List.cons.inj (h.symm.trans ht')
  exact hc

theorem raisesIllegal_raise (s : Machine) (tval : Word) :
    raisesIllegal s (raiseException s causeIllegalInstruction tval) :=
  ⟨_, raiseExceptionPc_traps .., rfl⟩

theorem not_raisesIllegal_raise {cause tval : Word} (h : Kept (raiseExceptionPc s cause tval s.pc) s')
    (hc : cause ≠ causeIllegalInstruction) : ¬ raisesIllegal s s' := fun hx =>
  hc ((raisesIllegal_of_traps (h.traps.trans (raiseExceptionPc_traps ..))).1 hx)

theorem PageFaultsOnly.not_raisesIllegal (h : PageFaultsOnly s s') : ¬ raisesIllegal s s' := by
  intro hx
  obtain ⟨t, ht, hc⟩ := hx
  obtain ⟨access, hcause⟩ := h.cause ht
  have hne : pageFaultCause access ≠ causeIllegalInstruction := by cases access <;> decide
  exact hne (hcause.symm.trans hc)

theorem jump_not_raisesIllegal {target : Word} {f : Machine} (h : s' = match raiseIfMisalignedFetch s target with
    | some t => t
    | none => f) (hf : f.traps = s.traps) : ¬ raisesIllegal s s' :=
  jump_cases (P := fun t => ¬ raisesIllegal s t) h (not_raisesIllegal_raise (Kept.refl _) (by decide))
    (not_raisesIllegal_of_traps hf)

theorem FpInsn.run_not_raisesIllegal [SoftFloat] {ins : Word} {i : FpInsn} (h : i.run s ins = .ok s') :
    ¬ raisesIllegal s s' := by
  cases i with
  | load op imm rs1 rd => obtain rfl := Except.ok.inj h; exact (op.exec_pageFaults s imm rs1 rd).not_raisesIllegal
  | store op imm rs1 rs2 => obtain rfl := Except.ok.inj h; exact (op.exec_pageFaults s imm rs1 rs2).not_raisesIllegal
  | fma subop =>
    obtain rfl := Except.ok.inj h
    exact not_raisesIllegal_of_traps (insfRFma_frame s ins subop).kept.traps
  | fpop => exact not_raisesIllegal_of_traps (insfRFpop_frame h).kept.traps
  | fatal f => cases h

end

/-! ## The switch against the listing -/

/-- the opcodes of the FP instructions -/
def fpOpcodes : List (BitVec 7) :=
  [0b0000111, 0b0100111, 0b1000011, 0b1000111, 0b1001011, 0b1001111, 0b1010011]

/-- the opcodes exec has a case for -/
def switchOpcodes : List (BitVec 7) :=
  [0b0110011, 0b0010011, 0b0000011, 0b0100011, 0b0101111, 0b1100011, 0b1101111, 0b0110111, 0b0010111, 0b1100111,
    0b1110011, 0b0001111] ++ fpOpcodes

/-- the words exec has an exception for: of another opcode, slli with funct7 set, and FP with mstatus.FS off -/
def refused (s : Machine) (ins : Word) : Prop :=
  getOpcode ins ∉ switchOpcodes ∨ getOpcode ins = 0b0010011 ∧ getFunct3 ins = 1 ∧ getFunct7 ins ≠ 0 ∨
    getOpcode ins ∈ fpOpcodes ∧ fpuFsOff s = true

instance (s : Machine) (ins : Word) : Decidable (refused s ins) := by unfold refused; infer_instance

/-- the leaves that run words outside the listing too: the code does not look at every field -/
def Insn.partly : Insn → Bool
  | .jalr .. | .atomic .. | .fp _ => true
  | _ => false

section
variable {s : Machine} {ins : Word}

theorem listed_R_iff (hop : getOpcode ins = 0b0110011) :
    listed ins = true ↔ (decodeR ins).undefined ins = false := by
  have hrows : rows (getOpcode ins) = opRows := by rw [hop]; rfl
  rw [listed_iff_covers hrows (by decide), opRows_iff]
  unfold decodeR
  by_cases h0 : getFunct7 ins = 0b0000000#7
  · rcases bits3_cases (getFunct3 ins) with h | h | h | h | h | h | h | h <;> simp [h0, h, Insn.undefined]
  by_cases h1 : getFunct7 ins = 0b0000001#7
  · rcases bits3_cases (getFunct3 ins) with h | h | h | h | h | h | h | h <;> simp [h1, h, Insn.undefined]
  by_cases h7 : getFunct7 ins = 0b0000111#7
  · rcases bits3_cases (getFunct3 ins) with h | h | h | h | h | h | h | h <;> simp [h7, h, Insn.undefined]
  by_cases h20 : getFunct7 ins = 0b0100000#7
  · rcases bits3_cases (getFunct3 ins) with h | h | h | h | h | h | h | h <;> simp [h20, h, Insn.undefined]
  rcases bits3_cases (getFunct3 ins) with h | h | h | h | h | h | h | h <;> simp [h0, h1, h7, h20, h, Insn.undefined]

theorem listed_I_iff (hop : getOpcode ins = 0b0010011) :
    listed ins = true ↔ (decodeI ins).undefined ins = false := by
  have hrows : rows (getOpcode ins) = opImmRows := by rw [hop]; rfl
  rw [listed_iff_covers hrows (by decide), opImmRows_iff]
  unfold decodeI
  by_cases h0 : getFunct7 ins = 0b0000000#7
  · rcases bits3_cases (getFunct3 ins) with h | h | h | h | h | h | h | h <;> simp [h0, h, Insn.undefined]
  by_cases h20 : getFunct7 ins = 0b0100000#7
  · rcases bits3_cases (getFunct3 ins) with h | h | h | h | h | h | h | h <;> simp [h20, h, Insn.undefined]
  rcases bits3_cases (getFunct3 ins) with h | h | h | h | h | h | h | h <;> simp [h0, h20, h, Insn.undefined]

theorem listed_load_iff (hop : getOpcode ins = 0b0000011) :
    listed ins = true ↔ (decodeLoad ins).undefined ins = false := by
  have hrows : rows (getOpcode ins) = loadRows := by rw [hop]; rfl
  rw [listed_iff_covers hrows (by decide), loadRows_iff]
  unfold decodeLoad
  rcases bits3_cases (getFunct3 ins) with h | h | h | h | h | h | h | h <;> simp [h, Insn.undefined]

theorem listed_store_iff (hop : getOpcode ins = 0b0100011) :
    listed ins = true ↔ (decodeStore ins).undefined ins = false := by
  have hrows : rows (getOpcode ins) = storeRows := by rw [hop]; rfl
  rw [listed_iff_covers hrows (by decide), storeRows_iff]
  unfold decodeStore
  rcases bits3_cases (getFunct3 ins) with h | h | h | h | h | h | h | h <;> simp [h, Insn.undefined]

theorem listed_branch_iff (hop : getOpcode ins = 0b1100011) :
    listed ins = true ↔ (decodeBranch ins).undefined ins = false := by
  have hrows : rows (getOpcode ins) = branchRows := by rw [hop]; rfl
  rw [listed_iff_covers hrows (by decide), branchRows_iff]
  unfold decodeBranch
  rcases bits3_cases (getFunct3 ins) with h | h | h | h | h | h | h | h <;> simp [h, Insn.undefined]

theorem listed_fence_iff (hop : getOpcode ins = 0b0001111) :
    listed ins = true ↔ (decodeFence ins).undefined ins = false := by
  have hrows : rows (getOpcode ins) = miscMemRows := by rw [hop]; rfl
  rw [listed_iff_covers hrows (by decide), miscMemRows_iff]
  unfold decodeFence
  rcases bits3_cases (getFunct3 ins) with h | h | h | h | h | h | h | h <;> simp [h, Insn.undefined]

theorem decodePrivileged_defined_iff : (decodePrivileged ins).undefined ins = false ↔
    getRd ins = 0 ∧ (getFunct7 ins = 0b0001001 ∨
      getRs1 ins = 0 ∧ getImm12 ins ∈ [0x000#12, 0x001, 0x102, 0x302, 0x702, 0x104, 0x105]) := by
  unfold decodePrivileged
  by_cases hz : getRs1 ins = 0 ∧ getRd ins = 0
  · simp only [if_pos hz]
    rw [hz.1, hz.2]
    split
    case h_8 =>
      split_ifs with h7
      · simp [h7, Insn.undefined]
      · simp_all [Insn.undefined]
    all_goals
      rename_i himm
      simp [himm, Insn.undefined]
  · rw [if_neg hz]
    split_ifs <;> simp [Insn.undefined] <;> tauto

theorem listed_system_iff (hop : getOpcode ins = 0b1110011) :
    listed ins = true ↔ (decodeSystem ins).undefined ins = false := by
  have hrows : rows (getOpcode ins) = systemRows := by rw [hop]; rfl
  rw [listed_iff_covers hrows (by decide), systemRows_iff]
  unfold decodeSystem
  by_cases h3 : getFunct3 ins = 0#3
  · rw [h3]
    refine Iff.trans ?_ decodePrivileged_defined_iff.symm
    simp
  · rcases bits3_cases (getFunct3 ins) with h | h | h | h | h | h | h | h <;>
      first | exact absurd h h3 | simp [h, Insn.undefined]

/-- every atomic instruction of the listing has a case -/
theorem listed_atomic (hop : getOpcode ins = 0b0101111) (h : listed ins = true) :
    (decodeAtomic ins).undefined ins = false := by
  have hrows : rows (getOpcode ins) = amoRows := by rw [hop]; rfl
  rw [listed_iff_covers hrows (by decide), amoRows_iff] at h
  obtain ⟨h3, h5⟩ := h
  simp only [List.mem_cons, List.not_mem_nil, or_false] at h5
  unfold decodeAtomic
  rcases h5 with ⟨h5, -⟩ | h5 | h5 | h5 | h5 | h5 | h5 | h5 | h5 | h5 | h5 <;> simp [h3, h5, Insn.undefined]

theorem listed_fpLoad (hop : getOpcode ins = 0b0000111) (h : listed ins = true) :
    (decodeFLoad ins).undefined ins = false := by
  have hrows : rows (getOpcode ins) = fpLoadRows := by rw [hop]; rfl
  rw [listed_iff_covers hrows (by decide), fpLoadRows_iff] at h
  unfold decodeFLoad
  rcases bits3_cases (getFunct3 ins) with h3 | h3 | h3 | h3 | h3 | h3 | h3 | h3 <;>
    simp [h3] at h <;> simp [h3, FpInsn.undefined]

theorem listed_fpStore (hop : getOpcode ins = 0b0100111) (h : listed ins = true) :
    (decodeFStore ins).undefined ins = false := by
  have hrows : rows (getOpcode ins) = fpStoreRows := by rw [hop]; rfl
  rw [listed_iff_covers hrows (by decide), fpStoreRows_iff] at h
  unfold decodeFStore
  rcases bits3_cases (getFunct3 ins) with h3 | h3 | h3 | h3 | h3 | h3 | h3 | h3 <;>
    simp [h3] at h <;> simp [h3, FpInsn.undefined]

/-- fcvt_fp_fp has a case for each source but the format itself -/
theorem fcvt_supported : ∀ (fmt : BitVec 2) (rs2 : Reg), rs2 < 4 ∧ rs2.setWidth 2 ≠ fmt →
    fcvtUnsupported (Fmt.ofField fmt) rs2 = false := by decide

/-- every FP operation of the listing has a case -/
theorem listed_fpop (hop : getOpcode ins = 0b1010011) (h : listed ins = true) : fpopUnsupported ins = false := by
  have hrows : rows (getOpcode ins) = fpRows := by rw [hop]; rfl
  rw [listed_iff hrows] at h
  obtain ⟨r, hr, hc, -⟩ := h
  have hfields := fpRows_iff.1 ⟨r, List.mem_append_left _ hr, hc⟩
  have hun : fpopUnsupported ins = if ins.extractLsb' 27 5 = 28 then decide (getFunct3 ins ≠ 0 ∧ getFunct3 ins ≠ 1)
    else if ins.extractLsb' 27 5 = 30 then decide (getFunct3 ins ≠ 0 ∨ getRs2 ins ≠ 0)
    else if ins.extractLsb' 27 5 = 8 then fcvtUnsupported (Fmt.ofField (ins.extractLsb' 25 2)) (getRs2 ins)
    else decide (ins.extractLsb' 27 5 ∉ [0, 1, 2, 3, 4, 5, 11, 20, 24, 26]) := rfl
  rw [hun]
  split at hfields
  case h_14 => exact hfields.elim
  all_goals
    rename_i h5
    simp only [h5]
  case h_8 => exact fcvt_supported _ _ hfields
  case h_12 => rcases hfields with ⟨-, h1 | ⟨h0, -⟩⟩ <;> simp [*]
  case h_13 => simp [hfields.1, hfields.2.1]
  all_goals simp

theorem rows_other : ∀ op : BitVec 7, op ∉ switchOpcodes → rows op = [] := by decide

/-- **Every instruction of the listing has a case in the switch.** -/
theorem undefined_of_listed (h : listed ins = true) : (decode ins).undefined ins = false := by
  have hop : getOpcode ins ∈ switchOpcodes := by
    by_contra hop
    rw [listed_iff (rows_other _ hop)] at h
    simp at h
  unfold decode
  split
  case h_1 hop => exact (listed_R_iff hop).1 h
  case h_2 hop => exact (listed_I_iff hop).1 h
  case h_3 hop => exact (listed_load_iff hop).1 h
  case h_4 hop => exact (listed_store_iff hop).1 h
  case h_5 hop => exact listed_fpLoad hop h
  case h_6 hop => exact listed_fpStore hop h
  case h_11 hop => exact listed_fpop hop h
  case h_12 hop => exact listed_atomic hop h
  case h_13 hop => exact (listed_branch_iff hop).1 h
  case h_18 hop => exact (listed_system_iff hop).1 h
  case h_19 hop => exact (listed_fence_iff hop).1 h
  case h_20 => simp_all [switchOpcodes, fpOpcodes]
  all_goals rfl

theorem decodeAtomic_partly (hu : (decodeAtomic ins).undefined ins = false) : (decodeAtomic ins).partly = true := by
  unfold decodeAtomic at hu ⊢
  split_ifs at hu ⊢
  · split at hu <;> first | rfl | cases hu
  · cases hu

/-- **And the switch has a case for nothing else**, where it looks at every field. -/
theorem listed_of_decode (hu : (decode ins).undefined ins = false) (hp : (decode ins).partly = false) :
    listed ins = true := by
  have hjump : ∀ name : String, rows (getOpcode ins) = [{ name := name }] → listed ins = true := by
    intro name hrows
    rw [listed_iff hrows]
    simp [covers_iff, modeKnown_iff]
  unfold decode at hu hp
  split at hu
  case h_1 hop => exact (listed_R_iff hop).2 hu
  case h_2 hop => exact (listed_I_iff hop).2 hu
  case h_3 hop => exact (listed_load_iff hop).2 hu
  case h_4 hop => exact (listed_store_iff hop).2 hu
  case h_12 hop =>
    rw [hop] at hp
    exact absurd ((decodeAtomic_partly hu).symm.trans hp) (by decide)
  case h_13 hop => exact (listed_branch_iff hop).2 hu
  case h_14 hop => exact hjump "jal" (by rw [hop]; rfl)
  case h_15 hop => exact hjump "lui" (by rw [hop]; rfl)
  case h_16 hop => exact hjump "auipc" (by rw [hop]; rfl)
  case h_18 hop => exact (listed_system_iff hop).2 hu
  case h_19 hop => exact (listed_fence_iff hop).2 hu
  case h_20 => cases hu
  all_goals
    rename_i hop
    rw [hop] at hp
    cases hp

/-- the leaves the law has an exception for -/
def Insn.guarded : Insn → Bool
  | .illegal | .fp _ | .atomic .. => true
  | _ => false

theorem decode_illegal (h : getOpcode ins ∉ switchOpcodes ∨
    getOpcode ins = 0b0010011 ∧ getFunct3 ins = 1 ∧ getFunct7 ins ≠ 0) : decode ins = .illegal := by
  unfold decode
  rcases h with hop | ⟨hop, h3, h7⟩
  · split
    case h_20 => rfl
    all_goals
      rename_i hx
      exact absurd (by rw [hx]; decide) hop
  · rw [hop]
    change (getFunct7 ins ≠ 0#7) at h7
    simp [decodeI, h3, h7]

theorem decode_fp (h : getOpcode ins ∈ fpOpcodes) : ∃ i, decode ins = .fp i := by
  simp only [fpOpcodes, List.mem_cons, List.not_mem_nil, or_false] at h
  unfold decode
  rcases h with h | h | h | h | h | h | h <;> rw [h] <;> exact ⟨_, rfl⟩

theorem decode_guarded (h : (decode ins).guarded = true) : (getOpcode ins ∉ switchOpcodes ∨
    getOpcode ins = 0b0010011 ∧ getFunct3 ins = 1 ∧ getFunct7 ins ≠ 0) ∨ getOpcode ins ∈ fpOpcodes ∨
      getOpcode ins = 0b0101111 ∧ decode ins = decodeAtomic ins := by
  unfold decode at h ⊢
  split at h
  case h_1 =>
    unfold decodeR at h
    dsimp only at h
    rcases bits3_cases (getFunct3 ins) with h3 | h3 | h3 | h3 | h3 | h3 | h3 | h3 <;> rw [h3] at h <;>
      split_ifs at h <;> exact absurd h Bool.false_ne_true
  case h_2 hop =>
    refine .inl (.inr ⟨hop, ?_⟩)
    unfold decodeI at h
    rcases bits3_cases (getFunct3 ins) with h3 | h3 | h3 | h3 | h3 | h3 | h3 | h3 <;>
      simp [h3, Insn.guarded] at h ⊢
    · split_ifs at h with h7
      exact h7
    · split_ifs at h
  case h_12 hop => exact .inr (.inr ⟨hop, rfl⟩)
  case h_18 =>
    unfold decodeSystem at h
    split at h <;> try cases h
    unfold decodePrivileged at h
    dsimp only at h
    by_cases hz : getRs1 ins = 0 ∧ getRd ins = 0
    · rw [if_pos hz] at h
      split at h <;> try split_ifs at h
      all_goals exact absurd h Bool.false_ne_true
    · rw [if_neg hz] at h
      split_ifs at h <;> exact absurd h Bool.false_ne_true
  case h_20 => exact .inl (.inl (by simp_all [switchOpcodes, fpOpcodes]))
  case h_3 | h_4 | h_13 | h_19 =>
    first | unfold decodeLoad at h | unfold decodeStore at h | unfold decodeBranch at h | unfold decodeFence at h
    split at h <;> cases h
  case h_14 | h_15 | h_16 | h_17 => cases h
  all_goals
    rename_i hop
    exact .inr (.inl (by rw [hop]; decide))

theorem decodeAtomic_rs1 {a : AInsn} {rs1 rs2 rd : Reg} (h : decodeAtomic ins = .atomic a rs1 rs2 rd) :
    rs1 = getRs1 ins := by
  unfold decodeAtomic at h
  split_ifs at h
  split at h <;> cases h <;> rfl

/-- an atomic leaf is of the opcode AMO, and takes its address from rs1 -/
theorem opcode_of_atomic {a : AInsn} {rs1 rs2 rd : Reg} (h : decode ins = .atomic a rs1 rs2 rd) :
    getOpcode ins = 0b0101111 ∧ rs1 = getRs1 ins := by
  rcases decode_guarded (by rw [h]; rfl) with hill | hfp | ⟨hop, hd⟩
  · cases h.symm.trans (decode_illegal hill)
  · obtain ⟨i, hi⟩ := decode_fp hfp
    cases h.symm.trans hi
  · exact ⟨hop, decodeAtomic_rs1 (hd.symm.trans h)⟩

/-- the words of AMO on the listing are atomics -/
theorem decode_atomic_listed (hop : getOpcode ins = 0b0101111) (h : listed ins = true) :
    ∃ a, decode ins = .atomic a (getRs1 ins) (getRs2 ins) (getRd ins) := by
  have hd : decode ins = decodeAtomic ins := by
    unfold decode
    rw [hop]
    rfl
  have hu := listed_atomic hop h
  rw [hd]
  unfold decodeAtomic at hu ⊢
  split_ifs at hu ⊢
  · split at hu <;> first | exact ⟨_, rfl⟩ | cases hu
  · cases hu

/-- a word that ends in raise_illegal, or at an FP instruction that is off, is refused -/
theorem refused_of_decode (h : decode ins = .illegal ∨ (∃ i, decode ins = .fp i) ∧ fpuFsOff s = true) :
    refused s ins := by
  have hg : (decode ins).guarded = true := by
    rcases h with h | ⟨⟨i, h⟩, -⟩ <;> rw [h] <;> rfl
  rcases decode_guarded hg with hill | hfp | ⟨-, hd⟩
  · exact hill.imp_right .inl
  · refine .inr (.inr ⟨hfp, ?_⟩)
    rcases h with h | ⟨-, hoff⟩
    · obtain ⟨i, hi⟩ := decode_fp hfp
      cases h.symm.trans hi
    · exact hoff
  · -- the leaves of AMO are atomics and fatal()
    rw [hd] at h
    unfold decodeAtomic at h
    split_ifs at h
    · split at h <;> simp at h
    · simp at h

/-- a leaf with an instruction ends in fatal() at a misaligned atomic only -/
theorem Insn.fatalIn_of_defined (hu : (decode ins).undefined ins = false)
    (ha : getOpcode ins = 0b0101111 → regRead s (getRs1 ins) &&& 3 = 0) : (decode ins).fatalIn s ins = false := by
  cases hd : decode ins with
  | atomic a rs1 rs2 rd =>
    obtain ⟨hop, rfl⟩ := opcode_of_atomic hd
    simpa [Insn.fatalIn] using ha hop
  | fp i =>
    rw [hd] at hu
    rw [Insn.fatalIn, show i.undefined ins = false from hu, Bool.and_false]
  | fatal f => rw [hd] at hu; cases hu
  | _ => rfl

end

/-! ## The law of one word -/

section
variable [SoftFloat]

/-- **The words exec has an exception for raise it.** -/
theorem run_of_refused {s : Machine} {ins : Word} (h : refused s ins) :
    (decode ins).run s ins = .ok (raiseException s causeIllegalInstruction ins) := by
  rcases h with hop | hslli | ⟨hfp, hoff⟩
  · rw [decode_illegal (.inl hop)]
    rfl
  · rw [decode_illegal (.inr hslli)]
    rfl
  · obtain ⟨i, hi⟩ := decode_fp hfp
    simp only [hi, Insn.run, hoff, if_true]

/-- **Where exec runs a word that is no instruction, no illegal-instruction trap is raised.** -/
theorem Insn.partly_not_raisesIllegal {s s' : Machine} {ins : Word} {i : Insn} (hp : i.partly = true)
    (hfp : (∃ j, i = .fp j) → fpuFsOff s = false) (h : i.run s ins = .ok s') : ¬ raisesIllegal s s' := by
  cases i with
  | jalr imm rs1 rd => obtain rfl := Except.ok.inj h; exact jump_not_raisesIllegal rfl rfl
  | atomic a rs1 rs2 rd => exact (AInsn.exec_pageFaults h).not_raisesIllegal
  | fp i =>
    simp only [Insn.run, hfp ⟨i, rfl⟩, Bool.false_eq_true, if_false] at h
    exact FpInsn.run_not_raisesIllegal h
  | _ => cases hp

/-- exec goes through, and answers what is no instruction, and an atomic on a misaligned address, with an exception -/
structure ExecSafe (s : Machine) (ins : Word) : Prop where
  survives : ∃ s', exec s ins = .ok s'
  undefined : toSwitch s ins → listed ins = false →
    exec s ins = .ok (raiseException s causeIllegalInstruction ins)
  misaligned : toSwitch s ins → listed ins = true → getOpcode ins = 0b0101111 → regRead s (getRs1 ins) &&& 3 ≠ 0 →
    ∃ cause, (cause = causeMisalignedLoad ∨ cause = causeMisalignedStore) ∧
      exec s ins = .ok (raiseException s cause (regRead s (getRs1 ins)))

/-- the word is an instruction, or refused, and aligned if it is an LR, SC or AMO -/
def wordSafe (s : Machine) (ins : Word) : Prop :=
  (listed ins = true ∨ refused s ins) ∧ (getOpcode ins = 0b0101111 → regRead s (getRs1 ins) &&& 3 = 0)

/-- a word that is no instruction is answered by the exception only where exec refuses it -/
theorem refused_of_raises {s : Machine} {ins : Word} (hl : listed ins = false)
    (h : (decode ins).run s ins = .ok (raiseException s causeIllegalInstruction ins)) : refused s ins := by
  have hraise := raisesIllegal_raise s ins
  by_contra hr
  have hfp : (∃ i, decode ins = .fp i) → fpuFsOff s = false := by
    intro hi
    by_contra hoff
    exact hr (refused_of_decode (.inr ⟨hi, Bool.of_not_eq_false hoff⟩))
  cases hp : (decode ins).partly with
  | true => exact Insn.partly_not_raisesIllegal hp hfp h hraise
  | false =>
    cases hu : (decode ins).undefined ins with
    | false => exact absurd (hl.symm.trans (listed_of_decode hu hp)) (by decide)
    | true =>
      cases hd : decode ins with
      | illegal => exact hr (refused_of_decode (.inl hd))
      | fatal f => rw [hd] at h; cases h
      | fp i => rw [hd] at hp; cases hp
      | _ => rw [hd] at hu; cases hu

/-- **The words that meet the law, exactly.** -/
theorem exec_safe_iff (s : Machine) (ins : Word) : ExecSafe s ins ↔ (toSwitch s ins → wordSafe s ins) := by
  refine ⟨?_, fun h => ⟨?_, ?_, ?_⟩⟩
  · intro h hs
    have hword : listed ins = true ∨ refused s ins := by
      by_contra hno
      obtain ⟨hl, hr⟩ := not_or.1 hno
      rw [Bool.not_eq_true] at hl
      exact hr (refused_of_raises hl ((exec_decode hs.1 hs.2).symm.trans (h.undefined hs hl)))
    refine ⟨hword, fun hop => ?_⟩
    have hlisted : listed ins = true := hword.resolve_right fun hr => by
      rcases hr with hx | hx | hx
      · exact hx (by rw [hop]; decide)
      · rw [hop] at hx
        exact absurd hx.1 (by decide)
      · rw [hop] at hx
        exact absurd hx.1 (by decide)
    obtain ⟨a, hd⟩ := decode_atomic_listed hop hlisted
    have hf := exec_ok_iff s ins |>.1 h.survives hs
    rw [hd] at hf
    simpa [Insn.fatalIn] using hf
  · rw [exec_ok_iff]
    intro hs
    rcases (h hs).1 with hl | hr
    · exact Insn.fatalIn_of_defined (undefined_of_listed hl) (h hs).2
    · exact (Insn.ok_iff s ins _).1 ⟨_, run_of_refused hr⟩
  · intro hs hl
    rw [exec_decode hs.1 hs.2]
    exact run_of_refused ((h hs).1.resolve_left (by simp [hl]))
  · intro hs _ hop hmis
    exact absurd ((h hs).2 hop) hmis

/-! ## The law of one iteration -/

/-- the law: the iteration goes through, and so does the word it executes -/
structure GuestSafe (host : HostInput) (r : Run) : Prop where
  survives : ∃ r', iteration host r = .ok r'
  word : ∀ t ins, Executes host r t ins → ExecSafe t ins

/-- pc is in bounds where the iteration fetches, and the word there is safe -/
def stepSafe (host : HostInput) (r : Run) : Prop :=
  host.quit = true ∨ (fetchState host r).pc.toNat < memSize ∧
    ∀ ins, fetched host r = some ins → triggerFires (fetchState host r) (fetchState host r).pc sdtrigExecute = false →
      toSwitch (fetchState host r) ins → wordSafe (fetchState host r) ins

theorem fetchExec_ok_iff (s : Machine) : (∃ s', fetchExec s = .ok s') ↔
    ∀ t ins, mmuFetchOk s s.pc = (some ins, t) → triggerFires t s.pc sdtrigExecute = false →
      ∃ s', exec t ins = .ok s' := by
  simp only [fetchExec]
  rcases mmuFetchOk s s.pc with ⟨_ | ins, t⟩
  · simp
  · simp only [sdtrigCheckFetchTrigger, sdtrigCheck, Prod.mk.injEq, Option.some.injEq]
    cases hg : triggerFires t s.pc sdtrigExecute with
    | true =>
      simp only [if_true, Except.ok.injEq, exists_eq', true_iff]
      intro u w h hu
      rw [← h.2, hg] at hu
      exact absurd hu (by decide)
    | false =>
      simp only [Bool.false_eq_true, if_false]
      refine ⟨?_, fun h => h t ins ⟨rfl, rfl⟩ hg⟩
      intro h u w hw _
      obtain ⟨rfl, rfl⟩ := hw
      exact h

/-- an iteration that is not told to quit goes through when pc is in bounds and the fetch and exec do -/
theorem iteration_ok_iff (host : HostInput) (r : Run) (hq : host.quit = false) :
    (∃ r', iteration host r = .ok r') ↔
      (fetchState host r).pc.toNat < memSize ∧ ∃ s', fetchExec (fetchState host r) = .ok s' := by
  rw [iteration_eq hq]
  by_cases hlt : (fetchState host r).pc.toNat ≥ memSize
  · rw [if_pos hlt]
    simp only [reduceCtorEq, exists_false, false_iff, not_and]
    intro h
    omega
  · rw [if_neg hlt, and_iff_right (by omega)]
    cases fetchExec (fetchState host r) with
    | error e => simp [Except.map]
    | ok s => simp [Except.map]

/-- **The steps that survive, exactly.** -/
theorem guest_safe_iff (host : HostInput) (r : Run) : GuestSafe host r ↔ stepSafe host r := by
  unfold stepSafe
  cases hq : host.quit with
  | true =>
    simp only [true_or, iff_true]
    refine ⟨?_, fun t ins h => absurd (h.1.symm.trans hq) (by decide)⟩
    simp only [iteration, hq, if_true]
    exact ⟨_, rfl⟩
  | false =>
    simp only [Bool.false_eq_true, false_or]
    -- the word executed is the one fetched, in a state that differs in the devices
    have hword : (∀ t ins, Executes host r t ins → ExecSafe t ins) ↔ ∀ ins, fetched host r = some ins →
        triggerFires (fetchState host r) (fetchState host r).pc sdtrigExecute = false →
          toSwitch (fetchState host r) ins → wordSafe (fetchState host r) ins := by
      simp only [exec_safe_iff]
      refine ⟨?_, ?_⟩
      · intro h ins hf ht
        rcases hm : mmuFetchOk (fetchState host r) (fetchState host r).pc with ⟨w, t⟩
        have hw : w = some ins := by rw [← hf, fetched, hm]
        subst hw
        obtain ⟨d, rfl⟩ := mmuFetchOk_dev hm
        exact h { fetchState host r with dev := d } ins ⟨hq, hm, ht⟩
      · intro h t ins he
        obtain ⟨d, rfl⟩ := mmuFetchOk_dev he.2.1
        exact h ins (by rw [fetched, he.2.1]) he.2.2
    rw [← hword]
    refine ⟨fun h => ⟨((iteration_ok_iff host r hq).1 h.survives).1, h.word⟩, fun h => ⟨?_, h.2⟩⟩
    refine (iteration_ok_iff host r hq).2 ⟨h.1, (fetchExec_ok_iff _).2 ?_⟩
    intro t ins hf ht
    exact (h.2 t ins ⟨hq, hf, ht⟩).survives

end

/-! ## A guest that ends the emulator -/

/-- the main loop about to run a machine in user mode, the word given at address 0 and 2 in x5 -/
def userRun (ins : Word) : Run where
  state :=
    { machineInit (Function.update (fun _ => 0) 5 2) (fun a => Bytes.byte (n := 4) ins a.toNat) 0 with
      privilege := prvUser }
  lastFetchPc := 0
  spin := spinInit false
  quit := false

/-- the same under paging, pc in the last page of the address space -/
def lastPageRun : Run :=
  { userRun 0 with state := { pagedMachine prvUser (fun _ => 0) with pc := 0xFFFFF000 } }

/-- an R-type word with a reserved funct7, an LR.W from address 2, and a jump above MEM_SIZE -/
theorem guest_aborts : ¬ @GuestSafe noFloat ⟨[], false⟩ (userRun 0x80000033) ∧
    ¬ @GuestSafe noFloat ⟨[], false⟩ (userRun 0x1002A32F) ∧ ¬ @GuestSafe noFloat ⟨[], false⟩ lastPageRun := by
  let _ : SoftFloat := noFloat
  have habort : ∀ r : Run, (iteration ⟨[], false⟩ r).isOk = false → ¬ GuestSafe ⟨[], false⟩ r := by
    intro r hr h
    obtain ⟨r', ho⟩ := h.survives
    rw [ho] at hr
    cases hr
  exact ⟨habort _ (by decide), habort _ (by decide), habort _ (by decide)⟩

end RiscvEmu
