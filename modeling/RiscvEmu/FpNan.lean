/-
NaN results and signaling NaNs.

The arithmetic routines normalise a NaN result and or the library's flags into fcsr. A conversion to S, D or H keeps the
sign of a NaN, and a conversion to Q neither normalises nor collects flags. Results:
- `binop_nan` and its siblings: the arithmetic routines, minimum and maximum;
- `hostileFloat`: a library within the assumptions, under which every conversion of a NaN goes wrong;
- `nan_canonical_iff`: canonical results and NV hold of exactly the instructions that are not conversions between formats,
  and with NaNs made from NaNs only, also of the conversions of numbers;
- `conversion_nan`: FCVT.D.S gives a negative NaN, and FCVT.Q.S loses NV.
-/
import RiscvEmu.FcsrFlags
import RiscvEmu.FpMinMax
import RiscvEmu.NanBoxing

namespace RiscvEmu

/-! ## Assumptions on the library -/

/-- a signaling operand raises the invalid flag -/
structure OpsSignal {fmt : Fmt} (o : FloatOps fmt.width) : Prop where
  add : ∀ mode a b, (isSignalingNan a || isSignalingNan b) = true → (o.add mode a b).2 &&& fflagNV ≠ 0
  sub : ∀ mode a b, (isSignalingNan a || isSignalingNan b) = true → (o.sub mode a b).2 &&& fflagNV ≠ 0
  mul : ∀ mode a b, (isSignalingNan a || isSignalingNan b) = true → (o.mul mode a b).2 &&& fflagNV ≠ 0
  div : ∀ mode a b, (isSignalingNan a || isSignalingNan b) = true → (o.div mode a b).2 &&& fflagNV ≠ 0
  sqrt : ∀ mode a, isSignalingNan a = true → (o.sqrt mode a).2 &&& fflagNV ≠ 0
  mulAdd : ∀ mode a b c, (isSignalingNan a || isSignalingNan b || isSignalingNan c) = true →
    (o.mulAdd mode a b c).2 &&& fflagNV ≠ 0

/-- signaling operands raise the invalid flag; of a NaN result nothing is assumed, neither its sign nor its payload -/
structure SoftFloatSignals [SoftFloat] : Prop where
  ops : ∀ fmt, OpsSignal (SoftFloat.ops fmt)
  convert : ∀ sfmt dfmt mode (a : BitVec sfmt.width), isSignalingNan a = true →
    (SoftFloat.convert sfmt dfmt mode a).2 &&& fflagNV ≠ 0

/-- a conversion makes a NaN from a NaN only -/
def NanFromNan [SoftFloat] : Prop := ∀ sfmt dfmt mode (a : BitVec sfmt.width),
  isNan (SoftFloat.convert sfmt dfmt mode a).1 = true → isNan a = true

/-! ## The routines -/

/-- the result in rd is canonical if it is a NaN, and a signaling operand is reported -/
structure NanOutcome (fmt : Fmt) (rd : Reg) (signaling : Bool) (t : Machine) : Prop where
  canonical : isNan (fprRead fmt t.fpu rd) = true → fprRead fmt t.fpu rd = fmt.canonicalNan
  nv : signaling = true → t.fpu.fcsr &&& 0b10000 ≠ 0

section
variable {fmt : Fmt} {s : Machine} {f g : Fpu} {rs1 rs2 rs3 rd : Reg}

theorem isNan_of_signaling {x : BitVec fmt.width} (h : isSignalingNan x = true) : isNan x = true :=
  (Bool.and_eq_true _ _ ▸ h : _ ∧ _).1

theorem normalizeNan_canonical {x : BitVec fmt.width} (h : isNan (normalizeNan x) = true) :
    normalizeNan x = fmt.canonicalNan := by
  unfold normalizeNan at *
  split_ifs at * with hx
  · rfl
  · exact absurd h hx

/-- flipping the sign of an operand leaves it signaling -/
theorem isSignalingNan_xor_sign (x : BitVec fmt.width) : isSignalingNan (x ^^^ fmt.signBit) = isSignalingNan x := by
  have hmask : ∀ m : BitVec fmt.width, fmt.signBit &&& m = 0 → (x ^^^ fmt.signBit) &&& m = x &&& m := by
    intro m hm
    refine BitVec.eq_of_getLsbD_eq ?_
    intro i hi
    have hbit : (fmt.signBit.getLsbD i && m.getLsbD i) = false := by
      rw [← BitVec.getLsbD_and, hm]
      exact BitVec.getLsbD_zero
    rw [BitVec.getLsbD_and, BitVec.getLsbD_and, BitVec.getLsbD_xor, Bool.and_xor_distrib_right, hbit, Bool.xor_false]
  have hexp : fmt.signBit &&& fmt.expBits = 0 := by cases fmt <;> decide
  have hmant : fmt.signBit &&& fmt.mantBits = 0 := by cases fmt <;> decide
  have hquiet : fmt.signBit &&& fmt.quietBit = 0 := by cases fmt <;> decide
  rw [isSignalingNan, isSignalingNan, isNan, isNan, hmask _ hexp, hmask _ hmant, hmask _ hquiet]

theorem nv_word (x : Word) : x &&& 0b10000 ≠ 0 ↔ x.getLsbD 4 = true := Bits.and_bit_ne_zero (k := 4) x

theorem nv_byte (x : Byte) : x &&& fflagNV ≠ 0 ↔ x.getLsbD 4 = true := Bits.and_bit_ne_zero (k := 4) x

/-- NV among the flags a routine raised is in fcsr after sf_end -/
theorem sfEnd_nv {rm : BitVec 3} {flags : Byte} (h : flags &&& fflagNV ≠ 0) :
    (sfEnd (sfRaise (sfBegin f rm) flags)).fcsr &&& 0b10000 ≠ 0 := by
  rw [nv_byte] at h
  rw [sfEnd_fcsr, nv_word]
  simp [h]

/-- sf_begin, a routine, sf_end and the normalised result -/
theorem normalized_nan {rm : BitVec 3} {r : BitVec fmt.width} {flags : Byte} {signaling : Bool}
    (h : signaling = true → flags &&& fflagNV ≠ 0) : NanOutcome fmt rd signaling
      { s with fpu := fprWrite fmt (sfEnd (sfRaise (sfBegin s.fpu rm) flags)) rd (normalizeNan r) } where
  canonical := by
    rw [fprRead_fprWrite]
    exact normalizeNan_canonical
  nv := fun hs => sfEnd_nv (h hs)

end

section
variable [SoftFloat] {fmt : Fmt} {s : Machine} {rs1 rs2 rs3 rd : Reg}

/-- the operand in r is a signaling NaN -/
def signalingAt (fmt : Fmt) (s : Machine) (r : Reg) : Bool := isSignalingNan (fprRead fmt s.fpu r)

omit [SoftFloat] in
theorem binop_nan {fn : RoundingMode → BitVec fmt.width → BitVec fmt.width → BitVec fmt.width × Byte}
    (h : ∀ mode a b, (isSignalingNan a || isSignalingNan b) = true → (fn mode a b).2 &&& fflagNV ≠ 0) (rm : BitVec 3) :
    NanOutcome fmt rd (signalingAt fmt s rs1 || signalingAt fmt s rs2) (binop fmt fn s rs2 rs1 rm rd) :=
  normalized_nan (h _ _ _)

/-- without a NaN the result is an operand -/
theorem rvFminmax_isNan {pick : Bool → BitVec fmt.width → BitVec fmt.width → BitVec fmt.width}
    (hpick : ∀ first a b, pick first a b = a ∨ pick first a b = b) {f : Fpu} {a b : BitVec fmt.width}
    (h : isNan (rvFminmax pick f a b).1 = true) : (rvFminmax pick f a b).1 = fmt.canonicalNan := by
  cases ha : isNan a with
  | true =>
    cases hb : isNan b with
    | true => exact rvFminmax_two ha hb
    | false =>
      rw [rvFminmax_left ha hb, hb] at h
      cases h
  | false =>
    cases hb : isNan b with
    | true =>
      rw [rvFminmax_right ha hb, ha] at h
      cases h
    | false =>
      rw [rvFminmax_numbers ha hb] at h
      rcases hpick (firstBelow a b) a b with hp | hp
      · rw [hp, ha] at h
        cases h
      · rw [hp, hb] at h
        cases h

theorem minmaxOp_nan {pick : Bool → BitVec fmt.width → BitVec fmt.width → BitVec fmt.width}
    (hpick : ∀ first a b, pick first a b = a ∨ pick first a b = b) :
    NanOutcome fmt rd (signalingAt fmt s rs1 || signalingAt fmt s rs2) (minmaxOp fmt (rvFminmax pick) s rs2 rs1 rd) where
  canonical := by
    rw [minmaxOp, fprRead_fprWrite]
    exact rvFminmax_isNan hpick
  nv := by
    intro hs
    have hflags : (minmaxOp fmt (rvFminmax pick) s rs2 rs1 rd).fpu.fcsr = s.fpu.fcsr ||| 0b10000 :=
      (rvFminmax_fcsr _ _ _).trans (if_pos hs)
    rw [hflags, nv_word]
    simp

theorem doFminmax_nan (op : BitVec 3) :
    NanOutcome fmt rd (signalingAt fmt s rs1 || signalingAt fmt s rs2) (doFminmax fmt s rs2 rs1 op rd) := by
  rw [doFminmax_eq]
  split_ifs
  · exact minmaxOp_nan fun first a b => by cases first <;> simp
  · exact minmaxOp_nan fun first a b => by cases first <;> simp

/-- a conversion of a number: the result is no NaN, and the operand does not signal -/
theorem fcvtFpFp_nan (hnan : NanFromNan) {sfmt : Fmt} {field : BitVec 5} {rm : BitVec 3} {t : Machine}
    (hrun : fcvtFpFp fmt s field rs1 rm rd = .ok t) (hsource : Fmt.ofSource field = some sfmt)
    (ha : isNan (fprRead sfmt s.fpu rs1) = false) : NanOutcome fmt rd (signalingAt sfmt s rs1) t := by
  have hresult : isNan (fprRead fmt t.fpu rd) = false := by
    obtain ⟨sfmt', hsource', -, hcase⟩ := fcvtFpFp_cases hrun
    obtain rfl := Option.some.inj (hsource'.symm.trans hsource)
    have hr : ∀ mode, isNan (SoftFloat.convert sfmt' fmt mode (fprRead sfmt' s.fpu rs1)).1 = false := fun mode =>
      Bool.eq_false_iff.2 fun hr => absurd (ha.symm.trans (hnan _ _ _ _ hr)) Bool.false_ne_true
    rcases hcase with ⟨-, rfl⟩ | ⟨rfl, rfl⟩
    · rw [fcvtNarrow, fprRead_fprWrite, fcvtNan, hr, if_neg Bool.false_ne_true]
      exact hr _
    · rw [fcvtWiden, fprRead_fprWrite]
      exact hr _
  refine ⟨fun h => absurd (hresult.symm.trans h) Bool.false_ne_true, ?_⟩
  intro h
  exact absurd (ha.symm.trans (isNan_of_signaling h)) Bool.false_ne_true

section
variable (h : SoftFloatSignals)
include h

theorem sqrtOp_nan (rm : BitVec 3) : NanOutcome fmt rd (signalingAt fmt s rs1) (sqrtOp fmt s rs1 rm rd) :=
  normalized_nan ((h.ops fmt).sqrt _ _)

theorem fma_nan (subop : BitVec 2) (rm : BitVec 3) :
    NanOutcome fmt rd (signalingAt fmt s rs1 || signalingAt fmt s rs2 || signalingAt fmt s rs3)
      (fma fmt s subop rs3 rs2 rs1 rm rd) := by
  -- an operand with its sign flipped signals when the operand does
  have hsign : ∀ (c : Prop) [Decidable c] (x : BitVec fmt.width),
      isSignalingNan (if c then x ^^^ fmt.signBit else x) = isSignalingNan x := by
    intro c _ x
    split_ifs
    · exact isSignalingNan_xor_sign x
    · rfl
  refine normalized_nan fun hs => (h.ops fmt).mulAdd _ _ _ _ ?_
  rw [hsign, hsign]
  exact hs

end

end

/-! ## Instructions -/

/-- add, subtract, multiply, divide, minimum and maximum, conversion between formats, square root, and the fused ones -/
def FpInsn.makesNan (ins : Word) : FpInsn → Prop
  | .fma _ => True
  | .fpop =>
    ins.extractLsb' 27 5 = 0 ∨ ins.extractLsb' 27 5 = 1 ∨ ins.extractLsb' 27 5 = 2 ∨ ins.extractLsb' 27 5 = 3 ∨
      ins.extractLsb' 27 5 = 5 ∨ ins.extractLsb' 27 5 = 8 ∨ ins.extractLsb' 27 5 = 11
  | _ => False

/-- the source format of a conversion between formats -/
def FpInsn.convertsFrom (ins : Word) : FpInsn → Option Fmt
  | .fpop =>
    if ins.extractLsb' 27 5 = 8 then
      (Fmt.ofSource (ins.extractLsb' 20 5)).filter (· ≠ Fmt.ofField (ins.extractLsb' 25 2))
    else none
  | _ => none

/-- canonical NaN results, and NV for signaling operands -/
def NanLaw [SoftFloat] (s : Machine) (i : FpInsn) (ins : Word) : Prop :=
  i.makesNan ins → ∀ t, i.run s ins = .ok t → ∀ dfmt rd sfmt rs, i.result ins = some (dfmt, rd) →
    i.operands ins = some (sfmt, rs) → NanOutcome dfmt rd (rs.any (signalingAt sfmt s)) t

section
variable {s : Machine} {i : FpInsn} {ins : Word} {sfmt : Fmt}

theorem convertsFrom_fpop : FpInsn.fpop.convertsFrom ins = some sfmt ↔ ins.extractLsb' 27 5 = 8 ∧
    Fmt.ofSource (ins.extractLsb' 20 5) = some sfmt ∧ sfmt ≠ Fmt.ofField (ins.extractLsb' 25 2) := by
  unfold FpInsn.convertsFrom
  split_ifs with hop
  · rw [Option.filter_eq_some_iff]
    simp [hop]
  · exact iff_of_false nofun fun h => hop h.1

theorem any_one (p : Reg → Bool) (a : Reg) : [a].any p = p a := by simp

theorem any_two (p : Reg → Bool) (a b : Reg) : [a, b].any p = (p a || p b) := by simp

theorem any_three (p : Reg → Bool) (a b c : Reg) : [a, b, c].any p = (p a || p b || p c) := by simp [Bool.or_assoc]

theorem insfRFpop_convert [SoftFloat] (hop : ins.extractLsb' 27 5 = 8) : insfRFpop s ins =
    fcvtFpFp (Fmt.ofField (ins.extractLsb' 25 2)) s (ins.extractLsb' 20 5) (ins.extractLsb' 15 5)
      (ins.extractLsb' 12 3) (ins.extractLsb' 7 5) := by
  simp only [insfRFpop, hop]
  rfl

theorem convert_fields (hop : ins.extractLsb' 27 5 = 8) (hsource : Fmt.ofSource (ins.extractLsb' 20 5) = some sfmt) :
    fpopResult ins = some (Fmt.ofField (ins.extractLsb' 25 2), ins.extractLsb' 7 5) ∧
      fpopOperands ins = some (sfmt, [ins.extractLsb' 15 5]) := by
  constructor
  · unfold fpopResult
    rw [hop]
    rfl
  · unfold fpopOperands
    rw [hop]
    change Option.map _ (Fmt.ofSource (ins.extractLsb' 20 5)) = _
    rw [hsource]
    rfl

/-- the arithmetic of FP-OP -/
theorem insfRFpop_nan [SoftFloat] (h : SoftFloatSignals) {t : Machine} {dfmt : Fmt} {rd : Reg} {rs : List Reg}
    (hmake : FpInsn.fpop.makesNan ins) (hop : ins.extractLsb' 27 5 ≠ 8) (hrun : insfRFpop s ins = .ok t)
    (hres : fpopResult ins = some (dfmt, rd)) (hops : fpopOperands ins = some (sfmt, rs)) :
    NanOutcome dfmt rd (rs.any (signalingAt sfmt s)) t := by
  unfold FpInsn.makesNan at hmake
  unfold insfRFpop at hrun
  unfold fpopResult at hres
  unfold fpopOperands at hops
  have hfields : some (Fmt.ofField (ins.extractLsb' 25 2), ins.extractLsb' 7 5) = some (dfmt, rd) := by
    rcases hmake with hk | hk | hk | hk | hk | hk | hk <;> rw [hk] at hres <;> exact hres
  obtain ⟨rfl, rfl⟩ := Prod.mk.inj (Option.some.inj hfields)
  have hf := h.ops (Fmt.ofField (ins.extractLsb' 25 2))
  generalize Fmt.ofField (ins.extractLsb' 25 2) = fmt at hrun hops hf ⊢
  rcases hmake with hk | hk | hk | hk | hk | hk | hk <;> rw [hk] at hrun hops
  case inr.inr.inr.inr.inr.inl => exact absurd hk hop
  all_goals
    obtain ⟨rfl, rfl⟩ := Prod.mk.inj (Option.some.inj hops)
    obtain rfl := Except.ok.inj hrun
    first | rw [any_two] | rw [any_one]
  · cases fmt <;> exact binop_nan hf.add _
  · cases fmt <;> exact binop_nan hf.sub _
  · cases fmt <;> exact binop_nan hf.mul _
  · cases fmt <;> exact binop_nan hf.div _
  · exact doFminmax_nan _
  · cases fmt <;> exact sqrtOp_nan h _

/-- **The instructions that obey the law.** -/
theorem FpInsn.run_nan [SoftFloat] (h : SoftFloatSignals)
    (hconv : ∀ sfmt, i.convertsFrom ins = some sfmt →
      NanFromNan ∧ isNan (fprRead sfmt s.fpu (ins.extractLsb' 15 5)) = false) : NanLaw s i ins := by
  intro hmake t hrun dfmt rd sfmt rs hres hops
  cases i with
  | fma subop =>
    obtain ⟨rfl, rfl⟩ := Prod.mk.inj (Option.some.inj hres)
    obtain ⟨rfl, rfl⟩ := Prod.mk.inj (Option.some.inj hops)
    obtain rfl := Except.ok.inj hrun
    rw [any_three]
    unfold insfRFma
    cases Fmt.ofField (ins.extractLsb' 25 2) <;> exact fma_nan h subop _
  | fpop =>
    by_cases hop : ins.extractLsb' 27 5 = 8
    · change insfRFpop s ins = .ok t at hrun
      rw [insfRFpop_convert hop] at hrun
      obtain ⟨src, hsource, hne, -⟩ := fcvtFpFp_cases hrun
      obtain ⟨hnan, ha⟩ := hconv src (convertsFrom_fpop.2 ⟨hop, hsource, hne⟩)
      obtain ⟨hres', hops'⟩ := convert_fields hop hsource
      obtain ⟨rfl, rfl⟩ := Prod.mk.inj (Option.some.inj (hres'.symm.trans hres))
      obtain ⟨rfl, rfl⟩ := Prod.mk.inj (Option.some.inj (hops'.symm.trans hops))
      rw [any_one]
      exact fcvtFpFp_nan hnan hrun hsource ha
    · exact insfRFpop_nan h hmake hop hrun hres hops
  | _ => exact hmake.elim

/-! ## Conversions -/

/-- a library that reports every operand, and turns a NaN into the negative NaN with all payload bits set; with `numbers` it
makes that NaN of numbers too -/
@[reducible] def hostileFloat (numbers : Bool) : SoftFloat where
  ops _ :=
    { add := fun _ _ _ => (0, fflagNV), sub := fun _ _ _ => (0, fflagNV), mul := fun _ _ _ => (0, fflagNV)
      div := fun _ _ _ => (0, fflagNV), sqrt := fun _ _ => (0, fflagNV), mulAdd := fun _ _ _ _ => (0, fflagNV)
      eq := fun _ _ => (false, 0), lt := fun _ _ => (false, 0), le := fun _ _ => (false, 0)
      toI32 := fun _ _ => (0, 0), toUi32 := fun _ _ => (0, 0), toI64 := fun _ _ => (0, 0), toUi64 := fun _ _ => (0, 0)
      ofI32 := fun _ _ => (0, 0), ofUi32 := fun _ _ => (0, 0), ofI64 := fun _ _ => (0, 0)
      ofUi64 := fun _ _ => (0, 0) }
  convert _ dfmt _ a := (if isNan a || numbers then BitVec.allOnes dfmt.width else 0, fflagNV)

theorem hostileFloat_signals (numbers : Bool) : @SoftFloatSignals (hostileFloat numbers) := by
  have hnv : fflagNV &&& fflagNV ≠ 0 := by decide
  refine @SoftFloatSignals.mk (hostileFloat numbers) ?_ fun _ _ _ _ _ => hnv
  intro fmt
  constructor <;> intros <;> exact hnv

theorem hostileFloat_nanFromNan : @NanFromNan (hostileFloat false) := by
  intro _ dfmt mode a h
  by_contra ha
  have hzero : @isNan dfmt 0 = false := by cases dfmt <;> decide
  have hconvert : ((hostileFloat false).convert _ dfmt mode a).1 = 0 := if_neg (by simpa using ha)
  rw [hconvert, hzero] at h
  cases h

/-- what the hostile NaN becomes is a NaN, and not the canonical one -/
theorem allOnes_nan (fmt : Fmt) : isNan (BitVec.allOnes fmt.width) = true ∧ BitVec.allOnes fmt.width ≠ fmt.canonicalNan ∧
    isNan (fcvtNan (BitVec.allOnes fmt.width)) = true ∧ fcvtNan (BitVec.allOnes fmt.width) ≠ fmt.canonicalNan := by
  cases fmt <;> decide

theorem fcvtFpFp_ok [SoftFloat] {fmt : Fmt} (s : Machine) (field : BitVec 5) (rs1 : Reg) (rm : BitVec 3) (rd : Reg)
    (hsource : Fmt.ofSource field = some sfmt) (hne : sfmt ≠ fmt) : ∃ t, fcvtFpFp fmt s field rs1 rm rd = .ok t := by
  unfold fcvtFpFp
  rw [hsource]
  cases fmt <;> cases sfmt <;> first | exact ⟨_, rfl⟩ | exact absurd rfl hne

/-- **A conversion that the library answers with the hostile NaN goes wrong.** -/
theorem convert_hostile [SoftFloat] (hconv : i.convertsFrom ins = some sfmt)
    (hlib : ∀ mode, (SoftFloat.convert sfmt (Fmt.ofField (ins.extractLsb' 25 2)) mode
      (fprRead sfmt s.fpu (ins.extractLsb' 15 5))).1 = BitVec.allOnes _) : ¬ NanLaw s i ins := by
  intro hlaw
  cases i with
  | fpop =>
    obtain ⟨hop, hsource, hne⟩ := convertsFrom_fpop.1 hconv
    obtain ⟨hres, hops⟩ := convert_fields hop hsource
    obtain ⟨t, ht⟩ := fcvtFpFp_ok s _ (ins.extractLsb' 15 5) (ins.extractLsb' 12 3) (ins.extractLsb' 7 5) hsource hne
    have hrun : insfRFpop s ins = .ok t := (insfRFpop_convert hop).trans ht
    have hout := hlaw (by simp [FpInsn.makesNan, hop]) t hrun _ _ _ _ hres hops
    obtain ⟨src, hsrc, -, hcase⟩ := fcvtFpFp_cases ht
    obtain rfl := Option.some.inj (hsrc.symm.trans hsource)
    generalize Fmt.ofField (ins.extractLsb' 25 2) = dfmt at hlib hout hcase
    obtain ⟨hnan, hwide, hnan', hnarrow⟩ := allOnes_nan dfmt
    rcases hcase with ⟨-, rfl⟩ | ⟨rfl, rfl⟩
    · have hresult : fprRead dfmt (fcvtNarrow src dfmt s (ins.extractLsb' 15 5) (ins.extractLsb' 12 3)
          (ins.extractLsb' 7 5)).fpu (ins.extractLsb' 7 5) = fcvtNan (BitVec.allOnes dfmt.width) := by
        rw [fcvtNarrow, fprRead_fprWrite, hlib]
      exact hnarrow (hresult ▸ hout.canonical (hresult ▸ hnan'))
    · have hresult : fprRead .Q (fcvtWiden src s (ins.extractLsb' 15 5) (ins.extractLsb' 7 5)).fpu (ins.extractLsb' 7 5) =
          BitVec.allOnes Fmt.Q.width := by
        rw [fcvtWiden, fprRead_fprWrite, hlib]
      exact hwide (hresult ▸ hout.canonical (hresult ▸ hnan))
  | _ => cases hconv

/-- **Canonical NaNs and NV, exactly.** -/
theorem nan_canonical_iff (s : Machine) (i : FpInsn) (ins : Word) :
    ((∀ [SoftFloat], SoftFloatSignals → NanLaw s i ins) ↔ i.convertsFrom ins = none) ∧
      ((∀ [SoftFloat], SoftFloatSignals → NanFromNan → NanLaw s i ins) ↔
        ∀ sfmt, i.convertsFrom ins = some sfmt → isNan (fprRead sfmt s.fpu (ins.extractLsb' 15 5)) = false) := by
  constructor
  · constructor
    · intro hlaw
      cases hconv : i.convertsFrom ins with
      | none => rfl
      | some sfmt =>
        exact absurd (@hlaw (hostileFloat true) (hostileFloat_signals true))
          (@convert_hostile _ _ _ _ (hostileFloat true) hconv fun _ => if_pos (by simp))
    · intro hconv lib hsig
      exact FpInsn.run_nan hsig fun sfmt h => absurd (hconv.symm.trans h) nofun
  · constructor
    · intro hlaw sfmt hconv
      by_contra ha
      have hnan : (isNan (fprRead sfmt s.fpu (ins.extractLsb' 15 5)) || false) = true := by simpa using ha
      exact @convert_hostile _ _ _ _ (hostileFloat false) hconv (fun _ => if_pos hnan)
        (@hlaw (hostileFloat false) (hostileFloat_signals false) hostileFloat_nanFromNan)
    · intro hnum lib hsig hnan
      exact FpInsn.run_nan hsig fun sfmt h => ⟨hnan, hnum sfmt h⟩

end

/-- f2 holds a negative signaling single NaN; FCVT.D.S f1, f2 gives the negative quiet NaN, and FCVT.Q.S f1, f2 the library's
NaN as it is, with no flag in fcsr -/
theorem conversion_nan :
    let s := machineInit (fun _ => 0) (fun _ => 0) 0
    let s := s.withFpr fun r => if r = 2 then box .S 0xFF800001 else 0
    @SoftFloatSignals (hostileFloat false) ∧ @NanFromNan (hostileFloat false) ∧
      decode 0x420100D3 = .fp .fpop ∧ decode 0x460100D3 = .fp .fpop ∧
      (∃ t, @FpInsn.run (hostileFloat false) s 0x420100D3 .fpop = .ok t ∧ fprRead .D t.fpu 1 = 0xFFF8000000000000) ∧
      (∃ t, @FpInsn.run (hostileFloat false) s 0x460100D3 .fpop = .ok t ∧
        fprRead .Q t.fpu 1 = BitVec.allOnes 128 ∧ t.fpu.fcsr = 0) ∧
      ¬ @NanLaw (hostileFloat false) s .fpop 0x420100D3 ∧ ¬ @NanLaw (hostileFloat false) s .fpop 0x460100D3 := by
  have hmake : ∀ ins : Word, ins.extractLsb' 27 5 = 8 → FpInsn.fpop.makesNan ins := fun ins h => by
    simp [FpInsn.makesNan, h]
  refine ⟨hostileFloat_signals false, hostileFloat_nanFromNan, by decide, by decide, ⟨_, rfl, by decide⟩,
    ⟨_, rfl, by decide, by decide⟩, fun hlaw => ?_, fun hlaw => ?_⟩
  · have hout := hlaw (hmake _ (by decide)) _ rfl .D 1 .S [2] (by decide) (by decide)
    exact absurd (hout.canonical (by decide)) (by decide)
  · have hout := hlaw (hmake _ (by decide)) _ rfl .Q 1 .S [2] (by decide) (by decide)
    exact absurd (hout.nv (by decide)) (by decide)

end RiscvEmu
