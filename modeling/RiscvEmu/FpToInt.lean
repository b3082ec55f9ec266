/-
FP to integer conversion.

fcvt_fp_int leaves the rounding of what fits to softfloat and replaces its result everywhere else. Results:
- `fcvtFpInt_special`, `fcvtFpInt_number`: what the routine does with a NaN or an infinity, and with a number;
- `round_sign`: the sign bit of a number says on which side it overflows;
- `fcvt_saturates`: rounding, saturation and the flags, for the kinds w and wu.
-/
import RiscvEmu.FcsrFlags
import RiscvEmu.FpFormats
import RiscvEmu.Lib.Rounding
import Mathlib.Data.Rat.Floor

namespace RiscvEmu

/-! ## What the library promises -/

/-- the modes of softfloat -/
def RoundingMode.round : RoundingMode → ℚ → ℤ
  | .nearEven => Rounding.nearestEven
  | .minMag => Rounding.towardZero
  | .min => fun x => ⌊x⌋
  | .max => fun x => ⌈x⌉
  | .nearMaxMag => Rounding.nearestAway

/-- the rounding modes of an instruction or of frm; 5 and 6 are reserved -/
def rmRound : BitVec 3 → Option (ℚ → ℤ)
  | 0b000#3 => some Rounding.nearestEven
  | 0b001#3 => some Rounding.towardZero
  | 0b010#3 => some fun x => ⌊x⌋
  | 0b011#3 => some fun x => ⌈x⌉
  | 0b100#3 => some Rounding.nearestAway
  | _ => none

/-- the number a finite pattern stands for -/
def finiteValue {fmt : Fmt} (a : BitVec fmt.width) : ℚ := Ieee.value fmt.format a.toNat

/-- a conversion to 32 bits: the rounded number where it is in range, with NX at most; anything elsewhere, with NV alone -/
structure RoundsToWord {fmt : Fmt} (conv : RoundingMode → BitVec fmt.width → Word × Byte) (lo hi : ℤ) : Prop where
  inRange : ∀ mode a, isNan a = false → isInf a = false → lo ≤ mode.round (finiteValue a) →
    mode.round (finiteValue a) ≤ hi →
      (conv mode a).1 = BitVec.ofInt 32 (mode.round (finiteValue a)) ∧ ((conv mode a).2 = 0 ∨ (conv mode a).2 = 1)
  outside : ∀ mode a, isNan a = false → isInf a = false →
    mode.round (finiteValue a) < lo ∨ hi < mode.round (finiteValue a) → (conv mode a).2 = fflagNV

/-- the bounds of int32_t and uint32_t: the kinds w and wu -/
def intLo (kind : BitVec 5) : ℤ := if kind = 0 then -2 ^ 31 else 0
def intHi (kind : BitVec 5) : ℤ := if kind = 0 then 2 ^ 31 - 1 else 2 ^ 32 - 1

section
variable [SoftFloat]

/-- the *_to_i32 and *_to_ui32 of a format -/
structure ConvertsToWords (fmt : Fmt) : Prop where
  i32 : RoundsToWord (SoftFloat.ops fmt).toI32 (intLo 0) (intHi 0)
  ui32 : RoundsToWord (SoftFloat.ops fmt).toUi32 (intLo 1) (intHi 1)

variable {fmt : Fmt} {s : Machine} {kind : BitVec 5} {rs1 : Reg} {rm : BitVec 3}

/-! ## The routine -/

omit [SoftFloat] in
theorem sfRm_round {round : ℚ → ℤ} {f : Fpu} (h : rmRound (getRm f rm) = some round) : (sfRm f rm).round = round := by
  unfold rmRound at h
  unfold sfRm
  generalize getRm f rm = mode at h ⊢
  split at h
  all_goals first | exact Option.some.inj h | cases h

omit [SoftFloat] in
theorem round_isRounding (mode : RoundingMode) : Rounding.IsRounding mode.round := by
  cases mode with
  | nearEven => exact Rounding.nearestEven_isRounding
  | minMag => exact Rounding.towardZero_isRounding
  | min => exact Rounding.floor_isRounding
  | max => exact Rounding.ceil_isRounding
  | nearMaxMag => exact Rounding.nearestAway_isRounding

omit [SoftFloat] in
/-- **What overflows has the sign of the side.** -/
theorem round_sign (mode : RoundingMode) (a : BitVec fmt.width) :
    (mode.round (finiteValue a) < 0 → isNegative a = true) ∧ (0 < mode.round (finiteValue a) → isNegative a = false) := by
  rw [isNegative_eq]
  constructor
  · intro hneg
    by_contra hsign
    have hvalue := Ieee.value_nonneg (Bool.eq_false_of_not_eq_true hsign)
    have hx := (round_isRounding mode).neg hneg
    rw [finiteValue, hvalue] at hx
    exact absurd hx (not_lt.2 (Ieee.scaled_mul_nonneg _))
  · intro hpos
    by_contra hsign
    have hvalue := Ieee.value_neg (Bool.eq_true_of_not_eq_false hsign)
    have hx := (round_isRounding mode).pos hpos
    rw [finiteValue, hvalue] at hx
    exact absurd hx (not_lt.2 (neg_nonpos.2 (Ieee.scaled_mul_nonneg _)))

omit [SoftFloat] in
/-- the saturated results are the bounds -/
theorem fcvtIntSat_eq (hkind : kind = 0 ∨ kind = 1) (sign : Bool) :
    fcvtIntSat kind sign = BitVec.ofInt 32 (if sign then intLo kind else intHi kind) := by
  rcases hkind with rfl | rfl <;> cases sign <;> decide

/-- a NaN or an infinity -/
theorem fcvtFpInt_special (kind : BitVec 5) (rm : BitVec 3)
    (h : (isNan (fprRead fmt s.fpu rs1) || isInf (fprRead fmt s.fpu rs1)) = true) :
    (fcvtFpInt fmt s kind rs1 rm).1 =
        fcvtIntSat kind (if isNan (fprRead fmt s.fpu rs1) then false else isNegative (fprRead fmt s.fpu rs1)) ∧
      (fcvtFpInt fmt s kind rs1 rm).2.fcsr = s.fpu.fcsr ||| 0b10000 := by
  have hrun : fcvtFpInt fmt s kind rs1 rm =
      (fcvtIntSat kind (if isNan (fprRead fmt s.fpu rs1) then false else isNegative (fprRead fmt s.fpu rs1)),
        sfEnd (sfRaise (sfBegin s.fpu rm) fflagNV)) := if_pos h
  rw [hrun]
  exact ⟨rfl, sfEnd_fcsr s.fpu rm fflagNV⟩

/-- the library's answer for the kind -/
def toWord (fmt : Fmt) (kind : BitVec 5) : RoundingMode → BitVec fmt.width → Word × Byte :=
  if kind = 0 then (SoftFloat.ops fmt).toI32 else (SoftFloat.ops fmt).toUi32

theorem toWord_rounds (hlib : ConvertsToWords fmt) (hkind : kind = 0 ∨ kind = 1) :
    RoundsToWord (toWord fmt kind) (intLo kind) (intHi kind) := by
  rcases hkind with rfl | rfl
  · exact hlib.i32
  · exact hlib.ui32

/-- a number: the library's answer, unless it comes with NV -/
theorem fcvtFpInt_number (s : Machine) (rm : BitVec 3) (hkind : kind = 0 ∨ kind = 1) {a : BitVec fmt.width}
    (ha : fprRead fmt s.fpu rs1 = a)
    (h : (isNan a || isInf a) = false) {r : Word} {flags : Byte} (hr : toWord fmt kind (sfRm s.fpu rm) a = (r, flags)) :
    (fcvtFpInt fmt s kind rs1 rm).1 = (if flags &&& fflagNV ≠ 0 then fcvtIntSat kind (isNegative a) else r) ∧
      (fcvtFpInt fmt s kind rs1 rm).2.fcsr = s.fpu.fcsr ||| flags.setWidth 32 := by
  have hraised : (sfRaise (sfBegin s.fpu rm) flags).exceptionFlags = flags := BitVec.zero_or
  have hrun : fcvtFpInt fmt s kind rs1 rm =
      (if (sfRaise (sfBegin s.fpu rm) flags).exceptionFlags &&& fflagNV ≠ 0 then fcvtIntSat kind (isNegative a) else r,
        sfEnd (sfRaise (sfBegin s.fpu rm) flags)) := by
    unfold fcvtFpInt
    rw [ha]
    rcases hkind with rfl | rfl
    · have hr' : (SoftFloat.ops fmt).toI32 (sfBegin s.fpu rm).roundingMode a = (r, flags) := hr
      simp only [h, hr', Bool.false_eq_true, if_false, if_true]
    · have hr' : (SoftFloat.ops fmt).toUi32 (sfBegin s.fpu rm).roundingMode a = (r, flags) := hr
      have hne : ¬ ((1 : BitVec 5) = 0) := by decide
      simp only [h, hr', hne, Bool.false_eq_true, if_false, if_true]
  rw [hrun, hraised]
  exact ⟨rfl, sfEnd_fcsr s.fpu rm flags⟩

/-! ## The law -/

/-- rounding, saturation and the flags of the conversion of a, which rounds to n when it is a number -/
structure Saturates (kind : BitVec 5) (n : ℤ) (a : BitVec fmt.width) (fcsr : Word) (result : Word) (fcsr' : Word) :
    Prop where
  nan : isNan a = true → result = BitVec.ofInt 32 (intHi kind)
  inf : isInf a = true → result = BitVec.ofInt 32 (if isNegative a then intLo kind else intHi kind)
  inRange : isNan a = false → isInf a = false → intLo kind ≤ n → n ≤ intHi kind → result = BitVec.ofInt 32 n
  above : isNan a = false → isInf a = false → intHi kind < n → result = BitVec.ofInt 32 (intHi kind)
  below : isNan a = false → isInf a = false → n < intLo kind → result = BitVec.ofInt 32 (intLo kind)
  /-- NV, and NV alone, in the cases without a result -/
  invalid : isNan a = true ∨ isInf a = true ∨ n < intLo kind ∨ intHi kind < n → fcsr' = fcsr ||| 0b10000
  /-- NX at most in the others -/
  inexact : isNan a = false → isInf a = false → intLo kind ≤ n → n ≤ intHi kind → fcsr' = fcsr ∨ fcsr' = fcsr ||| 1

omit [SoftFloat] in
theorem isNan_of_isInf {a : BitVec fmt.width} (h : isInf a = true) : isNan a = false := by
  rw [isInf, Bool.and_eq_true, decide_eq_true_eq, decide_eq_true_eq] at h
  simp [isNan, h.2]

theorem saturates_special (hkind : kind = 0 ∨ kind = 1) (n : ℤ)
    (h : (isNan (fprRead fmt s.fpu rs1) || isInf (fprRead fmt s.fpu rs1)) = true) :
    Saturates kind n (fprRead fmt s.fpu rs1) s.fpu.fcsr (fcvtFpInt fmt s kind rs1 rm).1
      (fcvtFpInt fmt s kind rs1 rm).2.fcsr := by
  obtain ⟨hr, hf⟩ := fcvtFpInt_special kind rm h
  rw [hr, hf, fcvtIntSat_eq hkind]
  generalize fprRead fmt s.fpu rs1 = a at h ⊢
  have hno : isNan a = false → isInf a = false → False := by
    intro hn hi
    rw [hn, hi] at h
    cases h
  exact
    { nan := fun hn => by rw [hn]; rfl
      inf := fun hi => by rw [isNan_of_isInf hi]; rfl
      inRange := fun hn hi => (hno hn hi).elim
      above := fun hn hi => (hno hn hi).elim
      below := fun hn hi => (hno hn hi).elim
      invalid := fun _ => rfl
      inexact := fun hn hi => (hno hn hi).elim }

theorem saturates_number (hlib : ConvertsToWords fmt) (hkind : kind = 0 ∨ kind = 1)
    (h : (isNan (fprRead fmt s.fpu rs1) || isInf (fprRead fmt s.fpu rs1)) = false) :
    Saturates kind ((sfRm s.fpu rm).round (finiteValue (fprRead fmt s.fpu rs1))) (fprRead fmt s.fpu rs1) s.fpu.fcsr
      (fcvtFpInt fmt s kind rs1 rm).1 (fcvtFpInt fmt s kind rs1 rm).2.fcsr := by
  obtain ⟨hr, hf⟩ := fcvtFpInt_number s rm hkind rfl h
    (Prod.mk.eta (p := toWord fmt kind (sfRm s.fpu rm) (fprRead fmt s.fpu rs1))).symm
  have hin := (toWord_rounds hlib hkind).inRange (sfRm s.fpu rm) (fprRead fmt s.fpu rs1)
  have hout := (toWord_rounds hlib hkind).outside (sfRm s.fpu rm) (fprRead fmt s.fpu rs1)
  have hsign := round_sign (sfRm s.fpu rm) (fprRead fmt s.fpu rs1)
  rw [hr, hf]
  generalize toWord fmt kind (sfRm s.fpu rm) (fprRead fmt s.fpu rs1) = answer at hin hout ⊢
  generalize fprRead fmt s.fpu rs1 = a at *
  generalize (sfRm s.fpu rm).round (finiteValue a) = n at *
  obtain ⟨hn, hi⟩ := Bool.or_eq_false_iff.1 h
  by_cases hfit : intLo kind ≤ n ∧ n ≤ intHi kind
  · obtain ⟨hvalue, hflags⟩ := hin hn hi hfit.1 hfit.2
    have hnv : ¬ (answer.2 &&& fflagNV ≠ 0) := by rcases hflags with hz | hz <;> rw [hz] <;> decide
    rw [if_neg hnv, hvalue]
    exact
      { nan := fun hn' => absurd (hn.symm.trans hn') Bool.false_ne_true
        inf := fun hi' => absurd (hi.symm.trans hi') Bool.false_ne_true
        inRange := fun _ _ _ _ => rfl
        above := fun _ _ hgt => by omega
        below := fun _ _ hlt => by omega
        invalid := by
          rintro (hn' | hi' | hlt | hgt)
          · exact absurd (hn.symm.trans hn') Bool.false_ne_true
          · exact absurd (hi.symm.trans hi') Bool.false_ne_true
          · omega
          · omega
        inexact := fun _ _ _ _ => by
          rcases hflags with hz | hz
          · rw [hz]
            exact .inl BitVec.or_zero
          · rw [hz]
            exact .inr rfl }
  · have hflags := hout hn hi (by omega)
    have hlo : intLo kind ≤ 0 := by rcases hkind with rfl | rfl <;> decide
    have hhi : 0 < intHi kind := by rcases hkind with rfl | rfl <;> decide
    rw [if_pos (by rw [hflags]; decide), hflags, fcvtIntSat_eq hkind]
    exact
      { nan := fun hn' => absurd (hn.symm.trans hn') Bool.false_ne_true
        inf := fun _ => rfl
        inRange := fun _ _ hge hle => absurd ⟨hge, hle⟩ hfit
        above := fun _ _ hgt => by rw [hsign.2 (hhi.trans hgt)]; rfl
        below := fun _ _ hlt => by rw [hsign.1 (hlt.trans_le hlo)]; rfl
        invalid := fun _ => rfl
        inexact := fun _ _ hge hle => absurd ⟨hge, hle⟩ hfit }

/-- **FP to integer conversion.** -/
theorem fcvt_saturates (hlib : ConvertsToWords fmt) (s : Machine) (rs1 : Reg) (rm : BitVec 3) {kind : BitVec 5}
    (hkind : kind = 0 ∨ kind = 1) {round : ℚ → ℤ} (hround : rmRound (getRm s.fpu rm) = some round) :
    Saturates kind (round (finiteValue (fprRead fmt s.fpu rs1))) (fprRead fmt s.fpu rs1) s.fpu.fcsr
      (fcvtFpInt fmt s kind rs1 rm).1 (fcvtFpInt fmt s kind rs1 rm).2.fcsr := by
  rw [← sfRm_round hround]
  cases h : isNan (fprRead fmt s.fpu rs1) || isInf (fprRead fmt s.fpu rs1) with
  | true => exact saturates_special hkind _ h
  | false => exact saturates_number hlib hkind h

end

/-- the rounded number with NX where it is not exact, and 0 with NV out of range -/
def roundedAnswer (lo hi : ℤ) (x : ℚ) (n : ℤ) : Word × Byte :=
  if lo ≤ n ∧ n ≤ hi then (BitVec.ofInt 32 n, if (n : ℚ) = x then 0 else 1) else (0, fflagNV)

/-- conversions to 32 bits -/
@[reducible] def roundingFloat : SoftFloat where
  ops fmt :=
    { noFloat.ops fmt with
      toI32 := fun mode a => roundedAnswer (intLo 0) (intHi 0) (finiteValue a) (mode.round (finiteValue a))
      toUi32 := fun mode a => roundedAnswer (intLo 1) (intHi 1) (finiteValue a) (mode.round (finiteValue a)) }
  convert := noFloat.convert

theorem roundedAnswer_rounds {fmt : Fmt} (lo hi : ℤ) : RoundsToWord
    (fun mode (a : BitVec fmt.width) => roundedAnswer lo hi (finiteValue a) (mode.round (finiteValue a))) lo hi where
  inRange mode a _ _ hlo hhi := by
    unfold roundedAnswer
    rw [if_pos ⟨hlo, hhi⟩]
    refine ⟨rfl, ?_⟩
    dsimp only
    split_ifs
    · exact .inl rfl
    · exact .inr rfl
  outside mode a _ _ hout := by
    unfold roundedAnswer
    rw [if_neg (by omega)]

/-- FCVT.WU.S of -0.5, rounding down: below the range, so 0 with NV -/
theorem fcvt_saturates_half :
    let s := machineInit (fun _ => 0) (fun _ => 0) 0
    let s := { s with fpu := fprWrite .S s.fpu 1 0xBF000000 }
    Saturates 1 ⌊finiteValue (fprRead .S s.fpu 1)⌋ (fprRead .S s.fpu 1) s.fpu.fcsr
      (@fcvtFpInt roundingFloat .S s 1 1 0b010).1 (@fcvtFpInt roundingFloat .S s 1 1 0b010).2.fcsr :=
  @fcvt_saturates roundingFloat .S
    (@ConvertsToWords.mk roundingFloat .S (roundedAnswer_rounds _ _) (roundedAnswer_rounds _ _)) _ 1 0b010 1 (.inr rfl)
    (fun x => ⌊x⌋) rfl

end RiscvEmu
