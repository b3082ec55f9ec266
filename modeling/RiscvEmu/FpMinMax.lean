/-
FP minimum and maximum.

rv_fmin and rv_fmax set NV for a signaling operand, settle the NaN cases, and compare the rest with softfloat's eq and lt;
where the two compare equal the sign of the first decides. Results:
- `rvFminmax_fcsr`, `rvFminmax_nan`: the flags, and the cases with a NaN;
- `rvFmin_le`, `rvFmax_ge`: without one, a bound of both operands that is one of them;
- `fmin_fmax_ieee`: minimumNumber and maximumNumber.
-/
import RiscvEmu.FpFormats
import RiscvEmu.Init

namespace RiscvEmu

section
variable [SoftFloat] {fmt : Fmt} {f : Fpu} {a b : BitVec fmt.width}
  {pick : Bool → BitVec fmt.width → BitVec fmt.width → BitVec fmt.width}

/-- **NV for a signaling operand, and no other flag.** -/
theorem rvFminmax_fcsr (f : Fpu) (a b : BitVec fmt.width) : (rvFminmax pick f a b).2.fcsr =
    if isSignalingNan a || isSignalingNan b then f.fcsr ||| 0b10000 else f.fcsr := by
  unfold rvFminmax
  by_cases hnv : isSignalingNan a || isSignalingNan b
  · simp only [if_pos hnv]
    split_ifs <;> rfl
  · simp only [if_neg hnv]
    split_ifs <;> rfl

theorem rvFminmax_two (ha : isNan a = true) (hb : isNan b = true) : (rvFminmax pick f a b).1 = fmt.canonicalNan := by
  simp [rvFminmax, ha, hb]

theorem rvFminmax_left (ha : isNan a = true) (hb : isNan b = false) : (rvFminmax pick f a b).1 = b := by
  simp [rvFminmax, ha, hb]

theorem rvFminmax_right (ha : isNan a = false) (hb : isNan b = true) : (rvFminmax pick f a b).1 = a := by
  simp [rvFminmax, ha, hb]

/-- the answer by which an operand is picked: the sign of the first where the two compare equal, else the comparison -/
def firstBelow (a b : BitVec fmt.width) : Bool :=
  if ((SoftFloat.ops fmt).eq a b).1 then isNegative a else ((SoftFloat.ops fmt).lt a b).1

theorem rvFminmax_numbers (ha : isNan a = false) (hb : isNan b = false) :
    (rvFminmax pick f a b).1 = pick (firstBelow a b) a b := by
  unfold rvFminmax firstBelow
  simp only [ha, hb, Bool.and_self, Bool.false_eq_true, if_false]
  split_ifs <;> rfl

/-- it says which operand is below the other -/
theorem firstBelow_totalLe (hcmp : ComparesIeee fmt) (ha : isNan a = false) (hb : isNan b = false) :
    if firstBelow a b then totalLe a b else totalLe b a := by
  have heq := hcmp.eq a b ha hb
  have hlt := hcmp.lt a b ha hb
  unfold firstBelow
  cases hcase : ((SoftFloat.ops fmt).eq a b).1 with
  | true =>
    have hvalue := heq.1 hcase
    rw [if_pos rfl]
    split_ifs with hneg
    · exact .inr ⟨hvalue, fun _ => hneg⟩
    · exact .inr ⟨hvalue.symm, fun h => absurd h hneg⟩
  | false =>
    have hne : ieeeValue a ≠ ieeeValue b := fun h => absurd (hcase.symm.trans (heq.2 h)) Bool.false_ne_true
    rw [if_neg Bool.false_ne_true]
    split_ifs with hless
    · exact .inl (hlt.1 hless)
    · exact .inl ((not_lt.1 (mt hlt.2 hless)).lt_of_ne hne.symm)

/-- **The minimum is a lower bound of both, and one of them.** -/
theorem rvFmin_le (hcmp : ComparesIeee fmt) (ha : isNan a = false) (hb : isNan b = false) :
    ((rvFmin f a b).1 = a ∨ (rvFmin f a b).1 = b) ∧ totalLe (rvFmin f a b).1 a ∧ totalLe (rvFmin f a b).1 b := by
  have hfirst := firstBelow_totalLe hcmp ha hb
  rw [rvFmin, rvFminmax_numbers ha hb]
  split_ifs at hfirst ⊢ with h
  · exact ⟨.inl rfl, totalLe_refl a, hfirst⟩
  · exact ⟨.inr rfl, hfirst, totalLe_refl b⟩

/-- **The maximum is an upper bound of both, and one of them.** -/
theorem rvFmax_ge (hcmp : ComparesIeee fmt) (ha : isNan a = false) (hb : isNan b = false) :
    ((rvFmax f a b).1 = a ∨ (rvFmax f a b).1 = b) ∧ totalLe a (rvFmax f a b).1 ∧ totalLe b (rvFmax f a b).1 := by
  have hfirst := firstBelow_totalLe hcmp ha hb
  rw [rvFmax, rvFminmax_numbers ha hb]
  split_ifs at hfirst ⊢ with h
  · exact ⟨.inr rfl, hfirst, totalLe_refl b⟩
  · exact ⟨.inl rfl, totalLe_refl a, hfirst⟩

/-- minimumNumber and maximumNumber, each with its order: what holds of the routine at the operands a and b -/
structure NumberLaw (fn : Fpu → BitVec fmt.width → BitVec fmt.width → BitVec fmt.width × Fpu)
    (le : BitVec fmt.width → BitVec fmt.width → Prop) (f : Fpu) (a b : BitVec fmt.width) : Prop where
  comm_value : (fn f a b).1 = (fn f b a).1
  comm_flags : (fn f a b).2.fcsr = (fn f b a).2.fcsr
  two_nans : isNan a = true → isNan b = true → (fn f a b).1 = fmt.canonicalNan
  left_nan : isNan a = true → isNan b = false → (fn f a b).1 = b
  right_nan : isNan a = false → isNan b = true → (fn f a b).1 = a
  numbers : isNan a = false → isNan b = false →
    ((fn f a b).1 = a ∨ (fn f a b).1 = b) ∧ le (fn f a b).1 a ∧ le (fn f a b).1 b
  /-- NV is bit 4 -/
  flags : (fn f a b).2.fcsr = if isSignalingNan a || isSignalingNan b then f.fcsr ||| 0b10000 else f.fcsr

/-- the law follows from the case without a NaN -/
theorem NumberLaw.of_numbers {le : BitVec fmt.width → BitVec fmt.width → Prop}
    (hanti : ∀ {x y}, isNan x = false → isNan y = false → le x y → le y x → x = y)
    (hnum : ∀ {x y}, isNan x = false → isNan y = false → ((rvFminmax pick f x y).1 = x ∨ (rvFminmax pick f x y).1 = y) ∧
      le (rvFminmax pick f x y).1 x ∧ le (rvFminmax pick f x y).1 y) : NumberLaw (rvFminmax pick) le f a b where
  comm_value := by
    cases ha : isNan a with
    | true =>
      cases hb : isNan b with
      | true => rw [rvFminmax_two ha hb, rvFminmax_two hb ha]
      | false => rw [rvFminmax_left ha hb, rvFminmax_right hb ha]
    | false =>
      cases hb : isNan b with
      | true => rw [rvFminmax_right ha hb, rvFminmax_left hb ha]
      | false =>
        obtain ⟨hmem, hle, hle'⟩ := hnum ha hb
        obtain ⟨hmem', hge, hge'⟩ := hnum hb ha
        -- each result is one of the operands, and below the other result
        have hone : ∀ {x}, x = a ∨ x = b → isNan x = false := by
          rintro x (rfl | rfl)
          · exact ha
          · exact hb
        refine hanti (hone hmem) (hone hmem'.symm) ?_ ?_
        · rcases hmem' with h | h <;> rw [h]
          · exact hle'
          · exact hle
        · rcases hmem with h | h <;> rw [h]
          · exact hge'
          · exact hge
  comm_flags := by rw [rvFminmax_fcsr, rvFminmax_fcsr, Bool.or_comm]
  two_nans := rvFminmax_two
  left_nan := rvFminmax_left
  right_nan := rvFminmax_right
  numbers := hnum
  flags := rvFminmax_fcsr f a b

/-- **FP minimum and maximum.** -/
theorem fmin_fmax_ieee (hcmp : ComparesIeee fmt) (f : Fpu) (a b : BitVec fmt.width) :
    NumberLaw rvFmin totalLe f a b ∧ NumberLaw rvFmax (fun x y => totalLe y x) f a b :=
  ⟨.of_numbers totalLe_antisymm (rvFmin_le hcmp),
    .of_numbers (fun hx hy h h' => totalLe_antisymm hx hy h' h) (rvFmax_ge hcmp)⟩

/-- the instructions run these routines on their registers -/
theorem doFminmax_eq (s : Machine) (rs2 rs1 : Reg) (op : BitVec 3) (rd : Reg) : doFminmax fmt s rs2 rs1 op rd =
    minmaxOp fmt (if op = 0 then rvFmin else rvFmax) s rs2 rs1 rd := by
  unfold doFminmax
  by_cases h : op = 0
  · simp only [if_pos h]
    cases fmt <;> rfl
  · simp only [if_neg h]
    cases fmt <;> rfl

end

/-- comparisons of numbers, for operands that are not NaN -/
@[reducible] def numberFloat : SoftFloat where
  ops fmt :=
    { noFloat.ops fmt with
      eq := fun a b => (ieeeValue a = ieeeValue b, 0)
      lt := fun a b => (ieeeValue a < ieeeValue b, 0) }
  convert := noFloat.convert

/-- -0 and +0 in single precision -/
theorem fmin_fmax_zeros :
    let f := (machineInit (fun _ => 0) (fun _ => 0) 0).fpu
    @NumberLaw .S (@rvFmin numberFloat .S) totalLe f 0x80000000 0 ∧
      @NumberLaw .S (@rvFmax numberFloat .S) (fun x y => totalLe y x) f 0x80000000 0 :=
  @fmin_fmax_ieee numberFloat .S
    (@ComparesIeee.mk numberFloat .S (fun _ _ _ _ => decide_eq_true_iff) fun _ _ _ _ => decide_eq_true_iff) _ _ _

end RiscvEmu
