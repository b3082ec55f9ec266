/-
Binary interchange formats.

A pattern of a format with e exponent bits and m mantissa bits is a natural number below 2 ^ (e + m + 1): the sign, the
exponent field, the mantissa. The numbers a format holds are multiples of its smallest one, so a finite pattern is an
integer times a power of two. Results:
- `scaled_strictMono`: the exponent field and the mantissa, read as one number, order the magnitudes;
- `extended_lt_iff`, `extended_eq_iff`: comparing two patterns that are not NaN, infinities and the two zeros included, is
  comparing their sign-magnitude integers;
- `totalLe_total`, `totalLe_trans`, `totalLe_antisymm`: the order that also puts -0 before +0 is a total order.
-/
import Mathlib.Algebra.Order.Field.Power
import Mathlib.Data.Rat.Cast.Order
import Mathlib.Order.WithBot
import Mathlib.Tactic.Linarith
import Mathlib.Tactic.Ring
import Mathlib.Tactic.Positivity

namespace Ieee

structure Format where
  expWidth : ℕ
  mantWidth : ℕ
  expWidth_pos : 0 < expWidth

section
variable (F : Format) (n : ℕ)

def expField : ℕ := n / 2 ^ F.mantWidth % 2 ^ F.expWidth
def mantissa : ℕ := n % 2 ^ F.mantWidth

/-- the pattern without its sign -/
def magnitude : ℕ := n % 2 ^ (F.expWidth + F.mantWidth)

def isNegative : Bool := decide (2 ^ (F.expWidth + F.mantWidth) ≤ n)
def isNan : Bool := decide (expField F n = 2 ^ F.expWidth - 1 ∧ mantissa F n ≠ 0)
def isInf : Bool := decide (expField F n = 2 ^ F.expWidth - 1 ∧ mantissa F n = 0)

/-- the magnitude of an infinity -/
def infMagnitude : ℕ := (2 ^ F.expWidth - 1) * 2 ^ F.mantWidth

/-- the exponent of the smallest positive number: 1 - bias - m -/
def minExponent : ℤ := 2 - 2 ^ (F.expWidth - 1) - F.mantWidth

/-- the magnitude as a multiple of the smallest positive number: no hidden bit where the exponent field is zero -/
def scaled (mag : ℕ) : ℕ :=
  if mag / 2 ^ F.mantWidth = 0 then mag % 2 ^ F.mantWidth
  else (2 ^ F.mantWidth + mag % 2 ^ F.mantWidth) * 2 ^ (mag / 2 ^ F.mantWidth - 1)

/-- the number a finite pattern stands for -/
def value : ℚ :=
  (if isNegative F n then -1 else 1) * (scaled F (magnitude F n) * (2 : ℚ) ^ minExponent F)

/-- with the two infinities -/
def extended : WithBot (WithTop ℚ) :=
  if isInf F n then if isNegative F n then ⊥ else ((⊤ : WithTop ℚ) : WithBot (WithTop ℚ))
  else ((value F n : WithTop ℚ) : WithBot (WithTop ℚ))

/-- the sign-magnitude integer -/
def signed : ℤ := if isNegative F n then -(magnitude F n : ℤ) else magnitude F n

end

section
variable {F : Format} {a b c : ℕ}

/-! ## Magnitudes -/

theorem scaled_lt_pow (mag : ℕ) : scaled F mag < 2 ^ F.mantWidth * 2 ^ (mag / 2 ^ F.mantWidth) := by
  have hM : mag % 2 ^ F.mantWidth < 2 ^ F.mantWidth := Nat.mod_lt _ (Nat.two_pow_pos _)
  unfold scaled
  split_ifs with h
  · rw [h]
    simpa using hM
  · have hpow : 2 ^ (mag / 2 ^ F.mantWidth) = 2 * 2 ^ (mag / 2 ^ F.mantWidth - 1) := by
      rw [← pow_succ', Nat.sub_add_cancel (Nat.one_le_iff_ne_zero.2 h)]
    have hsum : 2 ^ F.mantWidth + mag % 2 ^ F.mantWidth < 2 ^ F.mantWidth * 2 := by linarith
    rw [hpow, ← mul_assoc]
    exact Nat.mul_lt_mul_of_pos_right hsum (Nat.two_pow_pos _)

/-- **A larger magnitude is a larger number.** -/
theorem scaled_strictMono : StrictMono (scaled F) := by
  intro x y hxy
  have hle : x / 2 ^ F.mantWidth ≤ y / 2 ^ F.mantWidth := Nat.div_le_div_right hxy.le
  rcases Nat.lt_or_eq_of_le hle with hlt | heq
  · -- a larger exponent field: the powers of two between them decide
    have hne : y / 2 ^ F.mantWidth ≠ 0 := Nat.ne_zero_of_lt hlt
    refine lt_of_lt_of_le (scaled_lt_pow x) ?_
    rw [scaled, if_neg hne]
    exact Nat.mul_le_mul (Nat.le_add_right _ _) (Nat.pow_le_pow_right (by decide) (Nat.le_sub_one_of_lt hlt))
  · have hx := Nat.div_add_mod x (2 ^ F.mantWidth)
    have hy := Nat.div_add_mod y (2 ^ F.mantWidth)
    have hM : x % 2 ^ F.mantWidth < y % 2 ^ F.mantWidth := by
      rw [heq] at hx
      linarith
    unfold scaled
    rw [heq]
    split_ifs
    · exact hM
    · exact Nat.mul_lt_mul_of_pos_right (Nat.add_lt_add_left hM _) (Nat.two_pow_pos _)

theorem scaled_zero : scaled F 0 = 0 := by simp [scaled]

theorem magnitude_div (n : ℕ) : magnitude F n / 2 ^ F.mantWidth = expField F n := by
  rw [magnitude, expField, pow_add, mul_comm, Nat.mod_mul_right_div_self]

theorem magnitude_mod (n : ℕ) : magnitude F n % 2 ^ F.mantWidth = mantissa F n := by
  rw [magnitude, mantissa, pow_add, Nat.mod_mod_of_dvd _ (Dvd.intro_left _ rfl)]

theorem magnitude_eq (n : ℕ) : magnitude F n = expField F n * 2 ^ F.mantWidth + mantissa F n := by
  rw [← magnitude_div, ← magnitude_mod, mul_comm]
  exact (Nat.div_add_mod _ _).symm

theorem isInf_iff (h : isNan F a = false) : isInf F a = true ↔ magnitude F a = infMagnitude F := by
  have hmag := magnitude_eq (F := F) a
  simp only [isNan, isInf, decide_eq_true_eq, decide_eq_false_iff_not, not_and, not_not] at *
  constructor
  · rintro ⟨he, hm⟩
    rw [hmag, he, hm]
    rfl
  · intro heq
    have hm : mantissa F a < 2 ^ F.mantWidth := Nat.mod_lt _ (Nat.two_pow_pos _)
    have he : expField F a = 2 ^ F.expWidth - 1 := by
      rw [← magnitude_div, heq, infMagnitude, Nat.mul_div_cancel _ (Nat.two_pow_pos _)]
    exact ⟨he, h he⟩

/-- an infinity is the largest magnitude that is not NaN -/
theorem magnitude_le (h : isNan F a = false) : magnitude F a ≤ infMagnitude F := by
  have hmag := magnitude_eq (F := F) a
  have hE : expField F a < 2 ^ F.expWidth := Nat.mod_lt _ (Nat.two_pow_pos _)
  have hM : mantissa F a < 2 ^ F.mantWidth := Nat.mod_lt _ (Nat.two_pow_pos _)
  simp only [isNan, decide_eq_false_iff_not, not_and, not_not] at h
  rw [hmag, infMagnitude]
  by_cases he : expField F a = 2 ^ F.expWidth - 1
  · rw [he, h he, add_zero]
  · have hsucc : expField F a + 1 ≤ 2 ^ F.expWidth - 1 := by omega
    calc expField F a * 2 ^ F.mantWidth + mantissa F a
      _ ≤ (expField F a + 1) * 2 ^ F.mantWidth := by rw [add_mul, one_mul]; exact Nat.add_le_add_left hM.le _
      _ ≤ (2 ^ F.expWidth - 1) * 2 ^ F.mantWidth := Nat.mul_le_mul_right _ hsucc

/-! ## Comparison -/

theorem value_neg (h : isNegative F a = true) : value F a = -(scaled F (magnitude F a) * (2 : ℚ) ^ minExponent F) := by
  rw [value, if_pos h]
  ring

theorem value_nonneg (h : isNegative F a = false) : value F a = scaled F (magnitude F a) * (2 : ℚ) ^ minExponent F := by
  rw [value, h, if_neg Bool.false_ne_true]
  ring

theorem extended_inf (h : isInf F a = true) : extended F a = if isNegative F a then ⊥ else ((⊤ : WithTop ℚ) : WithBot (WithTop ℚ)) :=
  if_pos h

theorem extended_finite (h : isInf F a = false) : extended F a = ((value F a : WithTop ℚ) : WithBot (WithTop ℚ)) := by
  rw [extended, h, if_neg Bool.false_ne_true]

/-- numbers compare as their magnitudes do -/
theorem scaled_mul_lt {x y : ℕ} (h : x < y) :
    (scaled F x : ℚ) * (2 : ℚ) ^ minExponent F < scaled F y * (2 : ℚ) ^ minExponent F := by
  have hpos : (0 : ℚ) < (2 : ℚ) ^ minExponent F := by positivity
  exact mul_lt_mul_of_pos_right (Nat.cast_lt.2 (scaled_strictMono h)) hpos

theorem scaled_mul_nonneg (x : ℕ) : (0 : ℚ) ≤ scaled F x * (2 : ℚ) ^ minExponent F := by positivity

theorem isInf_of_lt (ha : isNan F a = false) (hlt : magnitude F a < infMagnitude F) : isInf F a = false := by
  by_contra hinf
  exact hlt.ne ((isInf_iff ha).1 (Bool.eq_true_of_not_eq_false hinf))

theorem extended_lt_nonneg (ha : isNan F a = false) (hb : isNan F b = false) (hna : isNegative F a = false)
    (hnb : isNegative F b = false) (h : magnitude F a < magnitude F b) : extended F a < extended F b := by
  have hia := isInf_of_lt ha (h.trans_le (magnitude_le hb))
  rw [extended_finite hia, value_nonneg hna]
  cases hib : isInf F b with
  | true =>
    rw [extended_inf hib, hnb]
    exact WithBot.coe_lt_coe.2 (WithTop.coe_lt_top _)
  | false =>
    rw [extended_finite hib, value_nonneg hnb]
    exact WithBot.coe_lt_coe.2 (WithTop.coe_lt_coe.2 (scaled_mul_lt h))

theorem extended_lt_neg (ha : isNan F a = false) (hb : isNan F b = false) (hna : isNegative F a = true)
    (hnb : isNegative F b = true) (h : magnitude F b < magnitude F a) : extended F a < extended F b := by
  have hib := isInf_of_lt hb (h.trans_le (magnitude_le ha))
  rw [extended_finite hib, value_neg hnb]
  cases hia : isInf F a with
  | true =>
    rw [extended_inf hia, hna]
    exact WithBot.bot_lt_coe _
  | false =>
    rw [extended_finite hia, value_neg hna]
    exact WithBot.coe_lt_coe.2 (WithTop.coe_lt_coe.2 (neg_lt_neg (scaled_mul_lt h)))

/-- a negative number other than a zero, or a positive one, decides -/
theorem extended_lt_cross (hna : isNegative F a = true) (hnb : isNegative F b = false)
    (h : 0 < magnitude F a ∨ 0 < magnitude F b) : extended F a < extended F b := by
  cases hia : isInf F a with
  | true =>
    rw [extended_inf hia, hna]
    cases hib : isInf F b with
    | true =>
      rw [extended_inf hib, hnb]
      exact WithBot.bot_lt_coe _
    | false =>
      rw [extended_finite hib]
      exact WithBot.bot_lt_coe _
  | false =>
    rw [extended_finite hia, value_neg hna]
    cases hib : isInf F b with
    | true =>
      rw [extended_inf hib, hnb]
      exact WithBot.coe_lt_coe.2 (WithTop.coe_lt_top _)
    | false =>
      rw [extended_finite hib, value_nonneg hnb]
      refine WithBot.coe_lt_coe.2 (WithTop.coe_lt_coe.2 ?_)
      have hpos : ∀ {x}, 0 < magnitude F x → (0 : ℚ) < scaled F (magnitude F x) * (2 : ℚ) ^ minExponent F := by
        intro x hx
        simpa [scaled_zero] using scaled_mul_lt (F := F) hx
      have hna' := scaled_mul_nonneg (F := F) (magnitude F a)
      have hnb' := scaled_mul_nonneg (F := F) (magnitude F b)
      rcases h with h | h
      · linarith [hpos h]
      · linarith [hpos h]

/-- a larger sign-magnitude integer is a larger number -/
theorem extended_lt (ha : isNan F a = false) (hb : isNan F b = false) (h : signed F a < signed F b) :
    extended F a < extended F b := by
  unfold signed at h
  cases hna : isNegative F a with
  | false =>
    rw [hna, if_neg Bool.false_ne_true] at h
    cases hnb : isNegative F b with
    | false =>
      rw [hnb, if_neg Bool.false_ne_true] at h
      exact extended_lt_nonneg ha hb hna hnb (by omega)
    | true =>
      rw [hnb, if_pos rfl] at h
      omega
  | true =>
    rw [hna, if_pos rfl] at h
    cases hnb : isNegative F b with
    | false =>
      rw [hnb, if_neg Bool.false_ne_true] at h
      exact extended_lt_cross hna hnb (by omega)
    | true =>
      rw [hnb, if_pos rfl] at h
      exact extended_lt_neg ha hb hna hnb (by omega)

theorem infMagnitude_pos : 0 < infMagnitude F := by
  have hexp : 2 ^ 1 ≤ 2 ^ F.expWidth := Nat.pow_le_pow_right (by decide) F.expWidth_pos
  exact Nat.mul_pos (by omega) (Nat.two_pow_pos _)

theorem signed_eq (h : signed F a = signed F b) :
    magnitude F a = magnitude F b ∧ (isNegative F a = isNegative F b ∨ magnitude F a = 0) := by
  unfold signed at h
  cases hna : isNegative F a <;> cases hnb : isNegative F b <;> rw [hna, hnb] at h <;>
    simp only [if_true, Bool.false_eq_true, if_false] at h
  · exact ⟨by omega, .inl rfl⟩
  · exact ⟨by omega, .inr (by omega)⟩
  · exact ⟨by omega, .inr (by omega)⟩
  · exact ⟨by omega, .inl rfl⟩

/-- the two zeros are one number -/
theorem extended_congr (ha : isNan F a = false) (hb : isNan F b = false) (h : signed F a = signed F b) :
    extended F a = extended F b := by
  obtain ⟨hmag, hsign⟩ := signed_eq h
  have hinf : isInf F a = isInf F b := by
    rw [Bool.eq_iff_iff, isInf_iff ha, isInf_iff hb, hmag]
  have hvalue : value F a = value F b := by
    unfold value
    rcases hsign with hs | hzero
    · rw [hs, hmag]
    · rw [← hmag, hzero, scaled_zero]
      simp
  cases hia : isInf F a with
  | true =>
    have hs : isNegative F a = isNegative F b := by
      refine hsign.resolve_right ?_
      intro hzero
      exact infMagnitude_pos.ne (hzero.symm.trans ((isInf_iff ha).1 hia))
    rw [extended_inf hia, extended_inf (hinf ▸ hia), hs]
  | false => rw [extended_finite hia, extended_finite (hinf ▸ hia), hvalue]

/-- **The order of the numbers.** -/
theorem extended_lt_iff (ha : isNan F a = false) (hb : isNan F b = false) :
    extended F a < extended F b ↔ signed F a < signed F b := by
  refine ⟨?_, extended_lt ha hb⟩
  intro h
  by_contra hnot
  rcases (not_lt.1 hnot).lt_or_eq with hlt | heq
  · exact lt_asymm h (extended_lt hb ha hlt)
  · exact h.ne (extended_congr hb ha heq).symm

theorem extended_eq_iff (ha : isNan F a = false) (hb : isNan F b = false) :
    extended F a = extended F b ↔ signed F a = signed F b := by
  refine ⟨?_, extended_congr ha hb⟩
  intro h
  rcases lt_trichotomy (signed F a) (signed F b) with hlt | heq | hgt
  · exact absurd h (extended_lt ha hb hlt).ne
  · exact heq
  · exact absurd h (extended_lt hb ha hgt).ne'

/-! ## The total order -/

/-- numbers in their order, and -0 before +0 -/
def totalLe (F : Format) (a b : ℕ) : Prop :=
  extended F a < extended F b ∨ extended F a = extended F b ∧ (isNegative F b = true → isNegative F a = true)

theorem totalLe_refl (a : ℕ) : totalLe F a a := .inr ⟨rfl, id⟩

theorem totalLe_total (a b : ℕ) : totalLe F a b ∨ totalLe F b a := by
  rcases lt_trichotomy (extended F a) (extended F b) with hlt | heq | hgt
  · exact .inl (.inl hlt)
  · cases hna : isNegative F a with
    | true => exact .inl (.inr ⟨heq, fun _ => hna⟩)
    | false => exact .inr (.inr ⟨heq.symm, fun h => absurd (hna.symm.trans h) Bool.false_ne_true⟩)
  · exact .inr (.inl hgt)

theorem totalLe_trans (hab : totalLe F a b) (hbc : totalLe F b c) : totalLe F a c := by
  rcases hab with hlt | ⟨heq, hn⟩
  · rcases hbc with hlt' | ⟨heq', -⟩
    · exact .inl (hlt.trans hlt')
    · exact .inl (heq' ▸ hlt)
  · rcases hbc with hlt' | ⟨heq', hn'⟩
    · exact .inl (heq ▸ hlt')
    · exact .inr ⟨heq.trans heq', hn ∘ hn'⟩

/-- a pattern is its sign and its magnitude -/
theorem eq_of_magnitude (ha : a < 2 ^ (F.expWidth + F.mantWidth + 1)) (hb : b < 2 ^ (F.expWidth + F.mantWidth + 1))
    (hsign : isNegative F a = isNegative F b) (hmag : magnitude F a = magnitude F b) : a = b := by
  simp only [isNegative, magnitude, decide_eq_decide, pow_succ] at *
  generalize 2 ^ (F.expWidth + F.mantWidth) = u at *
  by_cases h : u ≤ a
  · have h' : u ≤ b := hsign.1 h
    rw [Nat.mod_eq_sub_mod h, Nat.mod_eq_sub_mod h', Nat.mod_eq_of_lt (by omega), Nat.mod_eq_of_lt (by omega)] at hmag
    omega
  · have h' : ¬ u ≤ b := mt hsign.2 h
    rwa [Nat.mod_eq_of_lt (by omega), Nat.mod_eq_of_lt (by omega)] at hmag

/-- **On patterns that are not NaN it is antisymmetric.** -/
theorem totalLe_antisymm (ha : a < 2 ^ (F.expWidth + F.mantWidth + 1)) (hb : b < 2 ^ (F.expWidth + F.mantWidth + 1))
    (hna : isNan F a = false) (hnb : isNan F b = false) (hab : totalLe F a b) (hba : totalLe F b a) : a = b := by
  rcases hab with hlt | ⟨heq, hn⟩
  · rcases hba with hlt' | ⟨heq', -⟩
    · exact absurd hlt' (lt_asymm hlt)
    · exact absurd heq'.symm hlt.ne
  · rcases hba with hlt' | ⟨-, hn'⟩
    · exact absurd heq.symm hlt'.ne
    · have hsign : isNegative F a = isNegative F b := Bool.eq_iff_iff.2 ⟨hn', hn⟩
      exact eq_of_magnitude ha hb hsign (signed_eq ((extended_eq_iff hna hnb).1 heq)).1

end

end Ieee
