/-
Writes scattered over a memory.

A run of n values goes to the addresses q 0 .. q (n - 1), where some values may go nowhere. It was meant for p 0 .. p (n - 1).
Results:
- `Scattered.append`: two runs, one after the other, are one run;
- `Scattered.concat`: a run and one more write;
- `Scattered.eq_iff`: a run changes nothing exactly when what it writes is there already;
- `Scattered.meant_iff`: what the memory holds is what was meant exactly when each value went to its place, or its place
  held it already and where it went held it too.
-/
import Mathlib.Tactic.Common

namespace Scatter

variable {α β : Type} {m m' : α → β} {n : ℕ} {q : ℕ → Option α} {p : ℕ → α} {b : ℕ → β}

/-- m' is m with b i at q i -/
structure Scattered (m m' : α → β) (n : ℕ) (q : ℕ → Option α) (b : ℕ → β) : Prop where
  hit : ∀ i < n, ∀ x, q i = some x → m' x = b i
  miss : ∀ x, (∀ i < n, q i ≠ some x) → m' x = m x

/-- m' is m with b i at p i -/
def Meant (m m' : α → β) (n : ℕ) (p : ℕ → α) (b : ℕ → β) : Prop :=
  (∀ i < n, m' (p i) = b i) ∧ ∀ x, (∀ i < n, x ≠ p i) → m' x = m x

/-- each value went to its place, or nothing changed by its going elsewhere -/
def Agrees (m : α → β) (n : ℕ) (q : ℕ → Option α) (p : ℕ → α) (b : ℕ → β) : Prop :=
  ∀ i < n, q i = some (p i) ∨ m (p i) = b i ∧ ∀ x, q i = some x → m x = b i

/-- one run and then another, to other places -/
theorem Scattered.append {m'' : α → β} {k : ℕ} {q' : ℕ → Option α} (h : Scattered m m' n q b)
    (h' : Scattered m' m'' k q' fun j => b (n + j)) (hd : ∀ i < n, ∀ j < k, ∀ x, q i = some x → q' j ≠ some x) :
    Scattered m m'' (n + k) (fun i => if i < n then q i else q' (i - n)) b := by
  constructor
  · intro i hi x hx
    by_cases hin : i < n
    · rw [if_pos hin] at hx
      rw [h'.miss x fun j hj => hd i hin j hj x hx]
      exact h.hit i hin x hx
    · rw [if_neg hin] at hx
      have hhit := h'.hit (i - n) (by omega) x hx
      rwa [Nat.add_sub_cancel' (Nat.not_lt.1 hin)] at hhit
  · intro x hx
    have hq : ∀ i < n, q i ≠ some x := fun i hi => by
      have := hx i (by omega)
      rwa [if_pos hi] at this
    have hq' : ∀ j < k, q' j ≠ some x := fun j hj => by
      have := hx (n + j) (by omega)
      rwa [if_neg (by omega), Nat.add_sub_cancel_left] at this
    rw [h'.miss x hq', h.miss x hq]

/-- one more write, to another place or to none -/
theorem Scattered.concat [DecidableEq α] {m'' : α → β} (h : Scattered m m' n q b)
    (hsome : ∀ x, q n = some x → m'' = Function.update m' x (b n)) (hnone : q n = none → m'' = m')
    (hd : ∀ i < n, ∀ x, q i = some x → q n ≠ some x) : Scattered m m'' (n + 1) q b := by
  have hother : ∀ x, q n ≠ some x → m'' x = m' x := by
    intro x hx
    cases hn : q n with
    | none => rw [hnone hn]
    | some y =>
      have hne : x ≠ y := fun he => hx (hn.trans (congrArg some he.symm))
      rw [hsome y hn, Function.update_of_ne hne]
  constructor
  · intro i hi x hx
    rcases Nat.lt_succ_iff_lt_or_eq.1 hi with hlt | rfl
    · rw [hother x (hd i hlt x hx)]
      exact h.hit i hlt x hx
    · rw [hsome x hx, Function.update_self]
  · intro x hx
    rw [hother x (hx n (Nat.lt_succ_self n)), h.miss x fun i hi => hx i (Nat.lt_succ_of_lt hi)]

theorem Scattered.eq_iff (h : Scattered m m' n q b) : m' = m ↔ ∀ i < n, ∀ x, q i = some x → m x = b i := by
  constructor
  · intro he i hi x hx
    rw [← h.hit i hi x hx, he]
  · intro hsame
    funext x
    by_cases hx : ∃ i < n, q i = some x
    · obtain ⟨i, hi, hqx⟩ := hx
      rw [h.hit i hi x hqx, hsame i hi x hqx]
    · exact h.miss x fun i hi hqx => hx ⟨i, hi, hqx⟩

/-- **The memory is as meant.** No value goes to the place of another. -/
theorem Scattered.meant_iff (h : Scattered m m' n q b) (hq : ∀ i < n, ∀ j < n, q i = some (p j) → i = j) :
    Meant m m' n p b ↔ Agrees m n q p b := by
  constructor
  · rintro ⟨hhit, hmiss⟩ i hi
    by_cases hp : q i = some (p i)
    · exact .inl hp
    · refine .inr ⟨?_, ?_⟩
      · -- nothing goes to the place of i
        have hno : ∀ j < n, q j ≠ some (p i) := fun j hj hj' => by
          obtain rfl := hq j hj i hi hj'
          exact hp hj'
        rw [← h.miss _ hno]
        exact hhit i hi
      · -- i goes to nobody's place
        intro x hx
        have hno : ∀ j < n, x ≠ p j := fun j hj hj' => by
          rw [hj'] at hx
          obtain rfl := hq i hi j hj hx
          exact hp hx
        rw [← hmiss x hno]
        exact h.hit i hi x hx
  · intro ha
    refine ⟨?_, ?_⟩
    · intro i hi
      by_cases hp : q i = some (p i)
      · exact h.hit i hi _ hp
      · have hno : ∀ j < n, q j ≠ some (p i) := fun j hj hj' => by
          obtain rfl := hq j hj i hi hj'
          exact hp hj'
        rw [h.miss _ hno]
        exact ((ha i hi).resolve_left hp).1
    · intro x hx
      by_cases hq' : ∃ i < n, q i = some x
      · obtain ⟨i, hi, hqx⟩ := hq'
        have hp : q i ≠ some (p i) := fun hp => hx i hi (Option.some.inj (hqx.symm.trans hp))
        rw [h.hit i hi x hqx]
        exact (((ha i hi).resolve_left hp).2 x hqx).symm
      · exact h.miss x fun i hi hqx => hq' ⟨i, hi, hqx⟩

end Scatter
