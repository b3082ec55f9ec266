/-
Loops that may not end.

A loop is its body: from a state, go on with another or leave with a result. `run` is the loop with a bound on the
iterations, `Returns` the loop without one. Results:
- `Returns.unique`: a loop leaves with one result;
- `Returns.rule`: a loop that keeps an invariant leaves with what the invariant promises;
- `returns_of_variant`: a loop that keeps an invariant and counts down leaves;
- `not_returns_of_invariant`: a loop that keeps an invariant under which it goes on never leaves.
-/
import Mathlib.Data.Nat.Basic

namespace WhileLoop

variable {S R : Type}

/-- at most n iterations; none when the loop is still going on -/
def run (body : S → S ⊕ R) : ℕ → S → Option R
  | 0, _ => none
  | n + 1, s =>
    match body s with
    | .inl t => run body n t
    | .inr r => some r

/-- begun in s, the loop leaves with r -/
def Returns (body : S → S ⊕ R) (s : S) (r : R) : Prop := ∃ n, run body n s = some r

section
variable {body : S → S ⊕ R} {s t : S} {r r' : R} {n : ℕ}

theorem run_inl (h : body s = .inl t) : run body (n + 1) s = run body n t := by rw [run, h]

theorem run_inr (h : body s = .inr r) : run body (n + 1) s = some r := by rw [run, h]

/-- more iterations allowed, the same result -/
theorem run_mono {m : ℕ} (h : run body n s = some r) (hm : n ≤ m) : run body m s = some r := by
  induction n generalizing s m with
  | zero => cases h
  | succ n ih =>
    obtain ⟨m, rfl⟩ := Nat.exists_eq_add_of_le' hm
    cases hb : body s with
    | inl t =>
      rw [run_inl hb] at h
      rw [← Nat.add_assoc, run_inl hb]
      exact ih h (Nat.le_add_left n m)
    | inr r' =>
      rw [run_inr hb] at h
      rw [← Nat.add_assoc, run_inr hb, h]

theorem Returns.unique (h : Returns body s r) (h' : Returns body s r') : r = r' := by
  obtain ⟨n, hn⟩ := h
  obtain ⟨m, hm⟩ := h'
  have hn := run_mono hn (Nat.le_max_left n m)
  have hm := run_mono hm (Nat.le_max_right n m)
  exact Option.some.inj (hn.symm.trans hm)

theorem returns_inr (h : body s = .inr r) : Returns body s r := ⟨1, run_inr h⟩

theorem returns_inl (h : body s = .inl t) (ht : Returns body t r) : Returns body s r := by
  obtain ⟨n, hn⟩ := ht
  exact ⟨n + 1, (run_inl h).trans hn⟩

variable {I : S → Prop}

/-- a loop that keeps an invariant leaves with what the invariant promises -/
theorem Returns.rule {Q : R → Prop} (hr : Returns body s r) (hstep : ∀ s t, I s → body s = .inl t → I t)
    (hend : ∀ s r, I s → body s = .inr r → Q r) (h0 : I s) : Q r := by
  obtain ⟨n, hn⟩ := hr
  induction n generalizing s with
  | zero => cases hn
  | succ n ih =>
    cases hb : body s with
    | inl t =>
      rw [run_inl hb] at hn
      exact ih (hstep s t h0 hb) hn
    | inr r' =>
      rw [run_inr hb] at hn
      obtain rfl := Option.some.inj hn
      exact hend s r' h0 hb

/-- a loop that keeps an invariant and counts down leaves -/
theorem returns_of_variant (variant : S → ℕ) (hstep : ∀ s t, I s → body s = .inl t → I t ∧ variant t < variant s)
    (h0 : I s) : ∃ r, Returns body s r := by
  induction hv : variant s using Nat.strong_induction_on generalizing s with
  | _ v ih =>
    subst hv
    cases hb : body s with
    | inl t =>
      obtain ⟨hi, hlt⟩ := hstep s t h0 hb
      obtain ⟨r, hr⟩ := ih _ hlt hi rfl
      exact ⟨r, returns_inl hb hr⟩
    | inr r => exact ⟨r, returns_inr hb⟩

/-- a loop that keeps an invariant under which it goes on never leaves -/
theorem not_returns_of_invariant (hstep : ∀ s, I s → ∃ t, body s = .inl t ∧ I t) (h0 : I s) (r : R) :
    ¬ Returns body s r := by
  intro hx
  obtain ⟨n, hn⟩ := hx
  induction n generalizing s with
  | zero => cases hn
  | succ n ih =>
    obtain ⟨t, hb, ht⟩ := hstep s h0
    rw [run_inl hb] at hn
    exact ih ht hn

end

end WhileLoop
