/-
Loops that go on after a step has failed.

`after` runs n steps whatever they do. `checked` is the loop one would have meant: it stops at the first step that cannot
be made. `Follows` relates one step of each; the rules carry it to the loops. Results:
- `Follows.of_some`, `Follows.of_none`: the checked loop completes exactly when no step of the blind one fails, and then
  the two end alike;
- `Logs.one_iff`: where each failure is logged, the log grows by one exactly when one step fails.
-/
import Mathlib.Algebra.Order.Group.Nat
import Mathlib.Data.Finset.Card
import Mathlib.Data.Finset.Range

namespace BlindLoop

variable {S T A : Type}

/-- n steps, one after the other -/
def after (step : ℕ → S → S) (s : S) (n : ℕ) : S := (List.range n).foldl (fun s i => step i s) s

/-- n steps, up to the first that cannot be made -/
def checked (tryStep : ℕ → T → Option T) (t : T) (n : ℕ) : Option T := (List.range n).foldlM (fun t i => tryStep i t) t

section
variable (step : ℕ → S → S) (tryStep : ℕ → T → Option T) (s : S) (t : T) (n : ℕ)

@[simp] theorem after_zero : after step s 0 = s := rfl

theorem after_succ : after step s (n + 1) = step n (after step s n) := by
  unfold after
  rw [List.range_succ, List.foldl_append, List.foldl_cons, List.foldl_nil]

@[simp] theorem checked_zero : checked tryStep t 0 = some t := rfl

theorem checked_succ : checked tryStep t (n + 1) = (checked tryStep t n).bind (tryStep n) := by
  unfold checked
  rw [List.range_succ, List.foldlM_append]
  simp only [List.foldlM_cons, List.foldlM_nil, Option.bind_eq_bind, Option.pure_def, Option.bind_fun_some]

/-- a loop whose steps can always be made -/
theorem checked_some : checked (fun i s => some (step i s)) s n = some (after step s n) := by
  induction n with
  | zero => rfl
  | succ n ih => rw [checked_succ, ih, after_succ, Option.bind_some]

/-- what no step changes -/
theorem after_keeps {f : S → A} (h : ∀ i s, f (step i s) = f s) : f (after step s n) = f s := by
  induction n with
  | zero => rfl
  | succ n ih => rw [after_succ, h, ih]

/-- a loop in two parts -/
theorem after_add (m : ℕ) : after step s (m + n) = after (fun i => step (m + i)) (after step s m) n := by
  induction n with
  | zero => rfl
  | succ n ih => rw [← Nat.add_assoc, after_succ, after_succ, ih]

theorem after_congr {step' : ℕ → S → S} (h : ∀ i < n, step i = step' i) : after step s n = after step' s n := by
  induction n with
  | zero => rfl
  | succ n ih =>
    rw [after_succ, after_succ, ih fun i hi => h i (Nat.lt_succ_of_lt hi), h n (Nat.lt_succ_self n)]

/-- what the checked loop keeps up, as long as it runs -/
theorem checked_invariant {I : ℕ → T → Prop} (h : ∀ i t t', I i t → tryStep i t = some t' → I (i + 1) t') (h0 : I 0 t)
    {t' : T} (hc : checked tryStep t n = some t') : I n t' := by
  induction n generalizing t' with
  | zero => exact Option.some.inj hc ▸ h0
  | succ n ih =>
    rw [checked_succ] at hc
    obtain ⟨u, hu, hstep⟩ := Option.bind_eq_some_iff.1 hc
    exact h n u t' (ih hu) hstep

/-- two checked loops whose steps agree where an invariant holds -/
theorem checked_congr {tryStep' : ℕ → T → Option T} {I : T → Prop} (h : ∀ i t, I t → tryStep i t = tryStep' i t)
    (hI : ∀ i t t', I t → tryStep i t = some t' → I t') (h0 : I t) : checked tryStep t n = checked tryStep' t n := by
  induction n with
  | zero => rfl
  | succ n ih =>
    rw [checked_succ, checked_succ, ← ih]
    cases hn : checked tryStep t n with
    | none => rfl
    | some u => exact h n u (checked_invariant (I := fun _ => I) tryStep t n hI h0 hn)

end

/-! ## Against the checked loop -/

/-- from related states, the blind step fails where the checked one stops, and goes on as it does elsewhere -/
structure Follows (step : ℕ → S → S) (tryStep : ℕ → T → Option T) (fails : ℕ → S → Prop) (R : ℕ → S → T → Prop) : Prop where
  ok : ∀ i s t t', R i s t → tryStep i t = some t' → ¬ fails i s ∧ R (i + 1) (step i s) t'
  fail : ∀ i s t, R i s t → tryStep i t = none → fails i s

section
variable {step : ℕ → S → S} {tryStep : ℕ → T → Option T} {fails : ℕ → S → Prop} {R : ℕ → S → T → Prop} {s : S} {t : T}
variable {n : ℕ}

theorem Follows.of_some (h : Follows step tryStep fails R) (h0 : R 0 s t) {t' : T} (hc : checked tryStep t n = some t') :
    (∀ i < n, ¬ fails i (after step s i)) ∧ R n (after step s n) t' := by
  induction n generalizing t' with
  | zero =>
    obtain rfl := Option.some.inj hc
    exact ⟨nofun, h0⟩
  | succ n ih =>
    rw [checked_succ] at hc
    obtain ⟨u, hu, hstep⟩ := Option.bind_eq_some_iff.1 hc
    obtain ⟨hquiet, hR⟩ := ih hu
    obtain ⟨hn, hR'⟩ := h.ok n _ u t' hR hstep
    refine ⟨fun i hi => ?_, by rwa [after_succ]⟩
    rcases Nat.lt_succ_iff_lt_or_eq.1 hi with hlt | rfl
    · exact hquiet i hlt
    · exact hn

theorem Follows.of_none (h : Follows step tryStep fails R) (h0 : R 0 s t) (hc : checked tryStep t n = none) :
    ∃ i < n, fails i (after step s i) := by
  induction n with
  | zero => exact nomatch hc
  | succ n ih =>
    cases hn : checked tryStep t n with
    | none =>
      obtain ⟨i, hi, hfail⟩ := ih hn
      exact ⟨i, Nat.lt_succ_of_lt hi, hfail⟩
    | some u =>
      -- the step that stops the loop is the last one
      rw [checked_succ, hn, Option.bind_some] at hc
      exact ⟨n, Nat.lt_succ_self n, h.fail n _ u (h.of_some h0 hn).2 hc⟩

theorem Follows.none_iff (h : Follows step tryStep fails R) (h0 : R 0 s t) :
    checked tryStep t n = none ↔ ∃ i < n, fails i (after step s i) := by
  refine ⟨h.of_none h0, ?_⟩
  rintro ⟨i, hi, hfail⟩
  cases hn : checked tryStep t n with
  | none => rfl
  | some u => exact absurd hfail ((h.of_some h0 hn).1 i hi)

end

/-! ## The failures, counted -/

/-- a step that fails puts one entry of its kind on the log, and no other step does anything to it -/
structure Logs (step : ℕ → S → S) (fails : ℕ → S → Prop) (log : S → List A) (kind : A → Prop) : Prop where
  fail : ∀ i s, fails i s → ∃ x, log (step i s) = x :: log s ∧ kind x
  ok : ∀ i s, ¬ fails i s → log (step i s) = log s

section
variable {step : ℕ → S → S} {fails : ℕ → S → Prop} {log : S → List A} {kind : A → Prop}

open Classical in
/-- the steps that fail -/
noncomputable def failures (step : ℕ → S → S) (fails : ℕ → S → Prop) (s : S) (n : ℕ) : Finset ℕ :=
  (Finset.range n).filter fun i => fails i (after step s i)

theorem mem_failures {s : S} {n i : ℕ} : i ∈ failures step fails s n ↔ i < n ∧ fails i (after step s i) := by
  simp only [failures, Finset.mem_filter, Finset.mem_range]

open Classical in
theorem failures_succ (s : S) (n : ℕ) : failures step fails s (n + 1) =
    if fails n (after step s n) then insert n (failures step fails s n) else failures step fails s n := by
  unfold failures
  rw [Finset.range_add_one, Finset.filter_insert]

theorem card_failures_succ (s : S) (n : ℕ) (h : fails n (after step s n)) :
    (failures step fails s (n + 1)).card = (failures step fails s n).card + 1 := by
  have hn : n ∉ failures step fails s n := fun hn => (mem_failures.1 hn).1.false
  rw [failures_succ, if_pos h, Finset.card_insert_of_notMem hn]

/-- the log afterwards: one entry for each failure -/
theorem Logs.after (h : Logs step fails log kind) (s : S) (n : ℕ) :
    ∃ l, log (after step s n) = l ++ log s ∧ (∀ x ∈ l, kind x) ∧ l.length = (failures step fails s n).card := by
  induction n with
  | zero => exact ⟨[], rfl, nofun, rfl⟩
  | succ n ih =>
    obtain ⟨l, hl, hkind, hlen⟩ := ih
    by_cases hf : fails n (BlindLoop.after step s n)
    · obtain ⟨x, hx, hxk⟩ := h.fail n _ hf
      refine ⟨x :: l, ?_, ?_, ?_⟩
      · rw [after_succ, hx, hl, List.cons_append]
      · exact List.forall_mem_cons.2 ⟨hxk, hkind⟩
      · rw [List.length_cons, hlen, card_failures_succ s n hf]
    · refine ⟨l, ?_, hkind, ?_⟩
      · rw [after_succ, h.ok n _ hf, hl]
      · rw [hlen, failures_succ, if_neg hf]

/-- **One entry, one failure.** -/
theorem Logs.one_iff (h : Logs step fails log kind) (s : S) (n : ℕ) :
    (∃ x, log (BlindLoop.after step s n) = x :: log s ∧ kind x) ↔ ∃! i, i < n ∧ fails i (BlindLoop.after step s i) := by
  obtain ⟨l, hl, hkind, hlen⟩ := h.after s n
  have hone : (∃ x, log (BlindLoop.after step s n) = x :: log s ∧ kind x) ↔ l.length = 1 := by
    rw [hl]
    constructor
    · rintro ⟨x, hx, -⟩
      have heq := congrArg List.length hx
      rw [List.length_append, List.length_cons] at heq
      omega
    · intro h1
      obtain ⟨x, rfl⟩ := List.length_eq_one_iff.1 h1
      exact ⟨x, rfl, hkind x (List.mem_singleton_self x)⟩
  rw [hone, hlen, Finset.card_eq_one]
  constructor
  · rintro ⟨i, hi⟩
    refine ⟨i, mem_failures.1 (hi ▸ Finset.mem_singleton_self i), ?_⟩
    intro j hj
    exact Finset.mem_singleton.1 (hi ▸ mem_failures.2 hj)
  · rintro ⟨i, hi, huniq⟩
    refine ⟨i, Finset.eq_singleton_iff_unique_mem.2 ⟨mem_failures.2 hi, ?_⟩⟩
    intro j hj
    exact huniq j (mem_failures.1 hj)

end

end BlindLoop
