/-
Streams with an escape that quits, over arbitrary symbols.

In `scan` an escape before a quitting symbol ends the stream, every other symbol passes, and an escape with nothing behind it yet
is held. Results:
- `scan_append`: a scan can stop anywhere and go on from what it holds, so that it does not depend on how a stream arrives;
- `scan_accounts`: what passed and what is held are the stream, up to the escape that quits.
-/
import Mathlib.Tactic.Common

namespace EscapeScan

variable {α : Type*}

/-- how far a scan has come -/
structure Scan (α : Type*) where
  passed : List α
  held : Bool
  quit : Bool

def Scan.cons (b : α) (r : Scan α) : Scan α := { r with passed := b :: r.passed }

def Scan.prepend (xs : List α) (r : Scan α) : Scan α := { r with passed := xs ++ r.passed }

/-- what a scan has of a stream: before the quit all symbols passed, and without one all but the escape held -/
def Scan.Accounts (esc : α) (quits : α → Bool) (r : Scan α) (xs : List α) : Prop :=
  if r.quit then ∃ q rest, quits q ∧ xs = r.passed ++ esc :: q :: rest else xs = r.passed ++ if r.held then [esc] else []

theorem Scan.Accounts.cons {esc : α} {quits : α → Bool} {r : Scan α} {xs : List α} (h : r.Accounts esc quits xs) (b : α) :
    (r.cons b).Accounts esc quits (b :: xs) := by
  unfold Accounts at h ⊢
  change if r.quit then ∃ q rest, quits q ∧ b :: xs = b :: r.passed ++ esc :: q :: rest
    else b :: xs = b :: r.passed ++ if r.held then [esc] else []
  split_ifs at h ⊢ with hquit
  · obtain ⟨q, rest, hq, rfl⟩ := h
    exact ⟨q, rest, hq, rfl⟩
  · rw [List.cons_append, ← h]
  · rw [List.cons_append, ← h]

section
variable [DecidableEq α] (esc : α) (quits : α → Bool)

/-- one scan from left to right -/
def scan : List α → Scan α
  | [] => ⟨[], false, false⟩
  | [b] => if b = esc then ⟨[], true, false⟩ else ⟨[b], false, false⟩
  | b :: c :: rest => if b = esc ∧ quits c then ⟨[], false, true⟩ else (scan (c :: rest)).cons b

/-- a scan goes on -/
def Scan.resume (r : Scan α) (xs : List α) : Scan α :=
  if r.quit then r else (scan esc quits (if r.held then esc :: xs else xs)).prepend r.passed

variable {esc quits}

/-- a symbol that is no escape passes -/
theorem scan_cons_of_ne {b : α} (h : b ≠ esc) (xs : List α) : scan esc quits (b :: xs) = (scan esc quits xs).cons b := by
  cases xs with
  | nil => exact if_neg h
  | cons c rest => exact if_neg fun hq => h hq.1

theorem scan_esc_cons (c : α) (xs : List α) : scan esc quits (esc :: c :: xs) =
    if quits c then ⟨[], false, true⟩ else (scan esc quits (c :: xs)).cons esc := by
  rw [scan]
  simp only [true_and]

theorem Scan.resume_cons (b : α) (r : Scan α) (xs : List α) :
    (r.cons b).resume esc quits xs = (r.resume esc quits xs).cons b := by
  obtain ⟨passed, held, quit⟩ := r
  cases quit <;> rfl

/-- **A scan can be interrupted anywhere.** -/
theorem scan_append (xs ys : List α) : scan esc quits (xs ++ ys) = (scan esc quits xs).resume esc quits ys := by
  induction xs with
  | nil => rfl
  | cons b xs ih =>
    by_cases hb : b = esc
    · subst hb
      cases xs with
      | nil => simp only [scan, if_true, List.singleton_append]; rfl
      | cons c rest =>
        rw [List.cons_append, List.cons_append, scan_esc_cons, scan_esc_cons]
        split_ifs with hq
        · rfl
        · rw [Scan.resume_cons, ← ih]
          rfl
    · rw [List.cons_append, scan_cons_of_ne hb, scan_cons_of_ne hb, ih, Scan.resume_cons]

/-- **Nothing is lost.** -/
theorem scan_accounts (xs : List α) : (scan esc quits xs).Accounts esc quits xs := by
  induction xs with
  | nil => exact rfl
  | cons b xs ih =>
    by_cases hb : b = esc
    · subst hb
      cases xs with
      | nil =>
        rw [scan, if_pos rfl]
        exact rfl
      | cons c rest =>
        rw [scan_esc_cons]
        split_ifs with hq
        · exact ⟨c, rest, hq, rfl⟩
        · exact ih.cons b
    · rw [scan_cons_of_ne hb]
      exact ih.cons b

end

end EscapeScan
