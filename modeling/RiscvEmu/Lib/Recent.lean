/-
The latest values of a history, kept in a ring of cells, and the streak of values seen a short while before.

A position walks round n cells and each value replaces the oldest. A history is a list, the latest value first; a history
shorter than the ring is followed by the value z the cells started with. Results:
- `Holds.init`, `Holds.push`: the ring holds the latest values of the history;
- `Holds.exists_iff`: a value is in some cell exactly when it is among them;
- `mem_of_le_streak`: the values of a streak of length m are all among the n values before it, or are z;
- `le_streak`: values that repeat with a period of at most n are a streak.
-/
import Mathlib.Algebra.Group.Fin.Basic
import Mathlib.Algebra.GroupWithZero.Nat
import Mathlib.Data.List.GetD
import Mathlib.Logic.Function.Basic
import Mathlib.Tactic.Common

namespace Recent

variable {α : Type} {n : ℕ}

/-! ## The ring -/

section
variable [NeZero n]

/-- the value stored k values before the latest, where pos is the cell to be written next -/
def latest (w : Fin n → α) (pos k : Fin n) : α := w (pos - 1 - k)

/-- the cells hold the latest values of h -/
def Holds (w : Fin n → α) (pos : Fin n) (z : α) (h : List α) : Prop := ∀ k : Fin n, latest w pos k = h.getD k z

variable {w : Fin n → α} {pos : Fin n} {z : α} {h : List α}

theorem latest_push_zero (w : Fin n → α) (pos : Fin n) (x : α) :
    latest (Function.update w pos x) (pos + 1) 0 = x := by
  rw [latest, add_sub_cancel_right, sub_zero, Function.update_self]

theorem latest_push (w : Fin n → α) (pos : Fin n) (x : α) {k : Fin n} (hk : k ≠ 0) :
    latest (Function.update w pos x) (pos + 1) k = latest w pos (k - 1) := by
  have hcell : pos + 1 - 1 - k ≠ pos := by
    rw [add_sub_cancel_right]
    exact fun h => hk (sub_eq_self.1 h)
  rw [latest, latest, Function.update_of_ne hcell, add_sub_cancel_right, sub_sub, add_sub_cancel]

theorem Holds.init (pos : Fin n) (z : α) : Holds (fun _ => z) pos z [] := fun _ => rfl

theorem Holds.push (hw : Holds w pos z h) (x : α) : Holds (Function.update w pos x) (pos + 1) z (x :: h) := by
  intro k
  by_cases hk : k = 0
  · subst hk
    rw [latest_push_zero]
    rfl
  · have hval : k.val = (k - 1).val + 1 := by
      have h0 : k.val ≠ 0 := fun h => hk (Fin.ext h)
      rw [Fin.val_sub_one_of_ne_zero hk]
      omega
    rw [latest_push w pos x hk, hw, hval]
    rfl

theorem Holds.exists_iff (hw : Holds w pos z h) (x : α) : (∃ i, w i = x) ↔ ∃ k < n, h.getD k z = x := by
  refine ⟨?_, ?_⟩
  · intro hx
    obtain ⟨i, hi⟩ := hx
    refine ⟨(pos - 1 - i).val, (pos - 1 - i).isLt, ?_⟩
    rw [← hw, latest, sub_sub_cancel, hi]
  · intro hx
    obtain ⟨k, hk, rfl⟩ := hx
    let i : Fin n := ⟨k, hk⟩
    exact ⟨pos - 1 - i, hw i⟩

end

/-! ## Streaks -/

/-- a value at position k of h, or z -/
theorem getD_mem (h : List α) (z : α) (k : ℕ) : h.getD k z = z ∨ ∃ hk : k < h.length, h.getD k z = h[k] := by
  by_cases hk : k < h.length
  · exact .inr ⟨hk, List.getD_eq_getElem h z hk⟩
  · exact .inl (List.getD_eq_default h z (Nat.le_of_not_lt hk))

section
variable [DecidableEq α]

/-- how many values in a row, counting back from the latest, are among the n values before them -/
def streak (n : ℕ) (z : α) : List α → ℕ
  | [] => 0
  | x :: h => if ∃ k < n, h.getD k z = x then streak n z h + 1 else 0

variable {z : α} {m : ℕ} {h : List α}

theorem streak_le_length (n : ℕ) (z : α) (h : List α) : streak n z h ≤ h.length := by
  induction h with
  | nil => exact le_rfl
  | cons x h ih =>
    rw [streak]
    split_ifs
    · exact Nat.succ_le_succ ih
    · exact Nat.zero_le _

/-- **A streak stays among the values before it.** -/
theorem mem_of_le_streak (hm : m ≤ streak n z h) : ∀ x ∈ h.take m, x = z ∨ x ∈ (h.drop m).take n := by
  induction m generalizing h with
  | zero => simp
  | succ m ih =>
    cases h with
    | nil => simp
    | cons y h =>
      rw [streak] at hm
      split_ifs at hm with hseen
      · have hrest := ih (Nat.le_of_succ_le_succ hm)
        rw [List.take_succ_cons, List.drop_succ_cons]
        intro x hx
        rcases List.mem_cons.1 hx with rfl | hx
        · obtain ⟨k, hk, hkx⟩ := hseen
          rcases getD_mem h z k with hz | ⟨hlt, hget⟩
          · exact .inl (hkx.symm.trans hz)
          -- the value was seen within the streak, or in the n values before it
          · rw [← hkx, hget]
            by_cases hkm : k < m
            · exact hrest _ (List.mem_take_iff_getElem.2 ⟨k, by omega, rfl⟩)
            · refine .inr (List.mem_take_iff_getElem.2 ⟨k - m, by rw [List.length_drop]; omega, ?_⟩)
              simp only [List.getElem_drop]
              congr 1
              omega
        · exact hrest x hx
      · omega

/-- **A history that repeats with a short period is a streak.** -/
theorem le_streak {d : ℕ} (hd : 0 < d) (hn : d ≤ n) (hm : m ≤ h.length) (hp : ∀ i < m, h[i]? = h[i + d]?) :
    m ≤ streak n z h := by
  induction m generalizing h with
  | zero => exact Nat.zero_le _
  | succ m ih =>
    cases h with
    | nil => exact absurd hm (Nat.not_succ_le_zero m)
    | cons x h =>
      have hseen : ∃ k < n, h.getD k z = x := by
        have h0 := hp 0 (Nat.succ_pos m)
        rw [Nat.zero_add, List.getElem?_cons_zero, ← Nat.sub_one_add_one_eq_of_pos hd, List.getElem?_cons_succ] at h0
        refine ⟨d - 1, by omega, ?_⟩
        rw [List.getD_eq_getElem?_getD, ← h0]
        rfl
      rw [streak, if_pos hseen]
      refine Nat.succ_le_succ (ih (Nat.le_of_succ_le_succ hm) ?_)
      intro i hi
      have hs := hp (i + 1) (Nat.succ_lt_succ hi)
      rwa [Nat.add_right_comm, List.getElem?_cons_succ, List.getElem?_cons_succ] at hs

end

end Recent
