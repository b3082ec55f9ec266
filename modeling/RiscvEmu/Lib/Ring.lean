/-
Ring buffers as queues. A ring of n cells holds count values from head on, wrapping round.
Results:
- `contents_push`: writing the cell behind the last value appends it to the queue;
- `contents_pop`: the value at head is the front, and moving head on leaves the rest;
- `conserved`: over a run, what was there and what came in is what went out and what is left.
-/
import Mathlib.Data.Nat.ModEq
import Mathlib.Logic.Function.Basic
import RiscvEmu.Lib.Runs

namespace Ring

variable {α : Type*} {cells : ℕ → α} {n head count : ℕ}

/-- the values held, the oldest first -/
def contents (n : ℕ) (cells : ℕ → α) (head count : ℕ) : List α := (List.range count).map fun i => cells ((head + i) % n)

@[simp] theorem contents_length : (contents n cells head count).length = count := by simp [contents]

theorem contents_eq_nil : contents n cells head count = [] ↔ count = 0 := by
  rw [← List.length_eq_zero_iff, contents_length]

/-- different places of a ring that is not full have different cells -/
theorem cell_ne {i j : ℕ} (hi : i < n) (hj : j < n) (h : i ≠ j) : (head + i) % n ≠ (head + j) % n := by
  intro heq
  have hmod : i % n = j % n := Nat.ModEq.add_left_cancel' head heq
  rw [Nat.mod_eq_of_lt hi, Nat.mod_eq_of_lt hj] at hmod
  exact h hmod

theorem contents_push (hcount : count < n) (x : α) :
    contents n (Function.update cells ((head + count) % n) x) head (count + 1) = contents n cells head count ++ [x] := by
  rw [contents, List.range_succ, List.map_append, List.map_singleton, Function.update_self, contents]
  congr 1
  apply List.map_congr_left
  intro i hi
  have hlt := List.mem_range.mp hi
  rw [Function.update_of_ne (cell_ne (by omega) hcount (by omega))]

theorem contents_pop (cells : ℕ → α) (hhead : head < n) (hcount : 0 < count) :
    contents n cells head count = cells head :: contents n cells ((head + 1) % n) (count - 1) := by
  obtain ⟨m, rfl⟩ : ∃ m, count = m + 1 := ⟨count - 1, by omega⟩
  rw [contents, List.range_succ_eq_map, List.map_cons, List.map_map, Nat.add_zero, Nat.mod_eq_of_lt hhead,
    Nat.add_sub_cancel, contents]
  congr 1
  apply List.map_congr_left
  intro i _
  rw [Function.comp_apply, Nat.mod_add_mod, Nat.add_assoc, Nat.add_comm 1]

open Runs

/-- a queue whose steps let values in at the back and out at the front loses none and keeps their order -/
theorem conserved {S L : Type} {step : S → L → S → Prop} (held : S → List α) (ins outs : S → L → List α)
    {I : S → Prop} (hstep : ∀ s l t, I s → step s l t → I t ∧ held s ++ ins s l = outs s l ++ held t) {s u : S}
    {p : List (S × L)} (hp : Path step s p u) (hs : I s) :
    held s ++ p.flatMap (fun x => ins x.1 x.2) = p.flatMap (fun x => outs x.1 x.2) ++ held u := by
  induction hp with
  | nil s => simp
  | cons h _ ih =>
    obtain ⟨hnext, hone⟩ := hstep _ _ _ hs h
    rw [List.flatMap_cons, List.flatMap_cons, ← List.append_assoc, hone]
    -- what one step let in is out or held, and the rest of the run says the same of what is held after it
    rw [List.append_assoc, ih hnext, List.append_assoc]

end Ring
