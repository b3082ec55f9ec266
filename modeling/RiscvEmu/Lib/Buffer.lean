/-
Buffers: a value at every offset, lists written into them and read out of them.

`write buf off l` is the buffer after copying l to off, `region buf off n` the n values from off on.
Results:
- `region_write`: what was written reads back;
- `region_write_other`: a write leaves a region beside it as it was;
- `write_append`: two writes side by side are one;
- `region_writes`: of lists written apart from each other, each reads back.
-/
import Mathlib.Logic.Function.Basic
import Mathlib.Tactic.Common

namespace Buffer

variable {α : Type*} (buf : ℕ → α)

def write (off : ℕ) (l : List α) : ℕ → α := fun i => if off ≤ i then l[i - off]?.getD (buf i) else buf i

def region (off n : ℕ) : List α := (List.range n).map fun i => buf (off + i)

variable {buf}

@[simp] theorem region_length {off n : ℕ} : (region buf off n).length = n := by simp [region]

@[simp] theorem region_zero {off : ℕ} : region buf off 0 = [] := rfl

theorem region_add (off m n : ℕ) : region buf off (m + n) = region buf off m ++ region buf (off + m) n := by
  simp only [region, List.range_add, List.map_append, List.map_map, Function.comp_def, Nat.add_assoc]

theorem region_congr {buf' : ℕ → α} {off n : ℕ} (h : ∀ i, off ≤ i → i < off + n → buf i = buf' i) :
    region buf off n = region buf' off n := by
  apply List.map_congr_left
  intro i hi
  have hlt := List.mem_range.mp hi
  exact h (off + i) (by omega) (by omega)

theorem drop_region {off m n : ℕ} (h : m ≤ n) : (region buf off n).drop m = region buf (off + m) (n - m) := by
  obtain ⟨k, rfl⟩ := Nat.exists_eq_add_of_le h
  rw [region_add, List.drop_left' region_length, Nat.add_sub_cancel_left]

theorem take_region {off m n : ℕ} (h : m ≤ n) : (region buf off n).take m = region buf off m := by
  obtain ⟨k, rfl⟩ := Nat.exists_eq_add_of_le h
  rw [region_add, List.take_left' region_length]

theorem write_other {off i : ℕ} {l : List α} (h : i < off ∨ off + l.length ≤ i) : write buf off l i = buf i := by
  unfold write
  split_ifs with hle
  · rw [List.getElem?_eq_none (by omega), Option.getD_none]
  · rfl

theorem region_write_other {off off' n : ℕ} {l : List α} (h : off' + n ≤ off ∨ off + l.length ≤ off') :
    region (write buf off l) off' n = region buf off' n :=
  region_congr fun i hlo hhi => write_other (by omega)

theorem region_write (off : ℕ) (l : List α) : region (write buf off l) off l.length = l := by
  apply List.ext_getElem region_length
  intro i hi hl
  simp [region, write, hl]

@[simp] theorem write_nil (off : ℕ) : write buf off [] = buf := by
  funext i
  exact write_other (by rw [List.length_nil]; omega)

theorem write_append (off : ℕ) (l l' : List α) : write (write buf off l) (off + l.length) l' = write buf off (l ++ l') := by
  funext i
  unfold write
  by_cases hoff : off ≤ i
  · by_cases hlen : off + l.length ≤ i
    · have hnone : l[i - off]? = none := List.getElem?_eq_none (by omega)
      rw [if_pos hlen, if_pos hoff, if_pos hoff, hnone, List.getElem?_append_right (by omega), Option.getD_none, Nat.sub_sub]
    · rw [if_neg hlen, if_pos hoff, if_pos hoff, List.getElem?_append_left (by omega)]
  · rw [if_neg (by omega : ¬ off + l.length ≤ i), if_neg hoff, if_neg hoff]

theorem write_singleton (off : ℕ) (v : α) : write buf off [v] = Function.update buf off v := by
  funext i
  rcases Nat.lt_trichotomy i off with hlt | rfl | hgt
  · rw [write_other (Or.inl hlt), Function.update_of_ne (by omega)]
  · simp [write]
  · rw [write_other (Or.inr hgt), Function.update_of_ne (by omega)]

/-- the lists written one after the other, each to its offset -/
def writes (buf : ℕ → α) (ps : List (ℕ × List α)) : ℕ → α := ps.foldl (fun buf p => write buf p.1 p.2) buf

theorem writes_other {ps : List (ℕ × List α)} {i : ℕ} (h : ∀ p ∈ ps, i < p.1 ∨ p.1 + p.2.length ≤ i) :
    writes buf ps i = buf i := by
  induction ps generalizing buf with
  | nil => rfl
  | cons p ps ih =>
    obtain ⟨hp, hps⟩ := List.forall_mem_cons.1 h
    exact (ih hps).trans (write_other hp)

/-- a write is kept by writes apart from it -/
theorem region_write_writes {p : ℕ × List α} {ps : List (ℕ × List α)}
    (h : ∀ q ∈ ps, p.1 + p.2.length ≤ q.1 ∨ q.1 + q.2.length ≤ p.1) :
    region (writes (write buf p.1 p.2) ps) p.1 p.2.length = p.2 := by
  have hkept : region (writes (write buf p.1 p.2) ps) p.1 p.2.length = region (write buf p.1 p.2) p.1 p.2.length := by
    refine region_congr fun i hlo hhi => writes_other fun q hmem => ?_
    have := h q hmem
    omega
  exact hkept.trans (region_write p.1 p.2)

theorem region_writes {ps : List (ℕ × List α)}
    (h : ps.Pairwise fun p q => p.1 + p.2.length ≤ q.1 ∨ q.1 + q.2.length ≤ p.1) {p : ℕ × List α} (hp : p ∈ ps) :
    region (writes buf ps) p.1 p.2.length = p.2 := by
  induction ps generalizing buf with
  | nil => cases hp
  | cons q ps ih =>
    obtain ⟨hq, hps⟩ := List.pairwise_cons.1 h
    rcases List.mem_cons.1 hp with rfl | hp
    · exact region_write_writes hq
    · exact ih hps hp

end Buffer
