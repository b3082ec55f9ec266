/-
Finite maps by their history, over arbitrary keys and values.

What a map holds after a sequence of operations is said by the sequence itself: key k has value v when some put of v
under k is followed by no other put of k, no remove of k and no clear (`LatestPut`). Results:
- `latestPut_put`, `latestPut_get`, `latestPut_remove`, `latestPut_clear`: how one more operation changes it;
- `LatestPut.unique`: a key has one value at most;
- `Keeps.holds_run`: a store whose single operations act as those of a map holds, after any sequence, the latest puts.
-/
import Mathlib.Data.List.Induction
import Mathlib.Tactic.Common

namespace MapHistory

inductive Op (K V : Type) where
  | put (key : K) (value : V)
  | get (key : K)
  | remove (key : K)
  | clear
deriving DecidableEq, Repr

variable {K V S : Type}

/-- the operation decides what key k holds from then on -/
def Op.Touches (k : K) : Op K V → Prop
  | .put key _ | .remove key => key = k
  | .get _ => False
  | .clear => True

/-- the latest put of k in the sequence is of v, and k was neither removed nor cleared since -/
def LatestPut (ops : List (Op K V)) (k : K) (v : V) : Prop :=
  ∃ before after, ops = before ++ .put k v :: after ∧ ∀ op ∈ after, ¬ op.Touches k

theorem not_latestPut_nil (k : K) (v : V) : ¬ LatestPut [] k v := by
  intro h
  obtain ⟨before, after, he, -⟩ := h
  simp at he

/-- one more operation that does not touch k leaves its latest put -/
theorem latestPut_append_of_not_touches {op : Op K V} {k : K} (hn : ¬ op.Touches k) (ops : List (Op K V)) (v : V) :
    LatestPut (ops ++ [op]) k v ↔ LatestPut ops k v := by
  refine ⟨?_, ?_⟩
  · intro h
    obtain ⟨before, after, he, ha⟩ := h
    rcases List.eq_nil_or_concat after with rfl | ⟨rest, last, rfl⟩
    · -- the put itself would be the last operation, and it touches k
      obtain ⟨-, hop⟩ := List.append_inj' he rfl
      obtain rfl : op = .put k v := by simpa using hop
      exact absurd rfl hn
    · rw [List.concat_eq_append, ← List.cons_append, ← List.append_assoc] at he
      obtain ⟨hops, -⟩ := List.append_inj' he rfl
      exact ⟨before, rest, hops, fun o ho => ha o (by simp [ho])⟩
  · intro h
    obtain ⟨before, after, rfl, ha⟩ := h
    refine ⟨before, after ++ [op], by simp, fun o ho => ?_⟩
    rcases List.mem_append.1 ho with ho | ho
    · exact ha o ho
    · simp only [List.mem_singleton] at ho
      subst ho
      exact hn

/-- after an operation that touches k, only that operation counts -/
theorem latestPut_append_of_touches {op : Op K V} {k : K} (ht : op.Touches k) (ops : List (Op K V)) (v : V) :
    LatestPut (ops ++ [op]) k v ↔ op = .put k v := by
  refine ⟨?_, ?_⟩
  · intro h
    obtain ⟨before, after, he, ha⟩ := h
    rcases List.eq_nil_or_concat after with rfl | ⟨rest, last, rfl⟩
    · obtain ⟨-, hop⟩ := List.append_inj' he rfl
      simpa using hop
    · rw [List.concat_eq_append, ← List.cons_append, ← List.append_assoc] at he
      obtain ⟨-, hlast⟩ := List.append_inj' he rfl
      obtain rfl : op = last := by simpa using hlast
      exact absurd ht (ha op (by simp))
  · intro h
    exact ⟨ops, [], by rw [h], by simp⟩

theorem latestPut_put [DecidableEq K] (ops : List (Op K V)) (key : K) (value : V) (k : K) (v : V) :
    LatestPut (ops ++ [.put key value]) k v ↔ (k = key ∧ v = value) ∨ (k ≠ key ∧ LatestPut ops k v) := by
  by_cases hk : k = key
  · subst hk
    rw [latestPut_append_of_touches (by simp [Op.Touches])]
    simp [eq_comm]
  · rw [latestPut_append_of_not_touches (by simpa [Op.Touches] using Ne.symm hk)]
    simp [hk]

theorem latestPut_get (ops : List (Op K V)) (key k : K) (v : V) :
    LatestPut (ops ++ [.get key]) k v ↔ LatestPut ops k v :=
  latestPut_append_of_not_touches (by simp [Op.Touches]) ops v

theorem latestPut_remove [DecidableEq K] (ops : List (Op K V)) (key k : K) (v : V) :
    LatestPut (ops ++ [.remove key]) k v ↔ k ≠ key ∧ LatestPut ops k v := by
  by_cases hk : k = key
  · subst hk
    rw [latestPut_append_of_touches (by simp [Op.Touches])]
    simp
  · rw [latestPut_append_of_not_touches (by simpa [Op.Touches] using Ne.symm hk)]
    simp [hk]

theorem latestPut_clear (ops : List (Op K V)) (k : K) (v : V) : ¬ LatestPut (ops ++ [.clear]) k v := by
  rw [latestPut_append_of_touches (by simp [Op.Touches])]
  simp

theorem LatestPut.unique [DecidableEq K] {ops : List (Op K V)} {k : K} {v w : V} (hv : LatestPut ops k v)
    (hw : LatestPut ops k w) : v = w := by
  induction ops using List.reverseRecOn with
  | nil => exact absurd hv (not_latestPut_nil k v)
  | append_singleton ops op ih =>
    by_cases ht : op.Touches k
    · rw [latestPut_append_of_touches ht] at hv hw
      simpa using hv.symm.trans hw
    · rw [latestPut_append_of_not_touches ht] at hv hw
      exact ih hv hw

/-- a store whose operations, one by one, act on its content as those of a map, from well-formed stores to such -/
structure Keeps (exec : S → Op K V → S) (Ok : S → Prop) (Holds : S → K → V → Prop) : Prop where
  ok : ∀ s op, Ok s → Ok (exec s op)
  put : ∀ s key value, Ok s → ∀ k v,
    Holds (exec s (.put key value)) k v ↔ (k = key ∧ v = value) ∨ (k ≠ key ∧ Holds s k v)
  get : ∀ s key, Ok s → ∀ k v, Holds (exec s (.get key)) k v ↔ Holds s k v
  remove : ∀ s key, Ok s → ∀ k v, Holds (exec s (.remove key)) k v ↔ k ≠ key ∧ Holds s k v
  clear : ∀ s, Ok s → ∀ k v, ¬ Holds (exec s .clear) k v

variable {exec : S → Op K V → S} {Ok : S → Prop} {Holds : S → K → V → Prop}

theorem Keeps.ok_run (h : Keeps exec Ok Holds) {s : S} (hs : Ok s) (ops : List (Op K V)) :
    Ok (ops.foldl exec s) := by
  induction ops generalizing s with
  | nil => exact hs
  | cons op ops ih => exact ih (h.ok s op hs)

/-- from an empty store, any sequence of operations leaves exactly the latest puts -/
theorem Keeps.holds_run [DecidableEq K] (h : Keeps exec Ok Holds) {s : S} (hs : Ok s) (he : ∀ k v, ¬ Holds s k v)
    (ops : List (Op K V)) (k : K) (v : V) : Holds (ops.foldl exec s) k v ↔ LatestPut ops k v := by
  induction ops using List.reverseRecOn generalizing k v with
  | nil => simpa [not_latestPut_nil] using he k v
  | append_singleton ops op ih =>
    have hok := h.ok_run hs ops
    rw [List.foldl_append, List.foldl_cons, List.foldl_nil]
    cases op with
    | put key value => rw [h.put _ _ _ hok, latestPut_put, ih]
    | get key => rw [h.get _ _ hok, latestPut_get, ih]
    | remove key => rw [h.remove _ _ hok, latestPut_remove, ih]
    | clear => simp only [h.clear _ hok, latestPut_clear]

end MapHistory
