/-
Open addressing with linear probing and tombstones, over arbitrary keys, values and home positions.

A table of capacity n is a function ℕ → Slot read below n. A key's probe sequence starts at its home position and goes
round the table once (`pos`). `search` follows it: it stops at the key, or at the first empty slot, and then answers
the first tombstone it passed when there was one.

The invariant `Sound` says that no empty slot lies between a key's home position and its slot, and that a key lives in
one slot only. Results:
- `search_spec`: in a sound table with a free slot, `search` finds the key exactly when it is live, and otherwise
  answers a vacant slot where the key may be stored;
- `Sound.store`, `Sound.kill`: storing at that slot and leaving a tombstone keep the invariant;
- `holds_store`, `holds_kill`: what they do to the content;
- `count_update`: how the number of slots of a kind changes when one slot is written;
- `exists_empty`: a table with fewer than n used slots has an empty one;
- `count_isLive`: the live slots of a sound table are as many as the keys it holds.
-/
import Mathlib.Data.Finset.Card
import Mathlib.Data.Set.Card
import Mathlib.Data.Nat.ModEq
import Mathlib.Tactic.Common

namespace OpenAddressing

inductive Slot (K V : Type) where
  | empty
  | tomb
  | live (k : K) (v : V)
deriving DecidableEq, Repr

/-- the i-th position probed from home position h in a table of capacity n -/
def pos (n h i : ℕ) : ℕ := (h + i) % n

theorem pos_lt {n : ℕ} (hn : 0 < n) (h i : ℕ) : pos n h i < n := Nat.mod_lt _ hn

/-- the probe sequence reaches every position -/
theorem exists_pos {n : ℕ} (h j : ℕ) (hj : j < n) : ∃ i < n, pos n h i = j := by
  have hn : 0 < n := by omega
  have hh : h % n < n := Nat.mod_lt _ hn
  refine ⟨(j + n - h % n) % n, Nat.mod_lt _ hn, ?_⟩
  unfold pos
  rw [Nat.add_mod, Nat.mod_mod, ← Nat.add_mod, Nat.add_mod, Nat.add_mod_mod]
  rw [show h % n + (j + n - h % n) = j + n by omega, Nat.add_mod_right, Nat.mod_eq_of_lt hj]

section Search

variable {K V : Type} [DecidableEq K]

/-- follow the probe sequence from its i-th position for at most `fuel` steps -/
def searchFrom (t : ℕ → Slot K V) (n h : ℕ) (k : K) : ℕ → ℕ → Option ℕ → Bool × ℕ
  | 0, _, _ => (false, 0)
  | fuel + 1, i, first =>
    match t (pos n h i) with
    | .empty => (false, first.getD (pos n h i))
    | .tomb => searchFrom t n h k fuel (i + 1) (first.or (some (pos n h i)))
    | .live k' _ => if k' = k then (true, pos n h i) else searchFrom t n h k fuel (i + 1) first

def search (t : ℕ → Slot K V) (n h : ℕ) (k : K) : Bool × ℕ := searchFrom t n h k n 0 none

/-- slot j is on the probe sequence from h before any empty slot -/
def Reaches (t : ℕ → Slot K V) (n h j : ℕ) : Prop :=
  ∃ i < n, pos n h i = j ∧ ∀ i' < i, t (pos n h i') ≠ .empty

structure Sound (t : ℕ → Slot K V) (n : ℕ) (home : K → ℕ) : Prop where
  reach : ∀ j < n, ∀ k v, t j = .live k v → Reaches t n (home k) j
  unique : ∀ i < n, ∀ j < n, ∀ k v w, t i = .live k v → t j = .live k w → i = j

/-- what `search` answers for key k: its slot, or a vacant slot where it may be stored -/
inductive Answer (t : ℕ → Slot K V) (n h : ℕ) (k : K) : Bool × ℕ → Prop where
  | found (j : ℕ) (v : V) (hj : j < n) (hl : t j = .live k v) : Answer t n h k (true, j)
  | vacant (j : ℕ) (hj : j < n) (hv : t j = .empty ∨ t j = .tomb) (hr : Reaches t n h j)
      (ha : ∀ i < n, ∀ v, t i = .live k v → ¬ Reaches t n h i) : Answer t n h k (false, j)

/-- the loop: positions before i are used and hold another key, `first` is a tombstone among them -/
theorem searchFrom_answer (t : ℕ → Slot K V) (n h : ℕ) (k : K) (hroom : ∃ j < n, t j = .empty) :
    ∀ (fuel i : ℕ) (first : Option ℕ), i + fuel = n →
      (∀ i' < i, t (pos n h i') ≠ .empty ∧ ∀ v, t (pos n h i') ≠ .live k v) →
      (∀ j, first = some j → t j = .tomb ∧ ∃ i' < i, pos n h i' = j) →
      Answer t n h k (searchFrom t n h k fuel i first) := by
  intro fuel
  induction fuel with
  | zero =>
    intro i first hi hpre _
    obtain ⟨j, hj, he⟩ := hroom
    obtain ⟨i', hi', rfl⟩ := exists_pos h j hj
    exact absurd he (hpre i' (by omega)).1
  | succ fuel ih =>
    intro i first hi hpre hfirst
    have hn : 0 < n := by omega
    cases hs : t (pos n h i) with
    | empty =>
      simp only [searchFrom, hs]
      -- a live k behind this empty slot would not be reachable
      have habs : ∀ j < n, ∀ v, t j = .live k v → ¬ Reaches t n h j := by
        rintro j hj v hl ⟨i', hi', rfl, hne⟩
        rcases Nat.lt_trichotomy i' i with hlt | rfl | hgt
        · exact (hpre i' hlt).2 v hl
        · rw [hs] at hl; exact absurd hl (by simp)
        · exact hne i hgt hs
      cases first with
      | none => exact .vacant _ (pos_lt hn h i) (Or.inl hs) ⟨i, by omega, rfl, fun i' hi' => (hpre i' hi').1⟩ habs
      | some j =>
        obtain ⟨htomb, i', hi', rfl⟩ := hfirst j rfl
        exact .vacant _ (pos_lt hn h i') (Or.inr htomb)
          ⟨i', by omega, rfl, fun i'' hi'' => (hpre i'' (by omega)).1⟩ habs
    | tomb =>
      simp only [searchFrom, hs]
      apply ih (i + 1) _ (by omega)
      · intro i' hi'
        rcases Nat.lt_succ_iff_lt_or_eq.1 hi' with hlt | rfl
        · exact hpre i' hlt
        · rw [hs]; simp
      · intro j hj
        cases first with
        | none =>
          simp only [Option.none_or, Option.some.injEq] at hj
          exact ⟨hj ▸ hs, i, by omega, hj⟩
        | some j' =>
          obtain ⟨htomb, i', hi', he⟩ := hfirst j hj
          exact ⟨htomb, i', by omega, he⟩
    | live k' v =>
      simp only [searchFrom, hs]
      split_ifs with hk
      · subst hk; exact .found _ v (pos_lt hn h i) hs
      · apply ih (i + 1) _ (by omega)
        · intro i' hi'
          rcases Nat.lt_succ_iff_lt_or_eq.1 hi' with hlt | rfl
          · exact hpre i' hlt
          · rw [hs]; simp [hk]
        · intro j hj
          obtain ⟨htomb, i', hi', he⟩ := hfirst j hj
          exact ⟨htomb, i', by omega, he⟩

theorem search_spec (t : ℕ → Slot K V) (n : ℕ) (home : K → ℕ) (k : K) (hroom : ∃ j < n, t j = .empty) :
    Answer t n (home k) k (search t n (home k) k) :=
  searchFrom_answer t n (home k) k hroom n 0 none (by omega) (by omega) (by simp)

end Search

section Update

variable {K V : Type}

/-- in a sound table a vacant answer means the key is nowhere -/
theorem Sound.absent {t : ℕ → Slot K V} {n : ℕ} {home : K → ℕ} (hs : Sound t n home) {k : K}
    (ha : ∀ i < n, ∀ v, t i = .live k v → ¬ Reaches t n (home k) i) : ∀ i < n, ∀ v, t i ≠ .live k v :=
  fun i hi v hl => ha i hi v hl (hs.reach i hi k v hl)

theorem Reaches.update {t : ℕ → Slot K V} {n h j a : ℕ} {x : Slot K V} (hx : x ≠ .empty) (hr : Reaches t n h j) :
    Reaches (Function.update t a x) n h j := by
  obtain ⟨i, hi, hp, hne⟩ := hr
  refine ⟨i, hi, hp, ?_⟩
  intro i' hi'
  by_cases he : pos n h i' = a
  · rw [he, Function.update_self]; exact hx
  · rw [Function.update_of_ne he]; exact hne i' hi'

/-- storing key k at a slot on its probe sequence where no other slot holds it -/
theorem Sound.store {t : ℕ → Slot K V} {n : ℕ} {home : K → ℕ} (hs : Sound t n home) {j : ℕ} {k : K} (v : V)
    (hr : Reaches t n (home k) j) (ha : ∀ i < n, i ≠ j → ∀ w, t i ≠ .live k w) :
    Sound (Function.update t j (.live k v)) n home := by
  refine ⟨?_, ?_⟩
  · intro i hi k' w hl
    by_cases he : i = j
    · subst he
      simp only [Function.update_self, Slot.live.injEq] at hl
      obtain ⟨rfl, rfl⟩ := hl
      exact hr.update (by simp)
    · rw [Function.update_of_ne he] at hl
      exact (hs.reach i hi k' w hl).update (by simp)
  · intro i hi i' hi' k' w w' hl hl'
    by_cases he : i = j <;> by_cases he' : i' = j
    · rw [he, he']
    · subst he
      simp only [Function.update_self, Slot.live.injEq] at hl
      rw [Function.update_of_ne he', ← hl.1] at hl'
      exact absurd hl' (ha i' hi' he' w')
    · subst he'
      simp only [Function.update_self, Slot.live.injEq] at hl'
      rw [Function.update_of_ne he, ← hl'.1] at hl
      exact absurd hl (ha i hi he w)
    · rw [Function.update_of_ne he] at hl
      rw [Function.update_of_ne he'] at hl'
      exact hs.unique i hi i' hi' k' w w' hl hl'

/-- leaving a tombstone -/
theorem Sound.kill {t : ℕ → Slot K V} {n : ℕ} {home : K → ℕ} (hs : Sound t n home) (j : ℕ) :
    Sound (Function.update t j .tomb) n home := by
  refine ⟨?_, ?_⟩
  · intro i hi k w hl
    by_cases he : i = j
    · subst he; simp at hl
    · rw [Function.update_of_ne he] at hl
      exact (hs.reach i hi k w hl).update (by simp)
  · intro i hi i' hi' k w w' hl hl'
    have he : i ≠ j := by rintro rfl; simp at hl
    have he' : i' ≠ j := by rintro rfl; simp at hl'
    rw [Function.update_of_ne he] at hl
    rw [Function.update_of_ne he'] at hl'
    exact hs.unique i hi i' hi' k w w' hl hl'

theorem sound_empty (n : ℕ) (home : K → ℕ) : Sound (fun _ => (.empty : Slot K V)) n home :=
  ⟨by simp, by simp⟩

/-! ## The content of a table -/

/-- key k is stored with value v -/
def Holds (t : ℕ → Slot K V) (n : ℕ) (k : K) (v : V) : Prop := ∃ j < n, t j = .live k v

theorem Holds.unique {t : ℕ → Slot K V} {n : ℕ} {home : K → ℕ} (hs : Sound t n home) {k : K} {v w : V}
    (hv : Holds t n k v) (hw : Holds t n k w) : v = w := by
  obtain ⟨i, hi, hl⟩ := hv
  obtain ⟨j, hj, hl'⟩ := hw
  have := hs.unique i hi j hj k v w hl hl'
  subst this
  rw [hl] at hl'
  simpa using hl'

theorem holds_store {t : ℕ → Slot K V} {n j : ℕ} (hj : j < n) {k : K} (v : V)
    (ha : ∀ i < n, i ≠ j → ∀ w, t i ≠ .live k w) (ho : ∀ k' w, t j = .live k' w → k' = k) (k' : K) (w : V) :
    Holds (Function.update t j (.live k v)) n k' w ↔ (k' = k ∧ w = v) ∨ (k' ≠ k ∧ Holds t n k' w) := by
  refine ⟨?_, ?_⟩
  · intro h
    obtain ⟨i, hi, hl⟩ := h
    by_cases he : i = j
    · subst he
      simp only [Function.update_self, Slot.live.injEq] at hl
      exact Or.inl ⟨hl.1.symm, hl.2.symm⟩
    · rw [Function.update_of_ne he] at hl
      refine Or.inr ⟨?_, i, hi, hl⟩
      intro h
      subst h
      exact ha i hi he w hl
  · intro h
    rcases h with ⟨rfl, rfl⟩ | ⟨hne, i, hi, hl⟩
    · exact ⟨j, hj, by simp⟩
    · refine ⟨i, hi, ?_⟩
      rw [Function.update_of_ne, hl]
      intro h
      subst h
      exact hne (ho k' w hl)

theorem holds_kill {t : ℕ → Slot K V} {n j : ℕ} {home : K → ℕ} (hs : Sound t n home) (hj : j < n) {k : K} {v : V}
    (hl : t j = .live k v) (k' : K) (w : V) :
    Holds (Function.update t j .tomb) n k' w ↔ k' ≠ k ∧ Holds t n k' w := by
  refine ⟨?_, ?_⟩
  · intro h
    obtain ⟨i, hi, hl'⟩ := h
    have he : i ≠ j := by rintro rfl; simp at hl'
    rw [Function.update_of_ne he] at hl'
    refine ⟨?_, i, hi, hl'⟩
    intro h
    subst h
    exact he (hs.unique i hi j hj k' w v hl' hl)
  · intro h
    obtain ⟨hne, i, hi, hl'⟩ := h
    refine ⟨i, hi, ?_⟩
    rw [Function.update_of_ne, hl']
    intro h
    subst h
    rw [hl] at hl'
    simp only [Slot.live.injEq] at hl'
    exact hne hl'.1.symm

/-! ## Counting slots -/

def count (p : Slot K V → Bool) (t : ℕ → Slot K V) (n : ℕ) : ℕ := ((Finset.range n).filter fun j => p (t j)).card

def Slot.isLive : Slot K V → Bool
  | .live _ _ => true
  | _ => false

def Slot.isTomb : Slot K V → Bool
  | .tomb => true
  | _ => false

/-- writing one slot moves the count from the old content to the new one -/
theorem count_update (p : Slot K V → Bool) (t : ℕ → Slot K V) {n j : ℕ} (hj : j < n) (x : Slot K V) :
    count p (Function.update t j x) n + (p (t j)).toNat = count p t n + (p x).toNat := by
  have hsplit : ∀ u : ℕ → Slot K V,
      count p u n = (((Finset.range n).erase j).filter fun i => p (u i)).card + (p (u j)).toNat := by
    intro u
    unfold count
    rw [← Finset.insert_erase (Finset.mem_range.2 hj), Finset.filter_insert]
    cases hp : p (u j) with
    | false => simp
    | true => simp [Finset.card_insert_of_notMem]
  have hrest : ((Finset.range n).erase j).filter (fun i => p (Function.update t j x i)) =
      ((Finset.range n).erase j).filter fun i => p (t i) := by
    apply Finset.filter_congr
    intro i hi
    rw [Function.update_of_ne (Finset.ne_of_mem_erase hi)]
  rw [hsplit t, hsplit (Function.update t j x), hrest, Function.update_self]
  omega

theorem count_empty (p : Slot K V → Bool) (hp : p .empty = false) (n : ℕ) : count p (fun _ => .empty) n = 0 := by
  simp [count, hp]

theorem count_eq_zero {p : Slot K V → Bool} {t : ℕ → Slot K V} {n : ℕ} (h : count p t n = 0) :
    ∀ j < n, p (t j) = false := by
  intro j hj
  have := Finset.card_eq_zero.1 h
  rw [Finset.filter_eq_empty_iff] at this
  simpa using this (Finset.mem_range.2 hj)

theorem exists_empty {t : ℕ → Slot K V} {n : ℕ} (h : count Slot.isLive t n + count Slot.isTomb t n < n) :
    ∃ j < n, t j = .empty := by
  by_contra hc
  have hall : ∀ j < n, t j ≠ .empty := fun j hj he => hc ⟨j, hj, he⟩
  have hunion : (Finset.range n).filter (fun j => (t j).isLive) ∪ (Finset.range n).filter (fun j => (t j).isTomb) =
      Finset.range n := by
    ext j
    simp only [Finset.mem_union, Finset.mem_filter, Finset.mem_range]
    refine ⟨?_, ?_⟩
    · rintro (⟨hj, -⟩ | ⟨hj, -⟩) <;> exact hj
    · intro hj
      have := hall j hj
      cases hs : t j with
      | empty => exact absurd hs this
      | tomb => exact Or.inr ⟨hj, rfl⟩
      | live k v => exact Or.inl ⟨hj, rfl⟩
  have hle := Finset.card_union_le ((Finset.range n).filter fun j => (t j).isLive)
    ((Finset.range n).filter fun j => (t j).isTomb)
  rw [hunion, Finset.card_range] at hle
  simp only [count] at h
  omega

/-- one live slot for each key held -/
theorem count_isLive {t : ℕ → Slot K V} {n : ℕ} {home : K → ℕ} (hs : Sound t n home) :
    count Slot.isLive t n = {k | ∃ v, Holds t n k v}.ncard := by
  have hlive : ∀ j ∈ (Finset.range n).filter (fun j => (t j).isLive), ∃ k v, t j = .live k v := by
    intro j hj
    rw [Finset.mem_filter] at hj
    cases h : t j with
    | empty => rw [h] at hj; simp [Slot.isLive] at hj
    | tomb => rw [h] at hj; simp [Slot.isLive] at hj
    | live k v => exact ⟨k, v, rfl⟩
  choose key value hkey using hlive
  rw [count, ← Set.ncard_coe_finset]
  refine Set.ncard_congr key ?_ ?_ ?_
  · intro j hj
    exact ⟨value j hj, j, Finset.mem_range.1 (Finset.mem_filter.1 hj).1, hkey j hj⟩
  · intro i j hi hj he
    have hlj := hkey j hj
    rw [← he] at hlj
    exact hs.unique i (Finset.mem_range.1 (Finset.mem_filter.1 hi).1) j (Finset.mem_range.1 (Finset.mem_filter.1 hj).1)
      (key i hi) (value i hi) (value j hj) (hkey i hi) hlj
  · intro k hk
    obtain ⟨v, j, hj, hl⟩ := hk
    have hmem : j ∈ (Finset.range n).filter (fun j => (t j).isLive) := by
      rw [Finset.mem_filter, hl]
      exact ⟨Finset.mem_range.2 hj, rfl⟩
    refine ⟨j, hmem, ?_⟩
    have he := (hkey j hmem).symm.trans hl
    simp only [Slot.live.injEq] at he
    exact he.1

end Update

end OpenAddressing
