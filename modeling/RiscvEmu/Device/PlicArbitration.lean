/-
Arbitration at the PLIC. The specification breaks ties towards the lowest source; the loop of plic_best_source takes a later
source of equal priority over an earlier one.
Results:
- `foldl_last`, `le_plicBestSource`: of the sources of highest priority the loop ends at the last;
- `plic_arbitrates_iff`: so it follows the specification exactly when no two sources tie at the top.
-/
import RiscvEmu.Device.PlicClaim

namespace RiscvEmu

/-- the source the specification picks: 0 when none is eligible, else the lowest of the eligible ones of highest priority -/
structure Arbitrates (p : Plic) (ctx best : ℕ) : Prop where
  none : best = 0 ↔ ∀ id, ¬ eligible p ctx id
  maximal : best ≠ 0 → eligible p ctx best ∧ ∀ id, eligible p ctx id → p.priority id ≤ p.priority best
  lowest : best ≠ 0 → ∀ id, eligible p ctx id → p.priority id = p.priority best → best ≤ id

/-- an eligible source of highest priority -/
def topmost (p : Plic) (ctx id : ℕ) : Prop :=
  eligible p ctx id ∧ ∀ i, eligible p ctx i → p.priority i ≤ p.priority id

section
variable (p : Plic) (ctx : ℕ)

/-- in an ascending list of sources, none that the loop has seen after its best is as good -/
theorem foldl_last {l : List ℕ} (hl : l.Pairwise (· < ·)) : ∀ id ∈ l, qualifies p ctx id →
    p.priority id = (l.foldl (plicBestStep p ctx) (0, 0)).2 → id ≤ (l.foldl (plicBestStep p ctx) (0, 0)).1 := by
  induction l using List.reverseRecOn with
  | nil => intro id hid; cases hid
  | append_singleton l a ih =>
    obtain ⟨hsorted, -, hlast⟩ := List.pairwise_append.1 hl
    have hfound := found_foldl p ctx l
    rw [List.foldl_append, List.foldl_cons, List.foldl_nil, plicBestStep_eq]
    specialize ih hsorted
    generalize l.foldl (plicBestStep p ctx) (0, 0) = b at ih hfound ⊢
    intro id hid hq hpri
    split_ifs at hpri ⊢ with h
    · rcases List.mem_append.1 hid with hmem | hmem
      · exact Nat.le_of_lt (hlast id hmem a List.mem_cons_self)
      · exact Nat.le_of_eq (List.mem_singleton.1 hmem)
    · rcases List.mem_append.1 hid with hmem | hmem
      · exact ih id hmem hq hpri
      · -- a source as good as the best would have been taken
        rw [List.mem_singleton.1 hmem] at hq hpri
        exact absurd ⟨hq, BitVec.le_of_eq hpri.symm⟩ h

/-- **The loop ends at the last of the topmost sources.** -/
theorem le_plicBestSource {id : ℕ} (h : topmost p ctx id) : id ≤ plicBestSource p ctx := by
  rcases plicBestSource_spec p ctx with ⟨-, hno⟩ | ⟨he, hmax⟩
  · exact absurd h.1 (hno id)
  · have hpri : p.priority id = p.priority (plicBestSource p ctx) :=
      BitVec.le_antisymm (hmax id h.1) (h.2 _ he)
    have hfound := found_foldl p ctx (List.range' 1 plicNdev)
    have hlast := foldl_last p ctx List.pairwise_lt_range' id (mem_sources.2 h.1.1) h.1.2
    rcases hfound with ⟨-, hno⟩ | ⟨-, -, hbest, -⟩
    · exact absurd h.1.2 (hno id (mem_sources.2 h.1.1))
    · exact hlast (hpri.trans hbest.symm)

/-- **When arbitration follows the specification.** -/
theorem plic_arbitrates_iff :
    Arbitrates p ctx (plicBestSource p ctx) ↔ ∀ i j, topmost p ctx i → topmost p ctx j → i = j := by
  have hspec := plicBestSource_spec p ctx
  constructor
  · intro h i j hi hj
    have htop : ∀ {k}, topmost p ctx k → k = plicBestSource p ctx := fun {k} hk => by
      have hle := le_plicBestSource p ctx hk
      have hne : plicBestSource p ctx ≠ 0 := fun h0 => h.none.1 h0 k hk.1
      obtain ⟨he, hmax⟩ := h.maximal hne
      have hpri : p.priority k = p.priority (plicBestSource p ctx) := BitVec.le_antisymm (hmax k hk.1) (hk.2 _ he)
      exact Nat.le_antisymm hle (h.lowest hne k hk.1 hpri)
    exact (htop hi).trans (htop hj).symm
  · intro huniq
    have hne := plicBestSource_ne_zero p ctx
    refine ⟨?_, ?_, ?_⟩
    · rw [← not_exists, ← hne, not_not]
    · intro h
      exact hspec.resolve_left fun h0 => h h0.1
    · intro h id hid hpri
      obtain ⟨he, hmax⟩ := hspec.resolve_left fun h0 => h h0.1
      have hid' : topmost p ctx id := ⟨hid, fun i hi => by rw [hpri]; exact hmax i hi⟩
      exact Nat.le_of_eq (huniq _ _ ⟨he, hmax⟩ hid')

end

/-- sources 1 and 2 pending, enabled for context 0 and of priority 1 -/
def tiedPlic : Plic := { plicInit with pending := 6, enable := fun _ => 6, priority := fun _ => 1 }

theorem tie_to_highest : ¬ Arbitrates tiedPlic 0 (plicBestSource tiedPlic 0) := by
  intro h
  have hbest : plicBestSource tiedPlic 0 = 2 := by decide
  rw [hbest] at h
  have heligible : eligible tiedPlic 0 1 := ⟨by decide, by decide⟩
  exact absurd (h.lowest (by decide) 1 heligible rfl) (by decide)

end RiscvEmu
