/-
The reservation hashmap over whole runs: it is a finite map.

A run is any sequence of hashmap_put, hashmap_get, hashmap_remove and hashmap_clear from hashmap_init. What a key holds
is said by the sequence (`MapHistory.LatestPut`), not by the table. Results:
- `hashmapOp_keeps`: one operation acts on the content as that of a map and keeps the table's invariant;
- `WellFormed.of_ok`: what the invariant says of capacity, tombstones, keys, probes and the assertion in rehash();
- `hashmap_is_finite_map`: both, after any run.
-/
import RiscvEmu.Hashmap
import RiscvEmu.Lib.MapHistory

namespace RiscvEmu

open OpenAddressing MapHistory

/-! ## Runs -/

def hashmapOp (map : HashmapData) : Op Word Word → HashmapData
  | .put key value => hashmapPut map key value
  | .get _ => map
  | .remove key => (hashmapRemove map key).2
  | .clear => hashmapClear map

/-- the struct after a sequence of operations on a fresh one -/
def hashmapRun (ops : List (Op Word Word)) : HashmapData := ops.foldl hashmapOp hashmapInit

theorem hashmapOp_keeps : Keeps hashmapOp HashmapData.Ok HashmapData.Stored where
  ok := by
    intro m op h
    cases op with
    | put key value => exact (h.put key value).1
    | get key => exact h
    | remove key => exact (h.remove key).1
    | clear => exact h.clear
  put := fun m key value h => (h.put key value).2
  get := fun m key h k v => Iff.rfl
  remove := fun m key h => (h.remove key).2.2
  clear := fun m h => HashmapData.not_stored_zero m.capacity

theorem hashmapRun_ok (ops : List (Op Word Word)) : (hashmapRun ops).Ok :=
  hashmapOp_keeps.ok_run (HashmapData.ok_init 0) ops

theorem hashmapRun_stored (ops : List (Op Word Word)) (k v : Word) :
    (hashmapRun ops).Stored k v ↔ LatestPut ops k v :=
  hashmapOp_keeps.holds_run (HashmapData.ok_init 0) (HashmapData.not_stored_zero _) ops k v

/-! ## The table itself -/

namespace HashmapEntry

/-- the entry holds a key -/
def Live (e : HashmapEntry) : Prop := e.occupied = true ∧ e.deleted = false

def Tombstone (e : HashmapEntry) : Prop := e.occupied = true ∧ e.deleted = true

theorem slot_of_live {e : HashmapEntry} (h : e.Live) : e.slot = .live e.key e.value := by
  simp [slot, h.1, h.2]

theorem isTomb_slot {e : HashmapEntry} : e.slot.isTomb = true ↔ e.Tombstone := by
  rcases e with ⟨k, v, o, d⟩
  cases o <;> cases d <;> simp [slot, Slot.isTomb, Tombstone]

end HashmapEntry

namespace HashmapData

/-- the loop of probe() leaves through one of its returns: at a never-occupied slot or at the key -/
def ProbeEnds (m : HashmapData) (key : Word) : Prop :=
  ∃ i < m.capacity, let e := m.entries (((hashUint32 key).toNat % m.capacity + i) % m.capacity)
    e.occupied = false ∨ (e.Live ∧ e.key = key)

/-- the assertion in rehash(), at every entry it re-inserts -/
def RehashAsserts (m : HashmapData) : Prop :=
  ∀ i < m.capacity, (m.entries i).Live →
    (probe (rehashUpTo m (m.capacity * growthFactor) i) (m.entries i).key).1 = false

/-- the law of the table -/
structure WellFormed (m : HashmapData) : Prop where
  capacity : ∃ e, m.capacity = 128 * 2 ^ e
  tombstones : m.tombstoneCount = {i | i < m.capacity ∧ (m.entries i).Tombstone}.ncard
  unique : ∀ i < m.capacity, ∀ j < m.capacity, (m.entries i).Live → (m.entries j).Live →
    (m.entries i).key = (m.entries j).key → i = j
  vacant : ∃ i < m.capacity, (m.entries i).occupied = false
  probes : ∀ key, m.ProbeEnds key
  asserts : m.RehashAsserts

theorem Ok.vacant {m : HashmapData} (h : m.Ok) : ∃ i < m.capacity, (m.entries i).occupied = false := by
  obtain ⟨i, hi, he⟩ := h.exists_empty
  refine ⟨i, hi, ?_⟩
  simp only [slots] at he
  rcases hm : m.entries i with ⟨k, v, o, d⟩
  rw [hm] at he
  cases o <;> cases d <;> simp_all [HashmapEntry.slot]

theorem Ok.tombstoneCount_eq {m : HashmapData} (h : m.Ok) :
    m.tombstoneCount = {i | i < m.capacity ∧ (m.entries i).Tombstone}.ncard := by
  rw [h.tombs, count, ← Set.ncard_coe_finset]
  congr 1
  ext i
  rw [Finset.mem_coe, Finset.mem_filter, Finset.mem_range]
  exact and_congr_right fun _ => HashmapEntry.isTomb_slot

theorem Ok.rehashAsserts {m : HashmapData} (h : m.Ok) : m.RehashAsserts := by
  intro i hi hl
  have hinv := rehashUpTo_inv h (le_of_lt hi)
  have habs := hinv.absent h hi (HashmapEntry.slot_of_live hl)
  have hans := hinv.ok.probe_answer (m.entries i).key
  rcases hp : probe (rehashUpTo m (m.capacity * growthFactor) i) (m.entries i).key with ⟨found, idx⟩
  rw [hp] at hans
  cases hans with
  | found j w hj hw => exact absurd hw (habs idx hj w)
  | vacant j hj hv hr ha => rfl

theorem WellFormed.of_ok {m : HashmapData} (h : m.Ok) : m.WellFormed where
  capacity := h.cap
  tombstones := h.tombstoneCount_eq
  unique := by
    intro i hi j hj hli hlj hk
    have hsi := HashmapEntry.slot_of_live hli
    rw [hk] at hsi
    exact h.sound.unique i hi j hj _ _ _ hsi (HashmapEntry.slot_of_live hlj)
  vacant := h.vacant
  probes := by
    intro key
    obtain ⟨j, hj, he⟩ := h.vacant
    obtain ⟨i, hi, hp⟩ := exists_pos ((hashUint32 key).toNat % m.capacity) j hj
    refine ⟨i, hi, Or.inl ?_⟩
    rw [show ((hashUint32 key).toNat % m.capacity + i) % m.capacity = j from hp]
    exact he
  asserts := h.rehashAsserts

end HashmapData

/-! ## The law -/

/-- **The reservation hashmap is a finite map.** After any run, get answers the latest put, remove answers whether the
key is present, the size is the number of keys present, and the table is well formed. -/
theorem hashmap_is_finite_map (ops : List (Op Word Word)) :
    (∀ key value, hashmapGet (hashmapRun ops) key = some value ↔ LatestPut ops key value) ∧
      (∀ key, (hashmapRemove (hashmapRun ops) key).1 = true ↔ ∃ value, LatestPut ops key value) ∧
      (hashmapRun ops).size = {key | ∃ value, LatestPut ops key value}.ncard ∧
      (hashmapRun ops).WellFormed := by
  have hok := hashmapRun_ok ops
  refine ⟨?_, ?_, ?_, .of_ok hok⟩
  · intro key value
    rw [hok.get, hashmapRun_stored]
  · intro key
    rw [(hok.remove key).2.1]
    simp only [hashmapRun_stored]
  · rw [hok.live, count_isLive hok.sound]
    simp only [← hashmapRun_stored]
    rfl

end RiscvEmu
