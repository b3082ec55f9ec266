/-
hashmap_u32.c: the open-addressing map from uint32 to uint32 that holds the LR.W reservations.

The C struct is `HashmapData`, with `entries` a function read below `capacity`; calloc never fails and the load-factor
test is the exact ratio 3/4. `Hashmap` is the struct together with its invariant `HashmapData.Ok`, which every operation
keeps, so that a machine state never holds an ill-formed table. Its content is what `Hashmap.get` answers:
- `Hashmap.get_put`, `Hashmap.get_remove`, `Hashmap.get_clear`: the operations are those of a finite map;
- `Hashmap.get_of_size_zero`: nothing is stored when the size field is zero.
-/
import Mathlib.Tactic.Ring
import RiscvEmu.Basic
import RiscvEmu.Lib.OpenAddressing

namespace RiscvEmu

open OpenAddressing

/-! ## Model -/

structure HashmapEntry where
  key : Word
  value : Word
  occupied : Bool
  deleted : Bool
deriving DecidableEq, Repr

/-- an entry as calloc and memset leave it -/
def HashmapEntry.zero : HashmapEntry := ⟨0, 0, false, false⟩

structure HashmapData where
  entries : ℕ → HashmapEntry
  capacity : ℕ
  size : ℕ
  tombstoneCount : ℕ

def initialCapacity : ℕ := 128
def growthFactor : ℕ := 2

def hashUint32 (key : Word) : Word :=
  let h := key
  let h := h ^^^ (h >>> 16)
  let h := h * 0x85ebca6b
  let h := h ^^^ (h >>> 13)
  let h := h * 0xc2b2ae35
  h ^^^ (h >>> 16)

/-- the for loop of probe() from its i-th round, with `fuel` rounds left -/
def probeFrom (m : HashmapData) (key : Word) (index : ℕ) : ℕ → ℕ → Option ℕ → Bool × ℕ
  | 0, _, _ => (false, 0)
  | fuel + 1, i, firstDeleted =>
    let idx := (index + i) % m.capacity
    let entry := m.entries idx
    if !entry.occupied then
      match firstDeleted with
      | some j => (false, j)
      | none => (false, idx)
    else if entry.deleted then
      probeFrom m key index fuel (i + 1) (if firstDeleted = none then some idx else firstDeleted)
    else if entry.key = key then (true, idx)
    else probeFrom m key index fuel (i + 1) firstDeleted

/-- probe(): whether the key was found, and the index returned -/
def probe (m : HashmapData) (key : Word) : Bool × ℕ :=
  probeFrom m key ((hashUint32 key).toNat % m.capacity) m.capacity 0 none

/-- one round of the loop of rehash(): re-insert the old entry when it is live -/
def rehashInsert (map : HashmapData) (entry : HashmapEntry) : HashmapData :=
  if entry.occupied && !entry.deleted then
    let idx := (probe map entry.key).2
    { map with
      entries := Function.update map.entries idx { entry with deleted := false, occupied := true }
      size := map.size + 1 }
  else map

def rehash (map : HashmapData) (newCapacity : ℕ) : HashmapData :=
  let newCapacity := if newCapacity < initialCapacity then initialCapacity else newCapacity
  (List.range map.capacity).foldl (fun m i => rehashInsert m (map.entries i))
    ⟨fun _ => .zero, newCapacity, 0, 0⟩

def hashmapInit : HashmapData := ⟨fun _ => .zero, initialCapacity, 0, 0⟩

def hashmapPut (map : HashmapData) (key value : Word) : HashmapData :=
  let map :=
    if 3 * map.capacity ≤ 4 * (map.size + map.tombstoneCount) then rehash map (map.capacity * growthFactor) else map
  let (found, idx) := probe map key
  if found then { map with entries := Function.update map.entries idx { map.entries idx with value := value } }
  else
    { map with
      tombstoneCount := if (map.entries idx).deleted then map.tombstoneCount - 1 else map.tombstoneCount
      entries := Function.update map.entries idx ⟨key, value, true, false⟩
      size := map.size + 1 }

def hashmapGet (map : HashmapData) (key : Word) : Option Word :=
  let (found, idx) := probe map key
  if found then some (map.entries idx).value else none

def hashmapRemove (map : HashmapData) (key : Word) : Bool × HashmapData :=
  let (found, idx) := probe map key
  if found then
    (true, { map with
      entries := Function.update map.entries idx { map.entries idx with deleted := true }
      size := map.size - 1
      tombstoneCount := map.tombstoneCount + 1 })
  else (false, map)

def hashmapClear (map : HashmapData) : HashmapData :=
  { map with entries := fun _ => .zero, size := 0, tombstoneCount := 0 }

/-! ## The table as open addressing -/

def HashmapEntry.slot (e : HashmapEntry) : Slot Word Word :=
  if !e.occupied then .empty else if e.deleted then .tomb else .live e.key e.value

@[simp] theorem HashmapEntry.slot_zero : HashmapEntry.zero.slot = .empty := rfl

namespace HashmapData

def slots (m : HashmapData) : ℕ → Slot Word Word := fun i => (m.entries i).slot

def home (capacity : ℕ) (key : Word) : ℕ := (hashUint32 key).toNat % capacity

/-- the invariant of the reservation table -/
structure Ok (m : HashmapData) : Prop where
  cap : ∃ e, m.capacity = initialCapacity * 2 ^ e
  sound : Sound m.slots m.capacity (home m.capacity)
  live : m.size = count Slot.isLive m.slots m.capacity
  tombs : m.tombstoneCount = count Slot.isTomb m.slots m.capacity
  room : m.size + m.tombstoneCount < m.capacity
  flags : ∀ i, (m.entries i).deleted = true → (m.entries i).occupied = true

theorem Ok.exists_empty {m : HashmapData} (h : m.Ok) : ∃ j < m.capacity, m.slots j = .empty :=
  OpenAddressing.exists_empty (by have := h.room; rw [h.live, h.tombs] at this; exact this)

theorem slots_update (f : ℕ → HashmapEntry) (i : ℕ) (e : HashmapEntry) :
    (fun j => (Function.update f i e j).slot) = Function.update (fun j => (f j).slot) i e.slot := by
  funext j
  by_cases h : j = i
  · subst h; simp
  · simp [Function.update_of_ne h]

end HashmapData

theorem probeFrom_eq_searchFrom (m : HashmapData) (key : Word) (index : ℕ) :
    ∀ (fuel i : ℕ) (first : Option ℕ),
      probeFrom m key index fuel i first = searchFrom m.slots m.capacity index key fuel i first := by
  intro fuel
  induction fuel with
  | zero => intro i first; rfl
  | succ fuel ih =>
    intro i first
    have hslot : m.slots (OpenAddressing.pos m.capacity index i) = (m.entries ((index + i) % m.capacity)).slot := rfl
    simp only [probeFrom, searchFrom, hslot]
    rcases m.entries ((index + i) % m.capacity) with ⟨k, v, o, d⟩
    cases o <;> cases d <;> cases first <;> simp [HashmapEntry.slot, OpenAddressing.pos, ih]

theorem probe_eq_search (m : HashmapData) (key : Word) :
    probe m key = search m.slots m.capacity (HashmapData.home m.capacity key) key :=
  probeFrom_eq_searchFrom m key _ _ _ _

theorem HashmapData.Ok.probe_answer {m : HashmapData} (h : m.Ok) (key : Word) :
    Answer m.slots m.capacity (home m.capacity key) key (probe m key) := by
  rw [probe_eq_search]
  exact search_spec m.slots m.capacity (home m.capacity) key h.exists_empty

theorem HashmapEntry.slot_live {e : HashmapEntry} {k v : Word} (h : e.slot = .live k v) :
    e = ⟨k, v, true, false⟩ := by
  rcases e with ⟨k', v', o, d⟩
  cases o <;> cases d <;> simp [HashmapEntry.slot] at h ⊢
  exact h

theorem HashmapEntry.slot_tomb {e : HashmapEntry} (h : e.slot = .tomb) : e.deleted = true := by
  rcases e with ⟨k', v', o, d⟩
  cases o <;> cases d <;> simp_all [HashmapEntry.slot]

/-! ## The operations keep the invariant -/

namespace HashmapData

/-- the keys and values stored in the table -/
def Stored (m : HashmapData) (key value : Word) : Prop := Holds m.slots m.capacity key value

theorem ok_init (e : ℕ) : Ok ⟨fun _ => .zero, initialCapacity * 2 ^ e, 0, 0⟩ where
  cap := ⟨e, rfl⟩
  sound := sound_empty _ _
  live := (count_empty _ rfl _).symm
  tombs := (count_empty _ rfl _).symm
  room := Nat.mul_pos (by decide) (Nat.two_pow_pos e)
  flags := by simp [HashmapEntry.zero]

theorem not_stored_zero (c : ℕ) (key value : Word) : ¬ Stored ⟨fun _ => .zero, c, 0, 0⟩ key value := by
  intro h
  obtain ⟨j, -, hl⟩ := h
  simp [slots] at hl

/-- the struct after a new key is written at index idx -/
def insertAt (m : HashmapData) (idx : ℕ) (key value : Word) : HashmapData :=
  { m with
    tombstoneCount := if (m.entries idx).deleted then m.tombstoneCount - 1 else m.tombstoneCount
    entries := Function.update m.entries idx ⟨key, value, true, false⟩
    size := m.size + 1 }

theorem slots_insertAt (m : HashmapData) (idx : ℕ) (key value : Word) :
    (m.insertAt idx key value).slots = Function.update m.slots idx (.live key value) :=
  slots_update m.entries idx _

/-- a vacant slot is a tombstone exactly when its deleted flag is set -/
theorem Ok.deleted_iff {m : HashmapData} (h : m.Ok) {idx : ℕ} (hv : m.slots idx = .empty ∨ m.slots idx = .tomb) :
    ((m.entries idx).deleted = true ↔ m.slots idx = .tomb) := by
  have hf := h.flags idx
  simp only [slots] at hv ⊢
  generalize m.entries idx = e at *
  rcases e with ⟨k, v, o, d⟩
  cases o <;> cases d <;> simp_all [HashmapEntry.slot]

theorem Ok.insertAt {m : HashmapData} (h : m.Ok) {idx : ℕ} {key : Word} (value : Word) (hj : idx < m.capacity)
    (hv : m.slots idx = .empty ∨ m.slots idx = .tomb) (hr : Reaches m.slots m.capacity (home m.capacity key) idx)
    (ha : ∀ i < m.capacity, ∀ v, m.slots i ≠ .live key v) (hroom : m.size + m.tombstoneCount + 1 < m.capacity) :
    (m.insertAt idx key value).Ok := by
  have hdel := h.deleted_iff hv
  have hlive := count_update Slot.isLive m.slots hj (.live key value)
  have htomb := count_update Slot.isTomb m.slots hj (.live key value)
  rw [← h.live] at hlive
  rw [← h.tombs] at htomb
  refine ⟨h.cap, ?_, ?_, ?_, ?_, ?_⟩
  · rw [slots_insertAt]
    exact h.sound.store value hr fun i hi _ => ha i hi
  · rw [slots_insertAt]
    rcases hv with hv | hv <;> simp only [HashmapData.insertAt, hv, Slot.isLive, Bool.toNat_false, Bool.toNat_true]
      at hlive ⊢ <;> omega
  · rw [slots_insertAt]
    rcases hv with hv | hv
    · have : (m.entries idx).deleted = false := by simpa [hv] using hdel
      simp only [HashmapData.insertAt, this, hv, Slot.isTomb, Bool.toNat_false] at htomb ⊢
      simpa using htomb.symm
    · simp only [HashmapData.insertAt, hdel.2 hv, hv, Slot.isTomb, Bool.toNat_false, Bool.toNat_true] at htomb ⊢
      simp only [ite_true]
      omega
  · have : (m.insertAt idx key value).tombstoneCount ≤ m.tombstoneCount := by
      simp only [HashmapData.insertAt]; split_ifs <;> omega
    change m.size + 1 + (m.insertAt idx key value).tombstoneCount < m.capacity
    omega
  · intro i
    by_cases he : i = idx
    · subst he; simp [HashmapData.insertAt]
    · simp only [HashmapData.insertAt, Function.update_of_ne he]; exact h.flags i

theorem stored_insertAt {m : HashmapData} {idx : ℕ} {key value : Word} (hj : idx < m.capacity)
    (hv : m.slots idx = .empty ∨ m.slots idx = .tomb) (ha : ∀ i < m.capacity, ∀ v, m.slots i ≠ .live key v)
    (k v : Word) :
    (m.insertAt idx key value).Stored k v ↔ (k = key ∧ v = value) ∨ (k ≠ key ∧ m.Stored k v) := by
  unfold Stored
  rw [slots_insertAt]
  exact holds_store hj value (fun i hi _ => ha i hi) (fun k' w hl => by rcases hv with h | h <;> simp [h] at hl) k v

/-! ### rehash -/

/-- the new table after the first i old entries have been re-inserted -/
structure RehashInv (old : HashmapData) (c i : ℕ) (m : HashmapData) : Prop where
  ok : m.Ok
  cap : m.capacity = c
  size : m.size ≤ i
  tombs : m.tombstoneCount = 0
  content : ∀ k v, m.Stored k v ↔ ∃ j < i, old.slots j = .live k v

/-- the key of an old entry is not yet in the new table when its turn comes -/
theorem RehashInv.absent {old : HashmapData} (ho : old.Ok) {c i : ℕ} {m : HashmapData} (hi : i < old.capacity)
    (h : RehashInv old c i m) {k v : Word} (hs : old.slots i = .live k v) :
    ∀ j < m.capacity, ∀ w, m.slots j ≠ .live k w := by
  intro j hj w hl
  obtain ⟨j', hj', hl'⟩ := (h.content k w).1 ⟨j, hj, hl⟩
  have := ho.sound.unique j' (by omega) i hi k w v hl' hs
  omega

theorem rehashInsert_inv {old : HashmapData} (ho : old.Ok) {c i : ℕ} {m : HashmapData} (hc : old.capacity < c)
    (hi : i < old.capacity) (h : RehashInv old c i m) : RehashInv old c (i + 1) (rehashInsert m (old.entries i)) := by
  have hskip : (∀ k v, old.slots i ≠ .live k v) → RehashInv old c (i + 1) m := fun hn =>
    ⟨h.ok, h.cap, by have := h.size; omega, h.tombs, fun k v => by
      rw [h.content k v]
      refine ⟨?_, ?_⟩
      · rintro ⟨j, hj, hl⟩; exact ⟨j, by omega, hl⟩
      · intro hx
        obtain ⟨j, hj, hl⟩ := hx
        rcases Nat.lt_succ_iff_lt_or_eq.1 hj with hlt | rfl
        · exact ⟨j, hlt, hl⟩
        · exact absurd hl (hn k v)⟩
  cases hs : old.slots i with
  | live k v =>
    have he := HashmapEntry.slot_live hs
    -- the keys re-inserted so far are other keys
    have habs := h.absent ho hi hs
    rcases hp : probe m k with ⟨found, idx⟩
    have hans := h.ok.probe_answer k
    rw [hp] at hans
    cases hans with
    | found j w hj hl => exact absurd hl (habs _ hj w)
    | vacant j hj hv hr _ =>
      have hnot : m.slots idx ≠ .tomb := by
        intro ht
        have := count_eq_zero (h.ok.tombs.symm.trans h.tombs) idx hj
        rw [ht] at this; simp [Slot.isTomb] at this
      have hd : (m.entries idx).deleted = false := by
        rw [← Bool.not_eq_true, h.ok.deleted_iff hv]; exact hnot
      have hm : rehashInsert m (old.entries i) = m.insertAt idx k v := by
        simp [rehashInsert, he, hp, HashmapData.insertAt, hd]
      have hsz := h.size
      have hcap := h.cap
      have htz := h.tombs
      rw [hm]
      refine ⟨h.ok.insertAt v hj hv hr habs (by omega), h.cap, ?_, ?_, ?_⟩
      · change m.size + 1 ≤ i + 1
        omega
      · simp [HashmapData.insertAt, hd, h.tombs]
      · intro k' v'
        rw [stored_insertAt hj hv habs, h.content]
        refine ⟨?_, ?_⟩
        · intro hx
          rcases hx with ⟨rfl, rfl⟩ | ⟨-, j, hj, hl⟩
          · exact ⟨i, by omega, hs⟩
          · exact ⟨j, by omega, hl⟩
        · intro hx
          obtain ⟨j, hj, hl⟩ := hx
          rcases Nat.lt_succ_iff_lt_or_eq.1 hj with hlt | rfl
          · refine Or.inr ⟨?_, j, hlt, hl⟩
            intro hx
            subst hx
            have := ho.sound.unique j (by omega) i hi k' v' v hl hs
            omega
          · rw [hs] at hl
            simp only [Slot.live.injEq] at hl
            exact Or.inl ⟨hl.1.symm, hl.2.symm⟩
  | empty =>
    have hm : rehashInsert m (old.entries i) = m := by
      simp only [slots] at hs
      rcases he : old.entries i with ⟨k, v, o, d⟩
      rw [he] at hs
      cases o <;> cases d <;> simp_all [HashmapEntry.slot, rehashInsert]
    rw [hm]; exact hskip (by simp [hs])
  | tomb =>
    have hm : rehashInsert m (old.entries i) = m := by
      simp [rehashInsert, HashmapEntry.slot_tomb hs]
    rw [hm]; exact hskip (by simp [hs])

/-- rehash() when i slots of the old table are behind it -/
def rehashUpTo (map : HashmapData) (newCapacity i : ℕ) : HashmapData :=
  (List.range i).foldl (fun m i => rehashInsert m (map.entries i)) ⟨fun _ => .zero, newCapacity, 0, 0⟩

theorem Ok.capacity_grows {m : HashmapData} (h : m.Ok) :
    (∃ e, m.capacity * growthFactor = initialCapacity * 2 ^ e) ∧ m.capacity < m.capacity * growthFactor ∧
      initialCapacity ≤ m.capacity * growthFactor := by
  obtain ⟨e, he⟩ := h.cap
  have hpos : 0 < 2 ^ e := Nat.two_pow_pos e
  refine ⟨⟨e + 1, ?_⟩, ?_, ?_⟩
  · rw [he, pow_succ, growthFactor]; ring
  · rw [he]; simp only [initialCapacity, growthFactor]; omega
  · rw [he]; simp only [initialCapacity, growthFactor]; omega

theorem rehash_eq_rehashUpTo {m : HashmapData} (h : m.Ok) :
    rehash m (m.capacity * growthFactor) = rehashUpTo m (m.capacity * growthFactor) m.capacity := by
  have hge := h.capacity_grows.2.2
  unfold rehash rehashUpTo
  simp only [if_neg (Nat.not_lt.2 hge)]

theorem rehashUpTo_inv {m : HashmapData} (h : m.Ok) {i : ℕ} (hi : i ≤ m.capacity) :
    RehashInv m (m.capacity * growthFactor) i (rehashUpTo m (m.capacity * growthFactor) i) := by
  obtain ⟨⟨e, hcap⟩, hlt, -⟩ := h.capacity_grows
  unfold rehashUpTo
  induction i with
  | zero =>
    refine ⟨?_, rfl, le_rfl, rfl, ?_⟩
    · rw [hcap]; exact ok_init e
    · intro k v
      refine ⟨?_, ?_⟩
      · intro hst; exact absurd hst (not_stored_zero _ k v)
      · rintro ⟨j, hj, -⟩; omega
  | succ i ih =>
    rw [List.range_succ, List.foldl_append]
    exact rehashInsert_inv h hlt (by omega) (ih (by omega))

theorem rehash_inv {m : HashmapData} (h : m.Ok) :
    RehashInv m (m.capacity * growthFactor) m.capacity (rehash m (m.capacity * growthFactor)) := by
  rw [rehash_eq_rehashUpTo h]
  exact rehashUpTo_inv h le_rfl

/-! ### put, get, remove, clear -/

/-- the table hashmap_put stores into, after the load-factor test -/
def grown (m : HashmapData) : HashmapData :=
  if 3 * m.capacity ≤ 4 * (m.size + m.tombstoneCount) then rehash m (m.capacity * growthFactor) else m

theorem Ok.capacity_ge {m : HashmapData} (h : m.Ok) : initialCapacity ≤ m.capacity := by
  obtain ⟨e, he⟩ := h.cap
  rw [he]
  exact Nat.le_mul_of_pos_right _ (Nat.two_pow_pos e)

theorem Ok.grown {m : HashmapData} (h : m.Ok) :
    m.grown.Ok ∧ m.grown.size + m.grown.tombstoneCount + 1 < m.grown.capacity ∧
      ∀ k v, m.grown.Stored k v ↔ m.Stored k v := by
  have hge : 128 ≤ m.capacity := h.capacity_ge
  unfold HashmapData.grown
  split_ifs with hload
  · have hr := rehash_inv h
    have hsz := hr.size
    refine ⟨hr.ok, ?_, fun k v => hr.content k v⟩
    rw [hr.cap, hr.tombs, growthFactor] at *
    omega
  · exact ⟨h, by omega, fun k v => Iff.rfl⟩

/-- the struct after the value at index idx is overwritten -/
def setValue (m : HashmapData) (idx : ℕ) (value : Word) : HashmapData :=
  { m with entries := Function.update m.entries idx { m.entries idx with value := value } }

/-- the struct after the entry at index idx is marked deleted -/
def deleteAt (m : HashmapData) (idx : ℕ) : HashmapData :=
  { m with
    entries := Function.update m.entries idx { m.entries idx with deleted := true }
    size := m.size - 1
    tombstoneCount := m.tombstoneCount + 1 }

theorem Ok.setValue {m : HashmapData} (h : m.Ok) {idx : ℕ} {key v : Word} (value : Word) (hj : idx < m.capacity)
    (hl : m.slots idx = .live key v) :
    (m.setValue idx value).Ok ∧
      ∀ k w, (m.setValue idx value).Stored k w ↔ (k = key ∧ w = value) ∨ (k ≠ key ∧ m.Stored k w) := by
  have he := HashmapEntry.slot_live hl
  have hs : (m.setValue idx value).slots = Function.update m.slots idx (.live key value) := by
    unfold HashmapData.setValue
    rw [he]; exact slots_update m.entries idx _
  have hother : ∀ i < m.capacity, i ≠ idx → ∀ w, m.slots i ≠ .live key w :=
    fun i hi hne w hw => hne (h.sound.unique i hi idx hj key w v hw hl)
  have hlive := count_update Slot.isLive m.slots hj (.live key value)
  have htomb := count_update Slot.isTomb m.slots hj (.live key value)
  rw [hl, ← h.live] at hlive
  rw [hl, ← h.tombs] at htomb
  refine ⟨⟨h.cap, ?_, ?_, ?_, h.room, ?_⟩, ?_⟩
  · rw [hs]; exact h.sound.store value (h.sound.reach idx hj key v hl) hother
  · rw [hs]; simpa [Slot.isLive, HashmapData.setValue] using hlive.symm
  · rw [hs]; simpa [Slot.isTomb, HashmapData.setValue] using htomb.symm
  · intro i
    by_cases hi : i = idx
    · subst hi; simp [HashmapData.setValue, he]
    · simp only [HashmapData.setValue, Function.update_of_ne hi]; exact h.flags i
  · intro k w
    unfold Stored
    rw [hs]
    exact holds_store hj value hother (fun k' w' hw => by rw [hl] at hw; simp_all) k w

theorem Ok.put {m : HashmapData} (h : m.Ok) (key value : Word) :
    (hashmapPut m key value).Ok ∧
      ∀ k v, (hashmapPut m key value).Stored k v ↔ (k = key ∧ v = value) ∨ (k ≠ key ∧ m.Stored k v) := by
  obtain ⟨hg, hroom, hst⟩ := h.grown
  have hput : hashmapPut m key value = if (probe m.grown key).1 then m.grown.setValue (probe m.grown key).2 value
      else m.grown.insertAt (probe m.grown key).2 key value := rfl
  rcases hp : probe m.grown key with ⟨found, idx⟩
  have hans := hg.probe_answer key
  rw [hp] at hans hput
  rw [hput]
  cases hans with
  | found j v hj hl =>
    obtain ⟨h1, h2⟩ := hg.setValue value hj hl
    exact ⟨h1, fun k w => by rw [← hst]; exact h2 k w⟩
  | vacant j hj hv hr ha =>
    have habs := hg.sound.absent ha
    exact ⟨hg.insertAt value hj hv hr habs hroom, fun k w => by rw [← hst]; exact stored_insertAt hj hv habs k w⟩

theorem Ok.get {m : HashmapData} (h : m.Ok) (key v : Word) : hashmapGet m key = some v ↔ m.Stored key v := by
  have hget : hashmapGet m key = if (probe m key).1 then some (m.entries (probe m key).2).value else none := rfl
  rcases hp : probe m key with ⟨found, idx⟩
  have hans := h.probe_answer key
  rw [hp] at hans hget
  rw [hget]
  cases hans with
  | found j w hj hl =>
    have he := HashmapEntry.slot_live hl
    simp only [ite_true, he, Option.some.injEq]
    refine ⟨?_, ?_⟩
    · rintro rfl; exact ⟨idx, hj, hl⟩
    · intro hs; exact Holds.unique h.sound ⟨idx, hj, hl⟩ hs
  | vacant j hj hv hr ha =>
    simp only [Bool.false_eq_true, ite_false, reduceCtorEq, false_iff]
    intro hx
    obtain ⟨i, hi, hl⟩ := hx
    exact h.sound.absent ha i hi v hl

theorem Ok.deleteAt {m : HashmapData} (h : m.Ok) {idx : ℕ} {key v : Word} (hj : idx < m.capacity)
    (hl : m.slots idx = .live key v) :
    (m.deleteAt idx).Ok ∧ ∀ k w, (m.deleteAt idx).Stored k w ↔ k ≠ key ∧ m.Stored k w := by
  have he := HashmapEntry.slot_live hl
  have hs : (m.deleteAt idx).slots = Function.update m.slots idx .tomb := by
    unfold HashmapData.deleteAt
    rw [he]; exact slots_update m.entries idx _
  have hlive := count_update Slot.isLive m.slots hj .tomb
  have htomb := count_update Slot.isTomb m.slots hj .tomb
  rw [hl, ← h.live, ← hs] at hlive
  rw [hl, ← h.tombs, ← hs] at htomb
  simp only [Slot.isLive, Bool.toNat_true, Bool.toNat_false] at hlive
  simp only [Slot.isTomb, Bool.toNat_true, Bool.toNat_false] at htomb
  have hroom := h.room
  refine ⟨⟨h.cap, ?_, ?_, ?_, ?_, ?_⟩, ?_⟩
  · rw [hs]; exact h.sound.kill idx
  · change m.size - 1 = count Slot.isLive (m.deleteAt idx).slots m.capacity; omega
  · change m.tombstoneCount + 1 = count Slot.isTomb (m.deleteAt idx).slots m.capacity; omega
  · change m.size - 1 + (m.tombstoneCount + 1) < m.capacity; omega
  · intro i
    by_cases hi : i = idx
    · subst hi; simp [HashmapData.deleteAt, he]
    · simp only [HashmapData.deleteAt, Function.update_of_ne hi]; exact h.flags i
  · intro k w
    unfold Stored
    rw [hs]
    exact holds_kill h.sound hj hl k w

theorem Ok.remove {m : HashmapData} (h : m.Ok) (key : Word) :
    (hashmapRemove m key).2.Ok ∧ ((hashmapRemove m key).1 = true ↔ ∃ v, m.Stored key v) ∧
      ∀ k v, (hashmapRemove m key).2.Stored k v ↔ k ≠ key ∧ m.Stored k v := by
  rcases hp : probe m key with ⟨found, idx⟩
  have hans := h.probe_answer key
  rw [hp] at hans
  cases hans with
  | found j w hj hl =>
    have hrem : hashmapRemove m key = (true, m.deleteAt idx) := by simp [hashmapRemove, hp, HashmapData.deleteAt]
    obtain ⟨h1, h2⟩ := h.deleteAt hj hl
    rw [hrem]
    exact ⟨h1, by simp only [true_iff]; exact ⟨w, idx, hj, hl⟩, h2⟩
  | vacant j hj hv hr ha =>
    have hrem : hashmapRemove m key = (false, m) := by simp [hashmapRemove, hp]
    have habs : ∀ v, ¬ m.Stored key v := by
      rintro v ⟨i, hi, hl⟩
      exact h.sound.absent ha i hi v hl
    rw [hrem]
    refine ⟨h, ?_, ?_⟩
    · simp only [Bool.false_eq_true, false_iff, not_exists]; exact habs
    · intro k v
      refine ⟨?_, ?_⟩
      · intro hk; refine ⟨?_, hk⟩; rintro rfl; exact habs v hk
      · exact And.right

theorem Ok.clear {m : HashmapData} (h : m.Ok) : (hashmapClear m).Ok where
  cap := h.cap
  sound := sound_empty _ _
  live := (count_empty _ rfl _).symm
  tombs := (count_empty _ rfl _).symm
  room := by have := h.capacity_ge; simp only [initialCapacity, hashmapClear] at *; omega
  flags := by simp [hashmapClear, HashmapEntry.zero]

end HashmapData

/-! ## The table with its invariant -/

/-- the reservation table of a machine state -/
structure Hashmap where
  data : HashmapData
  ok : data.Ok

namespace Hashmap

def init : Hashmap := ⟨hashmapInit, HashmapData.ok_init 0⟩
def put (m : Hashmap) (key value : Word) : Hashmap := ⟨hashmapPut m.data key value, (m.ok.put key value).1⟩
def get (m : Hashmap) (key : Word) : Option Word := hashmapGet m.data key
def remove (m : Hashmap) (key : Word) : Hashmap := ⟨(hashmapRemove m.data key).2, (m.ok.remove key).1⟩
def clear (m : Hashmap) : Hashmap := ⟨hashmapClear m.data, m.ok.clear⟩
def size (m : Hashmap) : ℕ := m.data.size

theorem get_put (m : Hashmap) (key value k : Word) :
    (m.put key value).get k = if k = key then some value else m.get k := by
  obtain ⟨hok, hst⟩ := m.ok.put key value
  split_ifs with hk
  · exact (hok.get k value).2 ((hst k value).2 (Or.inl ⟨hk, rfl⟩))
  · apply Option.ext
    intro v
    rw [show (m.put key value).get k = some v ↔ _ from hok.get k v, hst,
      show m.get k = some v ↔ _ from m.ok.get k v]
    simp [hk]

theorem get_remove (m : Hashmap) (key k : Word) : (m.remove key).get k = if k = key then none else m.get k := by
  obtain ⟨hok, -, hst⟩ := m.ok.remove key
  apply Option.ext
  intro v
  rw [show (m.remove key).get k = some v ↔ _ from hok.get k v, hst]
  split_ifs with hk
  · simp [hk]
  · rw [show m.get k = some v ↔ _ from m.ok.get k v]; simp [hk]

theorem get_of_size_zero {m : Hashmap} (h : m.size = 0) (k : Word) : m.get k = none := by
  rw [Option.eq_none_iff_forall_not_mem]
  intro v hv
  obtain ⟨j, hj, hl⟩ := (m.ok.get k v).1 hv
  have := count_eq_zero (m.ok.live.symm.trans h) j hj
  rw [hl] at this
  simp [Slot.isLive] at this

theorem get_clear (m : Hashmap) (k : Word) : m.clear.get k = none := get_of_size_zero rfl k

end Hashmap

end RiscvEmu
