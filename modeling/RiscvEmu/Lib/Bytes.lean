/-
Byte-addressed memories and little-endian words, over an arbitrary address width.

A memory is a function BitVec w → BitVec 8. `loadLE m a n` is the n-byte word at a, `storeLE m a n v` the memory after
writing it. Addresses wrap round, so an access of at most 2^w bytes never overlaps itself.
Results:
- `byte_loadLE`: the bytes of a loaded word are the bytes in memory;
- `loadLE_slice`: a part of a loaded word is a shorter load;
- `loadLE_eq_iff`, `gather_eq_loadLE`: two loads agree byte by byte; a loop that ors shifted bytes is a load;
- `loadLE_storeLE`: a word just written reads back;
- `storeLE_other`: a write leaves every other byte unchanged;
- `storeLE_eq_self_iff`: a write changes nothing exactly when the word is already there;
- `storeLE_eq_storeLE_iff`: two writes to disjoint words give one memory only when both change nothing;
- `lastByte_append`: what a sequence of writes leaves at each address, one more write;
- `loadLE_lastByte`: writes that agree with a word and cover it leave the word.
-/
import Mathlib.Data.BitVec
import Mathlib.Tactic.Common

namespace Bytes

variable {w : ℕ} {n : ℕ}

/-- an address by its distance from another -/
theorem add_dist (a x : BitVec w) : a + BitVec.ofNat w (x - a).toNat = x := by
  rw [BitVec.ofNat_toNat, BitVec.setWidth_eq, BitVec.add_comm, BitVec.sub_add_cancel]

theorem dist_add (a : BitVec w) {k : ℕ} (hk : k < 2 ^ w) : (a + BitVec.ofNat w k - a).toNat = k := by
  rw [BitVec.add_comm, BitVec.add_sub_cancel, BitVec.toNat_ofNat, Nat.mod_eq_of_lt hk]

/-- the distances over an address between add up -/
theorem add_dist_of_eq {base a : BitVec w} {k : ℕ} (ha : a = base + BitVec.ofNat w k) (x : BitVec w) :
    base + BitVec.ofNat w (k + (x - a).toNat) = x := by
  calc base + BitVec.ofNat w (k + (x - a).toNat)
    _ = base + BitVec.ofNat w k + BitVec.ofNat w (x - a).toNat := by rw [BitVec.ofNat_add, BitVec.add_assoc]
    _ = a + BitVec.ofNat w (x - a).toNat := by rw [← ha]
    _ = x := add_dist a x

/-- byte k of a word of n bytes -/
def byte (v : BitVec (8 * n)) (k : ℕ) : BitVec 8 := v.extractLsb' (8 * k) 8

theorem ext_byte {u v : BitVec (8 * n)} (h : ∀ k < n, byte u k = byte v k) : u = v := by
  apply BitVec.eq_of_getLsbD_eq
  intro i hi
  have hb := congrArg (fun b : BitVec 8 => b.getLsbD (i % 8)) (h (i / 8) (by omega))
  simpa [byte, Nat.mod_lt, Nat.div_add_mod] using hb

/-- the n bytes from a on, the lowest address in the lowest byte -/
def loadLE (m : BitVec w → BitVec 8) (a : BitVec w) : (n : ℕ) → BitVec (8 * n)
  | 0 => 0
  | n + 1 => loadLE m (a + 1) n ++ m a

theorem byte_loadLE (m : BitVec w → BitVec 8) (a : BitVec w) (n k : ℕ) (hk : k < n) :
    byte (loadLE m a n) k = m (a + BitVec.ofNat w k) := by
  induction n generalizing a k with
  | zero => omega
  | succ n ih =>
    apply BitVec.eq_of_getLsbD_eq
    intro i hi
    have happ := BitVec.getLsbD_append (x := loadLE m (a + 1) n) (y := m a) (i := 8 * k + i)
    cases k with
    | zero => simpa [byte, loadLE, hi] using happ
    | succ k =>
      have hrec := congrArg (fun b : BitVec 8 => b.getLsbD i) (ih (a + 1) k (by omega))
      have haddr : a + 1 + BitVec.ofNat w k = a + BitVec.ofNat w (k + 1) := by
        rw [BitVec.add_assoc, BitVec.add_comm 1, BitVec.ofNat_add]
        rfl
      have hlow : ¬ 8 * (k + 1) + i < 8 := by omega
      have hidx : 8 * (k + 1) + i - 8 = 8 * k + i := by omega
      rw [haddr] at hrec
      simp only [hlow, if_false, hidx] at happ
      simp only [byte, BitVec.getLsbD_extractLsb', hi, decide_true, Bool.true_and] at hrec ⊢
      exact happ.trans hrec

/-- a load reads the bytes it covers and no others -/
theorem loadLE_congr {m m' : BitVec w → BitVec 8} (a : BitVec w) (n : ℕ)
    (h : ∀ i < n, m (a + BitVec.ofNat w i) = m' (a + BitVec.ofNat w i)) : loadLE m a n = loadLE m' a n := by
  apply ext_byte
  intro k hk
  rw [byte_loadLE _ _ _ _ hk, byte_loadLE _ _ _ _ hk, h k hk]

theorem loadLE_eq_iff {m m' : BitVec w → BitVec 8} {a : BitVec w} {n : ℕ} :
    loadLE m a n = loadLE m' a n ↔ ∀ i < n, m (a + BitVec.ofNat w i) = m' (a + BitVec.ofNat w i) := by
  refine ⟨?_, loadLE_congr a n⟩
  intro h i hi
  rw [← byte_loadLE m a n i hi, ← byte_loadLE m' a n i hi, h]

theorem getLsbD_loadLE (m : BitVec w → BitVec 8) (a : BitVec w) {n j : ℕ} (hj : j < 8 * n) :
    (loadLE m a n).getLsbD j = (m (a + BitVec.ofNat w (j / 8))).getLsbD (j % 8) := by
  have hbyte := congrArg (fun b : BitVec 8 => b.getLsbD (j % 8)) (byte_loadLE m a n (j / 8) (by omega))
  simpa [byte, Nat.mod_lt, Nat.div_add_mod] using hbyte

/-- the loop that ors n bytes together, each shifted to its place -/
theorem gather_eq_loadLE {k : ℕ} (m : BitVec w → BitVec 8) (a : BitVec w) (n : ℕ) (h : 8 * n ≤ k) :
    (List.range n).foldl (fun v i => v ||| (m (a + BitVec.ofNat w i)).setWidth k <<< (i * 8)) 0 =
      (loadLE m a n).setWidth k := by
  apply BitVec.eq_of_getLsbD_eq
  intro j hj
  rw [BitVec.getLsbD_setWidth]
  induction n with
  | zero => simp [loadLE]
  | succ n ih =>
    rw [List.range_succ, List.foldl_append, List.foldl_cons, List.foldl_nil, BitVec.getLsbD_or, ih (by omega),
      BitVec.getLsbD_shiftLeft, BitVec.getLsbD_setWidth]
    -- below, in and above the byte just added
    rcases lt_trichotomy (j / 8) n with hlt | heq | hgt
    · rw [getLsbD_loadLE _ _ (by omega : j < 8 * n), getLsbD_loadLE _ _ (by omega : j < 8 * (n + 1))]
      simp [show j < n * 8 by omega]
    · have hlow : (loadLE m a n).getLsbD j = false := BitVec.getLsbD_of_ge _ _ (by omega)
      rw [hlow, getLsbD_loadLE _ _ (by omega : j < 8 * (n + 1)), heq]
      simp [hj, show ¬ j < n * 8 by omega, show j - n * 8 = j % 8 by omega, show j % 8 < k by omega]
    · rw [BitVec.getLsbD_of_ge _ _ (by omega : 8 * n ≤ j), BitVec.getLsbD_of_ge _ _ (by omega : 8 * (n + 1) ≤ j),
        BitVec.getLsbD_of_ge _ _ (by omega : 8 ≤ j - n * 8)]
      simp

/-- k bytes from byte j on of a loaded word are the word of k bytes loaded at j -/
theorem loadLE_slice (m : BitVec w → BitVec 8) (a : BitVec w) {n j k : ℕ} (h : j + k ≤ n) :
    (loadLE m a n >>> (8 * j)).setWidth (8 * k) = loadLE m (a + BitVec.ofNat w j) k := by
  apply ext_byte
  intro i hi
  rw [byte_loadLE _ _ _ _ hi, BitVec.add_assoc, ← BitVec.ofNat_add, ← byte_loadLE m a n (j + i) (by omega)]
  apply BitVec.eq_of_getLsbD_eq
  intro b hb
  have hin : 8 * i + b < 8 * k := by omega
  have hat : 8 * j + (8 * i + b) = 8 * (j + i) + b := by omega
  simp [byte, hb, hin, hat]

/-- the memory after writing the n bytes of v from a on -/
def storeLE (m : BitVec w → BitVec 8) (a : BitVec w) (n : ℕ) (v : BitVec (8 * n)) : BitVec w → BitVec 8 :=
  fun x => if (x - a).toNat < n then byte v (x - a).toNat else m x

theorem storeLE_other (m : BitVec w → BitVec 8) (a : BitVec w) (v : BitVec (8 * n)) {x : BitVec w}
    (h : ¬ (x - a).toNat < n) : storeLE m a n v x = m x := if_neg h

theorem storeLE_byte (m : BitVec w → BitVec 8) (a : BitVec w) (v : BitVec (8 * n)) (hn : n ≤ 2 ^ w) (k : ℕ)
    (hk : k < n) : storeLE m a n v (a + BitVec.ofNat w k) = byte v k := by
  rw [storeLE, dist_add a (hk.trans_le hn), if_pos hk]

theorem loadLE_storeLE (m : BitVec w → BitVec 8) (a : BitVec w) (v : BitVec (8 * n)) (hn : n ≤ 2 ^ w) :
    loadLE (storeLE m a n v) a n = v :=
  ext_byte fun k hk => by rw [byte_loadLE _ _ _ _ hk, storeLE_byte _ _ _ hn _ hk]

theorem storeLE_eq_self_iff (m : BitVec w → BitVec 8) (a : BitVec w) (v : BitVec (8 * n)) (hn : n ≤ 2 ^ w) :
    storeLE m a n v = m ↔ loadLE m a n = v := by
  refine ⟨?_, ?_⟩
  · intro h
    rw [← h, loadLE_storeLE _ _ _ hn]
  · intro hp
    subst hp
    funext x
    unfold storeLE
    split_ifs with hx
    · rw [byte_loadLE _ _ _ _ hx, add_dist]
    · rfl

theorem storeLE_eq_storeLE_iff (m : BitVec w → BitVec 8) {a b : BitVec w} (u v : BitVec (8 * n)) (hn : n ≤ 2 ^ w)
    (hd : ∀ x, (x - a).toNat < n → ¬ (x - b).toNat < n) :
    storeLE m a n u = storeLE m b n v ↔ loadLE m a n = u ∧ loadLE m b n = v := by
  rw [← storeLE_eq_self_iff _ _ _ hn, ← storeLE_eq_self_iff _ _ _ hn]
  refine ⟨?_, ?_⟩
  · intro h
    have ha : storeLE m a n u = m := by
      funext x
      by_cases hx : (x - a).toNat < n
      · rw [h, storeLE_other _ _ _ (hd x hx)]
      · exact storeLE_other _ _ _ hx
    exact ⟨ha, h ▸ ha⟩
  · intro hp
    obtain ⟨ha, hb⟩ := hp
    rw [ha, hb]

/-! ## A memory by the writes it took -/

/-- n bytes written from an address on -/
structure Write (w : ℕ) where
  addr : BitVec w
  n : ℕ
  val : BitVec (8 * n)

def Write.Covers (x : Write w) (a : BitVec w) : Prop := (a - x.addr).toNat < x.n

instance (x : Write w) (a : BitVec w) : Decidable (x.Covers a) := inferInstanceAs (Decidable (_ < _))

/-- the byte the latest write that covers the address has for it, or what was there before all of them -/
def lastByte (m : BitVec w → BitVec 8) (writes : List (Write w)) (a : BitVec w) : BitVec 8 :=
  match writes.reverse.find? fun x => x.Covers a with
  | some x => byte x.val (a - x.addr).toNat
  | none => m a

/-- the writes hold bytes of v and cover it: their order and what was there do not matter -/
theorem loadLE_lastByte (m : BitVec w → BitVec 8) {writes : List (Write w)} {a : BitVec w} {v : BitVec (8 * n)}
    (hpiece : ∀ x ∈ writes, ∀ k < n, x.Covers (a + BitVec.ofNat w k) →
      byte x.val (a + BitVec.ofNat w k - x.addr).toNat = byte v k)
    (hcover : ∀ k < n, ∃ x ∈ writes, x.Covers (a + BitVec.ofNat w k)) : loadLE (lastByte m writes) a n = v := by
  apply ext_byte
  intro k hk
  rw [byte_loadLE _ _ _ _ hk, lastByte]
  cases hfind : writes.reverse.find? fun x => x.Covers (a + BitVec.ofNat w k) with
  | some x =>
    have hmem := List.mem_reverse.1 (List.mem_of_find?_eq_some hfind)
    have hfound := List.find?_some hfind
    exact hpiece x hmem k hk (of_decide_eq_true hfound)
  | none =>
    obtain ⟨x, hx, hcovers⟩ := hcover k hk
    have hnone := List.find?_eq_none.1 hfind x (List.mem_reverse.2 hx)
    exact absurd (decide_eq_true hcovers) hnone

theorem lastByte_append (m : BitVec w → BitVec 8) (writes : List (Write w)) (x : Write w) :
    lastByte m (writes ++ [x]) = storeLE (lastByte m writes) x.addr x.n x.val := by
  funext a
  unfold lastByte storeLE
  rw [List.reverse_append, List.reverse_singleton, List.singleton_append]
  by_cases h : x.Covers a
  · rw [List.find?_cons_of_pos (by simpa using h)]
    exact (if_pos h).symm
  · rw [List.find?_cons_of_neg (by simpa using h)]
    exact (if_neg h).symm

end Bytes
