/-
Words as lists of bytes, the lowest first, over arbitrary widths.

Results:
- `ofBytes_concat`: a loop that ors the next byte in at its place keeps the word of the bytes so far;
- `ofBytes_append`: two words side by side are the word of both lists;
- `ofBytes_inj`: the word determines the bytes.
-/
import Mathlib.Data.BitVec
import Mathlib.Data.Nat.Digits.Lemmas

namespace ByteList

/-- the number with the bytes bs -/
def value (bs : List (BitVec 8)) : ℕ := Nat.ofDigits 256 (bs.map BitVec.toNat)

/-- the word with the bytes bs -/
def ofBytes (w : ℕ) (bs : List (BitVec 8)) : BitVec w := BitVec.ofNat w (value bs)

theorem digit_lt (bs : List (BitVec 8)) : ∀ d ∈ bs.map BitVec.toNat, d < 256 := by
  intro d hd
  obtain ⟨b, -, rfl⟩ := List.mem_map.1 hd
  exact b.isLt

theorem value_lt (bs : List (BitVec 8)) : value bs < 2 ^ (8 * bs.length) := by
  have h := Nat.ofDigits_lt_base_pow_length (by decide) (digit_lt bs)
  rw [List.length_map] at h
  rw [pow_mul]
  exact h

theorem value_append (bs cs : List (BitVec 8)) : value (bs ++ cs) = value cs <<< (8 * bs.length) ||| value bs := by
  have hlow := value_lt bs
  have happ : value (bs ++ cs) = value bs + 256 ^ bs.length * value cs := by
    unfold value
    rw [List.map_append, Nat.ofDigits_append, List.length_map]
  have hpow : 256 ^ bs.length = 2 ^ (8 * bs.length) := (pow_mul 2 8 bs.length).symm
  rw [happ, hpow, Nat.add_comm, Nat.two_pow_add_eq_or_of_lt hlow, Nat.shiftLeft_eq, Nat.mul_comm]

theorem toNat_ofBytes {w : ℕ} {bs : List (BitVec 8)} (h : 8 * bs.length ≤ w) : (ofBytes w bs).toNat = value bs := by
  rw [ofBytes, BitVec.toNat_ofNat]
  exact Nat.mod_eq_of_lt (lt_of_lt_of_le (value_lt bs) (Nat.pow_le_pow_right (by decide) h))

theorem ofBytes_append {v w : ℕ} {bs cs : List (BitVec 8)} (hb : 8 * bs.length = v) (hc : 8 * cs.length = w) :
    ofBytes w cs ++ ofBytes v bs = ofBytes (w + v) (bs ++ cs) := by
  have hlen : 8 * (bs ++ cs).length ≤ w + v := by
    rw [List.length_append]
    omega
  apply BitVec.eq_of_toNat_eq
  rw [BitVec.toNat_append, toNat_ofBytes hc.le, toNat_ofBytes hb.le, toNat_ofBytes hlen, value_append, hb]

/-- one more byte, on top -/
theorem ofBytes_concat {w : ℕ} {bs : List (BitVec 8)} (b : BitVec 8) (h : 8 * (bs.length + 1) ≤ w) :
    ofBytes w (bs ++ [b]) = ofBytes w bs ||| b.setWidth w <<< (8 * bs.length) := by
  have hone : value [b] = b.toNat := Nat.ofDigits_singleton
  have hb : b.toNat <<< (8 * bs.length) < 2 ^ w := by
    have hpow : (2 : ℕ) ^ 8 * 2 ^ (8 * bs.length) ≤ 2 ^ w := by
      rw [← pow_add]
      exact Nat.pow_le_pow_right (by decide) (by omega)
    rw [Nat.shiftLeft_eq]
    exact lt_of_lt_of_le (Nat.mul_lt_mul_of_pos_right b.isLt (Nat.two_pow_pos _)) hpow
  have hwide : b.toNat % 2 ^ w = b.toNat := Nat.mod_eq_of_lt (lt_of_le_of_lt Nat.le_shiftLeft hb)
  apply BitVec.eq_of_toNat_eq
  rw [toNat_ofBytes (by simpa using h), BitVec.toNat_or, toNat_ofBytes (by omega), BitVec.toNat_shiftLeft,
    BitVec.toNat_setWidth, hwide, Nat.mod_eq_of_lt hb, value_append, hone, Nat.or_comm]

theorem ofBytes_inj {w : ℕ} {bs cs : List (BitVec 8)} (hlen : bs.length = cs.length) (h : 8 * bs.length ≤ w) :
    ofBytes w bs = ofBytes w cs ↔ bs = cs := by
  refine ⟨?_, fun he => he ▸ rfl⟩
  intro he
  have hval := congrArg BitVec.toNat he
  rw [toNat_ofBytes h, toNat_ofBytes (hlen ▸ h)] at hval
  have hmap := Nat.ofDigits_inj_of_len_eq (by decide) (by simpa using hlen) (digit_lt bs) (digit_lt cs) hval
  exact List.map_injective_iff.2 (fun _ _ => BitVec.eq_of_toNat_eq) hmap

end ByteList
