/-
Instruction fetch and paging.

mmu_fetch_ok translates pc once and reads 32 bits at the physical address it gets. Results:
- `mmuWalk_add_two`: inside a page the next halfword is physically the next, for any page table;
- `fetch_law_iff`: the fetch respects paging byte by byte except where pc is the last halfword of a page;
- `fetch_crosses_page`: there, a 32-bit instruction takes its high halfword from the next physical page.
-/
import RiscvEmu.Frame
import RiscvEmu.Init
import RiscvEmu.Lib.Bits

namespace RiscvEmu

open Bits Bytes

/-! ## Translation inside a page -/

theorem or_add_two {x v m : Word} (hx : x &&& m = 0#32) (hv : (v + 2) &&& m = (v &&& m) + 2) :
    x ||| (v + 2) &&& m = (x ||| v &&& m) + 2 := by
  have hd : ∀ u : Word, x &&& (u &&& m) = 0#32 := fun u => by
    rw [BitVec.and_comm u, ← BitVec.and_assoc, hx, BitVec.zero_and]
  rw [← BitVec.add_eq_or_of_and_eq_zero _ _ (hd _), ← BitVec.add_eq_or_of_and_eq_zero _ _ (hd _), hv, BitVec.add_assoc]

theorem toNat_add_two {v : Word} (hp : v.toNat % 4096 + 2 < 4096) : (v + 2).toNat = v.toNat + 2 := by
  have h2 : (2 : Word).toNat = 2 := rfl
  rw [BitVec.toNat_add, h2]
  omega

/-- the low bits of a frame address: none below the page, none below the superpage when its number is aligned -/
theorem frame_page (x : Word) : x <<< pgshift &&& 0xFFF = 0#32 := by
  apply BitVec.eq_of_toNat_eq
  rw [toNat_and_mask (k := 12) _ _ rfl, BitVec.toNat_shiftLeft, Nat.shiftLeft_eq, BitVec.toNat_ofNat, pgshift]
  omega

theorem frame_superpage {x : Word} (h : ¬ (x &&& 0x3FF ≠ 0)) : x <<< pgshift &&& 0x3FFFFF = 0#32 := by
  have h0 : (x &&& 0x3FF).toNat = 0 := congrArg BitVec.toNat (not_not.1 h)
  rw [toNat_and_mask (k := 10) x _ rfl] at h0
  apply BitVec.eq_of_toNat_eq
  rw [toNat_and_mask (k := 22) _ _ rfl, BitVec.toNat_shiftLeft, Nat.shiftLeft_eq, BitVec.toNat_ofNat, pgshift]
  omega

/-- **Inside a page, the translation of the next halfword is the next halfword.** -/
theorem mmuWalk_add_two {s : Machine} {v : Word} (access : MmuAccess) (hp : v.toNat % 4096 + 2 < 4096) :
    mmuWalk s (v + 2) access = ((mmuWalk s v access).1.map (· + 2), (mmuWalk s v access).2) := by
  have hadd := toNat_add_two hp
  have h2 : (2 : Word).toNat = 2 := rfl
  have hpage : (v + 2) &&& 0xFFF = (v &&& 0xFFF) + 2 := by
    apply BitVec.eq_of_toNat_eq
    rw [BitVec.toNat_add, toNat_and_mask (k := 12) _ _ rfl, toNat_and_mask (k := 12) _ _ rfl, hadd, h2]
    omega
  have hsuper : (v + 2) &&& 0x3FFFFF = (v &&& 0x3FFFFF) + 2 := by
    apply BitVec.eq_of_toNat_eq
    rw [BitVec.toNat_add, toNat_and_mask (k := 22) _ _ rfl, toNat_and_mask (k := 22) _ _ rfl, hadd, h2]
    omega
  have hvpn1 : (v + 2) >>> 22 = v >>> 22 := by
    apply BitVec.eq_of_toNat_eq
    simp only [BitVec.toNat_ushiftRight, hadd, Nat.shiftRight_eq_div_pow]
    omega
  have hvpn0 : (v + 2) >>> 12 = v >>> 12 := by
    apply BitVec.eq_of_toNat_eq
    simp only [BitVec.toNat_ushiftRight, hadd, Nat.shiftRight_eq_div_pow]
    omega
  simp only [mmuWalk, hvpn1, hvpn0]
  split_ifs with h1 h2 h3 h4 h5 <;> simp only [Option.map_some, Option.map_none]
  · rw [or_add_two (frame_superpage h4) hsuper]
  · rw [or_add_two (frame_page _) hpage]

/-! ## The law -/

/-- a halfword at addr is plain RAM -/
def isRam16 (addr : Word) : Prop := ¬ inClint addr ∧ ¬ inUart addr ∧ ¬ inPlic addr ∧ addr.toNat < memSize - 1

instance (addr : Word) : Decidable (isRam16 addr) := by unfold isRam16; infer_instance

/-- the two bytes at a physical address -/
def half (s : Machine) (pa : Word) : BitVec 16 := loadLE s.mainMemory pa 2

/-- the low two bits of a 32-bit instruction are set -/
def isLong (h : BitVec 16) : Prop := h &&& 3 = 3

instance (h : BitVec 16) : Decidable (isLong h) := by unfold isLong; infer_instance

/-- what a fetch at pc must do when pc translates to pa -/
structure FetchLaw (s : Machine) (pc pa : Word) : Prop where
  low : ∀ w, (mmuFetchOk s pc).1 = some w → w.setWidth 16 = half s pa
  short : ¬ isLong (half s pa) → (mmuFetchOk s pc).1 ≠ none
  high : isLong (half s pa) → ∀ pa2, (mmuWalk s (pc + 2) .fetch).1 = some pa2 → isRam16 pa2 →
    ∃ w, (mmuFetchOk s pc).1 = some w ∧ (w >>> 16).setWidth 16 = half s pa2
  fault : isLong (half s pa) → (mmuWalk s (pc + 2) .fetch).1 = none → (mmuFetchOk s pc).1 = none ∧
    ∃ t, (mmuFetchOk s pc).2.traps = t :: s.traps ∧ t.cause = causeFetchPageFault

/-- pc is not the last halfword of its page; or it is, and its page is not the last of memory (or starts the next
instruction with 0 there), and a 32-bit instruction there finds the same halfword on the physically next page as on the
virtually next -/
def fetchWorks (s : Machine) (pc pa : Word) : Prop :=
  pc &&& 0xFFF ≠ 0xFFE ∨
    ((pa.toNat ≠ memSize - 2 ∨ half s pa = 0) ∧
      (isLong (half s pa) → ∃ pa2, (mmuWalk s (pc + 2) .fetch).1 = some pa2 ∧
        (isRam16 pa2 → half s (pa + 2) = half s pa2)))

/-! ## The fetch -/

section
variable {s : Machine} {pc pa : Word} {d : Devices}

theorem mmuFetchOk_some (h : mmuWalk s pc .fetch = (some pa, d)) :
    (mmuFetchOk s pc).1 = some (memRead32Unsigned { s with dev := d } pa).1 := by
  simp only [mmuFetchOk, mmuTranslate_some h]

theorem setWidth_load (s : Machine) (pa : Word) : (loadLE s.mainMemory pa 4).setWidth 16 = half s pa := by
  have := loadLE_slice s.mainMemory pa (n := 4) (j := 0) (k := 2) (by decide)
  simpa [half] using this

theorem shift_load (s : Machine) (pa : Word) : (loadLE s.mainMemory pa 4 >>> 16).setWidth 16 = half s (pa + 2) :=
  loadLE_slice s.mainMemory pa (n := 4) (j := 2) (k := 2) (by decide)

/-- an even RAM halfword is the start of a RAM word, except the last halfword of memory -/
theorem isRam32_of_half (hr : isRam16 pa) (he : pa.toNat % 2 = 0) (hl : pa.toNat ≠ memSize - 2) : isRam32 pa := by
  obtain ⟨h1, h2, h3, h4⟩ := hr
  refine ⟨h1, h2, h3, ?_⟩
  simp only [memSize] at *
  omega

/-- the word fetched, away from the end of memory -/
theorem fetch_ram (h : mmuWalk s pc .fetch = (some pa, d)) (hr : isRam32 pa) :
    (mmuFetchOk s pc).1 = some (loadLE s.mainMemory pa 4) := by
  rw [mmuFetchOk_some h, memRead32_ram hr]

/-- the last halfword of memory reads as 0 -/
theorem fetch_last (h : mmuWalk s pc .fetch = (some pa, d)) (hr : isRam16 pa) (hl : pa.toNat = memSize - 2) :
    (mmuFetchOk s pc).1 = some 0 := by
  obtain ⟨h1, h2, h3, -⟩ := hr
  rw [mmuFetchOk_some h, memRead32Unsigned, if_neg h1, if_neg h2, if_neg h3, if_pos (by rw [hl]; decide)]

end

theorem walk_even {s : Machine} {pc pa : Word} {d : Devices} (h : mmuWalk s pc .fetch = (some pa, d))
    (he : pc.toNat % 2 = 0) : pa.toNat % 4096 = pc.toNat % 4096 ∧ pa.toNat % 2 = 0 := by
  have ho := congrArg BitVec.toNat (mmuWalk_pageOffset h)
  rw [toNat_and_mask (k := 12) _ _ rfl, toNat_and_mask (k := 12) _ _ rfl] at ho
  omega

/-- the law where the word fetched is main memory's -/
theorem fetchLaw_ram_iff {s : Machine} {pc pa : Word} {d : Devices} (h : mmuWalk s pc .fetch = (some pa, d))
    (hr : isRam32 pa) :
    FetchLaw s pc pa ↔ (isLong (half s pa) → ∃ pa2, (mmuWalk s (pc + 2) .fetch).1 = some pa2 ∧
      (isRam16 pa2 → half s (pa + 2) = half s pa2)) := by
  have hf := fetch_ram h hr
  refine ⟨?_, ?_⟩
  · intro hlaw hlong
    cases hw : (mmuWalk s (pc + 2) .fetch).1 with
    | none =>
      have := (hlaw.fault hlong hw).1
      rw [hf] at this
      exact nomatch this
    | some pa2 =>
      refine ⟨pa2, rfl, ?_⟩
      intro hr2
      obtain ⟨w, hw', hh⟩ := hlaw.high hlong pa2 hw hr2
      rw [hf] at hw'
      rw [← hh, ← Option.some.inj hw', shift_load]
  · intro hc
    refine ⟨?_, ?_, ?_, ?_⟩
    · intro w hw
      rw [hf] at hw
      rw [← Option.some.inj hw, setWidth_load]
    · intro _ hn
      rw [hf] at hn
      exact nomatch hn
    · intro hlong pa2 hw2 hr2
      obtain ⟨pa2', hw2', hh⟩ := hc hlong
      obtain rfl := Option.some.inj (hw2.symm.trans hw2')
      exact ⟨_, hf, by rw [shift_load, hh hr2]⟩
    · intro hlong hn
      obtain ⟨pa2, hw2, -⟩ := hc hlong
      rw [hn] at hw2
      exact nomatch hw2

/-- **Fetch respects paging byte by byte exactly when pc is not at the end of a page**, or the next page happens to hold
the same bytes. -/
theorem fetch_law_iff (s : Machine) (pc pa : Word) (he : pc.toNat % 2 = 0)
    (hw : (mmuWalk s pc .fetch).1 = some pa) (hr : isRam16 pa) : FetchLaw s pc pa ↔ fetchWorks s pc pa := by
  obtain ⟨d, h⟩ : ∃ d, mmuWalk s pc .fetch = (some pa, d) := ⟨_, Prod.ext hw rfl⟩
  obtain ⟨hoff, heven⟩ := walk_even h he
  unfold fetchWorks
  by_cases ho : pc &&& 0xFFF = 0xFFE
  · rw [or_iff_right (not_not.2 ho)]
    by_cases hl : pa.toNat = memSize - 2
    · have hf := fetch_last h hr hl
      refine ⟨?_, ?_⟩
      · intro hlaw
        have h0 : half s pa = 0 := (hlaw.low 0 hf).symm
        refine ⟨Or.inr h0, fun hlong => absurd hlong (by rw [h0]; decide)⟩
      · intro hx
        obtain ⟨h0, -⟩ := hx
        have h0 := h0.resolve_left (not_not.2 hl)
        have hs : ¬ isLong (half s pa) := by rw [h0]; decide
        refine ⟨?_, ?_, fun hlong => absurd hlong hs, fun hlong => absurd hlong hs⟩
        · intro w hw
          rw [hf] at hw
          rw [← Option.some.inj hw, h0]
          rfl
        · intro _ hn
          rw [hf] at hn
          exact nomatch hn
    · rw [fetchLaw_ram_iff h (isRam32_of_half hr heven hl), and_iff_right (Or.inl hl)]
  · simp only [ne_eq, ho, not_false_eq_true, true_or, iff_true]
    have hp : pc.toNat % 4096 + 2 < 4096 := by
      have : pc.toNat % 4096 ≠ 4094 := fun hc => ho (BitVec.eq_of_toNat_eq (by rw [toNat_and_mask (k := 12) pc _ rfl]; exact hc))
      omega
    have hl : pa.toNat ≠ memSize - 2 := by
      intro hl
      rw [hl] at hoff
      simp only [memSize] at hoff
      omega
    rw [fetchLaw_ram_iff h (isRam32_of_half hr heven hl)]
    intro _
    exact ⟨pa + 2, by rw [mmuWalk_add_two .fetch hp, h]; rfl, fun _ => rfl⟩

/-! ## A page crossing -/

/-- supervisor mode; the page at virtual 0 is mapped to physical 0x3000, the one after it to physical 0x5000 -/
def crossingMemory (a : Word) : Byte :=
  if a = 0x1001 then 0x08 else if a = 0x1000 then 0x01 -- the directory at 0x1000: table at 0x2000
  else if a = 0x2000 then 0x4B else if a = 0x2001 then 0x0C
  else if a = 0x2004 then 0x4B else if a = 0x2005 then 0x14
  else if a = 0x3FFE then 0x13 -- the low half of an ADDI
  else if a = 0x5000 then 0xFF else 0

def crossingMachine : Machine :=
  { machineInit (fun _ => 0) crossingMemory 0xFFE with
    privilege := prvSupervisor
    csr := Function.update (fun i => (csrTable i).value) csrSatp 0x80000001 }

theorem crossing_walk : (mmuWalk crossingMachine 0xFFE .fetch).1 = some 0x3FFE := by decide

theorem fetch_law_crossingMachine : mmuVmActive crossingMachine crossingMachine.privilege = true ∧
    (FetchLaw crossingMachine 0xFFE 0x3FFE ↔ fetchWorks crossingMachine 0xFFE 0x3FFE) :=
  ⟨by decide, fetch_law_iff crossingMachine 0xFFE 0x3FFE (by decide) crossing_walk (by decide)⟩

/-- the high halfword comes from 0x4000, not from 0x5000 -/
theorem fetch_crosses_page : ¬ FetchLaw crossingMachine 0xFFE 0x3FFE := by
  intro h
  obtain ⟨w, hw, hh⟩ := h.high (by decide) 0x5000 (by decide) (by decide)
  have : (mmuFetchOk crossingMachine 0xFFE).1 = some 0x13 := by decide
  rw [this] at hw
  rw [← Option.some.inj hw] at hh
  exact absurd hh (by decide)

end RiscvEmu
