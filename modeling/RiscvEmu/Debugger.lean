/-
debugger.c: the loops of the commands d (words of a range) and S (a string).

Both advance a 32-bit address. The first compares it with an end that belongs to the range, so it can wrap and never
pass the end; the second stops at the latest above main memory, where a byte reads as 0. Results:
- `cmdString_returns`: the second loop ends, from every address and in every state;
- `cmdDumpRange_returns`, `cmdDumpRange_not_returns`: the first prints the words of the range and ends, or never ends;
- `memory_commands_iff`: the law of both, exactly where the address after the range's last does not wrap;
- `dump_all_never_ends`: the range of all addresses.
-/
import RiscvEmu.Init
import RiscvEmu.Lib.WhileLoop
import RiscvEmu.Mem

namespace RiscvEmu

open WhileLoop

/-! ## The loops -/

/-- the loop of cmd_dump_range: the next address, and what is printed so far, a line of an address and a word each -/
structure DumpLoop where
  addr : Word
  machine : Machine
  printed : List (Word × Word)

/-- for (addr = start; addr <= end; addr += 4): reading a word can change a device -/
def cmdDumpRangeBody (stop : Word) (l : DumpLoop) : DumpLoop ⊕ Machine × List (Word × Word) :=
  if l.addr ≤ stop then
    let (w, d) := memRead32Unsigned l.machine l.addr
    .inl ⟨l.addr + 4, { l.machine with dev := d }, l.printed ++ [(l.addr, w)]⟩
  else .inr (l.machine, l.printed)

/-- the loop of cmd_string: the next address and the characters printed so far -/
structure StringLoop where
  addr : Word
  machine : Machine
  printed : List Byte

/-- while ((c = mem_read8_unsigned(addr++)) && c >= ' '), where char is signed -/
def cmdStringBody (l : StringLoop) : StringLoop ⊕ Machine × List Byte :=
  let (v, d) := memRead8Unsigned l.machine l.addr
  let c : Byte := v.setWidth 8
  let s := { l.machine with dev := d }
  if c ≠ 0 ∧ (32 : Byte).sle c then .inl ⟨l.addr + 1, s, l.printed ++ [c]⟩ else .inr (s, l.printed)

/-! ## The law -/

/-- the addresses start, start + 4, .. up to stop -/
def wordsUpTo (start stop : Word) : List Word :=
  (List.range ((stop.toNat + 4 - start.toNat) / 4)).map fun i => start + BitVec.ofNat 32 (4 * i)

/-- the words at the addresses, read one after the other, and the state the reads leave -/
def readWords : Machine → List Word → Machine × List (Word × Word)
  | s, [] => (s, [])
  | s, a :: as =>
    let (w, d) := memRead32Unsigned s a
    let (t, l) := readWords { s with dev := d } as
    (t, (a, w) :: l)

/-- cmd_dump_range ends, having printed the words from start to stop -/
def DumpLaw (s : Machine) (start stop : Word) : Prop :=
  Returns (cmdDumpRangeBody stop) ⟨start, s, []⟩ (readWords s (wordsUpTo start stop))

/-- cmd_string ends -/
def StringLaw (s : Machine) (addr : Word) : Prop := ∃ r, Returns cmdStringBody ⟨addr, s, []⟩ r

/-- the address 4 above the last that is congruent to start modulo 4 and not above stop is below 2^32 -/
def dumpEnds (start stop : Word) : Prop := stop.toNat < 0xFFFFFFFC + start.toNat % 4

instance (start stop : Word) : Decidable (dumpEnds start stop) := by unfold dumpEnds; infer_instance

/-! ## cmd_string -/

/-- the devices all lie below MEM_SIZE: above it a byte reads as 0 -/
theorem memRead8Unsigned_top (s : Machine) {addr : Word} (h : memSize ≤ addr.toNat) :
    memRead8Unsigned s addr = (0, s.dev) := by
  have hsize : 4 * 1024 * 1024 * 1024 - 4096 ≤ addr.toNat := h
  have hc : ¬ inClint addr := fun hc => by
    have := BitVec.lt_def.1 hc.2
    rw [show (clintBase + clintSize).toNat = 0x02010000 from rfl] at this
    omega
  have hu : ¬ inUart addr := fun hu => by
    have := BitVec.lt_def.1 hu.2
    rw [show (uartBase + uartNregs).toNat = 0x10000008 from rfl] at this
    omega
  have hp : ¬ inPlic8 addr := fun hp => by
    have := BitVec.lt_def.1 hp.2
    rw [show (plicBase + 0x10000).toNat = 0x0C010000 from rfl] at this
    omega
  rw [memRead8Unsigned, if_neg hc, if_neg hu, if_neg hp, if_pos h]

/-- **cmd_string ends**: it counts down to MEM_SIZE. -/
theorem cmdString_returns (s : Machine) (addr : Word) : StringLaw s addr := by
  refine returns_of_variant (I := fun _ => True) (fun l => memSize - l.addr.toNat) ?_ trivial
  intro l t _ h
  refine ⟨trivial, ?_⟩
  simp only [cmdStringBody] at h
  split_ifs at h with hc
  obtain rfl := Sum.inl.inj h
  by_cases hm : memSize ≤ l.addr.toNat
  · rw [memRead8Unsigned_top _ hm] at hc
    exact absurd rfl hc.1
  · have hm := Nat.lt_of_not_le hm
    have hnext : (l.addr + 1).toNat = l.addr.toNat + 1 := by
      unfold memSize at hm
      bv_omega
    simp only [hnext]
    omega

/-! ## cmd_dump_range -/

theorem wordsUpTo_nil {start stop : Word} (h : stop < start) : wordsUpTo start stop = [] := by
  have h := BitVec.lt_def.1 h
  have h0 : (stop.toNat + 4 - start.toNat) / 4 = 0 := by omega
  rw [wordsUpTo, h0]
  rfl

theorem wordsUpTo_cons {start stop : Word} (h : start ≤ stop) (hw : start.toNat + 4 < 2 ^ 32) :
    wordsUpTo start stop = start :: wordsUpTo (start + 4) stop := by
  have h := BitVec.le_def.1 h
  have hnext : (start + 4).toNat = start.toNat + 4 := by bv_omega
  have hn : (stop.toNat + 4 - start.toNat) / 4 = (stop.toNat + 4 - (start + 4).toNat) / 4 + 1 := by omega
  rw [wordsUpTo, hn, List.range_succ_eq_map, List.map_cons, List.map_map]
  refine congrArg₂ List.cons (BitVec.add_zero start) (List.map_congr_left ?_)
  intro i _
  have hi : 4 * (i + 1) = 4 + 4 * i := by omega
  rw [Function.comp_apply, Nat.succ_eq_add_one, hi, BitVec.ofNat_add, ← BitVec.add_assoc]
  rfl

/-- the addresses of the range -/
theorem mem_wordsUpTo {start stop a : Word} :
    a ∈ wordsUpTo start stop ↔ ∃ i, a.toNat = start.toNat + 4 * i ∧ a ≤ stop := by
  simp only [wordsUpTo, List.mem_map, List.mem_range, BitVec.le_def]
  constructor
  · rintro ⟨i, hi, rfl⟩
    have hlt := stop.isLt
    have hnat : (start + BitVec.ofNat 32 (4 * i)).toNat = start.toNat + 4 * i := by
      rw [BitVec.toNat_add, BitVec.toNat_ofNat]
      omega
    exact ⟨i, hnat, by omega⟩
  · rintro ⟨i, hi, hle⟩
    refine ⟨i, by omega, BitVec.eq_of_toNat_eq ?_⟩
    have hlt := a.isLt
    rw [BitVec.toNat_add, BitVec.toNat_ofNat]
    omega

/-- the loop from the middle: it goes on to print the words up to stop -/
theorem cmdDumpRange_returns_from {stop : Word} {l : DumpLoop} (h : dumpEnds l.addr stop) :
    Returns (cmdDumpRangeBody stop) l ((readWords l.machine (wordsUpTo l.addr stop)).1,
      l.printed ++ (readWords l.machine (wordsUpTo l.addr stop)).2) := by
  unfold dumpEnds at h
  induction hn : stop.toNat + 4 - l.addr.toNat using Nat.strong_induction_on generalizing l with
  | _ n ih =>
    by_cases hle : l.addr ≤ stop
    · have hlt := BitVec.le_def.1 hle
      have hw : l.addr.toNat + 4 < 2 ^ 32 := by omega
      have hnext : (l.addr + 4).toNat = l.addr.toNat + 4 := by bv_omega
      have hrest := ih _ (by rw [hnext]; omega) (l := ⟨l.addr + 4,
        { l.machine with dev := (memRead32Unsigned l.machine l.addr).2 },
        l.printed ++ [(l.addr, (memRead32Unsigned l.machine l.addr).1)]⟩) (by rw [hnext]; omega) rfl
      refine returns_inl (by rw [cmdDumpRangeBody, if_pos hle]) ?_
      rw [wordsUpTo_cons hle hw]
      simpa only [readWords, List.append_assoc, List.singleton_append] using hrest
    · have hempty := wordsUpTo_nil (BitVec.not_le.1 hle)
      refine returns_inr ?_
      rw [hempty, readWords, List.append_nil, cmdDumpRangeBody, if_neg hle]

/-- **cmd_dump_range** prints the words of the range and ends. -/
theorem cmdDumpRange_returns {start stop : Word} (h : dumpEnds start stop) (s : Machine) : DumpLaw s start stop :=
  cmdDumpRange_returns_from (l := ⟨start, s, []⟩) h

/-- **cmd_dump_range never ends** where the address wraps: it stays congruent to start, and so never passes the end. -/
theorem cmdDumpRange_not_returns {start stop : Word} (h : ¬ dumpEnds start stop) (s : Machine)
    (r : Machine × List (Word × Word)) : ¬ Returns (cmdDumpRangeBody stop) ⟨start, s, []⟩ r := by
  unfold dumpEnds at h
  refine not_returns_of_invariant (I := fun l => l.addr.toNat % 4 = start.toNat % 4) ?_ rfl r
  intro l hl
  have hle : l.addr ≤ stop := BitVec.le_def.2 (by have := l.addr.isLt; omega)
  have hnext : (l.addr + 4).toNat % 4 = l.addr.toNat % 4 := by bv_omega
  rw [cmdDumpRangeBody, if_pos hle]
  exact ⟨_, rfl, hnext.trans hl⟩

/-- **Both commands do what they should exactly where the range ends below the top of the address space.** -/
theorem memory_commands_iff (s : Machine) (start stop addr : Word) :
    DumpLaw s start stop ∧ StringLaw s addr ↔ dumpEnds start stop := by
  refine ⟨?_, fun h => ⟨cmdDumpRange_returns h s, cmdString_returns s addr⟩⟩
  intro h
  by_contra hn
  exact cmdDumpRange_not_returns hn s _ h.1

/-- d 0 ffffffff -/
theorem dump_all_never_ends : ¬ DumpLaw (machineInit (fun _ => 0) (fun _ => 0) 0) 0 0xFFFFFFFF :=
  cmdDumpRange_not_returns (by decide) _ _

end RiscvEmu
