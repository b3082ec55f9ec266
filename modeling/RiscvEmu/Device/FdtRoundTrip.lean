/-
The device tree writer against the format: what the builder's calls wrote reads back as the tree they describe.
Results:
- `header_front`, `rsvmap_front`: the header and the reserve map read back;
- `fdt_round_trip`: the blob serialized from calls that close what they open decodes to the unnamed root holding just them.
-/
import Mathlib.Algebra.Order.BigOperators.Group.List
import Mathlib.Algebra.Order.Group.Nat
import RiscvEmu.Device.FdtBlocks

namespace RiscvEmu

open Buffer Dtb Ranges

theorem FdtCall.event_wellFormed {c : FdtCall} (h : c.event.size ≤ 4096) : c.event.WellFormed := by
  have hvalue : ∀ {name : CString} {value : Octets}, (Event.prop name.chars value).size ≤ 4096 →
      (Event.prop name.chars value).WellFormed := by
    intro name value hsize
    refine ⟨name.nulFree, ?_⟩
    rw [Event.size, padded] at hsize
    omega
  cases c with
  | nodePush name => exact name.nulFree
  | nodePop => trivial
  | propWord name v0 v1 v2 v3 => exact hvalue h
  | propCells1 name v0 => exact hvalue h
  | propCells2 name v0 v1 => exact hvalue h
  | propCells3 name v0 v1 v2 => exact hvalue h
  | propStr name str => exact hvalue h
  | propEmpty name => exact hvalue h
  | propBytes name data => exact hvalue h

theorem eventsOf_wellFormed {calls : List FdtCall} (h : ((eventsOf calls).map Event.size).sum ≤ 4096) :
    ∀ e ∈ eventsOf calls, e.WellFormed := by
  intro e he
  obtain ⟨c, -, rfl⟩ := List.mem_map.mp he
  exact c.event_wellFormed ((List.single_le_sum (fun _ _ => Nat.zero_le _) _ (List.mem_map_of_mem he)).trans h)

/-- the header of a front reads back -/
theorem header_front (structLen stringsLen : ℕ) (hstruct : structLen ≤ 4096) (hstrings : 4152 + stringsLen ≤ 16384)
    (rest : Octets) :
    header (fdtFront structLen stringsLen ++ rest) =
      some ⟨4152 + stringsLen, 56, 4152, 40, fdtHartBase, stringsLen, structLen⟩ := by
  have hwords : words 10 (fdtFront structLen stringsLen ++ rest) = some (fdtHeaderWords structLen stringsLen) := by
    rw [fdtFront, List.flatMap_append, List.append_assoc]
    exact words_flatMap (fdtHeaderWords structLen stringsLen) _
  have htotal : (BitVec.ofNat 32 (4152 + stringsLen)).toNat = 4152 + stringsLen := by
    rw [BitVec.toNat_ofNat]
    omega
  have hstringsNat : (BitVec.ofNat 32 stringsLen).toNat = stringsLen := by
    rw [BitVec.toNat_ofNat]
    omega
  have hstructNat : (BitVec.ofNat 32 structLen).toNat = structLen := by
    rw [BitVec.toNat_ofNat]
    omega
  rw [header, hwords, Option.bind_some]
  change (if _ then some (Header.mk _ _ _ _ _ _ _) else none) = _
  rw [if_pos (by decide), htotal, hstringsNat, hstructNat]
  rfl

/-- so does the reserve map -/
theorem rsvmap_front (structLen stringsLen n : ℕ) (rest : Octets) :
    rsvmap (n + 1) ((fdtFront structLen stringsLen ++ rest).drop 40) = some [] := by
  have hdrop : (fdtFront structLen stringsLen ++ rest).drop 40 = [0, 0, 0, 0].flatMap Dtb.be32 ++ rest := rfl
  have hwords : words 4 ([0, 0, 0, 0].flatMap Dtb.be32 ++ rest) = some [0, 0, 0, 0] := words_flatMap [0, 0, 0, 0] rest
  rw [hdrop, rsvmap, hwords]
  rfl

/-- **A tree reads back as it was built.** After any calls that succeed and close every node they open, when the structure
block of all they say fits its window and the total the buffer, fdt_serialize returns the total size, and the blob decodes to
an empty reserve map and the unnamed root node holding just what the calls said, its parts apart from each other. -/
theorem fdt_round_trip (buf : ℕ → Byte) (bufsize : ℕ) (calls : List FdtCall) {b : FdtBuilder}
    (hrun : runCalls (fdtBuilderInit buf bufsize) calls = some b) (hdepth : b.depth = 0)
    (hstruct : structSize calls ≤ fdtStructMax.toNat) (htotal : totalSize calls ≤ fdtMaxBuf.toNat) :
    (fdtSerialize b).1.toNat = totalSize calls ∧
      ∃ blob, decode (region (fdtSerialize b).2.buf 0 (totalSize calls)) = some blob ∧ blob.reserved = [] ∧
        Layout (totalSize calls) blob.ranges ∧
        ∃ items, blob.root = .node [] items ∧ ∀ is, itemsEvents is = eventsOf calls ↔ is = items := by
  have hsizeNat : structSize calls = 8 + ((eventsOf calls).map Event.size).sum + 4 + 4 := rfl
  have hmax : fdtMaxBuf.toNat = 16384 := rfl
  have hstructMax : fdtStructMax.toNat = 4096 := rfl
  rw [hmax] at htotal
  rw [hstructMax] at hstruct
  obtain ⟨⟨-, hafter⟩, -⟩ := runCalls_closed hrun hdepth
  obtain ⟨hsize, hserialized⟩ := calls_serialized hrun hdepth hstruct htotal
  have hwf : ∀ e ∈ eventsOf calls, e.WellFormed := eventsOf_wellFormed (by omega)
  have htotalNat := totalSize_eq calls
  obtain ⟨items, hitems, htree⟩ := readTree_tokensOf hwf hafter (by rw [namesOf] at htotalNat; omega)
  obtain ⟨buf', hbuf'⟩ : ∃ buf' : ℕ → Byte, (fdtSerialize b).2.buf = buf' := ⟨_, rfl⟩
  obtain ⟨strings, hstrings⟩ : ∃ strings : Octets, namesOf calls = strings := ⟨_, rfl⟩
  rw [hbuf', hstrings] at hserialized
  rw [hstrings] at htotalNat
  rw [hbuf', hsize, htotalNat]
  have hfront := hserialized.front
  have hheld := hserialized.structHeld
  have hnames := hserialized.stringsHeld
  rw [structTokens_length] at hfront hheld
  have hwhole : region buf' 0 (4152 + strings.length) =
      fdtFront (structSize calls) strings.length ++ region buf' 56 (4096 + strings.length) := by
    have hsplit : 4152 + strings.length = 56 + (4096 + strings.length) := by omega
    rw [hsplit, region_add, hfront]
  refine ⟨?_, ⟨⟨4152 + strings.length, 56, 4152, 40, fdtHartBase, strings.length, structSize calls⟩, [], .node [] items⟩,
    ?_, rfl, ?_, items, rfl, fun is => ⟨fun h => itemsEvents_injective (h.trans hitems.symm), fun h => h ▸ hitems⟩⟩
  · rw [BitVec.toNat_ofNat]
    omega
  · have hheader := header_front (structSize calls) strings.length hstruct (by omega)
      (region buf' 56 (4096 + strings.length))
    have hrsvmap := rsvmap_front (structSize calls) strings.length (4152 + strings.length)
      (region buf' 56 (4096 + strings.length))
    rw [← hwhole] at hheader hrsvmap
    have h4 := four_dvd_sum (eventsOf calls)
    rw [decode, hheader, Option.bind_some]
    dsimp only
    rw [region_length, if_pos (by omega), hrsvmap, Option.bind_some, slice_region (by omega), Option.bind_some,
      slice_region (by omega), Option.bind_some, hheld, hnames, ← hstrings]
    rw [structTokens, namesOf, htree]
    rfl
  · refine ⟨?_, ?_⟩
    · simp only [Blob.ranges, Range.Within, List.mem_cons, List.not_mem_nil, or_false, forall_eq_or_imp, forall_eq,
        List.length_nil]
      omega
    · simp only [Blob.ranges, Range.Apart, List.pairwise_cons, List.mem_cons, List.not_mem_nil, or_false,
        forall_eq_or_imp, forall_eq, List.length_nil, false_implies, implies_true, List.Pairwise.nil, and_true]
      omega

/-- a cpus node with one cell -/
def cpusCalls : List FdtCall :=
  [.nodePush (CString.ofString "cpus"), .propCells1 (CString.ofString "#address-cells") 1, .nodePop]

theorem fdt_round_trip_cpus : ∃ b, runCalls (fdtBuilderInit (fun _ => 0) 16384) cpusCalls = some b ∧
    (fdtSerialize b).1.toNat = totalSize cpusCalls ∧
    ∃ blob, decode (region (fdtSerialize b).2.buf 0 (totalSize cpusCalls)) = some blob ∧ blob.reserved = [] ∧
      Layout (totalSize cpusCalls) blob.ranges ∧
      ∃ items, blob.root = .node [] items ∧ ∀ is, itemsEvents is = eventsOf cpusCalls ↔ is = items := by
  have hcloses : Closes cpusCalls := ⟨by decide, rfl⟩
  obtain ⟨b, hrun, hdepth⟩ := runCalls_some (fun _ => 0) 16384 hcloses
  exact ⟨b, hrun, fdt_round_trip _ _ _ hrun hdepth (by decide) (by decide)⟩

end RiscvEmu
