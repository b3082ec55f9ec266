/-
Where the device tree writer writes. fdt_serialize compares the end of the strings block with FDT_MAX_BUF; nothing compares the
structure cursor with the start of the strings block, or a cursor with bufsize.
Results:
- `written_iff`: calls that close what they open and fit write just the bytes below their total size;
- `outgrown_rejected_iff`: a tree is accepted only with its blocks whole and apart inside the buffer exactly when the calls that
  do not fail leave a node open or are refused for their names, or fit;
- `ramWritten_iff`, `fdt_in_ram_iff`: the machine's tree is written to guest memory alone exactly when it ends by MEM_SIZE.
-/
import RiscvEmu.Device.FdtBlocks
import RiscvEmu.Mem

namespace RiscvEmu

open Buffer Dtb

/-- the builder after the calls, the tree not yet closed -/
def builtBy (buf : ℕ → Byte) (bufsize : ℕ) (calls : List FdtCall) : FdtBuilder := makeCalls (fdtBuilderInit buf bufsize) calls

/-- the calls and fdt_serialize write byte i of the buffer: it does not keep its contents, whatever they were -/
def Written (bufsize : ℕ) (calls : List FdtCall) (i : ℕ) : Prop :=
  ∃ buf, (fdtSerialize (builtBy buf bufsize calls)).2.buf i ≠ buf i

theorem runCalls_builtBy (buf : ℕ → Byte) (bufsize : ℕ) (calls : List FdtCall) :
    runCalls (fdtBuilderInit buf bufsize) (made 0 calls) = some (builtBy buf bufsize calls) := by
  have hmade := runCalls_made (fdtBuilderInit_err buf bufsize) calls
  rwa [fdtBuilderInit_depth] at hmade

/-- the depth after the calls is that of the calls that do not fail -/
theorem builtBy_depth (buf : ℕ → Byte) (bufsize : ℕ) {calls : List FdtCall} :
    (builtBy buf bufsize calls).depth = 0 ↔ Closes (made 0 calls) := by
  constructor
  · intro hdepth
    exact (runCalls_closed (runCalls_builtBy buf bufsize calls) hdepth).1
  · intro hcloses
    obtain ⟨b, hrun, hdepth⟩ := runCalls_some buf bufsize hcloses
    rwa [Option.some.inj ((runCalls_builtBy buf bufsize calls).symm.trans hrun)]

/-- bytes that two buffers hold alike -/
theorem eq_of_region_eq {buf buf' : ℕ → Byte} {off n i : ℕ} (h : region buf off n = region buf' off n) (hlo : off ≤ i)
    (hhi : i < off + n) : buf i = buf' i := by
  have hget := congrArg (fun l => l[i - off]?) h
  simpa [region, (by omega : i - off < n), (by omega : off + (i - off) = i)] using hget

/-- the buffer below the end of the strings block does not depend on what it held -/
theorem Serialized.determined {buf₀ buf₀' buf buf' : ℕ → Byte} {st strings : Octets} (h : Serialized buf₀ buf st strings)
    (h' : Serialized buf₀' buf' st strings) (hfit : st.length ≤ 4096) {i : ℕ} (hi : i < 4152 + strings.length) :
    buf i = buf' i := by
  by_cases hfront : i < 56
  · exact eq_of_region_eq (h.front.trans h'.front.symm) (Nat.zero_le i) (by omega)
  by_cases hstruct : i < 56 + st.length
  · exact eq_of_region_eq (h.structHeld.trans h'.structHeld.symm) (by omega) hstruct
  by_cases hgap : i < 4152
  · exact eq_of_region_eq (h.gap.trans h'.gap.symm) (by omega) (by omega)
  · exact eq_of_region_eq (h.stringsHeld.trans h'.stringsHeld.symm) (by omega) hi

/-- **Calls that close what they open and fit write just the bytes below their total size.** -/
theorem written_iff (bufsize : ℕ) {calls : List FdtCall} (h : Closes (made 0 calls))
    (hstruct : structSize (made 0 calls) ≤ 4096) (htotal : totalSize (made 0 calls) ≤ 16384) (i : ℕ) :
    Written bufsize calls i ↔ i < totalSize (made 0 calls) := by
  have hruns : ∀ buf, Serialized buf (fdtSerialize (builtBy buf bufsize calls)).2.buf (structTokens (made 0 calls))
      (namesOf (made 0 calls)) := fun buf =>
    (calls_serialized (runCalls_builtBy buf bufsize calls) ((builtBy_depth buf bufsize).mpr h) hstruct htotal).2
  have htotalEq := totalSize_eq (made 0 calls)
  constructor
  · rintro ⟨buf, hne⟩
    by_contra hge
    exact hne ((hruns buf).frame i (by omega))
  · intro hi
    -- a buffer that holds another byte there than the one a first run leaves
    have hfirst := hruns fun _ => 0
    refine ⟨fun _ => (fdtSerialize (builtBy (fun _ => 0) bufsize calls)).2.buf i + 1, ?_⟩
    have hsecond := hruns fun _ => (fdtSerialize (builtBy (fun _ => 0) bufsize calls)).2.buf i + 1
    rw [← hfirst.determined hsecond (by rwa [structTokens_length]) (by omega)]
    generalize (fdtSerialize (builtBy (fun _ => 0) bufsize calls)).2.buf i = v
    bv_omega

/-- a buffer of size bytes that was accepted: the structure block of the calls that did not fail ends before the strings block
starts, every byte written is below bufsize, and the blocks are whole inside the size returned -/
structure Contained (bufsize : ℕ) (calls : List FdtCall) (buf : ℕ → Byte) (size : ℕ) : Prop where
  structFits : structBase.toNat + structSize (made 0 calls) ≤ stringsBase.toNat
  inBounds : ∀ i, Written bufsize calls i → i < bufsize
  structWhole :
    slice (region buf 0 size) structBase.toNat (structSize (made 0 calls)) = some (structTokens (made 0 calls))
  namesWhole :
    slice (region buf 0 size) stringsBase.toNat (namesOf (made 0 calls)).length = some (namesOf (made 0 calls))

/-- fdt_serialize accepts only what is contained -/
def RejectsOutgrown (bufsize : ℕ) (calls : List FdtCall) : Prop :=
  ∀ buf, (fdtSerialize (builtBy buf bufsize calls)).1 ≠ 0 →
    Contained bufsize calls (fdtSerialize (builtBy buf bufsize calls)).2.buf
      (fdtSerialize (builtBy buf bufsize calls)).1.toNat

/-- fdt_serialize refuses the calls for the end of their strings block, which it computes in 32 bits -/
def NamesRefused (calls : List FdtCall) : Prop :=
  totalSize calls % 2 ^ 32 = 0 ∨ fdtMaxBuf.toNat < totalSize calls % 2 ^ 32

/-- the tree fits its window, the working region and the buffer -/
def Fits (bufsize : ℕ) (calls : List FdtCall) : Prop :=
  structSize calls ≤ fdtStructMax.toNat ∧ totalSize calls ≤ fdtMaxBuf.toNat ∧ totalSize calls ≤ bufsize

/-- the size returned, for calls that close what they open -/
theorem serialized_size {buf : ℕ → Byte} {bufsize : ℕ} {calls : List FdtCall}
    (hdepth : (builtBy buf bufsize calls).depth = 0) : (fdtSerialize (builtBy buf bufsize calls)).1.toNat =
      if totalSize (made 0 calls) % 2 ^ 32 ≤ 16384 then totalSize (made 0 calls) % 2 ^ 32 else 0 := by
  obtain ⟨-, herr, hstrings⟩ := runCalls_closed (runCalls_builtBy buf bufsize calls) hdepth
  exact fdtSerialize_size herr hdepth hstrings

/-- **When a tree that outgrows its window is rejected.** -/
theorem outgrown_rejected_iff (bufsize : ℕ) (calls : List FdtCall) : RejectsOutgrown bufsize calls ↔
    ¬ Closes (made 0 calls) ∨ NamesRefused (made 0 calls) ∨ Fits bufsize (made 0 calls) := by
  have hmax : fdtMaxBuf.toNat = 16384 := by decide
  have hstructMax : fdtStructMax.toNat = 4096 := by decide
  have hstructBase : structBase.toNat = 56 := by decide
  have hstringsBase : stringsBase.toNat = 4152 := by decide
  have htotalEq := totalSize_eq (made 0 calls)
  unfold NamesRefused Fits
  rw [hmax, hstructMax]
  constructor
  · intro h
    by_contra hnot
    obtain ⟨hcloses, hrefused, hfits⟩ : Closes (made 0 calls) ∧
        ¬ (totalSize (made 0 calls) % 2 ^ 32 = 0 ∨ 16384 < totalSize (made 0 calls) % 2 ^ 32) ∧
        ¬ (structSize (made 0 calls) ≤ 4096 ∧ totalSize (made 0 calls) ≤ 16384 ∧
          totalSize (made 0 calls) ≤ bufsize) := by
      tauto
    have hsize := serialized_size ((builtBy_depth (fun _ => 0) bufsize).mpr hcloses)
    rw [if_pos (by omega)] at hsize
    have hcontained := h (fun _ => 0) fun hzero => by
      rw [hzero] at hsize
      change 0 = _ at hsize
      omega
    have hstruct := hcontained.structFits
    have hnames := hcontained.namesWhole
    rw [hstructBase, hstringsBase] at hstruct
    rw [slice, hstringsBase, region_length, hsize] at hnames
    split_ifs at hnames with hinside
    have hlast := hcontained.inBounds (totalSize (made 0 calls) - 1)
      ((written_iff bufsize hcloses (by omega) (by omega) _).mpr (by omega))
    exact hfits ⟨by omega, by omega, by omega⟩
  · rintro h buf hne
    by_cases hdepth : (builtBy buf bufsize calls).depth = 0
    · have hcloses := (builtBy_depth buf bufsize).mp hdepth
      have hsize := serialized_size hdepth
      rcases h with hnot | hrefused | ⟨hstruct, htotal, hbufsize⟩
      · exact absurd hcloses hnot
      · -- refused for its names
        have hzero : (fdtSerialize (builtBy buf bufsize calls)).1.toNat = 0 := by
          rw [hsize]
          split_ifs <;> omega
        exact absurd (BitVec.eq_of_toNat_eq hzero) hne
      · have hserialized := (calls_serialized (runCalls_builtBy buf bufsize calls) hdepth hstruct htotal).2
        have hexact : (fdtSerialize (builtBy buf bufsize calls)).1.toNat = totalSize (made 0 calls) := by
          rw [hsize, Nat.mod_eq_of_lt (by omega), if_pos htotal]
        have hheld := hserialized.structHeld
        rw [structTokens_length] at hheld
        refine ⟨by omega, fun i hi => ?_, ?_, ?_⟩
        · exact ((written_iff bufsize hcloses hstruct htotal i).mp hi).trans_le hbufsize
        · rw [hexact, hstructBase, slice_region (by omega), hheld]
        · rw [hexact, hstringsBase, slice_region (by omega), hserialized.stringsHeld]
    · have hzero : (fdtSerialize (builtBy buf bufsize calls)).1 = 0 := by rw [fdtSerialize, if_pos (Or.inr hdepth)]
      exact absurd hzero hne

/-- one property of n bytes -/
def oneProp (n : ℕ) : List FdtCall := [.propBytes (CString.ofString "a") (List.replicate n 1)]

theorem structSize_oneProp (n : ℕ) : structSize (made 0 (oneProp n)) = 28 + padded n := by
  have hmade : made 0 (oneProp n) = oneProp n := rfl
  rw [hmade]
  simp only [structSize, oneProp, eventsOf, FdtCall.event, Event.size, List.map_cons, List.map_nil, List.sum_cons,
    List.sum_nil, List.length_replicate, List.length_nil]
  rw [padded, padded]
  omega

/-- a property of one page runs over the strings block, and the tree is accepted -/
theorem outgrown_accepted : ¬ RejectsOutgrown 16384 (oneProp 4096) := by
  intro h
  have hcloses : Closes (made 0 (oneProp 4096)) := ⟨fun c hc => by rw [List.mem_singleton.mp hc]; rfl, rfl⟩
  have htotal : totalSize (made 0 (oneProp 4096)) = 4154 := rfl
  have hsize := serialized_size ((builtBy_depth (fun _ => 0) 16384).mpr hcloses)
  rw [htotal] at hsize
  have hfits := (h _ fun hzero => by rw [hzero] at hsize; exact absurd hsize (by decide)).structFits
  rw [structSize_oneProp] at hfits
  exact absurd hfits (by decide)

/-! ## The machine's tree in guest memory -/

/-- the size of the machine's tree, with and without an initrd -/
def riscvemuSize (initrdStart initrdEnd : Word) : ℕ := if initrdStart ≠ 0 ∧ initrdEnd ≠ 0 then 4737 else 4701

theorem riscvemuSize_pos (s e : Word) : 0 < riscvemuSize s e := by
  rw [riscvemuSize]
  split_ifs <;> decide

/-- what calls add to the two blocks -/
def callSizes (calls : List FdtCall) : ℕ × ℕ := (((eventsOf calls).map Event.size).sum, (namesOf calls).length)

theorem callSizes_append (cs ds : List FdtCall) : callSizes (cs ++ ds) = callSizes cs + callSizes ds := by
  simp only [callSizes, namesOf, eventsOf, List.map_append, List.sum_append, List.flatMap_append, List.length_append]
  rfl

theorem depthAfter_append (d : ℕ) (cs ds : List FdtCall) :
    depthAfter d (eventsOf (cs ++ ds)) = (depthAfter d (eventsOf cs)).bind (depthAfter · (eventsOf ds)) := by
  rw [eventsOf, List.map_append]
  induction cs generalizing d with
  | nil => rfl
  | cons c cs ih =>
    rw [List.map_cons, List.cons_append]
    cases hevent : c.event with
    | push name => simpa only [eventsOf, List.map_cons, hevent, depthAfter] using ih (d + 1)
    | prop name value => simpa only [eventsOf, List.map_cons, hevent, depthAfter] using ih d
    | pop =>
      cases d with
      | zero => simp only [eventsOf, List.map_cons, hevent, depthAfter, Option.bind_none]
      | succ d => simpa only [eventsOf, List.map_cons, hevent, depthAfter] using ih d

theorem fdtBuildChosen_spec (s e : Word) : (∀ c ∈ fdtBuildChosen s e, c.named) ∧
    (∀ d, depthAfter d (eventsOf (fdtBuildChosen s e)) = some d) ∧
    callSizes (fdtBuildChosen s e) = if s ≠ 0 ∧ e ≠ 0 then (164, 57) else (124, 21) := by
  have hinitrd : callSizes [.propCells2 (.ofString "linux,initrd-start") 0 s,
      .propCells2 (.ofString "linux,initrd-end") 0 e] = (40, 36) := by
    have hstart : (CString.ofString "linux,initrd-start").chars.length = 18 := by decide
    have hend : (CString.ofString "linux,initrd-end").chars.length = 16 := by decide
    simp [callSizes, namesOf, eventsOf, FdtCall.event, Event.size, Event.strings, padded, hstart, hend]
  unfold fdtBuildChosen
  split_ifs with h
  · refine ⟨List.all_eq_true.mp rfl, fun d => rfl, ?_⟩
    rw [callSizes_append, callSizes_append, hinitrd]
    decide +kernel
  · exact ⟨List.all_eq_true.mp rfl, fun d => rfl, by decide +kernel⟩

/-- the calls close what they open, their structure block fits its window, and their size is known -/
theorem riscvemuCalls_spec (s e : Word) : Closes (riscvemuCalls s e) ∧ structSize (riscvemuCalls s e) ≤ 4096 ∧
    totalSize (riscvemuCalls s e) = riscvemuSize s e := by
  obtain ⟨hnamed, hdepth, hsizes⟩ := fdtBuildChosen_spec s e
  have hrest : callSizes (fdtBuildMemory ++ (fdtBuildCpus ++ fdtBuildSoc)) = (1016, 484) := by decide +kernel
  have hroot : callSizes fdtBuildRoot = (88, 44) := by decide +kernel
  have hall : callSizes (riscvemuCalls s e) = (88, 44) + ((if s ≠ 0 ∧ e ≠ 0 then (164, 57) else (124, 21)) + (1016, 484)) := by
    rw [riscvemuCalls, callSizes_append, callSizes_append, hroot, hsizes, hrest]
  refine ⟨⟨?_, ?_⟩, ?_, ?_⟩
  · have hclosed : ∀ c ∈ fdtBuildRoot ++ (fdtBuildMemory ++ (fdtBuildCpus ++ fdtBuildSoc)), c.named := by decide +kernel
    intro c hc
    simp only [riscvemuCalls, List.mem_append] at hc hclosed
    rcases hc with hc | hc | hc
    · exact hclosed c (.inl hc)
    · exact hnamed c hc
    · exact hclosed c (.inr hc)
  · have hfirst : depthAfter 0 (eventsOf fdtBuildRoot) = some 0 := by decide +kernel
    have hlast : depthAfter 0 (eventsOf (fdtBuildMemory ++ (fdtBuildCpus ++ fdtBuildSoc))) = some 0 := by decide +kernel
    rw [riscvemuCalls, depthAfter_append, hfirst, Option.bind_some, depthAfter_append, hdepth, Option.bind_some, hlast]
  · have hstruct := congrArg Prod.fst hall
    have hsum : structSize (riscvemuCalls s e) = 8 + (callSizes (riscvemuCalls s e)).1 + 4 + 4 := rfl
    rw [hsum, hstruct]
    split_ifs <;> decide
  · have htotal := congrArg Prod.snd hall
    have hsum : totalSize (riscvemuCalls s e) = 4152 + (callSizes (riscvemuCalls s e)).2 := rfl
    rw [hsum, htotal, riscvemuSize]
    split_ifs <;> rfl

theorem totalSize_riscvemuCalls_le (s e : Word) : totalSize (riscvemuCalls s e) ≤ 16384 := by
  rw [(riscvemuCalls_spec s e).2.2, riscvemuSize]
  split_ifs <;> decide

/-- the build never fails -/
theorem fdtBuildRiscvemu_size (mem : ℕ → Byte) (addr s e : Word) :
    (fdtBuildRiscvemu mem addr s e).1.toNat = riscvemuSize s e := by
  obtain ⟨hcloses, hstruct, htotal⟩ := riscvemuCalls_spec s e
  have hfits := totalSize_riscvemuCalls_le s e
  obtain ⟨b, hrun, hdepth⟩ := runCalls_some (fun i => mem (addr.toNat + i)) fdtMaxBuf.toNat hcloses
  have hsize : (fdtBuildRiscvemu mem addr s e).1 = (fdtSerialize b).1 := by rw [fdtBuildRiscvemu, hrun]
  rw [hsize, (calls_serialized hrun hdepth hstruct hfits).1, BitVec.toNat_ofNat, htotal, Nat.mod_eq_of_lt (by omega)]

/-- fdt_build_riscvemu writes byte j of g_state.main_memory -/
def RamWritten (addr initrdStart initrdEnd : Word) (j : ℕ) : Prop :=
  ∃ mem, (fdtBuildRiscvemu mem addr initrdStart initrdEnd).2 j ≠ mem j

/-- **The machine's tree is written to the bytes from addr on, as many as its size.** -/
theorem ramWritten_iff (addr s e : Word) (j : ℕ) :
    RamWritten addr s e j ↔ addr.toNat ≤ j ∧ j < addr.toNat + riscvemuSize s e := by
  obtain ⟨hcloses, hstruct, htotal⟩ := riscvemuCalls_spec s e
  have hfits := totalSize_riscvemuCalls_le s e
  have hmade : made 0 (riscvemuCalls s e) = riscvemuCalls s e := made_of_closes hcloses.1 hcloses.2
  have hwritten := @written_iff fdtMaxBuf.toNat (riscvemuCalls s e)
  rewrite [hmade, htotal] at hwritten
  specialize hwritten hcloses hstruct (htotal ▸ hfits)
  have hbuild : ∀ (mem : ℕ → Byte) i, (fdtBuildRiscvemu mem addr s e).2 i = if addr.toNat ≤ i then
      (fdtSerialize (builtBy (fun i => mem (addr.toNat + i)) fdtMaxBuf.toNat (riscvemuCalls s e))).2.buf (i - addr.toNat)
      else mem i := by
    intro mem i
    have hrun := runCalls_builtBy (fun i => mem (addr.toNat + i)) fdtMaxBuf.toNat (riscvemuCalls s e)
    rw [hmade] at hrun
    rw [fdtBuildRiscvemu, hrun]
  constructor
  · rintro ⟨mem, hne⟩
    rw [hbuild] at hne
    split_ifs at hne with hle
    · have hback : mem (addr.toNat + (j - addr.toNat)) = mem j := congrArg mem (by omega)
      rw [← hback] at hne
      have hlt := (hwritten (j - addr.toNat)).mp ⟨fun i => mem (addr.toNat + i), hne⟩
      omega
    · exact absurd rfl hne
  · rintro ⟨hle, hlt⟩
    obtain ⟨buf, hne⟩ := (hwritten (j - addr.toNat)).mpr (by omega)
    have hbuf : (fun i => (fun k => buf (k - addr.toNat)) (addr.toNat + i)) = buf := by
      funext i
      exact congrArg buf (by omega)
    refine ⟨fun k => buf (k - addr.toNat), ?_⟩
    rw [hbuild, hbuf, if_pos hle]
    exact hne

/-- **When placing the device tree stays inside guest memory.** -/
theorem fdt_in_ram_iff (addr initrdStart initrdEnd : Word) :
    (∀ j, RamWritten addr initrdStart initrdEnd j → j < memSize) ↔
      addr.toNat + riscvemuSize initrdStart initrdEnd ≤ memSize := by
  have hpos := riscvemuSize_pos initrdStart initrdEnd
  constructor
  · intro h
    have hlast := h (addr.toNat + riscvemuSize initrdStart initrdEnd - 1) ((ramWritten_iff ..).mpr (by omega))
    omega
  · intro h j hj
    have hbound := ((ramWritten_iff ..).mp hj).2
    omega

/-- `--fdt=0xFFFFF000`: the first byte of the tree is the first one past guest memory -/
theorem fdt_past_ram : ¬ ∀ j, RamWritten 0xFFFFF000 0 0 j → j < memSize := by
  intro h
  have hfirst := h memSize ((ramWritten_iff ..).mpr (by decide))
  exact Nat.lt_irrefl _ hfirst

end RiscvEmu
