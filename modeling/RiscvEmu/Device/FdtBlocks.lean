/-
The device tree writer's two blocks: what the builder's calls leave in the buffer.

`Rep buf₀ b st strings` says that the builder's two blocks hold st and strings so far, and that the buffer is as buf₀ beside
them. Every primitive appends to one block and leaves the other alone; every call appends the token of the event it stands
for; a run of calls appends them all. `fdtSerialize` then closes the root and writes the header and the reserve map.
Results:
- `FdtCall.run_rep`, `runCalls_rep`: the blocks after calls that succeed and fit;
- `fdtSerialize_rep`: the buffer after serialisation.
-/
import RiscvEmu.Device.Fdt
import RiscvEmu.Lib.Bits
import RiscvEmu.Lib.Dtb

namespace RiscvEmu

open Buffer Dtb

/-! ## Primitives -/

theorem setWidth_shift_and (v : Word) (k : ℕ) : ((v >>> k) &&& 0xFF).setWidth 8 = v.extractLsb' k 8 := by
  apply BitVec.eq_of_toNat_eq
  rw [BitVec.toNat_setWidth, Bits.toNat_and_mask (k := 8) _ _ rfl, BitVec.extractLsb'_toNat, BitVec.toNat_ushiftRight,
    Nat.mod_mod]

theorem be32_eq (buf : ℕ → Byte) (p : ℕ) (v : Word) : be32 buf p v = write buf p (Dtb.be32 v) := by
  have h3 : (v >>> 24).setWidth 8 = v.extractLsb' 24 8 := rfl
  have h0 : (v &&& 0xFF).setWidth 8 = v.extractLsb' 0 8 := setWidth_shift_and v 0
  unfold be32
  rw [h3, setWidth_shift_and, setWidth_shift_and, h0]
  dsimp only
  rw [← write_singleton p, ← write_singleton (p + 1), ← write_singleton (p + 2), ← write_singleton (p + 3)]
  exact ((@write_append _ (write (write buf p _) _ _) _ [_] [_]).trans
    (@write_append _ (write buf p _) _ [_] _)).trans (@write_append _ buf _ [_] _)

/-! ## The blocks -/

/-- what the two blocks hold so far; beside them the buffer is as it was -/
structure Rep (buf₀ : ℕ → Byte) (b : FdtBuilder) (st strings : Octets) : Prop where
  err : b.err = false
  structOff : b.structOff.toNat = 56 + st.length
  stringsOff : b.stringsOff.toNat = 4152 + strings.length
  structFits : st.length ≤ 4096
  stringsFits : 4152 + strings.length ≤ 16384
  structHeld : region b.buf 56 st.length = st
  stringsHeld : region b.buf 4152 strings.length = strings
  frame : ∀ i, i < 56 ∨ 56 + st.length ≤ i → i < 4152 ∨ 4152 + strings.length ≤ i → b.buf i = buf₀ i

/-- l, written at the structure cursor -/
def structAppend (b : FdtBuilder) (l : Octets) : FdtBuilder :=
  { b with buf := write b.buf b.structOff.toNat l, structOff := b.structOff + BitVec.ofNat 32 l.length }

@[simp] theorem structAppend_depth (b : FdtBuilder) (l : Octets) : (structAppend b l).depth = b.depth := rfl

theorem structWord_eq (b : FdtBuilder) (w : Word) : structWord b w = structAppend b (Dtb.be32 w) := by
  unfold structWord structAppend
  rw [be32_eq]
  rfl

section

variable {buf₀ : ℕ → Byte} {b : FdtBuilder} {st strings : Octets}

theorem Rep.depth (h : Rep buf₀ b st strings) (d : ℕ) : Rep buf₀ { b with depth := d } st strings :=
  ⟨h.err, h.structOff, h.stringsOff, h.structFits, h.stringsFits, h.structHeld, h.stringsHeld, h.frame⟩

theorem Rep.append (h : Rep buf₀ b st strings) {l : Octets} (hfit : st.length + l.length ≤ 4096) :
    Rep buf₀ (structAppend b l) (st ++ l) strings where
  err := h.err
  structOff := by
    have hoff := h.structOff
    simp only [structAppend, BitVec.toNat_add, BitVec.toNat_ofNat, List.length_append]
    omega
  stringsOff := h.stringsOff
  structFits := by rwa [List.length_append]
  stringsFits := h.stringsFits
  structHeld := by
    have hother : region (write b.buf (56 + st.length) l) 56 st.length = region b.buf 56 st.length :=
      region_write_other (Or.inl (Nat.le_refl (56 + st.length)))
    rw [List.length_append, region_add, structAppend, h.structOff, hother, h.structHeld, region_write]
  stringsHeld := by
    have hother : region (write b.buf (56 + st.length) l) 4152 strings.length = region b.buf 4152 strings.length :=
      region_write_other (Or.inr (by omega))
    rw [structAppend, h.structOff, hother, h.stringsHeld]
  frame := by
    intro i hstruct hstrings
    rw [List.length_append] at hstruct
    rw [structAppend, h.structOff]
    exact (write_other (by omega)).trans (h.frame i (by omega) hstrings)

theorem Rep.word (h : Rep buf₀ b st strings) {w : Word} (hfit : st.length + 4 ≤ 4096) :
    Rep buf₀ (structWord b w) (st ++ Dtb.be32 w) strings := by
  rw [structWord_eq]
  exact h.append hfit

theorem structBytes_eq {data : Octets} {len : Word} (hlen : len.toNat = data.length) :
    structBytes b data len = structAppend b data := by
  have hofNat : BitVec.ofNat 32 data.length = len := by rw [← hlen, BitVec.ofNat_toNat, BitVec.setWidth_eq]
  unfold structBytes structAppend
  rw [hofNat, hlen, List.take_length]
  split_ifs with hne
  · rfl
  · have hnil : data = [] := List.length_eq_zero_iff.mp (by rw [← hlen, not_not.mp hne]; rfl)
    rw [hnil, write_nil]

theorem structBytes_zero (data : List Byte) : structBytes b data 0 = b := by
  have hoff : b.structOff + 0 = b.structOff := BitVec.add_zero _
  unfold structBytes
  rw [if_neg (not_not.mpr rfl), hoff]

theorem structAlignLoop_rep {n : ℕ} (h : Rep buf₀ b st strings) (hn : padded st.length - st.length ≤ n)
    (hfit : padded st.length ≤ 4096) : Rep buf₀ (structAlignLoop n b) (pad4 st) strings := by
  have hmod : (b.structOff &&& 3).toNat = st.length % 4 := by
    rw [Bits.toNat_and_mask (k := 2) _ _ rfl, h.structOff]
    omega
  induction n generalizing b st with
  | zero =>
    have hdvd : 4 ∣ st.length := by
      rw [padded] at hn
      omega
    rwa [structAlignLoop, pad4_of_dvd hdvd]
  | succ n ih =>
    rw [structAlignLoop]
    split_ifs with hne
    · -- one more zero, and the rest as before
      have hmod0 : st.length % 4 ≠ 0 := by
        intro h0
        exact hne (BitVec.eq_of_toNat_eq (hmod.trans h0))
      have hpadded : padded (st ++ [0]).length = padded st.length := by
        rw [List.length_append, List.length_singleton, padded, padded]
        omega
      have hlt : st.length + 1 ≤ padded st.length := by
        rw [padded]
        omega
      have hone : Rep buf₀ (structAppend b [0]) (st ++ [0]) strings := h.append (by rw [List.length_singleton]; omega)
      have hrest := ih hone (by rw [hpadded, List.length_append, List.length_singleton]; omega)
        (by rwa [hpadded]) (by
          rw [Bits.toNat_and_mask (k := 2) _ _ rfl, hone.structOff]
          omega)
      have hpad : pad4 (st ++ [0]) = pad4 st := by
        have hzeros : padded st.length - st.length = padded st.length - (st.length + 1) + 1 := by omega
        rw [pad4, pad4, hpadded, hzeros, List.replicate_succ, List.append_assoc, List.length_append]
        rfl
      rw [hpad] at hrest
      rw [← write_singleton]
      exact hrest
    · have hdvd : 4 ∣ st.length := by
        have h0 := congrArg BitVec.toNat (not_not.mp hne)
        rw [hmod] at h0
        exact Nat.dvd_of_mod_eq_zero h0
      rwa [pad4_of_dvd hdvd]

theorem Rep.align (h : Rep buf₀ b st strings) (hfit : padded st.length ≤ 4096) : Rep buf₀ (structAlign b) (pad4 st) strings := by
  refine structAlignLoop_rep h ?_ hfit
  rw [padded]
  omega

theorem Rep.string (h : Rep buf₀ b st strings) (h4 : 4 ∣ st.length) {s : CString}
    (hfit : st.length + padded (s.chars.length + 1) ≤ 4096) :
    Rep buf₀ (structString b s) (st ++ pad4 (s.chars ++ [0])) strings := by
  have hpadded : padded (st ++ s.chars ++ [0]).length = st.length + padded (s.chars.length + 1) := by
    simp only [List.length_append, List.length_singleton, padded]
    omega
  have hle : s.chars.length + 1 ≤ padded (s.chars.length + 1) := by
    rw [padded]
    omega
  have hn : (BitVec.ofNat 32 (strlen s)).toNat = s.chars.length := by
    rw [BitVec.toNat_ofNat, strlen]
    omega
  have hchars : Rep buf₀ (structAppend b s.chars) (st ++ s.chars) strings := h.append (by omega)
  have hnul : Rep buf₀ (structAppend (structAppend b s.chars) [0]) (st ++ s.chars ++ [0]) strings :=
    hchars.append (by rw [List.length_append, List.length_singleton]; omega)
  have halign := hnul.align (by rw [hpadded]; exact hfit)
  rw [List.append_assoc, pad4_append h4] at halign
  have heq : structString b s = structAlign (structAppend (structAppend b s.chars) [0]) := by
    unfold structString memcpy
    dsimp only
    rw [hn, List.take_length, ← write_singleton]
    rfl
  rw [heq]
  exact halign

theorem toNat_strlen_succ {s : CString} (h : s.bytes.length < 2 ^ 32) :
    (BitVec.ofNat 32 (strlen s) + 1).toNat = s.bytes.length := by
  have hbytes : s.bytes.length = strlen s + 1 := List.length_append
  have hone : (1 : Word).toNat = 1 := rfl
  rw [BitVec.toNat_add, BitVec.toNat_ofNat, hone]
  omega

theorem Rep.intern (h : Rep buf₀ b st strings) {name : CString} (hfit : 4152 + strings.length + name.bytes.length ≤ 16384) :
    (stringsIntern b name).1 = BitVec.ofNat 32 strings.length ∧
      Rep buf₀ (stringsIntern b name).2 st (strings ++ name.bytes) := by
  have hn : (BitVec.ofNat 32 (strlen name) + 1).toNat = name.bytes.length := toNat_strlen_succ (by omega)
  have hoff := h.stringsOff
  refine ⟨?_, ?_⟩
  · have hbase : stringsBase.toNat = 4152 := by decide
    apply BitVec.eq_of_toNat_eq
    rw [BitVec.toNat_ofNat, stringsIntern, BitVec.toNat_sub, hbase]
    omega
  · have hbuf : (stringsIntern b name).2.buf = write b.buf (4152 + strings.length) name.bytes := by
      unfold stringsIntern memcpy
      dsimp only
      rw [hn, List.take_length, hoff]
    have hfits := h.structFits
    exact {
      err := h.err
      structOff := h.structOff
      stringsOff := by
        unfold stringsIntern
        rw [BitVec.toNat_add, hn, hoff, List.length_append]
        omega
      structFits := hfits
      stringsFits := by
        rw [List.length_append]
        omega
      structHeld := by
        rw [hbuf, region_write_other (Or.inl (by omega)), h.structHeld]
      stringsHeld := by
        rw [hbuf, List.length_append, region_add, region_write_other (Or.inl (Nat.le_refl _)), h.stringsHeld, region_write]
      frame := by
        intro i hstruct hstrings
        rw [List.length_append] at hstrings
        rw [hbuf, write_other (by omega)]
        exact h.frame i hstruct (by omega) }

end

/-! ## Calls -/

/-- what a call says -/
def FdtCall.event : FdtCall → Event
  | .nodePush name => .push name.chars
  | .nodePop => .pop
  | .propWord name v0 v1 v2 v3 => .prop name.chars ([v0, v1, v2, v3].flatMap Dtb.be32)
  | .propCells1 name v0 => .prop name.chars ([v0].flatMap Dtb.be32)
  | .propCells2 name v0 v1 => .prop name.chars ([v0, v1].flatMap Dtb.be32)
  | .propCells3 name v0 v1 v2 => .prop name.chars ([v0, v1, v2].flatMap Dtb.be32)
  | .propStr name str => .prop name.chars str.bytes
  | .propEmpty name => .prop name.chars []
  | .propBytes name data => .prop name.chars data

theorem cellBytes_eq (vals : List Word) : cellBytes vals = vals.flatMap Dtb.be32 := by
  refine List.flatMap_congr ?_
  intro v _
  rw [be32_eq]
  rfl

theorem flatMap_be32_length (vals : List Word) : (vals.flatMap Dtb.be32).length = 4 * vals.length := by
  induction vals with
  | nil => rfl
  | cons v vals ih => rw [List.flatMap_cons, List.length_append, ih, be32_length, List.length_cons]; omega

section

variable {buf₀ : ℕ → Byte} {b b' : FdtBuilder} {st strings : Octets} {name : CString} {value : List Byte} {len : Word}

/-- the call wrote the token of the event and interned its name -/
def Emits (buf₀ : ℕ → Byte) (b b' : FdtBuilder) (st strings : Octets) (e : Event) : Prop :=
  Rep buf₀ b' (st ++ (e.token (BitVec.ofNat 32 strings.length)).encode) (strings ++ e.strings) ∧
    ∀ es, depthAfter b.depth (e :: es) = depthAfter b'.depth es

/-- what the fdt_prop_ calls share: the head of the token is written, and only the value is left -/
theorem propBegin_rep (h : Rep buf₀ b st strings) (hbegin : propBegin b name len = some b')
    (hlen : len.toNat = value.length) (hfit : st.length + (12 + padded value.length) ≤ 4096)
    (hstrings : 4152 + strings.length + name.bytes.length ≤ 16384) :
    ∃ st', st'.length = st.length + 12 ∧ Rep buf₀ b' st' (strings ++ name.bytes) ∧ b'.depth = b.depth ∧
      st' ++ pad4 value = st ++ (Token.prop (BitVec.ofNat 32 strings.length) value).encode := by
  have htag : Rep buf₀ (structWord b fdtProp) (st ++ Dtb.be32 fdtProp) strings := h.word (by omega)
  have hlenWord : Rep buf₀ (structWord (structWord b fdtProp) len) (st ++ Dtb.be32 fdtProp ++ Dtb.be32 len) strings :=
    htag.word (by rw [List.length_append, be32_length]; omega)
  obtain ⟨hrel, hintern⟩ := hlenWord.intern hstrings
  have hname := hintern.word (w := BitVec.ofNat 32 strings.length)
    (by simp only [List.length_append, be32_length]; omega)
  have hb' : structWord (stringsIntern (structWord (structWord b fdtProp) len) name).2
      (BitVec.ofNat 32 strings.length) = b' := by
    rw [propBegin, if_neg (by simp [h.err])] at hbegin
    rw [← hrel]
    exact Option.some.inj hbegin
  rw [hb'] at hname
  refine ⟨_, ?_, hname, ?_, ?_⟩
  · simp only [List.length_append, be32_length]
  · rw [← hb']
    rfl
  · have hofNat : BitVec.ofNat 32 value.length = len := by rw [← hlen, BitVec.ofNat_toNat, BitVec.setWidth_eq]
    rw [Token.encode, hofNat]
    simp only [List.append_assoc]
    rfl

/-- the value, and the zeros behind it -/
theorem value_rep {st' strings' : Octets} (h : Rep buf₀ b' st' strings') (hfit : st'.length + padded value.length ≤ 4096)
    (h4 : 4 ∣ st'.length) : Rep buf₀ (structAlign (structAppend b' value)) (st' ++ pad4 value) strings' := by
  have hpadded : padded (st' ++ value).length = st'.length + padded value.length := by
    rw [List.length_append, padded, padded]
    omega
  have hle : value.length ≤ padded value.length := by
    rw [padded]
    omega
  have hvalue : Rep buf₀ (structAppend b' value) (st' ++ value) strings' := h.append (by omega)
  rw [← pad4_append h4]
  exact hvalue.align (by rw [hpadded]; exact hfit)

theorem structAlignLoop_depth (n : ℕ) (b : FdtBuilder) : (structAlignLoop n b).depth = b.depth := by
  induction n generalizing b with
  | zero => rfl
  | succ n ih =>
    rw [structAlignLoop]
    split_ifs
    · exact ih _
    · rfl

@[simp] theorem structAlign_depth (b : FdtBuilder) : (structAlign b).depth = b.depth := structAlignLoop_depth 3 b

@[simp] theorem structString_depth (b : FdtBuilder) (s : CString) : (structString b s).depth = b.depth := by
  unfold structString
  dsimp only
  rw [structAlign_depth]

/-- the loop of fdt_prop_ncells -/
theorem cells_rep (vals : List Word) {st' strings' : Octets} (h : Rep buf₀ b' st' strings')
    (hfit : st'.length + (vals.flatMap Dtb.be32).length ≤ 4096) :
    Rep buf₀ (vals.foldl (fun b v => structBytes b (cellBytes [v]) 4) b') (st' ++ vals.flatMap Dtb.be32) strings' ∧
      (vals.foldl (fun b v => structBytes b (cellBytes [v]) 4) b').depth = b'.depth := by
  induction vals generalizing b' st' with
  | nil => exact ⟨by simpa using h, rfl⟩
  | cons v vals ih =>
    rw [List.flatMap_cons, List.length_append, be32_length] at hfit
    have hcell : structBytes b' (cellBytes [v]) 4 = structAppend b' (Dtb.be32 v) := by
      rw [cellBytes_eq, List.flatMap_singleton]
      exact structBytes_eq rfl
    have hone : Rep buf₀ (structAppend b' (Dtb.be32 v)) (st' ++ Dtb.be32 v) strings' :=
      h.append (by rw [be32_length]; omega)
    obtain ⟨hrest, hdepth⟩ := ih hone (by rw [List.length_append, be32_length]; omega)
    rw [List.foldl_cons, hcell, List.flatMap_cons, ← List.append_assoc]
    exact ⟨hrest, hdepth⟩

theorem propNcells_rep (vals : List Word) (h : Rep buf₀ b st strings) (hrun : fdtPropNcells b name vals = some b')
    (hfit : st.length + (Event.prop name.chars (vals.flatMap Dtb.be32)).size ≤ 4096)
    (hstrings : 4152 + strings.length + name.bytes.length ≤ 16384) :
    Emits buf₀ b b' st strings (.prop name.chars (vals.flatMap Dtb.be32)) := by
  have hvals := flatMap_be32_length vals
  have hdvd : 4 ∣ (vals.flatMap Dtb.be32).length := ⟨vals.length, hvals⟩
  rw [fdtPropNcells] at hrun
  split_ifs at hrun with hcount
  obtain ⟨b₁, hbegin, rfl⟩ := Option.map_eq_some_iff.mp hrun
  have hlen : (BitVec.ofNat 32 (vals.length * 4)).toNat = (vals.flatMap Dtb.be32).length := by
    have hmax : vals.length ≤ fdtMaxCells := by omega
    rw [BitVec.toNat_ofNat, hvals]
    unfold fdtMaxCells at hmax
    omega
  have hpadded : padded (vals.flatMap Dtb.be32).length = (vals.flatMap Dtb.be32).length := by
    rw [padded]
    omega
  rw [Event.size, hpadded] at hfit
  obtain ⟨st', hst', hrep, hdepth, htoken⟩ := propBegin_rep h hbegin hlen (by rw [hpadded]; exact hfit) hstrings
  obtain ⟨hcells, hcellsDepth⟩ := cells_rep vals hrep (by omega)
  rw [pad4_of_dvd hdvd] at htoken
  rw [htoken] at hcells
  exact ⟨hcells, fun es => by rw [hcellsDepth, hdepth]; rfl⟩

theorem propWord_rep {v0 v1 v2 v3 : Word} (h : Rep buf₀ b st strings) (hrun : fdtPropWord b name v0 v1 v2 v3 = some b')
    (hfit : st.length + (Event.prop name.chars ([v0, v1, v2, v3].flatMap Dtb.be32)).size ≤ 4096)
    (hstrings : 4152 + strings.length + name.bytes.length ≤ 16384) :
    Emits buf₀ b b' st strings (.prop name.chars ([v0, v1, v2, v3].flatMap Dtb.be32)) := by
  obtain ⟨b₁, hbegin, rfl⟩ := Option.map_eq_some_iff.mp hrun
  have hlen : (16 : Word).toNat = ([v0, v1, v2, v3].flatMap Dtb.be32).length := rfl
  obtain ⟨st', hst', hrep, hdepth, htoken⟩ := propBegin_rep h hbegin hlen hfit hstrings
  have hbytes : structBytes b₁ (cellBytes [v0, v1, v2, v3]) 16 =
      structAppend b₁ ([v0, v1, v2, v3].flatMap Dtb.be32) := by
    rw [cellBytes_eq]
    exact structBytes_eq rfl
  have happend : Rep buf₀ (structAppend b₁ ([v0, v1, v2, v3].flatMap Dtb.be32)) _ _ :=
    hrep.append (by rw [hst']; simpa [Event.size, padded] using hfit)
  rw [pad4_of_dvd ⟨4, rfl⟩] at htoken
  rw [htoken] at happend
  rw [hbytes]
  exact ⟨happend, fun es => by rw [structAppend_depth, hdepth]; rfl⟩

/-- a value of bytes, filled up to a multiple of 4 -/
theorem propValue_rep (h : Rep buf₀ b st strings) (h4 : 4 ∣ st.length) {b₁ : FdtBuilder}
    (hbegin : propBegin b name len = some b₁) (hlen : len.toNat = value.length)
    (hfit : st.length + (Event.prop name.chars value).size ≤ 4096)
    (hstrings : 4152 + strings.length + name.bytes.length ≤ 16384) :
    Emits buf₀ b (structAlign (structAppend b₁ value)) st strings (.prop name.chars value) := by
  obtain ⟨st', hst', hrep, hdepth, htoken⟩ := propBegin_rep h hbegin hlen hfit hstrings
  rw [Event.size] at hfit
  have hvalue : Rep buf₀ (structAlign (structAppend b₁ value)) (st' ++ pad4 value) _ :=
    value_rep hrep (by omega) (by omega)
  rw [htoken] at hvalue
  exact ⟨hvalue, fun es => by rw [structAlign_depth, structAppend_depth, hdepth]; rfl⟩

/-- **A call that succeeds and fits writes the token of what it says.** -/
theorem FdtCall.run_rep {c : FdtCall} (h : Rep buf₀ b st strings) (h4 : 4 ∣ st.length) (hrun : c.run b = some b')
    (hfit : st.length + c.event.size ≤ 4096) (hstrings : 4152 + (strings ++ c.event.strings).length ≤ 16384) :
    Emits buf₀ b b' st strings c.event := by
  rw [List.length_append, ← Nat.add_assoc] at hstrings
  cases c with
  | nodePush name =>
    rw [event, Event.size] at hfit
    rw [run, fdtNodePush] at hrun
    split_ifs at hrun with hempty
    obtain rfl := Option.some.inj hrun
    have htag : Rep buf₀ (structWord b fdtBeginNode) (st ++ Dtb.be32 fdtBeginNode) strings := h.word (by omega)
    have hname := htag.string (s := name) (by rw [List.length_append, be32_length]; omega)
      (by rw [List.length_append, be32_length]; omega)
    rw [List.append_assoc] at hname
    refine ⟨?_, ?_⟩
    · rw [event, Event.strings, List.append_nil]
      exact hname.depth _
    · intro es
      rw [structString_depth]
      rfl
  | nodePop =>
    rw [event, Event.size] at hfit
    rw [run, fdtNodePop] at hrun
    split_ifs at hrun with hnone
    obtain rfl := Option.some.inj hrun
    have htag : Rep buf₀ (structWord b fdtEndNode) (st ++ Dtb.be32 fdtEndNode) strings := h.word hfit
    refine ⟨?_, ?_⟩
    · rw [event, Event.strings, List.append_nil]
      exact htag.depth _
    · intro es
      obtain ⟨d, hd⟩ : ∃ d, b.depth = d + 1 := Nat.exists_eq_succ_of_ne_zero fun h0 => hnone (Or.inr h0)
      rw [hd]
      change depthAfter (d + 1) (.pop :: es) = depthAfter (b.depth - 1) es
      rw [hd]
      rfl
  | propWord name v0 v1 v2 v3 => exact propWord_rep h hrun hfit hstrings
  | propCells1 name v0 => exact propNcells_rep _ h hrun hfit hstrings
  | propCells2 name v0 v1 => exact propNcells_rep _ h hrun hfit hstrings
  | propCells3 name v0 v1 v2 => exact propNcells_rep _ h hrun hfit hstrings
  | propStr name str =>
    obtain ⟨b₁, hbegin, rfl⟩ := Option.map_eq_some_iff.mp hrun
    have hlen : (BitVec.ofNat 32 (strlen str) + 1).toNat = str.bytes.length :=
      toNat_strlen_succ (by rw [event, Event.size, padded] at hfit; omega)
    rw [structBytes_eq hlen]
    exact propValue_rep h h4 hbegin hlen hfit hstrings
  | propEmpty name =>
    have hlen : (0 : Word).toNat = ([] : Octets).length := rfl
    obtain ⟨st', -, hrep, hdepth, htoken⟩ := propBegin_rep h hrun hlen hfit hstrings
    rw [pad4_of_dvd (dvd_zero 4), List.append_nil] at htoken
    rw [htoken] at hrep
    exact ⟨hrep, fun es => by rw [hdepth]; rfl⟩
  | propBytes name data =>
    obtain ⟨b₁, hbegin, rfl⟩ := Option.map_eq_some_iff.mp hrun
    have hlen : (BitVec.ofNat 32 data.length).toNat = data.length := by
      rw [event, Event.size, padded] at hfit
      rw [BitVec.toNat_ofNat]
      omega
    have hbytes : (if BitVec.ofNat 32 data.length ≠ 0 then structBytes b₁ data (BitVec.ofNat 32 data.length) else b₁) =
        structAppend b₁ data := by
      rw [← structBytes_eq hlen]
      split_ifs with hne
      · rfl
      · rw [not_not.mp hne, structBytes_zero]
    have hvalue := propValue_rep h h4 hbegin hlen hfit hstrings
    rw [← hbytes] at hvalue
    exact hvalue

end

/-! ## Runs -/

/-- what the calls say -/
def eventsOf (calls : List FdtCall) : List Event := calls.map FdtCall.event

/-- the structure block of a tree whose root holds what the calls say: the two tokens of the root, and the end -/
def structSize (calls : List FdtCall) : ℕ := (Event.push []).size + ((eventsOf calls).map Event.size).sum + Event.pop.size + 4

def totalSize (calls : List FdtCall) : ℕ := stringsBase.toNat + ((eventsOf calls).flatMap Event.strings).length

/-- **Calls that succeed and fit write the tokens of all they say.** -/
theorem runCalls_rep {buf₀ : ℕ → Byte} {calls : List FdtCall} {b b' : FdtBuilder} {st strings : Octets}
    (h : Rep buf₀ b st strings)
    (h4 : 4 ∣ st.length) (hrun : runCalls b calls = some b')
    (hfit : st.length + ((eventsOf calls).map Event.size).sum ≤ 4096)
    (hstrings : 4152 + (strings ++ (eventsOf calls).flatMap Event.strings).length ≤ 16384) :
    Rep buf₀ b' (st ++ (tokensOf strings (eventsOf calls)).flatMap Token.encode) (strings ++ (eventsOf calls).flatMap Event.strings) ∧
      depthAfter b.depth (eventsOf calls) = some b'.depth := by
  induction calls generalizing b st strings with
  | nil =>
    obtain rfl := Option.some.inj hrun
    refine ⟨?_, rfl⟩
    simpa [eventsOf, tokensOf] using h
  | cons c calls ih =>
    rw [runCalls, List.foldlM_cons] at hrun
    obtain ⟨b₁, hc, hcalls⟩ := Option.bind_eq_some_iff.mp hrun
    have hevents : eventsOf (c :: calls) = c.event :: eventsOf calls := rfl
    rw [hevents, List.map_cons, List.sum_cons] at hfit
    rw [hevents, List.flatMap_cons, ← List.append_assoc] at hstrings
    obtain ⟨hrep, hdepth⟩ := c.run_rep h h4 hc (by omega) (by rw [List.length_append] at hstrings; omega)
    have hlen : (st ++ (c.event.token (BitVec.ofNat 32 strings.length)).encode).length = st.length + c.event.size := by
      rw [List.length_append, Event.encode_token_length]
    have h4' := Nat.dvd_add h4 c.event.four_dvd_size
    obtain ⟨hrest, hrestDepth⟩ := ih hrep (by rwa [hlen]) hcalls (by rw [hlen]; omega) hstrings
    rw [hevents, tokensOf, List.flatMap_cons, List.flatMap_cons, ← List.append_assoc, ← List.append_assoc]
    exact ⟨hrest, (hdepth _).trans hrestDepth⟩

/-! ## Success -/

/-- the calls that a null or empty name makes fail -/
def FdtCall.named : FdtCall → Bool
  | .nodePush name => name.chars ≠ []
  | _ => true

/-- no call fails, and every node is closed again -/
def Closes (calls : List FdtCall) : Prop :=
  (∀ c ∈ calls, c.named) ∧ depthAfter 0 (eventsOf calls) = some 0

instance (calls : List FdtCall) : Decidable (Closes calls) := inferInstanceAs (Decidable (_ ∧ _))

/-- nothing but the structure block and its cursor changed -/
structure OnlyStruct (b b' : FdtBuilder) : Prop where
  err : b'.err = b.err
  depth : b'.depth = b.depth
  stringsOff : b'.stringsOff = b.stringsOff

theorem OnlyStruct.refl (b : FdtBuilder) : OnlyStruct b b := ⟨rfl, rfl, rfl⟩

theorem OnlyStruct.trans {b b' b'' : FdtBuilder} (h : OnlyStruct b b') (h' : OnlyStruct b' b'') : OnlyStruct b b'' :=
  ⟨h'.err.trans h.err, h'.depth.trans h.depth, h'.stringsOff.trans h.stringsOff⟩

theorem structWord_only (b : FdtBuilder) (w : Word) : OnlyStruct b (structWord b w) := ⟨rfl, rfl, rfl⟩

theorem structBytes_only (b : FdtBuilder) (data : List Byte) (len : Word) : OnlyStruct b (structBytes b data len) :=
  ⟨rfl, rfl, rfl⟩

theorem structAlignLoop_only (n : ℕ) (b : FdtBuilder) : OnlyStruct b (structAlignLoop n b) := by
  induction n generalizing b with
  | zero => exact .refl b
  | succ n ih =>
    rw [structAlignLoop]
    split_ifs
    · have hrest := ih { b with buf := Function.update b.buf b.structOff.toNat 0, structOff := b.structOff + 1 }
      exact ⟨hrest.err, hrest.depth, hrest.stringsOff⟩
    · exact .refl b

theorem structAlign_only (b : FdtBuilder) : OnlyStruct b (structAlign b) := structAlignLoop_only 3 b

theorem structString_only (b : FdtBuilder) (s : CString) : OnlyStruct b (structString b s) := by
  have halign := structAlign_only { b with
    buf := Function.update (memcpy b.buf b.structOff.toNat (s.chars.take (BitVec.ofNat 32 (strlen s)).toNat))
      (b.structOff + BitVec.ofNat 32 (strlen s)).toNat 0
    structOff := b.structOff + BitVec.ofNat 32 (strlen s) + 1 }
  exact ⟨halign.err, halign.depth, halign.stringsOff⟩

theorem cells_only (vals : List Word) (b : FdtBuilder) :
    OnlyStruct b (vals.foldl (fun b v => structBytes b (cellBytes [v]) 4) b) := by
  induction vals generalizing b with
  | nil => exact .refl b
  | cons v vals ih => exact (structBytes_only b _ _).trans (ih _)

/-- what a successful call leaves, whatever its size -/
structure Next (b b' : FdtBuilder) (e : Event) : Prop where
  err : b'.err = false
  stringsOff : b'.stringsOff = b.stringsOff + BitVec.ofNat 32 e.strings.length
  depth : ∀ es, depthAfter b.depth (e :: es) = depthAfter b'.depth es

theorem propBegin_next {b : FdtBuilder} (herr : b.err = false) (name : CString) (len : Word) (value : Octets) :
    ∃ b', propBegin b name len = some b' ∧ ∀ {b''}, OnlyStruct b' b'' → Next b b'' (.prop name.chars value) := by
  refine ⟨_, if_neg (by simp [herr]), fun {b''} h => ⟨h.err.trans herr, ?_, fun es => ?_⟩⟩
  · have hlen : (name.chars ++ [0]).length = strlen name + 1 := List.length_append
    rw [h.stringsOff, Event.strings, hlen, BitVec.ofNat_add]
    rfl
  · rw [h.depth]
    rfl

/-- a call succeeds, or its name is empty, or it closes a node that is not open -/
theorem FdtCall.run_cases {b : FdtBuilder} (herr : b.err = false) (c : FdtCall) :
    (∃ b', c.run b = some b' ∧ c.named ∧ Next b b' c.event) ∨
      (c.run b = none ∧ (c.named = false ∨ ∀ es, depthAfter b.depth (c.event :: es) = none)) := by
  have hcells : ∀ (name : CString) (vals : List Word), vals ≠ [] → vals.length ≤ fdtMaxCells →
      ∃ b', fdtPropNcells b name vals = some b' ∧ Next b b' (.prop name.chars (vals.flatMap Dtb.be32)) := by
    intro name vals hne hmax
    obtain ⟨b₁, hbegin, hnext⟩ :=
      propBegin_next herr name (BitVec.ofNat 32 (vals.length * 4)) (vals.flatMap Dtb.be32)
    rw [fdtPropNcells, if_neg (by simp [hne, hmax]), hbegin]
    exact ⟨_, rfl, hnext (cells_only vals b₁)⟩
  cases c with
  | nodePush name =>
    by_cases hname : name.chars = []
    · exact .inr ⟨if_pos (Or.inl hname), .inl (by simp [named, hname])⟩
    · have honly := (structWord_only b fdtBeginNode).trans (structString_only _ name)
      refine .inl ⟨_, if_neg (by simp [hname, herr]), by simp [named, hname], honly.err.trans herr, ?_, fun es => ?_⟩
      · exact honly.stringsOff.trans (BitVec.add_zero _).symm
      · change depthAfter (b.depth + 1) es = depthAfter ((structString (structWord b fdtBeginNode) name).depth + 1) es
        rw [honly.depth]
  | nodePop =>
    cases hdepth : b.depth with
    | zero => exact .inr ⟨if_pos (Or.inr hdepth), .inr fun es => rfl⟩
    | succ d =>
      refine .inl ⟨_, if_neg (by simp [herr, hdepth]), rfl, herr, (BitVec.add_zero _).symm, fun es => ?_⟩
      rw [hdepth]
      change depthAfter d es = depthAfter (b.depth - 1) es
      rw [hdepth]
      rfl
  | propWord name v0 v1 v2 v3 =>
    obtain ⟨b₁, hbegin, hnext⟩ := propBegin_next herr name 16 ([v0, v1, v2, v3].flatMap Dtb.be32)
    exact .inl ⟨_, Option.map_eq_some_iff.mpr ⟨b₁, hbegin, rfl⟩, rfl, hnext (structBytes_only b₁ _ _)⟩
  | propCells1 name v0 =>
    obtain ⟨b', hrun, hnext⟩ := hcells name [v0] (by simp) (by simp [fdtMaxCells])
    exact .inl ⟨b', hrun, rfl, hnext⟩
  | propCells2 name v0 v1 =>
    obtain ⟨b', hrun, hnext⟩ := hcells name [v0, v1] (by simp) (by simp [fdtMaxCells])
    exact .inl ⟨b', hrun, rfl, hnext⟩
  | propCells3 name v0 v1 v2 =>
    obtain ⟨b', hrun, hnext⟩ := hcells name [v0, v1, v2] (by simp) (by simp [fdtMaxCells])
    exact .inl ⟨b', hrun, rfl, hnext⟩
  | propStr name str =>
    obtain ⟨b₁, hbegin, hnext⟩ := propBegin_next herr name (BitVec.ofNat 32 (strlen str) + 1) str.bytes
    exact .inl ⟨_, Option.map_eq_some_iff.mpr ⟨b₁, hbegin, rfl⟩, rfl, hnext ((structBytes_only b₁ _ _).trans (structAlign_only _))⟩
  | propEmpty name =>
    obtain ⟨b₁, hbegin, hnext⟩ := propBegin_next herr name 0 []
    exact .inl ⟨b₁, hbegin, rfl, hnext (.refl b₁)⟩
  | propBytes name data =>
    obtain ⟨b₁, hbegin, hnext⟩ := propBegin_next herr name (BitVec.ofNat 32 data.length) data
    refine .inl ⟨_, Option.map_eq_some_iff.mpr ⟨b₁, hbegin, rfl⟩, rfl, hnext ?_⟩
    split_ifs
    · exact (structBytes_only b₁ _ _).trans (structAlign_only _)
    · exact structAlign_only b₁

/-- a run succeeds exactly when its names are there and it closes no node that is not open -/
theorem runCalls_cases {b : FdtBuilder} (herr : b.err = false) (calls : List FdtCall) :
    (∃ b', runCalls b calls = some b' ∧ (∀ c ∈ calls, c.named) ∧ b'.err = false ∧
        depthAfter b.depth (eventsOf calls) = some b'.depth ∧
        b'.stringsOff = b.stringsOff + BitVec.ofNat 32 ((eventsOf calls).flatMap Event.strings).length) ∨
      (runCalls b calls = none ∧ ((¬ ∀ c ∈ calls, c.named) ∨ depthAfter b.depth (eventsOf calls) = none)) := by
  induction calls generalizing b with
  | nil => exact .inl ⟨b, rfl, by simp, herr, rfl, (BitVec.add_zero _).symm⟩
  | cons c calls ih =>
    have hevents : eventsOf (c :: calls) = c.event :: eventsOf calls := rfl
    rw [runCalls, List.foldlM_cons, hevents]
    rcases c.run_cases herr with ⟨b₁, hrun, hname, hnext⟩ | ⟨hrun, hfail⟩
    · rw [hrun, hnext.depth, List.flatMap_cons, List.length_append, BitVec.ofNat_add, ← BitVec.add_assoc,
        ← hnext.stringsOff, List.forall_mem_cons]
      rcases ih hnext.err with ⟨b', hrest, hnames, herr', hdepth, hstrings⟩ | ⟨hrest, hfail⟩
      · exact .inl ⟨b', hrest, ⟨hname, hnames⟩, herr', hdepth, hstrings⟩
      · exact .inr ⟨hrest, hfail.imp (fun hnames h => hnames h.2) id⟩
    · rw [hrun, List.forall_mem_cons]
      refine .inr ⟨rfl, hfail.imp ?_ fun h => h _⟩
      intro hname h
      rw [hname] at h
      exact Bool.false_ne_true h.1

/-- the builder after a call on its handle: a call that fails returns 0, sets no err and leaves it as it was -/
def FdtCall.make (b : FdtBuilder) (c : FdtCall) : FdtBuilder := (c.run b).getD b

/-- calls one after the other, all on the one handle -/
def makeCalls (b : FdtBuilder) (calls : List FdtCall) : FdtBuilder := calls.foldl FdtCall.make b

/-- the nodes open after a call on a builder with d of them, none if the call fails -/
def FdtCall.opens (d : ℕ) (c : FdtCall) : Option ℕ := if c.named then depthAfter d [c.event] else none

/-- the calls that do not fail, where d nodes are open before the first -/
def made : ℕ → List FdtCall → List FdtCall
  | _, [] => []
  | d, c :: calls =>
    match c.opens d with
    | some d' => c :: made d' calls
    | none => made d calls

/-- **Calls that fail change nothing**: the others lead to the same builder. -/
theorem runCalls_made {b : FdtBuilder} (herr : b.err = false) (calls : List FdtCall) :
    runCalls b (made b.depth calls) = some (makeCalls b calls) := by
  induction calls generalizing b with
  | nil => rfl
  | cons c calls ih =>
    have hstep : makeCalls b (c :: calls) = makeCalls (c.make b) calls := rfl
    rcases c.run_cases herr with ⟨b', hrun, hname, hnext⟩ | ⟨hrun, hfail⟩
    · have hopens : c.opens b.depth = some b'.depth := by
        rw [FdtCall.opens, if_pos hname, hnext.depth]
        rfl
      have hmake : c.make b = b' := by rw [FdtCall.make, hrun, Option.getD_some]
      rw [hstep, hmake, made, hopens, runCalls, List.foldlM_cons, hrun]
      exact ih hnext.err
    · have hopens : c.opens b.depth = none := by
        rw [FdtCall.opens]
        split_ifs with hname
        · exact hfail.resolve_left (by rw [hname]; decide) []
        · rfl
      have hmake : c.make b = b := by rw [FdtCall.make, hrun, Option.getD_none]
      rw [hstep, hmake, made, hopens]
      exact ih herr

/-- calls of which none fails -/
theorem made_of_closes {calls : List FdtCall} {d d' : ℕ} (hnamed : ∀ c ∈ calls, c.named)
    (hdepth : depthAfter d (eventsOf calls) = some d') : made d calls = calls := by
  induction calls generalizing d with
  | nil => rfl
  | cons c calls ih =>
    obtain ⟨hname, hrest⟩ := List.forall_mem_cons.mp hnamed
    have hevents : eventsOf (c :: calls) = c.event :: eventsOf calls := rfl
    rw [hevents] at hdepth
    rw [made, FdtCall.opens, if_pos hname]
    cases hevent : c.event with
    | push name =>
      rw [hevent] at hdepth
      exact congrArg (c :: ·) (ih hrest hdepth)
    | prop name value =>
      rw [hevent] at hdepth
      exact congrArg (c :: ·) (ih hrest hdepth)
    | pop =>
      rw [hevent] at hdepth
      cases d with
      | zero => exact absurd hdepth (by simp [depthAfter])
      | succ d => exact congrArg (c :: ·) (ih hrest hdepth)

theorem runCalls_some (buf : ℕ → Byte) (bufsize : ℕ) {calls : List FdtCall} (h : Closes calls) :
    ∃ b, runCalls (fdtBuilderInit buf bufsize) calls = some b ∧ b.depth = 0 := by
  have honly := structString_only (structWord ⟨buf, bufsize, structBase, stringsBase, 0, false⟩ fdtBeginNode)
    (CString.ofString "")
  rcases runCalls_cases (b := fdtBuilderInit buf bufsize) honly.err calls with
    ⟨b, hrun, -, -, hdepth, -⟩ | ⟨-, hnames | hdepth⟩
  · rw [fdtBuilderInit, honly.depth] at hdepth
    exact ⟨b, hrun, Option.some.inj (hdepth.symm.trans h.2)⟩
  · exact absurd h.1 hnames
  · rw [fdtBuilderInit, honly.depth] at hdepth
    exact absurd (hdepth.symm.trans h.2) (by simp)

theorem fdtBuilderInit_rep (buf : ℕ → Byte) (bufsize : ℕ) :
    Rep buf (fdtBuilderInit buf bufsize) (Token.beginNode []).encode [] := by
  have hempty : Rep buf ⟨buf, bufsize, structBase, stringsBase, 0, false⟩ [] [] :=
    ⟨rfl, rfl, rfl, Nat.zero_le _, by decide, rfl, rfl, fun _ _ _ => rfl⟩
  have htag : Rep buf (structWord ⟨buf, bufsize, structBase, stringsBase, 0, false⟩ fdtBeginNode)
      (Dtb.be32 fdtBeginNode) [] :=
    hempty.word (by decide)
  exact htag.string (s := CString.ofString "") (by decide) (by decide)

theorem tokensOf_length (strings : Octets) (es : List Event) :
    ((tokensOf strings es).flatMap Token.encode).length = (es.map Event.size).sum := by
  induction es generalizing strings with
  | nil => rfl
  | cons e es ih =>
    calc ((tokensOf strings (e :: es)).flatMap Token.encode).length
      _ = e.size + ((tokensOf (strings ++ e.strings) es).flatMap Token.encode).length := by
        rw [tokensOf, List.flatMap_cons, List.length_append, Event.encode_token_length]
      _ = e.size + (es.map Event.size).sum := by rw [ih]
      _ = ((e :: es).map Event.size).sum := by rw [List.map_cons, List.sum_cons]

theorem four_dvd_sum (es : List Event) : 4 ∣ (es.map Event.size).sum := by
  induction es with
  | nil => exact dvd_zero 4
  | cons e es ih =>
    rw [List.map_cons, List.sum_cons]
    exact Nat.dvd_add e.four_dvd_size ih

/-! ## Serialisation -/

theorem zeroGap_eq (buf : ℕ → Byte) (i n : ℕ) : zeroGap buf i n = write buf i (List.replicate n 0) := by
  induction n generalizing buf i with
  | zero => rw [List.replicate_zero, write_nil]; rfl
  | succ n ih => rw [zeroGap, ih, ← write_singleton, List.replicate_succ]; exact write_append i [0] _

/-- the ten words of the header -/
def fdtHeaderWords (structLen stringsLen : ℕ) : List Word :=
  [fdtMagic, BitVec.ofNat 32 (4152 + stringsLen), structBase, stringsBase, fdtHeaderSize, fdtVersion, fdtLastCompVersion,
    fdtHartBase, BitVec.ofNat 32 stringsLen, BitVec.ofNat 32 structLen]

theorem be32_write {buf : ℕ → Byte} {l : Octets} {p : ℕ} (hp : l.length = p) (v : Word) :
    be32 (write buf 0 l) p v = write buf 0 (l ++ Dtb.be32 v) := by
  rw [be32_eq, ← write_append, hp, Nat.zero_add]

/-- the header and the reserve map, which is one entry of zeros -/
def fdtFront (structLen stringsLen : ℕ) : Octets := (fdtHeaderWords structLen stringsLen ++ [0, 0, 0, 0]).flatMap Dtb.be32

/-- the writes of fdt_serialize in front of the blocks -/
theorem front_eq (buf : ℕ → Byte) (structLen stringsLen : ℕ) :
    be64 (be64 (be32 (be32 (be32 (be32 (be32 (be32 (be32 (be32 (be32 (be32 buf 0 fdtMagic) 4
      (BitVec.ofNat 32 (4152 + stringsLen))) 8 structBase) 12 stringsBase) 16 fdtHeaderSize) 20 fdtVersion) 24
      fdtLastCompVersion) 28 fdtHartBase) 32 (BitVec.ofNat 32 stringsLen)) 36 (BitVec.ofNat 32 structLen)) 40 0) (40 + 8) 0 =
    write buf 0 (fdtFront structLen stringsLen) := by
  have h64 : ∀ (buf : ℕ → Byte) (p : ℕ), be64 buf p 0 = be32 (be32 buf p 0) (p + 4) 0 := fun _ _ => rfl
  rw [h64, h64, be32_eq buf 0 fdtMagic, be32_write, be32_write, be32_write, be32_write, be32_write, be32_write,
    be32_write, be32_write, be32_write, be32_write, be32_write, be32_write, be32_write]
  · simp only [fdtFront, fdtHeaderWords, List.cons_append, List.nil_append, List.flatMap_cons, List.flatMap_nil,
      List.append_assoc, List.append_nil]
  all_goals simp only [List.length_append, be32_length]

theorem fdtFront_length (structLen stringsLen : ℕ) : (fdtFront structLen stringsLen).length = 56 := rfl

/-- what fdt_serialize leaves in the buffer -/
structure Serialized (buf₀ buf : ℕ → Byte) (st strings : Octets) : Prop where
  front : region buf 0 56 = fdtFront st.length strings.length
  structHeld : region buf 56 st.length = st
  gap : region buf (56 + st.length) (4096 - st.length) = List.replicate (4096 - st.length) 0
  stringsHeld : region buf 4152 strings.length = strings
  frame : ∀ i, 4152 + strings.length ≤ i → buf i = buf₀ i

/-- the tree is closed behind the blocks, the header written in front of them and the gap between them zeroed -/
theorem Rep.serialized {buf₀ : ℕ → Byte} {b : FdtBuilder} {st strings : Octets} (h : Rep buf₀ b st strings) :
    Serialized buf₀ (write (write b.buf 0 (fdtFront st.length strings.length)) (56 + st.length)
      (List.replicate (4096 - st.length) 0)) st strings := by
  have hfits := h.structFits
  have hgapLen : (List.replicate (4096 - st.length) (0 : Byte)).length = 4096 - st.length := List.length_replicate
  have hfrontLen := fdtFront_length st.length strings.length
  refine ⟨?_, ?_, ?_, ?_, ?_⟩
  · rw [region_write_other (Or.inl (by omega))]
    exact region_write 0 _
  · rw [region_write_other (Or.inl (by omega)), region_write_other (Or.inr (by omega)), h.structHeld]
  · have hgap := @region_write _ (write b.buf 0 (fdtFront st.length strings.length)) (56 + st.length)
      (List.replicate (4096 - st.length) 0)
    rwa [hgapLen] at hgap
  · rw [region_write_other (Or.inr (by omega)), region_write_other (Or.inr (by omega)), h.stringsHeld]
  · intro i hi
    rw [write_other (by omega), write_other (by omega)]
    exact h.frame i (by omega) (Or.inr hi)

theorem fdtSerialize_rep {buf₀ : ℕ → Byte} {b : FdtBuilder} {st strings : Octets} (h : Rep buf₀ b st strings)
    (h4 : 4 ∣ st.length) (hdepth : b.depth = 0) (hfit : st.length + 8 ≤ 4096) :
    (fdtSerialize b).1 = BitVec.ofNat 64 (4152 + strings.length) ∧
      Serialized buf₀ (fdtSerialize b).2.buf (st ++ Dtb.be32 fdtEndNode ++ Dtb.be32 fdtEnd) strings := by
  have hendNode : Rep buf₀ (structWord b fdtEndNode) (st ++ Dtb.be32 fdtEndNode) strings := h.word (by omega)
  have hlen : (st ++ Dtb.be32 fdtEndNode).length = st.length + 4 := by rw [List.length_append, be32_length]
  have halign := hendNode.align (by rw [hlen, padded]; omega)
  rw [pad4_of_dvd (by omega)] at halign
  have hend : Rep buf₀ (structWord (structAlign (structWord b fdtEndNode)) fdtEnd) (st ++ Dtb.be32 fdtEndNode ++ Dtb.be32 fdtEnd)
      strings := halign.word (by omega)
  have hclosedLen : (st ++ Dtb.be32 fdtEndNode ++ Dtb.be32 fdtEnd).length = st.length + 8 := by
    rw [List.length_append, hlen, be32_length]
  have hstructOff : (structWord (structAlign (structWord b fdtEndNode)) fdtEnd).structOff.toNat = 64 + st.length := by
    rw [hend.structOff, hclosedLen]
    omega
  obtain ⟨b', hb'⟩ : ∃ b', structWord (structAlign (structWord b fdtEndNode)) fdtEnd = b' := ⟨_, rfl⟩
  rw [hb'] at hend hstructOff
  have hstructLen : b'.structOff - structBase = BitVec.ofNat 32 (st.length + 8) := by
    have hbase : structBase.toNat = 56 := by decide
    apply BitVec.eq_of_toNat_eq
    rw [BitVec.toNat_sub, BitVec.toNat_ofNat, hbase, hstructOff]
    omega
  have hstringsOff := hend.stringsOff
  have hstringsFits := hend.stringsFits
  have hbase : stringsBase.toNat = 4152 := by decide
  have hstringsLen : b'.stringsOff - stringsBase = BitVec.ofNat 32 strings.length := by
    apply BitVec.eq_of_toNat_eq
    rw [BitVec.toNat_sub, BitVec.toNat_ofNat, hbase, hstringsOff]
    omega
  have htotal : stringsBase + BitVec.ofNat 32 strings.length = BitVec.ofNat 32 (4152 + strings.length) := by
    rw [BitVec.ofNat_add]
    rfl
  have htotalNat : (BitVec.ofNat 32 (4152 + strings.length)).toNat = 4152 + strings.length := by
    rw [BitVec.toNat_ofNat]
    omega
  have hnotLarge : ¬ BitVec.ofNat 32 (4152 + strings.length) > fdtMaxBuf := by
    have hmax : fdtMaxBuf.toNat = 16384 := by decide
    rw [gt_iff_lt, BitVec.lt_def, htotalNat, hmax]
    omega
  have hgap : stringsBase.toNat - b'.structOff.toNat = 4096 - (st.length + 8) := by
    rw [hbase, hstructOff]
    omega
  have hsize : (BitVec.ofNat 32 (4152 + strings.length)).setWidth 64 = BitVec.ofNat 64 (4152 + strings.length) := by
    apply BitVec.eq_of_toNat_eq
    rw [BitVec.toNat_setWidth, htotalNat, BitVec.toNat_ofNat]
  have hserialize : fdtSerialize b = (BitVec.ofNat 64 (4152 + strings.length), { b' with
      buf := write (write b'.buf 0 (fdtFront (st.length + 8) strings.length)) (64 + st.length)
        (List.replicate (4096 - (st.length + 8)) 0) }) := by
    rw [fdtSerialize, if_neg (by simp [h.err, hdepth])]
    simp only [hb', hstructLen, hstringsLen, htotal]
    rw [if_neg hnotLarge, front_eq, zeroGap_eq, hgap, hstructOff, hsize]
  have hserialized := hend.serialized
  rw [hclosedLen, ← Nat.add_assoc, Nat.add_right_comm] at hserialized
  rw [hserialize]
  exact ⟨rfl, hserialized⟩

/-- the structure block of the tree whose root holds what the calls say -/
def structTokens (calls : List FdtCall) : Octets :=
  (tokensOf [] (.push [] :: (eventsOf calls ++ [.pop]))).flatMap Token.encode ++ Dtb.be32 endTag

/-- its strings block -/
def namesOf (calls : List FdtCall) : Octets := (eventsOf calls).flatMap Event.strings

theorem structTokens_length (calls : List FdtCall) : (structTokens calls).length = structSize calls := by
  rw [structTokens, List.length_append, tokensOf_length, List.map_cons, List.map_append, List.sum_cons, List.sum_append,
    be32_length, structSize, List.map_singleton, List.sum_singleton]
  omega

theorem totalSize_eq (calls : List FdtCall) : totalSize calls = 4152 + (namesOf calls).length := rfl

/-- what the builder wrote, closed, is that block -/
theorem structTokens_eq (calls : List FdtCall) :
    (Token.beginNode []).encode ++ (tokensOf [] (eventsOf calls)).flatMap Token.encode ++ Dtb.be32 fdtEndNode ++
      Dtb.be32 fdtEnd = structTokens calls := by
  rw [structTokens, tokensOf, Event.strings, List.append_nil, tokensOf_append, List.flatMap_cons, List.flatMap_append]
  simp only [List.append_assoc]
  rfl

theorem fdtBuilderInit_err (buf : ℕ → Byte) (bufsize : ℕ) : (fdtBuilderInit buf bufsize).err = false :=
  (structString_only _ _).err

theorem fdtBuilderInit_depth (buf : ℕ → Byte) (bufsize : ℕ) : (fdtBuilderInit buf bufsize).depth = 0 :=
  (structString_only _ _).depth

theorem fdtBuilderInit_stringsOff (buf : ℕ → Byte) (bufsize : ℕ) : (fdtBuilderInit buf bufsize).stringsOff = 4152 :=
  (structString_only _ _).stringsOff

/-- a run from the start that closes what it opened, whatever its size -/
theorem runCalls_closed {buf : ℕ → Byte} {bufsize : ℕ} {calls : List FdtCall} {b : FdtBuilder}
    (hrun : runCalls (fdtBuilderInit buf bufsize) calls = some b) (hdepth : b.depth = 0) :
    Closes calls ∧ b.err = false ∧ b.stringsOff = BitVec.ofNat 32 (totalSize calls) := by
  rcases runCalls_cases (fdtBuilderInit_err buf bufsize) calls with ⟨b', hrun', hnames, herr, hafter, hstrings⟩ | ⟨hnone, -⟩
  · obtain rfl := Option.some.inj (hrun.symm.trans hrun')
    rw [fdtBuilderInit_depth, hdepth] at hafter
    rw [fdtBuilderInit_stringsOff] at hstrings
    refine ⟨⟨hnames, hafter⟩, herr, ?_⟩
    rw [hstrings, totalSize_eq, BitVec.ofNat_add]
    rfl
  · exact absurd (hrun.symm.trans hnone) (by simp)

/-- **The buffer after calls that close what they open and fit.** -/
theorem calls_serialized {buf : ℕ → Byte} {bufsize : ℕ} {calls : List FdtCall} {b : FdtBuilder}
    (hrun : runCalls (fdtBuilderInit buf bufsize) calls = some b) (hdepth : b.depth = 0)
    (hstruct : structSize calls ≤ 4096) (htotal : totalSize calls ≤ 16384) :
    (fdtSerialize b).1 = BitVec.ofNat 64 (totalSize calls) ∧
      Serialized buf (fdtSerialize b).2.buf (structTokens calls) (namesOf calls) := by
  have hroot : (Token.beginNode []).encode.length = 8 := rfl
  have hsum : ((eventsOf calls).map Event.size).sum + 16 ≤ 4096 := by
    have hsize : structSize calls = 8 + ((eventsOf calls).map Event.size).sum + 4 + 4 := rfl
    omega
  rw [totalSize_eq] at htotal ⊢
  obtain ⟨hrep, -⟩ := runCalls_rep (fdtBuilderInit_rep buf bufsize) (by decide) hrun (by omega) htotal
  rw [List.nil_append] at hrep
  have h4 : 4 ∣ ((Token.beginNode []).encode ++ (tokensOf [] (eventsOf calls)).flatMap Token.encode).length := by
    rw [List.length_append, hroot, tokensOf_length]
    exact Nat.dvd_add (by decide) (four_dvd_sum _)
  have hserialized := fdtSerialize_rep hrep h4 hdepth (by rw [List.length_append, hroot, tokensOf_length]; omega)
  rwa [structTokens_eq] at hserialized

/-- the size fdt_serialize returns, whatever the size of the tree -/
theorem fdtSerialize_size {b : FdtBuilder} {n : ℕ} (herr : b.err = false) (hdepth : b.depth = 0)
    (hstrings : b.stringsOff = BitVec.ofNat 32 n) :
    (fdtSerialize b).1.toNat = if n % 2 ^ 32 ≤ 16384 then n % 2 ^ 32 else 0 := by
  have honly := (structWord_only b fdtEndNode).trans ((structAlign_only _).trans (structWord_only _ fdtEnd))
  have hmax : fdtMaxBuf.toNat = 16384 := by decide
  have htotal : stringsBase + ((structWord (structAlign (structWord b fdtEndNode)) fdtEnd).stringsOff - stringsBase) =
      BitVec.ofNat 32 n := by
    rw [honly.stringsOff, hstrings, BitVec.add_comm, BitVec.sub_add_cancel]
  rw [fdtSerialize, if_neg (by simp [herr, hdepth])]
  dsimp only
  rw [htotal, apply_ite Prod.fst, apply_ite BitVec.toNat]
  have hzero : (0 : BitVec 64).toNat = 0 := rfl
  simp only [gt_iff_lt, BitVec.lt_def, BitVec.toNat_ofNat, hmax, BitVec.toNat_setWidth, hzero]
  split_ifs <;> omega

end RiscvEmu
