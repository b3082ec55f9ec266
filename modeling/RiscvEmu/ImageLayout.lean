/-
Where main puts the images of a command line. The program is checked against the end of memory, the device tree against the
program, the initrd against both, and a --load binary against the device tree only.
Results:
- `main_images`: when the run loop is reached every image was found, and all but the pairs with a --load binary and no device
  tree were checked;
- `images_apart_iff`: then the images lie beside each other in memory exactly when those pairs are apart.
-/
import RiscvEmu.Device.FdtBounds
import RiscvEmu.Loader

namespace RiscvEmu

open Ranges

/-- the ranges of main memory that a command line asks for -/
structure Images where
  program : Range
  fdt : Option Range
  initrd : Option Range
  extras : List Range

def Images.ranges (im : Images) : List Range := (im.program :: (im.fdt.toList ++ im.initrd.toList)) ++ im.extras

def fileRange (files : Chars → Option File) (path : Chars) (base : Word) : Option Range :=
  (mapFile files path).map fun map => ⟨base.toNat, map.length⟩

def extraRanges (files : Chars → Option File) (slots : List ExtraLoad) : Option (List Range) :=
  slots.mapM fun slot => fileRange files slot.file slot.base

/-- initrd_start and initrd_end of an initrd at a range -/
def rangeBounds (initrd : Option Range) : Word × Word :=
  initrd.elim (0, 0) fun r => (BitVec.ofNat 32 r.start, BitVec.ofNat 32 (r.start + r.len))

def images (files : Chars → Option File) (cl : CommandLine) : Option Images := do
  let o ← cl.options.foldlM Options.take optionsInit
  let programName ← cl.operands[0]?
  let programBase ← cl.operands[1]? >>= parseHex
  let program ← fileRange files programName programBase
  let initrd ← o.initrdFile.elim (some none) fun file => (fileRange files file o.initrdAddr).map some
  let extras ← extraRanges files o.extraSlots
  let (start, last) := rangeBounds initrd
  some ⟨program, if o.fdtEnabled then some ⟨o.fdtAddr.toNat, riscvemuSize start last⟩ else none, initrd, extras⟩

def Image.range (i : Image) : Range := ⟨i.start.toNat, i.bytes.length⟩

section

variable {files : Chars → Option File} {o : Options} {program : Image} {initrd : Option Image} {mem mem' : ℕ → Byte}
  {fdtSize : ℕ}

/-- the range of the tree -/
def fdtRange (o : Options) (fdtSize : ℕ) : Option Range := if o.fdtEnabled then some ⟨o.fdtAddr.toNat, fdtSize⟩ else none

theorem mapInitrd_spec (h : mapInitrd files o = some initrd) :
    o.initrdFile.elim (some none) (fun file => (fileRange files file o.initrdAddr).map some) =
        some (initrd.map Image.range) ∧
      ∀ i ∈ initrd, i.range.Within memSize := by
  unfold mapInitrd at h
  cases hfile : o.initrdFile with
  | none =>
    rw [hfile] at h
    obtain rfl := Option.some.inj h
    exact ⟨rfl, by simp⟩
  | some file =>
    rw [hfile] at h
    obtain ⟨map, hmap, hchecked⟩ := Option.bind_eq_some_iff.mp h
    split_ifs at hchecked with hbounds
    obtain rfl := Option.some.inj hchecked
    refine ⟨?_, ?_⟩
    · rw [Option.elim_some, fileRange, hmap]
      rfl
    · intro i hi
      obtain rfl := Option.some.inj hi
      simp only [Range.Within, Image.range]
      omega

theorem initrdBounds_eq (initrd : Option Image) : initrdBounds initrd = rangeBounds (initrd.map Image.range) := by
  cases initrd with
  | none => rfl
  | some i =>
    simp only [initrdBounds, rangeBounds, Option.map_some, Option.elim_some, Image.range, BitVec.ofNat_add]
    rw [BitVec.ofNat_toNat, BitVec.setWidth_eq]

theorem stageFdt_spec (h : stageFdt o program initrd mem = some (fdtSize, mem')) :
    (o.fdtEnabled → fdtSize = riscvemuSize (initrdBounds initrd).1 (initrdBounds initrd).2) ∧
      ∀ r ∈ fdtRange o fdtSize, r.Within memSize ∧ program.range.Apart r := by
  unfold stageFdt at h
  unfold fdtRange
  split_ifs at h ⊢ with henabled
  · have hsize := fdtBuildRiscvemu_size mem o.fdtAddr (initrdBounds initrd).1 (initrdBounds initrd).2
    dsimp only at h
    split_ifs at h with hzero hbounds
    simp only [Option.some.injEq, Prod.mk.injEq] at h
    obtain ⟨rfl, -⟩ := h
    refine ⟨fun _ => hsize, ?_⟩
    intro r hr
    obtain rfl := Option.some.inj hr
    simp only [Range.Within, Range.Apart, Image.range]
    omega
  · exact ⟨fun h' => absurd h' henabled, by simp⟩

theorem placeInitrd_spec (h : placeInitrd o program fdtSize initrd mem = some mem')
    (hwithin : ∀ i ∈ initrd, i.range.Within memSize) :
    ∀ i ∈ initrd, (∀ r ∈ fdtRange o fdtSize, r.Apart i.range) ∧ program.range.Apart i.range := by
  intro i hi
  obtain rfl := hi
  have hin := hwithin i rfl
  simp only [Range.Within, Image.range, memSize] at hin
  have hlast : (i.start + BitVec.ofNat 32 i.bytes.length).toNat = i.start.toNat + i.bytes.length := by
    rw [BitVec.toNat_add, BitVec.toNat_ofNat]
    omega
  unfold placeInitrd at h
  dsimp only at h
  simp only [BitVec.lt_def, hlast] at h
  split_ifs at h with hfdt hprogram
  refine ⟨?_, ?_⟩
  · intro r hr
    unfold fdtRange at hr
    split_ifs at hr with henabled
    · obtain rfl := Option.some.inj hr
      simp only [Range.Apart, Image.range]
      by_contra hnot
      exact hfdt ⟨henabled, by omega, by omega⟩
    · cases hr
  · simp only [Range.Apart, Image.range]
    omega

/-- what the loop over the --load binaries has checked of each -/
theorem loadExtras_spec {slots : List ExtraLoad} (h : slots.foldlM (loadExtra files o fdtSize) mem = some mem') :
    ∃ extras, extraRanges files slots = some extras ∧
      ∀ e ∈ extras, e.Within memSize ∧ ∀ r ∈ fdtRange o fdtSize, r.Apart e := by
  induction slots generalizing mem with
  | nil => exact ⟨[], rfl, by simp⟩
  | cons slot slots ih =>
    rw [List.foldlM_cons] at h
    obtain ⟨mem₁, hslot, hrest⟩ := Option.bind_eq_some_iff.mp h
    obtain ⟨extras, hextras, hchecked⟩ := ih hrest
    obtain ⟨map, hmap, hplaced⟩ := Option.bind_eq_some_iff.mp hslot
    split_ifs at hplaced with hbounds hfdt
    refine ⟨⟨slot.base.toNat, map.length⟩ :: extras, ?_, fun e he => ?_⟩
    · rw [extraRanges] at hextras ⊢
      rw [List.mapM_cons, hextras, fileRange, hmap]
      rfl
    rcases List.mem_cons.mp he with rfl | he
    · refine ⟨by simp only [Range.Within]; omega, fun r hr => ?_⟩
      unfold fdtRange at hr
      split_ifs at hr with henabled
      · obtain rfl := Option.some.inj hr
        simp only [Range.Apart]
        by_contra hnot
        exact hfdt ⟨henabled, by omega, by omega⟩
      · cases hr
    · exact hchecked e he

end

/-- what main checked before it reached the loop -/
structure Checked (im : Images) : Prop where
  base : Layout memSize (im.program :: (im.fdt.toList ++ im.initrd.toList))
  extra : ∀ e ∈ im.extras, e.Within memSize ∧ ∀ r ∈ im.fdt, r.Apart e

theorem main_images {files : Chars → Option File} {cl : CommandLine} {booted : Booted}
    (h : main files cl = some booted) : ∃ im, images files cl = some im ∧ Checked im := by
  obtain ⟨o, ho, h⟩ := Option.bind_eq_some_iff.mp h
  obtain ⟨programName, hname, h⟩ := Option.bind_eq_some_iff.mp h
  obtain ⟨programBase, hbase, h⟩ := Option.bind_eq_some_iff.mp h
  obtain ⟨map, hmap, h⟩ := Option.bind_eq_some_iff.mp h
  have hsmall : ¬ programBase.toNat + map.length > memSize := fun hlarge => by
    rw [if_pos hlarge] at h
    cases h
  rw [if_neg hsmall] at h
  obtain ⟨initrd, hinitrd, h⟩ := Option.bind_eq_some_iff.mp h
  obtain ⟨⟨fdtSize, mem₁⟩, hfdt, h⟩ := Option.bind_eq_some_iff.mp h
  obtain ⟨mem₂, hplace, h⟩ := Option.bind_eq_some_iff.mp h
  obtain ⟨mem₃, hextras, -⟩ := Option.bind_eq_some_iff.mp h
  obtain ⟨hinitrdRange, hwithin⟩ := mapInitrd_spec hinitrd
  obtain ⟨hsize, htree⟩ := stageFdt_spec hfdt
  have hplaced := placeInitrd_spec hplace hwithin
  obtain ⟨extras, hranges, hchecked⟩ := loadExtras_spec hextras
  refine ⟨⟨⟨programBase.toNat, map.length⟩, fdtRange o fdtSize, initrd.map Image.range, extras⟩, ?_, ⟨?_, ?_⟩, hchecked⟩
  · have hprogram : fileRange files programName programBase = some ⟨programBase.toNat, map.length⟩ := by
      rw [fileRange, hmap]
      rfl
    have hfdtRange : (if o.fdtEnabled then
        some ⟨o.fdtAddr.toNat, riscvemuSize (initrdBounds initrd).1 (initrdBounds initrd).2⟩ else none) =
        fdtRange o fdtSize := by
      by_cases henabled : o.fdtEnabled
      · rw [fdtRange, if_pos henabled, if_pos henabled, hsize henabled]
      · rw [fdtRange, if_neg henabled, if_neg henabled]
    simp only [images, ho, hname, hbase, hprogram, hinitrdRange, hranges, Option.bind_eq_bind, Option.bind_some,
      ← initrdBounds_eq, hfdtRange]
  · intro r hr
    simp only [List.mem_cons, List.mem_append, Option.mem_toList] at hr
    rcases hr with rfl | hr | hr
    · simp only [Range.Within]
      omega
    · exact (htree r hr).1
    · obtain ⟨i, hi, rfl⟩ := Option.map_eq_some_iff.mp hr
      exact hwithin i hi
  · refine List.pairwise_cons.mpr ⟨?_, List.pairwise_append.mpr ⟨?_, ?_, ?_⟩⟩
    · intro r hr
      rcases List.mem_append.mp hr with hr | hr
      · exact (htree r (Option.mem_toList.mp hr)).2
      · obtain ⟨i, hi, rfl⟩ := Option.map_eq_some_iff.mp (Option.mem_toList.mp hr)
        exact (hplaced i hi).2
    · cases fdtRange o fdtSize <;> simp
    · cases initrd <;> simp
    · intro r hr i hi
      obtain ⟨image, himage, rfl⟩ := Option.map_eq_some_iff.mp (Option.mem_toList.mp hi)
      exact (hplaced image himage).1 r (Option.mem_toList.mp hr)

/-- every --load range is apart from the program's, the initrd's and every other --load range -/
def ExtrasApart (im : Images) : Prop :=
  im.extras.Pairwise Range.Apart ∧ ∀ e ∈ im.extras, im.program.Apart e ∧ ∀ i ∈ im.initrd, i.Apart e

instance (im : Images) : Decidable (ExtrasApart im) := inferInstanceAs (Decidable (_ ∧ _))

/-- **When loaded images do not overlap.** Whenever main reaches the run loop, the images lie beside each other inside memory
exactly when the --load binaries are apart from the program, the initrd and one another. -/
theorem images_apart_iff (files : Chars → Option File) (cl : CommandLine) (h : (main files cl).isSome) :
    ∃ im, images files cl = some im ∧ (Layout memSize im.ranges ↔ ExtrasApart im) := by
  obtain ⟨booted, hbooted⟩ := Option.isSome_iff_exists.mp h
  obtain ⟨im, him, hchecked⟩ := main_images hbooted
  refine ⟨im, him, ?_⟩
  rw [Images.ranges, layout_append]
  constructor
  · rintro ⟨-, hextras, hcross⟩
    refine ⟨hextras.apart, fun e he => ⟨hcross _ List.mem_cons_self e he, fun i hi => hcross i ?_ e he⟩⟩
    exact List.mem_cons_of_mem _ (List.mem_append_right _ (Option.mem_toList.mpr hi))
  · rintro ⟨hpairs, hbase⟩
    refine ⟨hchecked.base, ⟨fun e he => (hchecked.extra e he).1, hpairs⟩, ?_⟩
    intro r hr e he
    simp only [List.mem_cons, List.mem_append, Option.mem_toList] at hr
    rcases hr with rfl | hr | hr
    · exact (hbase e he).1
    · exact (hchecked.extra e he).2 r hr
    · exact (hbase e he).2 r hr

/-- every path is a file of four bytes -/
def fourByteFiles (_ : Chars) : Option File := some ⟨[0x13, 0, 0, 0], by decide⟩

/-- `p 0x1000 --load e@ADDR` -/
def loadAt (addr : String) : CommandLine :=
  ⟨[.load (some (CString.ofString ("e@" ++ addr)).chars)], [(CString.ofString "p").chars, (CString.ofString "0x1000").chars]⟩

theorem images_apart_next : ∃ im, images fourByteFiles (loadAt "0x1004") = some im ∧
    (Layout memSize im.ranges ↔ ExtrasApart im) :=
  images_apart_iff _ _ (by decide +kernel)

/-- a binary loaded over the program is accepted -/
theorem images_overlap : (main fourByteFiles (loadAt "0x1000")).isSome ∧
    ∃ im, images fourByteFiles (loadAt "0x1000") = some im ∧ ¬ Layout memSize im.ranges := by
  refine ⟨by decide +kernel, ⟨⟨4096, 4⟩, none, none, [⟨4096, 4⟩]⟩, by rfl, fun h => ?_⟩
  exact absurd (List.rel_of_pairwise_cons h.apart List.mem_cons_self) (by decide)

end RiscvEmu
