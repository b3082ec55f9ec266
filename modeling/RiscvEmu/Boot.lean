/-
From the command line to the program.

main copies the images of a command line into zeroed memory, program, device tree, initrd and --load binaries in this
order, and hands the tree over in a1. Results:
- `fdtBuildRiscvemu_memory`: building the tree is a copy of its encoding;
- `main_memory`: memory at the loop is zero but for the images, the later over the earlier;
- `boot_images`: images apart from each other stand there whole;
- `boot_tree`: the tree stands there whole whatever else was loaded, and reads back;
- `boot_program`: the program runs from there as the architecture says.
-/
import RiscvEmu.Device.FdtRoundTrip
import RiscvEmu.ImageLayout
import RiscvEmu.ProgramRun

namespace RiscvEmu

open Buffer Dtb Ranges Runs

/-! ## The device tree in memory -/

/-- the encoding of the machine's tree: header and reserve map, structure block, the rest of its window, strings -/
def treeBlob (initrdStart initrdEnd : Word) : Octets :=
  let st := structTokens (riscvemuCalls initrdStart initrdEnd)
  let names := namesOf (riscvemuCalls initrdStart initrdEnd)
  fdtFront st.length names.length ++ st ++ List.replicate (4096 - st.length) 0 ++ names

theorem treeBlob_length (s e : Word) : (treeBlob s e).length = riscvemuSize s e := by
  obtain ⟨-, hstruct, htotal⟩ := riscvemuCalls_spec s e
  rw [totalSize_eq] at htotal
  simp only [treeBlob, List.length_append, List.length_replicate, fdtFront_length, structTokens_length]
  omega

/-- **The tree is a copy of its encoding.** -/
theorem fdtBuildRiscvemu_memory (mem : ℕ → Byte) (addr s e : Word) :
    (fdtBuildRiscvemu mem addr s e).2 = memcpy mem addr.toNat (treeBlob s e) := by
  obtain ⟨hcloses, hstruct, -⟩ := riscvemuCalls_spec s e
  obtain ⟨b, hrun, hdepth⟩ := runCalls_some (fun i => mem (addr.toNat + i)) fdtMaxBuf.toNat hcloses
  obtain ⟨-, hser⟩ := calls_serialized hrun hdepth hstruct (totalSize_riscvemuCalls_le s e)
  have hmem : (fdtBuildRiscvemu mem addr s e).2 =
      fun j => if addr.toNat ≤ j then (fdtSerialize b).2.buf (j - addr.toNat) else mem j := by
    rw [fdtBuildRiscvemu, hrun]
  generalize hst : structTokens (riscvemuCalls s e) = st at hser
  generalize hnames : namesOf (riscvemuCalls s e) = names at hser
  have hlen : st.length ≤ 4096 := by rw [← hst, structTokens_length]; exact hstruct
  have hblob : treeBlob s e = fdtFront st.length names.length ++ st ++ List.replicate (4096 - st.length) 0 ++ names := by
    rw [treeBlob, hst, hnames]
  have hregion : region (fdtSerialize b).2.buf 0 (treeBlob s e).length = treeBlob s e := by
    have hsum : (treeBlob s e).length = 56 + st.length + (4096 - st.length) + names.length := by
      rw [hblob]
      simp only [List.length_append, List.length_replicate, fdtFront_length]
    have hend : 0 + (56 + st.length + (4096 - st.length)) = 4152 := by omega
    rw [hsum, region_add, region_add, region_add, hser.front, hend, hser.stringsHeld, hblob, Nat.zero_add, Nat.zero_add,
      hser.structHeld, hser.gap]
  rw [hmem]
  funext j
  by_cases hle : addr.toNat ≤ j
  · rw [if_pos hle]
    by_cases hin : j - addr.toNat < (treeBlob s e).length
    · have hget := congrArg (fun l => l[j - addr.toNat]?) hregion
      rw [memcpy, write, if_pos hle, ← hget]
      simp [region, hin]
    · have hbeyond : 4152 + names.length ≤ j - addr.toNat := by
        rw [hblob] at hin
        simp only [List.length_append, List.length_replicate, fdtFront_length] at hin
        omega
      rw [hser.frame _ hbeyond, memcpy, write_other (by omega)]
      exact congrArg mem (by omega)
  · rw [if_neg hle, memcpy, write_other (by omega)]

/-! ## The images in memory -/

/-- the images of a command line -/
structure Placed where
  program : Image
  tree : Option Image
  initrd : Option Image
  extras : List Image

/-- in the order main copies them -/
def Placed.list (im : Placed) : List Image := im.program :: (im.tree.toList ++ (im.initrd.toList ++ im.extras))

/-- the tree, where --fdt puts it -/
def treeImage (o : Options) (initrd : Option Image) : Option Image :=
  if o.fdtEnabled then some ⟨o.fdtAddr, treeBlob (initrdBounds initrd).1 (initrdBounds initrd).2⟩ else none

def fileImage (files : Chars → Option File) (path : Chars) (base : Word) : Option Image :=
  (mapFile files path).map fun map => ⟨base, map⟩

def placed (files : Chars → Option File) (cl : CommandLine) : Option Placed := do
  let o ← cl.options.foldlM Options.take optionsInit
  let programName ← cl.operands[0]?
  let programBase ← cl.operands[1]? >>= parseHex
  let program ← fileImage files programName programBase
  let initrd ← o.initrdFile.elim (some none) fun file => (fileImage files file o.initrdAddr).map some
  let extras ← o.extraSlots.mapM fun slot => fileImage files slot.file slot.base
  some ⟨program, treeImage o initrd, initrd, extras⟩

theorem fileRange_eq (files : Chars → Option File) (path : Chars) (base : Word) :
    fileRange files path base = (fileImage files path base).map Image.range := by
  rw [fileRange, fileImage, Option.map_map]
  rfl

theorem extraRanges_of {files : Chars → Option File} {slots : List ExtraLoad} {extras : List Image}
    (h : slots.mapM (fun slot => fileImage files slot.file slot.base) = some extras) :
    extraRanges files slots = some (extras.map Image.range) := by
  induction slots generalizing extras with
  | nil =>
    obtain rfl := Option.some.inj h
    rfl
  | cons slot slots ih =>
    rw [List.mapM_cons] at h
    obtain ⟨image, himage, h⟩ := Option.bind_eq_some_iff.1 h
    obtain ⟨rest, hrest, h⟩ := Option.bind_eq_some_iff.1 h
    obtain rfl := Option.some.inj h
    have htail := ih hrest
    rw [extraRanges] at htail ⊢
    rw [List.mapM_cons, fileRange_eq, himage, htail]
    rfl

/-- the ranges that were checked are those of the images -/
theorem images_placed {files : Chars → Option File} {cl : CommandLine} {im : Placed} (h : placed files cl = some im) :
    images files cl = some ⟨im.program.range, im.tree.map Image.range, im.initrd.map Image.range,
      im.extras.map Image.range⟩ := by
  obtain ⟨o, ho, h⟩ := Option.bind_eq_some_iff.1 h
  obtain ⟨programName, hname, h⟩ := Option.bind_eq_some_iff.1 h
  obtain ⟨programBase, hbase, h⟩ := Option.bind_eq_some_iff.1 h
  obtain ⟨program, hprogram, h⟩ := Option.bind_eq_some_iff.1 h
  obtain ⟨initrd, hinitrd, h⟩ := Option.bind_eq_some_iff.1 h
  obtain ⟨extras, hextras, h⟩ := Option.bind_eq_some_iff.1 h
  obtain rfl := Option.some.inj h
  have hinitrdRange : o.initrdFile.elim (some none)
      (fun file => ((fileImage files file o.initrdAddr).map Image.range).map some) = some (initrd.map Image.range) := by
    cases hfile : o.initrdFile with
    | none =>
      rw [hfile] at hinitrd
      obtain rfl := Option.some.inj hinitrd
      rfl
    | some file =>
      rw [hfile] at hinitrd
      obtain ⟨image, himage, rfl⟩ := Option.map_eq_some_iff.1 hinitrd
      rw [Option.elim_some, himage]
      rfl
  have htree : (treeImage o initrd).map Image.range = if o.fdtEnabled then
      some ⟨o.fdtAddr.toNat, riscvemuSize (initrdBounds initrd).1 (initrdBounds initrd).2⟩ else none := by
    rw [treeImage]
    split_ifs
    · rw [Option.map_some, Image.range, treeBlob_length]
    · rfl
  simp only [images, ho, hname, hbase, fileRange_eq, hprogram, Option.map_some, hinitrdRange, extraRanges_of hextras,
    Option.bind_eq_bind, Option.bind_some, ← initrdBounds_eq, htree]

/-- memory with the images copied into it, the later over the earlier -/
def loaded (mem : ℕ → Byte) (ims : List Image) : ℕ → Byte := writes mem (ims.map fun i => (i.start.toNat, i.bytes))

theorem loaded_append (mem : ℕ → Byte) (ims jms : List Image) :
    loaded mem (ims ++ jms) = loaded (loaded mem ims) jms := by
  simp only [loaded, writes, List.map_append, List.foldl_append]

section
variable {files : Chars → Option File} {o : Options} {program : Image} {initrd : Option Image} {mem mem' : ℕ → Byte}
  {fdtSize : ℕ}

theorem stageFdt_memory (h : stageFdt o program initrd mem = some (fdtSize, mem')) :
    mem' = loaded mem (treeImage o initrd).toList := by
  unfold stageFdt at h
  unfold treeImage
  split_ifs at h ⊢ with henabled
  · dsimp only at h
    split_ifs at h
    obtain ⟨-, rfl⟩ := Prod.mk.inj (Option.some.inj h)
    exact fdtBuildRiscvemu_memory mem o.fdtAddr _ _
  · obtain ⟨-, rfl⟩ := Prod.mk.inj (Option.some.inj h)
    rfl

theorem placeInitrd_memory (h : placeInitrd o program fdtSize initrd mem = some mem') :
    mem' = loaded mem initrd.toList := by
  unfold placeInitrd at h
  cases initrd with
  | none => exact (Option.some.inj h).symm
  | some i =>
    dsimp only at h
    split_ifs at h
    exact (Option.some.inj h).symm

theorem mapInitrd_image (h : mapInitrd files o = some initrd) :
    o.initrdFile.elim (some none) (fun file => (fileImage files file o.initrdAddr).map some) = some initrd := by
  unfold mapInitrd at h
  cases hfile : o.initrdFile with
  | none =>
    rw [hfile] at h
    exact h
  | some file =>
    rw [hfile] at h
    obtain ⟨map, hmap, hchecked⟩ := Option.bind_eq_some_iff.1 h
    split_ifs at hchecked
    rw [Option.elim_some, fileImage, hmap]
    exact hchecked

/-- the loop over the --load binaries -/
theorem loadExtras_memory {slots : List ExtraLoad} (h : slots.foldlM (loadExtra files o fdtSize) mem = some mem') :
    ∃ extras, slots.mapM (fun slot => fileImage files slot.file slot.base) = some extras ∧ mem' = loaded mem extras := by
  induction slots generalizing mem with
  | nil => exact ⟨[], rfl, (Option.some.inj h).symm⟩
  | cons slot slots ih =>
    rw [List.foldlM_cons] at h
    obtain ⟨mem₁, hslot, hrest⟩ := Option.bind_eq_some_iff.1 h
    obtain ⟨extras, hextras, hmem⟩ := ih hrest
    obtain ⟨map, hmap, hchecked⟩ := Option.bind_eq_some_iff.1 hslot
    split_ifs at hchecked
    obtain rfl := Option.some.inj hchecked
    refine ⟨⟨slot.base, map⟩ :: extras, ?_, hmem⟩
    rw [List.mapM_cons, fileImage, hmap, hextras]
    rfl

end

/-- what main leaves for the loop -/
structure Loaded (im : Placed) (b : Booted) : Prop where
  memory : b.mainMemory = loaded (fun _ => 0) im.list
  pc : b.pc = im.program.start
  regs : b.fdtRegs = im.tree.map fun t => (0, t.start)
  tree : ∀ t ∈ im.tree, t.bytes = treeBlob (initrdBounds im.initrd).1 (initrdBounds im.initrd).2

/-- **Memory at the loop**: zero but for the images, and the registers main leaves. -/
theorem main_memory {files : Chars → Option File} {cl : CommandLine} {booted : Booted}
    (h : main files cl = some booted) : ∃ im, placed files cl = some im ∧ Loaded im booted := by
  obtain ⟨o, ho, h⟩ := Option.bind_eq_some_iff.1 h
  obtain ⟨programName, hname, h⟩ := Option.bind_eq_some_iff.1 h
  obtain ⟨programBase, hbase, h⟩ := Option.bind_eq_some_iff.1 h
  obtain ⟨map, hmap, h⟩ := Option.bind_eq_some_iff.1 h
  have hsmall : ¬ programBase.toNat + map.length > memSize := fun hlarge => by
    rw [if_pos hlarge] at h
    cases h
  rw [if_neg hsmall] at h
  obtain ⟨initrd, hinitrd, h⟩ := Option.bind_eq_some_iff.1 h
  obtain ⟨⟨fdtSize, mem₁⟩, hfdt, h⟩ := Option.bind_eq_some_iff.1 h
  obtain ⟨mem₂, hplace, h⟩ := Option.bind_eq_some_iff.1 h
  obtain ⟨mem₃, hextras, h⟩ := Option.bind_eq_some_iff.1 h
  obtain rfl := Option.some.inj h
  obtain ⟨extras, hmaps, rfl⟩ := loadExtras_memory hextras
  obtain rfl := placeInitrd_memory hplace
  obtain rfl := stageFdt_memory hfdt
  have hprogram : fileImage files programName programBase = some ⟨programBase, map⟩ := by
    rw [fileImage, hmap]
    rfl
  refine ⟨⟨⟨programBase, map⟩, treeImage o initrd, initrd, extras⟩, ?_, ?_, rfl, ?_, ?_⟩
  · simp only [placed, ho, hname, hbase, hprogram, mapInitrd_image hinitrd, hmaps, Option.bind_eq_bind, Option.bind_some]
  · rw [Placed.list, ← List.singleton_append, loaded_append, loaded_append, loaded_append]
    rfl
  · dsimp only [treeImage]
    split_ifs <;> rfl
  · intro t ht
    dsimp only [treeImage] at ht
    split_ifs at ht
    · obtain rfl := Option.some.inj ht
      rfl
    · cases ht

/-! ## What stands whole -/

section
variable {files : Chars → Option File} {cl : CommandLine} {booted : Booted}

/-- **Where images stand whole.** Memory at the loop is zero outside the images of the command line, and images apart from
each other are there byte for byte. -/
theorem boot_images (h : main files cl = some booted) : ∃ im, placed files cl = some im ∧
    (∀ i, (∀ image ∈ im.list, i ∉ image.range.offsets) → booted.mainMemory i = 0) ∧
    (im.list.Pairwise (fun i j => i.range.Apart j.range) → ∀ image ∈ im.list,
      region booted.mainMemory image.start.toNat image.bytes.length = image.bytes) := by
  obtain ⟨im, him, hloaded⟩ := main_memory h
  refine ⟨im, him, ?_, ?_⟩
  · intro i hi
    rw [hloaded.memory, loaded, writes_other]
    intro p hp
    obtain ⟨image, himage, rfl⟩ := List.mem_map.1 hp
    have hout := hi image himage
    simp only [Range.offsets, Image.range, Set.mem_Ico] at hout
    dsimp only
    omega
  · intro hapart image himage
    rw [hloaded.memory, loaded]
    exact region_writes (p := (image.start.toNat, image.bytes)) (List.pairwise_map.2 hapart) (List.mem_map_of_mem himage)

end

/-- a binary loaded behind the program -/
def nextImages : Placed := ⟨⟨0x1000, [0x13, 0, 0, 0]⟩, none, none, [⟨0x1004, [0x13, 0, 0, 0]⟩]⟩

theorem boot_images_next : ∃ booted, main fourByteFiles (loadAt "0x1004") = some booted ∧ booted.mainMemory 0 = 0 ∧
    region booted.mainMemory 0x1000 4 = [0x13, 0, 0, 0] ∧ region booted.mainMemory 0x1004 4 = [0x13, 0, 0, 0] := by
  have hsome : (main fourByteFiles (loadAt "0x1004")).isSome := by decide +kernel
  obtain ⟨booted, hbooted⟩ := Option.isSome_iff_exists.1 hsome
  obtain ⟨im, him, hzero, hwhole⟩ := boot_images hbooted
  have hplaced : placed fourByteFiles (loadAt "0x1004") = some nextImages := by rfl
  obtain rfl := Option.some.inj (him.symm.trans hplaced)
  have hlist : nextImages.list = [⟨0x1000, [0x13, 0, 0, 0]⟩, ⟨0x1004, [0x13, 0, 0, 0]⟩] := rfl
  rw [hlist] at hzero hwhole
  have hapart := hwhole (List.pairwise_pair.2 (by decide))
  refine ⟨booted, hbooted, hzero 0 ?_, hapart _ List.mem_cons_self, hapart _ (List.mem_cons_of_mem _ List.mem_cons_self)⟩
  simp [Range.offsets, Image.range]

/-- what the tree of the machine says -/
theorem treeBlob_decodes (s e : Word) : ∃ blob items, Dtb.decode (treeBlob s e) = some blob ∧ blob.reserved = [] ∧
    blob.root = .node [] items ∧ itemsEvents items = eventsOf (riscvemuCalls s e) := by
  obtain ⟨hcloses, hstruct, -⟩ := riscvemuCalls_spec s e
  have htotal := totalSize_riscvemuCalls_le s e
  rw [totalSize_eq] at htotal
  have hsize : structSize (riscvemuCalls s e) = 8 + ((eventsOf (riscvemuCalls s e)).map Event.size).sum + 4 + 4 := rfl
  have hwf : ∀ ev ∈ eventsOf (riscvemuCalls s e), ev.WellFormed := eventsOf_wellFormed (by omega)
  obtain ⟨items, hitems, htree⟩ := readTree_tokensOf hwf hcloses.2 (by rw [namesOf] at htotal; omega)
  have h4 := four_dvd_sum (eventsOf (riscvemuCalls s e))
  have hlen := structTokens_length (riscvemuCalls s e)
  rw [← structTokens, ← namesOf] at htree
  rw [treeBlob]
  generalize structTokens (riscvemuCalls s e) = st at htree hlen
  generalize namesOf (riscvemuCalls s e) = names at htree htotal
  refine ⟨⟨⟨4152 + names.length, 56, 4152, 40, fdtHartBase, names.length, st.length⟩, [], .node [] items⟩, items, ?_, rfl,
    rfl, hitems⟩
  simp only [List.append_assoc]
  have hwhole : (fdtFront st.length names.length ++ (st ++ (List.replicate (4096 - st.length) 0 ++ names))).length =
      4152 + names.length := by
    simp only [List.length_append, List.length_replicate, fdtFront_length]
    omega
  have hst : slice (fdtFront st.length names.length ++ (st ++ (List.replicate (4096 - st.length) 0 ++ names))) 56
      st.length = some st := by
    rw [slice, hwhole, if_pos (by omega), List.drop_left' (fdtFront_length _ _), List.take_left]
  have hnames : slice (fdtFront st.length names.length ++ (st ++ (List.replicate (4096 - st.length) 0 ++ names))) 4152
      names.length = some names := by
    have hbefore : (fdtFront st.length names.length ++ (st ++ List.replicate (4096 - st.length) 0)).length = 4152 := by
      simp only [List.length_append, List.length_replicate, fdtFront_length]
      omega
    rw [slice, hwhole, if_pos (by omega), ← List.append_assoc st, ← List.append_assoc, List.drop_left' hbefore,
      List.take_length]
  rw [Dtb.decode, header_front _ _ (by omega) (by omega), Option.bind_some]
  dsimp only
  rw [hwhole, if_pos (by omega), rsvmap_front, Option.bind_some, hst, Option.bind_some, hnames, Option.bind_some, htree]
  rfl

section
variable {files : Chars → Option File} {cl : CommandLine} {booted : Booted}

/-- **The tree stands whole.** Whatever else a command line loads: when main hands over a tree, a1 is where the tree of
the machine with the bounds of the initrd reads back. -/
theorem boot_tree (h : main files cl = some booted) {a0 a1 : Word} (hregs : booted.fdtRegs = some (a0, a1)) :
    a0 = 0 ∧ ∃ im s e, placed files cl = some im ∧ initrdBounds im.initrd = (s, e) ∧ ∃ blob items,
      Dtb.decode (region booted.mainMemory a1.toNat (riscvemuSize s e)) = some blob ∧ blob.reserved = [] ∧
        blob.root = .node [] items ∧ itemsEvents items = eventsOf (riscvemuCalls s e) := by
  obtain ⟨im, him, hloaded⟩ := main_memory h
  obtain ⟨ranges, hranges, hchecked⟩ := main_images h
  obtain rfl := Option.some.inj ((images_placed him).symm.trans hranges)
  rw [hloaded.regs] at hregs
  obtain ⟨t, ht, htree⟩ := Option.map_eq_some_iff.1 hregs
  obtain ⟨rfl, rfl⟩ := Prod.mk.inj htree
  refine ⟨rfl, im, (initrdBounds im.initrd).1, (initrdBounds im.initrd).2, him, rfl, ?_⟩
  -- what is copied after the tree was checked against it
  have hafter : ∀ image ∈ im.initrd.toList ++ im.extras, t.range.Apart image.range := by
    intro image himage
    rcases List.mem_append.1 himage with hinitrd | hextra
    · have hpairs := (List.pairwise_cons.1 hchecked.base.apart).2
      refine (List.pairwise_append.1 hpairs).2.2 _ ?_ _ ?_
      · exact Option.mem_toList.2 (Option.mem_map_of_mem _ ht)
      · exact Option.mem_toList.2 (Option.mem_map_of_mem _ (Option.mem_toList.1 hinitrd))
    · exact (hchecked.extra _ (List.mem_map_of_mem hextra)).2 _ (Option.mem_map_of_mem _ ht)
  have hheld : region booted.mainMemory t.start.toNat t.bytes.length = t.bytes := by
    have hlist : im.list = [im.program] ++ (t :: (im.initrd.toList ++ im.extras)) := by
      rw [Placed.list, ht]
      rfl
    rw [hloaded.memory, hlist, loaded_append, loaded, List.map_cons, writes, List.foldl_cons]
    refine region_write_writes fun q hq => ?_
    obtain ⟨image, himage, rfl⟩ := List.mem_map.1 hq
    exact hafter image himage
  rw [hloaded.tree t ht, treeBlob_length] at hheld
  rw [hheld]
  exact treeBlob_decodes _ _

end

/-- `p 0x1000 --fdt=0x2000` -/
def fdtAt : CommandLine :=
  ⟨[.fdt (some (CString.ofString "0x2000").chars)], [(CString.ofString "p").chars, (CString.ofString "0x1000").chars]⟩

theorem boot_tree_low : ∃ booted, main fourByteFiles fdtAt = some booted ∧ ∃ blob items,
    Dtb.decode (region booted.mainMemory 0x2000 4701) = some blob ∧ blob.root = .node [] items ∧
      itemsEvents items = eventsOf (riscvemuCalls 0 0) := by
  have hmap : (main fourByteFiles fdtAt).map Booted.fdtRegs = some (some (0, 0x2000)) := by decide +kernel
  obtain ⟨booted, hbooted, hregs⟩ := Option.map_eq_some_iff.1 hmap
  obtain ⟨-, im, s, e, him, hse, blob, items, hdecode, -, hroot, hitems⟩ := boot_tree hbooted hregs
  have hinitrd : (placed fourByteFiles fdtAt).map (fun im => initrdBounds im.initrd) = some (0, 0) := by decide +kernel
  rw [him] at hinitrd
  obtain ⟨rfl, rfl⟩ := Prod.mk.inj (hse.symm.trans (Option.some.inj hinitrd))
  exact ⟨booted, hbooted, blob, items, hdecode, hroot, hitems⟩

/-! ## The program -/

/-- the run that main starts -/
def Booted.run (b : Booted) : Run :=
  runInit (fun i => b.fdtRegs.elim 0 fun (a0, a1) => if i = 10 then a0 else if i = 11 then a1 else 0)
    (fun a => b.mainMemory a.toNat) b.pc b.fdtRegs.isNone

/-- the architecture's state that a command line asks for: the images in memory, pc at the program, the tree in a1 -/
def Placed.entry (im : Placed) : Rv32i.State where
  regs i := if i = 11 then im.tree.elim 0 Image.start else 0
  zero := if_neg (by decide)
  pc := im.program.start
  mem a := loaded (fun _ => 0) im.list a.toNat

theorem Loaded.entry {im : Placed} {b : Booted} (h : Loaded im b) : isaState b.run.state = im.entry := by
  refine Rv32i.State.ext ?_ h.pc (funext fun a => congrFun h.memory a.toNat)
  funext i
  change (if i = 0 then 0 else b.fdtRegs.elim 0 fun (a0, a1) => if i = 10 then a0 else if i = 11 then a1 else 0) =
    if i = 11 then im.tree.elim 0 Image.start else 0
  rw [h.regs]
  cases im.tree with
  | none => simp only [Option.map_none, Option.elim_none, ite_self]
  | some t =>
    by_cases hi : i = 11
    · subst hi
      rfl
    · simp only [Option.map_some, Option.elim_some, if_neg hi, ite_self]

/-- **A program runs from the command line as the architecture says.** -/
theorem boot_program [SoftFloat] {files : Chars → Option File} {cl : CommandLine} {booted : Booted}
    (h : main files cl = some booted) : ∃ im, placed files cl = some im ∧
      ∀ p b, Path archStep im.entry p b → (∀ x ∈ p, x.2.InRam x.1) → (∀ x ∈ p, x.2.Ordinary x.1) →
        ∀ hosts : List HostInput, hosts.length = p.length → (∀ host ∈ hosts, host.quit = false) →
          ∃ r', run hosts booted.run = .ok r' ∧ isaState r'.state = b ∧ Elapsed p.length booted.run.state r'.state := by
  obtain ⟨im, him, hloaded⟩ := main_memory h
  refine ⟨im, him, fun p b hp hin hord hosts hlen hquit => ?_⟩
  obtain ⟨r', hrun, hb, -, helapsed⟩ :=
    lockstep hp hloaded.entry hin hord (undisturbed_runInit _ _ _ _) hosts hlen hquit
  exact ⟨r', hrun, hb, helapsed⟩

def nop : Parcel := .long (.base (.opImm .addi 0 0 0))

/-- the nop of the program, and the one loaded behind it -/
def nopParcels : List Parcel := [nop, nop]

theorem boot_program_next : ∃ booted, main fourByteFiles (loadAt "0x1004") = some booted ∧
    ∃ r', @run noFloat [⟨[], false⟩, ⟨[0x61], false⟩] booted.run = .ok r' ∧ r'.state.pc = 0x1008 := by
  have hsome : (main fourByteFiles (loadAt "0x1004")).isSome := by decide +kernel
  obtain ⟨booted, hbooted⟩ := Option.isSome_iff_exists.1 hsome
  obtain ⟨im, him, hruns⟩ := @boot_program noFloat _ _ _ hbooted
  have hplaced : placed fourByteFiles (loadAt "0x1004") = some nextImages := by rfl
  obtain rfl := Option.some.inj (him.symm.trans hplaced)
  have hat : ∀ x ∈ statesFrom nextImages.entry nopParcels, x.2.At x.1 := by
    simp only [nopParcels, statesFrom, List.mem_cons, List.not_mem_nil, or_false, forall_eq_or_imp, forall_eq]
    refine ⟨?_, ?_⟩
    · change Bytes.loadLE _ _ 4 = _
      decide +kernel
    · change Bytes.loadLE _ _ 4 = _
      decide +kernel
  have hin : ∀ x ∈ statesFrom nextImages.entry nopParcels, x.2.InRam x.1 := by
    simp only [nopParcels, statesFrom, List.mem_cons, List.not_mem_nil, or_false, forall_eq_or_imp, forall_eq]
    have hnone : ∀ a : Rv32i.State, ∀ addr n, nop.instr.access a = some (addr, n) → ramAccess addr n := by
      intro a addr n h
      cases h
    exact ⟨⟨by decide, by decide, hnone _⟩, ⟨by decide, by decide, hnone _⟩⟩
  have hord : ∀ x ∈ statesFrom nextImages.entry nopParcels, x.2.Ordinary x.1 := by
    simp only [nopParcels, statesFrom, List.mem_cons, List.not_mem_nil, or_false, forall_eq_or_imp, forall_eq]
    exact ⟨trivial, trivial⟩
  obtain ⟨r', hrun, hb, -⟩ := hruns _ _ (path_statesFrom hat) hin hord [⟨[], false⟩, ⟨[0x61], false⟩] rfl (by decide)
  exact ⟨booted, hbooted, r', hrun, congrArg Rv32i.State.pc hb⟩

end RiscvEmu
