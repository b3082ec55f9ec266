/-
emu.c: main, from the command line to the run loop. The options are those getopt_long delivers, the operands what is left.

`none` is every way out before the loop: a usage error that returns 1, --help, or fatal(), which exits. Sums of a uint32_t and
a size_t are of 64 bits; a file is shorter than 2^63 bytes, so they do not wrap and are written in ℕ. Terminal, logger and
debugger set-up have no part in the images and are left out.
-/
import RiscvEmu.Device.Fdt
import RiscvEmu.Mem

namespace RiscvEmu

/-! ## Arguments -/

/-- a path or an argument: the characters of a C string -/
abbrev Chars := List Byte

def isspace (c : Byte) : Bool := c = 32 || (9 ≤ c && c ≤ 13)

def digitValue (c : Byte) : ℕ :=
  if 48 ≤ c ∧ c ≤ 57 then c.toNat - 48
  else if 65 ≤ c ∧ c ≤ 90 then c.toNat - 55
  else if 97 ≤ c ∧ c ≤ 122 then c.toNat - 87
  else 36

/-- the base and the rest after its prefix, for a base of 0 -/
def strtoulBase (s : Chars) : ℕ × Chars :=
  if s.head? = some 48 then
    if (s[1]? = some 120 ∨ s[1]? = some 88) ∧ (s[2]?.elim 36 digitValue) < 16 then (16, s.drop 2) else (8, s)
  else (10, s)

/-- strtoul with base 0: the value and what is left of the string; none when nothing was converted. A value too large is
ULONG_MAX. -/
def strtoul (s : Chars) : Option (BitVec 64 × Chars) :=
  let s := s.dropWhile isspace
  let negative : Bool := s.head? = some 45
  let s := if s.head? = some 45 ∨ s.head? = some 43 then s.drop 1 else s
  let (base, s) := strtoulBase s
  let digits := s.takeWhile fun c => digitValue c < base
  let value := digits.foldl (fun v c => v * base + digitValue c) 0
  if digits = [] then none
  else
    let result : BitVec 64 :=
      if value ≥ 2 ^ 64 then BitVec.allOnes 64 else if negative then -BitVec.ofNat 64 value else BitVec.ofNat 64 value
    some (result, s.dropWhile fun c => digitValue c < base)

/-- the value is cut to 32 bits -/
def parseHex (str : Chars) : Option Word :=
  (strtoul str).bind fun (val, rest) => if rest = [] then some (val.setWidth 32) else none

/-- what stands before and after the last '@' -/
def strrchrAt (arg : Chars) : Option (Chars × Chars) :=
  let after := (arg.reverse.takeWhile (· ≠ 64)).reverse
  if after.length < arg.length then some (arg.take (arg.length - after.length - 1), after) else none

structure ExtraLoad where
  file : Chars
  base : Word
deriving DecidableEq

def pushExtraLoad (slots : List ExtraLoad) (arg : Chars) : Option (List ExtraLoad) :=
  (strrchrAt arg).bind fun (file, addr) =>
    if file = [] ∨ addr = [] then none else (parseHex addr).map fun base => slots ++ [⟨file, base⟩]

/-- an option with its argument; the short -L takes none, and its null argument ends the run -/
inductive Opt where
  | load (optarg : Option Chars)
  | initrd (optarg : Chars)
  | console
  | log (optarg : Chars)
  | debug
  | breakpoint (optarg : Chars)
  | fdt (optarg : Option Chars)
  | help
  | other

def initrdDefaultAddr : Word := 0x82000000
def fdtDefaultAddr : Word := 0x87f00000

structure Options where
  extraSlots : List ExtraLoad
  initrdFile : Option Chars
  initrdAddr : Word
  fdtEnabled : Bool
  fdtAddr : Word

def optionsInit : Options := ⟨[], none, initrdDefaultAddr, false, fdtDefaultAddr⟩

/-- one round of the option loop -/
def Options.take (o : Options) : Opt → Option Options
  | .load optarg => optarg.bind fun arg => (pushExtraLoad o.extraSlots arg).map fun slots => { o with extraSlots := slots }
  | .initrd optarg =>
    match strrchrAt optarg with
    | some (file, addr) =>
      if file = [] ∨ addr = [] then none
      else (parseHex addr).map fun a => { o with initrdFile := some file, initrdAddr := a }
    | none => some { o with initrdFile := some optarg }
  | .console => some o
  | .log _ => some o
  | .debug => some o
  | .breakpoint optarg => (parseHex optarg).map fun _ => o
  | .fdt none => some { o with fdtEnabled := true }
  | .fdt (some optarg) => (parseHex optarg).map fun a => { o with fdtEnabled := true, fdtAddr := a }
  | .help => none
  | .other => none

/-! ## Images -/

/-- a regular file; its size is an off_t -/
abbrev File := { bytes : List Byte // bytes.length < 2 ^ 63 }

/-- the mapping of a file that exists and is not empty -/
def mapFile (files : Chars → Option File) (path : Chars) : Option (List Byte) :=
  (files path).bind fun f => if f.1.length = 0 then none else some f.1

/-- an image with its place -/
structure Image where
  start : Word
  bytes : List Byte

/-- the initrd, mapped before the device tree is built and copied after it -/
def mapInitrd (files : Chars → Option File) (o : Options) : Option (Option Image) :=
  match o.initrdFile with
  | none => some none
  | some file =>
    (mapFile files file).bind fun map =>
      if map.length > memSize ∨ o.initrdAddr.toNat > memSize - map.length then none
      else some (some ⟨o.initrdAddr, map⟩)

/-- initrd_start and initrd_end, 0 without an initrd -/
def initrdBounds (initrd : Option Image) : Word × Word :=
  match initrd with
  | none => (0, 0)
  | some i => (i.start, i.start + BitVec.ofNat 32 i.bytes.length)

/-- fdt_size, 0 when the tree is not enabled, and the memory with the tree -/
def stageFdt (o : Options) (program : Image) (initrd : Option Image) (mem : ℕ → Byte) : Option (ℕ × (ℕ → Byte)) :=
  if o.fdtEnabled then
    let (start, last) := initrdBounds initrd
    let (size, mem) := fdtBuildRiscvemu mem o.fdtAddr start last
    if size = 0 then none
    else if o.fdtAddr.toNat + size.toNat > memSize ∨ o.fdtAddr.toNat < program.start.toNat + program.bytes.length then none
    else some (size.toNat, mem)
  else some (0, mem)

def placeInitrd (o : Options) (program : Image) (fdtSize : ℕ) (initrd : Option Image) (mem : ℕ → Byte) :
    Option (ℕ → Byte) :=
  match initrd with
  | none => some mem
  | some i =>
    let last := i.start + BitVec.ofNat 32 i.bytes.length
    if o.fdtEnabled ∧ i.start.toNat < o.fdtAddr.toNat + fdtSize ∧ o.fdtAddr < last then none
    else if i.start.toNat < program.start.toNat + program.bytes.length ∧ program.start < last then none
    else some (memcpy mem i.start.toNat i.bytes)

/-- one round of the --load loop -/
def loadExtra (files : Chars → Option File) (o : Options) (fdtSize : ℕ) (mem : ℕ → Byte) (slot : ExtraLoad) :
    Option (ℕ → Byte) :=
  (mapFile files slot.file).bind fun map =>
    if slot.base.toNat + map.length > memSize then none
    else if o.fdtEnabled ∧ slot.base.toNat < o.fdtAddr.toNat + fdtSize ∧ o.fdtAddr.toNat < slot.base.toNat + map.length then
      none
    else some (memcpy mem slot.base.toNat map)

/-- the machine at the loop -/
structure Booted where
  mainMemory : ℕ → Byte
  pc : Word
  /-- a0 and a1, when a tree is handed over -/
  fdtRegs : Option (Word × Word)

structure CommandLine where
  options : List Opt
  operands : List Chars

/-- main up to the run loop -/
def main (files : Chars → Option File) (cl : CommandLine) : Option Booted := do
  let o ← cl.options.foldlM Options.take optionsInit
  let programName ← cl.operands[0]?
  let programBase ← cl.operands[1]? >>= parseHex
  let map ← mapFile files programName
  if programBase.toNat + map.length > memSize then none
  else
    let program : Image := ⟨programBase, map⟩
    let mem := memcpy (fun _ => 0) programBase.toNat map
    let initrd ← mapInitrd files o
    let (fdtSize, mem) ← stageFdt o program initrd mem
    let mem ← placeInitrd o program fdtSize initrd mem
    let mem ← o.extraSlots.foldlM (loadExtra files o fdtSize) mem
    some ⟨mem, programBase, if o.fdtEnabled then some (0, o.fdtAddr) else none⟩

end RiscvEmu
