/-
device/fdt.c: the device tree writer. A builder keeps two cursors into its buffer, one in the structure block and one in
the strings block, and `fdtSerialize` closes the tree and writes the header in front of them.

A call that fails returns the handle 0, here `none`; on a 0 handle every later call fails as well.
-/
import Mathlib.Data.List.TakeWhile
import RiscvEmu.Device.Uart
import RiscvEmu.Lib.Buffer

namespace RiscvEmu

def fdtMagic : Word := 0xd00dfeed
def fdtVersion : Word := 17
def fdtLastCompVersion : Word := 16
def fdtBeginNode : Word := 1
def fdtEndNode : Word := 2
def fdtProp : Word := 3
def fdtEnd : Word := 9
def fdtHeaderSize : Word := 40
def fdtStructMax : Word := 4096
def fdtMaxCells : ℕ := 4
def fdtMaxBuf : Word := fdtStructMax * 4
def fdtHartBase : Word := 0

/-- a string of C: what stands before its NUL -/
structure CString where
  chars : List Byte
  nulFree : 0 ∉ chars

/-- the C string of a literal, which ends at its first NUL -/
def CString.ofString (s : String) : CString where
  chars := (s.toList.map fun c => BitVec.ofNat 8 c.toNat).takeWhile (· ≠ 0)
  nulFree h := by simpa using List.mem_takeWhile_imp h

/-- the bytes of a string in memory -/
def CString.bytes (s : CString) : List Byte := s.chars ++ [0]

def strlen (s : CString) : ℕ := s.chars.length

def memcpy (buf : ℕ → Byte) (dst : ℕ) (src : List Byte) : ℕ → Byte := Buffer.write buf dst src

def be32 (buf : ℕ → Byte) (p : ℕ) (v : Word) : ℕ → Byte :=
  let buf := Function.update buf p ((v >>> 24).setWidth 8)
  let buf := Function.update buf (p + 1) (((v >>> 16) &&& 0xFF).setWidth 8)
  let buf := Function.update buf (p + 2) (((v >>> 8) &&& 0xFF).setWidth 8)
  Function.update buf (p + 3) ((v &&& 0xFF).setWidth 8)

def be64 (buf : ℕ → Byte) (p : ℕ) (v : BitVec 64) : ℕ → Byte :=
  be32 (be32 buf p ((v >>> 32).setWidth 32)) (p + 4) ((v &&& 0xFFFFFFFF).setWidth 32)

structure FdtBuilder where
  buf : ℕ → Byte
  /-- set by the caller and read nowhere -/
  bufsize : ℕ
  structOff : Word
  stringsOff : Word
  depth : ℕ
  /-- latched by a failed operation -/
  err : Bool

/-! ## Cursors -/

def structBase : Word := fdtHeaderSize + 16
def stringsBase : Word := structBase + fdtStructMax

def structWord (b : FdtBuilder) (w : Word) : FdtBuilder :=
  { b with buf := be32 b.buf b.structOff.toNat w, structOff := b.structOff + 4 }

def structBytes (b : FdtBuilder) (data : List Byte) (len : Word) : FdtBuilder :=
  { b with
    buf := if len ≠ 0 then memcpy b.buf b.structOff.toNat (data.take len.toNat) else b.buf
    structOff := b.structOff + len }

/-- n rounds of the loop of struct_align -/
def structAlignLoop : ℕ → FdtBuilder → FdtBuilder
  | 0, b => b
  | n + 1, b =>
    if b.structOff &&& 3 ≠ 0 then
      structAlignLoop n { b with buf := Function.update b.buf b.structOff.toNat 0, structOff := b.structOff + 1 }
    else b

/-- three rounds reach a multiple of 4 from anywhere -/
def structAlign (b : FdtBuilder) : FdtBuilder := structAlignLoop 3 b

def structString (b : FdtBuilder) (s : CString) : FdtBuilder :=
  let n : Word := BitVec.ofNat 32 (strlen s)
  let b := { b with buf := memcpy b.buf b.structOff.toNat (s.chars.take n.toNat), structOff := b.structOff + n }
  let b := { b with buf := Function.update b.buf b.structOff.toNat 0, structOff := b.structOff + 1 }
  structAlign b

/-- the offset returned is relative to the strings block -/
def stringsIntern (b : FdtBuilder) (name : CString) : Word × FdtBuilder :=
  let rel := b.stringsOff - stringsBase
  let n : Word := BitVec.ofNat 32 (strlen name) + 1
  (rel, { b with buf := memcpy b.buf b.stringsOff.toNat (name.bytes.take n.toNat), stringsOff := b.stringsOff + n })

/-! ## Builder calls -/

/-- the root node is opened here, with an empty name -/
def fdtBuilderInit (buf : ℕ → Byte) (bufsize : ℕ) : FdtBuilder :=
  structString (structWord ⟨buf, bufsize, structBase, stringsBase, 0, false⟩ fdtBeginNode) (CString.ofString "")

def fdtNodePush (b : FdtBuilder) (name : CString) : Option FdtBuilder :=
  if name.chars = [] ∨ b.err then none
  else
    let b := structString (structWord b fdtBeginNode) name
    some { b with depth := b.depth + 1 }

def fdtNodePop (b : FdtBuilder) : Option FdtBuilder :=
  if b.err ∨ b.depth = 0 then none
  else
    let b := structWord b fdtEndNode
    some { b with depth := b.depth - 1 }

def propBegin (b : FdtBuilder) (name : CString) (len : Word) : Option FdtBuilder :=
  if b.err then none
  else
    let b := structWord (structWord b fdtProp) len
    let (rel, b) := stringsIntern b name
    some (structWord b rel)

/-- vals of fdt_prop_word: a local array the cells are written to -/
def cellBytes (vals : List Word) : List Byte :=
  vals.flatMap fun v => (List.range 4).map (be32 (fun _ => 0) 0 v)

def fdtPropWord (b : FdtBuilder) (name : CString) (v0 v1 v2 v3 : Word) : Option FdtBuilder :=
  (propBegin b name 16).map fun b => structBytes b (cellBytes [v0, v1, v2, v3]) 16

def fdtPropNcells (b : FdtBuilder) (name : CString) (vals : List Word) : Option FdtBuilder :=
  if vals.length = 0 ∨ vals.length > fdtMaxCells then none
  else
    (propBegin b name (BitVec.ofNat 32 (vals.length * 4))).map fun b =>
      vals.foldl (fun b v => structBytes b (cellBytes [v]) 4) b

def fdtPropCells1 (b : FdtBuilder) (name : CString) (v0 : Word) : Option FdtBuilder := fdtPropNcells b name [v0]
def fdtPropCells2 (b : FdtBuilder) (name : CString) (v0 v1 : Word) : Option FdtBuilder := fdtPropNcells b name [v0, v1]
def fdtPropCells3 (b : FdtBuilder) (name : CString) (v0 v1 v2 : Word) : Option FdtBuilder :=
  fdtPropNcells b name [v0, v1, v2]

def fdtPropStr (b : FdtBuilder) (name str : CString) : Option FdtBuilder :=
  let n : Word := BitVec.ofNat 32 (strlen str) + 1
  (propBegin b name n).map fun b => structAlign (structBytes b str.bytes n)

def fdtPropEmpty (b : FdtBuilder) (name : CString) : Option FdtBuilder := propBegin b name 0

/-- len, the size_t the caller gives, is the length of data -/
def fdtPropBytes (b : FdtBuilder) (name : CString) (data : List Byte) : Option FdtBuilder :=
  let l : Word := BitVec.ofNat 32 data.length
  (propBegin b name l).map fun b => structAlign (if l ≠ 0 then structBytes b data l else b)

/-- a call on the builder -/
inductive FdtCall where
  | nodePush (name : CString)
  | nodePop
  | propWord (name : CString) (v0 v1 v2 v3 : Word)
  | propCells1 (name : CString) (v0 : Word)
  | propCells2 (name : CString) (v0 v1 : Word)
  | propCells3 (name : CString) (v0 v1 v2 : Word)
  | propStr (name str : CString)
  | propEmpty (name : CString)
  | propBytes (name : CString) (data : List Byte)

def FdtCall.run (b : FdtBuilder) : FdtCall → Option FdtBuilder
  | .nodePush name => fdtNodePush b name
  | .nodePop => fdtNodePop b
  | .propWord name v0 v1 v2 v3 => fdtPropWord b name v0 v1 v2 v3
  | .propCells1 name v0 => fdtPropCells1 b name v0
  | .propCells2 name v0 v1 => fdtPropCells2 b name v0 v1
  | .propCells3 name v0 v1 v2 => fdtPropCells3 b name v0 v1 v2
  | .propStr name str => fdtPropStr b name str
  | .propEmpty name => fdtPropEmpty b name
  | .propBytes name data => fdtPropBytes b name data

/-- calls one after the other, until one fails -/
def runCalls (b : FdtBuilder) (calls : List FdtCall) : Option FdtBuilder := calls.foldlM FdtCall.run b

/-! ## Serialisation -/

/-- the loop that zeroes [i, i + n) -/
def zeroGap (buf : ℕ → Byte) (i : ℕ) : ℕ → ℕ → Byte
  | 0 => buf
  | n + 1 => zeroGap (Function.update buf i 0) (i + 1) n

/-- the size of the tree, 0 on failure -/
def fdtSerialize (b : FdtBuilder) : BitVec 64 × FdtBuilder :=
  if b.err ∨ b.depth ≠ 0 then (0, b)
  else
    let b := structWord (structAlign (structWord b fdtEndNode)) fdtEnd
    let structLen := b.structOff - structBase
    let stringsLen := b.stringsOff - stringsBase
    let totalsize := stringsBase + stringsLen
    if totalsize > fdtMaxBuf then (0, { b with err := true })
    else
      let buf := be32 b.buf 0 fdtMagic
      let buf := be32 buf 4 totalsize
      let buf := be32 buf 8 structBase
      let buf := be32 buf 12 stringsBase
      let buf := be32 buf 16 fdtHeaderSize
      let buf := be32 buf 20 fdtVersion
      let buf := be32 buf 24 fdtLastCompVersion
      let buf := be32 buf 28 fdtHartBase
      let buf := be32 buf 32 stringsLen
      let buf := be32 buf 36 structLen
      let buf := be64 buf 40 0
      let buf := be64 buf (40 + 8) 0
      let buf := zeroGap buf b.structOff.toNat (stringsBase.toNat - b.structOff.toNat)
      (totalsize.setWidth 64, { b with buf := buf })

/-! ## Machine description -/

def fdtCpuIntcPhandle : Word := 1
def fdtPlicPhandle : Word := 2
def irqMSoft : Word := 3
def irqMTimer : Word := 7
def irqMExt : Word := 11
def irqSExt : Word := 9
def fdtTimebaseFreq : Word := 10000000
def fdtRamStart : Word := 0x80000000
def fdtRamSize : Word := 0x80000000

/-- the bytes of an array of char initialised with a literal, its last NUL included -/
def charArray (s : String) : List Byte := s.toList.map (fun c => BitVec.ofNat 8 c.toNat) ++ [0]

def fdtBuildClint : List FdtCall := [
  .nodePush (.ofString "clint@2000000"),
  .propStr (.ofString "compatible") (.ofString "sifive,clint0"),
  .propWord (.ofString "reg") 0 clintBase 0 clintSize,
  .propWord (.ofString "interrupts-extended") fdtCpuIntcPhandle irqMSoft fdtCpuIntcPhandle irqMTimer,
  .nodePop]

def fdtBuildPlic : List FdtCall := [
  .nodePush (.ofString "plic@c000000"),
  .propBytes (.ofString "compatible") (charArray "sifive,plic-1.0.0\x00riscv,plic0\x00"),
  .propWord (.ofString "reg") 0 plicBase 0 plicSize,
  .propCells1 (.ofString "#address-cells") 0,
  .propCells1 (.ofString "#interrupt-cells") 1,
  .propCells1 (.ofString "phandle") fdtPlicPhandle,
  .propEmpty (.ofString "interrupt-controller"),
  .propCells1 (.ofString "riscv,ndev") (BitVec.ofNat 32 plicNdev),
  .propWord (.ofString "interrupts-extended") fdtCpuIntcPhandle irqMExt fdtCpuIntcPhandle irqSExt,
  .nodePop]

/-- fdt_prop_interrupt_parent -/
def fdtPropInterruptParent (phandle : Word) : FdtCall := .propCells1 (.ofString "interrupt-parent") phandle

def fdtBuildUart : List FdtCall := [
  .nodePush (.ofString "uart@10000000"),
  .propStr (.ofString "compatible") (.ofString "ns16550a"),
  .propWord (.ofString "reg") 0 uartBase 0 uartNregs,
  .propCells1 (.ofString "clock-frequency") 3686400,
  .propCells1 (.ofString "current-speed") 115200,
  .propCells1 (.ofString "reg-shift") 0,
  .propCells1 (.ofString "reg-io-width") 1,
  fdtPropInterruptParent fdtPlicPhandle,
  .propCells1 (.ofString "interrupts") (BitVec.ofNat 32 uartIrq),
  .nodePop]

def fdtBuildChosen (initrdStart initrdEnd : Word) : List FdtCall := [
  .nodePush (.ofString "chosen"),
  .propStr (.ofString "stdout-path") (.ofString "/soc/uart@10000000"),
  .propStr (.ofString "bootargs") (.ofString "earlycon console=ttyS0,115200n8 root=/dev/ram0 rw rdinit=/init")] ++
  (if initrdStart ≠ 0 ∧ initrdEnd ≠ 0 then [
    .propCells2 (.ofString "linux,initrd-start") 0 initrdStart,
    .propCells2 (.ofString "linux,initrd-end") 0 initrdEnd]
  else []) ++ [.nodePop]

def fdtBuildCpus : List FdtCall := [
  .nodePush (.ofString "cpus"),
  .propCells1 (.ofString "#address-cells") 1,
  .propCells1 (.ofString "#size-cells") 0,
  .propCells1 (.ofString "timebase-frequency") fdtTimebaseFreq,
  .nodePush (.ofString "cpu@0"),
  .propStr (.ofString "device_type") (.ofString "cpu"),
  .propCells1 (.ofString "reg") fdtHartBase,
  .propStr (.ofString "compatible") (.ofString "riscv"),
  .propStr (.ofString "mmu-type") (.ofString "riscv,sv32"),
  .propStr (.ofString "riscv,isa") (.ofString "rv32imafdqc_zicsr_zifencei_zicond"),
  .propStr (.ofString "riscv,isa-base") (.ofString "rv32i"),
  .propBytes (.ofString "riscv,isa-extensions")
    (charArray "i\x00m\x00a\x00f\x00d\x00q\x00c\x00zicsr\x00zifencei\x00zicntr\x00zicond\x00"),
  .nodePush (.ofString "interrupt-controller"),
  .propCells1 (.ofString "phandle") fdtCpuIntcPhandle,
  .propCells1 (.ofString "#interrupt-cells") 1,
  .propStr (.ofString "compatible") (.ofString "riscv,cpu-intc"),
  .propEmpty (.ofString "interrupt-controller"),
  .nodePop,
  .nodePop,
  .nodePop]

def fdtBuildSoc : List FdtCall := [
  .nodePush (.ofString "soc"),
  .propStr (.ofString "compatible") (.ofString "simple-bus"),
  .propCells1 (.ofString "#address-cells") 2,
  .propCells1 (.ofString "#size-cells") 2,
  .propEmpty (.ofString "ranges")] ++
  fdtBuildClint ++ fdtBuildPlic ++ fdtBuildUart ++ [.nodePop]

def fdtBuildRoot : List FdtCall := [
  .propCells1 (.ofString "#address-cells") 2,
  .propCells1 (.ofString "#size-cells") 2,
  .propStr (.ofString "compatible") (.ofString "riscvemu"),
  .propStr (.ofString "model") (.ofString "RISCVemu RV32 virt")]

def fdtBuildMemory : List FdtCall := [
  .nodePush (.ofString "memory@80000000"),
  .propStr (.ofString "device_type") (.ofString "memory"),
  .propWord (.ofString "reg") 0 fdtRamStart 0 fdtRamSize,
  .nodePop]

/-- the calls of fdt_build_riscvemu, each made only if the one before succeeded -/
def riscvemuCalls (initrdStart initrdEnd : Word) : List FdtCall :=
  fdtBuildRoot ++ (fdtBuildChosen initrdStart initrdEnd ++ (fdtBuildMemory ++ (fdtBuildCpus ++ fdtBuildSoc)))

/-- The size of the tree and the memory after building it at addr; g_state.main_memory + addr is a host pointer, so the writes
do not wrap. The calls never fail (`riscvemuCalls_closes`). -/
def fdtBuildRiscvemu (mem : ℕ → Byte) (addr initrdStart initrdEnd : Word) : BitVec 64 × (ℕ → Byte) :=
  match runCalls (fdtBuilderInit (fun i => mem (addr.toNat + i)) fdtMaxBuf.toNat) (riscvemuCalls initrdStart initrdEnd) with
  | none => (0, mem)
  | some b =>
    let (size, b) := fdtSerialize b
    (size, fun j => if addr.toNat ≤ j then b.buf (j - addr.toNat) else mem j)

end RiscvEmu
