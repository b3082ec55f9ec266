/-
f_extension.c in the default build: all four formats present, SUPPORT_MISALIGN off.

SoftFloat is not part of the repository. Its arithmetic is the class below: each routine returns the result and the
flags it ORs into softfloat_exceptionFlags, and nothing is assumed of either. The four copies of every routine (s_, h_,
d_, q_) are one definition at the constants of the format.

  * `insfRFma_frame`, `insfRFpop_frame`: an FP operation changes the two register files and the FP state alone.
-/
import RiscvEmu.Mmu

namespace RiscvEmu

/-- the fmt field of an FP instruction: single, double, half, quad -/
inductive Fmt where
  | S | D | H | Q
deriving DecidableEq, Repr

namespace Fmt

def ofField : BitVec 2 → Fmt
  | 0b00#2 => S
  | 0b01#2 => D
  | 0b10#2 => H
  | _ => Q

/-- the source precision of an fp to fp conversion: the rs2 field -/
def ofSource : BitVec 5 → Option Fmt
  | 0b00#5 => some S
  | 0b01#5 => some D
  | 0b10#5 => some H
  | 0b11#5 => some Q
  | _ => none

abbrev width : Fmt → ℕ
  | S => 32
  | D => 64
  | H => 16
  | Q => 128

def signBit : (fmt : Fmt) → BitVec fmt.width
  | S => 0x80000000#32
  | D => 0x8000000000000000#64
  | H => 0x8000#16
  | Q => 0x80000000000000000000000000000000#128

def expBits : (fmt : Fmt) → BitVec fmt.width
  | S => 0x7F800000#32
  | D => 0x7FF0000000000000#64
  | H => 0x7C00#16
  | Q => 0x7FFF0000000000000000000000000000#128

def mantBits : (fmt : Fmt) → BitVec fmt.width
  | S => 0x007FFFFF#32
  | D => 0x000FFFFFFFFFFFFF#64
  | H => 0x03FF#16
  | Q => 0x0000FFFFFFFFFFFFFFFFFFFFFFFFFFFF#128

/-- the top bit of the mantissa, clear in a signaling NaN -/
def quietBit : (fmt : Fmt) → BitVec fmt.width
  | S => 0x00400000#32
  | D => 0x0008000000000000#64
  | H => 0x0200#16
  | Q => 0x00008000000000000000000000000000#128

/-- RISCV_CANONICAL_NAN -/
def canonicalNan : (fmt : Fmt) → BitVec fmt.width
  | S => 0x7FC00000#32
  | D => 0x7FF8000000000000#64
  | H => 0x7E00#16
  | Q => 0x7FFF8000000000000000000000000000#128

end Fmt

/-- the SoftFloat routines of one format; each returns the flags it raises -/
structure FloatOps (w : ℕ) where
  add : RoundingMode → BitVec w → BitVec w → BitVec w × Byte
  sub : RoundingMode → BitVec w → BitVec w → BitVec w × Byte
  mul : RoundingMode → BitVec w → BitVec w → BitVec w × Byte
  div : RoundingMode → BitVec w → BitVec w → BitVec w × Byte
  sqrt : RoundingMode → BitVec w → BitVec w × Byte
  mulAdd : RoundingMode → BitVec w → BitVec w → BitVec w → BitVec w × Byte
  eq : BitVec w → BitVec w → Bool × Byte
  lt : BitVec w → BitVec w → Bool × Byte
  le : BitVec w → BitVec w → Bool × Byte
  toI32 : RoundingMode → BitVec w → Word × Byte
  toUi32 : RoundingMode → BitVec w → Word × Byte
  toI64 : RoundingMode → BitVec w → BitVec 64 × Byte
  toUi64 : RoundingMode → BitVec w → BitVec 64 × Byte
  ofI32 : RoundingMode → Word → BitVec w × Byte
  ofUi32 : RoundingMode → Word → BitVec w × Byte
  ofI64 : RoundingMode → BitVec 64 → BitVec w × Byte
  ofUi64 : RoundingMode → BitVec 64 → BitVec w × Byte

class SoftFloat where
  ops : (fmt : Fmt) → FloatOps fmt.width
  convert : (sfmt dfmt : Fmt) → RoundingMode → BitVec sfmt.width → BitVec dfmt.width × Byte

/-- an instance for runs that execute no FP instruction -/
@[reducible] def noFloat : SoftFloat where
  ops _ :=
    { add := fun _ _ _ => (0, 0), sub := fun _ _ _ => (0, 0), mul := fun _ _ _ => (0, 0), div := fun _ _ _ => (0, 0)
      sqrt := fun _ _ => (0, 0), mulAdd := fun _ _ _ _ => (0, 0)
      eq := fun _ _ => (false, 0), lt := fun _ _ => (false, 0), le := fun _ _ => (false, 0)
      toI32 := fun _ _ => (0, 0), toUi32 := fun _ _ => (0, 0), toI64 := fun _ _ => (0, 0), toUi64 := fun _ _ => (0, 0)
      ofI32 := fun _ _ => (0, 0), ofUi32 := fun _ _ => (0, 0), ofI64 := fun _ _ => (0, 0)
      ofUi64 := fun _ _ => (0, 0) }
  convert _ _ _ _ := (0, 0)

/-! ## SoftFloat glue -/

/-- the invalid-operation flag -/
def fflagNV : Byte := 0b10000

def getRm (f : Fpu) (rm : BitVec 3) : BitVec 3 :=
  if rm = 0b111 then (f.fcsr >>> 5 &&& 0b111).setWidth 3 else rm

def sfRm (f : Fpu) (rm : BitVec 3) : RoundingMode :=
  match getRm f rm with
  | 0b000#3 => .nearEven
  | 0b001#3 => .minMag
  | 0b010#3 => .min
  | 0b011#3 => .max
  | 0b100#3 => .nearMaxMag
  | _ => .nearEven

def sfBegin (f : Fpu) (rm : BitVec 3) : Fpu := { f with roundingMode := sfRm f rm, exceptionFlags := 0 }

def sfEnd (f : Fpu) : Fpu := { f with fcsr := f.fcsr ||| f.exceptionFlags.setWidth 32 }

/-- softfloat_exceptionFlags |= flags -/
def sfRaise (f : Fpu) (flags : Byte) : Fpu := { f with exceptionFlags := f.exceptionFlags ||| flags }

/-- fcsr |= flags -/
def raiseFcsr (f : Fpu) (flags : Byte) : Fpu := { f with fcsr := f.fcsr ||| flags.setWidth 32 }

/-! ## The register file -/

/-- fpr_read_s, fpr_read_d, fpr_read_h, fpr_read_q -/
def fprRead (fmt : Fmt) (f : Fpu) (r : Reg) : BitVec fmt.width := (f.fpr r).setWidth fmt.width

/-- fpr_write_s, fpr_write_d, fpr_write_h, fpr_write_q: the lane above a narrow value is filled with ones -/
def fprWrite (fmt : Fmt) (f : Fpu) (r : Reg) (v : BitVec fmt.width) : Fpu :=
  { f with fpr := Function.update f.fpr r (BitVec.allOnes 128 <<< fmt.width ||| v.setWidth 128) }

/-! ## NaN, class and min-max helpers -/

section
variable {fmt : Fmt} (x : BitVec fmt.width)

def isNan : Bool := x &&& fmt.expBits = fmt.expBits && x &&& fmt.mantBits ≠ 0

def isSignalingNan : Bool := isNan x && x &&& fmt.quietBit = 0

def isInf : Bool := x &&& fmt.expBits = fmt.expBits && x &&& fmt.mantBits = 0

def isNegative : Bool := x &&& fmt.signBit ≠ 0

def fclass : Word :=
  if x &&& fmt.expBits = fmt.expBits then
    if x &&& fmt.mantBits = 0 then if isNegative x then 1#32 <<< 0 else 1#32 <<< 7
    else if x &&& fmt.quietBit ≠ 0 then 1#32 <<< 9
    else 1#32 <<< 8
  else if x &&& fmt.expBits = 0 then
    if x &&& fmt.mantBits = 0 then if isNegative x then 1#32 <<< 3 else 1#32 <<< 4
    else if isNegative x then 1#32 <<< 2 else 1#32 <<< 5
  else if isNegative x then 1#32 <<< 1 else 1#32 <<< 6

def normalizeNan : BitVec fmt.width := if isNan x then fmt.canonicalNan else x

end

section
variable [SoftFloat]

/-- rv_fmin and rv_fmax: `pick` is the operand a comparison that holds, or fails, selects -/
def rvFminmax {fmt : Fmt} (pick : Bool → BitVec fmt.width → BitVec fmt.width → BitVec fmt.width) (f : Fpu)
    (a b : BitVec fmt.width) : BitVec fmt.width × Fpu :=
  let f := if isSignalingNan a || isSignalingNan b then raiseFcsr f fflagNV else f
  if isNan a && isNan b then (fmt.canonicalNan, f)
  else if isNan a then (b, f)
  else if isNan b then (a, f)
  else
    let (eq, flags) := (SoftFloat.ops fmt).eq a b
    let f := sfRaise f flags
    if eq then (pick (isNegative a) a b, f)
    else
      let (lt, flags) := (SoftFloat.ops fmt).lt a b
      (pick lt a b, sfRaise f flags)

def rvFmin {fmt : Fmt} : Fpu → BitVec fmt.width → BitVec fmt.width → BitVec fmt.width × Fpu :=
  rvFminmax fun first a b => if first then a else b

def rvFmax {fmt : Fmt} : Fpu → BitVec fmt.width → BitVec fmt.width → BitVec fmt.width × Fpu :=
  rvFminmax fun first a b => if first then b else a

/-! ## The routines of one format -/

/-- s_add and its siblings, q_binop -/
def binop (fmt : Fmt) (fn : RoundingMode → BitVec fmt.width → BitVec fmt.width → BitVec fmt.width × Byte)
    (s : Machine) (rs2 rs1 : Reg) (rm : BitVec 3) (rd : Reg) : Machine :=
  let a := fprRead fmt s.fpu rs1
  let b := fprRead fmt s.fpu rs2
  let f := sfBegin s.fpu rm
  let (r, flags) := fn f.roundingMode a b
  let f := sfEnd (sfRaise f flags)
  { s with fpu := fprWrite fmt f rd (normalizeNan r) }

def sqrtOp (fmt : Fmt) (s : Machine) (rs1 : Reg) (rm : BitVec 3) (rd : Reg) : Machine :=
  let a := fprRead fmt s.fpu rs1
  let f := sfBegin s.fpu rm
  let (r, flags) := (SoftFloat.ops fmt).sqrt f.roundingMode a
  let f := sfEnd (sfRaise f flags)
  { s with fpu := fprWrite fmt f rd (normalizeNan r) }

def fsgnj (fmt : Fmt) (s : Machine) (rs2 rs1 : Reg) (op : BitVec 3) (rd : Reg) : Machine :=
  let a := fprRead fmt s.fpu rs1
  let b := fprRead fmt s.fpu rs2
  let sign :=
    if op = 0 then b &&& fmt.signBit
    else if op = 1 then (b ^^^ fmt.signBit) &&& fmt.signBit
    else (a ^^^ b) &&& fmt.signBit
  { s with fpu := fprWrite fmt s.fpu rd (a &&& ~~~fmt.signBit ||| sign) }

def minmaxOp (fmt : Fmt) (fn : Fpu → BitVec fmt.width → BitVec fmt.width → BitVec fmt.width × Fpu)
    (s : Machine) (rs2 rs1 rd : Reg) : Machine :=
  let (r, f) := fn s.fpu (fprRead fmt s.fpu rs1) (fprRead fmt s.fpu rs2)
  { s with fpu := fprWrite fmt f rd r }

def fclassOp (fmt : Fmt) (s : Machine) (rs1 rd : Reg) : Machine :=
  regWrite s rd (fclass (fprRead fmt s.fpu rs1))

def fcmp (fmt : Fmt) (s : Machine) (op : BitVec 3) (rs2 rs1 rd : Reg) : Machine :=
  let a := fprRead fmt s.fpu rs1
  let b := fprRead fmt s.fpu rs2
  let (r, f) :=
    if isNan a || isNan b then
      if op = 2 then (false, if isSignalingNan a || isSignalingNan b then raiseFcsr s.fpu fflagNV else s.fpu)
      else if op = 0 ∨ op = 1 then (false, raiseFcsr s.fpu fflagNV)
      else (false, s.fpu)
    else if op = 2 then
      let (r, flags) := (SoftFloat.ops fmt).eq a b
      (r, sfRaise s.fpu flags)
    else if op = 1 then
      let (r, flags) := (SoftFloat.ops fmt).lt a b
      (r, sfRaise s.fpu flags)
    else if op = 0 then
      let (r, flags) := (SoftFloat.ops fmt).le a b
      (r, sfRaise s.fpu flags)
    else (false, s.fpu)
  regWrite { s with fpu := f } rd (if r then 1 else 0)

def fma (fmt : Fmt) (s : Machine) (subop : BitVec 2) (rs3 rs2 rs1 : Reg) (rm : BitVec 3) (rd : Reg) : Machine :=
  let a := fprRead fmt s.fpu rs1
  let b := fprRead fmt s.fpu rs2
  let c := fprRead fmt s.fpu rs3
  let c := if subop &&& 1 ≠ 0 then c ^^^ fmt.signBit else c
  let a := if subop &&& 2 ≠ 0 then a ^^^ fmt.signBit else a
  let f := sfBegin s.fpu rm
  let (r, flags) := (SoftFloat.ops fmt).mulAdd f.roundingMode a b c
  let f := sfEnd (sfRaise f flags)
  { s with fpu := fprWrite fmt f rd (normalizeNan r) }

def sAdd := binop .S (SoftFloat.ops .S).add
def sSub := binop .S (SoftFloat.ops .S).sub
def sMul := binop .S (SoftFloat.ops .S).mul
def sDiv := binop .S (SoftFloat.ops .S).div
def sSqrt := sqrtOp .S
def sFsgnj := fsgnj .S
def sFmin := minmaxOp .S rvFmin
def sFmax := minmaxOp .S rvFmax
def sFclass := fclassOp .S
def sFcmp := fcmp .S
def sFma := fma .S

def hAdd := binop .H (SoftFloat.ops .H).add
def hSub := binop .H (SoftFloat.ops .H).sub
def hMul := binop .H (SoftFloat.ops .H).mul
def hDiv := binop .H (SoftFloat.ops .H).div
def hSqrt := sqrtOp .H
def hFsgnj := fsgnj .H
def hFmin := minmaxOp .H rvFmin
def hFmax := minmaxOp .H rvFmax
def hFclass := fclassOp .H
def hFcmp := fcmp .H
def hFma := fma .H

def dAdd := binop .D (SoftFloat.ops .D).add
def dSub := binop .D (SoftFloat.ops .D).sub
def dMul := binop .D (SoftFloat.ops .D).mul
def dDiv := binop .D (SoftFloat.ops .D).div
def dSqrt := sqrtOp .D
def dFsgnj := fsgnj .D
def dFmin := minmaxOp .D rvFmin
def dFmax := minmaxOp .D rvFmax
def dFclass := fclassOp .D
def dFcmp := fcmp .D
def dFma := fma .D

def qBinop := binop .Q
def qSqrt := sqrtOp .Q
def qFsgnj := fsgnj .Q
def qFmin := minmaxOp .Q rvFmin
def qFmax := minmaxOp .Q rvFmax
def qFclass := fclassOp .Q
def qFcmp := fcmp .Q
def qFma := fma .Q

end

/-! ## Load and store -/

/-- insf_flw, insf_fld, insf_flh read the value through the MMU and box it, whether or not the read faulted -/
def insfFlw (s : Machine) (imm : Word) (rs1 rd : Reg) : Machine :=
  let (val, s) := mmuRead32Unsigned s (regRead s rs1 + imm)
  { s with fpu := fprWrite .S s.fpu rd val }

def insfFld (s : Machine) (imm : Word) (rs1 rd : Reg) : Machine :=
  let (val, s) := mmuRead64Unsigned s (regRead s rs1 + imm)
  { s with fpu := fprWrite .D s.fpu rd val }

def insfFlh (s : Machine) (imm : Word) (rs1 rd : Reg) : Machine :=
  let (val, s) := mmuRead16Unsigned s (regRead s rs1 + imm)
  { s with fpu := fprWrite .H s.fpu rd (val.setWidth 16) }

/-- the second half is read also when the first read has trapped -/
def insfFlq (s : Machine) (imm : Word) (rs1 rd : Reg) : Machine :=
  let addr := regRead s rs1 + imm
  let (lo, s) := mmuRead64Unsigned s addr
  let (hi, s) := mmuRead64Unsigned s (addr + 8)
  { s with fpu := fprWrite .Q s.fpu rd (hi ++ lo) }

def insfFsw (s : Machine) (imm : Word) (rs1 rs2 : Reg) : Machine :=
  mmuWrite32 s (regRead s rs1 + imm) (fprRead .S s.fpu rs2)

def insfFsd (s : Machine) (imm : Word) (rs1 rs2 : Reg) : Machine :=
  mmuWrite64 s (regRead s rs1 + imm) (fprRead .D s.fpu rs2)

def insfFsh (s : Machine) (imm : Word) (rs1 rs2 : Reg) : Machine :=
  mmuWrite16 s (regRead s rs1 + imm) (fprRead .H s.fpu rs2)

def insfFsq (s : Machine) (imm : Word) (rs1 rs2 : Reg) : Machine :=
  let addr := regRead s rs1 + imm
  let v := fprRead .Q s.fpu rs2
  let s := mmuWrite64 s addr (v.setWidth 64)
  mmuWrite64 s (addr + 8) ((v >>> 64).setWidth 64)

/-! ## FCVT -/

section
variable [SoftFloat]

def fcvtIntSat (kind : BitVec 5) (sign : Bool) : Word :=
  if kind = 1 ∨ kind = 3 then if sign then 0 else 0xFFFFFFFF
  else if sign then 0x80000000 else 0x7FFFFFFF

def fcvtFpInt (fmt : Fmt) (s : Machine) (kind : BitVec 5) (rs1 : Reg) (rm : BitVec 3) : Word × Fpu :=
  let f := sfBegin s.fpu rm
  let a := fprRead fmt s.fpu rs1
  if isNan a || isInf a then
    (fcvtIntSat kind (if isNan a then false else isNegative a), sfEnd (sfRaise f fflagNV))
  else
    let mode := f.roundingMode
    let (r, flags) : Word × Byte :=
      if kind = 0 then (SoftFloat.ops fmt).toI32 mode a
      else if kind = 1 then (SoftFloat.ops fmt).toUi32 mode a
      else if kind = 2 then ((SoftFloat.ops fmt).toI64 mode a).map (·.setWidth 32) id
      else ((SoftFloat.ops fmt).toUi64 mode a).map (·.setWidth 32) id
    let f := sfRaise f flags
    (if f.exceptionFlags &&& fflagNV ≠ 0 then fcvtIntSat kind (isNegative a) else r, sfEnd f)

def fcvtIntFp (fmt : Fmt) (s : Machine) (kind : BitVec 5) (rs1 : Reg) (rm : BitVec 3) (rd : Reg) : Machine :=
  let v := regRead s rs1
  let f := sfBegin s.fpu rm
  let (r, flags) :=
    if kind = 0 then (SoftFloat.ops fmt).ofI32 f.roundingMode v
    else if kind = 1 then (SoftFloat.ops fmt).ofUi32 f.roundingMode v
    else if kind = 2 then (SoftFloat.ops fmt).ofI64 f.roundingMode (v.signExtend 64)
    else (SoftFloat.ops fmt).ofUi64 f.roundingMode (v.setWidth 64)
  { s with fpu := fprWrite fmt (sfEnd (sfRaise f flags)) rd r }

/-- a NaN result of a conversion to S, D or H keeps its sign -/
def fcvtNan {fmt : Fmt} (r : BitVec fmt.width) : BitVec fmt.width :=
  if isNan r then r &&& fmt.signBit ||| fmt.canonicalNan else r

/-- one conversion of fcvt_fp_fp to S, D or H -/
def fcvtNarrow (sfmt dfmt : Fmt) (s : Machine) (rs1 : Reg) (rm : BitVec 3) (rd : Reg) : Machine :=
  let a := fprRead sfmt s.fpu rs1
  let f := sfBegin s.fpu rm
  let (r, flags) := SoftFloat.convert sfmt dfmt f.roundingMode a
  { s with fpu := fprWrite dfmt (sfEnd (sfRaise f flags)) rd (fcvtNan r) }

/-- one conversion of fcvt_fp_fp to Q: neither sf_begin nor sf_end is called, and a NaN is left as it comes -/
def fcvtWiden (sfmt : Fmt) (s : Machine) (rs1 rd : Reg) : Machine :=
  let a := fprRead sfmt s.fpu rs1
  let (r, flags) := SoftFloat.convert sfmt .Q s.fpu.roundingMode a
  { s with fpu := fprWrite .Q (sfRaise s.fpu flags) rd r }

def fcvtFpFp (dfmt : Fmt) (s : Machine) (sfmt : BitVec 5) (rs1 : Reg) (rm : BitVec 3) (rd : Reg) :
    Except Fatal Machine :=
  match dfmt, Fmt.ofSource sfmt with
  | .S, some .H => .ok (fcvtNarrow .H .S s rs1 rm rd)
  | .S, some .D => .ok (fcvtNarrow .D .S s rs1 rm rd)
  | .S, some .Q => .ok (fcvtNarrow .Q .S s rs1 rm rd)
  | .S, _ => .error ⟨"fcvt S<-%u: unsupported", [sfmt.setWidth 32]⟩
  | .D, some .S => .ok (fcvtNarrow .S .D s rs1 rm rd)
  | .D, some .Q => .ok (fcvtNarrow .Q .D s rs1 rm rd)
  | .D, some .H => .ok (fcvtNarrow .H .D s rs1 rm rd)
  | .D, _ => .error ⟨"fcvt D<-%u: unsupported", [sfmt.setWidth 32]⟩
  | .Q, some .S => .ok (fcvtWiden .S s rs1 rd)
  | .Q, some .D => .ok (fcvtWiden .D s rs1 rd)
  | .Q, some .H => .ok (fcvtWiden .H s rs1 rd)
  | .Q, _ => .error ⟨"fcvt Q<-%u: unsupported", [sfmt.setWidth 32]⟩
  | .H, some .S => .ok (fcvtNarrow .S .H s rs1 rm rd)
  | .H, some .D => .ok (fcvtNarrow .D .H s rs1 rm rd)
  | .H, some .Q => .ok (fcvtNarrow .Q .H s rs1 rm rd)
  | .H, _ => .error ⟨"fcvt H<-%u: unsupported", [sfmt.setWidth 32]⟩

/-! ## Dispatchers -/

def doFadd (fmt : Fmt) (s : Machine) (rs2 rs1 : Reg) (rm : BitVec 3) (rd : Reg) : Machine :=
  match fmt with
  | .S => sAdd s rs2 rs1 rm rd
  | .H => hAdd s rs2 rs1 rm rd
  | .D => dAdd s rs2 rs1 rm rd
  | .Q => qBinop (SoftFloat.ops .Q).add s rs2 rs1 rm rd

def doFsub (fmt : Fmt) (s : Machine) (rs2 rs1 : Reg) (rm : BitVec 3) (rd : Reg) : Machine :=
  match fmt with
  | .S => sSub s rs2 rs1 rm rd
  | .H => hSub s rs2 rs1 rm rd
  | .D => dSub s rs2 rs1 rm rd
  | .Q => qBinop (SoftFloat.ops .Q).sub s rs2 rs1 rm rd

def doFmul (fmt : Fmt) (s : Machine) (rs2 rs1 : Reg) (rm : BitVec 3) (rd : Reg) : Machine :=
  match fmt with
  | .S => sMul s rs2 rs1 rm rd
  | .H => hMul s rs2 rs1 rm rd
  | .D => dMul s rs2 rs1 rm rd
  | .Q => qBinop (SoftFloat.ops .Q).mul s rs2 rs1 rm rd

def doFdiv (fmt : Fmt) (s : Machine) (rs2 rs1 : Reg) (rm : BitVec 3) (rd : Reg) : Machine :=
  match fmt with
  | .S => sDiv s rs2 rs1 rm rd
  | .H => hDiv s rs2 rs1 rm rd
  | .D => dDiv s rs2 rs1 rm rd
  | .Q => qBinop (SoftFloat.ops .Q).div s rs2 rs1 rm rd

def doFsqrt (fmt : Fmt) (s : Machine) (rs1 : Reg) (rm : BitVec 3) (rd : Reg) : Machine :=
  match fmt with
  | .S => sSqrt s rs1 rm rd
  | .H => hSqrt s rs1 rm rd
  | .D => dSqrt s rs1 rm rd
  | .Q => qSqrt s rs1 rm rd

def doFsgnj (fmt : Fmt) (s : Machine) (rs2 rs1 : Reg) (op : BitVec 3) (rd : Reg) : Machine :=
  match fmt with
  | .S => sFsgnj s rs2 rs1 op rd
  | .H => hFsgnj s rs2 rs1 op rd
  | .D => dFsgnj s rs2 rs1 op rd
  | .Q => qFsgnj s rs2 rs1 op rd

def doFminmax (fmt : Fmt) (s : Machine) (rs2 rs1 : Reg) (op : BitVec 3) (rd : Reg) : Machine :=
  match fmt with
  | .S => if op = 0 then sFmin s rs2 rs1 rd else sFmax s rs2 rs1 rd
  | .H => if op = 0 then hFmin s rs2 rs1 rd else hFmax s rs2 rs1 rd
  | .D => if op = 0 then dFmin s rs2 rs1 rd else dFmax s rs2 rs1 rd
  | .Q => if op = 0 then qFmin s rs2 rs1 rd else qFmax s rs2 rs1 rd

def doFcmp (fmt : Fmt) (s : Machine) (rs2 rs1 : Reg) (op : BitVec 3) (rd : Reg) : Machine :=
  match fmt with
  | .S => sFcmp s op rs2 rs1 rd
  | .H => hFcmp s op rs2 rs1 rd
  | .D => dFcmp s op rs2 rs1 rd
  | .Q => qFcmp s op rs2 rs1 rd

def doFclass (fmt : Fmt) (s : Machine) (rs1 rd : Reg) : Machine :=
  match fmt with
  | .S => sFclass s rs1 rd
  | .H => hFclass s rs1 rd
  | .D => dFclass s rs1 rd
  | .Q => qFclass s rs1 rd

/-- the value fmv.x copies to a general register: the low word, sign-extended from a half -/
def fmvX (fmt : Fmt) (s : Machine) (rs1 : Reg) : Word :=
  match fmt with
  | .S => fprRead .S s.fpu rs1
  | .H => (fprRead .H s.fpu rs1).signExtend 32
  | .D => (fprRead .D s.fpu rs1).setWidth 32
  | .Q => (fprRead .Q s.fpu rs1).setWidth 32

def insfRFma (s : Machine) (ins : Word) (subop : BitVec 2) : Machine :=
  let fmt := Fmt.ofField (ins.extractLsb' 25 2)
  let rs3 := ins.extractLsb' 27 5
  let rs2 := ins.extractLsb' 20 5
  let rs1 := ins.extractLsb' 15 5
  let rm := ins.extractLsb' 12 3
  let rd := ins.extractLsb' 7 5
  match fmt with
  | .S => sFma s subop rs3 rs2 rs1 rm rd
  | .H => hFma s subop rs3 rs2 rs1 rm rd
  | .D => dFma s subop rs3 rs2 rs1 rm rd
  | .Q => qFma s subop rs3 rs2 rs1 rm rd

def insfRFpop (s : Machine) (ins : Word) : Except Fatal Machine :=
  let op := ins.extractLsb' 27 5
  let fmt := Fmt.ofField (ins.extractLsb' 25 2)
  let rs2 := ins.extractLsb' 20 5
  let rs1 := ins.extractLsb' 15 5
  let f3 := ins.extractLsb' 12 3
  let rd := ins.extractLsb' 7 5
  match op with
  | 0#5 => .ok (doFadd fmt s rs2 rs1 f3 rd)
  | 1#5 => .ok (doFsub fmt s rs2 rs1 f3 rd)
  | 2#5 => .ok (doFmul fmt s rs2 rs1 f3 rd)
  | 3#5 => .ok (doFdiv fmt s rs2 rs1 f3 rd)
  | 4#5 => .ok (doFsgnj fmt s rs2 rs1 f3 rd)
  | 5#5 => .ok (doFminmax fmt s rs2 rs1 f3 rd)
  | 11#5 => .ok (doFsqrt fmt s rs1 f3 rd)
  | 20#5 => .ok (doFcmp fmt s rs2 rs1 f3 rd)
  | 28#5 =>
    if f3 = 0 then .ok (regWrite s rd (fmvX fmt s rs1))
    else if f3 = 1 then .ok (doFclass fmt s rs1 rd)
    else .error ⟨"FP-OP op=28: invalid funct3=%u", [f3.setWidth 32]⟩
  | 30#5 =>
    if f3 ≠ 0 ∨ rs2 ≠ 0 then .error ⟨"fmv.*.x: invalid f3=%u rs2=%u", [f3.setWidth 32, rs2.setWidth 32]⟩
    else .ok { s with fpu := fprWrite fmt s.fpu rd ((regRead s rs1).setWidth fmt.width) }
  | 24#5 =>
    let (r, f) := fcvtFpInt fmt s rs2 rs1 f3
    .ok (regWrite { s with fpu := f } rd r)
  | 26#5 => .ok (fcvtIntFp fmt s rs2 rs1 f3 rd)
  | 8#5 => fcvtFpFp fmt s rs2 rs1 f3 rd
  | op => .error ⟨"unsupported FP-OP op=%u ins=0x%08x", [op.setWidth 32, ins]⟩

end

/-! ## What an FP operation changes -/

/-- s' is s but for the two register files and the FP state -/
def RegStep (s s' : Machine) : Prop := ∃ gpr fpu, s' = { s with gpr := gpr, fpu := fpu }

section
variable [SoftFloat]

theorem insfRFma_frame (s : Machine) (ins : Word) (subop : BitVec 2) : RegStep s (insfRFma s ins subop) := by
  unfold insfRFma
  cases Fmt.ofField (ins.extractLsb' 25 2) <;> exact ⟨_, _, rfl⟩

theorem fcvtFpFp_frame {dfmt : Fmt} {s s' : Machine} {sfmt : BitVec 5} {rs1 : Reg} {rm : BitVec 3} {rd : Reg}
    (h : fcvtFpFp dfmt s sfmt rs1 rm rd = .ok s') : RegStep s s' := by
  unfold fcvtFpFp at h
  split at h <;> cases h <;> exact ⟨_, _, rfl⟩

theorem insfRFpop_frame {s s' : Machine} {ins : Word} (h : insfRFpop s ins = .ok s') : RegStep s s' := by
  unfold insfRFpop at h
  generalize Fmt.ofField (ins.extractLsb' 25 2) = fmt at h
  simp only at h
  split at h
  · cases fmt <;> cases h <;> exact ⟨_, _, rfl⟩
  · cases fmt <;> cases h <;> exact ⟨_, _, rfl⟩
  · cases fmt <;> cases h <;> exact ⟨_, _, rfl⟩
  · cases fmt <;> cases h <;> exact ⟨_, _, rfl⟩
  · cases fmt <;> cases h <;> exact ⟨_, _, rfl⟩
  · unfold doFminmax at h
    cases fmt <;> split_ifs at h <;> cases h <;> exact ⟨_, _, rfl⟩
  · cases fmt <;> cases h <;> exact ⟨_, _, rfl⟩
  · cases fmt <;> cases h <;> exact ⟨_, _, rfl⟩
  · split_ifs at h
    · cases h; exact ⟨_, _, rfl⟩
    · cases fmt <;> cases h <;> exact ⟨_, _, rfl⟩
  · split_ifs at h
    cases h; exact ⟨_, _, rfl⟩
  · cases h; exact ⟨_, _, rfl⟩
  · cases h; exact ⟨_, _, rfl⟩
  · exact fcvtFpFp_frame h
  · cases h

end

end RiscvEmu
