/-
c_extension.c: the 16-bit instructions.

exec_c_insn moves pc itself: back by 2 after a sequential instruction, 4 below the target after a jump, so that the main
loop's += 4 lands right. The forms that access memory learn of a trap by comparing pc before and after.
-/
import RiscvEmu.BasicInstructions
import RiscvEmu.FExtension

namespace RiscvEmu

/-! ## Immediates -/

/-- (c >> k) & mask as an unsigned word -/
def cField (c : BitVec 16) (k : ℕ) (mask : Word) : Word := (c >>> k).setWidth 32 &&& mask

def sext6 (v : Word) : Word :=
  let v := v &&& 0x3F
  if v ≥ 0x20 then v - 0x40 else v

def sext10 (v : Word) : Word :=
  let v := v &&& 0x3FF
  if v ≥ 0x200 then v - 0x400 else v

section
variable (c : BitVec 16)

def cAddi4spnImm : Word :=
  cField c 11 0x3 <<< 4 ||| cField c 7 0xF <<< 6 ||| cField c 6 0x1 <<< 2 ||| cField c 5 0x1 <<< 3

def cLsUimm : Word := cField c 5 0x1 <<< 6 ||| cField c 10 0x7 <<< 3 ||| cField c 6 0x1 <<< 2

def cLwspUimm : Word := cField c 2 0x3 <<< 6 ||| cField c 12 0x1 <<< 5 ||| cField c 4 0x7 <<< 2

def cSwspUimm : Word := cField c 7 0x3 <<< 6 ||| cField c 9 0xF <<< 2

def cAddi16spImm : Word :=
  sext10 (cField c 12 0x1 <<< 9 ||| cField c 4 0x1 <<< 8 ||| cField c 3 0x1 <<< 7 ||| cField c 5 0x1 <<< 6
    ||| cField c 2 0x1 <<< 5 ||| cField c 6 0x1 <<< 4)

def cJalOffset : Word :=
  let imm := cField c 12 0x1 <<< 11 ||| cField c 11 0x1 <<< 4 ||| cField c 9 0x3 <<< 8 ||| cField c 8 0x1 <<< 10
    ||| cField c 7 0x1 <<< 6 ||| cField c 6 0x1 <<< 7 ||| cField c 2 0x1 <<< 5 ||| cField c 3 0x7 <<< 1
  if imm &&& 0x800 ≠ 0 then imm - 0x1000 else imm

def cBranchOffset : Word :=
  let imm := cField c 12 0x1 <<< 8 ||| cField c 6 0x1 <<< 7 ||| cField c 5 0x1 <<< 6 ||| cField c 2 0x1 <<< 5
    ||| cField c 11 0x1 <<< 4 ||| cField c 10 0x1 <<< 3 ||| cField c 4 0x1 <<< 2 ||| cField c 3 0x1 <<< 1
  if imm &&& 0x100 ≠ 0 then imm - 0x200 else imm

def cLuiImm : Word := sext6 (cField c 12 0x1 <<< 5 ||| cField c 2 0x1F) <<< 12

def cImm6 : Word := sext6 (cField c 12 0x1 <<< 5 ||| cField c 2 0x1F)

def cShamt : Word := cField c 12 0x1 <<< 5 ||| cField c 2 0x1F

/-! ## Registers -/

/-- the register field at bit 7 -/
def cRd : Reg := c.extractLsb' 7 5

/-- the register field at bit 2 -/
def cRs2 : Reg := c.extractLsb' 2 5

/-- 8 + the three-bit field at bit 7 -/
def cRs1p : Reg := 8 + (c.extractLsb' 7 3).setWidth 5

/-- 8 + the three-bit field at bit 2 -/
def cRs2p : Reg := 8 + (c.extractLsb' 2 3).setWidth 5

end

/-! ## exec_c_insn -/

/-- g_state.pc -= 2; return 0; the flag returned says that a trap was raised -/
def cNext (s : Machine) : Machine × Bool := ({ s with pc := s.pc - 2 }, false)

/-- raise_illegal(c); return 1 -/
def cIllegal (s : Machine) (c : BitVec 16) : Machine × Bool := (raiseIllegal s (c.setWidth 32), true)

/-- a load or store: a pc that has not moved is taken to mean that there was no trap -/
def cAccess (s : Machine) (f : Machine → Machine) : Machine × Bool :=
  let saved := s.pc
  let s := f s
  let s := if s.pc = saved then { s with pc := s.pc - 2 } else s
  (s, s.pc ≠ saved)

def execQuadrant0 (s : Machine) (c : BitVec 16) : Machine × Bool :=
  let rs1p := cRs1p c
  let rdp := cRs2p c
  let rs2p := cRs2p c
  match c.extractLsb' 13 3 with
  | 0#3 =>
    let nzuimm := cAddi4spnImm c
    if nzuimm = 0 then cIllegal s c else cNext (regWrite s rdp (regRead s 2 + nzuimm))
  | 1#3 => cAccess s fun s => insfFld s (cLsUimm c) rs1p rdp
  | 3#3 => cAccess s fun s => insfFlw s (cLsUimm c) rs1p rdp
  | 2#3 => cAccess s fun s => insiILw s (cLsUimm c) rs1p rdp
  | 6#3 => cAccess s fun s => insiSSw s (cLsUimm c) rs2p rs1p
  | 5#3 => cAccess s fun s => insfFsd s (cLsUimm c) rs1p rs2p
  | 7#3 => cAccess s fun s => insfFsw s (cLsUimm c) rs1p rs2p
  | _ => cIllegal s c

def execQuadrant1 (s : Machine) (c : BitVec 16) : Machine × Bool :=
  let rd := cRd c
  match c.extractLsb' 13 3 with
  | 0#3 => cNext (regWrite s rd (regRead s rd + cImm6 c))
  | 1#3 =>
    let s := regWrite s 1 (s.pc + 2)
    (pcBackward { s with pc := s.pc + cJalOffset c }, false)
  | 2#3 => cNext (regWrite s rd (cImm6 c))
  | 3#3 =>
    if rd = 2 then cNext (regWrite s 2 (regRead s 2 + cAddi16spImm c))
    else if rd ≠ 0 then cNext (regWrite s rd (cLuiImm c))
    else cIllegal s c
  | 4#3 =>
    let funct2 := c.extractLsb' 10 2
    let rdp := cRs1p c
    let rs2p := cRs2p c
    if funct2 ≤ 1 then
      let shamt := cShamt c
      let val := regRead s rdp
      if shamt = 0 then cIllegal s c
      else if funct2 = 0 then cNext (regWrite s rdp (val >>> (shamt &&& 0x1F).toNat))
      else cNext (regWrite s rdp (val.sshiftRight (shamt &&& 0x1F).toNat))
    else if funct2 = 2 then cNext (regWrite s rdp (regRead s rdp &&& cImm6 c))
    else
      let alu := c.extractLsb' 5 2
      let rs1v := regRead s rdp
      let rs2v := regRead s rs2p
      if alu = 0 then cNext (regWrite s rdp (rs1v - rs2v))
      else if alu = 1 then cNext (regWrite s rdp (rs1v ^^^ rs2v))
      else if alu = 2 then cNext (regWrite s rdp (rs1v ||| rs2v))
      else cNext (regWrite s rdp (rs1v &&& rs2v))
  | 5#3 => (pcBackward { s with pc := s.pc + cJalOffset c }, false)
  | f3 => -- 6 and 7, c.beqz and c.bnez
    let v := regRead s (cRs1p c)
    let off := cBranchOffset c
    if f3 = 6 ∧ v = 0 ∨ f3 = 7 ∧ v ≠ 0 then (pcBackward { s with pc := s.pc + off }, false) else cNext s

def execQuadrant2 (s : Machine) (c : BitVec 16) : Machine × Bool :=
  let rd := cRd c
  match c.extractLsb' 13 3 with
  | 0#3 =>
    let shamt := cShamt c
    if shamt = 0 then cIllegal s c else cNext (regWrite s rd (regRead s rd <<< (shamt &&& 0x1F).toNat))
  | 2#3 => if rd = 0 then cIllegal s c else cAccess s fun s => insiILw s (cLwspUimm c) 2 rd
  | 4#3 =>
    let rs1 := cRd c
    let rs2 := cRs2 c
    if c.extractLsb' 12 1 = 0 then
      if rs2 = 0 then
        if rs1 = 0 then cNext s
        else
          match raiseIfMisalignedFetch s (regRead s rs1) with
          | some s => (s, true)
          | none => (pcBackward { s with pc := regRead s rs1 }, false)
      else cNext (regWrite s rs1 (regRead s rs2))
    else if rs1 = 0 then (raiseException s causeBreakpoint 0, true)
    else if rs2 = 0 then
      match raiseIfMisalignedFetch s (regRead s rs1) with
      | some s => (s, true)
      | none =>
        -- the link is written before rs1 is read again
        let s := regWrite s 1 (s.pc + 2)
        (pcBackward { s with pc := regRead s rs1 }, false)
    else cNext (regWrite s rs1 (regRead s rs1 + regRead s rs2))
  | 6#3 => cAccess s fun s => insiSSw s (cSwspUimm c) (cRs2 c) 2
  | _ => cIllegal s c

def execCInsn (s : Machine) (c : BitVec 16) : Machine × Bool :=
  let q := c.extractLsb' 0 2
  if q = 0 then execQuadrant0 s c
  else if q = 1 then execQuadrant1 s c
  else execQuadrant2 s c

end RiscvEmu
