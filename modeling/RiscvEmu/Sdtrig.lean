/-
sdtrig_extension.c: matching of the debug triggers against fetches, loads and stores.
-/
import RiscvEmu.System

namespace RiscvEmu

def sdtrigTypeMatch : Word := 2
def sdtrigActionMask : Word := 0x3F#32 <<< 12
def sdtrigChain : Word := 1#32 <<< 11
def sdtrigMatchMask : Word := 0x0F#32 <<< 7
def sdtrigModeM : Word := 1#32 <<< 6
def sdtrigModeS : Word := 1#32 <<< 4
def sdtrigModeU : Word := 1#32 <<< 3
def sdtrigTcontrolMte : Word := 0x8

/-- SDTRIG_LOAD, SDTRIG_STORE and SDTRIG_EXECUTE: an access type, and the bit of tdata1 that enables it -/
def sdtrigLoad : Word := 1#32 <<< 0
def sdtrigStore : Word := 1#32 <<< 1
def sdtrigExecute : Word := 1#32 <<< 2

/-- the test of the current mode's enable bits -/
def triggerModeEnabled (s : Machine) (tdata1 : Word) : Bool :=
  if s.privilege = prvMachine then tdata1 &&& sdtrigModeM ≠ 0 ∧ s.trig.tcontrol &&& sdtrigTcontrolMte ≠ 0
  else if s.privilege = prvSupervisor then tdata1 &&& sdtrigModeS ≠ 0
  else if s.privilege = prvUser then tdata1 &&& sdtrigModeU ≠ 0
  else false

def triggerMatches (s : Machine) (i : ℕ) (addr accessType : Word) : Bool :=
  let tdata1 := (s.trig.slots i).tdata1
  tdata1 >>> 28 &&& 0xF = sdtrigTypeMatch ∧ (tdata1 &&& sdtrigActionMask) >>> 12 = 0 ∧ tdata1 &&& sdtrigChain = 0
    ∧ tdata1 &&& accessType ≠ 0 ∧ triggerModeEnabled s tdata1 ∧ tdata1 &&& sdtrigMatchMask = 0
    ∧ (s.trig.slots i).tdata2 = addr

/-- whether the loop of sdtrig_check finds a match -/
def triggerFires (s : Machine) (addr accessType : Word) : Bool :=
  (List.range sdtrigNumTriggers).any fun i => triggerMatches s i addr accessType

/-- the state after the breakpoint trap if a trigger fires -/
def sdtrigCheck (s : Machine) (addr accessType : Word) : Option Machine :=
  if triggerFires s addr accessType then some (raiseException s causeBreakpoint addr) else none

def sdtrigCheckFetchTrigger (s : Machine) (pc : Word) : Option Machine := sdtrigCheck s pc sdtrigExecute
def sdtrigCheckLoadTrigger (s : Machine) (addr : Word) : Option Machine := sdtrigCheck s addr sdtrigLoad
def sdtrigCheckStoreTrigger (s : Machine) (addr : Word) : Option Machine := sdtrigCheck s addr sdtrigStore

end RiscvEmu
