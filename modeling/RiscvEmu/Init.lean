/-
The state in which the main loop starts: init_mem, init_csr_table and the assignments of main before the loop.
-/
import RiscvEmu.Csr

namespace RiscvEmu

/-- gpr and mainMemory are what the loader left (the boot arguments in a0 and a1, the images) -/
def machineInit (gpr : Reg → Word) (mainMemory : Word → Byte) (programBase : Word) : Machine where
  gpr := gpr
  pc := programBase
  mainMemory := mainMemory
  terminated := false
  mmuFlags := Hashmap.init
  privilege := prvMachine
  justTrapped := false
  csr := fun i => (csrTable i).value
  trig := ⟨fun _ => ⟨0, 0⟩, 0, 0⟩
  fpu := ⟨fun _ => 0, 0, .nearEven, 0⟩
  cycle := 0
  instret := 0
  instretSuppressNext := false
  gPrevInsPc := 0
  dev := uartInit ⟨clintInit, plicInit, ⟨fun _ => 0, 0, 0, 0, 0, 0, 0, false, false, 0, []⟩⟩
  traps := []

/-- a machine below M-mode with SV32 on and an all-zero page table at physical 0: every translation faults -/
def pagedMachine (privilege : Priv) (gpr : Reg → Word) : Machine :=
  { machineInit gpr (fun _ => 0) 0 with
    privilege := privilege
    csr := Function.update (fun i => (csrTable i).value) csrSatp 0x80000000 }

end RiscvEmu
