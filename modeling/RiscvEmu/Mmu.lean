/-
mmu.h: SV32 translation and the virtual accesses built on it.

`mmuWalk` is mmu_translate up to its label `fault`, and answers none where the source jumps there. The walk reads page
tables through mem_read32_unsigned, so it may touch a device. `mmuTranslate` adds the page fault.
-/
import RiscvEmu.Mem
import RiscvEmu.Sdtrig

namespace RiscvEmu

def satp32ModeBit : Word := 0x80000000
def satp32PpnMask : Word := 0x003FFFFF
def pteV : Word := 0x001
def pteR : Word := 0x002
def pteW : Word := 0x004
def pteX : Word := 0x008
def pteU : Word := 0x010
def pteA : Word := 0x040
def pteD : Word := 0x080
def ptePpnShift : ℕ := 10
def pgshift : ℕ := 12

inductive MmuAccess where
  | fetch
  | load
  | store
deriving DecidableEq, Repr

def mmuSatpMode (s : Machine) : Word := if csrRead s csrSatp &&& satp32ModeBit ≠ 0 then 1 else 0

def mmuEffectiveDpriv (s : Machine) : Priv :=
  let mstatus := csrRead s csrMstatus
  if mstatus &&& mstatusMprv ≠ 0 then ((mstatus &&& mstatusMppMask) >>> mstatusMppShift).setWidth 2
  else s.privilege

def mmuVmActive (s : Machine) (epriv : Priv) : Bool :=
  if epriv = prvMachine then false else mmuSatpMode s ≠ 0

def mmuSatpRootPpn (s : Machine) : Word := csrRead s csrSatp &&& satp32PpnMask

/-- the access part of mmu_check_pte -/
def pteAllowsAccess (s : Machine) (pte : Word) (access : MmuAccess) : Bool :=
  match access with
  | .store => pte &&& pteW ≠ 0 ∧ pte &&& pteD ≠ 0
  | .fetch => pte &&& pteX ≠ 0
  | .load => pte &&& pteR ≠ 0 ∨ pte &&& pteX ≠ 0 ∧ csrRead s csrMstatus &&& mstatusMxr ≠ 0

/-- the privilege part of mmu_check_pte -/
def pteAllowsPriv (s : Machine) (pte : Word) (epriv : Priv) : Bool :=
  if epriv = prvSupervisor then pte &&& pteU = 0 ∨ csrRead s csrMstatus &&& mstatusSum ≠ 0
  else if epriv = prvUser then pte &&& pteU ≠ 0
  else true

def mmuCheckPte (s : Machine) (pte : Word) (epriv : Priv) (access : MmuAccess) : Bool :=
  if epriv = prvMachine then true
  else pte &&& pteA ≠ 0 ∧ pteAllowsAccess s pte access ∧ pteAllowsPriv s pte epriv

def effectivePriv (s : Machine) (access : MmuAccess) : Priv :=
  if access = .fetch then s.privilege else mmuEffectiveDpriv s

def mmuWalk (s : Machine) (vaddr : Word) (access : MmuAccess) : Option Word × Devices :=
  let epriv := effectivePriv s access
  if ¬ mmuVmActive s epriv then (some vaddr, s.dev)
  else
    let root := mmuSatpRootPpn s <<< pgshift
    let vpn1 := vaddr >>> 22 &&& 0x3FF
    let vpn0 := vaddr >>> 12 &&& 0x3FF
    let (pte1, d1) := memRead32Unsigned s (root + vpn1 * 4)
    if pte1 &&& pteV = 0 then (none, d1)
    else if pte1 &&& (pteR ||| pteW ||| pteX) ≠ 0 then
      if pte1 >>> ptePpnShift &&& 0x3FF ≠ 0 then (none, d1)
      else if mmuCheckPte s pte1 epriv access then
        (some ((pte1 >>> ptePpnShift) <<< pgshift ||| vaddr &&& 0x3FFFFF), d1)
      else (none, d1)
    else
      let level2Base := (pte1 >>> ptePpnShift) <<< pgshift
      let (pte2, d2) := memRead32Unsigned { s with dev := d1 } (level2Base + vpn0 * 4)
      if pte2 &&& pteV = 0 then (none, d2)
      else if pte2 &&& (pteR ||| pteW ||| pteX) = 0 then (none, d2)
      else if mmuCheckPte s pte2 epriv access then
        (some ((pte2 >>> ptePpnShift) <<< pgshift ||| vaddr &&& 0xFFF), d2)
      else (none, d2)

def pageFaultCause : MmuAccess → Word
  | .fetch => causeFetchPageFault
  | .store => causeStorePageFault
  | .load => causeLoadPageFault

def mmuTranslate (s : Machine) (vaddr : Word) (access : MmuAccess) : Option Word × Machine :=
  match mmuWalk s vaddr access with
  | (some pa, d) => (some pa, { s with dev := d })
  | (none, d) => (none, raiseException { s with dev := d } (pageFaultCause access) vaddr)

/-! ## Virtual accesses -/

/-- translate, then read: 0 after a page fault -/
def mmuRead {α : Type} [Zero α] (read : Machine → Word → α × Devices) (s : Machine) (vaddr : Word) : α × Machine :=
  match mmuTranslate s vaddr .load with
  | (none, s) => (0, s)
  | (some pa, s) => let (v, d) := read s pa; (v, { s with dev := d })

/-- translate, then write: nothing after a page fault -/
def mmuWrite {α : Type} (write : Machine → Word → α → Machine) (s : Machine) (vaddr : Word) (val : α) : Machine :=
  match mmuTranslate s vaddr .store with
  | (none, s) => s
  | (some pa, s) => write s pa val

/-- the word fetched, or none after a fetch page fault -/
def mmuFetchOk (s : Machine) (vaddr : Word) : Option Word × Machine :=
  match mmuTranslate s vaddr .fetch with
  | (none, s) => (none, s)
  | (some pa, s) => let (v, d) := memRead32Unsigned s pa; (some v, { s with dev := d })

def mmuRead8Unsigned (s : Machine) (vaddr : Word) : Word × Machine := mmuRead memRead8Unsigned s vaddr
def mmuRead8Signed (s : Machine) (vaddr : Word) : Word × Machine := mmuRead memRead8Signed s vaddr
def mmuRead16Unsigned (s : Machine) (vaddr : Word) : Word × Machine := mmuRead memRead16Unsigned s vaddr
def mmuRead16Signed (s : Machine) (vaddr : Word) : Word × Machine := mmuRead memRead16Signed s vaddr
def mmuRead32Unsigned (s : Machine) (vaddr : Word) : Word × Machine := mmuRead memRead32Unsigned s vaddr
def mmuRead32Signed (s : Machine) (vaddr : Word) : Word × Machine := mmuRead memRead32Signed s vaddr
def mmuRead64Unsigned (s : Machine) (vaddr : Word) : BitVec 64 × Machine := mmuRead memRead64Unsigned s vaddr
def mmuWrite8 (s : Machine) (vaddr : Word) (val : Byte) : Machine := mmuWrite memWrite8 s vaddr val
def mmuWrite16 (s : Machine) (vaddr : Word) (val : BitVec 16) : Machine := mmuWrite memWrite16 s vaddr val
def mmuWrite32 (s : Machine) (vaddr : Word) (val : Word) : Machine := mmuWrite memWrite32 s vaddr val
def mmuWrite64 (s : Machine) (vaddr : Word) (val : BitVec 64) : Machine := mmuWrite memWrite64 s vaddr val

end RiscvEmu
