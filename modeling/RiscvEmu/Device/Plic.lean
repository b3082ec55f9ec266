/-
device/plic.c: the interrupt controller. Context 0 is machine mode, context 1 supervisor mode; sources are 1..PLIC_NDEV.
-/
import Mathlib.Logic.Function.Basic
import RiscvEmu.Basic

namespace RiscvEmu

def plicBase : Word := 0x0C000000
def plicSize : Word := 0x04000000
def plicNdev : ℕ := 10
def plicPriorityEnd : Word := 44
def plicPendingBase : Word := 0x001000
def plicEnableBase : Word := 0x002000
def plicEnableStride : ℕ := 0x80
def plicContextBase : Word := 0x200000
def plicContextStride : ℕ := 0x1000
def plicClaimOff : ℕ := 4
def plicNctx : ℕ := 2

structure Plic where
  priority : ℕ → Word
  /-- live level-sensitive device lines, bit i for source i -/
  pending : Word
  enable : ℕ → Word
  threshold : ℕ → Word
  claimed : ℕ → ℕ → Bool

def plicInit : Plic := ⟨fun _ => 0, 0, fun _ => 0, fun _ => 0, fun _ _ => false⟩

/-- one round of the loop of plic_best_source: (best, best_pri) after source id -/
def plicBestStep (p : Plic) (ctx : ℕ) (b : ℕ × Word) (id : ℕ) : ℕ × Word :=
  if p.pending &&& (1#32 <<< id) = 0 then b
  else if p.claimed ctx id then b
  else if p.enable ctx &&& (1#32 <<< id) = 0 then b
  else if p.priority id ≤ p.threshold ctx then b
  else if p.priority id ≥ b.2 then (id, p.priority id)
  else b

def plicBestSource (p : Plic) (ctx : ℕ) : ℕ :=
  ((List.range' 1 plicNdev).foldl (plicBestStep p ctx) (0, 0)).1

def plicRead32 (p : Plic) (off : Word) : Word × Plic :=
  if off ≥ 4 ∧ off < plicPriorityEnd then
    let id := off.toNat / 4
    (if 1 ≤ id ∧ id ≤ plicNdev then p.priority id else 0, p)
  else if off ≥ plicPendingBase ∧ off < plicPendingBase + 4 then (p.pending, p)
  else if off ≥ plicEnableBase ∧ off.toNat < plicEnableBase.toNat + plicEnableStride * plicNctx then
    let ctx := (off - plicEnableBase).toNat / plicEnableStride
    let word := (off - plicEnableBase).toNat % plicEnableStride / 4
    (if word = 0 then p.enable ctx else 0, p)
  else if off ≥ plicContextBase ∧ off.toNat < plicContextBase.toNat + plicContextStride * plicNctx then
    let ctx := (off - plicContextBase).toNat / plicContextStride
    let sub := (off - plicContextBase).toNat % plicContextStride
    if sub = 0 then (p.threshold ctx, p)
    else if sub = plicClaimOff then
      let id := plicBestSource p ctx
      if 1 ≤ id ∧ id ≤ plicNdev then
        (BitVec.ofNat 32 id, { p with claimed := Function.update p.claimed ctx (Function.update (p.claimed ctx) id true) })
      else (0, p)
    else (0, p)
  else (0, p)

def plicWrite32 (p : Plic) (off val : Word) : Plic :=
  if off ≥ 4 ∧ off < plicPriorityEnd then
    let id := off.toNat / 4
    if 1 ≤ id ∧ id ≤ plicNdev then { p with priority := Function.update p.priority id (val &&& 7) } else p
  else if off ≥ plicEnableBase ∧ off.toNat < plicEnableBase.toNat + plicEnableStride * plicNctx then
    let ctx := (off - plicEnableBase).toNat / plicEnableStride
    let word := (off - plicEnableBase).toNat % plicEnableStride / 4
    if word = 0 then { p with enable := Function.update p.enable ctx val } else p
  else if off ≥ plicContextBase ∧ off.toNat < plicContextBase.toNat + plicContextStride * plicNctx then
    let ctx := (off - plicContextBase).toNat / plicContextStride
    let sub := (off - plicContextBase).toNat % plicContextStride
    if sub = 0 then { p with threshold := Function.update p.threshold ctx (val &&& 7) }
    else if sub = plicClaimOff then
      let id := (val &&& 0x1F).toNat
      if 1 ≤ id ∧ id ≤ plicNdev then
        { p with claimed := Function.update p.claimed ctx (Function.update (p.claimed ctx) id false) }
      else p
    else p
  else p

def plicSetIrq (p : Plic) (id : ℕ) (level : Bool) : Plic :=
  if id < 1 ∨ id > plicNdev then p
  else if level then { p with pending := p.pending ||| (1#32 <<< id) }
  else { p with pending := p.pending &&& ~~~(1#32 <<< id) }

def plicExternalPending (p : Plic) : ℕ := plicBestSource p 0
def plicExternalPendingS (p : Plic) : ℕ := plicBestSource p 1

end RiscvEmu
