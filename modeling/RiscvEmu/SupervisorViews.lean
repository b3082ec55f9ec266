/-
The supervisor views of the machine CSRs: sstatus of mstatus, sie of mie, sip of mip.

The source maps sstatus field by field, once for reads and once for writes; both are the mask of the window
(`sstatusOf_eq`, `sstatusInto_eq`). A write of sip stores the live bits it read along with its own, and the next read
replaces them again.
Main results:
- `sstatus_window`, `sie_window`, `sip_window`: one write of a view and what it leaves alone;
- `ViewWrite.step_other`: a write under another name leaves a window as it is;
- `supervisor_views_exact`: over any sequence of writes under the six names each window is the last value written.
-/
import RiscvEmu.Status

namespace RiscvEmu

open Bits

/-! ## One write -/

/-- after a write of v a view answers v within its mask, and the register behind it keeps the rest -/
structure WindowWrite (s : Machine) (view reg : Csr) (mask v : Word) : Prop where
  reads : csrRead (csrWrite s view v) view = v &&& mask
  keeps : csrRead (csrWrite s view v) reg &&& ~~~mask = csrRead s reg &&& ~~~mask

section
variable (s : Machine) (v : Word)

theorem sstatus_window : WindowWrite s csrSstatus csrMstatus sstatusMask v := by
  constructor
  · rw [csrWrite_sstatus, csrRead_sstatus, sstatusOf_eq]
    simp only [setCsr, Function.update_self]
    rw [sstatusInto_eq, put_and_mask]
  · rw [csrWrite_sstatus, csrRead_mstatus, csrRead_mstatus]
    simp only [setCsr, Function.update_self]
    rw [sstatusInto_eq, put_and_not_mask]

theorem csrWrite_sie : csrWrite s csrSie v = setCsr s csrMie (s.csr csrMie &&& ~~~sipSieSBits ||| v &&& sipSieSBits) :=
  rfl

theorem csrWrite_sip : csrWrite s csrSip v = setCsr s csrMip (getMip s &&& ~~~sipSieSBits ||| v &&& sipSieSBits) := rfl

theorem sie_window : WindowWrite s csrSie csrMie sipSieSBits v := by
  constructor
  · rw [csrWrite_sie, csrRead_sie]
    simp only [setCsr, Function.update_self]
    rw [put_and_mask]
  · rw [csrWrite_sie, csrRead_mie, csrRead_mie]
    simp only [setCsr, Function.update_self]
    rw [put_and_not_mask]

/-- the live bits stored by a write of sip do not show: mip reads them from the devices -/
theorem sip_window : csrRead (csrWrite s csrSip v) csrMip &&& ~~~sipSieSBits = csrRead s csrMip &&& ~~~sipSieSBits := by
  apply BitVec.eq_of_getLsbD_eq
  intro i hi
  rw [csrWrite_sip, csrRead_mip, csrRead_mip, BitVec.getLsbD_and, BitVec.getLsbD_and, getLsbD_getMip _ hi]
  simp only [setCsr, Function.update_self]
  cases hm : (~~~sipSieSBits).getLsbD i with
  | false => simp
  | true =>
    have hin : sipSieSBits.getLsbD i = false := by
      rw [BitVec.getLsbD_not] at hm
      simpa [hi] using hm
    rw [BitVec.getLsbD_or, BitVec.getLsbD_and, BitVec.getLsbD_and, hm, hin, Bool.and_false, Bool.or_false]
    simp only [Bool.and_true, getLsbD_getMip _ hi]
    split_ifs <;> rfl

end

/-! ## Sequences -/

/-- the six names -/
inductive View where
  | sstatus | mstatus | sie | mie | sip | mip
deriving DecidableEq, Repr

def View.csr : View → Csr
  | sstatus => csrSstatus
  | mstatus => csrMstatus
  | sie => csrSie
  | mie => csrMie
  | sip => csrSip
  | mip => csrMip

/-- a write of val under a name -/
structure ViewWrite where
  view : View
  val : Word

namespace ViewWrite

def step (s : Machine) (w : ViewWrite) : Machine := csrWrite s w.view.csr w.val

def run (s : Machine) (ws : List ViewWrite) : Machine := ws.foldl step s

/-- the write goes to mstatus, under either name -/
def toStatus (w : ViewWrite) : Prop := w.view = .sstatus ∨ w.view = .mstatus

/-- the write goes to mie, under either name -/
def toMie (w : ViewWrite) : Prop := w.view = .sie ∨ w.view = .mie

/-- a window does not see the writes that go elsewhere -/
theorem step_other (s : Machine) (w : ViewWrite) :
    (¬ w.toStatus → csrRead (w.step s) csrMstatus = csrRead s csrMstatus) ∧
      (¬ w.toMie → csrRead (w.step s) csrMie = csrRead s csrMie) := by
  obtain ⟨view, v⟩ := w
  cases view with
  | sstatus => exact ⟨fun h => absurd (.inl rfl) h, fun _ => rfl⟩
  | mstatus => exact ⟨fun h => absurd (.inr rfl) h, fun _ => rfl⟩
  | sie => exact ⟨fun _ => rfl, fun h => absurd (.inl rfl) h⟩
  | mie => exact ⟨fun _ => rfl, fun h => absurd (.inr rfl) h⟩
  | sip => exact ⟨fun _ => rfl, fun _ => rfl⟩
  | mip => exact ⟨fun _ => rfl, fun _ => rfl⟩

theorem run_other (s : Machine) (ws : List ViewWrite) :
    ((∀ w ∈ ws, ¬ w.toStatus) → csrRead (run s ws) csrMstatus = csrRead s csrMstatus) ∧
      ((∀ w ∈ ws, ¬ w.toMie) → csrRead (run s ws) csrMie = csrRead s csrMie) := by
  induction ws generalizing s with
  | nil => exact ⟨fun _ => rfl, fun _ => rfl⟩
  | cons w ws ih =>
    obtain ⟨hstatus, hmie⟩ := step_other s w
    obtain ⟨ihstatus, ihmie⟩ := ih (w.step s)
    refine ⟨?_, ?_⟩
    · intro h
      exact (ihstatus fun x hx => h x (List.mem_cons_of_mem _ hx)).trans (hstatus (h w List.mem_cons_self))
    · intro h
      exact (ihmie fun x hx => h x (List.mem_cons_of_mem _ hx)).trans (hmie (h w List.mem_cons_self))

/-- the window after a write of its register under either name: mstatus_write keeps every bit of the window -/
theorem step_sstatus (s : Machine) {w : ViewWrite} (h : w.toStatus) :
    csrRead (w.step s) csrSstatus = w.val &&& sstatusMask := by
  obtain ⟨view, v⟩ := w
  rcases h with h | h
  · obtain rfl : view = .sstatus := h
    exact (sstatus_window s v).reads
  · obtain rfl : view = .mstatus := h
    have hmask : mstatusWritableMask &&& sstatusMask = sstatusMask := by decide
    change sstatusOf (Function.update s.csr csrMstatus (v &&& mstatusWritableMask) csrMstatus) = _
    rw [Function.update_self, sstatusOf_eq, BitVec.and_assoc, hmask]

theorem step_sie (s : Machine) {w : ViewWrite} (h : w.toMie) :
    csrRead (w.step s) csrSie = w.val &&& sipSieSBits := by
  obtain ⟨view, v⟩ := w
  rcases h with h | h
  · obtain rfl : view = .sie := h
    exact (sie_window s v).reads
  · obtain rfl : view = .mie := h
    change Function.update s.csr csrMie v csrMie &&& sipSieSBits = _
    rw [Function.update_self]

end ViewWrite

/-- sstatus and sie are the masked mstatus and mie, and show the last value written under either name -/
structure WindowsFollow (s : Machine) (ws : List ViewWrite) : Prop where
  sstatus : csrRead (ViewWrite.run s ws) csrSstatus = csrRead (ViewWrite.run s ws) csrMstatus &&& sstatusMask
  sie : csrRead (ViewWrite.run s ws) csrSie = csrRead (ViewWrite.run s ws) csrMie &&& sipSieSBits
  lastStatus : ∀ before w after, ws = before ++ w :: after → w.toStatus → (∀ x ∈ after, ¬ x.toStatus) →
    csrRead (ViewWrite.run s ws) csrSstatus = w.val &&& sstatusMask
  lastMie : ∀ before w after, ws = before ++ w :: after → w.toMie → (∀ x ∈ after, ¬ x.toMie) →
    csrRead (ViewWrite.run s ws) csrSie = w.val &&& sipSieSBits

theorem windows_follow (s : Machine) (ws : List ViewWrite) : WindowsFollow s ws := by
  have hstatus : ∀ t : Machine, csrRead t csrSstatus = csrRead t csrMstatus &&& sstatusMask := fun t => by
    rw [csrRead_sstatus, sstatusOf_eq, csrRead_mstatus]
  have hsplit : ∀ before w after, ViewWrite.run s (before ++ w :: after) =
      ViewWrite.run (w.step (ViewWrite.run s before)) after := fun before w after => by
    unfold ViewWrite.run
    rw [List.foldl_append, List.foldl_cons]
  refine ⟨hstatus _, rfl, ?_, ?_⟩
  · intro before w after hws hw hafter
    rw [hws, hsplit, hstatus, (ViewWrite.run_other _ after).1 hafter, ← hstatus, ViewWrite.step_sstatus _ hw]
  · intro before w after hws hw hafter
    rw [hws, hsplit]
    change csrRead _ csrMie &&& sipSieSBits = _
    rw [(ViewWrite.run_other _ after).2 hafter]
    exact ViewWrite.step_sie _ hw

/-- the law of the windows in a state -/
structure ViewsExact (s : Machine) : Prop where
  sstatus : ∀ v, WindowWrite s csrSstatus csrMstatus sstatusMask v
  sie : ∀ v, WindowWrite s csrSie csrMie sipSieSBits v
  sip : ∀ v, csrRead (csrWrite s csrSip v) csrMip &&& ~~~sipSieSBits = csrRead s csrMip &&& ~~~sipSieSBits
  follow : ∀ ws, WindowsFollow s ws

/-- **The supervisor windows are exact**, in every state and over every sequence of writes. -/
theorem supervisor_views_exact (s : Machine) : ViewsExact s where
  sstatus := sstatus_window s
  sie := sie_window s
  sip := sip_window s
  follow := windows_follow s

end RiscvEmu
