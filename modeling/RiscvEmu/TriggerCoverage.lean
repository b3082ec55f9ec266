/-
The triggers and the memory-access instructions.

insi_load and insi_store ask the triggers before anything else. The FP loads and stores, LR, SC and the AMOs do not ask
them. Results:
- `Insn.run_trig`, `Access.exec_trig`: where no trigger fires, an access does the same with other slots;
- `Insn.run_unasked`: the accesses that do not ask never raise the breakpoint;
- `triggers_cover_iff`: an access is covered exactly when it is an integer load or store, or no slot matches its address;
- `trigger_missed`: an FLW from a watched address.
-/
import RiscvEmu.FpuOff

namespace RiscvEmu

/-! ## Accesses -/

/-- the address of a memory access and its access types; an AMO is a load and a store -/
def Insn.memAccess (s : Machine) : Insn → Option (Word × List Word)
  | .load _ imm rs1 _ | .fp (.load _ imm rs1 _) => some (regRead s rs1 + imm, [sdtrigLoad])
  | .store _ imm _ rs1 | .fp (.store _ imm rs1 _) => some (regRead s rs1 + imm, [sdtrigStore])
  | .atomic .lr rs1 _ _ => some (regRead s rs1, [sdtrigLoad])
  | .atomic .sc rs1 _ _ => some (regRead s rs1, [sdtrigStore])
  | .atomic (.amo _) rs1 _ _ => some (regRead s rs1, [sdtrigLoad, sdtrigStore])
  | _ => none

/-- an integer load or store -/
def Insn.asksTriggers : Insn → Bool
  | .load .. | .store .. => true
  | _ => false

def Access.types : Access → List Word
  | .load .. | .fload .. => [sdtrigLoad]
  | .store .. | .fstore .. => [sdtrigStore]

/-- the access the word makes, if it is a memory-access instruction -/
def memAccess (s : Machine) (ins : Word) : Option (Word × List Word) :=
  if ¬ fetchAligned s then none
  else if misaCEnabled s ∧ ins.extractLsb' 0 2 ≠ 3 then
    (compressedOp (ins.setWidth 16)).map fun a => (a.addr s, a.types)
  else (decode ins).memAccess s

/-- the word executes as an integer load or store -/
def asksTriggers (s : Machine) (ins : Word) : Bool :=
  if misaCEnabled s ∧ ins.extractLsb' 0 2 ≠ 3 then (compressedOp (ins.setWidth 16)).any (! ·.isFp)
  else (decode ins).asksTriggers

/-- a slot matches the address for one of the types -/
def watched (s : Machine) (addr : Word) (types : List Word) : Prop := ∃ t ∈ types, triggerFires s addr t = true

/-! ## Other slots -/

/-- s with other trigger slots -/
def Machine.withTrig (s : Machine) (tr : Sdtrig) : Machine := { s with trig := tr }

/-- all slots disabled -/
def Sdtrig.disabled (tr : Sdtrig) : Sdtrig := { tr with slots := fun _ => ⟨0, 0⟩ }

theorem not_fires_disabled (s : Machine) (addr type : Word) :
    triggerFires (s.withTrig s.trig.disabled) addr type = false := by
  unfold triggerFires
  rw [List.any_eq_false]
  intro i _
  have htype : triggerMatches (s.withTrig s.trig.disabled) i addr type = false := by
    unfold triggerMatches
    exact decide_eq_false fun h => absurd h.1 (by decide : ¬ (0 : Word) >>> 28 &&& 0xF = sdtrigTypeMatch)
  rw [htype]
  exact Bool.false_ne_true

section
variable {s : Machine} {r : Machine → Machine}

/-- the routine does not look at the slots -/
def ignoresTrig (r : Machine → Machine) (s : Machine) : Prop := ∀ tr, r (s.withTrig tr) = (r s).withTrig tr

theorem ignoresSide.trig (h : ignoresSide r) (s : Machine) : ignoresTrig r s := by
  intro tr
  have hside : s.withTrig tr = s.withSide tr s.fpu := rfl
  have hfpu : (r s).withTrig tr = (r s).withSide tr s.fpu := by
    rw [← (ignoresSide_kept h s).1]
    rfl
  rw [hside, hfpu, h]

variable (s)

theorem mmuRead_trig {α : Type} [Zero α] {read : Machine → Word → α × Devices} (hr : readIgnoresSide read)
    (tr : Sdtrig) (vaddr : Word) : mmuRead read (s.withTrig tr) vaddr =
      ((mmuRead read s vaddr).1, (mmuRead read s vaddr).2.withTrig tr) := by
  have hside : s.withTrig tr = s.withSide tr s.fpu := rfl
  rw [hside, mmuRead_side s tr s.fpu hr, Machine.withTrig, ← (mmuRead_kept_side s hr vaddr).1]
  rfl

theorem mmuWrite_trig {α : Type} {write : Machine → Word → α → Machine} (hw : writeIgnoresSide write) (tr : Sdtrig)
    (vaddr : Word) (val : α) : mmuWrite write (s.withTrig tr) vaddr val = (mmuWrite write s vaddr val).withTrig tr :=
  ignoresSide.trig (r := fun s => mmuWrite write s vaddr val) (fun s tr f => mmuWrite_side s tr f hw vaddr val) s tr

theorem FLoadOp.exec_trig (op : FLoadOp) (imm : Word) (rs1 rd : Reg) :
    ignoresTrig (fun s => op.exec s imm rs1 rd) s := by
  intro tr
  have hreg : regRead (s.withTrig tr) rs1 = regRead s rs1 := rfl
  cases op with
  | flh =>
    simp only [FLoadOp.exec, insfFlh, mmuRead16Unsigned, hreg, mmuRead_trig s memRead16Unsigned_side]
    rfl
  | flw =>
    simp only [FLoadOp.exec, insfFlw, mmuRead32Unsigned, hreg, mmuRead_trig s memRead32Unsigned_side]
    rfl
  | fld =>
    simp only [FLoadOp.exec, insfFld, mmuRead64Unsigned, hreg, mmuRead_trig s memRead64Unsigned_side]
    rfl
  | flq =>
    have h2 := mmuRead_trig (mmuRead memRead64Unsigned s (regRead s rs1 + imm)).2 memRead64Unsigned_side tr
    simp only [FLoadOp.exec, insfFlq, mmuRead64Unsigned, hreg, mmuRead_trig s memRead64Unsigned_side, h2]
    rfl

theorem FStoreOp.exec_trig (op : FStoreOp) (imm : Word) (rs1 rs2 : Reg) :
    ignoresTrig (fun s => op.exec s imm rs1 rs2) s := by
  intro tr
  have hreg : regRead (s.withTrig tr) rs1 = regRead s rs1 := rfl
  cases op with
  | fsh => exact mmuWrite_trig s memWrite16_side tr _ _
  | fsw => exact mmuWrite_trig s memWrite32_side tr _ _
  | fsd => exact mmuWrite_trig s memWrite64_side tr _ _
  | fsq =>
    have h1 := mmuWrite_trig s memWrite64_side tr (regRead s rs1 + imm) ((fprRead .Q s.fpu rs2).setWidth 64)
    have h2 := mmuWrite_trig (mmuWrite memWrite64 s (regRead s rs1 + imm) ((fprRead .Q s.fpu rs2).setWidth 64))
      memWrite64_side tr
    have hfpr : fprRead .Q (s.withTrig tr).fpu rs2 = fprRead .Q s.fpu rs2 := rfl
    simp only [FStoreOp.exec, insfFsq, mmuWrite64, hreg, hfpr, h1, h2]

end

theorem not_fires_of {s : Machine} {addr : Word} {types : List Word} (h : ¬ watched s addr types) :
    ∀ t ∈ types, triggerFires s addr t = false :=
  fun t ht => Bool.eq_false_iff.2 fun hf => h ⟨t, ht, hf⟩

section
variable {s : Machine} {tr : Sdtrig}

theorem LoadOp.exec_trig (op : LoadOp) (imm : Word) (rs1 rd : Reg)
    (h : triggerFires s (regRead s rs1 + imm) sdtrigLoad = false)
    (h' : triggerFires (s.withTrig tr) (regRead s rs1 + imm) sdtrigLoad = false) :
    op.exec (s.withTrig tr) imm rs1 rd = (op.exec s imm rs1 rd).withTrig tr := by
  have hreg : regRead (s.withTrig tr) rs1 = regRead s rs1 := rfl
  rw [op.exec_eq, op.exec_eq, insiILoad_body, insiILoad_body, hreg, h, h', if_neg Bool.false_ne_true,
    if_neg Bool.false_ne_true]
  exact (loadBody_side op.read_side _ _ _).trig s tr

theorem insiSStore_trig {α : Type} {write : Machine → Word → α → Machine} (hw : writeIgnoresSide write) (mask : Word)
    (trunc : Word → α) (imm : Word) (rs2 rs1 : Reg) (h : triggerFires s (regRead s rs1 + imm) sdtrigStore = false)
    (h' : triggerFires (s.withTrig tr) (regRead s rs1 + imm) sdtrigStore = false) :
    insiSStore mask (fun s a v => mmuWrite write s a (trunc v)) (s.withTrig tr) imm rs2 rs1 =
      (insiSStore mask (fun s a v => mmuWrite write s a (trunc v)) s imm rs2 rs1).withTrig tr := by
  have hreg : ∀ r, regRead (s.withTrig tr) r = regRead s r := fun _ => rfl
  rw [insiSStore_body, insiSStore_body, hreg, hreg, h, h', if_neg Bool.false_ne_true, if_neg Bool.false_ne_true]
  exact (storeBody_side hw trunc _ _ _).trig s tr

theorem StoreOp.exec_trig (op : StoreOp) (imm : Word) (rs2 rs1 : Reg)
    (h : triggerFires s (regRead s rs1 + imm) sdtrigStore = false)
    (h' : triggerFires (s.withTrig tr) (regRead s rs1 + imm) sdtrigStore = false) :
    op.exec (s.withTrig tr) imm rs2 rs1 = (op.exec s imm rs2 rs1).withTrig tr := by
  cases op with
  | sb => exact insiSStore_trig memWrite8_side 0 (fun v => (v &&& 0xFF).setWidth 8) imm rs2 rs1 h h'
  | sh => exact insiSStore_trig memWrite16_side 1 (fun v => (v &&& 0xFFFF).setWidth 16) imm rs2 rs1 h h'
  | sw => exact insiSStore_trig memWrite32_side 3 id imm rs2 rs1 h h'

theorem AInsn.exec_trig (a : AInsn) (s : Machine) (tr : Sdtrig) (rs1 rs2 rd : Reg) :
    a.exec (s.withTrig tr) rs1 rs2 rd = (a.exec s rs1 rs2 rd).map (·.withTrig tr) := by
  have hside : s.withTrig tr = s.withSide tr s.fpu := rfl
  rw [hside, a.exec_side]
  cases h : a.exec s rs1 rs2 rd with
  | error e => rfl
  | ok t =>
    have hfpu := (AInsn.exec_kept h).1
    rw [Except.map, Except.map, Machine.withTrig, ← hfpu]
    rfl

/-- **Where no trigger fires**, before and after, an access does the same with other slots. -/
theorem Insn.run_trig [SoftFloat] {i : Insn} {addr ins : Word} {types : List Word} (hm : i.memAccess s = some (addr, types))
    (h : ¬ watched s addr types) (h' : ¬ watched (s.withTrig tr) addr types) :
    i.run (s.withTrig tr) ins = (i.run s ins).map (·.withTrig tr) := by
  have hfs : fpuFsOff (s.withTrig tr) = fpuFsOff s := rfl
  have hraise := ignoresSide.trig (r := fun s => raiseExceptionPc s causeIllegalInstruction ins s.pc)
    (fun s tr f => raiseExceptionPc_side s tr f causeIllegalInstruction ins s.pc) s tr
  cases i with
  | load op imm rs1 rd =>
    obtain ⟨rfl, rfl⟩ := Prod.mk.inj (Option.some.inj hm)
    exact congrArg Except.ok (op.exec_trig imm rs1 rd (not_fires_of h _ (.head _)) (not_fires_of h' _ (.head _)))
  | store op imm rs2 rs1 =>
    obtain ⟨rfl, rfl⟩ := Prod.mk.inj (Option.some.inj hm)
    exact congrArg Except.ok (op.exec_trig imm rs2 rs1 (not_fires_of h _ (.head _)) (not_fires_of h' _ (.head _)))
  | atomic a rs1 rs2 rd => exact a.exec_trig s tr rs1 rs2 rd
  | fp i =>
    simp only [Insn.run, hfs]
    split_ifs
    · exact congrArg Except.ok hraise
    · cases i with
      | load op imm rs1 rd => exact congrArg Except.ok (op.exec_trig s imm rs1 rd tr)
      | store op imm rs1 rs2 => exact congrArg Except.ok (op.exec_trig s imm rs1 rs2 tr)
      | _ => cases hm
  | _ => cases hm

theorem cAccess_trig {f : Machine → Machine} (h : f (s.withTrig tr) = (f s).withTrig tr) :
    (cAccess (s.withTrig tr) f).1 = (cAccess s f).1.withTrig tr := by
  have hpc : (s.withTrig tr).pc = s.pc := rfl
  have hpc' : ((f s).withTrig tr).pc = (f s).pc := rfl
  simp only [cAccess, h, hpc, hpc']
  split_ifs <;> rfl

end

/-! ## Compressed accesses -/

section
variable {s : Machine} {tr : Sdtrig} {a : Access}

theorem Access.exec_trig (h : ∀ t ∈ a.types, triggerFires s (a.addr s) t = false)
    (h' : ∀ t ∈ a.types, triggerFires (s.withTrig tr) (a.addr s) t = false) :
    a.exec (s.withTrig tr) = (a.exec s).withTrig tr := by
  cases a with
  | load op imm rs1 rd => exact op.exec_trig imm rs1 rd (h _ (.head _)) (h' _ (.head _))
  | store op imm rs2 rs1 => exact op.exec_trig imm rs2 rs1 (h _ (.head _)) (h' _ (.head _))
  | fload op imm rs1 rd => exact op.exec_trig s imm rs1 rd tr
  | fstore op imm rs1 rs2 => exact op.exec_trig s imm rs1 rs2 tr

/-- an integer access that a slot matches raises the breakpoint -/
theorem Access.exec_watched (hint : a.isFp = false) (h : watched s (a.addr s) a.types) :
    a.exec s = raiseExceptionPc s causeBreakpoint (a.addr s) s.pc := by
  obtain ⟨t, ht, hfires⟩ := h
  cases a with
  | load op imm rs1 rd =>
    rw [List.mem_singleton.1 ht] at hfires
    rw [Access.exec, op.exec_eq, insiILoad_body]
    exact if_pos hfires
  | store op imm rs2 rs1 =>
    rw [List.mem_singleton.1 ht] at hfires
    have hbody : ∀ mask write, insiSStore mask write s imm rs2 rs1 =
        raiseExceptionPc s causeBreakpoint (regRead s rs1 + imm) s.pc := fun mask write =>
      (insiSStore_body mask write s imm rs2 rs1).trans (if_pos hfires)
    cases op with
    | sb => exact hbody 0 fun s addr val => mmuWrite8 s addr ((val &&& 0xFF).setWidth 8)
    | sh => exact hbody 1 fun s addr val => mmuWrite16 s addr ((val &&& 0xFFFF).setWidth 16)
    | sw => exact hbody 3 mmuWrite32
  | fload op imm rs1 rd => cases hint
  | fstore op imm rs1 rs2 => cases hint

end

/-! ## The law -/

/-- the trap entry of the breakpoint. A compressed word whose entry leaves pc as it was, with the handler at its pc + 4, takes
the trap for none and moves pc on from there as after an access -/
def breakpointEntry (s : Machine) (ins addr : Word) : Machine :=
  let t := raiseExceptionPc s causeBreakpoint addr s.pc
  if (misaCEnabled s ∧ ins.extractLsb' 0 2 ≠ 3) ∧ t.pc = s.pc then { t with pc := t.pc - 2 } else t

theorem breakpointEntry_traps (s : Machine) (ins addr : Word) :
    (breakpointEntry s ins addr).traps = (raiseExceptionPc s causeBreakpoint addr s.pc).traps := by
  unfold breakpointEntry
  dsimp only
  split_ifs <;> rfl

/-- what the triggers promise of a word that makes an access of the given types at addr -/
structure TriggersCover [SoftFloat] (s : Machine) (ins addr : Word) (types : List Word) : Prop where
  /-- the breakpoint, and nothing else -/
  hit : watched s addr types → exec s ins = .ok (breakpointEntry s ins addr)
  /-- what the word does with all slots disabled -/
  miss : ¬ watched s addr types →
    exec s ins = (exec (s.withTrig s.trig.disabled) ins).map (·.withTrig s.trig)

theorem not_watched_disabled (s : Machine) (addr : Word) (types : List Word) :
    ¬ watched (s.withTrig s.trig.disabled) addr types := by
  rintro ⟨t, -, hfires⟩
  rw [not_fires_disabled] at hfires
  cases hfires

/-- a page fault is not a breakpoint -/
theorem PageFaultsOnly.not_breakpoint {s t : Machine} (h : PageFaultsOnly s t) (addr : Word) :
    t.traps ≠ (raiseExceptionPc s causeBreakpoint addr s.pc).traps := by
  intro ht
  obtain ⟨access, hcause⟩ := h.cause (ht.trans (raiseExceptionPc_traps ..))
  have hne : causeBreakpoint ≠ pageFaultCause access := by cases access <;> decide
  exact hne hcause

section
variable [SoftFloat] {s : Machine} {i : Insn} {addr ins : Word} {types : List Word}

theorem Insn.run_watched (hm : i.memAccess s = some (addr, types)) (hasks : i.asksTriggers = true)
    (h : watched s addr types) : i.run s ins = .ok (raiseExceptionPc s causeBreakpoint addr s.pc) := by
  cases i with
  | load op imm rs1 rd =>
    obtain ⟨rfl, rfl⟩ := Prod.mk.inj (Option.some.inj hm)
    exact congrArg Except.ok (Access.exec_watched (a := .load op imm rs1 rd) rfl h)
  | store op imm rs2 rs1 =>
    obtain ⟨rfl, rfl⟩ := Prod.mk.inj (Option.some.inj hm)
    exact congrArg Except.ok (Access.exec_watched (a := .store op imm rs2 rs1) rfl h)
  | _ => cases hasks

/-- an access that does not ask raises no breakpoint -/
theorem Insn.run_unasked (hm : i.memAccess s = some (addr, types)) (hasks : i.asksTriggers = false) {t : Machine}
    (h : i.run s ins = .ok t) : t.traps ≠ (raiseExceptionPc s causeBreakpoint addr s.pc).traps := by
  cases i with
  | load op imm rs1 rd => cases hasks
  | store op imm rs2 rs1 => cases hasks
  | atomic a rs1 rs2 rd => exact (AInsn.exec_pageFaults h).not_breakpoint addr
  | fp i =>
    simp only [Insn.run] at h
    split_ifs at h
    · obtain rfl := Except.ok.inj h
      intro ht
      rw [raiseException_eq_pc, raiseExceptionPc_traps, raiseExceptionPc_traps] at ht
      have hcause : causeIllegalInstruction = causeBreakpoint := congrArg Trap.cause (List.cons.inj ht).1
      exact absurd hcause (by decide)
    · cases i with
      | load op imm rs1 rd =>
        obtain rfl := Except.ok.inj h
        exact (op.exec_pageFaults s imm rs1 rd).not_breakpoint addr
      | store op imm rs1 rs2 =>
        obtain rfl := Except.ok.inj h
        exact (op.exec_pageFaults s imm rs1 rs2).not_breakpoint addr
      | _ => cases hm
  | _ => cases hm

/-- the law, from what the word does when it asks the triggers, when it does not, and when none fires -/
theorem triggersCover_iff_of {asks : Bool}
    (hhit : asks = true → watched s addr types → exec s ins = .ok (breakpointEntry s ins addr))
    (hunasked : asks = false → ∀ t, exec s ins = .ok t → t.traps ≠ (raiseExceptionPc s causeBreakpoint addr s.pc).traps)
    (hmiss : ¬ watched s addr types → exec s ins = (exec (s.withTrig s.trig.disabled) ins).map (·.withTrig s.trig)) :
    TriggersCover s ins addr types ↔ asks = true ∨ ¬ watched s addr types := by
  constructor
  · intro h
    by_cases hw : watched s addr types
    · cases asks with
      | true => exact .inl rfl
      | false => exact absurd (breakpointEntry_traps s ins addr) (hunasked rfl _ (h.hit hw))
    · exact .inr hw
  · rintro (hasks | hw)
    · exact ⟨hhit hasks, hmiss⟩
    · exact ⟨fun h => absurd h hw, hmiss⟩

/-- **The triggers cover exactly the integer loads and stores.** -/
theorem triggers_cover_iff (hm : memAccess s ins = some (addr, types)) :
    TriggersCover s ins addr types ↔ asksTriggers s ins = true ∨ ¬ watched s addr types := by
  have hno := not_watched_disabled s addr types
  unfold memAccess at hm
  unfold asksTriggers
  split_ifs at hm with ha hc
  · rw [if_pos hc]
    obtain ⟨a, hop, heq⟩ := Option.map_eq_some_iff.1 hm
    obtain ⟨rfl, rfl⟩ := Prod.mk.inj heq
    have hexec : exec s ins = .ok (cAccess s a.exec).1 := by
      rw [exec_compressed ha hc.1 hc.2, execCInsn_op hop]
    have hexec' : exec (s.withTrig s.trig.disabled) ins = .ok (cAccess (s.withTrig s.trig.disabled) a.exec).1 := by
      have ha' : fetchAligned (s.withTrig s.trig.disabled) = true := ha
      rw [exec_compressed ha' hc.1 hc.2, execCInsn_op hop]
    rw [hop, Option.any_some]
    refine triggersCover_iff_of ?_ ?_ ?_
    · intro hint hw
      refine hexec.trans (congrArg Except.ok ?_)
      simp only [cAccess, breakpointEntry, a.exec_watched (by simpa using hint) hw, and_iff_right hc]
    · intro hfp t ht
      obtain rfl := Except.ok.inj (hexec.symm.trans ht)
      have hfaults := Access.exec_pageFaults (by simpa using hfp) s
      rw [cAccess_traps]
      exact hfaults.not_breakpoint _
    · intro hw
      have htrig : a.exec ((s.withTrig s.trig.disabled).withTrig s.trig) =
          (a.exec (s.withTrig s.trig.disabled)).withTrig s.trig :=
        a.exec_trig (not_fires_of hno) (not_fires_of hw)
      rw [hexec, hexec']
      exact congrArg Except.ok (cAccess_trig htrig)
  · rw [if_neg hc]
    have hexec : exec s ins = (decode ins).run s ins := exec_decode ha hc
    have hexec' : exec (s.withTrig s.trig.disabled) ins = (decode ins).run (s.withTrig s.trig.disabled) ins :=
      exec_decode ha hc
    refine triggersCover_iff_of ?_ ?_ ?_
    · intro hasks hw
      have hentry : breakpointEntry s ins addr = raiseExceptionPc s causeBreakpoint addr s.pc := if_neg fun h => hc h.1
      rw [hentry]
      exact hexec.trans (Insn.run_watched hm hasks hw)
    · intro hasks t ht
      exact Insn.run_unasked hm hasks (hexec.symm.trans ht)
    · intro hw
      have hm' : (decode ins).memAccess (s.withTrig s.trig.disabled) = some (addr, types) := hm
      rw [hexec, hexec']
      exact Insn.run_trig hm' hno hw

end

/-- a supervisor with the FPU on and every slot watching loads from address 0 -/
def watchingMachine : Machine :=
  let s := machineInit (fun _ => 0) (fun _ => 0) 0
  { s with
    privilege := prvSupervisor, csr := Function.update s.csr csrMstatus (1#32 <<< 13),
    trig := { s.trig with slots := fun _ => ⟨0x20000011, 0⟩ } }

/-- LW x1, 0(x0) -/
theorem triggers_cover_lw :
    let _ : SoftFloat := noFloat
    memAccess watchingMachine 0x00002083 = some (0, [sdtrigLoad]) ∧
      (TriggersCover watchingMachine 0x00002083 0 [sdtrigLoad] ↔
        asksTriggers watchingMachine 0x00002083 = true ∨ ¬ watched watchingMachine 0 [sdtrigLoad]) :=
  ⟨by decide, @triggers_cover_iff noFloat _ _ _ _ (by decide)⟩

/-- FLW f1, 0(x0): the address is watched and no trap is raised -/
theorem trigger_missed :
    memAccess watchingMachine 0x00002087 = some (0, [sdtrigLoad]) ∧ watched watchingMachine 0 [sdtrigLoad] ∧
      ∃ t, @exec noFloat watchingMachine 0x00002087 = .ok t ∧ t.traps = [] :=
  ⟨by decide, ⟨sdtrigLoad, .head _, by decide⟩, _, rfl, by decide⟩

end RiscvEmu
