/-
Whether misaligned accesses are faithful, in the build with CONFIG_SUPPORT_MISALIGN on.

The access should be the sequence of its byte accesses, or one page fault and nothing else. The loops go on after a fault:
the other bytes are translated with the privilege of the handler, each that faults too is one more trap, a load goes on to
its register, and a store has written the bytes before the fault and writes those after it. insf_flq and insf_fsq translate
nothing. Results:
- `misaligned_faithful_iff`: when a misaligned access is faithful nevertheless;
- `quad_without_paging`: with translation off the quad forms are;
- `store_fault_writes`: an SW that faults at its first byte and writes the other three.
-/
import RiscvEmu.Misalign

namespace RiscvEmu

open BlindLoop ByteList Scatter

/-! ## The property -/

def Access.isMisaligned (a : Access) (s : Machine) : Prop := a.addr s &&& BitVec.ofNat 32 (a.bytes - 1) ≠ 0

instance (a : Access) (s : Machine) : Decidable (a.isMisaligned s) := inferInstanceAs (Decidable (_ ≠ _))

/-- a debug trigger takes the access before it is made; the FP accesses have no such test -/
def Access.stopped (a : Access) (s : Machine) : Bool :=
  match a with
  | .load .. => triggerFires s (a.addr s) sdtrigLoad
  | .store .. => triggerFires s (a.addr s) sdtrigStore
  | _ => false

def Access.kind : Access → MmuAccess
  | .load .. | .fload .. => .load
  | .store .. | .fstore .. => .store

/-- the same access, its address an offset from x0 -/
def Access.absolute (addr : Word) : Access → Access
  | .load op _ _ rd => .load op addr 0 rd
  | .store op _ rs2 _ => .store op addr rs2 0
  | .fload op _ _ rd => .fload op addr 0 rd
  | .fstore op _ _ rs2 => .fstore op addr 0 rs2

/-- one page fault, no byte of memory changed and no register written: whatever the registers hold, they hold it after -/
structure FaultsCleanly (a : Access) (s : Machine) : Prop where
  once : ∃ x, (Misalign.exec a s).traps = x :: s.traps ∧ x.cause = pageFaultCause a.kind
  memory : (Misalign.exec a s).mainMemory = s.mainMemory
  registers : ∀ g f, (Misalign.exec (a.absolute (a.addr s)) (s.withRegs g f)).gpr = g ∧
    (Misalign.exec (a.absolute (a.addr s)) (s.withRegs g f)).fpu.fpr = f.fpr

/-- what an access that no trigger stops promises -/
structure Faithful (a : Access) (s : Machine) : Prop where
  moved : a.stopped s = false → ∀ t, a.reference s = some t → Misalign.exec a s = t
  fault : a.stopped s = false → a.reference s = none → FaultsCleanly a s

/-! ## When it holds -/

/-- every byte translates when its turn comes -/
def loadTranslates (s : Machine) (addr : Word) (n : ℕ) : Prop := ∀ i < n, ¬ byteFaults .load addr i (loadState s addr i)

def storeTranslates (s : Machine) (addr : Word) (n : ℕ) (b : ℕ → Byte) : Prop :=
  ∀ i < n, ¬ byteFaults .store addr i (storeState s addr b i)

/-- one byte faults, and each that does not goes to no byte of main memory, or to one that holds it already -/
def storeHarmless (s : Machine) (addr : Word) (n : ℕ) (b : ℕ → Byte) : Prop :=
  (∃! i, i < n ∧ byteFaults .store addr i (storeState s addr b i)) ∧
    ∀ i < n, ∀ x, byteDest (storeState s addr b i) (addr + BitVec.ofNat 32 i) = some x → s.mainMemory x = b i

/-- when an access that no trigger stops is faithful -/
def Access.worksMisaligned (a : Access) (s : Machine) : Prop :=
  match a with
  | .load _ _ _ rd => loadTranslates s (a.addr s) a.bytes ∨
      rd = 0 ∧ ∃! i, i < a.bytes ∧ byteFaults .load (a.addr s) i (loadState s (a.addr s) i)
  | .store .. => storeTranslates s (a.addr s) a.bytes (a.storeByte s) ∨ storeHarmless s (a.addr s) a.bytes (a.storeByte s)
  | .fload op _ _ _ =>
    -- the quad forms go to the untranslated bytes: these must be as good as the right ones
    if op = .flq then readBytes byteLoad 16 s (a.addr s) = readBytes physLoad 16 s (a.addr s)
    else loadTranslates s (a.addr s) a.bytes
  | .fstore op _ _ _ =>
    if op = .fsq then
      writeBytes byteStore 16 s (a.addr s) (a.storeByte s) = writeBytes physStore 16 s (a.addr s) (a.storeByte s)
    else storeTranslates s (a.addr s) a.bytes (a.storeByte s) ∨ storeHarmless s (a.addr s) a.bytes (a.storeByte s)

/-! ## The routines, past the trigger and the alignment -/

section
variable {s : Machine} {imm : Word} {rs1 rs2 rd : Reg}

theorem insiILoad_misaligned {mask : Word} {misaligned read : Machine → Word → Word × Machine}
    (ht : triggerFires s (regRead s rs1 + imm) sdtrigLoad = false) (hm : (regRead s rs1 + imm) &&& mask ≠ 0) :
    Misalign.insiILoad mask misaligned read s imm rs1 rd =
      regWrite (misaligned s (regRead s rs1 + imm)).2 rd (misaligned s (regRead s rs1 + imm)).1 := by
  unfold Misalign.insiILoad sdtrigCheckLoadTrigger sdtrigCheck
  dsimp only
  rw [ht, if_pos hm]
  rfl

theorem insiSStore_misaligned {mask : Word} {misaligned write : Machine → Word → Word → Machine}
    (ht : triggerFires s (regRead s rs1 + imm) sdtrigStore = false) (hm : (regRead s rs1 + imm) &&& mask ≠ 0) :
    Misalign.insiSStore mask misaligned write s imm rs2 rs1 = misaligned s (regRead s rs1 + imm) (regRead s rs2) := by
  unfold Misalign.insiSStore sdtrigCheckStoreTrigger sdtrigCheck
  dsimp only
  rw [ht, if_pos hm]
  rfl

theorem insfLoad_misaligned {fmt : Fmt} {size : Word} {misaligned read : Machine → Word → BitVec fmt.width × Machine}
    (hm : (regRead s rs1 + imm) &&& (size - 1) ≠ 0) :
    Misalign.insfLoad fmt size misaligned read s imm rs1 rd =
      let r := misaligned s (regRead s rs1 + imm)
      { r.2 with fpu := fprWrite fmt r.2.fpu rd r.1 } := by
  unfold Misalign.insfLoad Misalign.isAligned
  dsimp only
  rw [if_pos (by simpa using hm)]

theorem insfStore_misaligned {fmt : Fmt} {size : Word} {misaligned write : Machine → Word → BitVec fmt.width → Machine}
    (hm : (regRead s rs1 + imm) &&& (size - 1) ≠ 0) :
    Misalign.insfStore fmt size misaligned write s imm rs1 rs2 =
      misaligned s (regRead s rs1 + imm) (fprRead fmt s.fpu rs2) := by
  unfold Misalign.insfStore Misalign.isAligned
  dsimp only
  rw [if_pos (by simpa using hm)]

end

/-! ## Loads -/

/-- a load of n bytes is its loop, and then `put` into a register with what the loop answers -/
structure LoopsLoad {w : ℕ} (a : Access) (s : Machine) (n : ℕ) (put : BitVec w → Machine → Machine) (v : BitVec w) : Prop where
  exec : Misalign.exec a s = put v (loadState s (a.addr s) n)
  regs : ∀ g f, Misalign.exec (a.absolute (a.addr s)) (s.withRegs g f) =
    put v ((loadState s (a.addr s) n).withRegs g f)
  value : ∀ bs t, readBytes byteLoad n s (a.addr s) = some (bs, t) → v = ofBytes w bs

section
variable {a : Access} {s : Machine} {n w : ℕ} {put : BitVec w → Machine → Machine} {v : BitVec w}

theorem readBytes_state {addr : Word} {bs : List Byte} {t : Machine} (h : readBytes byteLoad n s addr = some (bs, t)) :
    t = loadState s addr n :=
  ((loadFollows addr).of_some (R := fun _ s (r : List Byte × Machine) => r.2 = s) rfl h).2

/-- a load that no trigger stops -/
theorem LoopsLoad.faithful (h : LoopsLoad a s n put v) (hs : a.stopped s = false) (hkind : a.kind = .load)
    (href : a.reference s = (readBytes byteLoad n s (a.addr s)).map fun r => put (ofBytes w r.1) r.2)
    (htraps : ∀ t, (put v t).traps = t.traps) (hmem : ∀ t, (put v t).mainMemory = t.mainMemory) :
    Faithful a s ↔ loadTranslates s (a.addr s) n ∨
      (∀ g f, (put v ((loadState s (a.addr s) n).withRegs g f)).gpr = g ∧
        (put v ((loadState s (a.addr s) n).withRegs g f)).fpu.fpr = f.fpr) ∧
      ∃! i, i < n ∧ byteFaults .load (a.addr s) i (loadState s (a.addr s) i) := by
  cases hread : readBytes byteLoad n s (a.addr s) with
  | some r =>
    -- every byte can be read: the access is the reference
    obtain ⟨bs, t⟩ := r
    have hall : loadTranslates s (a.addr s) n :=
      ((loadFollows (a.addr s)).of_some (R := fun _ s (r : List Byte × Machine) => r.2 = s) rfl hread).1
    refine ⟨fun _ => .inl hall, fun _ => ⟨fun _ u hu => ?_, fun _ hu => ?_⟩⟩
    · rw [href, hread, Option.map_some, Option.some_inj] at hu
      rw [h.exec, h.value bs t hread, ← hu, readBytes_state hread]
    · rw [href, hread] at hu
      exact nomatch hu
  | none =>
    have hnone : a.reference s = none := by rw [href, hread, Option.map_none]
    obtain ⟨i, hi, hfail⟩ := (readBytes_none s (a.addr s) n).1 hread
    have hnot : ¬ loadTranslates s (a.addr s) n := fun hall => hall i hi hfail
    have hcause : pageFaultCause a.kind = pageFaultCause .load := congrArg pageFaultCause hkind
    have hone := (loadLogs (a.addr s)).one_iff s n
    rw [or_iff_right hnot]
    constructor
    · intro hf
      obtain ⟨honce, -, hregs⟩ := hf.fault hs hnone
      refine ⟨?_, hone.1 ?_⟩
      · intro g f
        rw [← h.regs g f]
        exact hregs g f
      · rw [h.exec, htraps, hcause] at honce
        exact honce
    · rintro ⟨hregs, huniq⟩
      refine ⟨fun _ u hu => ?_, fun _ _ => ⟨?_, ?_, fun g f => ?_⟩⟩
      · rw [hnone] at hu
        exact nomatch hu
      · rw [h.exec, htraps, hcause]
        exact hone.2 huniq
      · rw [h.exec, hmem, loadState_mainMemory]
      · rw [h.regs g f]
        exact hregs g f

end

/-- an integer load: the value extended into rd -/
theorem insiILoad_loops {op : LoadOp} {s : Machine} {imm : Word} {rs1 rd : Reg} (w n : ℕ) (mask : Word)
    (ext : BitVec w → Word) (read : Machine → Word → Word × Machine) (hw : 8 * n ≤ w)
    (hexec : ∀ s imm rs1, Misalign.execLoad s imm rs1 rd op = Misalign.insiILoad mask
      (fun s addr => (ext (Misalign.gather w n mmuRead8Unsigned s addr).1, (Misalign.gather w n mmuRead8Unsigned s addr).2))
      read s imm rs1 rd)
    (ht : triggerFires s (regRead s rs1 + imm) sdtrigLoad = false) (hm : (regRead s rs1 + imm) &&& mask ≠ 0) :
    LoopsLoad (.load op imm rs1 rd) s n (fun v t => regWrite t rd (ext v))
      (Misalign.gather w n mmuRead8Unsigned s (regRead s rs1 + imm)).1 := by
  constructor
  · refine (hexec s imm rs1).trans ((insiILoad_misaligned ht hm).trans ?_)
    rw [gather_state]
    rfl
  · intro g f
    have haddr : regRead (s.withRegs g f) 0 + (regRead s rs1 + imm) = regRead s rs1 + imm := BitVec.zero_add _
    have ht' : triggerFires (s.withRegs g f) (regRead (s.withRegs g f) 0 + (regRead s rs1 + imm)) sdtrigLoad = false := by
      rw [haddr]
      exact ht
    have hm' : (regRead (s.withRegs g f) 0 + (regRead s rs1 + imm)) &&& mask ≠ 0 := by rwa [haddr]
    refine (hexec (s.withRegs g f) (regRead s rs1 + imm) 0).trans ((insiILoad_misaligned ht' hm').trans ?_)
    rw [haddr, gather_regs, gather_state]
    rfl
  · intro bs t hread
    exact congrArg Prod.fst (gather_of_byteLoads hw hread)

/-- an FP load other than FLQ: the value boxed into rd -/
theorem insfLoad_loops {op : FLoadOp} {s : Machine} {imm : Word} {rs1 rd : Reg} (fmt : Fmt) (n : ℕ) (size : Word)
    (read : Machine → Word → BitVec fmt.width × Machine) (hw : 8 * n ≤ fmt.width) (hsize : size - 1 = BitVec.ofNat 32 (n - 1))
    (hexec : ∀ s imm rs1, Misalign.execFLoad s imm rs1 rd op =
      Misalign.insfLoad fmt size (Misalign.gather fmt.width n mmuRead8Unsigned) read s imm rs1 rd)
    (hm : (regRead s rs1 + imm) &&& BitVec.ofNat 32 (n - 1) ≠ 0) :
    LoopsLoad (.fload op imm rs1 rd) s n (fun v t => { t with fpu := fprWrite fmt t.fpu rd v })
      (Misalign.gather fmt.width n mmuRead8Unsigned s (regRead s rs1 + imm)).1 := by
  rw [← hsize] at hm
  constructor
  · refine (hexec s imm rs1).trans ((insfLoad_misaligned hm).trans ?_)
    dsimp only
    rw [gather_state]
    rfl
  · intro g f
    have haddr : regRead (s.withRegs g f) 0 + (regRead s rs1 + imm) = regRead s rs1 + imm := BitVec.zero_add _
    have hm' : (regRead (s.withRegs g f) 0 + (regRead s rs1 + imm)) &&& (size - 1) ≠ 0 := by rwa [haddr]
    refine (hexec (s.withRegs g f) (regRead s rs1 + imm) 0).trans ((insfLoad_misaligned hm').trans ?_)
    dsimp only
    rw [haddr, gather_regs, gather_state]
    rfl
  · intro bs t hread
    exact congrArg Prod.fst (gather_of_byteLoads hw hread)

/-! ## Stores -/

section
variable {a : Access} {s : Machine} {n : ℕ} {b : ℕ → Byte}

/-- a store that no trigger stops and that runs the loop -/
theorem storeLoop_faithful (hs : a.stopped s = false) (hkind : a.kind = .store) (hn : n ≤ 4096)
    (hexec : Misalign.exec a s = storeState s (a.addr s) b n)
    (hregs : ∀ g f, ∃ c, Misalign.exec (a.absolute (a.addr s)) (s.withRegs g f) = storeState (s.withRegs g f) (a.addr s) c n)
    (href : a.reference s = writeBytes byteStore n s (a.addr s) b) :
    Faithful a s ↔ storeTranslates s (a.addr s) n b ∨ storeHarmless s (a.addr s) n b := by
  have hmem := (storeState_scattered s (a.addr s) b n hn).eq_iff
  cases hwrite : writeBytes byteStore n s (a.addr s) b with
  | some t =>
    have hall : storeTranslates s (a.addr s) n b :=
      ((storeFollows (a.addr s) b).of_some (R := fun _ s t => t = s) rfl hwrite).1
    refine ⟨fun _ => .inl hall, fun _ => ⟨fun _ u hu => ?_, fun _ hu => ?_⟩⟩
    · rw [href, hwrite, Option.some_inj] at hu
      rw [hexec, writeBytes_some s (a.addr s) b n hwrite, hu]
    · rw [href, hwrite] at hu
      exact nomatch hu
  | none =>
    have hnone : a.reference s = none := href.trans hwrite
    obtain ⟨i, hi, hfail⟩ := (writeBytes_none s (a.addr s) b n).1 hwrite
    have hnot : ¬ storeTranslates s (a.addr s) n b := fun hall => hall i hi hfail
    have hcause : pageFaultCause a.kind = pageFaultCause .store := congrArg pageFaultCause hkind
    have hone := (storeLogs (a.addr s) b).one_iff s n
    rw [or_iff_right hnot]
    constructor
    · intro hf
      obtain ⟨honce, hsame, -⟩ := hf.fault hs hnone
      rw [hexec, hcause] at honce
      rw [hexec] at hsame
      exact ⟨hone.1 honce, hmem.1 hsame⟩
    · rintro ⟨huniq, hsame⟩
      refine ⟨fun _ u hu => ?_, fun _ _ => ⟨?_, ?_, fun g f => ?_⟩⟩
      · rw [hnone] at hu
        exact nomatch hu
      · rw [hexec, hcause]
        exact hone.2 huniq
      · rw [hexec]
        exact hmem.2 hsame
      · obtain ⟨c, hc⟩ := hregs g f
        rw [hc, storeState_gpr, storeState_fpu]
        exact ⟨rfl, rfl⟩

end

/-! ## The forms, one by one -/

section
variable {s : Machine} {imm : Word} {rs1 rs2 rd : Reg}

/-- only x0 takes no write, whatever it would be -/
theorem regWrite_unwritten {t : Machine} {v : Word} :
    (∀ g f, (regWrite (t.withRegs g f) rd v).gpr = g ∧ (regWrite (t.withRegs g f) rd v).fpu.fpr = f.fpr) ↔ rd = 0 := by
  constructor
  · intro h
    have hg := (h (fun _ => v + 1) t.fpu).1
    have hne : v + 1 ≠ v := add_eq_left.not.2 (by decide)
    exact (writeGpr_eq_self.1 hg).resolve_right hne
  · rintro rfl g f
    have h0 : writeGpr g 0 v = g := if_pos rfl
    exact ⟨h0, rfl⟩

theorem fprWrite_written {t : Machine} {fmt : Fmt} {v : BitVec fmt.width} :
    ¬ ∀ g f, ({ t.withRegs g f with fpu := fprWrite fmt (t.withRegs g f).fpu rd v } : Machine).gpr = g ∧
      (fprWrite fmt (t.withRegs g f).fpu rd v).fpr = f.fpr := by
  intro h
  have hf := (h t.gpr { t.fpu with fpr := fun _ => box fmt v + 1 }).2
  have hne : box fmt v + 1 ≠ box fmt v := add_eq_left.not.2 (by decide)
  exact hne ((fprWrite_self_iff fmt _ rd v).1 hf)

theorem load_faithful {op : LoadOp} (hs : (Access.load op imm rs1 rd).stopped s = false)
    (hm : (Access.load op imm rs1 rd).isMisaligned s) :
    Faithful (.load op imm rs1 rd) s ↔ (Access.load op imm rs1 rd).worksMisaligned s := by
  cases op with
  | lb | lbu => exact absurd (BitVec.and_zero) hm
  | lh =>
    have h : LoopsLoad (.load .lh imm rs1 rd) s 2 _ _ :=
      insiILoad_loops 16 2 1 (·.signExtend 32) mmuRead16Signed (by decide) (fun _ _ _ => rfl) hs hm
    refine (h.faithful hs rfl rfl (fun _ => rfl) fun _ => rfl).trans (or_congr_right (and_congr_left' ?_))
    exact regWrite_unwritten
  | lw =>
    have h : LoopsLoad (.load .lw imm rs1 rd) s 4 _ _ :=
      insiILoad_loops 32 4 3 id mmuRead32Signed (by decide) (fun _ _ _ => rfl) hs hm
    refine (h.faithful hs rfl rfl (fun _ => rfl) fun _ => rfl).trans (or_congr_right (and_congr_left' ?_))
    exact regWrite_unwritten
  | lhu =>
    have h : LoopsLoad (.load .lhu imm rs1 rd) s 2 _ _ :=
      insiILoad_loops 16 2 1 (·.setWidth 32) mmuRead16Unsigned (by decide) (fun _ _ _ => rfl) hs hm
    refine (h.faithful hs rfl rfl (fun _ => rfl) fun _ => rfl).trans (or_congr_right (and_congr_left' ?_))
    exact regWrite_unwritten

theorem fload_faithful {op : FLoadOp} (hop : op ≠ .flq) (hm : (Access.fload op imm rs1 rd).isMisaligned s) :
    Faithful (.fload op imm rs1 rd) s ↔ loadTranslates s ((Access.fload op imm rs1 rd).addr s) op.fmt.bytes := by
  cases op with
  | flh =>
    have h : LoopsLoad (.fload .flh imm rs1 rd) s 2 _ _ :=
      insfLoad_loops .H 2 2 (fun s addr => ((mmuRead16Unsigned s addr).1.setWidth 16, (mmuRead16Unsigned s addr).2))
        (by decide) (by decide) (fun _ _ _ => rfl) hm
    refine (h.faithful rfl rfl rfl (fun _ => rfl) fun _ => rfl).trans (or_iff_left ?_)
    intro hr
    exact fprWrite_written hr.1
  | flw =>
    have h : LoopsLoad (.fload .flw imm rs1 rd) s 4 _ _ :=
      insfLoad_loops .S 4 4 mmuRead32Unsigned (by decide) (by decide) (fun _ _ _ => rfl) hm
    refine (h.faithful rfl rfl rfl (fun _ => rfl) fun _ => rfl).trans (or_iff_left ?_)
    intro hr
    exact fprWrite_written hr.1
  | fld =>
    have h : LoopsLoad (.fload .fld imm rs1 rd) s 8 _ _ :=
      insfLoad_loops .D 8 8 mmuRead64Unsigned (by decide) (by decide) (fun _ _ _ => rfl) hm
    refine (h.faithful rfl rfl rfl (fun _ => rfl) fun _ => rfl).trans (or_iff_left ?_)
    intro hr
    exact fprWrite_written hr.1
  | flq => exact absurd rfl hop

theorem storeState_congr {vaddr : Word} {n : ℕ} {b c : ℕ → Byte} (h : ∀ i < n, b i = c i) :
    storeState s vaddr b n = storeState s vaddr c n :=
  after_congr _ s n fun i hi => by rw [h i hi]

theorem scatter_loop {w n : ℕ} {vaddr : Word} {val : BitVec w} {b : ℕ → Byte}
    (h : ∀ i < n, val.extractLsb' (8 * i) 8 = b i) : Misalign.scatter n mmuWrite8 s vaddr val = storeState s vaddr b n :=
  (scatter_state s vaddr n val).trans (storeState_congr h)

theorem insiSStore_loop {op : StoreOp} (w n : ℕ) (trunc : Word → BitVec w)
    (write : Machine → Word → Word → Machine) (hn : n ≤ 4096) (hbytes : op.width = n)
    (hexec : ∀ s imm rs1, Misalign.execStore s imm rs2 rs1 op = Misalign.insiSStore (BitVec.ofNat 32 (n - 1))
      (fun s addr val => Misalign.scatter n mmuWrite8 s addr (trunc val)) write s imm rs2 rs1)
    (htrunc : ∀ v, ∀ i < n, (trunc v).extractLsb' (8 * i) 8 = v.extractLsb' (8 * i) 8)
    (hs : triggerFires s (regRead s rs1 + imm) sdtrigStore = false)
    (hm : (regRead s rs1 + imm) &&& BitVec.ofNat 32 (n - 1) ≠ 0) :
    Faithful (.store op imm rs2 rs1) s ↔ (Access.store op imm rs2 rs1).worksMisaligned s := by
  have hfaith := storeLoop_faithful (a := .store op imm rs2 rs1) (s := s) (n := n)
    (b := (Access.store op imm rs2 rs1).storeByte s) hs rfl hn ?_ (fun g f => ?_) (by rw [← hbytes]; rfl)
  · rw [← hbytes] at hfaith
    exact hfaith
  · exact (hexec s imm rs1).trans ((insiSStore_misaligned hs hm).trans (scatter_loop (htrunc _)))
  · have haddr : regRead (s.withRegs g f) 0 + (regRead s rs1 + imm) = regRead s rs1 + imm := BitVec.zero_add _
    have hs' : triggerFires (s.withRegs g f) (regRead (s.withRegs g f) 0 + (regRead s rs1 + imm)) sdtrigStore = false := by
      rw [haddr]
      exact hs
    have hm' : (regRead (s.withRegs g f) 0 + (regRead s rs1 + imm)) &&& BitVec.ofNat 32 (n - 1) ≠ 0 := by rwa [haddr]
    have hrun := (hexec (s.withRegs g f) (regRead s rs1 + imm) 0).trans (insiSStore_misaligned hs' hm')
    rw [haddr, scatter_state] at hrun
    exact ⟨_, hrun⟩

/-- the 16 bits SH stores are the low half of the register -/
theorem sh_low (v : Word) (i : ℕ) (hi : i < 2) :
    ((v &&& 0xFFFF).setWidth 16).extractLsb' (8 * i) 8 = v.extractLsb' (8 * i) 8 := by
  have hmask : (v &&& 0xFFFF).setWidth 16 = v.setWidth 16 := by
    apply BitVec.eq_of_toNat_eq
    rw [BitVec.toNat_setWidth, BitVec.toNat_setWidth, Bits.toNat_and_mask v 0xFFFF (k := 16) rfl,
      Nat.mod_mod]
  rw [hmask]
  apply BitVec.eq_of_getLsbD_eq
  intro j hj
  have hlt : 8 * i + j < 16 := by omega
  simp only [BitVec.getLsbD_extractLsb', BitVec.getLsbD_setWidth, hlt, decide_true, Bool.true_and]

theorem store_faithful {op : StoreOp} (hs : (Access.store op imm rs2 rs1).stopped s = false)
    (hm : (Access.store op imm rs2 rs1).isMisaligned s) :
    Faithful (.store op imm rs2 rs1) s ↔ (Access.store op imm rs2 rs1).worksMisaligned s := by
  cases op with
  | sb => exact absurd (BitVec.and_zero) hm
  | sh =>
    exact insiSStore_loop 16 2 (fun v => (v &&& 0xFFFF).setWidth 16)
      (fun s addr val => mmuWrite16 s addr ((val &&& 0xFFFF).setWidth 16)) (by decide) rfl (fun _ _ _ => rfl) sh_low hs hm
  | sw => exact insiSStore_loop 32 4 id mmuWrite32 (by decide) rfl (fun _ _ _ => rfl) (fun _ _ _ => rfl) hs hm

theorem insfStore_loop {op : FStoreOp} (fmt : Fmt) (n : ℕ) (size : Word)
    (write : Machine → Word → BitVec fmt.width → Machine) (hn : n ≤ 4096) (hbytes : op.fmt.bytes = n)
    (hw : 8 * n ≤ fmt.width) (hsize : size - 1 = BitVec.ofNat 32 (n - 1))
    (hexec : ∀ s imm rs1, Misalign.execFStore s imm rs1 rs2 op =
      Misalign.insfStore fmt size (Misalign.scatter n mmuWrite8) write s imm rs1 rs2)
    (hm : (regRead s rs1 + imm) &&& BitVec.ofNat 32 (n - 1) ≠ 0) :
    Faithful (.fstore op imm rs1 rs2) s ↔
      storeTranslates s (regRead s rs1 + imm) n (fprByte s.fpu rs2) ∨
        storeHarmless s (regRead s rs1 + imm) n (fprByte s.fpu rs2) := by
  rw [← hsize] at hm
  refine storeLoop_faithful (a := .fstore op imm rs1 rs2) rfl rfl hn ?_ (fun g f => ?_) (by rw [← hbytes]; rfl)
  · refine (hexec s imm rs1).trans ((insfStore_misaligned hm).trans (scatter_loop ?_))
    intro i hi
    exact extract_setWidth _ (by omega)
  · have haddr : regRead (s.withRegs g f) 0 + (regRead s rs1 + imm) = regRead s rs1 + imm := BitVec.zero_add _
    have hm' : (regRead (s.withRegs g f) 0 + (regRead s rs1 + imm)) &&& (size - 1) ≠ 0 := by rwa [haddr]
    have hrun := (hexec (s.withRegs g f) (regRead s rs1 + imm) 0).trans (insfStore_misaligned hm')
    rw [haddr, scatter_state] at hrun
    exact ⟨_, hrun⟩

theorem fstore_faithful {op : FStoreOp} (hop : op ≠ .fsq) (hm : (Access.fstore op imm rs1 rs2).isMisaligned s) :
    Faithful (.fstore op imm rs1 rs2) s ↔ (Access.fstore op imm rs1 rs2).worksMisaligned s := by
  rw [Access.worksMisaligned, if_neg hop]
  cases op with
  | fsh => exact insfStore_loop .H 2 2 mmuWrite16 (by decide) rfl (by decide) (by decide) (fun _ _ _ => rfl) hm
  | fsw => exact insfStore_loop .S 4 4 mmuWrite32 (by decide) rfl (by decide) (by decide) (fun _ _ _ => rfl) hm
  | fsd => exact insfStore_loop .D 8 8 mmuWrite64 (by decide) rfl (by decide) (by decide) (fun _ _ _ => rfl) hm
  | fsq => exact absurd rfl hop

/-! ## The quad forms -/

/-- a byte read that changes nothing but the devices -/
theorem readBytes_dev {read : Machine → Word → Option (Byte × Machine)}
    (hread : ∀ s a b t, read s a = some (b, t) → ∃ d, t = { s with dev := d }) {n : ℕ} {addr : Word} {bs : List Byte}
    {t : Machine} (h : readBytes read n s addr = some (bs, t)) : ∃ d, t = { s with dev := d } := by
  refine checked_invariant (I := fun _ (r : List Byte × Machine) => ∃ d, r.2 = { s with dev := d }) _ _ n ?_ ⟨s.dev, rfl⟩ h
  rintro i ⟨cs, u⟩ r' ⟨d, rfl⟩ hr
  obtain ⟨⟨b, v⟩, hb, rfl⟩ := Option.map_eq_some_iff.1 hr
  obtain ⟨d', rfl⟩ := hread _ _ b v hb
  exact ⟨d', rfl⟩

theorem byteLoad_dev (s : Machine) (a : Word) (b : Byte) (t : Machine) (h : byteLoad s a = some (b, t)) :
    ∃ d, t = { s with dev := d } := by
  rcases hw : mmuWalk s a .load with ⟨_ | pa, d⟩
  · have hnone : byteLoad s a = none := byteLoad_none.2 (congrArg Prod.fst (mmuTranslate_none hw))
    rw [h] at hnone
    exact nomatch hnone
  · rw [byteLoad_of_walk hw, Option.some_inj, Prod.mk.injEq] at h
    exact ⟨_, h.2.symm⟩

theorem physLoad_dev (s : Machine) (a : Word) (b : Byte) (t : Machine) (h : physLoad s a = some (b, t)) :
    ∃ d, t = { s with dev := d } := by
  rw [physLoad_eq, Option.some_inj, Prod.mk.injEq] at h
  exact ⟨_, h.2.symm⟩

/-- nothing stops the physical reads -/
theorem readBytes_phys (n : ℕ) (s : Machine) (addr : Word) : ∃ bs t, readBytes physLoad n s addr = some (bs, t) := by
  induction n with
  | zero => exact ⟨[], s, rfl⟩
  | succ n ih =>
    obtain ⟨bs, t, h⟩ := ih
    rw [readBytes_succ, h, Option.bind_some, physLoad_eq, Option.map_some]
    exact ⟨_, _, rfl⟩

theorem flq_faithful (hm : (Access.fload .flq imm rs1 rd).isMisaligned s) :
    Faithful (.fload .flq imm rs1 rd) s ↔
      readBytes byteLoad 16 s (regRead s rs1 + imm) = readBytes physLoad 16 s (regRead s rs1 + imm) := by
  have hmask : (16 : Word) - 1 = BitVec.ofNat 32 15 := by decide
  have hm' : (regRead s rs1 + imm) &&& (16 - 1) ≠ 0 := by
    rw [hmask]
    exact hm
  obtain ⟨bs, u, hphys⟩ := readBytes_phys 16 s (regRead s rs1 + imm)
  have hexec : Misalign.exec (.fload .flq imm rs1 rd) s = { u with fpu := fprWrite .Q u.fpu rd (ofBytes 128 bs) } := by
    change Misalign.insfFlq s imm rs1 rd = _
    rw [Misalign.insfFlq, insfLoad_misaligned hm', physLoad128_of_readBytes hphys]
  have href : (Access.fload .flq imm rs1 rd).reference s =
      (readBytes byteLoad 16 s (regRead s rs1 + imm)).map fun r =>
        { r.2 with fpu := fprWrite .Q r.2.fpu rd (ofBytes 128 r.1) } := rfl
  obtain ⟨d, rfl⟩ := readBytes_dev physLoad_dev hphys
  rw [hphys]
  cases hread : readBytes byteLoad 16 s (regRead s rs1 + imm) with
  | none =>
    -- a byte has no translation, and no exception is raised
    refine iff_of_false ?_ nofun
    intro hf
    obtain ⟨x, hx, -⟩ := (hf.fault rfl (by rw [href, hread, Option.map_none])).once
    rw [hexec] at hx
    exact List.cons_ne_self _ _ hx.symm
  | some r =>
    obtain ⟨cs, t⟩ := r
    have hsome : (Access.fload .flq imm rs1 rd).reference s =
        some { t with fpu := fprWrite .Q t.fpu rd (ofBytes 128 cs) } := by rw [href, hread, Option.map_some]
    constructor
    · intro hf
      obtain ⟨d', rfl⟩ := readBytes_dev byteLoad_dev hread
      have heq := hexec.symm.trans (hf.moved rfl _ hsome)
      obtain rfl : d = d' := congrArg Machine.dev heq
      have hval := congrArg (fun m : Machine => fprRead .Q m.fpu rd) heq
      simp only [fprRead_fprWrite] at hval
      have hlen := readBytes_length hread
      have hlen' := readBytes_length hphys
      rw [(ofBytes_inj (hlen'.trans hlen.symm) (by omega)).1 hval]
    · intro heq
      obtain ⟨rfl, rfl⟩ := Prod.mk.inj (Option.some.inj heq)
      refine ⟨?_, ?_⟩
      · intro _ v hv
        rw [hsome, Option.some_inj] at hv
        rw [hexec, hv]
      · intro _ hv
        rw [hsome] at hv
        exact nomatch hv

theorem fsq_faithful (hm : (Access.fstore .fsq imm rs1 rs2).isMisaligned s) :
    Faithful (.fstore .fsq imm rs1 rs2) s ↔
      writeBytes byteStore 16 s (regRead s rs1 + imm) (fprByte s.fpu rs2) =
        writeBytes physStore 16 s (regRead s rs1 + imm) (fprByte s.fpu rs2) := by
  have hmask : (16 : Word) - 1 = BitVec.ofNat 32 15 := by decide
  have hm' : (regRead s rs1 + imm) &&& (16 - 1) ≠ 0 := by
    rw [hmask]
    exact hm
  have hval : fprRead .Q s.fpu rs2 = s.fpu.fpr rs2 := BitVec.setWidth_eq _
  have hexec : Misalign.exec (.fstore .fsq imm rs1 rs2) s =
      Misalign.physStore128 s (regRead s rs1 + imm) (s.fpu.fpr rs2) := by
    change Misalign.insfFsq s imm rs1 rs2 = _
    rw [Misalign.insfFsq, insfStore_misaligned hm', hval]
  have hphys : writeBytes physStore 16 s (regRead s rs1 + imm) (fprByte s.fpu rs2) =
      some (Misalign.exec (.fstore .fsq imm rs1 rs2) s) := by
    rw [hexec]
    exact physStore128_eq ..
  have href : (Access.fstore .fsq imm rs1 rs2).reference s =
      writeBytes byteStore 16 s (regRead s rs1 + imm) (fprByte s.fpu rs2) := rfl
  have htraps : (Misalign.exec (.fstore .fsq imm rs1 rs2) s).traps = s.traps := by
    refine checked_invariant (I := fun _ (t : Machine) => t.traps = s.traps) _ _ 16 ?_ rfl hphys
    intro i t t' ht hstep
    obtain rfl := Option.some.inj hstep
    obtain ⟨mem, flags, dev, hw⟩ := memWrite8_memStep t (regRead s rs1 + imm + BitVec.ofNat 32 i) (fprByte s.fpu rs2 i)
    rw [hw]
    exact ht
  rw [hphys, ← href]
  cases hwrite : (Access.fstore .fsq imm rs1 rs2).reference s with
  | none =>
    refine iff_of_false ?_ nofun
    intro hf
    obtain ⟨x, hx, -⟩ := (hf.fault rfl hwrite).once
    rw [htraps] at hx
    exact List.cons_ne_self _ _ hx.symm
  | some t =>
    constructor
    · intro hf
      exact congrArg some (hf.moved rfl t hwrite).symm
    · intro heq
      refine ⟨?_, ?_⟩
      · intro _ v hv
        rw [hwrite, heq] at hv
        exact Option.some.inj hv
      · intro _ hv
        rw [hwrite] at hv
        exact nomatch hv

end

/-! ## All forms -/

/-- **Misaligned accesses.** -/
theorem misaligned_faithful_iff (a : Access) (s : Machine) (hm : a.isMisaligned s) :
    Faithful a s ↔ a.stopped s = true ∨ a.worksMisaligned s := by
  cases hs : a.stopped s with
  | true =>
    refine iff_of_true ⟨?_, ?_⟩ (.inl rfl)
    · intro h
      rw [hs] at h
      exact nomatch h
    · intro h
      rw [hs] at h
      exact nomatch h
  | false =>
    rw [or_iff_right Bool.false_ne_true]
    cases a with
    | load op imm rs1 rd => exact load_faithful hs hm
    | store op imm rs2 rs1 => exact store_faithful hs hm
    | fload op imm rs1 rd =>
      by_cases hop : op = .flq
      · subst hop
        exact flq_faithful hm
      · rw [Access.worksMisaligned, if_neg hop]
        exact fload_faithful hop hm
    | fstore op imm rs1 rs2 =>
      by_cases hop : op = .fsq
      · subst hop
        exact fsq_faithful hm
      · exact fstore_faithful hop hm

/-! ## Without paging -/

/-- data accesses are not translated -/
def dataUnpaged (s : Machine) : Prop := mmuVmActive s (mmuEffectiveDpriv s) = false

instance (s : Machine) : Decidable (dataUnpaged s) := inferInstanceAs (Decidable (_ = _))

theorem Kept.dataUnpaged {s t : Machine} (h : Kept s t) (hs : dataUnpaged s) : dataUnpaged t := by
  have hsatp : csrRead t csrSatp = csrRead s csrSatp := congrFun h.csr csrSatp
  have hstatus : csrRead t csrMstatus = csrRead s csrMstatus := congrFun h.csr csrMstatus
  unfold RiscvEmu.dataUnpaged mmuVmActive mmuSatpMode mmuEffectiveDpriv at hs ⊢
  rw [hsatp, hstatus, h.privilege]
  exact hs

section
variable {s : Machine}

theorem mmuWalk_unpaged (h : dataUnpaged s) (vaddr : Word) {access : MmuAccess} (ha : access ≠ .fetch) :
    mmuWalk s vaddr access = (some vaddr, s.dev) := by
  have hoff : ¬ mmuVmActive s (effectivePriv s access) = true := by
    rw [effectivePriv, if_neg ha, h]
    exact Bool.false_ne_true
  rw [mmuWalk]
  exact if_pos hoff

theorem byteLoad_unpaged (h : dataUnpaged s) (vaddr : Word) : byteLoad s vaddr = physLoad s vaddr :=
  byteLoad_of_walk (mmuWalk_unpaged h vaddr nofun)

theorem byteStore_unpaged (h : dataUnpaged s) (vaddr : Word) (b : Byte) : byteStore s vaddr b = physStore s vaddr b :=
  byteStore_of_walk (mmuWalk_unpaged h vaddr nofun)

theorem readBytes_unpaged (h : dataUnpaged s) (n : ℕ) (addr : Word) :
    readBytes byteLoad n s addr = readBytes physLoad n s addr := by
  refine checked_congr (I := fun r : List Byte × Machine => dataUnpaged r.2) _ _ n ?_ ?_ h
  · intro i r hr
    rw [byteLoad_unpaged hr]
  · rintro i r r' hr hstep
    obtain ⟨⟨b, t⟩, hb, rfl⟩ := Option.map_eq_some_iff.1 hstep
    obtain ⟨d, rfl⟩ := byteLoad_dev _ _ b t hb
    exact hr

theorem writeBytes_unpaged (h : dataUnpaged s) (n : ℕ) (addr : Word) (b : ℕ → Byte) :
    writeBytes byteStore n s addr b = writeBytes physStore n s addr b := by
  refine checked_congr (I := dataUnpaged) _ _ n ?_ ?_ h
  · intro i t ht
    exact byteStore_unpaged ht _ _
  · intro i t t' ht hstep
    rw [byteStore_unpaged ht] at hstep
    obtain rfl := Option.some.inj hstep
    exact (memWrite8_memStep t _ _).kept.dataUnpaged ht

/-- with translation off every misaligned access is faithful, the quad forms included -/
theorem faithful_without_paging {a : Access} (hm : a.isMisaligned s) (h : dataUnpaged s) : Faithful a s := by
  refine (misaligned_faithful_iff a s hm).2 (.inr ?_)
  have hload : ∀ n addr, loadTranslates s addr n := by
    intro n addr i hi hf
    obtain ⟨bs, t, hphys⟩ := readBytes_phys n s addr
    have hnone := (readBytes_none s addr n).2 ⟨i, hi, hf⟩
    rw [readBytes_unpaged h, hphys] at hnone
    exact nomatch hnone
  have hstore : ∀ n addr b, storeTranslates s addr n b := by
    intro n addr b i hi hf
    have hphys := checked_some (fun i t => memWrite8 t (addr + BitVec.ofNat 32 i) (b i)) s n
    have hnone := (writeBytes_none s addr b n).2 ⟨i, hi, hf⟩
    rw [writeBytes_unpaged h] at hnone
    exact nomatch hphys.symm.trans hnone
  cases a with
  | load op imm rs1 rd => exact .inl (hload _ _)
  | store op imm rs2 rs1 => exact .inl (hstore _ _ _)
  | fload op imm rs1 rd =>
    rw [Access.worksMisaligned]
    split_ifs
    · exact readBytes_unpaged h 16 _
    · exact hload _ _
  | fstore op imm rs1 rs2 =>
    rw [Access.worksMisaligned]
    split_ifs
    · exact writeBytes_unpaged h 16 _ _
    · exact .inl (hstore _ _ _)

end

/-! ## With it -/

/-- user mode, with a page table that maps nothing -/
def unmappedMachine : Machine := pagedMachine prvUser (Function.update (fun _ => 0) 5 0x11223344)

/-- SW of x5 to 0x1001: the trap goes to machine mode, where the other three bytes need no translation -/
def unmappedStore : Access := .store .sw 0x1001 5 0

theorem store_fault_writes : unmappedStore.isMisaligned unmappedMachine ∧
    (Misalign.exec unmappedStore unmappedMachine).traps.length = 1 ∧ unmappedMachine.mainMemory 0x1002 = 0 ∧
    (Misalign.exec unmappedStore unmappedMachine).mainMemory 0x1002 = 0x33 ∧ ¬ Faithful unmappedStore unmappedMachine := by
  refine ⟨by decide, by decide, by decide, by decide, fun h => ?_⟩
  have hnone : unmappedStore.reference unmappedMachine = none := Option.isNone_iff_eq_none.1 (by decide)
  have hmem := congrFun (h.fault (by decide) hnone).memory 0x1002
  exact absurd hmem (by decide)

/-- the same SW in machine mode -/
theorem store_without_paging : Faithful unmappedStore { unmappedMachine with privilege := prvMachine } :=
  (misaligned_faithful_iff _ _ (by decide)).2 (.inr (.inl (by unfold storeTranslates; decide)))

end RiscvEmu
