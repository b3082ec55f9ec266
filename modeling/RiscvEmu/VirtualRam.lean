/-
RAM through the page tables: under any sequence of mmu_read* and mmu_write* that translate, virtual memory is the RAM
its addresses map to.

Each access walks the tables anew. Where no store reaches the tables, a walk answers what it answered in the first
state, so every address could have been translated there, once and for all; a walk in RAM has no effect of its own.
Results:
- `virtual_step`: an access through the tables is its physical one;
- `virtualRun_eq`: the two runs, by induction, keep the same machine;
- `virtual_coherent`: reads answer the bytes stored last, by whichever address they were stored.
-/
import RiscvEmu.Isolation
import RiscvEmu.RamCoherence

namespace RiscvEmu

open Bytes

/-! ## A walk of the tables -/

section
variable {s t : Machine}

/-- the entries are read from RAM, which has no effects -/
theorem walk_dev (hf : Fenced s) (v : Word) (access : MmuAccess) : (mmuWalk s v access).2 = s.dev := by
  obtain ⟨-, hroot⟩ := rootEntry_ram hf (.refl s) v
  rw [mmuWalk]
  by_cases hvm : ¬ mmuVmActive s (effectivePriv s access)
  · rw [if_pos hvm]
  rw [if_neg hvm]
  rw [rootEntry] at hroot
  dsimp only
  by_cases hv : (rootEntry s v).1 &&& pteV = 0
  · rw [rootEntry] at hv
    rw [if_pos hv, hroot]
  have hvalid : (rootEntry s v).1.v = true := Bool.eq_true_of_not_eq_false (mt (pteV_eq_zero _).2 hv)
  rw [rootEntry] at hv
  rw [if_neg hv]
  by_cases hp : isPointer (rootEntry s v).1
  · have hload : secondEntry s v = (loadLE s.mainMemory (secondEntryAddr s v) 4, (rootEntry s v).2) :=
      memRead32_ram (s := { s with dev := (rootEntry s v).2 }) ((hf.ram v).2 ⟨hvalid, hp⟩)
    have hsecond : (secondEntry s v).2 = (rootEntry s v).2 := by rw [hload]
    rw [secondEntry, rootEntry, hroot] at hsecond
    rw [isPointer, rootEntry] at hp
    rw [if_neg (not_not.2 hp), hroot]
    split_ifs <;> exact hsecond
  · rw [isPointer, rootEntry] at hp
    rw [if_pos hp, hroot]
    split_ifs <;> rfl

/-- the walk of a later state -/
theorem walk_eq (hf : Fenced s) (h : Confined s t) {v pa : Word} {access : MmuAccess}
    (hpa : (mmuWalk s v access).1 = some pa) : mmuWalk t v access = (some pa, t.dev) :=
  Prod.ext ((walk_congr hf h v access).trans hpa) (walk_dev (hf.confined h) v access)

end

/-! ## One access -/

namespace MemOp

def addr : MemOp → Word
  | write8 a _ | write16 a _ | write32 a _ | write64 a _ => a
  | read8Unsigned a | read8Signed a | read16Unsigned a | read16Signed a => a
  | read32Unsigned a | read32Signed a | read64Unsigned a => a

def access : MemOp → MmuAccess
  | write8 .. | write16 .. | write32 .. | write64 .. => .store
  | _ => .load

/-- the access at another address -/
def place (a : Word) : MemOp → MemOp
  | write8 _ v => write8 a v
  | write16 _ v => write16 a v
  | write32 _ v => write32 a v
  | write64 _ v => write64 a v
  | read8Unsigned _ => read8Unsigned a
  | read8Signed _ => read8Signed a
  | read16Unsigned _ => read16Unsigned a
  | read16Signed _ => read16Signed a
  | read32Unsigned _ => read32Unsigned a
  | read32Signed _ => read32Signed a
  | read64Unsigned _ => read64Unsigned a

/-- the machine after the access to the virtual address -/
def virtualStep (s : Machine) : MemOp → Machine
  | write8 a v => mmuWrite8 s a v
  | write16 a v => mmuWrite16 s a v
  | write32 a v => mmuWrite32 s a v
  | write64 a v => mmuWrite64 s a v
  | read8Unsigned a => (mmuRead8Unsigned s a).2
  | read8Signed a => (mmuRead8Signed s a).2
  | read16Unsigned a => (mmuRead16Unsigned s a).2
  | read16Signed a => (mmuRead16Signed s a).2
  | read32Unsigned a => (mmuRead32Unsigned s a).2
  | read32Signed a => (mmuRead32Signed s a).2
  | read64Unsigned a => (mmuRead64Unsigned s a).2

/-- the access with its address translated in s; none for a page fault -/
def physical (s : Machine) (op : MemOp) : Option MemOp := (mmuWalk s op.addr op.access).1.map op.place

def virtualRun (s : Machine) (ops : List MemOp) : Machine := ops.foldl virtualStep s

variable {s t : Machine} {op phys : MemOp}

theorem virtualStep_place {pa : Word} (h : mmuWalk t op.addr op.access = (some pa, t.dev)) :
    op.virtualStep t = (op.place pa).step t := by
  cases op with
  | write8 => exact mmuWrite_some h
  | write16 => exact mmuWrite_some h
  | write32 => exact mmuWrite_some h
  | write64 => exact mmuWrite_some h
  | _ => exact congrArg Prod.snd (mmuRead_some h)

/-- **An access through the tables is its physical one**, translated in the first state. -/
theorem virtual_step (hf : Fenced s) (h : Confined s t) (hp : op.physical s = some phys) :
    op.virtualStep t = phys.step t := by
  obtain ⟨pa, hpa, rfl⟩ := Option.map_eq_some_iff.1 hp
  exact virtualStep_place (walk_eq hf h hpa)

theorem step_memStep (t : Machine) (op : MemOp) : MemStep t (op.step t) := by
  cases op with
  | write8 a v => exact memWrite8_memStep t a v
  | write16 a v => exact memWrite16_memStep t a v
  | write32 a v => exact memWrite32_memStep t a v
  | write64 a v => exact memWrite64_memStep t a v
  | _ => exact ⟨_, _, _, rfl⟩

/-- what an access writes, it writes where its store is allowed -/
theorem write_storable (hp : op.physical s = some phys) {x : Write 32} (hw : phys.write? = some x) {b : Word}
    (hb : x.Covers b) : storable s b := by
  obtain ⟨pa, hpa, rfl⟩ := Option.map_eq_some_iff.1 hp
  cases op with
  | write8 =>
    obtain rfl := Option.some.inj hw
    exact ⟨_, pa, hpa, lt_of_lt_of_le hb (by decide : 1 ≤ 8)⟩
  | write16 =>
    obtain rfl := Option.some.inj hw
    exact ⟨_, pa, hpa, lt_of_lt_of_le hb (by decide : 2 ≤ 8)⟩
  | write32 =>
    obtain rfl := Option.some.inj hw
    exact ⟨_, pa, hpa, lt_of_lt_of_le hb (by decide : 4 ≤ 8)⟩
  | write64 =>
    obtain rfl := Option.some.inj hw
    exact ⟨_, pa, hpa, hb⟩
  | _ => exact nomatch hw

/-- the access stays within what the tables allow -/
theorem step_confined (hf : Fenced s) (h : Confined s t) (hp : op.physical s = some phys) (hram : phys.InRam) :
    Confined s (phys.step t) := by
  refine h.trans hf ?_
  obtain ⟨mem, flags, dev, he⟩ := step_memStep t phys
  refine ⟨by rw [he], by rw [he], ?_⟩
  intro b hb
  rw [step_mainMemory t hram]
  cases hw : phys.write? with
  | none => rfl
  | some x =>
    have hnot : ¬ x.Covers b := fun hc => hb ((storable_congr hf h b).2 (write_storable hp hw hc))
    exact if_neg hnot

/-! ## Sequences -/

/-- the memory after a run, over what was there before -/
theorem run_lastByte (t : Machine) {ops : List MemOp} (h : ∀ op ∈ ops, op.InRam) :
    (run t ops).mainMemory = lastByte t.mainMemory (ops.filterMap write?) := by
  induction ops using List.reverseRecOn with
  | nil => rfl
  | append_singleton ops op ih =>
    have hops := ih fun o ho => h o (List.mem_append_left _ ho)
    have hop : op.InRam := h op (List.mem_append_right _ List.mem_cons_self)
    have hrun : run t (ops ++ [op]) = op.step (run t ops) := by
      unfold run
      rw [List.foldl_append, List.foldl_cons, List.foldl_nil]
    rw [hrun, step_mainMemory _ hop, hops, List.filterMap_append]
    cases hw : op.write? with
    | none => simp [hw]
    | some x =>
      rw [List.filterMap_cons_some hw]
      exact (lastByte_append _ _ x).symm

/-- **The addresses can be translated once**: the run through the tables and the physical run keep the same machine. -/
theorem virtualRun_eq (hf : Fenced s) (h : Confined s t) {ops phys : List MemOp}
    (hp : ops.mapM (physical s) = some phys) (hram : ∀ p ∈ phys, p.InRam) :
    virtualRun t ops = run t phys ∧ Confined s (run t phys) := by
  induction ops generalizing t phys with
  | nil =>
    obtain rfl := Option.some.inj hp
    exact ⟨rfl, h⟩
  | cons op ops ih =>
    rw [List.mapM_cons] at hp
    obtain ⟨p, hop, hrest⟩ := Option.bind_eq_some_iff.1 hp
    obtain ⟨ps, hops, hcons⟩ := Option.bind_eq_some_iff.1 hrest
    obtain rfl := Option.some.inj hcons
    have hstep : op.virtualStep t = p.step t := virtual_step hf h hop
    have hconf : Confined s (p.step t) := step_confined hf h hop (hram p List.mem_cons_self)
    have hrun := ih hconf hops fun q hq => hram q (List.mem_cons_of_mem _ hq)
    refine ⟨?_, hrun.2⟩
    change virtualRun (op.virtualStep t) ops = _
    rw [hstep]
    exact hrun.1

end MemOp

/-- **Virtual memory is the RAM behind it.** A sequence of accesses through tables no store reaches, each of which
translates to RAM in the first state: the machine is that of the translated accesses, the addresses still translate as
they did, and a read answers the bytes of its physical address written last, by whichever virtual address that was. -/
theorem virtual_coherent {s : Machine} (hf : Fenced s) {ops phys : List MemOp}
    (hp : ops.mapM (MemOp.physical s) = some phys) (hram : ∀ p ∈ phys, p.InRam) :
    MemOp.virtualRun s ops = MemOp.run s phys ∧
      ReadsAs (MemOp.virtualRun s ops) (lastByte s.mainMemory (phys.filterMap MemOp.write?)) ∧
      ∀ v pa, (mmuWalk s v .load).1 = some pa → ∀ {α : Type} [Zero α] (read : Machine → Word → α × Devices),
        (mmuRead read (MemOp.virtualRun s ops) v).1 = (read (MemOp.virtualRun s ops) pa).1 := by
  obtain ⟨hrun, hconf⟩ := MemOp.virtualRun_eq hf (.refl s) hp hram
  refine ⟨hrun, ?_, ?_⟩
  · apply ReadsAs.of_agree
    intro b _
    rw [hrun, MemOp.run_lastByte s hram]
  · intro v pa hpa α _ read
    rw [← hrun] at hconf
    exact congrArg Prod.fst (mmuRead_some (walk_eq hf hconf hpa))

/-- a word stored 4 MiB up, its second byte stored at the bottom, and the word read 8 MiB up: all one page -/
theorem virtual_coherent_alias :
    (mmuRead32Unsigned (MemOp.virtualRun fencedRun.state [.write32 0x00401000 0x11223344, .write8 0x00001001 0xFF])
      0x00801000).1 = 0x1122FF44 := by
  have hrun := @virtual_coherent _ fencedRun_fenced [.write32 0x00401000 0x11223344, .write8 0x00001001 0xFF]
    [.write32 0x00001000 0x11223344, .write8 0x00001001 0xFF] (by decide) (by decide)
  have hread := hrun.2.2 0x00801000 0x00001000 (by decide) memRead32Unsigned
  refine hread.trans ?_
  rw [hrun.2.1.read32Unsigned 0x00001000 (by decide)]
  decide

end RiscvEmu
