/-
Reservations under address translation.

LR.W and SC.W name their word by the address of the instruction, a store names it by the physical address. Under paging
the two differ. Results:
- `paged_reservation_iff`: the stores into the physical word of an LR.W, and only these, make its SC.W fail exactly when
  they are the stores into the physical word that has the virtual address as its own;
- `mapped_store_keeps_reservation`: a run in which a store through the address of the LR.W itself leaves the reservation.
-/
import RiscvEmu.ReservationRuns

namespace RiscvEmu

open Runs

/-- a naturally aligned write of 1, 2 or 4 bytes -/
def PhysWrite.aligned (b : PhysWrite) : Prop :=
  b.width = 1 ∨ b.width = 2 ∧ b.addr &&& 1 = 0 ∨ b.width = 4 ∧ b.addr &&& 3 = 0

instance (b : PhysWrite) : Decidable b.aligned := by unfold PhysWrite.aligned; infer_instance

section
variable [SoftFloat] {v ins : Word} {t₀ t : Machine} {r₁ : Run} {p : List (Run × HostInput)}

/-- **Reservations under paging.** A run without a trap from an LR.W to v, which translates to pa, to an SC.W to v: an
aligned store into the word at pa makes the SC.W fail, and it fails only after a store to a byte of this word or another
SC.W to v, exactly when there is such an SC.W, or an aligned store into the word at pa comes with a store that starts in
the word at physical address v, and a store that starts there with one to a byte of the word at pa. -/
theorem paged_reservation_iff (h : LrToSc v t₀ r₁ p t ins) (htrap : t.traps.length ≤ r₁.state.traps.length) :
    ∀ pa ∈ (mmuWalk t₀ v .load).1,
      (((∃ x ∈ p, makesWrite (fun b => b.aligned ∧ b.word = pa) x.2 x.1) → scFails t ins) ∧
          (scFails t ins → (∃ x ∈ p, makesWrite (fun b => b.hits pa) x.2 x.1) ∨ ∃ x ∈ p, executesSc v x.2 x.1)) ↔
        ((∃ x ∈ p, executesSc v x.2 x.1) ∨
          ((∃ x ∈ p, makesWrite (fun b => b.aligned ∧ b.word = pa) x.2 x.1) →
            ∃ x ∈ p, makesWrite (fun b => b.word = v) x.2 x.1) ∧
          ((∃ x ∈ p, makesWrite (fun b => b.word = v) x.2 x.1) →
            ∃ x ∈ p, makesWrite (fun b => b.hits pa) x.2 x.1)) := by
  intro pa _
  have hf : scFails t ins ↔
      (∃ x ∈ p, makesWrite (fun b => b.word = v) x.2 x.1) ∨ ∃ x ∈ p, executesSc v x.2 x.1 := by
    rw [h.fails_iff, or_iff_right (by omega)]
    simp only [and_or_left, exists_or]
  rw [hf]
  by_cases hsc : ∃ x ∈ p, executesSc v x.2 x.1
  · exact iff_of_true ⟨fun _ => Or.inr hsc, fun _ => Or.inr hsc⟩ (Or.inl hsc)
  · rw [or_iff_left hsc, or_iff_left hsc, or_iff_right hsc]

end

/-! ## A store that leaves the reservation -/

/-- lr.w x5, (x9), sw x0, 0(x9) and sc.w x6, x0, (x9), and at 0x1000 the entries of a page table: the first maps 4 MiB to
themselves, the second the next 4 MiB to 0x800000 -/
def mappedMemory (a : Word) : Byte :=
  if a.toNat < 12 then Bytes.byte (n := 12) (0x1804A32F0004A0231004A2AF : BitVec 96) a.toNat
  else if 0x1000 ≤ a.toNat ∧ a.toNat < 0x1008 then Bytes.byte (n := 8) (0x002000CF000000CF : BitVec 64) (a.toNat - 0x1000)
  else 0

/-- S-mode with that page table about to execute them with x9 = 0x400000 -/
def mappedRun : Run :=
  { runInit (fun _ => 0) mappedMemory 0 false with
    state := { machineInit (Function.update (fun _ => 0) 9 0x400000) mappedMemory 0 with
      privilege := prvSupervisor
      csr := Function.update (fun i => (csrTable i).value) csrSatp 0x80000001 } }

/-- the store and the SC.W go to the word the LR.W has reserved, and the SC.W succeeds -/
theorem mappedRun_rounds : ∃ t₀ r₁ t ins, @loopStep noFloat mappedRun ⟨[], false⟩ r₁ ∧
    @LrToSc noFloat 0x400000 t₀ r₁ [(r₁, ⟨[], false⟩)] t ins ∧ ((mmuWalk t₀ 0x400000 .load).1 = some 0x800000 ∧
      makesWrite (fun b => b.aligned ∧ b.word = 0x800000) ⟨[], false⟩ r₁ ∧
      makesWrite (fun b => b.hits 0x800000) ⟨[], false⟩ r₁ ∧ getReserveStatus t 0x400000 = true ∧
      t.traps.length ≤ r₁.state.traps.length) :=
  @exists_lrToSc noFloat 0x400000 ⟨[], false⟩ mappedRun
    (fun t₀ r₁ t _ => (mmuWalk t₀ 0x400000 .load).1 = some 0x800000 ∧
      makesWrite (fun b => b.aligned ∧ b.word = 0x800000) ⟨[], false⟩ r₁ ∧
      makesWrite (fun b => b.hits 0x800000) ⟨[], false⟩ r₁ ∧ getReserveStatus t 0x400000 = true ∧
      t.traps.length ≤ r₁.state.traps.length) _ (by decide)

theorem mappedRun_succeeds : ∃ t₀ r₁ t ins, @LrToSc noFloat 0x400000 t₀ r₁ [(r₁, ⟨[], false⟩)] t ins ∧
    (mmuWalk t₀ 0x400000 .load).1 = some 0x800000 ∧ t.traps.length ≤ r₁.state.traps.length ∧
    makesWrite (fun b => b.aligned ∧ b.word = 0x800000) ⟨[], false⟩ r₁ ∧
    makesWrite (fun b => b.hits 0x800000) ⟨[], false⟩ r₁ ∧ ¬ @scFails noFloat t ins := by
  obtain ⟨t₀, r₁, t, ins, -, hrun, hpa, hw, hhit, hr, htrap⟩ := mappedRun_rounds
  refine ⟨t₀, r₁, t, ins, hrun, hpa, htrap, hw, hhit, ?_⟩
  intro hf
  let _ : SoftFloat := noFloat
  obtain ⟨s', hok⟩ := isSc_ok hrun.sc (by decide)
  exact (scFails_iff hrun.sc hok).1 hf ((getReserveStatus_iff t 0x400000).1 hr)

/-- the store clears the reservation of the word at 0x800000, LR.W has set that of 0x400000 -/
theorem mapped_store_keeps_reservation : ¬ ∀ t₀ r₁ p t ins, @LrToSc noFloat 0x400000 t₀ r₁ p t ins →
    (mmuWalk t₀ 0x400000 .load).1 = some 0x800000 → t.traps.length ≤ r₁.state.traps.length →
      (∃ x ∈ p, makesWrite (fun b => b.aligned ∧ b.word = 0x800000) x.2 x.1) → @scFails noFloat t ins := by
  intro h
  obtain ⟨t₀, r₁, t, ins, hrun, hpa, htrap, hw, -, hf⟩ := mappedRun_succeeds
  exact hf (h t₀ r₁ _ t ins hrun hpa htrap ⟨_, List.mem_singleton_self _, hw⟩)

/-- so no store of the run starts in the word at 0x400000 -/
theorem paged_reservation_mappedRun : ∃ t₀ r₁ p t ins, @LrToSc noFloat 0x400000 t₀ r₁ p t ins ∧
    (mmuWalk t₀ 0x400000 .load).1 = some 0x800000 ∧
    ∀ x ∈ p, ¬ makesWrite (fun b => b.word = 0x400000) x.2 x.1 := by
  obtain ⟨t₀, r₁, t, ins, hrun, hpa, htrap, hw, hhit, hf⟩ := mappedRun_succeeds
  have hstore : ∃ x ∈ [(r₁, (⟨[], false⟩ : HostInput))], makesWrite (fun b => b.aligned ∧ b.word = 0x800000) x.2 x.1 :=
    ⟨_, List.mem_singleton_self _, hw⟩
  have hiff := @paged_reservation_iff noFloat _ _ _ _ _ _ hrun htrap 0x800000 hpa
  refine ⟨t₀, r₁, _, t, ins, hrun, hpa, ?_⟩
  intro x hx hv
  -- a store that starts there would make the condition hold, and the SC.W fail
  exact hf ((hiff.2 (Or.inr ⟨fun _ => ⟨x, hx, hv⟩, fun _ => ⟨_, List.mem_singleton_self _, hhit⟩⟩)).1 hstore)

end RiscvEmu
