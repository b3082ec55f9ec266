/-
The reservations over runs of the main loop, and the stores that should end them.

A store ends the reservation of the word its first byte lies in. FSD and FSQ write more words than that, and so does an
FP store of a word or half-word that crosses into the next word. Results:
- `iteration_reserves`: an iteration dispatches interrupts, then executes one word at most;
- `run_reserved_iff`: a word stays reserved over a run without a trap, an SC.W to it or a write that starts in it;
- `store_kills_reservation_iff`: a store to a reserved word makes SC.W fail exactly when something of these ends the
  reservation as well;
- `fsd_keeps_reservation`: a run in which FSD overwrites a reserved word and SC.W succeeds.
-/
import RiscvEmu.Modes
import RiscvEmu.Reservation

namespace RiscvEmu

open Runs

/-! ## One iteration -/

section
variable {s s' : Machine}

theorem raiseInterrupt_effect (s : Machine) (irq : Word) : Effect s [] (raiseInterrupt s irq) := by
  refine ⟨fun x _ => by rw [raiseInterrupt_mainMemory], Or.inr ⟨?_, fun k hr => ?_⟩⟩
  · rw [raiseInterrupt_traps]
    simp
  · obtain ⟨v, hv, -⟩ := hr
    rw [raiseInterrupt_eq] at hv
    have hn : (clearReservations s).mmuFlags.get k = none := clearReservations_get s k
    exact absurd (hv.symm.trans hn) (by simp)

theorem fetchState_effect (host : HostInput) (r : Run) : Effect r.state [] (fetchState host r) := by
  have hd : Effect r.state [] (checkAndHandleInterrupts r.state) := by
    rcases checkAndHandleInterrupts_cases r.state with h | ⟨irq, h⟩
    · rw [h]
      exact .refl _
    · rw [h]
      exact raiseInterrupt_effect _ irq
  exact hd.nil_trans (.same rfl rfl rfl)

theorem spinDetect_effect (s : Machine) (d : SpinDetector) (fetchPc : Word) : Effect s [] (spinDetect s d fetchPc).1 := by
  simp only [spinDetect]
  split_ifs <;> simp only [spinConclude] <;> exact .same rfl rfl rfl

theorem finish_effect (r : Run) (fetchPc : Word) (s : Machine) : Effect s [] (finish r fetchPc s).state := by
  have ht : Effect s [] (tick { s with pc := s.pc + 4 }) := by
    simp only [tick]
    split_ifs <;> exact .same rfl rfl rfl
  exact ht.nil_trans (spinDetect_effect _ _ _)

theorem mmuFetchOk_effect (s : Machine) (vaddr : Word) : Effect s [] (mmuFetchOk s vaddr).2 := by
  have ht := mmuTranslate_effect s vaddr .fetch
  unfold mmuFetchOk
  rcases hm : mmuTranslate s vaddr .fetch with ⟨_ | pa, t⟩
  · rw [hm] at ht
    exact ht
  · rw [hm] at ht
    exact ht.trans_nil (.same rfl rfl rfl)

variable [SoftFloat]

/-- a fetch that does not go through makes no write -/
theorem fetchExec_effect (h : fetchExec s = .ok s') : (∀ t ins, ¬ Fetches s t ins) ∧ Effect s [] s' ∨
    ∃ t ins, Fetches s t ins ∧ Effect s [] t ∧ exec t ins = .ok s' := by
  have hf := mmuFetchOk_effect s s.pc
  simp only [fetchExec] at h
  unfold Fetches
  rcases hm : mmuFetchOk s s.pc with ⟨_ | ins, t⟩
  · rw [hm] at h hf
    obtain rfl := Except.ok.inj h
    exact Or.inl ⟨by simp, hf⟩
  · rw [hm] at h hf
    simp only [sdtrigCheckFetchTrigger, sdtrigCheck] at h
    cases hg : triggerFires t s.pc sdtrigExecute with
    | true =>
      rw [hg, if_pos rfl] at h
      obtain rfl := Except.ok.inj h
      refine Or.inl ⟨?_, hf.nil_trans (.raise _ _ _ _)⟩
      intro u w hu
      obtain ⟨-, rfl⟩ := Prod.mk.inj hu.1
      exact absurd (hg.symm.trans hu.2) (by decide)
    | false =>
      rw [hg, if_neg Bool.false_ne_true] at h
      exact Or.inr ⟨t, ins, ⟨rfl, hg⟩, hf, h⟩

/-- **One iteration**: nothing before its instruction makes a write, and nothing after it touches the reservations. -/
theorem iteration_reserves {host : HostInput} {r r' : Run} (h : iteration host r = .ok r') :
    (∀ t ins, ¬ Executes host r t ins) ∧ Effect r.state [] r'.state ∨
      ∃ t ins u, Executes host r t ins ∧ Effect r.state [] t ∧ exec t ins = .ok u ∧ Effect u [] r'.state ∧
        r'.state.traps = u.traps := by
  have hs := fetchState_effect host r
  rcases iteration_cases h with ⟨hq, hr⟩ | ⟨hq, v, hf, rfl⟩
  · refine Or.inl ⟨fun t ins he => absurd (he.1.symm.trans hq) (by decide), ?_⟩
    rw [hr]
    exact hs.nil_trans (.same rfl rfl rfl)
  · have hfin := finish_effect r (fetchState host r).pc v
    rcases fetchExec_effect hf with ⟨hn, he⟩ | ⟨t, ins, hm, ht, he⟩
    · exact Or.inl ⟨fun t ins hx => hn t ins hx.2, (hs.nil_trans he).nil_trans hfin⟩
    · exact Or.inr ⟨t, ins, v, ⟨hq, hm⟩, hs.nil_trans ht, he, hfin, (finish_quiet _ _ _).traps⟩

end

/-! ## What an iteration executes -/

/-- a byte of the word at w is written -/
def PhysWrite.hits (b : PhysWrite) (w : Word) : Prop := ∃ j < 4, b.covers (w + BitVec.ofNat 32 j)

instance (b : PhysWrite) (w : Word) : Decidable (b.hits w) := by unfold PhysWrite.hits; infer_instance

/-- the iteration makes a write with the property -/
def makesWrite (P : PhysWrite → Prop) (host : HostInput) (r : Run) : Prop :=
  ∃ x ∈ executed host r, ∃ b ∈ execWrites x.1 x.2, P b

/-- the iteration executes an LR.W to word w -/
def executesLr (w : Word) (host : HostInput) (r : Run) : Prop := ∃ x ∈ executed host r, isLr x.1 x.2 w

/-- the iteration executes an SC.W to word w -/
def executesSc (w : Word) (host : HostInput) (r : Run) : Prop := ∃ x ∈ executed host r, isSc x.1 x.2 w

section
variable {host : HostInput} {r : Run} {t : Machine} {ins : Word}

instance (s : Machine) (ins a : Word) : Decidable (isLr s ins a) := by unfold isLr; infer_instance
instance (s : Machine) (ins a : Word) : Decidable (isSc s ins a) := by unfold isSc; infer_instance

instance (P : PhysWrite → Prop) [DecidablePred P] (host : HostInput) (r : Run) : Decidable (makesWrite P host r) := by
  unfold makesWrite
  infer_instance

instance (w : Word) (host : HostInput) (r : Run) : Decidable (executesLr w host r) := by
  unfold executesLr
  infer_instance

instance (w : Word) (host : HostInput) (r : Run) : Decidable (executesSc w host r) := by
  unfold executesSc
  infer_instance

theorem exists_executed (h : Executes host r t ins) (P : Machine → Word → Prop) :
    (∃ x ∈ executed host r, P x.1 x.2) ↔ P t ins := by
  rw [(executes_iff host r t ins).1 h]
  simp

theorem executed_none (h : ∀ t ins, ¬ Executes host r t ins) : executed host r = none := by
  rw [Option.eq_none_iff_forall_not_mem]
  intro x hx
  exact h x.1 x.2 ((executes_iff host r x.1 x.2).2 hx)

theorem Executes.effect (h : Executes host r t ins) : Effect r.state [] t := by
  have hf := mmuFetchOk_effect (fetchState host r) (fetchState host r).pc
  rw [h.2.1] at hf
  exact (fetchState_effect host r).nil_trans hf

end

/-! ## Runs -/

section
variable [SoftFloat]

/-- **One iteration** without an LR.W to the word. -/
theorem iteration_reserved_iff {host : HostInput} {r r' : Run} {k : Word} (h : iteration host r = .ok r')
    (hlr : ¬ executesLr k host r) :
    r.state.traps.length ≤ r'.state.traps.length ∧
      (reserved r'.state k ↔ reserved r.state k ∧ r'.state.traps.length ≤ r.state.traps.length ∧
        ¬ makesWrite (fun b => b.word = k) host r ∧ ¬ executesSc k host r) := by
  rcases iteration_reserves h with ⟨hn, he⟩ | ⟨t, ins, u, hx, ht, hu, hr, htr⟩
  · have hres := he.reserves
    have hle := hres.traps_le
    refine ⟨hle, ?_⟩
    by_cases hq : r'.state.traps.length = r.state.traps.length
    · rw [hres.quiet hq]
      simp [hq, makesWrite, executesSc, executed_none hn]
    · rw [hres.trap hq]
      exact iff_of_false id fun hc => by omega
  · have hres := (exec_reserves hu).after ht
    have hle := hres.traps_le
    have hku : reserved r'.state k ↔ reserved u k := by
      rw [hr.reserves.quiet (by rw [htr])]
      simp
    rw [executesLr, exists_executed hx (fun t ins => isLr t ins k)] at hlr
    rw [makesWrite, executesSc, exists_executed hx (fun t ins => ∃ b ∈ execWrites t ins, b.word = k),
      exists_executed hx (fun t ins => isSc t ins k), hku, htr]
    refine ⟨hle, ?_⟩
    by_cases hq : u.traps.length = r.state.traps.length
    · rw [hres.quiet hq]
      simp [hlr, hq, eq_comm]
    · rw [hres.trap hq]
      exact iff_of_false hlr fun hc => by omega

/-- **A run without an LR.W to the word.** It stays reserved if no trap is taken, no write starts in it and no SC.W to it
is executed. -/
theorem run_reserved_iff {p : List (Run × HostInput)} {r r' : Run} {k : Word} (hp : Path loopStep r p r')
    (hlr : ∀ x ∈ p, ¬ executesLr k x.2 x.1) :
    r.state.traps.length ≤ r'.state.traps.length ∧
      (reserved r'.state k ↔ reserved r.state k ∧ r'.state.traps.length ≤ r.state.traps.length ∧
        ∀ x ∈ p, ¬ makesWrite (fun b => b.word = k) x.2 x.1 ∧ ¬ executesSc k x.2 x.1) := by
  induction hp with
  | nil r => simp
  | @cons r t r' host p h hp ih =>
    have hnot : ¬ executesLr k host r := hlr (r, host) List.mem_cons_self
    obtain ⟨hle, hstep⟩ := iteration_reserved_iff h.2 hnot
    obtain ⟨hle', hrest⟩ := ih fun x hx => hlr x (List.mem_cons_of_mem _ hx)
    refine ⟨by omega, ?_⟩
    rw [hrest, hstep, List.forall_mem_cons]
    constructor
    · rintro ⟨⟨hr, ht, hw⟩, ht', hw'⟩
      exact ⟨hr, by omega, hw, hw'⟩
    · rintro ⟨hr, ht, hw, hw'⟩
      exact ⟨⟨hr, by omega, hw⟩, by omega, hw'⟩

/-- a run p from an LR.W to w, which it leaves in state r₁, to an SC.W to w, which is word ins in state t -/
structure LrToSc (w : Word) (t₀ : Machine) (r₁ : Run) (p : List (Run × HostInput)) (t : Machine) (ins : Word) : Prop where
  lr : ∃ r₀ host ins₀, loopStep r₀ host r₁ ∧ Executes host r₀ t₀ ins₀ ∧ isLr t₀ ins₀ w
  path : ∃ r₂ host, Path loopStep r₁ p r₂ ∧ Executes host r₂ t ins
  sc : isSc t ins w
  noLr : ∀ x ∈ p, ¬ executesLr w x.2 x.1

variable {w ins : Word} {t₀ t : Machine} {r₁ : Run} {p : List (Run × HostInput)}

/-- LR.W leaves its word reserved -/
theorem LrToSc.lr_reserved (h : LrToSc w t₀ r₁ p t ins) : reserved r₁.state w ∧ w &&& 3 = 0 := by
  obtain ⟨r₀, host, ins₀, hstep, hx, hlr⟩ := h.lr
  rcases iteration_reserves hstep.2 with ⟨hn, -⟩ | ⟨u, w', v, hx', -, hu, hr, htr⟩
  · exact absurd hx (hn _ _)
  · obtain ⟨rfl, rfl⟩ := hx'.unique hx
    refine ⟨?_, isLr_aligned hlr hu⟩
    have hk : reserved r₁.state w ↔ reserved v w := by
      rw [hr.reserves.quiet (by rw [htr])]
      simp
    have hres := exec_reserves hu
    rw [hk]
    by_cases hq : v.traps.length = t₀.traps.length
    · simp [hres.quiet hq, hlr]
    · simp [hres.trap hq, hlr]

/-- what makes the SC.W at the end fail -/
theorem LrToSc.fails_iff (h : LrToSc w t₀ r₁ p t ins) : scFails t ins ↔ r₁.state.traps.length < t.traps.length ∨
    ∃ x ∈ p, makesWrite (fun b => b.word = w) x.2 x.1 ∨ executesSc w x.2 x.1 := by
  obtain ⟨r₂, host, hp, hx⟩ := h.path
  obtain ⟨hr, ha⟩ := h.lr_reserved
  obtain ⟨s', hs'⟩ := isSc_ok h.sc ha
  obtain ⟨hle, hrun⟩ := run_reserved_iff hp h.noLr
  have hlast := hx.effect.reserves
  have hle' := hlast.traps_le
  have ht : reserved t w ↔ reserved r₂.state w ∧ t.traps.length ≤ r₂.state.traps.length := by
    by_cases hq : t.traps.length = r₂.state.traps.length
    · rw [hlast.quiet hq]
      simp [hq]
    · rw [hlast.trap hq]
      exact iff_of_false id fun hc => by omega
  rw [scFails_iff h.sc hs', ht, hrun]
  simp only [hr, true_and]
  constructor
  · intro hn
    by_contra hc
    push Not at hc
    exact hn ⟨⟨by omega, hc.2⟩, by omega⟩
  · rintro (hlt | ⟨x, hx, hk⟩) ⟨⟨hle, hno⟩, hle'⟩
    · omega
    · rcases hk with hk | hk
      · exact (hno x hx).1 hk
      · exact (hno x hx).2 hk

/-- **Stores to a reserved word.** A store of the run that writes a byte of the word makes the SC.W fail exactly when a
trap is taken, a write of the run starts in the word or another SC.W to it comes first. Without translation the addresses
of the instructions are the physical ones (`accessWrite_bare`). -/
theorem store_kills_reservation_iff (h : LrToSc w t₀ r₁ p t ins) :
    ((∃ x ∈ p, makesWrite (fun b => b.hits w) x.2 x.1) → scFails t ins) ↔
      ((∃ x ∈ p, makesWrite (fun b => b.hits w) x.2 x.1) → r₁.state.traps.length < t.traps.length ∨
        ∃ x ∈ p, makesWrite (fun b => b.word = w) x.2 x.1 ∨ executesSc w x.2 x.1) := by
  rw [h.fails_iff]

/-- three rounds, with LR.W in the first and SC.W in the third -/
theorem exists_lrToSc {host : HostInput} {r₀ : Run} (P : Machine → Run → Machine → Word → Prop)
    [∀ t₀ r₁ t ins, Decidable (P t₀ r₁ t ins)]
    (h : ((executed host r₀).any fun x₀ => (iteration host r₀).toOption.any fun r₁ =>
      (iteration host r₁).toOption.any fun r₂ => (executed host r₂).any fun x =>
        decide (r₀.goesOn ∧ r₁.goesOn ∧ isLr x₀.1 x₀.2 w ∧ isSc x.1 x.2 w ∧ ¬ executesLr w host r₁) &&
          decide (P x₀.1 r₁ x.1 x.2)) = true) :
    ∃ t₀ r₁ t ins, loopStep r₀ host r₁ ∧ LrToSc w t₀ r₁ [(r₁, host)] t ins ∧ P t₀ r₁ t ins := by
  simp only [Option.any_eq_true, Bool.and_eq_true, decide_eq_true_eq] at h
  obtain ⟨x₀, hx₀, r₁, h₁, r₂, h₂, x, hx, ⟨hg₀, hg₁, hlr, hsc, hno⟩, hP⟩ := h
  have hok : ∀ {r r' : Run}, (iteration host r).toOption = some r' → iteration host r = .ok r' := by
    intro r r' hi
    cases he : iteration host r with
    | error e => rw [he] at hi; cases hi
    | ok u => rw [he] at hi; exact congrArg _ (Option.some.inj hi)
  refine ⟨x₀.1, r₁, x.1, x.2, ⟨hg₀, hok h₁⟩, ⟨?_, ?_, hsc, ?_⟩, hP⟩
  · exact ⟨r₀, host, x₀.2, ⟨hg₀, hok h₁⟩, (executes_iff _ _ _ _).2 hx₀, hlr⟩
  · exact ⟨r₂, host, .cons ⟨hg₁, hok h₂⟩ (.nil r₂), (executes_iff _ _ _ _).2 hx⟩
  · simpa using hno

end

/-! ## A store that leaves the reservation -/

/-- M-mode about to execute lr.w x5, (x9), c.fsd f8, 0(x8) and sc.w x6, x0, (x9) with x8 = 0x1000 and x9 = 0x1004 -/
def fsdRun : Run :=
  runInit (Function.update (Function.update (fun _ => 0) 8 0x1000) 9 0x1004)
    (fun a => Bytes.byte (n := 10) (0x1804A32FA0001004A2AF : BitVec 80) a.toNat) 0 false

theorem fsdRun_rounds : ∃ t₀ r₁ t ins, @loopStep noFloat fsdRun ⟨[], false⟩ r₁ ∧
    @LrToSc noFloat 0x1004 t₀ r₁ [(r₁, ⟨[], false⟩)] t ins ∧ makesWrite (fun b => b.hits 0x1004) ⟨[], false⟩ r₁ ∧
    getReserveStatus t 0x1004 = true :=
  @exists_lrToSc noFloat 0x1004 ⟨[], false⟩ fsdRun
    (fun _ r₁ t _ => makesWrite (fun b => b.hits 0x1004) ⟨[], false⟩ r₁ ∧ getReserveStatus t 0x1004 = true) _ (by decide)

/-- the SC.W of the run succeeds although the store before it has written the word -/
theorem fsdRun_succeeds : ∃ t₀ r₁ t ins, @loopStep noFloat fsdRun ⟨[], false⟩ r₁ ∧
    @LrToSc noFloat 0x1004 t₀ r₁ [(r₁, ⟨[], false⟩)] t ins ∧ makesWrite (fun b => b.hits 0x1004) ⟨[], false⟩ r₁ ∧
    ¬ @scFails noFloat t ins := by
  obtain ⟨t₀, r₁, t, ins, hs, hrun, hw, hr⟩ := fsdRun_rounds
  refine ⟨t₀, r₁, t, ins, hs, hrun, hw, ?_⟩
  intro hf
  let _ : SoftFloat := noFloat
  obtain ⟨s', hok⟩ := isSc_ok hrun.sc (by decide)
  exact (scFails_iff hrun.sc hok).1 hf ((getReserveStatus_iff t 0x1004).1 hr)

/-- FSD clears the reservation of the word below only -/
theorem fsd_keeps_reservation : ¬ ∀ t₀ r₁ p t ins, @loopStep noFloat fsdRun ⟨[], false⟩ r₁ →
    @LrToSc noFloat 0x1004 t₀ r₁ p t ins → (∃ x ∈ p, makesWrite (fun b => b.hits 0x1004) x.2 x.1) →
      @scFails noFloat t ins := by
  intro h
  obtain ⟨t₀, r₁, t, ins, hs, hrun, hw, hf⟩ := fsdRun_succeeds
  exact hf (h t₀ r₁ _ t ins hs hrun ⟨_, List.mem_singleton_self _, hw⟩)

/-- so nothing in the run ends the reservation -/
theorem store_kills_reservation_fsdRun : ∃ t₀ r₁ p t ins, @LrToSc noFloat 0x1004 t₀ r₁ p t ins ∧
    (∃ x ∈ p, makesWrite (fun b => b.hits 0x1004) x.2 x.1) ∧ ¬ r₁.state.traps.length < t.traps.length ∧
    ∀ x ∈ p, ¬ makesWrite (fun b => b.word = 0x1004) x.2 x.1 := by
  obtain ⟨t₀, r₁, t, ins, hs, hrun, hw, hf⟩ := fsdRun_succeeds
  have hhit : ∃ x ∈ [(r₁, (⟨[], false⟩ : HostInput))], makesWrite (fun b => b.hits 0x1004) x.2 x.1 :=
    ⟨_, List.mem_singleton_self _, hw⟩
  have hnot := mt (@store_kills_reservation_iff noFloat _ _ _ _ _ _ hrun).2 fun hk => hf (hk hhit)
  push Not at hnot
  exact ⟨t₀, r₁, _, t, ins, hrun, hhit, not_lt.2 hnot.2.1, fun x hx => (hnot.2.2 x hx).1⟩

end RiscvEmu
