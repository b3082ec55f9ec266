/-
Which LR.W an SC.W pairs with.

The table holds a reservation for each word, not one for the hart: LR.W to another word adds to it, and SC.W gives up
that of its own word only. Over runs from reset without translation:
- `reserved_latest`: a reserved word goes back to the latest LR.W or SC.W to it, an LR.W with no trap since;
- `sc_pairs_word`: so SC.W pairs with the latest LR.W to its word and leaves its word without a reservation;
- `stale_reservation_pairs`: it need not pair with the latest LR.W, and may leave other reservations.
-/
import RiscvEmu.ReservationRuns

namespace RiscvEmu

open Runs

/-- loads and stores are not translated in the state in which the iteration executes -/
def translationOff (host : HostInput) (r : Run) : Prop :=
  ∀ x ∈ executed host r, mmuVmActive x.1 (mmuEffectiveDpriv x.1) = false

instance (host : HostInput) (r : Run) : Decidable (translationOff host r) := by unfold translationOff; infer_instance

section
variable {gpr : Reg → Word} {mainMemory : Word → Byte} {programBase : Word} {active : Bool} {a : Word}

theorem not_reserved_runInit : ¬ reserved (runInit gpr mainMemory programBase active).state a := by
  intro h
  obtain ⟨v, hv, -⟩ := h
  have hn : Hashmap.init.get a = none := Hashmap.get_of_size_zero rfl a
  exact absurd (hv.symm.trans hn) (by simp)

end

section
variable [SoftFloat]

/-- without translation LR.W takes no trap -/
theorem isLr_bare {s s' : Machine} {ins a : Word} (h : isLr s ins a) (hok : exec s ins = .ok s')
    (hb : mmuVmActive s (mmuEffectiveDpriv s) = false) : s'.traps = s.traps := by
  obtain ⟨rs1, rs2, rd, hd, rfl⟩ := isLr_eq h
  rw [exec_decode h.1.1 h.1.2, hd] at hok
  have hrun : insaRLrW s rs1 rd = .ok s' := hok
  have hw : mmuWalk s (regRead s rs1) .load = (some (regRead s rs1), s.dev) := by
    simp [mmuWalk, effectivePriv, hb]
  simp only [insaRLrW] at hrun
  split_ifs at hrun
  obtain rfl := Except.ok.inj hrun
  change (mmuRead32Unsigned s (regRead s rs1)).2.traps = s.traps
  rw [mmuRead32Unsigned, mmuRead_some hw]

variable {gpr : Reg → Word} {mainMemory : Word → Byte} {programBase : Word} {active : Bool}
  {p : List (Run × HostInput)} {r : Run} {a : Word}

/-- the latest LR.W or SC.W to word a in the run is an LR.W in state t₀, and no write starts in the word after it -/
def latestLr (a : Word) (p : List (Run × HostInput)) (t₀ : Machine) : Prop :=
  ∃ p₁ y p₂ ins₀, p = p₁ ++ y :: p₂ ∧ Executes y.2 y.1 t₀ ins₀ ∧ isLr t₀ ins₀ a ∧
    ∀ z ∈ p₂, ¬ executesLr a z.2 z.1 ∧ ¬ executesSc a z.2 z.1 ∧ ¬ makesWrite (fun b => b.word = a) z.2 z.1

/-- **A reservation goes back to the latest LR.W to its word, with no trap since.** -/
theorem reserved_latest (hp : Path loopStep (runInit gpr mainMemory programBase active) p r)
    (hoff : ∀ x ∈ p, translationOff x.2 x.1) (hr : reserved r.state a) :
    ∃ t₀, latestLr a p t₀ ∧ r.state.traps.length = t₀.traps.length := by
  by_cases hlr : ∃ x ∈ p, executesLr a x.2 x.1
  · obtain ⟨p₁, y, p₂, rfl, hy, hno⟩ := exists_latest hlr
    obtain ⟨-, r₁, hstep, hrest⟩ := hp.split
    obtain ⟨hle, hiff⟩ := run_reserved_iff hrest hno
    obtain ⟨-, htr, hkill⟩ := hiff.1 hr
    obtain ⟨x, hx, hisLr⟩ := hy
    have hxe := (executes_iff _ _ _ _).2 hx
    -- the LR.W itself took no trap
    have htraps : r₁.state.traps = x.1.traps := by
      rcases iteration_reserves hstep.2 with ⟨hn, -⟩ | ⟨u, w, v, hx', -, hu, -, hv⟩
      · exact absurd hxe (hn _ _)
      · obtain ⟨rfl, rfl⟩ := hxe.unique hx'
        rw [hv]
        exact isLr_bare hisLr hu (hoff y (List.mem_append_right _ List.mem_cons_self) _ hx)
    refine ⟨x.1, ⟨p₁, y, p₂, x.2, rfl, hxe, hisLr, fun z hz => ⟨hno z hz, (hkill z hz).2, (hkill z hz).1⟩⟩, ?_⟩
    rw [← htraps]
    omega
  · push Not at hlr
    exact absurd ((run_reserved_iff hp hlr).2.1 hr).1 not_reserved_runInit

/-- **SC.W pairs with the latest LR.W to its word.** It succeeds only if the latest LR.W or SC.W to the word was an LR.W
with no trap since, and it leaves the word without a reservation. -/
theorem sc_pairs_word (hp : Path loopStep (runInit gpr mainMemory programBase active) p r)
    (hoff : ∀ x ∈ p, translationOff x.2 x.1) {host : HostInput} {t s' : Machine} {ins : Word}
    (hx : Executes host r t ins) (hsc : isSc t ins a) (hok : exec t ins = .ok s') :
    (¬ scFails t ins → ∃ t₀, latestLr a p t₀ ∧ t.traps.length = t₀.traps.length) ∧ ¬ reserved s' a := by
  refine ⟨?_, ?_⟩
  · intro hs
    rw [scFails_iff hsc hok, not_not] at hs
    have hres := hx.effect.reserves
    by_cases hq : t.traps.length = r.state.traps.length
    · have hr := ((hres.quiet hq a).1 hs).resolve_left id
      obtain ⟨t₀, hlatest, htr⟩ := reserved_latest hp hoff hr.1
      exact ⟨t₀, hlatest, hq.trans htr⟩
    · exact ((hres.trap hq a).1 hs).elim
  · intro hr
    have hlr : ¬ isLr t ins a := by
      obtain ⟨rs1, rs2, rd, hd, -⟩ := isSc_eq hsc
      intro hl
      obtain ⟨rs1', rs2', rd', hd', -⟩ := isLr_eq hl
      rw [hd] at hd'
      cases hd'
    have hres := exec_reserves hok
    by_cases hq : s'.traps.length = t.traps.length
    · exact (((hres.quiet hq a).1 hr).resolve_left hlr).2.2 hsc
    · exact hlr ((hres.trap hq a).1 hr)

end

/-! ## Two reservations -/

/-- M-mode about to execute lr.w x5, (x9), lr.w x7, (x8) and sc.w x6, x0, (x9) with x8 = 0x1000 and x9 = 0x1004 -/
def twoLrRun : Run :=
  runInit (Function.update (Function.update (fun _ => 0) 8 0x1000) 9 0x1004)
    (fun a => Bytes.byte (n := 12) (0x1804A32F100423AF1004A2AF : BitVec 96) a.toNat) 0 false

/-- the SC.W is to the word of the first LR.W, and both words are reserved -/
theorem twoLrRun_rounds : ∃ t₀ r₁ t ins, @loopStep noFloat twoLrRun ⟨[], false⟩ r₁ ∧
    @LrToSc noFloat 0x1004 t₀ r₁ [(r₁, ⟨[], false⟩)] t ins ∧ (executesLr 0x1000 ⟨[], false⟩ r₁ ∧
      translationOff ⟨[], false⟩ r₁ ∧ getReserveStatus t 0x1004 = true ∧
      ((@exec noFloat t ins).toOption.any fun s => getReserveStatus s 0x1000) = true) :=
  @exists_lrToSc noFloat 0x1004 ⟨[], false⟩ twoLrRun
    (fun _ r₁ t ins => executesLr 0x1000 ⟨[], false⟩ r₁ ∧ translationOff ⟨[], false⟩ r₁ ∧
      getReserveStatus t 0x1004 = true ∧ ((@exec noFloat t ins).toOption.any fun s => getReserveStatus s 0x1000) = true) _ (by decide)

/-- the SC.W succeeds although the latest LR.W was to another word, and the reservation of that word stays -/
theorem stale_reservation_pairs :
    (¬ ∀ t₀ r₁ p t ins, @LrToSc noFloat 0x1004 t₀ r₁ p t ins → ¬ @scFails noFloat t ins →
      ∀ x ∈ p, ∀ a, executesLr a x.2 x.1 → a = 0x1004) ∧
    ¬ ∀ t₀ r₁ p t ins s', @LrToSc noFloat 0x1004 t₀ r₁ p t ins → @exec noFloat t ins = .ok s' →
      ∀ a, ¬ reserved s' a := by
  let _ : SoftFloat := noFloat
  obtain ⟨t₀, r₁, t, ins, -, hrun, hlr, -, hr, hend⟩ := twoLrRun_rounds
  obtain ⟨s', hok⟩ := isSc_ok hrun.sc (by decide)
  refine ⟨?_, ?_⟩
  · intro h
    have hs : ¬ scFails t ins := by
      rw [scFails_iff hrun.sc hok, not_not]
      exact (getReserveStatus_iff t 0x1004).1 hr
    have he := h t₀ r₁ _ t ins hrun hs _ (List.mem_singleton_self _) 0x1000 hlr
    exact absurd he (by decide)
  · intro h
    rw [hok] at hend
    exact h t₀ r₁ _ t ins s' hrun hok 0x1000 ((getReserveStatus_iff s' 0x1000).1 hend)

/-- it pairs with the LR.W to its own word before that -/
theorem sc_pairs_word_twoLrRun : ∃ r₁ t₀, @loopStep noFloat twoLrRun ⟨[], false⟩ r₁ ∧
    latestLr 0x1004 [(twoLrRun, ⟨[], false⟩), (r₁, ⟨[], false⟩)] t₀ := by
  let _ : SoftFloat := noFloat
  obtain ⟨t₀, r₁, t, ins, hstep, hrun, -, hoff, hr, -⟩ := twoLrRun_rounds
  obtain ⟨r₂, host, hp, hx⟩ := hrun.path
  obtain ⟨s', hok⟩ := isSc_ok hrun.sc (by decide)
  have hs : ¬ scFails t ins := by
    rw [scFails_iff hrun.sc hok, not_not]
    exact (getReserveStatus_iff t 0x1004).1 hr
  have hall : ∀ x ∈ [(twoLrRun, (⟨[], false⟩ : HostInput)), (r₁, ⟨[], false⟩)], translationOff x.2 x.1 := by
    intro x hm
    rcases List.mem_cons.1 hm with rfl | hm
    · decide
    · rw [List.mem_singleton.1 hm]
      exact hoff
  obtain ⟨u, hu, -⟩ := (@sc_pairs_word noFloat _ _ _ _ _ r₂ 0x1004 (.cons hstep hp) hall _ t s' ins hx hrun.sc hok).1 hs
  exact ⟨r₁, u, hstep, hu⟩

end RiscvEmu
