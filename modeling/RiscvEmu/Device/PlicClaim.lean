/-
Claim and completion at the PLIC.

A claim read takes the best source of its context and marks it; the mark goes when the source is completed. Results:
- `plicBestSource_spec`: the loop over the sources ends at an eligible one of the highest priority, if there is one;
- `plicRead32_claim`, `plicRead32_other`: of the reads, only claims change anything;
- `PlicOp.step_claimed`, `PlicOp.step_pending`: what one operation does to the marks and to the lines;
- `plic_history`: after any sequence of operations the pending bits tell which lines are up, the marks which claims are open;
- `plic_claim_safe`: the law of claims and completions after every sequence of operations;
- `high_bits_complete`: a completion is taken from the low five bits of the value alone.
-/
import RiscvEmu.Device.Plic
import RiscvEmu.Lib.Bits
import RiscvEmu.Lib.Runs

namespace RiscvEmu

open Runs

/-! ## Eligible sources -/

/-- line asserted, enabled for the context, above its threshold and not claimed by it -/
def qualifies (p : Plic) (ctx id : ℕ) : Prop :=
  p.pending.getLsbD id = true ∧ (p.enable ctx).getLsbD id = true ∧ p.threshold ctx < p.priority id ∧
    p.claimed ctx id = false

instance (p : Plic) (ctx id : ℕ) : Decidable (qualifies p ctx id) := by unfold qualifies; infer_instance

/-- a source the context may claim -/
def eligible (p : Plic) (ctx id : ℕ) : Prop := (1 ≤ id ∧ id ≤ plicNdev) ∧ qualifies p ctx id

section
variable (p : Plic) (ctx : ℕ)

theorem plicBestStep_eq (b : ℕ × Word) (id : ℕ) :
    plicBestStep p ctx b id = if qualifies p ctx id ∧ p.priority id ≥ b.2 then (id, p.priority id) else b := by
  have hpend := Bits.and_bit_eq_zero p.pending (k := id)
  have hen := Bits.and_bit_eq_zero (p.enable ctx) (k := id)
  unfold plicBestStep qualifies
  by_cases h1 : p.pending.getLsbD id = true
  · rw [if_neg (by rw [hpend, h1]; decide)]
    by_cases h2 : p.claimed ctx id = true
    · rw [if_pos h2, if_neg (by simp [h2])]
    · rw [if_neg h2]
      by_cases h3 : (p.enable ctx).getLsbD id = true
      · rw [if_neg (by rw [hen, h3]; decide)]
        by_cases h4 : p.priority id ≤ p.threshold ctx
        · rw [if_pos h4, if_neg fun h => BitVec.not_lt.2 h4 h.1.2.2.1]
        · simp only [h1, h2, h3, h4, if_false, BitVec.not_le.1 h4, true_and, and_true]
      · rw [if_pos (by rw [hen]; simpa using h3), if_neg fun h => h3 h.1.2.1]
  · rw [if_pos (by rw [hpend]; simpa using h1), if_neg fun h => h1 h.1.1]

/-- what the loop has found among the sources seen -/
def Found (l : List ℕ) (b : ℕ × Word) : Prop :=
  b = (0, 0) ∧ (∀ id ∈ l, ¬ qualifies p ctx id) ∨
    b.1 ∈ l ∧ qualifies p ctx b.1 ∧ b.2 = p.priority b.1 ∧ ∀ id ∈ l, qualifies p ctx id → p.priority id ≤ b.2

theorem found_foldl (l : List ℕ) : Found p ctx l (l.foldl (plicBestStep p ctx) (0, 0)) := by
  induction l using List.reverseRecOn with
  | nil => exact Or.inl ⟨rfl, by simp⟩
  | append_singleton l a ih =>
    rw [List.foldl_append, List.foldl_cons, List.foldl_nil, plicBestStep_eq]
    generalize l.foldl (plicBestStep p ctx) (0, 0) = b at ih ⊢
    split_ifs with h
    · obtain ⟨hq, hge⟩ := h
      refine Or.inr ⟨by simp, hq, rfl, ?_⟩
      intro id hid hqid
      rcases List.mem_append.1 hid with hl | ha
      · rcases ih with ⟨-, hno⟩ | ⟨-, -, -, hmax⟩
        · exact absurd hqid (hno id hl)
        · exact BitVec.le_trans (hmax id hl hqid) hge
      · rw [List.mem_singleton.1 ha]
        exact BitVec.le_refl _
    · rcases ih with ⟨rfl, hno⟩ | ⟨hmem, hq, hpri, hmax⟩
      · -- every priority is at least 0, the initial best_pri
        refine Or.inl ⟨rfl, ?_⟩
        intro id hid hq
        rcases List.mem_append.1 hid with hl | ha
        · exact hno id hl hq
        · rw [List.mem_singleton.1 ha] at hq
          exact h ⟨hq, BitVec.le_def.2 (Nat.zero_le _)⟩
      · refine Or.inr ⟨List.mem_append_left _ hmem, hq, hpri, ?_⟩
        intro id hid hqid
        rcases List.mem_append.1 hid with hl | ha
        · exact hmax id hl hqid
        · rw [List.mem_singleton.1 ha] at hqid ⊢
          exact BitVec.le_of_lt (BitVec.not_le.1 fun hge => h ⟨hqid, hge⟩)

theorem mem_sources {id : ℕ} : id ∈ List.range' 1 plicNdev ↔ 1 ≤ id ∧ id ≤ plicNdev := by
  rw [List.mem_range'_1]
  omega

/-- **The best source** is eligible and of the highest priority; 0 stands for none. -/
theorem plicBestSource_spec : plicBestSource p ctx = 0 ∧ (∀ id, ¬ eligible p ctx id) ∨
    eligible p ctx (plicBestSource p ctx) ∧
      ∀ id, eligible p ctx id → p.priority id ≤ p.priority (plicBestSource p ctx) := by
  unfold plicBestSource
  rcases found_foldl p ctx (List.range' 1 plicNdev) with ⟨hb, hno⟩ | ⟨hmem, hq, hpri, hmax⟩
  · exact Or.inl ⟨by rw [hb], fun id he => hno id (mem_sources.2 he.1) he.2⟩
  · refine Or.inr ⟨⟨mem_sources.1 hmem, hq⟩, ?_⟩
    intro id he
    rw [← hpri]
    exact hmax id (mem_sources.2 he.1) he.2

theorem plicBestSource_ne_zero : plicBestSource p ctx ≠ 0 ↔ ∃ id, eligible p ctx id := by
  rcases plicBestSource_spec p ctx with ⟨h0, hno⟩ | ⟨he, -⟩
  · exact iff_of_false (not_not.2 h0) fun h => h.elim hno
  · exact iff_of_true (Nat.one_le_iff_ne_zero.1 he.1.1) ⟨_, he⟩

theorem plicBestSource_le : plicBestSource p ctx ≤ plicNdev := by
  rcases plicBestSource_spec p ctx with ⟨h0, -⟩ | ⟨he, -⟩
  · rw [h0]
    exact Nat.zero_le _
  · exact he.1.2

/-- the best source depends on the registers of the context alone -/
theorem plicBestSource_congr {q : Plic} (hp : q.pending = p.pending) (hpri : q.priority = p.priority)
    (he : q.enable ctx = p.enable ctx) (ht : q.threshold ctx = p.threshold ctx)
    (hc : q.claimed ctx = p.claimed ctx) : plicBestSource q ctx = plicBestSource p ctx := by
  have hstep : plicBestStep q ctx = plicBestStep p ctx := by
    funext b id
    simp only [plicBestStep, hp, hpri, he, ht, hc]
  rw [plicBestSource, plicBestSource, hstep]

end

/-! ## The claim register -/

/-- the claim and completion register of a context -/
def plicClaimReg (ctx : ℕ) : Word :=
  plicContextBase + BitVec.ofNat 32 (plicContextStride * ctx + plicClaimOff)

/-- the source marked as claimed by the context -/
def Plic.setClaimed (p : Plic) (ctx id : ℕ) (b : Bool) : Plic :=
  { p with claimed := Function.update p.claimed ctx (Function.update (p.claimed ctx) id b) }

section
variable (p : Plic) {ctx : ℕ} {off : Word}

theorem setClaimed_claimed (id : ℕ) (b : Bool) (c i : ℕ) :
    (p.setClaimed ctx id b).claimed c i = if c = ctx ∧ i = id then b else p.claimed c i := by
  unfold Plic.setClaimed
  simp only [Function.update_apply]
  by_cases hc : c = ctx <;> by_cases hi : i = id <;> simp [hc, hi]

/-- the offsets of the claim registers are the ones the code decodes so -/
theorem claimReg_of_decode (hlo : off ≥ plicContextBase)
    (hhi : off.toNat < plicContextBase.toNat + plicContextStride * plicNctx)
    (hsub : (off - plicContextBase).toNat % plicContextStride = plicClaimOff) :
    (off - plicContextBase).toNat / plicContextStride < plicNctx ∧
      off = plicClaimReg ((off - plicContextBase).toNat / plicContextStride) := by
  have hle := BitVec.le_def.1 hlo
  have hdiff : (off - plicContextBase).toNat = off.toNat - plicContextBase.toNat := BitVec.toNat_sub_of_le hlo
  rw [hdiff] at hsub ⊢
  have hdm := Nat.div_add_mod (off.toNat - plicContextBase.toNat) plicContextStride
  rw [hsub] at hdm
  have hlt : (off.toNat - plicContextBase.toNat) / plicContextStride < plicNctx := by
    rw [Nat.div_lt_iff_lt_mul (by decide), Nat.mul_comm]
    omega
  refine ⟨hlt, BitVec.eq_of_toNat_eq ?_⟩
  rw [plicClaimReg, hdm, BitVec.toNat_add, BitVec.toNat_ofNat]
  have := off.isLt
  omega

/-- another register of a context is not decoded as a claim register -/
theorem not_claimOff_of_other (h : ∀ ctx < plicNctx, off ≠ plicClaimReg ctx)
    (hctx : off ≥ plicContextBase ∧ off.toNat < plicContextBase.toNat + plicContextStride * plicNctx) :
    (off - plicContextBase).toNat % plicContextStride ≠ plicClaimOff := by
  intro hsub
  obtain ⟨hlt, heq⟩ := claimReg_of_decode hctx.1 hctx.2 hsub
  exact h _ hlt heq

/-- a claim read -/
theorem plicRead32_claim (hc : ctx < plicNctx) : plicRead32 p (plicClaimReg ctx) =
    if plicBestSource p ctx = 0 then (0, p)
    else (BitVec.ofNat 32 (plicBestSource p ctx), p.setClaimed ctx (plicBestSource p ctx) true) := by
  have hle := plicBestSource_le p ctx
  have hctx : ctx = 0 ∨ ctx = 1 := by
    unfold plicNctx at hc
    omega
  have hread : plicRead32 p (plicClaimReg ctx) =
      if 1 ≤ plicBestSource p ctx ∧ plicBestSource p ctx ≤ plicNdev then
        (BitVec.ofNat 32 (plicBestSource p ctx), p.setClaimed ctx (plicBestSource p ctx) true)
      else (0, p) := by
    rcases hctx with rfl | rfl <;> rfl
  rw [hread]
  by_cases h0 : plicBestSource p ctx = 0
  · rw [if_pos h0, if_neg fun h => absurd h.1 (by omega)]
  · rw [if_neg h0, if_pos ⟨by omega, hle⟩]

/-- a read of another register changes nothing -/
theorem plicRead32_other (h : ∀ ctx < plicNctx, off ≠ plicClaimReg ctx) : (plicRead32 p off).2 = p := by
  by_cases hctx : off ≥ plicContextBase ∧ off.toNat < plicContextBase.toNat + plicContextStride * plicNctx
  · have hsub := not_claimOff_of_other h hctx
    unfold plicRead32
    rw [if_pos hctx]
    dsimp only
    rw [if_neg hsub]
    split_ifs <;> rfl
  · unfold plicRead32
    rw [if_neg hctx]
    split_ifs <;> rfl

/-- a completion: the code takes the source from the low five bits -/
theorem plicWrite32_claim (hc : ctx < plicNctx) (val : Word) : plicWrite32 p (plicClaimReg ctx) val =
    if 1 ≤ (val &&& 0x1F).toNat ∧ (val &&& 0x1F).toNat ≤ plicNdev then p.setClaimed ctx (val &&& 0x1F).toNat false
    else p := by
  have hctx : ctx = 0 ∨ ctx = 1 := by
    unfold plicNctx at hc
    omega
  rcases hctx with rfl | rfl <;> rfl

/-- a write of another register leaves the marks alone -/
theorem plicWrite32_other (h : ∀ ctx < plicNctx, off ≠ plicClaimReg ctx) (val : Word) :
    (plicWrite32 p off val).claimed = p.claimed := by
  by_cases hctx : off ≥ plicContextBase ∧ off.toNat < plicContextBase.toNat + plicContextStride * plicNctx
  · have hsub := not_claimOff_of_other h hctx
    unfold plicWrite32
    rw [if_pos hctx]
    dsimp only
    rw [if_neg hsub]
    split_ifs <;> rfl
  · unfold plicWrite32
    rw [if_neg hctx]
    dsimp only
    split_ifs <;> rfl

theorem plicSetIrq_claimed (id : ℕ) (level : Bool) : (plicSetIrq p id level).claimed = p.claimed := by
  unfold plicSetIrq
  split_ifs <;> rfl

theorem plicSetIrq_pending (id : ℕ) (level : Bool) : (plicSetIrq p id level).pending =
    if id < 1 ∨ id > plicNdev then p.pending else Bits.putBit p.pending id level := by
  unfold plicSetIrq Bits.putBit
  cases level <;> split_ifs <;> rfl

end

/-! ## Operations -/

inductive PlicOp
  | setIrq (id : ℕ) (level : Bool)
  | read (off : Word)
  | write (off val : Word)

def PlicOp.step (p : Plic) : PlicOp → Plic
  | .setIrq id level => plicSetIrq p id level
  | .read off => (plicRead32 p off).2
  | .write off val => plicWrite32 p off val

def PlicStep (p : Plic) (o : PlicOp) (q : Plic) : Prop := q = o.step p

theorem plicOps_path (p : Plic) (ops : List PlicOp) :
    Path PlicStep p (recorded PlicOp.step p ops) (ops.foldl PlicOp.step p) := by
  have hstep : ∀ p o, PlicStep p o (PlicOp.step p o) := fun _ _ => rfl
  exact recorded_path hstep p ops

/-- the answer of a claim made now -/
def claimAnswer (p : Plic) (ctx : ℕ) : Word := (plicRead32 p (plicClaimReg ctx)).1

/-- the completion of a source by a context: a write of its number -/
def completes (ctx id : ℕ) (o : PlicOp) : Prop := o = .write (plicClaimReg ctx) (BitVec.ofNat 32 id)

/-- what the code takes for one: the source is read off the low five bits -/
def completesLow (ctx id : ℕ) (o : PlicOp) : Prop :=
  ∃ val : Word, o = .write (plicClaimReg ctx) val ∧ (val &&& 0x1F).toNat = id

section
variable (p : Plic) {ctx : ℕ}

theorem claimAnswer_eq (hc : ctx < plicNctx) : claimAnswer p ctx = BitVec.ofNat 32 (plicBestSource p ctx) := by
  unfold claimAnswer
  rw [plicRead32_claim p hc]
  split_ifs with h0
  · rw [h0]
    rfl
  · rfl

theorem claimAnswer_toNat (hc : ctx < plicNctx) : (claimAnswer p ctx).toNat = plicBestSource p ctx := by
  have hle := plicBestSource_le p ctx
  rw [claimAnswer_eq p hc, BitVec.toNat_ofNat, Nat.mod_eq_of_lt]
  exact hle.trans_lt (by decide)

theorem claimAnswer_ne_zero (hc : ctx < plicNctx) : claimAnswer p ctx ≠ 0 ↔ plicBestSource p ctx ≠ 0 := by
  rw [← claimAnswer_toNat p hc]
  exact (BitVec.toNat_inj (x := claimAnswer p ctx) (y := 0)).not.symm

/-- a claim of the context that answers the source, made in the given state -/
def claims (ctx id : ℕ) (x : Plic × PlicOp) : Prop :=
  x.2 = .read (plicClaimReg ctx) ∧ (claimAnswer x.1 ctx).toNat = id

theorem plicClaimReg_inj {c : ℕ} (hc : ctx < plicNctx) (hlt : c < plicNctx) (h : plicClaimReg ctx = plicClaimReg c) :
    ctx = c := by
  have h01 : plicClaimReg 0 ≠ plicClaimReg 1 := by decide
  unfold plicNctx at hc hlt
  obtain rfl | rfl : ctx = 0 ∨ ctx = 1 := by omega
  · obtain rfl | rfl : c = 0 ∨ c = 1 := by omega
    · rfl
    · exact absurd h h01
  · obtain rfl | rfl : c = 0 ∨ c = 1 := by omega
    · exact absurd h h01.symm
    · rfl

/-- **The marks after one operation**: a claim that answers the source sets its mark, a completion clears it, and
nothing else touches it. -/
theorem PlicOp.step_claimed {id : ℕ} (hc : ctx < plicNctx) (h1 : 1 ≤ id) (h2 : id ≤ plicNdev) (o : PlicOp) :
    (o.step p).claimed ctx id = true ↔ claims ctx id (p, o) ∨ p.claimed ctx id = true ∧ ¬ completesLow ctx id o := by
  cases o with
  | setIrq i level => simp [PlicOp.step, plicSetIrq_claimed, claims, completesLow]
  | read off =>
    by_cases h : ∃ c < plicNctx, off = plicClaimReg c
    · obtain ⟨c, hlt, rfl⟩ := h
      have hbest : claims ctx id (p, .read (plicClaimReg c)) ↔ ctx = c ∧ id = plicBestSource p c := by
        constructor
        · rintro ⟨hreg, hans⟩
          obtain rfl := plicClaimReg_inj hc hlt (PlicOp.read.inj hreg).symm
          exact ⟨rfl, by rw [← hans]; exact claimAnswer_toNat p hc⟩
        · rintro ⟨rfl, rfl⟩
          exact ⟨rfl, claimAnswer_toNat p hc⟩
      rw [hbest, PlicOp.step, plicRead32_claim p hlt]
      split_ifs with h0
      · have hne : ¬ (ctx = c ∧ id = plicBestSource p c) := by omega
        simp [hne, completesLow]
      · rw [setClaimed_claimed]
        split_ifs with hsame
        · simp [hsame]
        · simp [hsame, completesLow]
    · push Not at h
      rw [PlicOp.step, plicRead32_other p h]
      simp [claims, completesLow, h ctx hc]
  | write off val =>
    by_cases h : ∃ c < plicNctx, off = plicClaimReg c
    · obtain ⟨c, hlt, rfl⟩ := h
      have hlow : completesLow ctx id (.write (plicClaimReg c) val) ↔ ctx = c ∧ id = (val &&& 0x1F).toNat := by
        constructor
        · rintro ⟨v, heq, hid⟩
          obtain ⟨hreg, rfl⟩ := PlicOp.write.inj heq
          exact ⟨plicClaimReg_inj hc hlt hreg.symm, hid.symm⟩
        · rintro ⟨rfl, rfl⟩
          exact ⟨val, rfl, rfl⟩
      have hno : ¬ claims ctx id (p, .write (plicClaimReg c) val) := by simp [claims]
      rw [hlow, or_iff_right hno, PlicOp.step, plicWrite32_claim p hlt]
      split_ifs with hrange
      · rw [setClaimed_claimed]
        split_ifs with hsame
        · exact iff_of_false (by decide) fun h => h.2 hsame
        · exact (and_iff_left hsame).symm
      · have hne : ¬ (ctx = c ∧ id = (val &&& 0x1F).toNat) := by omega
        exact (and_iff_left hne).symm
    · push Not at h
      rw [PlicOp.step, plicWrite32_other p h]
      simp [claims, completesLow, h ctx hc]

/-- a claim marks the source it answers -/
theorem claim_marks (hc : ctx < plicNctx) (h : claimAnswer p ctx ≠ 0) :
    (PlicOp.step p (.read (plicClaimReg ctx))).claimed ctx (claimAnswer p ctx).toNat = true := by
  have hbest := (claimAnswer_ne_zero p hc).1 h
  rw [PlicOp.step, plicRead32_claim p hc, if_neg hbest, setClaimed_claimed, claimAnswer_toNat p hc,
    if_pos ⟨rfl, rfl⟩]

/-- a marked source is not answered -/
theorem claimAnswer_ne_of_claimed {id : ℕ} (hc : ctx < plicNctx) (hmark : p.claimed ctx id = true)
    (h : claimAnswer p ctx ≠ 0) : (claimAnswer p ctx).toNat ≠ id := by
  have hbest := (claimAnswer_ne_zero p hc).1 h
  rw [claimAnswer_toNat p hc]
  rcases plicBestSource_spec p ctx with ⟨h0, -⟩ | ⟨⟨-, -, -, -, hfree⟩, -⟩
  · exact absurd h0 hbest
  · intro heq
    rw [heq, hmark] at hfree
    exact absurd hfree (by decide)

/-- the lines change by plic_set_irq alone -/
theorem PlicOp.step_pending {id : ℕ} (h1 : 1 ≤ id) (h2 : id ≤ plicNdev) (o : PlicOp) :
    (o.step p).pending.getLsbD id = true ↔
      o = .setIrq id true ∨ p.pending.getLsbD id = true ∧ o ≠ .setIrq id false := by
  cases o with
  | setIrq i level =>
    have hset : (plicSetIrq p i level).pending.getLsbD id = if id = i then level else p.pending.getLsbD id := by
      rw [plicSetIrq_pending]
      split_ifs with hrange hid hid
      · omega
      · rfl
      · rw [Bits.getLsbD_putBit _ _ _ (h2.trans_lt (by decide)), if_pos hid]
      · rw [Bits.getLsbD_putBit _ _ _ (h2.trans_lt (by decide)), if_neg hid]
    rw [PlicOp.step, hset]
    split_ifs with hid
    · cases level <;> simp [hid]
    · simp [Ne.symm hid]
  | read off =>
    have hsame : (plicRead32 p off).2.pending = p.pending := by
      unfold plicRead32
      dsimp only
      split_ifs <;> rfl
    simp [PlicOp.step, hsame]
  | write off val =>
    have hsame : (plicWrite32 p off val).pending = p.pending := by
      unfold plicWrite32
      dsimp only
      split_ifs <;> rfl
    simp [PlicOp.step, hsame]

/-- claims and completions of one context leave the other's marks alone -/
theorem setClaimed_other {c : ℕ} (hne : c ≠ ctx) (id : ℕ) (b : Bool) :
    (p.setClaimed ctx id b).claimed c = p.claimed c := by
  funext i
  rw [setClaimed_claimed, if_neg fun h => hne h.1]

theorem claimReg_step_other {c : ℕ} (hne : c ≠ ctx) (hc : ctx < plicNctx) {o : PlicOp}
    (ho : o = .read (plicClaimReg ctx) ∨ ∃ val, o = .write (plicClaimReg ctx) val) :
    (o.step p).claimed c = p.claimed c ∧ plicBestSource (o.step p) c = plicBestSource p c := by
  rcases ho with rfl | ⟨val, rfl⟩
  · rw [PlicOp.step, plicRead32_claim p hc]
    split_ifs
    · exact ⟨rfl, rfl⟩
    · have hsame := setClaimed_other p hne (plicBestSource p ctx) true
      exact ⟨hsame, plicBestSource_congr p c rfl rfl rfl rfl hsame⟩
  · rw [PlicOp.step, plicWrite32_claim p hc]
    split_ifs
    · have hsame := setClaimed_other p hne (val &&& 0x1F).toNat false
      exact ⟨hsame, plicBestSource_congr p c rfl rfl rfl rfl hsame⟩
    · exact ⟨rfl, rfl⟩

end

/-! ## The law of claims and completions -/

section
variable (ends : ℕ → ℕ → PlicOp → Prop) (ops : List (Plic × PlicOp))

/-- the line of the source is up: plic_set_irq raised it and has not lowered it since -/
def asserted (id : ℕ) : Prop := Since (fun x => x.2 = .setIrq id true) (fun x => x.2 = .setIrq id false) ops

/-- the context has claimed the source and not completed it since, where ends says which operations complete it -/
def held (ctx id : ℕ) : Prop := Since (claims ctx id) (fun x => ends ctx id x.2) ops

/-- a source the context may claim after the operations: its line is up, it is enabled, above the threshold and not held -/
def claimable (p : Plic) (ctx id : ℕ) : Prop :=
  (1 ≤ id ∧ id ≤ plicNdev) ∧ asserted ops id ∧ (p.enable ctx).getLsbD id = true ∧
    p.threshold ctx < p.priority id ∧ ¬ held ends ops ctx id

/-- what a context can rely on in the state the operations lead to -/
structure ClaimSafe (p : Plic) (ctx : ℕ) : Prop where
  /-- a claim answers a source that may be claimed, and 0 only if there is none -/
  answer : claimAnswer p ctx ≠ 0 → claimable ends ops p ctx (claimAnswer p ctx).toNat
  answer_zero : claimAnswer p ctx = 0 → ∀ id, ¬ claimable ends ops p ctx id
  /-- after a claim, no claim of the context answers the same source until its completion -/
  exclusive : ∀ (more : List (Plic × PlicOp)) (q : Plic), claimAnswer p ctx ≠ 0 →
    Path PlicStep (PlicOp.step p (.read (plicClaimReg ctx))) more q →
    (∀ x ∈ more, ¬ ends ctx (claimAnswer p ctx).toNat x.2) → claimAnswer q ctx ≠ claimAnswer p ctx
  /-- after its completion, a source still asserted, enabled and above the threshold may be claimed again -/
  rearmed : ∀ (id : ℕ) (o : PlicOp), 1 ≤ id → id ≤ plicNdev → ends ctx id o →
    asserted ops id → (p.enable ctx).getLsbD id = true → p.threshold ctx < p.priority id →
    claimable ends (ops ++ [(p, o)]) (o.step p) ctx id
  /-- the line to the hart is up exactly when a claim would answer a source -/
  line : ctx = 0 → (plicExternalPending p ≠ 0 ↔ claimAnswer p ctx ≠ 0)
  line_s : ctx = 1 → (plicExternalPendingS p ≠ 0 ↔ claimAnswer p ctx ≠ 0)
  /-- claims and completions of the context change nothing for another one -/
  separate : ∀ (c : ℕ) (o : PlicOp), c < plicNctx → c ≠ ctx →
    (o = .read (plicClaimReg ctx) ∨ ∃ val, o = .write (plicClaimReg ctx) val) →
    (∀ id, held ends (ops ++ [(p, o)]) c id ↔ held ends ops c id) ∧
      claimAnswer (o.step p) c = claimAnswer p c

end

section
variable {ops : List (Plic × PlicOp)} {p : Plic} {ctx id : ℕ}

/-- **The registers tell the history**: the pending bits are the lines, the marks are the claims not completed. -/
theorem plic_history (hp : Path PlicStep plicInit ops p) (h1 : 1 ≤ id) (h2 : id ≤ plicNdev) :
    (p.pending.getLsbD id = true ↔ asserted ops id) ∧
      ∀ ctx < plicNctx, (p.claimed ctx id = true ↔ held completesLow ops ctx id) := by
  have hstep : ∀ ops p o q, (p.pending.getLsbD id = true ↔ asserted ops id) ∧
      (∀ ctx < plicNctx, (p.claimed ctx id = true ↔ held completesLow ops ctx id)) → PlicStep p o q →
      (q.pending.getLsbD id = true ↔ asserted (ops ++ [(p, o)]) id) ∧
        ∀ ctx < plicNctx, (q.claimed ctx id = true ↔ held completesLow (ops ++ [(p, o)]) ctx id) := by
    rintro ops p o q ⟨hline, hmarks⟩ rfl
    refine ⟨?_, ?_⟩
    · rw [asserted, since_concat, PlicOp.step_pending p h1 h2, hline]
      rfl
    · intro ctx hc
      rw [held, since_concat, PlicOp.step_claimed p hc h1 h2, hmarks ctx hc]
      rfl
  refine hp.history (I := fun ops p => (p.pending.getLsbD id = true ↔ asserted ops id) ∧
    ∀ ctx < plicNctx, (p.claimed ctx id = true ↔ held completesLow ops ctx id)) hstep ⟨?_, ?_⟩
  · exact iff_of_false (by simp [plicInit]) (not_since_nil _ _)
  · intro ctx _
    exact iff_of_false (by simp [plicInit]) (not_since_nil _ _)

/-- so the sources plic_best_source looks for are those that may be claimed -/
theorem eligible_iff_claimable (hp : Path PlicStep plicInit ops p) (hc : ctx < plicNctx) :
    eligible p ctx id ↔ claimable completesLow ops p ctx id := by
  refine and_congr_right ?_
  rintro ⟨h1, h2⟩
  obtain ⟨hline, hmarks⟩ := plic_history hp h1 h2
  rw [qualifies, hline, ← hmarks ctx hc, Bool.not_eq_true]

/-- a mark stays over operations that complete nothing -/
theorem claimed_run {q : Plic} {more : List (Plic × PlicOp)} (hc : ctx < plicNctx) (h1 : 1 ≤ id) (h2 : id ≤ plicNdev)
    (hp : Path PlicStep p more q) (hmark : p.claimed ctx id = true) (ho : ∀ x ∈ more, ¬ completesLow ctx id x.2) :
    q.claimed ctx id = true := by
  have hstep : ∀ s o t, s.claimed ctx id = true → ¬ completesLow ctx id o → PlicStep s o t →
      t.claimed ctx id = true := by
    rintro s o t hs hl rfl
    exact (PlicOp.step_claimed s hc h1 h2 o).2 (Or.inr ⟨hs, hl⟩)
  exact hp.invariant (I := fun p => p.claimed ctx id = true) hstep hmark ho

end

/-- **Claim and completion are safe** for each context after every sequence of operations, a completion being a write
whose low five bits are the number of the source. -/
theorem plic_claim_safe {ops : List (Plic × PlicOp)} {p : Plic} {ctx : ℕ} (hp : Path PlicStep plicInit ops p)
    (hc : ctx < plicNctx) : ClaimSafe completesLow ops p ctx where
  answer := by
    intro h
    rw [← eligible_iff_claimable hp hc, claimAnswer_toNat p hc]
    rcases plicBestSource_spec p ctx with ⟨h0, -⟩ | ⟨he, -⟩
    · exact absurd h0 ((claimAnswer_ne_zero p hc).1 h)
    · exact he
  answer_zero := by
    intro h id he
    rw [← eligible_iff_claimable hp hc] at he
    exact absurd ((claimAnswer_ne_zero p hc).2 ((plicBestSource_ne_zero p ctx).2 ⟨id, he⟩)) (not_not.2 h)
  exclusive := by
    intro more q h hrun hmore heq
    have hbest := (claimAnswer_ne_zero p hc).1 h
    have hle := plicBestSource_le p ctx
    have hnat := claimAnswer_toNat p hc
    have hmark := claimed_run hc (by omega) (by omega) hrun (claim_marks p hc h) hmore
    exact claimAnswer_ne_of_claimed q hc hmark (heq ▸ h) (congrArg BitVec.toNat heq)
  rearmed := by
    intro id o h1 h2 hcomp hline hen hpri
    have hrun : Path PlicStep plicInit (ops ++ [(p, o)]) (o.step p) := hp.append (.cons rfl (.nil _))
    obtain ⟨val, rfl, rfl⟩ := hcomp
    rw [← (plic_history hp h1 h2).1] at hline
    rw [← eligible_iff_claimable hrun hc, PlicOp.step, plicWrite32_claim p hc, if_pos ⟨h1, h2⟩]
    refine ⟨⟨h1, h2⟩, hline, hen, hpri, ?_⟩
    rw [setClaimed_claimed, if_pos ⟨rfl, rfl⟩]
  line := by
    rintro rfl
    exact (claimAnswer_ne_zero p hc).symm
  line_s := by
    rintro rfl
    exact (claimAnswer_ne_zero p hc).symm
  separate := by
    intro c o hlt hne ho
    obtain ⟨-, hbest⟩ := claimReg_step_other p hne hc ho
    refine ⟨?_, by rw [claimAnswer_eq _ hlt, claimAnswer_eq _ hlt, hbest]⟩
    intro id
    have hreg : plicClaimReg ctx ≠ plicClaimReg c := fun h => hne (plicClaimReg_inj hc hlt h).symm
    rw [held, since_concat]
    rcases ho with rfl | ⟨val, rfl⟩
    · simp [claims, completesLow, hreg, held]
    · simp [claims, completesLow, hreg, held]

/-- sources 3 and 10 are raised, given a priority and enabled for context 0, which claims both and completes the second -/
def claimTwo : List PlicOp :=
  [.setIrq 3 true, .setIrq 10 true, .write 0x0C 2, .write 0x28 1, .write plicEnableBase 0x408,
    .read (plicClaimReg 0), .read (plicClaimReg 0), .write (plicClaimReg 0) 10]

theorem plic_claim_safe_two :
    ClaimSafe completesLow (recorded PlicOp.step plicInit claimTwo) (claimTwo.foldl PlicOp.step plicInit) 0 ∧
      claimAnswer (claimTwo.foldl PlicOp.step plicInit) 0 = 10 :=
  ⟨plic_claim_safe (plicOps_path plicInit claimTwo) (by decide), by decide⟩

/-- source 10 is raised, given priority 1 and enabled for context 0 -/
def raiseTen : List PlicOp := [.setIrq 10 true, .write 0x28 1, .write plicEnableBase 0x400]

/-- **A write of 42 completes source 10**: after it a claim answers the source again, which was never completed by its
number. -/
theorem high_bits_complete :
    ¬ ∀ ops p, Path PlicStep plicInit ops p → ∀ ctx < plicNctx, ClaimSafe completes ops p ctx := by
  intro h
  have hsafe := h _ _ (plicOps_path plicInit raiseTen) 0 (by decide)
  have hans : claimAnswer (raiseTen.foldl PlicOp.step plicInit) 0 = 10 := by decide
  have hmore := plicOps_path (PlicOp.step (raiseTen.foldl PlicOp.step plicInit) (.read (plicClaimReg 0)))
    [.write (plicClaimReg 0) 42]
  refine hsafe.exclusive _ _ (by rw [hans]; decide) hmore ?_ (by rw [hans]; decide)
  intro x hx
  rw [recorded, recorded, List.mem_singleton] at hx
  rw [hx, hans, completes]
  intro heq
  exact absurd (PlicOp.write.inj heq).2 (by decide)

end RiscvEmu
