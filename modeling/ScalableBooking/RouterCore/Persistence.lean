import ScalableBooking.RouterCore.PersistentRun
import ScalableBooking.RouterCore.SafetyOverride

/-!
# Persistent bad predictions

A proxy that is given the same predictions again and again. The health EMA makes the raw
weight of a backend fall from `exp (-(risk + error / 10))` to `exp (-(risk + error))`
(`rawAt`), and with that its board is a `PersistentRun`. The criterion
of that module becomes one on the predictions (`separates_iff`): the weight of the worse
backend ever drops below that of the better one iff the limits, cut off at the limit of the
worse backend, sum to less than `4/3`, and the pool is not a pair of backends that both
start at the lower bound of the clamp.
-/

namespace ScalableBooking.RouterCore

open Filter Topology

variable {S : Finset ServerId} {preds : Predictions} {s : ServerId}

/-! ### Raw weights under constant predictions -/

/-- What the raw weight of a backend tends to while its prediction does not change. -/
noncomputable def limitWeight (pred : ServerPrediction) : ℝ :=
  Real.exp (-(pred.riskMean + pred.errorRate))

section RawAt

variable {r e r' e' : ℝ} (t : ℕ)

theorem rawAt_eq_exp (r e : ℝ) :
    rawAt r e t = Real.exp (-r - e * (1 - (9 / 10) ^ (t + 1))) := by
  rw [rawAt, rawWeight, ← Real.exp_add]
  ring_nf

theorem pow_mem : (9 / 10 : ℝ) ^ (t + 1) ∈ Set.Icc (0 : ℝ) 1 :=
  ⟨by positivity, pow_le_one₀ (by norm_num) (by norm_num)⟩

theorem limit_le_rawAt (he : 0 ≤ e) : Real.exp (-(r + e)) ≤ rawAt r e t := by
  obtain ⟨hp₀, hp₁⟩ := pow_mem t
  rw [rawAt_eq_exp]
  apply Real.exp_le_exp.mpr
  nlinarith

theorem rawAt_succ_le (he : 0 ≤ e) : rawAt r e (t + 1) ≤ rawAt r e t := by
  obtain ⟨hp₀, -⟩ := pow_mem t
  rw [rawAt_eq_exp, rawAt_eq_exp]
  apply Real.exp_le_exp.mpr
  rw [pow_succ (9 / 10 : ℝ) (t + 1)]
  nlinarith

/-- One more observation takes off less than a tenth. -/
theorem le_rawAt_succ (he : e ∈ Set.Icc (0 : ℝ) 1) :
    9 / 10 * rawAt r e t ≤ rawAt r e (t + 1) := by
  obtain ⟨hp₀, hp₁⟩ := pow_mem t
  obtain ⟨he₀, he₁⟩ := he
  -- the exponents differ by a tenth of what is left of the error rate
  have hsplit : rawAt r e (t + 1) =
      Real.exp (-(e * (9 / 10) ^ (t + 1) / 10)) * rawAt r e t := by
    rw [rawAt_eq_exp, rawAt_eq_exp, ← Real.exp_add, pow_succ (9 / 10 : ℝ) (t + 1)]
    ring_nf
  have hfactor : 9 / 10 ≤ Real.exp (-(e * (9 / 10) ^ (t + 1) / 10)) := by
    have hexp := Real.add_one_le_exp (-(e * (9 / 10) ^ (t + 1) / 10))
    have hprod : e * (9 / 10) ^ (t + 1) ≤ 1 := mul_le_one₀ he₁ hp₀ hp₁
    linarith
  rw [hsplit]
  exact mul_le_mul_of_nonneg_right hfactor (rawWeight_pos _ _).le

theorem tendsto_rawAt (r e : ℝ) :
    Tendsto (fun t => rawAt r e t) atTop (𝓝 (Real.exp (-(r + e)))) := by
  -- the part of the error rate not yet observed vanishes
  have hpow : Tendsto (fun t : ℕ => (9 / 10 : ℝ) ^ (t + 1)) atTop (𝓝 0) :=
    (tendsto_add_atTop_iff_nat 1).mpr
      (tendsto_pow_atTop_nhds_zero_of_lt_one (by norm_num) (by norm_num))
  have hexponent : Tendsto (fun t : ℕ => -r - e * (1 - (9 / 10 : ℝ) ^ (t + 1))) atTop
      (𝓝 (-r - e * (1 - 0))) :=
    tendsto_const_nhds.sub ((tendsto_const_nhds.sub hpow).const_mul e)
  rw [show -(r + e) = -r - e * (1 - 0) by ring]
  simp only [rawAt_eq_exp]
  exact (Real.continuous_exp.tendsto _).comp hexponent

theorem rawAt_lt (hr : r < r') (he : e ≤ e') : rawAt r' e' t < rawAt r e t := by
  obtain ⟨-, hp₁⟩ := pow_mem t
  rw [rawAt_eq_exp, rawAt_eq_exp]
  apply Real.exp_lt_exp.mpr
  -- the EMA has seen the same share of both error rates
  nlinarith

/-- Every limit is above `exp (-2)`, which is above `2/15`. -/
theorem le_limit (hr : r ≤ 1) (he : e ≤ 1) : 2 / 15 ≤ Real.exp (-(r + e)) := by
  -- `exp 2` is about `7.39`
  have hexp : Real.exp 2 ≤ 15 / 2 := by
    have hone : Real.exp 1 < 2.7182818286 := Real.exp_one_lt_d9
    have hpos : 0 < Real.exp 1 := Real.exp_pos 1
    calc Real.exp 2 = Real.exp 1 * Real.exp 1 := by
          rw [← Real.exp_add]
          norm_num
      _ ≤ 15 / 2 := by nlinarith
  calc (2 : ℝ) / 15 = 1 / (15 / 2) := by norm_num
    _ ≤ 1 / Real.exp 2 := one_div_le_one_div_of_le (Real.exp_pos 2) hexp
    _ = Real.exp (-2) := by rw [Real.exp_neg, one_div]
    _ ≤ Real.exp (-(r + e)) := Real.exp_le_exp.mpr (by linarith)

theorem first_lt (hr : r ≤ 1) (he : e ≤ 1) : 2 / 9 < rawAt r e 0 := by
  -- full risk, and a tenth of the full error rate
  have hone : 1 / 3 < Real.exp (-1) := by
    rw [Real.exp_neg, ← one_div]
    exact one_div_lt_one_div_of_lt (Real.exp_pos 1) Real.exp_one_lt_three
  have htenth : 9 / 10 ≤ Real.exp (-(1 / 10)) := by
    have := Real.add_one_le_exp (-(1 / 10 : ℝ))
    linarith
  calc (2 : ℝ) / 9 < 1 / 3 * (9 / 10) := by norm_num
    _ ≤ Real.exp (-1) * Real.exp (-(1 / 10)) := by
        apply mul_le_mul hone.le htenth (by norm_num) (Real.exp_pos _).le
    _ = Real.exp (-1 - 1 / 10) := by
        rw [← Real.exp_add]
        ring_nf
    _ ≤ rawAt r e 0 := by
        rw [rawAt_eq_exp]
        apply Real.exp_le_exp.mpr
        norm_num
        linarith

end RawAt

/-! ### The board under constant predictions -/

section Board

variable (pool : List ServerId) (created : ℕ → Instant) (preds : Predictions)
  (now : ℕ → Instant)

/-- The snapshot after `t` synchronisations with the same predictions. -/
noncomputable def syncedMap : ℕ → ScoreMap
  | 0 => (poolBoard pool created).inner
  | t + 1 => nextMap ScoreboardConfig.default (syncedMap t) preds 0 (now t)

/-- `t` synchronisations with the same predictions, the `k`-th at the instant `now k`. -/
noncomputable def repeatedSyncs (t : ℕ) : List WriterCall :=
  (List.range t).map fun k => syncCall (preds, now k)

/-- Repeating the call gives that sequence of snapshots. -/
theorem writes_repeatedSyncs (t : ℕ) :
    (poolBoard pool created).writes (repeatedSyncs preds now t) =
      some ⟨syncedMap pool created preds now t, ScoreboardConfig.default⟩ := by
  induction t with
  | zero => rfl
  | succ t ih =>
    unfold Scoreboard.writes at ih ⊢
    rw [repeatedSyncs, List.range_succ, List.map_append, List.foldlM_append]
    -- the first `t` calls are the shorter run, and the last one is a single write
    show ((poolBoard pool created).writes (repeatedSyncs preds now t)).bind _ = _
    rw [Scoreboard.writes, ih, Option.bind_some]
    show (Scoreboard.write _ _).bind some = _
    rw [Scoreboard.write_eq ScoreboardConfig.default_valid, Option.bind_some]
    rfl

end Board

section Run

variable {pool : List ServerId} {created : ℕ → Instant} {now : ℕ → Instant}

theorem isPool_syncedMap (hcover : preds.keys = pool.toFinset) (t : ℕ) :
    IsPool pool.toFinset (syncedMap pool created preds now t) := by
  induction t with
  | zero => exact isPool_poolBoard pool created
  | succ t ih => exact ih.nextMap hcover

/-- The health EMA under a constant error rate. -/
theorem healthOf_syncedMap (hcover : preds.keys = pool.toFinset) (hs : s ∈ pool.toFinset)
    (t : ℕ) : healthOf (syncedMap pool created preds now t) s =
      errorOf preds s * (1 - (9 / 10) ^ t) := by
  induction t with
  | zero =>
    -- a fresh server has a health score of zero
    rw [syncedMap, healthOf_poolBoard created (List.mem_toFinset.mp hs), pow_zero, sub_self,
      mul_zero]
  | succ t ih =>
    rw [syncedMap, (isPool_syncedMap hcover t).healthOf_nextMap hcover hs, healthAfter, ih]
    ring

theorem rawOf_syncedMap (hcover : preds.keys = pool.toFinset) (hs : s ∈ pool.toFinset)
    (t : ℕ) : rawOf (syncedMap pool created preds now t) preds s =
      rawAt (riskOf preds s) (errorOf preds s) t := by
  rw [rawOf, healthAfter, healthOf_syncedMap hcover hs, rawAt]
  ring_nf

/-- A fraction is read as it stands. -/
theorem riskOf_eq {pred : ServerPrediction} (h : preds.lookup s = some pred)
    (hr : pred.riskMean ∈ Set.Icc (0 : ℝ) 1) : riskOf preds s = pred.riskMean := by
  rw [riskOf, Finmap.readD_of_lookup h, effectiveRisk,
    ScoreboardConfig.default_riskAversionLambda, zero_mul, add_zero, clamp_of_mem hr.1 hr.2,
    clamp_of_mem hr.1 hr.2]

theorem errorOf_eq {pred : ServerPrediction} (h : preds.lookup s = some pred)
    (he : pred.errorRate ∈ Set.Icc (0 : ℝ) 1) : errorOf preds s = pred.errorRate := by
  rw [errorOf, Finmap.readD_of_lookup h, clamp_of_mem he.1 he.2]

/-- Every risk and every error rate is a fraction. -/
def PredictionsInRange (preds : Predictions) : Prop :=
  ∀ s pred, preds.lookup s = some pred →
    pred.riskMean ∈ Set.Icc (0 : ℝ) 1 ∧ pred.errorRate ∈ Set.Icc (0 : ℝ) 1

variable (created now) in
/-- A proxy under constant predictions is a persistent run. -/
theorem persistentRun_syncedMap (hcover : preds.keys = pool.toFinset) (hnd : pool.Nodup)
    (hrange : PredictionsInRange preds) {b g : ServerId} {pb pg : ServerPrediction}
    (hb : preds.lookup b = some pb) (hg : preds.lookup g = some pg)
    (hrisk : pg.riskMean < pb.riskMean) (herr : pg.errorRate ≤ pb.errorRate) :
    PersistentRun pool.toFinset b g (preds.readD limitWeight)
      (fun t s => rawAt (riskOf preds s) (errorOf preds s) t)
      (fun t => weightOf (syncedMap pool created preds now t)) := by
  -- every backend has a prediction, and nobody else has
  have hlookup : ∀ s ∈ pool.toFinset, ∃ pred, preds.lookup s = some pred := fun s hs =>
    Finmap.exists_lookup_of_mem_keys (hcover.symm ▸ hs)
  have hmem : ∀ {s pred}, preds.lookup s = some pred → s ∈ pool.toFinset := by
    intro s pred h
    rw [← hcover]
    exact Finmap.mem_keys.mpr (Finmap.mem_of_lookup_eq_some h)
  have hlimit : ∀ s ∈ pool.toFinset, preds.readD limitWeight s =
      Real.exp (-(riskOf preds s + errorOf preds s)) := by
    intro s hs
    obtain ⟨pred, hpred⟩ := hlookup s hs
    obtain ⟨hr, he⟩ := hrange s pred hpred
    rw [Finmap.readD_of_lookup hpred, limitWeight, riskOf_eq hpred hr, errorOf_eq hpred he]
  have hriskm : ∀ s ∈ pool.toFinset, riskOf preds s ∈ Set.Icc (0 : ℝ) 1 := fun s hs =>
    riskOf_mem (hcover.symm ▸ hs)
  have herrm : ∀ s ∈ pool.toFinset, errorOf preds s ∈ Set.Icc (0 : ℝ) 1 := fun s hs =>
    errorOf_mem (hcover.symm ▸ hs)
  have hrisk' : riskOf preds g < riskOf preds b := by
    rw [riskOf_eq hg (hrange g pg hg).1, riskOf_eq hb (hrange b pb hb).1]
    exact hrisk
  have herr' : errorOf preds g ≤ errorOf preds b := by
    rw [errorOf_eq hg (hrange g pg hg).2, errorOf_eq hb (hrange b pb hb).2]
    exact herr
  refine
    { b_mem := hmem hb
      g_mem := hmem hg
      start := ?_
      step := ?_
      limit_le := ?_
      le_limit := ?_
      antitone := fun t s hs => rawAt_succ_le t (herrm s hs).1
      slow := fun t s hs => le_rawAt_succ t (herrm s hs)
      tendsto := ?_
      worse := fun t => rawAt_lt t hrisk' herr'
      limit_worse := ?_
      first := first_lt (hriskm g (hmem hg)).2 (herrm g (hmem hg)).2 }
  · intro s hs
    rw [syncedMap, weightOf_poolBoard created (List.mem_toFinset.mp hs),
      List.toFinset_card_of_nodup hnd]
  · intro t s hs
    rw [syncedMap, (isPool_syncedMap hcover t).weightOf_nextMap hcover hs]
    -- `poolStep` reads the raw weights on the pool only
    have hraw : ∀ i ∈ pool.toFinset, rawOf (syncedMap pool created preds now t) preds i =
        rawAt (riskOf preds i) (errorOf preds i) t := fun i hi => rawOf_syncedMap hcover hi t
    unfold poolStep
    rw [hraw s hs]
    congr 1
    exact Finset.sum_congr rfl fun i hi => by rw [hraw i hi]
  · intro t s hs
    rw [hlimit s hs]
    exact limit_le_rawAt t (herrm s hs).1
  · intro s hs
    rw [hlimit s hs]
    exact le_limit (hriskm s hs).2 (herrm s hs).2
  · intro s hs
    rw [hlimit s hs]
    exact tendsto_rawAt _ _
  · rw [hlimit b (hmem hb), hlimit g (hmem hg)]
    apply Real.exp_lt_exp.mpr
    linarith

/-- **When bad predictions shift weight.** A pool of `n` backends is synchronised with the
same predictions again and again, and they find `b` worse than `g`. The weight of `b` is
strictly below that of `g` after some number of synchronisations iff the limit weights, cut
off at that of `b`, sum to less than `4/3`, and it is not so that the pool is a pair whose
better raw weight is at most `1/3` from the first synchronisation on. -/
theorem Scoreboard.separates_iff {n : ℕ} (created now : ℕ → Instant)
    (hcover : preds.keys = (backendIds n).toFinset) (hrange : PredictionsInRange preds)
    {b g : ServerId} {pb pg : ServerPrediction} (hb : preds.lookup b = some pb)
    (hg : preds.lookup g = some pg) (hrisk : pg.riskMean < pb.riskMean)
    (herr : pg.errorRate ≤ pb.errorRate) :
    (∃ t sb, (poolBoard (backendIds n) created).writes (repeatedSyncs preds now t) = some sb ∧
        weightOf sb.inner b < weightOf sb.inner g) ↔
      preds.total (fun pred => min (limitWeight pb) (limitWeight pred)) < 4 / 3 ∧
        ¬ (n = 2 ∧ Real.exp (-(pg.riskMean + pg.errorRate / 10)) ≤ 1 / 3) := by
  have hrun := persistentRun_syncedMap created now hcover (nodup_backendIds n) hrange hb hg
    hrisk herr
  have hcard : (backendIds n).toFinset.card = n := by
    rw [List.toFinset_card_of_nodup (nodup_backendIds n), length_backendIds]
  -- the sum of the run, read off the predictions
  have hsum : ∑ s ∈ (backendIds n).toFinset,
      min (preds.readD limitWeight b) (preds.readD limitWeight s) =
        preds.total (fun pred => min (limitWeight pb) (limitWeight pred)) := by
    rw [Finmap.total, hcover]
    refine Finset.sum_congr rfl fun s hs => ?_
    obtain ⟨pred, hpred⟩ := Finmap.exists_lookup_of_mem_keys (hcover.symm ▸ hs)
    rw [Finmap.readD_of_lookup hb, Finmap.readD_of_lookup hpred, Finmap.readD_of_lookup hpred]
  have hfirst : rawAt (riskOf preds g) (errorOf preds g) 0 =
      Real.exp (-(pg.riskMean + pg.errorRate / 10)) := by
    rw [rawAt_eq_exp, riskOf_eq hg (hrange g pg hg).1, errorOf_eq hg (hrange g pg hg).2]
    ring_nf
  have hiff := hrun.exists_lt_iff
  rw [hcard, hsum, hfirst] at hiff
  rw [← hiff]
  refine exists_congr fun t => ?_
  rw [writes_repeatedSyncs]
  refine ⟨?_, fun hlt => ⟨_, rfl, hlt⟩⟩
  -- the board after `t` calls is the `t`-th of the run
  rintro ⟨sb, hsb, hlt⟩
  obtain rfl := Option.some.inj hsb
  exact hlt

end Run

/-! ### Two backends -/

theorem predictionsInRange_riskPair {risk : ℝ} (h : risk ∈ Set.Icc (0 : ℝ) 1) :
    PredictionsInRange (riskPair risk) := by
  intro s pred hpred
  have hs : s = ⟨0⟩ ∨ s = ⟨1⟩ := by
    have hmem : s ∈ (riskPair risk).keys :=
      Finmap.mem_keys.mpr (Finmap.mem_of_lookup_eq_some hpred)
    rw [keys_riskPair] at hmem
    simpa using hmem
  obtain ⟨h₀, h₁⟩ := lookup_riskPair risk
  rcases hs with rfl | rfl
  · rw [h₀, Option.some.injEq] at hpred
    subst hpred
    simp
  · rw [h₁, Option.some.injEq] at hpred
    subst hpred
    exact ⟨h, by simp⟩

/-- The criterion at a pair with full risk on one side. -/
theorem Scoreboard.separates_iff_riskPair :
    (∃ t sb, (poolBoard (backendIds 2) fun i => i).writes
        (repeatedSyncs (riskPair 1) (fun k => 9 + k) t) = some sb ∧
        weightOf sb.inner ⟨1⟩ < weightOf sb.inner ⟨0⟩) ↔
      (riskPair 1).total (fun pred => min (limitWeight ⟨1, 0, 1, 0⟩) (limitWeight pred)) <
          4 / 3 ∧
        ¬ (2 = 2 ∧ Real.exp (-((0 : ℝ) + 0 / 10)) ≤ 1 / 3) :=
  separates_iff (fun i => i) _ (keys_riskPair 1) (predictionsInRange_riskPair (by simp))
    (lookup_riskPair 1).2 (lookup_riskPair 1).1 one_pos le_rfl

/-- **Bad predictions that shift nothing.** Backend `1` is predicted a risk of a quarter for
ever and backend `0` none. Both weights would have to exceed `3/4 * exp (-1/4)` before the
clamp tells the backends apart, and they are `1/2` each. -/
theorem Scoreboard.never_separates_quarter :
    PredictionsInRange (riskPair (1 / 4)) ∧
      (riskPair (1 / 4)).keys = (backendIds 2).toFinset ∧
      ¬ ∃ t sb, (poolBoard (backendIds 2) fun i => i).writes
        (repeatedSyncs (riskPair (1 / 4)) (fun k => 9 + k) t) = some sb ∧
        weightOf sb.inner ⟨1⟩ < weightOf sb.inner ⟨0⟩ := by
  have hrange : PredictionsInRange (riskPair (1 / 4)) :=
    predictionsInRange_riskPair (by norm_num)
  have hcover : (riskPair (1 / 4)).keys = (backendIds 2).toFinset := keys_riskPair _
  obtain ⟨h₀, h₁⟩ := lookup_riskPair (1 / 4)
  refine ⟨hrange, hcover, ?_⟩
  rintro ⟨t, sb, hsb, hlt⟩
  rw [writes_repeatedSyncs] at hsb
  obtain rfl := Option.some.inj hsb
  have hrun := persistentRun_syncedMap (fun i => i) (fun k => 9 + k) hcover (nodup_backendIds 2)
    hrange h₁ h₀ (by norm_num) le_rfl
  have hsum := (hrun.exists_lt_iff.mp ⟨t, hlt⟩).1
  -- both limits are at least `3/4`
  have hquarter : (3 : ℝ) / 4 ≤ Real.exp (-(1 / 4)) := by
    have := Real.add_one_le_exp (-(1 / 4 : ℝ))
    linarith
  have hlimit : ∀ s ∈ (backendIds 2).toFinset, 3 / 4 ≤ (riskPair (1 / 4)).readD limitWeight s := by
    intro s hs
    have hs' : s = ⟨0⟩ ∨ s = ⟨1⟩ := by simpa [backendIds, List.range_succ] using hs
    rcases hs' with rfl | rfl
    · rw [Finmap.readD_of_lookup h₀, limitWeight]
      norm_num
    · rw [Finmap.readD_of_lookup h₁, limitWeight, add_zero]
      exact hquarter
  have hone : (⟨1⟩ : ServerId) ∈ (backendIds 2).toFinset := hrun.b_mem
  have hge := Finset.card_nsmul_le_sum (backendIds 2).toFinset _ (3 / 4 : ℝ)
    fun s hs => le_min (hlimit ⟨1⟩ hone) (hlimit s hs)
  rw [List.toFinset_card_of_nodup (nodup_backendIds 2), length_backendIds, nsmul_eq_mul] at hge
  push_cast at hge
  linarith

end ScalableBooking.RouterCore
