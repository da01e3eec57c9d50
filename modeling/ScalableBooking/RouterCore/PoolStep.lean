import ScalableBooking.RouterCore.BoardInvariant
import ScalableBooking.RouterCore.SingleDomain

/-!
# One synchronisation of a proxy's pool

`ProxyState::sync_scoreboard` predicts every backend of a pool whose backends share one
domain, under the default configuration and at cluster load zero. On such a board
(`IsPool`) an update is a function of two families of numbers: the old weights and the raw
weights the predictions lead to. `poolStep` is that function, and `IsPool.weightOf_nextMap`
says that the update computes it.

The raw weights have a memory, the health EMA, which `IsPool.healthOf_nextMap` follows.
-/

namespace ScalableBooking.RouterCore

variable {S : Finset ServerId} {m : ScoreMap} {preds : Predictions} {now : Instant}
  {s : ServerId}

/-! ### The step on numbers -/

/-- Smoothing and clamp for one server, by the default configuration at load zero. -/
noncomputable def moved (raw w : ℝ) : ℝ := shiftWeight ScoreboardConfig.default (3 / 10) raw w

/-- The weight of one server before normalisation, when the one domain is scaled to the cap. -/
noncomputable def settled (raw w : ℝ) : ℝ := max (2 / 5 * moved raw w) (3 / 100)

/-- The published weights of a pool. -/
noncomputable def poolStep (S : Finset ServerId) (raw w : ServerId → ℝ) (s : ServerId) : ℝ :=
  settled (raw s) (w s) / ∑ t ∈ S, settled (raw t) (w t)

theorem moved_eq (raw w : ℝ) :
    moved raw w = clamp (3 / 10 * raw + 7 / 10 * w) (w - max w (3 / 100) / 10)
      (w + max w (3 / 100) / 10) := by
  unfold moved shiftWeight maxDelta
  rw [ScoreboardConfig.default_maxShiftFraction, ScoreboardConfig.default_minWeight]
  ring_nf

/-- Both the smoothed weight and the upper bound of the clamp are positive. -/
theorem moved_pos {raw w : ℝ} (hraw : 0 < raw) (hw : 0 < w) : 0 < moved raw w := by
  have hmax : w ≤ max w (3 / 100) := le_max_left _ _
  rw [moved_eq]
  -- the lower bound of the clamp may be negative, and does not matter
  refine lt_of_lt_of_le (lt_min ?_ ?_) (min_le_clamp _ _ _) <;> linarith

theorem settled_pos (raw w : ℝ) : 0 < settled raw w :=
  lt_of_lt_of_le (by norm_num) (le_max_right _ _)

theorem sum_settled_pos (hs : s ∈ S) (raw w : ServerId → ℝ) :
    0 < ∑ t ∈ S, settled (raw t) (w t) :=
  Finset.sum_pos (fun _ _ => settled_pos _ _) ⟨s, hs⟩

theorem poolStep_pos (hs : s ∈ S) (raw w : ServerId → ℝ) : 0 < poolStep S raw w s :=
  div_pos (settled_pos _ _) (sum_settled_pos hs raw w)

/-! ### The predictions and the memory -/

/-- The health score of a server on the board. -/
noncomputable def healthOf (m : ScoreMap) (s : ServerId) : ℝ := m.readD ServerScore.healthScore s

/-- The risk the default configuration sees in a prediction. -/
noncomputable def riskOf (preds : Predictions) (s : ServerId) : ℝ :=
  preds.readD (effectiveRisk ScoreboardConfig.default) s

/-- The error rate the default configuration sees in a prediction. -/
noncomputable def errorOf (preds : Predictions) (s : ServerId) : ℝ :=
  preds.readD (fun pred => clamp pred.errorRate 0 1) s

/-- The health score after one more observation. -/
noncomputable def healthAfter (m : ScoreMap) (preds : Predictions) (s : ServerId) : ℝ :=
  1 / 10 * errorOf preds s + 9 / 10 * healthOf m s

/-- The raw weight an update gives a server. -/
noncomputable def rawOf (m : ScoreMap) (preds : Predictions) (s : ServerId) : ℝ :=
  rawWeight (riskOf preds s) (healthAfter m preds s)

/-- The raw weight after `t + 1` observations of the error rate `e` at risk `r`. -/
noncomputable def rawAt (r e : ℝ) (t : ℕ) : ℝ := rawWeight r (e * (1 - (9 / 10) ^ (t + 1)))

theorem healthOf_of_lookup {sc : ServerScore} (h : m.lookup s = some sc) :
    healthOf m s = sc.healthScore :=
  Finmap.readD_of_lookup h

theorem healthOf_poolBoard {pool : List ServerId} (created : ℕ → Instant) (hs : s ∈ pool) :
    healthOf (poolBoard pool created).inner s = 0 := by
  obtain ⟨i, hi⟩ := lookup_poolBoard created hs
  rw [healthOf_of_lookup hi]
  rfl

/-- The first raw weight of a backend: nothing has been observed before. -/
theorem rawOf_poolBoard {pool : List ServerId} (created : ℕ → Instant) (hs : s ∈ pool)
    {pred : ServerPrediction} (hp : preds.lookup s = some pred) :
    rawOf (poolBoard pool created).inner preds s =
      rawWeight (effectiveRisk ScoreboardConfig.default pred)
        (1 / 10 * clamp pred.errorRate 0 1) := by
  rw [rawOf, healthAfter, healthOf_poolBoard created hs, riskOf, errorOf,
    Finmap.readD_of_lookup hp, Finmap.readD_of_lookup hp, mul_zero, add_zero]

theorem rawWeight_pos (r h : ℝ) : 0 < rawWeight r h := by
  unfold rawWeight
  positivity

theorem riskOf_mem (hs : s ∈ preds.keys) : riskOf preds s ∈ Set.Icc (0 : ℝ) 1 := by
  obtain ⟨pred, hpred⟩ := Finmap.exists_lookup_of_mem_keys hs
  rw [riskOf, Finmap.readD_of_lookup hpred]
  exact clamp_zero_one_mem _

theorem errorOf_mem (hs : s ∈ preds.keys) : errorOf preds s ∈ Set.Icc (0 : ℝ) 1 := by
  obtain ⟨pred, hpred⟩ := Finmap.exists_lookup_of_mem_keys hs
  rw [errorOf, Finmap.readD_of_lookup hpred]
  exact clamp_zero_one_mem _

/-- At load zero the base smoothing factor is inside its range. -/
theorem smoothingFactor_default_zero :
    smoothingFactor ScoreboardConfig.default 0 = 3 / 10 := by
  have h₀ : clamp (0 : ℝ) 0 1 = 0 := clamp_of_mem le_rfl zero_le_one
  unfold smoothingFactor
  rw [h₀, ScoreboardConfig.default_smoothingAlpha, ScoreboardConfig.default_minAlpha,
    ScoreboardConfig.default_maxAlpha, clamp_of_mem] <;> norm_num

/-! ### The step on the board -/

/-- The board holds the pool `S` and nobody else, in domain `0`, and is in range. -/
structure IsPool (S : Finset ServerId) (m : ScoreMap) : Prop where
  keys_eq : m.keys = S
  oneDomain : InOneDomain m ⟨0⟩
  inRange : ScoresInRange m
  weight_pos : ∀ s ∈ S, 0 < weightOf m s

theorem isPool_poolBoard (pool : List ServerId) (created : ℕ → Instant) :
    IsPool pool.toFinset (poolBoard pool created).inner where
  keys_eq := keys_poolBoard pool created
  oneDomain := inOneDomain_poolBoard pool created
  inRange := scoresInRange_withServers _ _
  weight_pos := by
    intro s hs
    rw [List.mem_toFinset] at hs
    have hlen : (0 : ℝ) < pool.length := by
      exact_mod_cast List.length_pos_of_mem hs
    rw [weightOf_poolBoard created hs]
    exact one_div_pos.mpr hlen

namespace IsPool

theorem healthOf_mem (h : IsPool S m) (hs : s ∈ S) : healthOf m s ∈ Set.Icc (0 : ℝ) 1 := by
  obtain ⟨sc, hsc⟩ := Finmap.exists_lookup_of_mem_keys (h.keys_eq.symm ▸ hs)
  rw [healthOf_of_lookup hsc]
  exact (h.inRange s sc hsc).healthScore_mem

theorem healthAfter_mem (h : IsPool S m) (hp : preds.keys = S) (hs : s ∈ S) :
    healthAfter m preds s ∈ Set.Icc (0 : ℝ) 1 := by
  obtain ⟨he₀, he₁⟩ := errorOf_mem (hp.symm ▸ hs)
  obtain ⟨hh₀, hh₁⟩ := h.healthOf_mem hs
  unfold healthAfter
  refine ⟨?_, ?_⟩ <;> linarith

variable (now) in
/-- The rebuilt entry of a predicted backend. -/
theorem lookup_rebuildMap (h : IsPool S m) (hp : preds.keys = S) (hs : s ∈ S) :
    ∃ sc, (rebuildMap ScoreboardConfig.default m preds 0 now).lookup s = some sc ∧
      sc.weight = moved (rawOf m preds s) (weightOf m s) ∧
      sc.healthScore = healthAfter m preds s ∧ sc.updatedAt = now := by
  obtain ⟨sc, hsc⟩ := Finmap.exists_lookup_of_mem_keys (h.keys_eq.symm ▸ hs)
  obtain ⟨pred, hpred⟩ := Finmap.exists_lookup_of_mem_keys (hp.symm ▸ hs)
  have hhealth : nextHealth ScoreboardConfig.default sc.healthScore pred =
      healthAfter m preds s := by
    -- the EMA with the default coefficient, on the readings of the board
    rw [nextHealth, healthAfter, healthOf_of_lookup hsc, errorOf, Finmap.readD_of_lookup hpred,
      ScoreboardConfig.default_healthEmaBeta]
    norm_num
  refine ⟨_, lookup_rebuildMap_refreshed hsc hpred, ?_, hhealth, rfl⟩
  -- what is left is the weight: the default smoothing of the raw weight
  show shiftWeight _ (smoothingFactor ScoreboardConfig.default 0) (rawWeight _ _) _ = _
  rw [hhealth, smoothingFactor_default_zero, moved, rawOf, riskOf, Finmap.readD_of_lookup hpred,
    weightOf_of_lookup hsc]

/-- **An update of a pool computes `poolStep`.** -/
theorem weightOf_nextMap (h : IsPool S m) (hp : preds.keys = S) (hs : s ∈ S) :
    weightOf (nextMap ScoreboardConfig.default m preds 0 now) s =
      poolStep S (rawOf m preds) (weightOf m) s := by
  -- everybody is predicted, so nobody is kept and nobody is new
  have hkeys : m.keys ∪ preds.keys = S := by
    rw [h.keys_eq, hp, Finset.union_self]
  have hrebuilt : ∀ t ∈ S, weightOf (rebuildMap ScoreboardConfig.default m preds 0 now) t =
      moved (rawOf m preds t) (weightOf m t) := by
    intro t ht
    obtain ⟨sc, hsc, hw, -⟩ := h.lookup_rebuildMap now hp ht
    rw [weightOf_of_lookup hsc, hw]
  have hT : 0 < totalWeight (rebuildMap ScoreboardConfig.default m preds 0 now) := by
    rw [totalWeight_eq_sum, keys_rebuildMap, hkeys]
    refine Finset.sum_pos (fun t ht => ?_) ⟨s, hs⟩
    rw [hrebuilt t ht]
    exact moved_pos (rawWeight_pos _ _) (h.weight_pos t ht)
  -- one domain, so the caps scale everybody, and then comes the floor
  have hsettled : ∀ t ∈ S, weightOf (flooredMap ScoreboardConfig.default m preds 0 now) t =
      settled (rawOf m preds t) (weightOf m t) := by
    intro t ht
    rw [weightOf_flooredMap_oneDomain h.oneDomain (by norm_num) hT (hkeys.symm ▸ ht),
      hrebuilt t ht, ScoreboardConfig.default_domainCapacityFraction,
      ScoreboardConfig.default_minWeight, settled]
  have hne : (m.keys ∪ preds.keys).Nonempty := ⟨s, hkeys.symm ▸ hs⟩
  rw [RouterCore.weightOf_nextMap (by norm_num) hne, totalWeight_eq_sum, keys_flooredMap, hkeys,
    hsettled s hs, poolStep, Finset.sum_congr rfl hsettled]

variable (now) in
/-- What an update writes besides the weights. -/
theorem lookup_nextMap (h : IsPool S m) (hp : preds.keys = S) (hs : s ∈ S) :
    ∃ sc, (nextMap ScoreboardConfig.default m preds 0 now).lookup s = some sc ∧
      sc.healthScore = healthAfter m preds s ∧ sc.updatedAt = now := by
  have hmem : s ∈ (nextMap ScoreboardConfig.default m preds 0 now).keys := by
    rw [keys_nextMap, h.keys_eq, hp, Finset.union_self]
    exact hs
  obtain ⟨sc, hsc⟩ := Finmap.exists_lookup_of_mem_keys hmem
  -- the later passes write weights only
  obtain ⟨sc₀, h₀, hw⟩ := exists_lookup_nextMap hsc
  obtain ⟨sc₁, h₁, -, hhealth, hnow⟩ := h.lookup_rebuildMap now hp hs
  rw [h₁, Option.some.injEq] at h₀
  subst h₀
  refine ⟨sc, hsc, ?_, ?_⟩
  · rw [hw]
    exact hhealth
  · rw [hw]
    exact hnow

theorem healthOf_nextMap (h : IsPool S m) (hp : preds.keys = S) (hs : s ∈ S) :
    healthOf (nextMap ScoreboardConfig.default m preds 0 now) s = healthAfter m preds s := by
  obtain ⟨sc, hsc, hhealth, -⟩ := h.lookup_nextMap now hp hs
  rw [healthOf_of_lookup hsc, hhealth]

/-- The pool stays a pool. -/
theorem nextMap (h : IsPool S m) (hp : preds.keys = S) :
    IsPool S (nextMap ScoreboardConfig.default m preds 0 now) where
  keys_eq := by rw [keys_nextMap, h.keys_eq, hp, Finset.union_self]
  oneDomain := h.oneDomain.nextMap
  inRange := h.inRange.nextMap ScoreboardConfig.default_valid
  weight_pos := by
    intro s hs
    rw [h.weightOf_nextMap hp hs]
    exact poolStep_pos hs _ _

end IsPool

/-! ### A pool of two with one risky backend -/

/-- Backend `0` is predicted safe and backend `1` with the given risk, neither with errors. -/
noncomputable def riskPair (risk : ℝ) : Predictions :=
  (Finmap.singleton ⟨0⟩ ⟨0, 0, 1, 0⟩).insert ⟨1⟩ ⟨risk, 0, 1, 0⟩

theorem keys_riskPair (risk : ℝ) : (riskPair risk).keys = [⟨0⟩, ⟨1⟩].toFinset := by
  ext s
  rw [Finmap.mem_keys, riskPair, Finmap.mem_insert, Finmap.mem_singleton]
  simp [or_comm]

theorem lookup_riskPair (risk : ℝ) : (riskPair risk).lookup ⟨0⟩ = some ⟨0, 0, 1, 0⟩ ∧
    (riskPair risk).lookup ⟨1⟩ = some ⟨risk, 0, 1, 0⟩ :=
  ⟨(Finmap.lookup_insert_of_ne _ (by simp)).trans Finmap.lookup_singleton_eq,
    Finmap.lookup_insert _⟩

end ScalableBooking.RouterCore
