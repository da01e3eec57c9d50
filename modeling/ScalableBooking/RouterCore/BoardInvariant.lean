import ScalableBooking.RouterCore.Passes

/-!
# The representation invariant of the scoreboard

After every update that leaves the board non-empty the weights are positive and sum to one;
the risk, the confidence and the health of every entry lie in `[0, 1]`; no server is
dropped or moved to another domain; and the server set has grown by the predicted servers.

The ranges are the inductive part (`ScoresInRange`): the health EMA feeds back across
updates, so it stays in `[0, 1]` only because the entry it was read from was there. The
weights need no history at all, since the floor and the normalisation re-establish both
facts whatever the three passes before them did.
-/

namespace ScalableBooking.RouterCore

variable {cfg : ScoreboardConfig} {old : ScoreMap} {preds : Predictions} {load : ℝ}
  {now : Instant} {s : ServerId} {sc : ServerScore}

/-! ### Ranges -/

/-- The three bounded readings of an entry. -/
structure ServerScore.InRange (sc : ServerScore) : Prop where
  risk_mem : sc.risk ∈ Set.Icc (0 : ℝ) 1
  confidence_mem : sc.confidence ∈ Set.Icc (0 : ℝ) 1
  healthScore_mem : sc.healthScore ∈ Set.Icc (0 : ℝ) 1

/-- Every entry of the board is in range. -/
def ScoresInRange (m : ScoreMap) : Prop := ∀ s sc, m.lookup s = some sc → sc.InRange

theorem clamp_zero_one_mem (x : ℝ) : clamp x 0 1 ∈ Set.Icc (0 : ℝ) 1 :=
  ⟨le_clamp x zero_le_one, clamp_le x 0 1⟩

/-- One step of the EMA stays between the old health and the clamped error rate. -/
theorem nextHealth_mem (hcfg : cfg.Valid) {health : ℝ} (h : health ∈ Set.Icc (0 : ℝ) 1)
    (pred : ServerPrediction) : nextHealth cfg health pred ∈ Set.Icc (0 : ℝ) 1 := by
  obtain ⟨hβ₀, hβ₁⟩ := hcfg.healthEmaBeta_mem
  have herr := clamp_zero_one_mem pred.errorRate
  -- a convex combination, since the EMA coefficient is a fraction
  exact convex_Icc (0 : ℝ) 1 herr h hβ₀ (sub_nonneg.mpr hβ₁) (by ring)

theorem refreshScore_inRange (hcfg : cfg.Valid) (h : sc.InRange) (alpha : ℝ)
    (pred : ServerPrediction) : (refreshScore cfg alpha now sc pred).InRange where
  risk_mem := clamp_zero_one_mem _
  confidence_mem := clamp_zero_one_mem _
  healthScore_mem := nextHealth_mem hcfg h.healthScore_mem pred

theorem insertedScore_inRange (pred : ServerPrediction) :
    (insertedScore cfg now pred).InRange where
  risk_mem := clamp_zero_one_mem _
  confidence_mem := clamp_zero_one_mem _
  healthScore_mem := clamp_zero_one_mem _

/-- Another weight does not take an entry out of range. -/
theorem ServerScore.InRange.withWeight (h : sc.InRange) (w : ℝ) :
    ({ sc with weight := w } : ServerScore).InRange :=
  ⟨h.risk_mem, h.confidence_mem, h.healthScore_mem⟩

theorem ScoresInRange.nextMap (hcfg : cfg.Valid) (h : ScoresInRange old) :
    ScoresInRange (nextMap cfg old preds load now) := by
  intro s sc hs
  obtain ⟨sc₀, h₀, hsc⟩ := exists_lookup_nextMap hs
  rw [hsc]
  refine ServerScore.InRange.withWeight ?_ _
  -- refreshed, kept or inserted
  obtain ⟨sc₁, pred, h₁, -, rfl⟩ | ⟨h₁, -⟩ | ⟨pred, -, -, rfl⟩ := lookup_rebuildMap_cases h₀
  · exact refreshScore_inRange hcfg (h s sc₁ h₁) _ pred
  · exact h s sc₀ h₁
  · exact insertedScore_inRange pred

theorem scoresInRange_withServers (serverDomains : List (ServerId × DomainId))
    (created : ℕ → Instant) :
    ScoresInRange (Scoreboard.withServers serverDomains cfg created).inner := by
  intro s sc h
  obtain ⟨d, i, -, rfl⟩ := lookup_withServers h
  -- a new entry: no risk, full confidence, no errors yet
  refine ⟨?_, ?_, ?_⟩ <;> simp [ServerScore.new]

/-! ### Weights, domains and servers after one update -/

theorem weight_pos_nextMap (hmin : 0 < cfg.minWeight)
    (h : (nextMap cfg old preds load now).lookup s = some sc) : 0 < sc.weight := by
  have hs : s ∈ old.keys ∪ preds.keys := by
    rw [← keys_nextMap cfg old preds load now]
    exact Finmap.mem_keys.mpr (Finmap.mem_of_lookup_eq_some h)
  -- the floor is positive, and the division is by a positive total
  have hfloor : 0 < weightOf (flooredMap cfg old preds load now) s :=
    hmin.trans_le (minWeight_le_weightOf_flooredMap hs)
  rw [← weightOf_of_lookup h, weightOf_nextMap hmin ⟨s, hs⟩]
  exact div_pos hfloor (totalWeight_flooredMap_pos hmin ⟨s, hs⟩)

theorem totalWeight_nextMap (hmin : 0 < cfg.minWeight)
    (hne : (old.keys ∪ preds.keys).Nonempty) :
    totalWeight (nextMap cfg old preds load now) = 1 := by
  rw [nextMap_eq]
  exact totalWeight_normalizeWeights (totalWeight_flooredMap_pos hmin hne)

/-- A known server stays on the board, in its domain. -/
theorem exists_domain_nextMap (h : old.lookup s = some sc) :
    ∃ sc', (nextMap cfg old preds load now).lookup s = some sc' ∧ sc'.domain = sc.domain := by
  have hs : s ∈ (nextMap cfg old preds load now).keys := by
    rw [keys_nextMap]
    exact Finset.mem_union_left _ (Finmap.mem_keys.mpr (Finmap.mem_of_lookup_eq_some h))
  obtain ⟨sc', hsc'⟩ := Finmap.exists_lookup_of_mem_keys hs
  refine ⟨sc', hsc', ?_⟩
  obtain ⟨sc₀, h₀, hw⟩ := exists_lookup_nextMap hsc'
  rw [hw]
  show sc₀.domain = sc.domain
  -- with a prediction or without, the domain of the entry is the old one
  cases hp : preds.lookup s with
  | some pred =>
    rw [lookup_rebuildMap_refreshed h hp, Option.some.injEq] at h₀
    rw [← h₀]
    rfl
  | none =>
    rw [lookup_rebuildMap_kept h hp, Option.some.injEq] at h₀
    rw [h₀]

/-! ### Reachable boards -/

/-- A board that a constructor and any sequence of writer calls produce under `cfg`. The
empty board of `Scoreboard::new` is the one over no servers. -/
def Scoreboard.Reachable (cfg : ScoreboardConfig) (sb : Scoreboard) : Prop :=
  ∃ serverDomains created calls,
    (withServers serverDomains cfg created).writes calls = some sb

/-- What the constructors establish and an update keeps holds of every reachable board. -/
theorem Scoreboard.Reachable.induction {I : ScoreMap → Prop} {sb : Scoreboard}
    (hcfg : cfg.Valid) (h : sb.Reachable cfg)
    (h₀ : ∀ serverDomains created, I (withServers serverDomains cfg created).inner)
    (hstep : ∀ m preds load now, I m → I (RouterCore.nextMap cfg m preds load now)) :
    sb.config = cfg ∧ I sb.inner := by
  obtain ⟨serverDomains, created, calls, hsb⟩ := h
  obtain ⟨sb', hsb', hconf, hI⟩ :=
    @writes_induction I (withServers serverDomains cfg created) calls hcfg (h₀ _ _)
      fun m call _ => hstep m _ _ _
  rw [hsb, Option.some.injEq] at hsb'
  subst hsb'
  exact ⟨hconf, hI⟩

theorem Scoreboard.Reachable.config_eq {sb : Scoreboard} (hcfg : cfg.Valid)
    (h : sb.Reachable cfg) : sb.config = cfg :=
  (h.induction hcfg (I := fun _ => True) (fun _ _ => trivial) fun _ _ _ _ _ => trivial).1

/-- No entry of the board has a negative weight. -/
def WeightsNonneg (m : ScoreMap) : Prop := ∀ s sc, m.lookup s = some sc → 0 ≤ sc.weight

theorem WeightsNonneg.weightOf (h : WeightsNonneg old) (s : ServerId) : 0 ≤ weightOf old s := by
  cases hs : old.lookup s with
  | some sc =>
    rw [weightOf_of_lookup hs]
    exact h s sc hs
  | none => exact (Finmap.readD_of_notMem (Finmap.lookup_eq_none.mp hs)).ge

theorem totalWeight_nonneg (hw : WeightsNonneg old) : 0 ≤ totalWeight old :=
  Finset.sum_nonneg fun s _ => hw.weightOf s

/-- No weight is negative before the caps. -/
theorem WeightsNonneg.rebuildMap (hcfg : cfg.Valid) (hold : WeightsNonneg old) :
    WeightsNonneg (rebuildMap cfg old preds load now) := by
  intro s sc hsc
  obtain ⟨sc₀, pred, h₀, -, rfl⟩ | ⟨h₀, -⟩ | ⟨pred, -, -, rfl⟩ := lookup_rebuildMap_cases hsc
  · -- the smoothed weight and the upper bound of the clamp are both non-negative
    have hw := hold s sc₀ h₀
    have hα := smoothingFactor_mem hcfg load
    have hδ := hcfg.maxDelta_nonneg sc₀.weight
    refine le_trans (le_min ?_ ?_) (min_le_clamp _ _ _)
    · exact add_nonneg (mul_nonneg hα.1 (rawWeight_nonneg _ _))
        (mul_nonneg (sub_nonneg.mpr hα.2) hw)
    · exact add_nonneg hw hδ
  · exact hold s sc h₀
  · exact rawWeight_nonneg _ _

theorem weightsNonneg_withServers (serverDomains : List (ServerId × DomainId))
    (created : ℕ → Instant) :
    WeightsNonneg (Scoreboard.withServers serverDomains cfg created).inner := by
  intro s sc h
  obtain ⟨d, i, -, rfl⟩ := lookup_withServers h
  show 0 ≤ Scoreboard.initialWeight serverDomains
  unfold Scoreboard.initialWeight
  split <;> positivity

/-- Whatever was on the board, no update publishes a negative weight. -/
theorem weightsNonneg_nextMap (hcfg : cfg.Valid) :
    WeightsNonneg (nextMap cfg old preds load now) := by
  intro s sc hs
  have hmem : s ∈ old.keys ∪ preds.keys := by
    rw [← keys_nextMap cfg old preds load now]
    exact Finmap.mem_keys.mpr (Finmap.mem_of_lookup_eq_some hs)
  have hfloor : ∀ s ∈ old.keys ∪ preds.keys,
      0 ≤ RouterCore.weightOf (flooredMap cfg old preds load now) s :=
    fun s hs => hcfg.minWeight_mem.1.trans (minWeight_le_weightOf_flooredMap hs)
  rw [← weightOf_of_lookup hs, nextMap_eq]
  -- a floor of zero may leave nothing to divide by, and then nothing is divided
  by_cases hT : 0 < totalWeight (flooredMap cfg old preds load now)
  · rw [weightOf_normalizeWeights hT]
    exact div_nonneg (hfloor s hmem) hT.le
  · rw [normalizeWeights, if_neg hT]
    exact hfloor s hmem

theorem Scoreboard.Reachable.weightsNonneg {sb : Scoreboard} (hcfg : cfg.Valid)
    (h : sb.Reachable cfg) : WeightsNonneg sb.inner :=
  (h.induction hcfg weightsNonneg_withServers fun _ _ _ _ _ => weightsNonneg_nextMap hcfg).2

/-! ### The invariant over every run -/

/-- **The representation invariant.** Whatever sequence of writer calls came before, the
next call returns, and on the board it leaves: if there is a server at all, every weight is
positive and the weights sum to one; every entry is in range; every server that was known
is still there, in its domain; and the servers are the old ones and the predicted ones. -/
theorem Scoreboard.representation_invariant (hcfg : cfg.Valid) (hmin : 0 < cfg.minWeight)
    (serverDomains : List (ServerId × DomainId)) (created : ℕ → Instant)
    (calls : List WriterCall) (call : WriterCall) :
    ∃ sb sb' : Scoreboard,
      (withServers serverDomains cfg created).writes calls = some sb ∧
      sb.write call = some sb' ∧
      (sb'.inner.keys.Nonempty →
        (∀ s sc, sb'.inner.lookup s = some sc → 0 < sc.weight) ∧ totalWeight sb'.inner = 1) ∧
      ScoresInRange sb'.inner ∧
      (∀ s sc, sb.inner.lookup s = some sc →
        ∃ sc', sb'.inner.lookup s = some sc' ∧ sc'.domain = sc.domain) ∧
      sb'.inner.keys = sb.inner.keys ∪ call.predictions.keys := by
  have h₀ : ScoresInRange (withServers serverDomains cfg created).inner :=
    scoresInRange_withServers serverDomains created
  -- the ranges are what the run has to carry
  obtain ⟨sb, hsb, hconf, hrange⟩ :=
    @writes_induction ScoresInRange _ calls hcfg h₀ fun m call _ h => h.nextMap hcfg
  replace hconf : sb.config = cfg := hconf
  subst hconf
  refine ⟨sb, _, hsb, write_eq hcfg call, ?_, hrange.nextMap hcfg, ?_, keys_nextMap _ _ _ _ _⟩
  · intro hne
    replace hne : (sb.inner.keys ∪ call.predictions.keys).Nonempty := by
      rw [← keys_nextMap]
      exact hne
    exact ⟨fun s sc h => weight_pos_nextMap hmin h, totalWeight_nextMap hmin hne⟩
  · exact fun s sc h => exists_domain_nextMap h

/-- One server, one legacy update, the default configuration. -/
theorem Scoreboard.representation_invariant_default :
    ∃ sb sb' : Scoreboard,
      (withServers [(⟨0⟩, ⟨7⟩)] ScoreboardConfig.default fun _ => 0).writes [] = some sb ∧
      sb.write (.updateSingleServer ⟨1⟩ 2 (-1) 5) = some sb' ∧
      (sb'.inner.keys.Nonempty →
        (∀ s sc, sb'.inner.lookup s = some sc → 0 < sc.weight) ∧ totalWeight sb'.inner = 1) ∧
      ScoresInRange sb'.inner ∧
      (∀ s sc, sb.inner.lookup s = some sc →
        ∃ sc', sb'.inner.lookup s = some sc' ∧ sc'.domain = sc.domain) ∧
      sb'.inner.keys =
        sb.inner.keys ∪ (WriterCall.updateSingleServer ⟨1⟩ 2 (-1) 5).predictions.keys :=
  representation_invariant ScoreboardConfig.default_valid (by norm_num) _ _ _ _

end ScalableBooking.RouterCore
