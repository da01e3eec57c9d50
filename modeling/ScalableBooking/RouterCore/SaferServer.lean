import ScalableBooking.RouterCore.Passes

/-!
# A safer server never gets less weight

A relation between two servers of one failure domain, carried through every pass of every
update. `AtLeastAsSafe m i j` says that on the board `m` the server `i` has at least the
weight of `j` and at most its health score (a high health score is bad). An update whose
prediction for `i` dominates the one for `j` preserves it.

The rebuild is where the two predictions meet (`refreshScore_weight_mono`): both bounds of
the max-shift clamp are monotone in the old weight, because the width of the clamp grows by
at most the growth of the weight itself (`maxDelta_sub_le`). The later passes only have to
be monotone within a domain, which is `AtLeastAsSafe.reweigh`.
-/

namespace ScalableBooking.RouterCore

variable {cfg : ScoreboardConfig} {m old : ScoreMap} {preds : Predictions} {load : ℝ}
  {now : Instant} {i j : ServerId}

/-- On the board, `i` is in the domain of `j`, has no less weight and no worse health. -/
def AtLeastAsSafe (m : ScoreMap) (i j : ServerId) : Prop :=
  ∃ a b, m.lookup i = some a ∧ m.lookup j = some b ∧ a.domain = b.domain ∧
    b.weight ≤ a.weight ∧ a.healthScore ≤ b.healthScore

/-- Both servers are predicted, and no reading for `i` is larger than the one for `j`. -/
def Dominates (preds : Predictions) (i j : ServerId) : Prop :=
  ∃ p q, preds.lookup i = some p ∧ preds.lookup j = some q ∧ p.riskMean ≤ q.riskMean ∧
    p.riskVariance ≤ q.riskVariance ∧ p.errorRate ≤ q.errorRate

/-! ### Monotonicity of the rebuild -/

theorem effectiveRisk_mono (hcfg : cfg.Valid) {p q : ServerPrediction}
    (hrisk : p.riskMean ≤ q.riskMean) (hvar : p.riskVariance ≤ q.riskVariance) :
    effectiveRisk cfg p ≤ effectiveRisk cfg q := by
  have hmean : clamp p.riskMean 0 1 ≤ clamp q.riskMean 0 1 :=
    clamp_le_clamp hrisk le_rfl le_rfl
  have hdev : √(max p.riskVariance 0) ≤ √(max q.riskVariance 0) :=
    Real.sqrt_le_sqrt (max_le_max hvar le_rfl)
  have hscaled := mul_le_mul_of_nonneg_left hdev hcfg.riskAversionLambda_nonneg
  exact clamp_le_clamp (add_le_add hmean hscaled) le_rfl le_rfl

theorem nextHealth_mono (hcfg : cfg.Valid) {h h' : ℝ} {p q : ServerPrediction} (hh : h ≤ h')
    (herr : p.errorRate ≤ q.errorRate) : nextHealth cfg h p ≤ nextHealth cfg h' q := by
  obtain ⟨hβ₀, hβ₁⟩ := hcfg.healthEmaBeta_mem
  have hclamp : clamp p.errorRate 0 1 ≤ clamp q.errorRate 0 1 :=
    clamp_le_clamp herr le_rfl le_rfl
  exact add_le_add (mul_le_mul_of_nonneg_left hclamp hβ₀)
    (mul_le_mul_of_nonneg_left hh (sub_nonneg.mpr hβ₁))

theorem rawWeight_anti {r r' h h' : ℝ} (hr : r ≤ r') (hh : h ≤ h') :
    rawWeight r' h' ≤ rawWeight r h := by
  unfold rawWeight
  gcongr

theorem maxDelta_mono (hcfg : cfg.Valid) {w w' : ℝ} (h : w ≤ w') :
    maxDelta cfg w ≤ maxDelta cfg w' :=
  mul_le_mul_of_nonneg_left (max_le_max h le_rfl) hcfg.maxShiftFraction_mem.1

/-- The clamp gets wider by at most the growth of the weight. -/
theorem maxDelta_sub_le (hcfg : cfg.Valid) {w w' : ℝ} (h : w ≤ w') :
    maxDelta cfg w' - maxDelta cfg w ≤ w' - w := by
  obtain ⟨-, hμ⟩ := hcfg.maxShiftFraction_mem
  -- the floor inside the maximum can only slow the growth down
  have hmax₀ : 0 ≤ max w' cfg.minWeight - max w cfg.minWeight :=
    sub_nonneg.mpr (max_le_max h le_rfl)
  have hmax : max w' cfg.minWeight - max w cfg.minWeight ≤ w' - w := by
    rcases max_cases w' cfg.minWeight with ⟨h₁, _⟩ | ⟨h₁, _⟩ <;>
      rcases max_cases w cfg.minWeight with ⟨h₂, _⟩ | ⟨h₂, _⟩ <;> linarith
  calc maxDelta cfg w' - maxDelta cfg w
      = cfg.maxShiftFraction * (max w' cfg.minWeight - max w cfg.minWeight) := by
        unfold maxDelta
        ring
    _ ≤ 1 * (max w' cfg.minWeight - max w cfg.minWeight) :=
        mul_le_mul_of_nonneg_right hμ hmax₀
    _ ≤ w' - w := by rw [one_mul]; exact hmax

theorem shiftWeight_mono (hcfg : cfg.Valid) {alpha raw raw' w w' : ℝ}
    (hα : alpha ∈ Set.Icc (0 : ℝ) 1) (hraw : raw ≤ raw') (hw : w ≤ w') :
    shiftWeight cfg alpha raw w ≤ shiftWeight cfg alpha raw' w' := by
  have hsmooth : alpha * raw + (1 - alpha) * w ≤ alpha * raw' + (1 - alpha) * w' :=
    add_le_add (mul_le_mul_of_nonneg_left hraw hα.1)
      (mul_le_mul_of_nonneg_left hw (sub_nonneg.mpr hα.2))
  -- the lower bounds are ordered because the width grows by no more than the weight
  have hwidth := maxDelta_sub_le hcfg hw
  have hmono := maxDelta_mono hcfg hw
  exact clamp_le_clamp hsmooth (by linarith) (by linarith)

theorem refreshScore_weight_mono (hcfg : cfg.Valid) {a b : ServerScore} {p q : ServerPrediction}
    {alpha : ℝ} (hα : alpha ∈ Set.Icc (0 : ℝ) 1) (hw : b.weight ≤ a.weight)
    (hh : a.healthScore ≤ b.healthScore) (hrisk : p.riskMean ≤ q.riskMean)
    (hvar : p.riskVariance ≤ q.riskVariance) (herr : p.errorRate ≤ q.errorRate) :
    (refreshScore cfg alpha now b q).weight ≤ (refreshScore cfg alpha now a p).weight :=
  shiftWeight_mono hcfg hα
    (rawWeight_anti (effectiveRisk_mono hcfg hrisk hvar) (nextHealth_mono hcfg hh herr)) hw

/-! ### The passes -/

/-- A reweighing that is monotone within a domain preserves the relation. -/
theorem AtLeastAsSafe.reweigh {g : ServerScore → ℝ}
    (hg : ∀ a b : ServerScore, a.domain = b.domain → b.weight ≤ a.weight → g b ≤ g a)
    (h : AtLeastAsSafe m i j) : AtLeastAsSafe (reweigh g m) i j := by
  obtain ⟨a, b, ha, hb, hd, hw, hh⟩ := h
  refine ⟨{ a with weight := g a }, { b with weight := g b }, ?_, ?_, hd, hg a b hd hw, hh⟩
  · rw [lookup_reweigh, ha, Option.map_some]
  · rw [lookup_reweigh, hb, Option.map_some]

theorem AtLeastAsSafe.applyDomainCaps (hcfg : cfg.Valid) (h : AtLeastAsSafe m i j) :
    AtLeastAsSafe (applyDomainCaps cfg m) i j := by
  unfold RouterCore.applyDomainCaps
  split
  · exact h
  · next hT =>
    refine h.reweigh fun a b hd hw => ?_
    have hscale := capScale_nonneg hcfg.domainCapacityFraction_mem.1 (not_le.mp hT) b.domain
    -- one domain, so one branch and one factor for both
    rw [hd]
    unfold capScale at hscale
    split
    · next hover =>
      rw [if_pos hover] at hscale
      exact mul_le_mul_of_nonneg_right hw hscale
    · exact hw

theorem AtLeastAsSafe.applyFloor (h : AtLeastAsSafe m i j) :
    AtLeastAsSafe (applyFloor cfg m) i j := by
  refine h.reweigh fun a b _ hw => ?_
  -- both below, both above, or only one: the maximum is monotone
  split <;> split <;> linarith

theorem AtLeastAsSafe.normalizeWeights (h : AtLeastAsSafe m i j) :
    AtLeastAsSafe (normalizeWeights m) i j := by
  unfold RouterCore.normalizeWeights
  split
  · next hT => exact h.reweigh fun a b _ hw => div_le_div_of_nonneg_right hw hT.le
  · exact h

theorem AtLeastAsSafe.rebuildMap (hcfg : cfg.Valid) (h : AtLeastAsSafe old i j)
    (hdom : Dominates preds i j) : AtLeastAsSafe (rebuildMap cfg old preds load now) i j := by
  obtain ⟨a, b, ha, hb, hd, hw, hh⟩ := h
  obtain ⟨p, q, hp, hq, hrisk, hvar, herr⟩ := hdom
  -- both are refreshed, with the same smoothing factor
  exact ⟨_, _, lookup_rebuildMap_refreshed ha hp, lookup_rebuildMap_refreshed hb hq, hd,
    refreshScore_weight_mono hcfg (smoothingFactor_mem hcfg load) hw hh hrisk hvar herr,
    nextHealth_mono hcfg hh herr⟩

/-- One update with a dominating prediction preserves the relation. -/
theorem AtLeastAsSafe.nextMap (hcfg : cfg.Valid) (h : AtLeastAsSafe old i j)
    (hdom : Dominates preds i j) : AtLeastAsSafe (nextMap cfg old preds load now) i j :=
  ((h.rebuildMap hcfg hdom).applyDomainCaps hcfg).applyFloor.normalizeWeights

/-! ### Every sequence of updates -/

/-- **A safer server never gets less weight.** After any sequence of updates in each of
which the prediction for `i` dominates the one for `j`, the weight of `i` is still at least
that of `j` and its health score at most that of `j`. -/
theorem Scoreboard.atLeastAsSafe_writes {sb : Scoreboard} (hcfg : sb.config.Valid)
    (h : AtLeastAsSafe sb.inner i j) {calls : List WriterCall}
    (hdom : ∀ call ∈ calls, Dominates call.predictions i j) :
    ∃ sb', sb.writes calls = some sb' ∧ AtLeastAsSafe sb'.inner i j := by
  have hstep : ∀ m, ∀ call ∈ calls, AtLeastAsSafe m i j →
      AtLeastAsSafe
        (RouterCore.nextMap sb.config m call.predictions call.clusterLoad call.now) i j := by
    intro m call hcall hm
    exact hm.nextMap hcfg (hdom call hcall)
  obtain ⟨sb', hsb', -, hsafe⟩ := writes_induction hcfg h hstep
  exact ⟨sb', hsb', hsafe⟩

/-- Two fresh servers of one domain, and one update that finds the second riskier. -/
theorem Scoreboard.atLeastAsSafe_writes_pair :
    ∃ sb', (withServers [(⟨0⟩, ⟨0⟩), (⟨1⟩, ⟨0⟩)] ScoreboardConfig.default fun i => i).writes
        [.updateScores ((Finmap.singleton ⟨0⟩ ⟨0.2, 0, 1, 0⟩).insert ⟨1⟩ ⟨0.9, 0.1, 1, 0.5⟩)
          0.4 9] =
      some sb' ∧ AtLeastAsSafe sb'.inner ⟨0⟩ ⟨1⟩ := by
  have hne : (⟨0⟩ : ServerId) ≠ ⟨1⟩ := by decide
  have hpool : ∀ s : ServerId, s = ⟨0⟩ ∨ s = ⟨1⟩ →
      s ∈ [((⟨0⟩ : ServerId), (⟨0⟩ : DomainId)), (⟨1⟩, ⟨0⟩)].map Prod.fst := by simp
  obtain ⟨d₀, _, hd₀, h₀⟩ := exists_lookup_withServers _ _ (hpool ⟨0⟩ (Or.inl rfl))
  obtain ⟨d₁, _, hd₁, h₁⟩ := exists_lookup_withServers _ _ (hpool ⟨1⟩ (Or.inr rfl))
  refine atLeastAsSafe_writes ScoreboardConfig.default_valid
    ⟨_, _, h₀, h₁, ?_, le_rfl, le_rfl⟩ ?_
  · -- both entries are new ones of the domain they were registered in
    simp_all [ServerScore.new]
  · intro call hcall
    obtain rfl := List.mem_singleton.mp hcall
    refine ⟨⟨0.2, 0, 1, 0⟩, ⟨0.9, 0.1, 1, 0.5⟩, ?_, Finmap.lookup_insert _, ?_, ?_, ?_⟩
    · exact (Finmap.lookup_insert_of_ne _ hne).trans Finmap.lookup_singleton_eq
    all_goals norm_num

end ScalableBooking.RouterCore
