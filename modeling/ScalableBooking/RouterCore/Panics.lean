import ScalableBooking.Lib.MapLoop
import ScalableBooking.RouterCore.DomainCap

/-!
# Where an update could panic

`with_servers` and `update_scores` once more, now loop by loop and with a check in front of every
operation that can go wrong: a clamp whose bounds are in the wrong order, and a division by zero.
The loops run through the hash maps in any order.

Under a valid configuration no check fails, and what comes out is what `nextMap` says
(`Scoreboard.updateScoresChecked_eq`). The bounds of the shift clamp are in order because a weight
can only move by a non-negative amount, and every divisor comes after a comparison that keeps zero
out: the total is positive, and a domain above a cap that is not negative has some weight.
-/

namespace ScalableBooking.RouterCore

open MapLoop

/-! ### Operations that can panic -/

/-- What a task can panic with. -/
inductive Panic where
  /-- `f64::clamp` with a lower bound above the upper one. -/
  | clampBounds
  /-- A division by zero. In `f64` it leaves an infinity or no number at all, and the panic comes
  with the next clamp between such bounds. -/
  | divisionByZero
  /-- `tokio::time::interval` with a period of zero. -/
  | zeroPeriod
deriving DecidableEq, Repr

/-- `f64::clamp` asserts that its bounds are in order. -/
noncomputable def clampChecked (x lo hi : ℝ) : Except Panic ℝ :=
  if lo ≤ hi then .ok (clamp x lo hi) else .error .clampBounds

/-- A division. -/
noncomputable def divChecked (x y : ℝ) : Except Panic ℝ :=
  if y = 0 then .error .divisionByZero else .ok (x / y)

theorem clampChecked_of_le {x lo hi : ℝ} (h : lo ≤ hi) :
    clampChecked x lo hi = .ok (clamp x lo hi) := if_pos h

@[simp] theorem clampChecked_zero_one (x : ℝ) : clampChecked x 0 1 = .ok (clamp x 0 1) :=
  clampChecked_of_le zero_le_one

theorem divChecked_of_ne {x y : ℝ} (h : y ≠ 0) : divChecked x y = .ok (x / y) := if_neg h

/-! ### One server -/

section Server

variable (cfg : ScoreboardConfig)

/-- Adaptive smoothing factor. -/
noncomputable def smoothingFactorChecked (clusterLoad : ℝ) : Except Panic ℝ := do
  let clusterLoadClamped ← clampChecked clusterLoad 0 1
  clampChecked (cfg.smoothingAlpha * (1 - clusterLoadClamped)) cfg.minAlpha cfg.maxAlpha

/-- Uncertainty-adjusted risk of a prediction. -/
noncomputable def effectiveRiskChecked (pred : ServerPrediction) : Except Panic ℝ := do
  let riskMean ← clampChecked pred.riskMean 0 1
  clampChecked (riskMean + cfg.riskAversionLambda * √(max pred.riskVariance 0)) 0 1

/-- Body of the first loop, for a server that has a prediction. -/
noncomputable def refreshScoreChecked (alpha : ℝ) (now : Instant) (old : ServerScore)
    (pred : ServerPrediction) : Except Panic ServerScore := do
  let effectiveRisk ← effectiveRiskChecked cfg pred
  let confidence ← clampChecked pred.confidence 0 1
  let errorRate ← clampChecked pred.errorRate 0 1
  let newHealth := cfg.healthEmaBeta * errorRate + (1 - cfg.healthEmaBeta) * old.healthScore
  let smoothed := alpha * rawWeight effectiveRisk newHealth + (1 - alpha) * old.weight
  let delta := cfg.maxShiftFraction * max old.weight cfg.minWeight
  let capped ← clampChecked smoothed (old.weight - delta) (old.weight + delta)
  return { old with
    risk := effectiveRisk
    confidence := confidence
    weight := capped
    updatedAt := now
    healthScore := newHealth }

/-- Body of the second loop. -/
noncomputable def insertedScoreChecked (now : Instant) (pred : ServerPrediction) :
    Except Panic ServerScore := do
  let effectiveRisk ← effectiveRiskChecked cfg pred
  let confidence ← clampChecked pred.confidence 0 1
  let errorRate ← clampChecked pred.errorRate 0 1
  return {
    risk := effectiveRisk
    confidence := confidence
    weight := rawWeight effectiveRisk errorRate
    updatedAt := now
    domain := ⟨0⟩
    healthScore := errorRate }

end Server

/-! ### The loops -/

/-- The orders in which an update goes through the maps. -/
structure UpdateOrders where
  snapshot : IterationOrder ServerId
  predictions : IterationOrder ServerId
  domains : IterationOrder DomainId
  normalize : IterationOrder ServerId

section Loops

variable (cfg : ScoreboardConfig)

/-- Step 1: the two loops that build the new map. -/
noncomputable def rebuildMapChecked (orders : UpdateOrders) (old : ScoreMap) (preds : Predictions)
    (clusterLoad : ℝ) (now : Instant) : Except Panic ScoreMap := do
  let alpha ← smoothingFactorChecked cfg clusterLoad
  let newMap ← forEntries orders.snapshot old ∅ fun newMap sid oldScore =>
    match preds.lookup sid with
    | some pred => do
      let score ← refreshScoreChecked cfg alpha now oldScore pred
      return newMap.insert sid score
    | none => pure (newMap.insert sid oldScore)
  forEntries orders.predictions preds newMap fun newMap sid pred =>
    if sid ∈ newMap then pure newMap
    else do
      let score ← insertedScoreChecked cfg now pred
      return newMap.insert sid score

/-- Body of the loop over the domains. The totals are those of `m`, the map before the loop. -/
noncomputable def capDomain (m map : ScoreMap) (domain : DomainId) : Except Panic ScoreMap := do
  let fraction ← divChecked (domainWeight m domain) (totalWeight m)
  if cfg.domainCapacityFraction < fraction then
    let scale ← divChecked (cfg.domainCapacityFraction * totalWeight m) (domainWeight m domain)
    return map |> reweigh fun sc => if sc.domain = domain then sc.weight * scale else sc.weight
  else return map

/-- `apply_domain_caps`. -/
noncomputable def applyDomainCapsChecked (order : IterationOrder DomainId) (m : ScoreMap) :
    Except Panic ScoreMap :=
  if totalWeight m ≤ 0 then pure m
  else (order.toList (domains m)).foldlM (capDomain cfg m) m

/-- `normalize_weights`. -/
noncomputable def normalizeWeightsChecked (order : IterationOrder ServerId) (m : ScoreMap) :
    Except Panic ScoreMap :=
  if 0 < totalWeight m then
    forEntries order m m fun map sid score => do
      let weight ← divChecked score.weight (totalWeight m)
      return map.insert sid { score with weight := weight }
  else pure m

/-- The map `update_scores` swaps in. -/
noncomputable def nextMapChecked (orders : UpdateOrders) (old : ScoreMap) (preds : Predictions)
    (clusterLoad : ℝ) (now : Instant) : Except Panic ScoreMap := do
  let newMap ← rebuildMapChecked cfg orders old preds clusterLoad now
  let newMap ← applyDomainCapsChecked cfg orders.domains newMap
  normalizeWeightsChecked orders.normalize (applyFloor cfg newMap)

end Loops

namespace Scoreboard

/-- The weight every server starts with. -/
noncomputable def initialWeightChecked (serverDomains : List (ServerId × DomainId)) :
    Except Panic ℝ :=
  if 0 < (serverDomains.length : ℝ) then divChecked 1 serverDomains.length else pure 0

/-- `with_servers`. -/
noncomputable def withServersChecked (serverDomains : List (ServerId × DomainId))
    (config : ScoreboardConfig) (now : ℕ → Instant) : Except Panic Scoreboard := do
  let initialWeight ← initialWeightChecked serverDomains
  return {
    inner := Finmap.insertAll (fun e => e.1.1)
      (fun e => { ServerScore.new e.1.2 (now e.2) with weight := initialWeight })
      serverDomains.zipIdx ∅
    config := config }

/-- `update_scores`. -/
noncomputable def updateScoresChecked (sb : Scoreboard) (orders : UpdateOrders)
    (newPredictions : Predictions) (clusterLoad : ℝ) (now : Instant) : Except Panic Scoreboard := do
  let newMap ← nextMapChecked sb.config orders sb.inner newPredictions clusterLoad now
  return { sb with inner := newMap }

end Scoreboard

/-! ### No check fails -/

section Valid

variable {cfg : ScoreboardConfig}

theorem smoothingFactorChecked_eq (hcfg : cfg.Valid) (clusterLoad : ℝ) :
    smoothingFactorChecked cfg clusterLoad = .ok (smoothingFactor cfg clusterLoad) := by
  unfold smoothingFactorChecked
  rw [clampChecked_zero_one]
  exact clampChecked_of_le hcfg.minAlpha_le_maxAlpha

theorem effectiveRiskChecked_eq (cfg : ScoreboardConfig) (pred : ServerPrediction) :
    effectiveRiskChecked cfg pred = .ok (effectiveRisk cfg pred) := by
  unfold effectiveRiskChecked
  rw [clampChecked_zero_one]
  exact clampChecked_zero_one _

theorem refreshScoreChecked_eq (hcfg : cfg.Valid) (alpha : ℝ) (now : Instant) (old : ServerScore)
    (pred : ServerPrediction) :
    refreshScoreChecked cfg alpha now old pred = .ok (refreshScore cfg alpha now old pred) := by
  -- a weight moves by a non-negative amount at most
  have hbounds : old.weight - maxDelta cfg old.weight ≤ old.weight + maxDelta cfg old.weight := by
    have := hcfg.maxDelta_nonneg old.weight
    linarith
  unfold refreshScoreChecked
  rw [effectiveRiskChecked_eq, clampChecked_zero_one, clampChecked_zero_one]
  show (clampChecked _ (old.weight - maxDelta cfg old.weight)
    (old.weight + maxDelta cfg old.weight) >>= _) = _
  rw [clampChecked_of_le hbounds]
  rfl

theorem insertedScoreChecked_eq (cfg : ScoreboardConfig) (now : Instant)
    (pred : ServerPrediction) :
    insertedScoreChecked cfg now pred = .ok (insertedScore cfg now pred) := by
  unfold insertedScoreChecked
  rw [effectiveRiskChecked_eq, clampChecked_zero_one, clampChecked_zero_one]
  rfl

theorem rebuildMapChecked_eq (hcfg : cfg.Valid) (orders : UpdateOrders) (old : ScoreMap)
    (preds : Predictions) (clusterLoad : ℝ) (now : Instant) :
    rebuildMapChecked cfg orders old preds clusterLoad now =
      .ok (rebuildMap cfg old preds clusterLoad now) := by
  unfold rebuildMapChecked
  rw [smoothingFactorChecked_eq hcfg]
  show (forEntries orders.snapshot old ∅ _ >>= _) = _
  rw [forEntries_insert (g := fun sid sc =>
    match preds.lookup sid with
    | some pred => refreshScore cfg (smoothingFactor cfg clusterLoad) now sc pred
    | none => sc) (by simp)]
  · show forEntries orders.predictions preds _ _ = _
    rw [forEntries_insert_new (g := fun _ pred => insertedScore cfg now pred)]
    · rfl
    · intro newMap sid pred _
      rw [insertedScoreChecked_eq]
      split <;> rfl
  · intro newMap sid sc _
    cases preds.lookup sid with
    | some pred =>
      show (refreshScoreChecked cfg _ now sc pred >>= _) = _
      rw [refreshScoreChecked_eq hcfg]
      rfl
    | none => rfl

/-! The loop of the caps scales one domain after another. -/

theorem reweigh_reweigh (g g' : ServerScore → ℝ) (m : ScoreMap) :
    reweigh g' (reweigh g m) = reweigh (fun sc => g' { sc with weight := g sc }) m := by
  refine Finmap.ext_lookup fun s => ?_
  rw [lookup_reweigh, lookup_reweigh, lookup_reweigh, Option.map_map]
  rfl

theorem reweigh_congr {g g' : ServerScore → ℝ} {m : ScoreMap}
    (h : ∀ s sc, m.lookup s = some sc → g sc = g' sc) : reweigh g m = reweigh g' m := by
  refine Finmap.ext_lookup fun s => ?_
  rw [lookup_reweigh, lookup_reweigh]
  cases hs : m.lookup s with
  | none => rfl
  | some sc => rw [Option.map_some, Option.map_some, h s sc hs]

/-- One domain is scaled, by one if it is not above the cap. -/
theorem capDomain_eq (hcfg : cfg.Valid) {m : ScoreMap} (hT : 0 < totalWeight m) (map : ScoreMap)
    (domain : DomainId) :
    capDomain cfg m map domain = .ok (map |> reweigh fun sc =>
      if sc.domain = domain then sc.weight * capScale cfg m domain else sc.weight) := by
  unfold capDomain
  rw [divChecked_of_ne hT.ne']
  show (if cfg.domainCapacityFraction < domainWeight m domain / totalWeight m then _ else _) = _
  by_cases hover : cfg.domainCapacityFraction < domainWeight m domain / totalWeight m
  · -- a domain above the cap has some weight
    have hd : domainWeight m domain ≠ 0 := by
      intro h₀
      rw [h₀, zero_div] at hover
      exact hover.not_ge hcfg.domainCapacityFraction_mem.1
    rw [if_pos hover, divChecked_of_ne hd, capScale, if_pos hover]
    rfl
  · rw [if_neg hover, capScale, if_neg hover]
    refine congrArg Except.ok (Finmap.ext_lookup fun s => ?_)
    rw [lookup_reweigh]
    cases map.lookup s with
    | none => rfl
    | some sc => simp

/-- The map after the domains in `done`. -/
noncomputable def cappedIn (cfg : ScoreboardConfig) (m : ScoreMap) (done : List DomainId) :
    ScoreMap :=
  m |> reweigh fun sc =>
    if sc.domain ∈ done then sc.weight * capScale cfg m sc.domain else sc.weight

theorem reweigh_cappedIn {m : ScoreMap} {done : List DomainId} {d : DomainId} (hd : d ∉ done) :
    (cappedIn cfg m done |> reweigh fun sc =>
      if sc.domain = d then sc.weight * capScale cfg m d else sc.weight) =
      cappedIn cfg m (done ++ [d]) := by
  unfold cappedIn
  rw [reweigh_reweigh]
  refine reweigh_congr fun s sc _ => ?_
  dsimp only
  by_cases hsc : sc.domain = d
  · -- the domain is new, so its weights are still those of `m`
    rw [if_pos hsc, hsc, if_neg hd, if_pos (by simp)]
  · rw [if_neg hsc]
    simp [hsc]

theorem applyDomainCapsChecked_eq (hcfg : cfg.Valid) (order : IterationOrder DomainId)
    (m : ScoreMap) : applyDomainCapsChecked cfg order m = .ok (applyDomainCaps cfg m) := by
  unfold applyDomainCapsChecked
  by_cases hT : totalWeight m ≤ 0
  · rw [if_pos hT, applyDomainCaps_of_nonpos hT]
    rfl
  rw [if_neg hT]
  have hstart : m = cappedIn cfg m [] := by
    refine Finmap.ext_lookup fun s => ?_
    unfold cappedIn
    rw [lookup_reweigh]
    cases m.lookup s with
    | none => rfl
    | some sc => simp
  have hloop : ∃ m', (order.toList (domains m)).foldlM (capDomain cfg m) m = .ok m' ∧
      m' = cappedIn cfg m (order.toList (domains m)) := by
    refine foldlM_rule (I := fun done map => map = cappedIn cfg m done)
      (order.nodup (domains m)) hstart ?_
    rintro done d _ - hd rfl
    exact ⟨_, capDomain_eq hcfg (not_le.mp hT) _ d, reweigh_cappedIn hd⟩
  obtain ⟨m', hm', rfl⟩ := hloop
  rw [hm', applyDomainCaps, if_neg hT]
  -- at the end every domain has had its turn
  refine congrArg Except.ok (reweigh_congr fun s sc hsc => ?_)
  rw [if_pos ((order.mem_toList _ _).mpr (mem_domains_of_lookup hsc)), capScale]
  split
  · rfl
  · rw [mul_one]

theorem normalizeWeightsChecked_eq (order : IterationOrder ServerId) (m : ScoreMap) :
    normalizeWeightsChecked order m = .ok (normalizeWeights m) := by
  unfold normalizeWeightsChecked normalizeWeights
  split
  · next hT =>
    rw [forEntries_insert (g := fun _ sc => { sc with weight := sc.weight / totalWeight m })
      (Finset.Subset.refl _)]
    · rfl
    · intro map sid sc _
      rw [divChecked_of_ne hT.ne']
      rfl
  · rfl

theorem nextMapChecked_eq (hcfg : cfg.Valid) (orders : UpdateOrders) (old : ScoreMap)
    (preds : Predictions) (clusterLoad : ℝ) (now : Instant) :
    nextMapChecked cfg orders old preds clusterLoad now =
      .ok (nextMap cfg old preds clusterLoad now) := by
  unfold nextMapChecked
  rw [rebuildMapChecked_eq hcfg]
  show (applyDomainCapsChecked cfg orders.domains _ >>= _) = _
  rw [applyDomainCapsChecked_eq hcfg]
  exact normalizeWeightsChecked_eq _ _

namespace Scoreboard

theorem withServersChecked_eq (serverDomains : List (ServerId × DomainId))
    (config : ScoreboardConfig) (now : ℕ → Instant) :
    withServersChecked serverDomains config now = .ok (withServers serverDomains config now) := by
  have hweight : initialWeightChecked serverDomains = .ok (initialWeight serverDomains) := by
    unfold initialWeightChecked initialWeight
    split
    · next hn => rw [divChecked_of_ne hn.ne']
    · rfl
  unfold withServersChecked
  rw [hweight]
  rfl

/-- **No update panics.** Under a valid configuration, and in whatever orders the maps are gone
through, the update returns, and publishes what `update_scores` without its checks does. -/
theorem updateScoresChecked_eq {sb : Scoreboard} (hcfg : sb.config.Valid) (orders : UpdateOrders)
    (newPredictions : Predictions) (clusterLoad : ℝ) (now : Instant) :
    sb.updateScoresChecked orders newPredictions clusterLoad now =
      .ok { sb with inner := nextMap sb.config sb.inner newPredictions clusterLoad now } := by
  unfold updateScoresChecked
  rw [nextMapChecked_eq hcfg]
  rfl

end Scoreboard

end Valid

end ScalableBooking.RouterCore
