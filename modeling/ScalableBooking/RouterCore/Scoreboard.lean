import Mathlib.Analysis.SpecialFunctions.Exp
import Mathlib.Analysis.SpecialFunctions.Sqrt
import ScalableBooking.Lib.Clamp
import ScalableBooking.RouterCore.Types

/-!
# The scoreboard

The writer side of `router-core/src/scoreboard.rs`. `Scoreboard.updateScores` rebuilds the
whole map in five passes over the snapshot it loaded: raw weights smoothed and clamped
against the old ones (`rebuildMap`), new servers inserted, domain caps
(`applyDomainCaps`), the exploration floor (`applyFloor`) and normalisation
(`normalizeWeights`). `nextMap` is their composition, the map that is swapped in.

The three passes after `rebuildMap` write nothing but weights, so all three are instances
of `reweigh` and everything else about an entry is read off the rebuilt map
(`exists_lookup_nextMap`).

`f64::clamp` asserts that its lower bound is not above the upper one. Two of the clamps of
`update_scores` have bounds that depend on the configuration and on the old weight;
`ClampsValid` is the conjunction of their assertions, and `updateScores` has no result
where one of them fails.

The maps of the source are `HashMap`s and their iteration order is arbitrary. No pass
depends on it: an entry is rewritten from its own old value and from sums over the whole
map that are taken before the pass starts.
-/

namespace ScalableBooking.RouterCore

/-! ### One server -/

section Server

variable (cfg : ScoreboardConfig)

/-- Adaptive smoothing factor: the base factor scaled down by the cluster load. -/
noncomputable def smoothingFactor (clusterLoad : ℝ) : ℝ :=
  -- a busy cluster learns slowly, but never slower than `min_alpha`
  clamp (cfg.smoothingAlpha * (1 - clamp clusterLoad 0 1)) cfg.minAlpha cfg.maxAlpha

/-- Uncertainty-adjusted risk of a prediction. -/
noncomputable def effectiveRisk (pred : ServerPrediction) : ℝ :=
  clamp (clamp pred.riskMean 0 1 + cfg.riskAversionLambda * √(max pred.riskVariance 0)) 0 1

/-- `exp(-effective_risk) * exp(-health_score)`. -/
noncomputable def rawWeight (risk health : ℝ) : ℝ :=
  Real.exp (-risk) * Real.exp (-health)

/-- Health memory: one step of the error-rate EMA. -/
noncomputable def nextHealth (health : ℝ) (pred : ServerPrediction) : ℝ :=
  cfg.healthEmaBeta * clamp pred.errorRate 0 1 + (1 - cfg.healthEmaBeta) * health

/-- How far one update may move a weight. -/
noncomputable def maxDelta (weight : ℝ) : ℝ :=
  cfg.maxShiftFraction * max weight cfg.minWeight

/-- Exponential smoothing followed by the max-shift clamp. -/
noncomputable def shiftWeight (alpha raw weight : ℝ) : ℝ :=
  clamp (alpha * raw + (1 - alpha) * weight)
    -- around the old weight, which for a published map is on the normalised scale
    (weight - maxDelta cfg weight) (weight + maxDelta cfg weight)

/-- Body of the first loop, for a server that has a prediction. -/
noncomputable def refreshScore (alpha : ℝ) (now : Instant) (old : ServerScore)
    (pred : ServerPrediction) : ServerScore :=
  { old with
    risk := effectiveRisk cfg pred
    confidence := clamp pred.confidence 0 1
    weight := shiftWeight cfg alpha
      (rawWeight (effectiveRisk cfg pred) (nextHealth cfg old.healthScore pred)) old.weight
    updatedAt := now
    healthScore := nextHealth cfg old.healthScore pred }

/-- Body of the second loop: a server that appears in the predictions only. Its domain is
unknown, so it lands in domain `0`. -/
noncomputable def insertedScore (now : Instant) (pred : ServerPrediction) : ServerScore where
  risk := effectiveRisk cfg pred
  confidence := clamp pred.confidence 0 1
  weight := rawWeight (effectiveRisk cfg pred) (clamp pred.errorRate 0 1)
  updatedAt := now
  domain := ⟨0⟩
  healthScore := clamp pred.errorRate 0 1

end Server

/-! ### The passes over the map -/

/-- The weight of a server, `0` when it is not on the board. -/
noncomputable def weightOf (m : ScoreMap) (s : ServerId) : ℝ := m.readD ServerScore.weight s

/-- Sum of all weights. -/
noncomputable def totalWeight (m : ScoreMap) : ℝ := m.total ServerScore.weight

/-- Sum of the weights of one failure domain. -/
noncomputable def domainWeight (m : ScoreMap) (d : DomainId) : ℝ :=
  m.total fun sc => if sc.domain = d then sc.weight else 0

/-- Rewrite the weight of every entry by `g`. -/
def reweigh (g : ServerScore → ℝ) (m : ScoreMap) : ScoreMap :=
  m.mapWithKey fun _ sc => { sc with weight := g sc }

section Passes

variable (cfg : ScoreboardConfig)

/-- Step 1: refresh the predicted servers, keep the others, insert the new ones. -/
noncomputable def rebuildMap (old : ScoreMap) (preds : Predictions) (clusterLoad : ℝ)
    (now : Instant) : ScoreMap :=
  (old.mapWithKey fun sid sc =>
    match preds.lookup sid with
    | some pred => refreshScore cfg (smoothingFactor cfg clusterLoad) now sc pred
    -- an unpredicted server keeps its entry, timestamp included
    | none => sc) ∪
  preds.mapWithKey fun _ pred => insertedScore cfg now pred

/-- `apply_domain_caps`: scale the members of every domain above the cap down to it. -/
noncomputable def applyDomainCaps (m : ScoreMap) : ScoreMap :=
  if totalWeight m ≤ 0 then m
  else
    m |> reweigh fun sc =>
      -- both sums are the ones before the pass: no domain sees another one scaled
      if cfg.domainCapacityFraction < domainWeight m sc.domain / totalWeight m then
        sc.weight * (cfg.domainCapacityFraction * totalWeight m / domainWeight m sc.domain)
      else sc.weight

/-- The exploration floor. -/
noncomputable def applyFloor (m : ScoreMap) : ScoreMap :=
  m |> reweigh fun sc => if sc.weight < cfg.minWeight then cfg.minWeight else sc.weight

/-- `normalize_weights`: divide by the total when it is positive. -/
noncomputable def normalizeWeights (m : ScoreMap) : ScoreMap :=
  if 0 < totalWeight m then m |> reweigh fun sc => sc.weight / totalWeight m else m

/-- The map `update_scores` swaps in. -/
noncomputable def nextMap (old : ScoreMap) (preds : Predictions) (clusterLoad : ℝ)
    (now : Instant) : ScoreMap :=
  normalizeWeights (applyFloor cfg (applyDomainCaps cfg (rebuildMap cfg old preds clusterLoad now)))

/-- The assertions of the clamps whose bounds are computed. -/
def ClampsValid (old : ScoreMap) (preds : Predictions) : Prop :=
  cfg.minAlpha ≤ cfg.maxAlpha ∧
    ∀ sid sc, old.lookup sid = some sc → sid ∈ preds →
      sc.weight - maxDelta cfg sc.weight ≤ sc.weight + maxDelta cfg sc.weight

end Passes

/-! ### The scoreboard -/

/-- The snapshot together with the tuning knobs. -/
structure Scoreboard (F : Type := ℝ) where
  inner : ScoreMap F
  config : ScoreboardConfig F

namespace Scoreboard

/-- `Scoreboard::new`: no servers. -/
def new (config : ScoreboardConfig) : Scoreboard := ⟨∅, config⟩

/-- The weight every server starts with. -/
noncomputable def initialWeight (serverDomains : List (ServerId × DomainId)) : ℝ :=
  if 0 < (serverDomains.length : ℝ) then 1 / serverDomains.length else 0

/-- `Scoreboard::with_servers`. Each score reads the clock when it is created, so the
instants `now i` of the entries may differ. -/
noncomputable def withServers (serverDomains : List (ServerId × DomainId))
    (config : ScoreboardConfig) (now : ℕ → Instant) : Scoreboard where
  inner := Finmap.insertAll (fun e => e.1.1)
    (fun e => { ServerScore.new e.1.2 (now e.2) with weight := initialWeight serverDomains })
    -- collecting into a map: of two entries with one id the later one stays
    serverDomains.zipIdx ∅
  config := config

/-- `staleness_ttl`. -/
def stalenessTtl {F : Type} (sb : Scoreboard F) : Duration := sb.config.stalenessTtl

open Classical in
/-- `update_scores`. There is no result when a clamp panics. -/
noncomputable def updateScores (sb : Scoreboard) (newPredictions : Predictions)
    (clusterLoad : ℝ) (now : Instant) : Option Scoreboard :=
  if ClampsValid sb.config sb.inner newPredictions then
    some { sb with inner := nextMap sb.config sb.inner newPredictions clusterLoad now }
  else none

/-- `update_single_server`: an update with one legacy prediction at load zero. -/
noncomputable def updateSingleServer (sb : Scoreboard) (server : ServerId)
    (risk confidence : ℝ) (now : Instant) : Option Scoreboard :=
  sb.updateScores
    (Finmap.singleton server (ServerPrediction.fromRiskConfidence risk confidence)) 0 now

end Scoreboard

/-- A call of one of the two writers, with the reading of the clock it makes. -/
inductive WriterCall where
  | updateScores (newPredictions : Predictions) (clusterLoad : ℝ) (now : Instant)
  | updateSingleServer (server : ServerId) (risk confidence : ℝ) (now : Instant)

namespace WriterCall

/-- The predictions a call carries. -/
def predictions : WriterCall → Predictions
  | updateScores newPredictions _ _ => newPredictions
  | updateSingleServer server risk confidence _ =>
    Finmap.singleton server (ServerPrediction.fromRiskConfidence risk confidence)

/-- The cluster load a call carries. -/
noncomputable def clusterLoad : WriterCall → ℝ
  | updateScores _ clusterLoad _ => clusterLoad
  | updateSingleServer _ _ _ _ => 0

/-- The instant a call reads off the clock. -/
def now : WriterCall → Instant
  | updateScores _ _ now => now
  | updateSingleServer _ _ _ now => now

end WriterCall

namespace Scoreboard

/-- One writer call. -/
noncomputable def write (sb : Scoreboard) : WriterCall → Option Scoreboard
  | .updateScores newPredictions clusterLoad now =>
    sb.updateScores newPredictions clusterLoad now
  | .updateSingleServer server risk confidence now =>
    sb.updateSingleServer server risk confidence now

/-- A sequence of writer calls. -/
noncomputable def writes (sb : Scoreboard) (calls : List WriterCall) : Option Scoreboard :=
  calls.foldlM write sb

end Scoreboard

end ScalableBooking.RouterCore
