import Mathlib.Data.Real.Basic
import Mathlib.Tactic.NormNum
import ScalableBooking.Lib.FiniteMap

/-!
# Core types of the predictive load balancer

The data of `router-core/src/types.rs`. Identifiers are the `u64` newtypes of the source,
read as natural numbers: nothing computes with them. The type `F` of the weights is a
parameter of what a routing decision reads. It is `ℝ` where it is left out, so a statement
about a scoreboard update is one about exact arithmetic, and the decision itself is
available over `f64` as well. An `Instant` and a `Duration` count nanoseconds, and
`durationSince` saturates at zero as `Instant::duration_since` does.
-/

namespace ScalableBooking.RouterCore

/-- Identifier of a backend server. -/
structure ServerId where
  id : ℕ
deriving DecidableEq, Repr

/-- Identifier of a failure domain: servers that share a rack, a switch, a database. -/
structure DomainId where
  id : ℕ
deriving DecidableEq, Repr

/-- A point of the monotonic clock, in nanoseconds. -/
abbrev Instant := ℕ

/-- A span of time, in nanoseconds. -/
abbrev Duration := ℕ

/-- `later.duration_since(earlier)`, zero when `earlier` is in fact the later one. -/
def durationSince (later earlier : Instant) : Duration := later - earlier

/-- The score the scoreboard keeps for one backend server. -/
structure ServerScore (F : Type := ℝ) where
  /-- Probability of violating the latency SLO, in `[0, 1]`. -/
  risk : F
  /-- Model confidence in that prediction, in `[0, 1]`. -/
  confidence : F
  /-- The routing weight: higher means more traffic. -/
  weight : F
  /-- When the score was last refreshed. -/
  updatedAt : Instant
  domain : DomainId
  /-- EMA of the observed error rate, in `[0, 1]`. -/
  healthScore : F

/-- `ServerScore::new`: neutral risk, full confidence, unit weight. -/
def ServerScore.new (domain : DomainId) (now : Instant) : ServerScore where
  risk := 0
  confidence := 1
  weight := 1
  updatedAt := now
  domain := domain
  healthScore := 0

/-- One prediction of the inference engine for one server. -/
structure ServerPrediction where
  riskMean : ℝ
  riskVariance : ℝ
  confidence : ℝ
  errorRate : ℝ

/-- The legacy `(risk, confidence)` tuple: no variance, no errors. -/
def ServerPrediction.fromRiskConfidence (risk confidence : ℝ) : ServerPrediction where
  riskMean := risk
  riskVariance := 0
  confidence := confidence
  errorRate := 0

/-- The health signals the router collects locally, per server. -/
structure FastHealthSignals where
  backlog : ℕ
  error5xxCount : ℕ
  inFlight : ℕ
deriving DecidableEq, Repr

/-- Thresholds of the fast safety override. -/
structure SafetyThresholds where
  maxBacklog : ℕ
  max5xxCount : ℕ
  maxInFlight : ℕ
deriving DecidableEq, Repr

/-- `SafetyThresholds::default`. -/
def SafetyThresholds.default : SafetyThresholds where
  maxBacklog := 100
  max5xxCount := 10
  maxInFlight := 500

/-- Tuning knobs of the scoreboard update. -/
structure ScoreboardConfig (F : Type := ℝ) where
  smoothingAlpha : F
  maxShiftFraction : F
  domainCapacityFraction : F
  minWeight : F
  stalenessTtl : Duration
  minAlpha : F
  maxAlpha : F
  riskAversionLambda : F
  healthEmaBeta : F

/-- `ScoreboardConfig::default`. -/
noncomputable def ScoreboardConfig.default : ScoreboardConfig where
  smoothingAlpha := 0.3
  maxShiftFraction := 0.10
  domainCapacityFraction := 0.40
  minWeight := 0.03
  stalenessTtl := 5 * 10 ^ 9
  minAlpha := 0.05
  maxAlpha := 0.6
  riskAversionLambda := 0.0
  healthEmaBeta := 0.1

/-! The default fractions as quotients, the form the arithmetic of the passes uses. -/

namespace ScoreboardConfig

@[simp] theorem default_smoothingAlpha : default.smoothingAlpha = 3 / 10 := by
  norm_num [default]

@[simp] theorem default_maxShiftFraction : default.maxShiftFraction = 1 / 10 := by
  norm_num [default]

@[simp] theorem default_domainCapacityFraction : default.domainCapacityFraction = 2 / 5 := by
  norm_num [default]

@[simp] theorem default_minWeight : default.minWeight = 3 / 100 := by
  norm_num [default]

@[simp] theorem default_minAlpha : default.minAlpha = 1 / 20 := by
  norm_num [default]

@[simp] theorem default_maxAlpha : default.maxAlpha = 3 / 5 := by
  norm_num [default]

@[simp] theorem default_riskAversionLambda : default.riskAversionLambda = 0 := by
  norm_num [default]

@[simp] theorem default_healthEmaBeta : default.healthEmaBeta = 1 / 10 := by
  norm_num [default]

end ScoreboardConfig

/-- A configuration whose fractions are fractions and whose smoothing range is not
empty. `update_scores` never checks this: it is what its callers have to provide. -/
structure ScoreboardConfig.Valid (cfg : ScoreboardConfig) : Prop where
  smoothingAlpha_mem : cfg.smoothingAlpha ∈ Set.Icc (0 : ℝ) 1
  maxShiftFraction_mem : cfg.maxShiftFraction ∈ Set.Icc (0 : ℝ) 1
  domainCapacityFraction_mem : cfg.domainCapacityFraction ∈ Set.Icc (0 : ℝ) 1
  minWeight_mem : cfg.minWeight ∈ Set.Icc (0 : ℝ) 1
  minAlpha_mem : cfg.minAlpha ∈ Set.Icc (0 : ℝ) 1
  maxAlpha_mem : cfg.maxAlpha ∈ Set.Icc (0 : ℝ) 1
  healthEmaBeta_mem : cfg.healthEmaBeta ∈ Set.Icc (0 : ℝ) 1
  minAlpha_le_maxAlpha : cfg.minAlpha ≤ cfg.maxAlpha
  riskAversionLambda_nonneg : 0 ≤ cfg.riskAversionLambda

/-- Every default passes its own range. -/
theorem ScoreboardConfig.default_valid : ScoreboardConfig.default.Valid := by
  constructor <;> norm_num

/-- The snapshot behind the scoreboard's `ArcSwap`. -/
abbrev ScoreMap (F : Type := ℝ) := Finmap fun _ : ServerId => ServerScore F

/-- What the inference engine hands to `update_scores`. -/
abbrev Predictions := Finmap fun _ : ServerId => ServerPrediction

/-- What the router is given on each decision. -/
abbrev SignalMap := Finmap fun _ : ServerId => FastHealthSignals

end ScalableBooking.RouterCore
