import Mathlib.Analysis.Complex.ExponentialBounds
import ScalableBooking.RouterCore.Moves
import ScalableBooking.RouterCore.SaferServer

/-!
# The load and the size of an update

A higher cluster load makes the smoothing factor smaller (`smoothingFactor_anti`), so it makes
the move of every server smaller as far as smoothing and the shift clamp go
(`abs_shiftWeight_sub_le`). What is published is a share of a sum over all servers, and there
the load can work the other way. When the clamp holds all servers to the same move at the low
load, it cancels out and nothing changes. A domain above the cap is cut down at any load, and
the larger the move the closer it may come to the old shares again. Weights that do not sum to
one are moved by normalisation alone.

Apart from these three the published weights follow the smoothing factor
(`Scoreboard.load_conservative`): with weights `w` that sum to one and raw weights `raw` with
sum `R`, the update at factor `a` moves a server by `a * (raw - w * R) / (1 + a * (R - 1))`.
The floor needs no exception: a weight that smoothing leaves below it has been held there by
the clamp.
-/

namespace ScalableBooking.RouterCore

variable {cfg : ScoreboardConfig} {old : ScoreMap} {preds : Predictions} {l l₁ l₂ : ℝ}
  {s : ServerId}

/-! ### Smoothing and the shift clamp -/

/-- A busier cluster learns more slowly. -/
theorem smoothingFactor_anti (hcfg : cfg.Valid) (h : l₁ ≤ l₂) :
    smoothingFactor cfg l₂ ≤ smoothingFactor cfg l₁ := by
  have hload : clamp l₁ 0 1 ≤ clamp l₂ 0 1 := clamp_le_clamp h le_rfl le_rfl
  have hα := hcfg.smoothingAlpha_mem.1
  refine clamp_le_clamp ?_ le_rfl le_rfl
  gcongr

/-- A clamp around `w` cuts the distance from `w`. -/
theorem abs_clamp_sub {x w δ : ℝ} (hδ : 0 ≤ δ) :
    |clamp x (w - δ) (w + δ) - w| = min |x - w| δ := by
  rcases lt_or_ge x (w - δ) with hlo | hlo
  · rw [clamp_of_le_lo hlo.le (by linarith), abs_of_nonpos (by linarith),
      abs_of_nonpos (by linarith), min_eq_right (by linarith)]
    ring
  · rcases lt_or_ge (w + δ) x with hhi | hhi
    · rw [clamp_of_hi_le hhi.le, abs_of_nonneg (by linarith), abs_of_nonneg (by linarith),
        min_eq_right (by linarith)]
      ring
    · rw [clamp_of_mem hlo hhi, min_eq_left (abs_le.mpr ⟨by linarith, by linarith⟩)]

theorem abs_shiftWeight_sub (hcfg : cfg.Valid) {a : ℝ} (ha : 0 ≤ a) (raw w : ℝ) :
    |shiftWeight cfg a raw w - w| = min (a * |raw - w|) (maxDelta cfg w) := by
  rw [shiftWeight, abs_clamp_sub (hcfg.maxDelta_nonneg w),
    show a * raw + (1 - a) * w - w = a * (raw - w) by ring, abs_mul, abs_of_nonneg ha]

/-- The smaller the factor, the smaller the move. -/
theorem abs_shiftWeight_sub_le (hcfg : cfg.Valid) {a b : ℝ} (ha : 0 ≤ a) (hab : a ≤ b)
    (raw w : ℝ) : |shiftWeight cfg a raw w - w| ≤ |shiftWeight cfg b raw w - w| := by
  rw [abs_shiftWeight_sub hcfg ha, abs_shiftWeight_sub hcfg (ha.trans hab)]
  exact min_le_min_right _ (mul_le_mul_of_nonneg_right hab (abs_nonneg _))

/-- A move within the clamp is the one that smoothing makes. -/
theorem shiftWeight_eq {a raw w : ℝ} (ha : 0 ≤ a) (h : a * |raw - w| ≤ maxDelta cfg w) :
    shiftWeight cfg a raw w = w + a * (raw - w) := by
  have habs : |a * (raw - w)| ≤ maxDelta cfg w := by rwa [abs_mul, abs_of_nonneg ha]
  obtain ⟨hlo, hhi⟩ := abs_le.mp habs
  rw [shiftWeight, show a * raw + (1 - a) * w = w + a * (raw - w) by ring]
  exact clamp_of_mem (by linarith) (by linarith)

/-! ### Shares -/

/-- With weights that sum to one, the divisor at the factor `a` is `1 + a * (R - 1)`. -/
theorem share_sub {w raw R a : ℝ} (hZ : 0 < 1 + a * (R - 1)) :
    (w + a * (raw - w)) / (1 + a * (R - 1)) - w = a / (1 + a * (R - 1)) * (raw - w * R) := by
  field_simp
  ring

/-- And the share moves farther at the larger factor. -/
theorem abs_share_sub_le {w raw R a b : ℝ} (ha : 0 ≤ a) (hab : a ≤ b) (hb : b < 1)
    (hR : 0 ≤ R) :
    |(w + a * (raw - w)) / (1 + a * (R - 1)) - w| ≤
      |(w + b * (raw - w)) / (1 + b * (R - 1)) - w| := by
  have hZ {c : ℝ} (h₀ : 0 ≤ c) (h₁ : c < 1) : 0 < 1 + c * (R - 1) := by nlinarith
  have hZa := hZ ha (hab.trans_lt hb)
  have hZb := hZ (ha.trans hab) hb
  have hfactor : a / (1 + a * (R - 1)) ≤ b / (1 + b * (R - 1)) := by
    rw [div_le_div_iff₀ hZa hZb]
    linarith
  rw [share_sub hZa, share_sub hZb, abs_mul, abs_mul, abs_of_nonneg (div_nonneg ha hZa.le),
    abs_of_nonneg (div_nonneg (ha.trans hab) hZb.le)]
  exact mul_le_mul_of_nonneg_right hfactor (abs_nonneg _)

/-! ### One update of a whole board -/

section Update

/-- The shift clamp cuts the move of no server. -/
def ShiftFree (old : ScoreMap) (preds : Predictions) (load : ℝ) : Prop :=
  ∀ s ∈ old.keys,
    smoothingFactor ScoreboardConfig.default load * |rawOf old preds s - weightOf old s| ≤
      maxDelta ScoreboardConfig.default (weightOf old s)

/-- The caps change nobody's share: no domain is above the cap, or all servers are in one and
none falls below the floor with it. -/
def CapsAlike (old : ScoreMap) (preds : Predictions) (load : ℝ) : Prop :=
  CapFree old preds load ∨ (InOneDomain old ⟨0⟩ ∧ ∀ s ∈ old.keys,
    ScoreboardConfig.default.minWeight ≤ ScoreboardConfig.default.domainCapacityFraction *
      (entering ScoreboardConfig.default old preds load).weight s)

/-- The range of the default smoothing factor. -/
theorem smoothingFactor_default_mem (load : ℝ) :
    smoothingFactor ScoreboardConfig.default load ∈ Set.Icc (1 / 20 : ℝ) (3 / 10) := by
  have hload := (clamp_zero_one_mem load).1
  simp only [smoothingFactor, ScoreboardConfig.default_smoothingAlpha,
    ScoreboardConfig.default_minAlpha, ScoreboardConfig.default_maxAlpha]
  refine ⟨le_clamp _ (by norm_num), (clamp_le_max _ _ _).trans (max_le ?_ (by norm_num))⟩
  linarith

theorem ShiftFree.anti (h : ShiftFree old preds l₁) (hload : l₁ ≤ l₂) :
    ShiftFree old preds l₂ := by
  intro s hs
  have hα := smoothingFactor_anti ScoreboardConfig.default_valid hload
  exact (mul_le_mul_of_nonneg_right hα (abs_nonneg _)).trans (h s hs)

/-- A server of the board that is predicted enters with its move. -/
theorem entering_weight (hcover : preds.keys = old.keys) (hs : s ∈ old.keys) :
    (entering ScoreboardConfig.default old preds l).weight s =
      shiftWeight ScoreboardConfig.default (smoothingFactor ScoreboardConfig.default l)
        (rawOf old preds s) (weightOf old s) := by
  rcases @entering_weight_cases old preds l s hs with ⟨-, hw⟩ | ⟨hp, -⟩
  · exact hw
  · exact absurd (hcover.symm ▸ hs) hp

/-- With both probabilities in range no raw weight is below `exp (-2)`. -/
theorem rawOf_gt (hrange : ScoresInRange old) (hcover : preds.keys = old.keys)
    (hs : s ∈ old.keys) : 9 / 100 < rawOf old preds s := by
  have hs' : s ∈ preds.keys := hcover.symm ▸ hs
  obtain ⟨sc, hsc⟩ := Finmap.exists_lookup_of_mem_keys hs
  have hrisk := (riskOf_mem hs').2
  have herror := (errorOf_mem hs').2
  have hhealth : healthOf old s ≤ 1 := by
    rw [healthOf_of_lookup hsc]
    exact (hrange s sc hsc).healthScore_mem.2
  have hafter : healthAfter old preds s ≤ 1 := by
    rw [healthAfter]
    linarith
  calc (9 / 100 : ℝ) < Real.exp (-1) * Real.exp (-1) := by
        have := Real.exp_neg_one_gt_d9
        nlinarith
    _ ≤ rawOf old preds s := by
        unfold rawOf rawWeight
        gcongr

/-- A weight that smoothing takes below the floor has been cut. -/
theorem minWeight_le_smoothed {a raw w : ℝ} (ha : a ∈ Set.Icc (1 / 20 : ℝ) (3 / 10))
    (hraw : 9 / 100 < raw) (h : a * |raw - w| ≤ maxDelta ScoreboardConfig.default w) :
    3 / 100 ≤ w + a * (raw - w) := by
  obtain ⟨ha₀, ha₁⟩ := ha
  rcases le_or_gt (3 / 100) w with hw | hw
  · nlinarith
  · -- from below the floor, `raw` is too far away for a move within the bound
    rw [maxDelta, ScoreboardConfig.default_minWeight, ScoreboardConfig.default_maxShiftFraction,
      max_eq_right hw.le, abs_of_nonneg (by linarith)] at h
    nlinarith

theorem entering_servers (hcover : preds.keys = old.keys) :
    (entering ScoreboardConfig.default old preds l).servers = old.keys := by
  rw [entering, hcover, Finset.union_self]

/-- In one domain the cap cancels out. -/
theorem weightOf_nextMap_inOneDomain (hone : InOneDomain old ⟨0⟩)
    (hcover : preds.keys = old.keys)
    (hfloor : ∀ t ∈ old.keys,
      ScoreboardConfig.default.minWeight ≤ ScoreboardConfig.default.domainCapacityFraction *
        (entering ScoreboardConfig.default old preds l).weight t)
    (now : Instant) (hs : s ∈ old.keys) :
    weightOf (nextMap ScoreboardConfig.default old preds l now) s =
      (entering ScoreboardConfig.default old preds l).weight s /
        (entering ScoreboardConfig.default old preds l).total := by
  rw [← weighing_rebuildMap _ _ _ _ now] at hfloor ⊢
  have hkeys : old.keys ∪ preds.keys = old.keys := by rw [hcover, Finset.union_self]
  rw [weightOf_nextMap_oneDomain hone (by norm_num) (by norm_num) ?_ (hkeys.symm ▸ hfloor)
    (hkeys.symm ▸ hs)]
  · rfl
  · -- the floor keeps every summand positive
    rw [totalWeight_eq_sum, keys_rebuildMap, hkeys]
    refine Finset.sum_pos (fun t ht => ?_) ⟨s, hs⟩
    have hpos := hfloor t ht
    rw [ScoreboardConfig.default_minWeight, ScoreboardConfig.default_domainCapacityFraction]
      at hpos
    show 0 < (weighing _).weight t
    linarith

/-- If the clamp cuts nobody either, this is its share of the smoothed weights. -/
theorem weightOf_nextMap_shiftFree (hold : WeightsNonneg old) (hrange : ScoresInRange old)
    (hsum : totalWeight old = 1) (hcover : preds.keys = old.keys) (hshift : ShiftFree old preds l)
    (hcap : CapsAlike old preds l) (now : Instant) (hs : s ∈ old.keys) :
    weightOf (nextMap ScoreboardConfig.default old preds l now) s =
      (weightOf old s + smoothingFactor ScoreboardConfig.default l *
          (rawOf old preds s - weightOf old s)) /
        (1 + smoothingFactor ScoreboardConfig.default l *
          (∑ t ∈ old.keys, rawOf old preds t - 1)) := by
  have hα := smoothingFactor_default_mem l
  have hservers := entering_servers (l := l) hcover
  have hweight (t : ServerId) (ht : t ∈ old.keys) :
      (entering ScoreboardConfig.default old preds l).weight t =
        weightOf old t + smoothingFactor ScoreboardConfig.default l *
          (rawOf old preds t - weightOf old t) := by
    rw [entering_weight hcover ht, shiftWeight_eq (by linarith [hα.1]) (hshift t ht)]
  -- the old weights sum to one, so the total is linear in the factor
  have htotal : (entering ScoreboardConfig.default old preds l).total =
      1 + smoothingFactor ScoreboardConfig.default l *
        (∑ t ∈ old.keys, rawOf old preds t - 1) := by
    rw [totalWeight_eq_sum] at hsum
    rw [Weighing.total, hservers, Finset.sum_congr rfl hweight, Finset.sum_add_distrib,
      ← Finset.mul_sum, Finset.sum_sub_distrib, hsum]
  have hfloor (t : ServerId)
      (ht : t ∈ (entering ScoreboardConfig.default old preds l).servers) :
      3 / 100 ≤ (entering ScoreboardConfig.default old preds l).weight t := by
    rw [hservers] at ht
    rw [hweight t ht]
    exact minWeight_le_smoothed hα (rawOf_gt hrange hcover ht) (hshift t ht)
  rw [← hweight s hs, ← htotal]
  rcases hcap with hfree | ⟨hone, hlow⟩
  · exact weightOf_nextMap_capFree hold hfree hfloor now (hservers.symm ▸ hs)
  · exact weightOf_nextMap_inOneDomain hone hcover hlow now hs

theorem Scoreboard.Reachable.scoresInRange {sb : Scoreboard} (hcfg : cfg.Valid)
    (h : sb.Reachable cfg) : ScoresInRange sb.inner :=
  (h.induction hcfg scoresInRange_withServers fun _ _ _ _ h => h.nextMap hcfg).2

end Update

/-! ### Three servers -/

/-- The servers of the boards below. -/
def trio : List ServerId := [⟨0⟩, ⟨1⟩, ⟨2⟩]

/-- Predictions for the three servers that differ in the risk alone. -/
noncomputable def riskTrio (risk : ServerId → ℝ) : Predictions :=
  Finmap.insertAll id (fun s => ⟨risk s, 0, 1, 0⟩) trio ∅

/-- A board with the three servers on it, as a constructor leaves it: nothing has been observed
and all have the weight `w`. -/
structure IsTrio (old : ScoreMap) (w : ℝ) (dom : ServerId → DomainId) : Prop where
  keys_eq : old.keys = trio.toFinset
  lookup_eq : ∀ s ∈ trio, ∃ created,
    old.lookup s = some { ServerScore.new (dom s) created with weight := w }

theorem keys_riskTrio (risk : ServerId → ℝ) : (riskTrio risk).keys = trio.toFinset := by
  ext s
  rw [Finmap.mem_keys, riskTrio, Finmap.mem_insertAll, List.map_id, List.mem_toFinset]
  simp only [Finmap.notMem_empty, or_false]

theorem lookup_riskTrio (risk : ServerId → ℝ) (hs : s ∈ trio) :
    (riskTrio risk).lookup s = some ⟨risk s, 0, 1, 0⟩ := by
  have hmem : s ∈ riskTrio risk := by
    rw [← Finmap.mem_keys, keys_riskTrio, List.mem_toFinset]
    exact hs
  obtain ⟨pred, hpred⟩ := Finmap.mem_iff.mp hmem
  obtain ⟨t, -, rfl, rfl⟩ | h₀ := Finmap.exists_of_lookup_insertAll hpred
  · exact hpred
  · rw [Finmap.lookup_empty] at h₀
    cases h₀

theorem isTrio_withServers (serverDomains : List (ServerId × DomainId))
    (dom : ServerId → DomainId) (hids : (serverDomains.map Prod.fst).toFinset = trio.toFinset)
    (hdom : ∀ e ∈ serverDomains, e.2 = dom e.1) (created : ℕ → Instant) :
    IsTrio (Scoreboard.withServers serverDomains ScoreboardConfig.default created).inner
      (Scoreboard.initialWeight serverDomains) dom where
  keys_eq := by
    ext s
    rw [Finmap.mem_keys, mem_withServers, ← hids, List.mem_toFinset]
  lookup_eq := by
    intro s hs
    rw [← List.mem_toFinset, ← hids, List.mem_toFinset] at hs
    obtain ⟨d, i, hd, hlookup⟩ := exists_lookup_withServers ScoreboardConfig.default created hs
    obtain rfl : d = dom s := hdom _ hd
    exact ⟨_, hlookup⟩

namespace IsTrio

variable {w : ℝ} {dom : ServerId → DomainId} {risk : ServerId → ℝ}

theorem weightOf_eq (h : IsTrio old w dom) (hs : s ∈ trio) : weightOf old s = w := by
  obtain ⟨_, hlookup⟩ := h.lookup_eq s hs
  rw [weightOf_of_lookup hlookup]

/-- Only the risk makes a difference to the raw weights. -/
theorem rawOf_eq (h : IsTrio old w dom) (hrisk : risk s ∈ Set.Icc (0 : ℝ) 1) (hs : s ∈ trio) :
    rawOf old (riskTrio risk) s = Real.exp (-risk s) := by
  obtain ⟨_, hlookup⟩ := h.lookup_eq s hs
  have hc₀ : clamp (0 : ℝ) 0 1 = 0 := clamp_of_mem le_rfl zero_le_one
  have hc : clamp (risk s) 0 1 = risk s := clamp_of_mem hrisk.1 hrisk.2
  rw [rawOf, riskOf, healthAfter, errorOf, Finmap.readD_of_lookup (lookup_riskTrio risk hs),
    Finmap.readD_of_lookup (lookup_riskTrio risk hs), healthOf_of_lookup hlookup]
  simp [effectiveRisk, rawWeight, ServerScore.new, hc, hc₀]

theorem weightsNonneg (h : IsTrio old w dom) (hw : 0 ≤ w) : WeightsNonneg old := by
  intro s sc hsc
  have hs : s ∈ trio := by
    rw [← List.mem_toFinset, ← h.keys_eq, Finmap.mem_keys]
    exact Finmap.mem_of_lookup_eq_some hsc
  rw [← weightOf_of_lookup hsc, h.weightOf_eq hs]
  exact hw

theorem cover (h : IsTrio old w dom) (risk : ServerId → ℝ) :
    (riskTrio risk).keys = old.keys := by
  rw [keys_riskTrio, h.keys_eq]

theorem domain_eq (h : IsTrio old w dom) (preds : Predictions) (hs : s ∈ trio) :
    (entering ScoreboardConfig.default old preds l).domain s = dom s := by
  obtain ⟨_, hlookup⟩ := h.lookup_eq s hs
  show (old.lookup s).elim _ _ = _
  rw [hlookup]
  rfl

/-- What a server of the three enters with. -/
theorem weight_eq (h : IsTrio old w dom) (hrisk : risk s ∈ Set.Icc (0 : ℝ) 1) (hs : s ∈ trio) :
    (entering ScoreboardConfig.default old (riskTrio risk) l).weight s =
      shiftWeight ScoreboardConfig.default (smoothingFactor ScoreboardConfig.default l)
        (Real.exp (-risk s)) w := by
  have hkeys : s ∈ old.keys := by
    rw [h.keys_eq, List.mem_toFinset]
    exact hs
  rw [entering_weight (h.cover risk) hkeys, h.rawOf_eq hrisk hs, h.weightOf_eq hs]

/-- From above the floor, the clamp keeps every weight within a tenth of the old one. -/
theorem weight_mem (h : IsTrio old w dom) (hw : 3 / 100 ≤ w)
    (hrisk : risk s ∈ Set.Icc (0 : ℝ) 1) (hs : s ∈ trio) :
    (entering ScoreboardConfig.default old (riskTrio risk) l).weight s ∈
      Set.Icc (9 / 10 * w) (11 / 10 * w) := by
  have hδ : maxDelta ScoreboardConfig.default w = 1 / 10 * w := by
    rw [maxDelta, ScoreboardConfig.default_minWeight, ScoreboardConfig.default_maxShiftFraction,
      max_eq_left hw]
  rw [h.weight_eq hrisk hs, shiftWeight, hδ]
  constructor
  · calc 9 / 10 * w = w - 1 / 10 * w := by ring
      _ ≤ _ := le_clamp _ (by linarith)
  · calc _ ≤ w + 1 / 10 * w := clamp_le _ _ _
      _ = 11 / 10 * w := by ring

end IsTrio

theorem sum_trio (f : ServerId → ℝ) :
    ∑ s ∈ trio.toFinset, f s = f ⟨0⟩ + f ⟨1⟩ + f ⟨2⟩ := by
  simp [trio, add_assoc]

theorem Weighing.total_trio {W : Weighing} (h : W.servers = trio.toFinset) :
    W.total = W.weight ⟨0⟩ + W.weight ⟨1⟩ + W.weight ⟨2⟩ := by
  rw [Weighing.total, h, sum_trio]

theorem Weighing.domainTotal_trio {W : Weighing} (h : W.servers = trio.toFinset) (d : DomainId) :
    W.domainTotal d = (if W.domain ⟨0⟩ = d then W.weight ⟨0⟩ else 0) +
      (if W.domain ⟨1⟩ = d then W.weight ⟨1⟩ else 0) +
      if W.domain ⟨2⟩ = d then W.weight ⟨2⟩ else 0 := by
  rw [Weighing.domainTotal, h, Finset.sum_filter, sum_trio]

section Trio

variable {w : ℝ} {dom : ServerId → DomainId} {risk : ServerId → ℝ}

/-- In a domain each, the three never reach the cap. -/
theorem IsTrio.capFree (h : IsTrio old w dom) (hdom : ∀ s, dom s = ⟨s.id⟩) (hw : 3 / 100 ≤ w)
    (hrisk : ∀ s ∈ trio, risk s ∈ Set.Icc (0 : ℝ) 1) (load : ℝ) :
    CapFree old (riskTrio risk) load := by
  have hservers := (entering_servers (l := load) (h.cover risk)).trans h.keys_eq
  obtain ⟨hlo₀, hhi₀⟩ := h.weight_mem (s := ⟨0⟩) (l := load) hw (hrisk _ (by simp [trio]))
    (by simp [trio])
  obtain ⟨hlo₁, hhi₁⟩ := h.weight_mem (s := ⟨1⟩) (l := load) hw (hrisk _ (by simp [trio]))
    (by simp [trio])
  obtain ⟨hlo₂, hhi₂⟩ := h.weight_mem (s := ⟨2⟩) (l := load) hw (hrisk _ (by simp [trio]))
    (by simp [trio])
  intro d
  rw [Weighing.domainTotal_trio hservers, Weighing.total_trio hservers,
    h.domain_eq _ (by simp [trio]), h.domain_eq _ (by simp [trio]),
    h.domain_eq _ (by simp [trio]), hdom, hdom, hdom,
    ScoreboardConfig.default_domainCapacityFraction]
  -- at most one of the three servers is in `d`
  rcases d with ⟨_ | _ | _ | n⟩
  · simp
    linarith
  · simp
    linarith
  · simp
    linarith
  · simp
    linarith

theorem IsTrio.totalWeight_eq (h : IsTrio old w dom) : totalWeight old = 3 * w := by
  rw [totalWeight_eq_sum, h.keys_eq, sum_trio, h.weightOf_eq (by simp [trio]),
    h.weightOf_eq (by simp [trio]), h.weightOf_eq (by simp [trio])]
  ring

theorem IsTrio.shiftFree (h : IsTrio old w dom) (hrisk : ∀ s ∈ trio, risk s ∈ Set.Icc (0 : ℝ) 1)
    (hshift : ∀ s ∈ trio, smoothingFactor ScoreboardConfig.default l *
      |Real.exp (-risk s) - w| ≤ maxDelta ScoreboardConfig.default w) :
    ShiftFree old (riskTrio risk) l := by
  intro s hs
  rw [h.keys_eq, List.mem_toFinset] at hs
  rw [h.rawOf_eq (hrisk s hs) hs, h.weightOf_eq hs]
  exact hshift s hs

end Trio

/-! ### Two servers of risk `a` and one of risk `b` -/

/-- The third server has a risk of its own. -/
noncomputable def oddRisk (a b : ℝ) (s : ServerId) : ℝ := if s = ⟨2⟩ then b else a

section OddRisk

variable {w a b : ℝ} {dom : ServerId → DomainId} (ha : a ∈ Set.Icc (0 : ℝ) 1)
  (hb : b ∈ Set.Icc (0 : ℝ) 1)

include ha hb

theorem oddRisk_mem (s : ServerId) : oddRisk a b s ∈ Set.Icc (0 : ℝ) 1 := by
  unfold oddRisk
  split
  · exact hb
  · exact ha

/-- The first two enter with the same weight. -/
theorem IsTrio.weight_oddRisk (h : IsTrio old w dom) (load : ℝ) :
    (entering ScoreboardConfig.default old (riskTrio (oddRisk a b)) load).weight ⟨0⟩ =
        shiftWeight ScoreboardConfig.default (smoothingFactor ScoreboardConfig.default load)
          (Real.exp (-a)) w ∧
      (entering ScoreboardConfig.default old (riskTrio (oddRisk a b)) load).weight ⟨1⟩ =
        shiftWeight ScoreboardConfig.default (smoothingFactor ScoreboardConfig.default load)
          (Real.exp (-a)) w ∧
      (entering ScoreboardConfig.default old (riskTrio (oddRisk a b)) load).weight ⟨2⟩ =
        shiftWeight ScoreboardConfig.default (smoothingFactor ScoreboardConfig.default load)
          (Real.exp (-b)) w := by
  refine ⟨?_, ?_, ?_⟩
  · exact h.weight_eq (oddRisk_mem ha hb ⟨0⟩) (by simp [trio])
  · exact h.weight_eq (oddRisk_mem ha hb ⟨1⟩) (by simp [trio])
  · exact h.weight_eq (oddRisk_mem ha hb ⟨2⟩) (by simp [trio])

theorem IsTrio.shiftFree_oddRisk (h : IsTrio old w dom)
    (hshift : ∀ r ∈ [a, b], smoothingFactor ScoreboardConfig.default l *
      |Real.exp (-r) - w| ≤ maxDelta ScoreboardConfig.default w) :
    ShiftFree old (riskTrio (oddRisk a b)) l := by
  refine h.shiftFree (fun s _ => oddRisk_mem ha hb s) fun s _ => hshift _ ?_
  unfold oddRisk
  split <;> simp

/-- In a domain each, the third is published with its share of what enters. -/
theorem IsTrio.published_apart (h : IsTrio old w dom) (hdom : ∀ s, dom s = ⟨s.id⟩)
    (hw : 1 / 5 ≤ w) (load : ℝ) {x y : ℝ}
    (hx : x = shiftWeight ScoreboardConfig.default (smoothingFactor ScoreboardConfig.default load)
      (Real.exp (-a)) w)
    (hy : y = shiftWeight ScoreboardConfig.default (smoothingFactor ScoreboardConfig.default load)
      (Real.exp (-b)) w) :
    weightOf (nextMap ScoreboardConfig.default old (riskTrio (oddRisk a b)) load 0) ⟨2⟩ =
      y / (2 * x + 1 * y) := by
  have hservers := (entering_servers (l := load) (h.cover (oddRisk a b))).trans h.keys_eq
  have hrisk (s : ServerId) (_ : s ∈ trio) := oddRisk_mem ha hb s
  obtain ⟨h₀, h₁, h₂⟩ := h.weight_oddRisk ha hb load
  -- the caps and the floor do not bind, so the shares are those of the shifted weights
  rw [weightOf_nextMap_capFree (h.weightsNonneg (by linarith))
    (h.capFree hdom (by linarith) hrisk load) ?_ 0 ?_, Weighing.total_trio hservers, h₀, h₁, h₂,
    ← hx, ← hy]
  · ring
  · intro t ht
    rw [hservers, List.mem_toFinset] at ht
    linarith [(h.weight_mem (l := load) (by linarith) (hrisk t ht) ht).1]
  · rw [hservers, List.mem_toFinset]
    simp [trio]

/-- If the first two share a domain, that domain is above the cap and the other one is not. -/
theorem IsTrio.published_paired (h : IsTrio old w dom)
    (hdom : ∀ s, dom s = if s = ⟨2⟩ then ⟨1⟩ else ⟨0⟩)
    (hw : 1 / 5 ≤ w) (load : ℝ) {x y : ℝ}
    (hx : x = shiftWeight ScoreboardConfig.default (smoothingFactor ScoreboardConfig.default load)
      (Real.exp (-a)) w)
    (hy : y = shiftWeight ScoreboardConfig.default (smoothingFactor ScoreboardConfig.default load)
      (Real.exp (-b)) w) :
    weightOf (nextMap ScoreboardConfig.default old (riskTrio (oddRisk a b)) load 0) ⟨2⟩ =
      y / (4 / 5 * x + 7 / 5 * y) := by
  have hservers := (entering_servers (l := load) (h.cover (oddRisk a b))).trans h.keys_eq
  obtain ⟨h₀, h₁, h₂⟩ := h.weight_oddRisk ha hb load
  rw [← hx] at h₀ h₁
  rw [← hy] at h₂
  have hmem (s : ServerId) (hs : s ∈ trio) :=
    h.weight_mem (l := load) (by linarith) (oddRisk_mem ha hb s) hs
  obtain ⟨hxlo, hxhi⟩ := h₀ ▸ hmem ⟨0⟩ (by simp [trio])
  obtain ⟨hylo, hyhi⟩ := h₂ ▸ hmem ⟨2⟩ (by simp [trio])
  have hdomain (s : ServerId) (hs : s ∈ trio) :
      (entering ScoreboardConfig.default old (riskTrio (oddRisk a b)) load).domain s =
        if s = ⟨2⟩ then ⟨1⟩ else ⟨0⟩ := by
    rw [h.domain_eq _ hs, hdom]
  have htotal := Weighing.total_trio hservers
  have hdomain₀ := Weighing.domainTotal_trio hservers ⟨0⟩
  have hdomain₁ := Weighing.domainTotal_trio hservers ⟨1⟩
  rw [h₀, h₁, h₂] at htotal
  rw [h₀, h₁, h₂, hdomain ⟨0⟩ (by simp [trio]), hdomain ⟨1⟩ (by simp [trio]),
    hdomain ⟨2⟩ (by simp [trio])] at hdomain₀ hdomain₁
  norm_num at hdomain₀ hdomain₁
  -- the shared domain is scaled down to the cap
  have hfactor₀ : (entering ScoreboardConfig.default old (riskTrio (oddRisk a b)) load).capFactor
      ScoreboardConfig.default ⟨0⟩ = 2 / 5 * (x + x + y) / (x + x) := by
    rw [Weighing.capFactor, hdomain₀, htotal, ScoreboardConfig.default_domainCapacityFraction,
      if_pos]
    rw [lt_div_iff₀ (by linarith)]
    linarith
  have hfactor₁ : (entering ScoreboardConfig.default old (riskTrio (oddRisk a b)) load).capFactor
      ScoreboardConfig.default ⟨1⟩ = 1 := by
    rw [Weighing.capFactor, hdomain₁, htotal, ScoreboardConfig.default_domainCapacityFraction,
      if_neg]
    rw [not_lt, div_le_iff₀ (by linarith)]
    linarith
  have hfloored (s : ServerId) (hs : s ∈ trio) (hne : s ≠ ⟨2⟩)
      (hs₀ : (entering ScoreboardConfig.default old (riskTrio (oddRisk a b)) load).weight s = x) :
      (entering ScoreboardConfig.default old (riskTrio (oddRisk a b)) load).floored
        ScoreboardConfig.default s = 1 / 5 * (x + x + y) := by
    have hx₀ : x ≠ 0 := by linarith
    have hcapped : x * (2 / 5 * (x + x + y) / (x + x)) = 1 / 5 * (x + x + y) := by
      field_simp
      ring
    rw [Weighing.floored, Weighing.capped, hdomain s hs, if_neg hne, hfactor₀, hs₀,
      ScoreboardConfig.default_minWeight, hcapped, max_eq_left]
    linarith
  have hfloored₂ : (entering ScoreboardConfig.default old (riskTrio (oddRisk a b)) load).floored
      ScoreboardConfig.default ⟨2⟩ = y := by
    rw [Weighing.floored, Weighing.capped, hdomain ⟨2⟩ (by simp [trio]), if_pos rfl, hfactor₁,
      mul_one, h₂, ScoreboardConfig.default_minWeight, max_eq_left]
    linarith
  rw [weightOf_nextMap_eq ScoreboardConfig.default_valid (by norm_num)
    (h.weightsNonneg (by linarith)), Weighing.flooredTotal, hservers, sum_trio, hfloored₂,
    hfloored ⟨0⟩ (by simp [trio]) (by simp) h₀, hfloored ⟨1⟩ (by simp [trio]) (by simp) h₁]
  · ring
  · rw [hservers, List.mem_toFinset]
    simp [trio]

end OddRisk

/-- At the higher load some server is published farther from its old weight. -/
def Scoreboard.BolderUnderLoad (sb : Scoreboard) (preds : Predictions) (l₁ l₂ : ℝ) : Prop :=
  preds.keys = sb.inner.keys ∧ l₁ ≤ l₂ ∧ ∃ s ∈ sb.inner.keys, ∃ sb₁ sb₂,
    sb.updateScores preds l₁ 0 = some sb₁ ∧ sb.updateScores preds l₂ 0 = some sb₂ ∧
      |weightOf sb₁.inner s - weightOf sb.inner s| < |weightOf sb₂.inner s - weightOf sb.inner s|

theorem smoothingFactor_default_one :
    smoothingFactor ScoreboardConfig.default 1 = 1 / 20 := by
  have h₁ : clamp (1 : ℝ) 0 1 = 1 := clamp_of_mem zero_le_one le_rfl
  rw [smoothingFactor, h₁, ScoreboardConfig.default_smoothingAlpha,
    ScoreboardConfig.default_minAlpha, ScoreboardConfig.default_maxAlpha, clamp_of_le_lo] <;>
    norm_num

theorem smoothingFactor_default_two_thirds :
    smoothingFactor ScoreboardConfig.default (2 / 3) = 1 / 10 := by
  have h₁ : clamp (2 / 3 : ℝ) 0 1 = 2 / 3 := clamp_of_mem (by norm_num) (by norm_num)
  rw [smoothingFactor, h₁, ScoreboardConfig.default_smoothingAlpha,
    ScoreboardConfig.default_minAlpha, ScoreboardConfig.default_maxAlpha, clamp_of_mem] <;>
    norm_num

/-- A domain for each server. -/
noncomputable def apart : Scoreboard :=
  Scoreboard.withServers [(⟨0⟩, ⟨0⟩), (⟨1⟩, ⟨1⟩), (⟨2⟩, ⟨2⟩)] ScoreboardConfig.default fun _ => 0

/-- Two of the servers share a domain. -/
noncomputable def paired : Scoreboard :=
  Scoreboard.withServers [(⟨0⟩, ⟨0⟩), (⟨1⟩, ⟨0⟩), (⟨2⟩, ⟨1⟩)] ScoreboardConfig.default fun _ => 0

/-- One of the servers is listed twice. -/
noncomputable def listedTwice : Scoreboard :=
  Scoreboard.withServers [(⟨0⟩, ⟨0⟩), (⟨0⟩, ⟨0⟩), (⟨1⟩, ⟨1⟩), (⟨2⟩, ⟨2⟩)]
    ScoreboardConfig.default fun _ => 0

theorem isTrio_apart : IsTrio apart.inner (1 / 3) fun s => ⟨s.id⟩ := by
  have h := isTrio_withServers [(⟨0⟩, ⟨0⟩), (⟨1⟩, ⟨1⟩), (⟨2⟩, ⟨2⟩)] (fun s => ⟨s.id⟩) rfl
    (by simp) fun _ => 0
  rwa [show Scoreboard.initialWeight [(⟨0⟩, ⟨0⟩), (⟨1⟩, ⟨1⟩), (⟨2⟩, ⟨2⟩)] = 1 / 3 by
    norm_num [Scoreboard.initialWeight]] at h

theorem isTrio_paired : IsTrio paired.inner (1 / 3) fun s => if s = ⟨2⟩ then ⟨1⟩ else ⟨0⟩ := by
  have h := isTrio_withServers [(⟨0⟩, ⟨0⟩), (⟨1⟩, ⟨0⟩), (⟨2⟩, ⟨1⟩)]
    (fun s => if s = ⟨2⟩ then ⟨1⟩ else ⟨0⟩) rfl (by simp) fun _ => 0
  rwa [show Scoreboard.initialWeight [(⟨0⟩, ⟨0⟩), (⟨1⟩, ⟨0⟩), (⟨2⟩, ⟨1⟩)] = 1 / 3 by
    norm_num [Scoreboard.initialWeight]] at h

theorem isTrio_listedTwice : IsTrio listedTwice.inner (1 / 4) fun s => ⟨s.id⟩ := by
  have h := isTrio_withServers [(⟨0⟩, ⟨0⟩), (⟨0⟩, ⟨0⟩), (⟨1⟩, ⟨1⟩), (⟨2⟩, ⟨2⟩)]
    (fun s => ⟨s.id⟩) rfl (by simp) fun _ => 0
  rwa [show Scoreboard.initialWeight
      [(⟨0⟩, ⟨0⟩), (⟨0⟩, ⟨0⟩), (⟨1⟩, ⟨1⟩), (⟨2⟩, ⟨2⟩)] = 1 / 4 by
    norm_num [Scoreboard.initialWeight]] at h

/-- The publication of the third server at the two loads decides. -/
theorem IsTrio.bolder {sb : Scoreboard} {w : ℝ} {dom : ServerId → DomainId}
    {risk : ServerId → ℝ} (h : IsTrio sb.inner w dom)
    (hconf : sb.config = ScoreboardConfig.default) (hload : l₁ ≤ l₂)
    (hfar : |weightOf (nextMap ScoreboardConfig.default sb.inner (riskTrio risk) l₁ 0) ⟨2⟩ - w| <
      |weightOf (nextMap ScoreboardConfig.default sb.inner (riskTrio risk) l₂ 0) ⟨2⟩ - w|) :
    sb.BolderUnderLoad (riskTrio risk) l₁ l₂ := by
  have hs : (⟨2⟩ : ServerId) ∈ trio := by simp [trio]
  have hkeys : (⟨2⟩ : ServerId) ∈ sb.inner.keys := by
    rw [h.keys_eq, List.mem_toFinset]
    exact hs
  have hcfg : sb.config.Valid := hconf ▸ ScoreboardConfig.default_valid
  refine ⟨h.cover risk, hload, ⟨2⟩, hkeys, _, _, Scoreboard.updateScores_eq hcfg,
    Scoreboard.updateScores_eq hcfg, ?_⟩
  rw [h.weightOf_eq hs, hconf]
  exact hfar

theorem maxDelta_third : maxDelta ScoreboardConfig.default (1 / 3) = 1 / 30 := by
  norm_num [maxDelta]

theorem maxDelta_quarter : maxDelta ScoreboardConfig.default (1 / 4) = 1 / 40 := by
  norm_num [maxDelta]

/-- The clamp holds all three to the same move at load `0`, and only the third at load `1`. -/
theorem apart_bolder : apart.BolderUnderLoad (riskTrio (oddRisk (1 / 2) 0)) 0 1 := by
  have ha : (1 / 2 : ℝ) ∈ Set.Icc (0 : ℝ) 1 := by norm_num
  have hb : (0 : ℝ) ∈ Set.Icc (0 : ℝ) 1 := by norm_num
  have hlow : (1 / 2 : ℝ) ≤ Real.exp (-(1 / 2)) := by
    linarith [Real.add_one_le_exp (-(1 / 2) : ℝ)]
  have hhigh : Real.exp (-(1 / 2)) < 1 := Real.exp_lt_one_iff.mpr (by norm_num)
  refine isTrio_apart.bolder rfl zero_le_one ?_
  rw [isTrio_apart.published_apart ha hb (fun _ => rfl) (by norm_num) 0 rfl rfl,
    isTrio_apart.published_apart ha hb (fun _ => rfl) (by norm_num) 1 rfl rfl,
    smoothingFactor_default_zero, smoothingFactor_default_one, neg_zero, Real.exp_zero]
  have hclamped {raw : ℝ} (h : 1 / 2 ≤ raw) :
      shiftWeight ScoreboardConfig.default (3 / 10) raw (1 / 3) = 11 / 30 := by
    rw [shiftWeight, maxDelta_third, clamp_of_hi_le (by linarith)]
    norm_num
  have hshift : 1 / 20 * |Real.exp (-(1 / 2)) - 1 / 3| ≤
      maxDelta ScoreboardConfig.default (1 / 3) := by
    rw [maxDelta_third, abs_of_nonneg] <;> linarith
  have hshift₁ : 1 / 20 * |(1 : ℝ) - 1 / 3| ≤ maxDelta ScoreboardConfig.default (1 / 3) := by
    rw [maxDelta_third, abs_of_nonneg] <;> norm_num
  rw [hclamped hlow, hclamped (by norm_num), shiftWeight_eq (by norm_num) hshift,
    shiftWeight_eq (by norm_num) hshift₁]
  -- at load `0` the share stays at a third, at load `1` it is larger
  have hmore : 1 / 3 < (1 / 3 + 1 / 20 * (1 - 1 / 3)) /
      (2 * (1 / 3 + 1 / 20 * (Real.exp (-(1 / 2)) - 1 / 3)) +
        1 * (1 / 3 + 1 / 20 * (1 - 1 / 3))) := by
    rw [lt_div_iff₀ (by linarith)]
    linarith
  rw [abs_of_pos (sub_pos.mpr hmore)]
  norm_num
  norm_num at hmore
  exact hmore

/-- A server of raw weight `q` beside others of raw weight `r > q` loses share to them, and more
at the larger factor. -/
theorem share_anti {A B w q r c d : ℝ} (hA : 0 < A) (hB : 0 ≤ B) (hw : 0 < w) (hq : 0 < q)
    (hqr : q < r) (hc : 0 ≤ c) (hcd : c < d) (hd : d < 1) :
    (w + d * (q - w)) / (A * (w + d * (r - w)) + B * (w + d * (q - w))) <
      (w + c * (q - w)) / (A * (w + c * (r - w)) + B * (w + c * (q - w))) := by
  have hpos {e raw : ℝ} (he₀ : 0 ≤ e) (he₁ : e < 1) (hraw : 0 < raw) : 0 < w + e * (raw - w) := by
    nlinarith
  have hZ {e : ℝ} (he₀ : 0 ≤ e) (he₁ : e < 1) :
      0 < A * (w + e * (r - w)) + B * (w + e * (q - w)) :=
    add_pos_of_pos_of_nonneg (mul_pos hA (hpos he₀ he₁ (hq.trans hqr)))
      (mul_nonneg hB (hpos he₀ he₁ hq).le)
  have hgap : 0 < A * ((d - c) * (w * (r - q))) :=
    mul_pos hA (mul_pos (sub_pos.mpr hcd) (mul_pos hw (sub_pos.mpr hqr)))
  rw [div_lt_div_iff₀ (hZ (hc.trans hcd.le) hd) (hZ hc (hcd.trans hd))]
  linarith

/-- Weights of a third move freely towards these two risks. -/
theorem shift_le_third {r c : ℝ} (hr : r ∈ Set.Icc (9 / 10 : ℝ) 1) (hc₀ : 0 ≤ c)
    (hc : c ≤ 3 / 10) :
    c * |Real.exp (-r) - 1 / 3| ≤ maxDelta ScoreboardConfig.default (1 / 3) := by
  have hlow : 1 / 3 ≤ Real.exp (-r) := by
    have h : Real.exp (-1) ≤ Real.exp (-r) := Real.exp_le_exp.mpr (by linarith [hr.2])
    linarith [Real.exp_neg_one_gt_d9]
  have hhigh : Real.exp (-r) ≤ 4 / 9 := by
    have h := Real.quadratic_le_exp_of_nonneg (x := r) (by linarith [hr.1])
    rw [Real.exp_neg, inv_le_comm₀ (Real.exp_pos _) (by norm_num)]
    nlinarith [hr.1]
  rw [maxDelta_third, abs_of_nonneg (by linarith)]
  nlinarith

/-- And weights of a quarter towards these, at a third of the speed. -/
theorem shift_le_quarter {r c : ℝ} (hr : r ∈ Set.Icc (4 / 5 : ℝ) 1) (hc₀ : 0 ≤ c)
    (hc : c ≤ 1 / 10) :
    c * |Real.exp (-r) - 1 / 4| ≤ maxDelta ScoreboardConfig.default (1 / 4) := by
  have hlow : 1 / 3 ≤ Real.exp (-r) := by
    have h : Real.exp (-1) ≤ Real.exp (-r) := Real.exp_le_exp.mpr (by linarith [hr.2])
    linarith [Real.exp_neg_one_gt_d9]
  have hhigh : Real.exp (-r) ≤ 1 / 2 := by
    have h := Real.quadratic_le_exp_of_nonneg (x := r) (by linarith [hr.1])
    rw [Real.exp_neg, inv_le_comm₀ (Real.exp_pos _) (by norm_num)]
    nlinarith [hr.1]
  rw [maxDelta_quarter, abs_of_nonneg (by linarith)]
  nlinarith

theorem IsTrio.shiftFree_third {dom : ServerId → DomainId} (h : IsTrio old (1 / 3) dom) :
    ShiftFree old (riskTrio (oddRisk (9 / 10) 1)) 0 := by
  refine h.shiftFree_oddRisk (by norm_num) (by norm_num) fun r hr => ?_
  rw [smoothingFactor_default_zero]
  simp only [List.mem_cons, List.not_mem_nil, or_false] at hr
  rcases hr with rfl | rfl
  · exact shift_le_third (by norm_num) (by norm_num) le_rfl
  · exact shift_le_third (by norm_num) (by norm_num) le_rfl

theorem IsTrio.shiftFree_quarter {dom : ServerId → DomainId} (h : IsTrio old (1 / 4) dom) :
    ShiftFree old (riskTrio (oddRisk (4 / 5) 1)) (2 / 3) := by
  refine h.shiftFree_oddRisk (by norm_num) (by norm_num) fun r hr => ?_
  rw [smoothingFactor_default_two_thirds]
  simp only [List.mem_cons, List.not_mem_nil, or_false] at hr
  rcases hr with rfl | rfl
  · exact shift_le_quarter (by norm_num) (by norm_num) le_rfl
  · exact shift_le_quarter (by norm_num) (by norm_num) le_rfl

/-- The shared domain loses to the cap at any load, and the move at load `0` makes up for some
of it. -/
theorem paired_bolder : paired.BolderUnderLoad (riskTrio (oddRisk (9 / 10) 1)) 0 1 := by
  have ha : (9 / 10 : ℝ) ∈ Set.Icc (9 / 10 : ℝ) 1 := by norm_num
  have hb : (1 : ℝ) ∈ Set.Icc (9 / 10 : ℝ) 1 := by norm_num
  have hlt : Real.exp (-1) < Real.exp (-(9 / 10)) := Real.exp_lt_exp.mpr (by norm_num)
  have hmore := Real.exp_neg_one_gt_d9
  have hless := Real.exp_lt_one_iff.mpr (by norm_num : -(9 / 10 : ℝ) < 0)
  refine isTrio_paired.bolder rfl zero_le_one ?_
  rw [isTrio_paired.published_paired (by norm_num) (by norm_num) (fun _ => rfl) (by norm_num) 0
      rfl rfl,
    isTrio_paired.published_paired (by norm_num) (by norm_num) (fun _ => rfl) (by norm_num) 1
      rfl rfl,
    smoothingFactor_default_zero, smoothingFactor_default_one,
    shiftWeight_eq (by norm_num) (shift_le_third ha (by norm_num) le_rfl),
    shiftWeight_eq (by norm_num) (shift_le_third hb (by norm_num) le_rfl),
    shiftWeight_eq (by norm_num) (shift_le_third ha (by norm_num) (by norm_num)),
    shiftWeight_eq (by norm_num) (shift_le_third hb (by norm_num) (by norm_num))]
  -- the third server gains at either load, and less where its share of the whole is smaller
  have hshare := share_anti (A := 4 / 5) (B := 7 / 5) (w := 1 / 3) (c := 1 / 20) (d := 3 / 10)
    (by norm_num) (by norm_num) (by norm_num) (Real.exp_pos (-1)) hlt (by norm_num)
    (by norm_num) (by norm_num)
  have hgain : 1 / 3 ≤ (1 / 3 + 3 / 10 * (Real.exp (-1) - 1 / 3)) /
      (4 / 5 * (1 / 3 + 3 / 10 * (Real.exp (-(9 / 10)) - 1 / 3)) +
        7 / 5 * (1 / 3 + 3 / 10 * (Real.exp (-1) - 1 / 3))) := by
    rw [le_div_iff₀ (by linarith)]
    linarith
  rw [abs_of_nonneg (by linarith), abs_of_nonneg (by linarith)]
  linarith

/-- Normalisation moves the weights of a list with a server in it twice by itself, and the move
at load `2 / 3` makes up for some of it. -/
theorem listedTwice_bolder :
    listedTwice.BolderUnderLoad (riskTrio (oddRisk (4 / 5) 1)) (2 / 3) 1 := by
  have ha : (4 / 5 : ℝ) ∈ Set.Icc (4 / 5 : ℝ) 1 := by norm_num
  have hb : (1 : ℝ) ∈ Set.Icc (4 / 5 : ℝ) 1 := by norm_num
  have hlt : Real.exp (-1) < Real.exp (-(4 / 5)) := Real.exp_lt_exp.mpr (by norm_num)
  have hmore := Real.exp_neg_one_gt_d9
  have hless := Real.exp_lt_one_iff.mpr (by norm_num : -(4 / 5 : ℝ) < 0)
  refine isTrio_listedTwice.bolder rfl (by norm_num) ?_
  rw [isTrio_listedTwice.published_apart (by norm_num) (by norm_num) (fun _ => rfl) (by norm_num)
      (2 / 3) rfl rfl,
    isTrio_listedTwice.published_apart (by norm_num) (by norm_num) (fun _ => rfl) (by norm_num)
      1 rfl rfl,
    smoothingFactor_default_two_thirds, smoothingFactor_default_one,
    shiftWeight_eq (by norm_num) (shift_le_quarter ha (by norm_num) le_rfl),
    shiftWeight_eq (by norm_num) (shift_le_quarter hb (by norm_num) le_rfl),
    shiftWeight_eq (by norm_num) (shift_le_quarter ha (by norm_num) (by norm_num)),
    shiftWeight_eq (by norm_num) (shift_le_quarter hb (by norm_num) (by norm_num))]
  have hshare := share_anti (A := 2) (B := 1) (w := 1 / 4) (c := 1 / 20) (d := 1 / 10)
    (by norm_num) (by norm_num) (by norm_num) (Real.exp_pos (-1)) hlt (by norm_num)
    (by norm_num) (by norm_num)
  -- under the lower load the third server gains already
  have hgain : 1 / 4 ≤ (1 / 4 + 1 / 10 * (Real.exp (-1) - 1 / 4)) /
      (2 * (1 / 4 + 1 / 10 * (Real.exp (-(4 / 5)) - 1 / 4)) +
        1 * (1 / 4 + 1 / 10 * (Real.exp (-1) - 1 / 4))) := by
    rw [le_div_iff₀ (by linarith)]
    linarith
  rw [abs_of_nonneg (by linarith), abs_of_nonneg (by linarith)]
  linarith

/-! ### The law and its exceptions -/

/-- **A higher load can be bolder**, for each of three reasons by itself: the clamp, with
weights that sum to one and no domain above the cap; a domain above the cap, with weights that
sum to one and nobody clamped; weights that do not sum to one, with nobody clamped and no domain
above the cap. -/
theorem Scoreboard.load_not_conservative :
    (apart.BolderUnderLoad (riskTrio (oddRisk (1 / 2) 0)) 0 1 ∧ totalWeight apart.inner = 1 ∧
      ∀ load, CapFree apart.inner (riskTrio (oddRisk (1 / 2) 0)) load) ∧
    (paired.BolderUnderLoad (riskTrio (oddRisk (9 / 10) 1)) 0 1 ∧
      totalWeight paired.inner = 1 ∧ ShiftFree paired.inner (riskTrio (oddRisk (9 / 10) 1)) 0) ∧
    (listedTwice.BolderUnderLoad (riskTrio (oddRisk (4 / 5) 1)) (2 / 3) 1 ∧
      ShiftFree listedTwice.inner (riskTrio (oddRisk (4 / 5) 1)) (2 / 3) ∧
      ∀ load, CapFree listedTwice.inner (riskTrio (oddRisk (4 / 5) 1)) load) := by
  refine ⟨⟨apart_bolder, ?_, ?_⟩, ⟨paired_bolder, ?_, isTrio_paired.shiftFree_third⟩,
    ⟨listedTwice_bolder, isTrio_listedTwice.shiftFree_quarter, ?_⟩⟩
  · rw [isTrio_apart.totalWeight_eq]
    norm_num
  · exact isTrio_apart.capFree (fun _ => rfl) (by norm_num)
      fun s _ => oddRisk_mem (by norm_num) (by norm_num) s
  · rw [isTrio_paired.totalWeight_eq]
    norm_num
  · exact isTrio_listedTwice.capFree (fun _ => rfl) (by norm_num)
      fun s _ => oddRisk_mem (by norm_num) (by norm_num) s

/-- **Where a higher load is more conservative.** From every reachable board, for predictions
of exactly its servers and loads `l₁ ≤ l₂`: the higher load gives the smaller smoothing factor,
and with it no server's weight leaves smoothing and the shift clamp farther from the old one.
If moreover the old weights sum to one, the shift clamp cuts nobody at `l₁`, and the caps change
nobody's share at either load, then no server is published farther from its old weight. -/
theorem Scoreboard.load_conservative {sb : Scoreboard}
    (hsb : sb.Reachable ScoreboardConfig.default) (hcover : preds.keys = sb.inner.keys)
    (hload : l₁ ≤ l₂) (now₁ now₂ : Instant) :
    ∃ sb₁ sb₂, sb.updateScores preds l₁ now₁ = some sb₁ ∧
      sb.updateScores preds l₂ now₂ = some sb₂ ∧
      smoothingFactor ScoreboardConfig.default l₂ ≤ smoothingFactor ScoreboardConfig.default l₁ ∧
      (∀ s ∈ sb.inner.keys,
        |(entering ScoreboardConfig.default sb.inner preds l₂).weight s - weightOf sb.inner s| ≤
          |(entering ScoreboardConfig.default sb.inner preds l₁).weight s -
            weightOf sb.inner s|) ∧
      (totalWeight sb.inner = 1 → ShiftFree sb.inner preds l₁ → CapsAlike sb.inner preds l₁ →
        CapsAlike sb.inner preds l₂ → ∀ s ∈ sb.inner.keys,
          |weightOf sb₂.inner s - weightOf sb.inner s| ≤
            |weightOf sb₁.inner s - weightOf sb.inner s|) := by
  have hcfg := ScoreboardConfig.default_valid
  have hold := hsb.weightsNonneg hcfg
  have hrange := hsb.scoresInRange hcfg
  have hconf := hsb.config_eq hcfg
  have hα := smoothingFactor_anti hcfg hload
  have hα₀ : 0 ≤ smoothingFactor ScoreboardConfig.default l₂ := by
    linarith [(smoothingFactor_default_mem l₂).1]
  refine ⟨_, _, updateScores_eq (hconf.symm ▸ hcfg), updateScores_eq (hconf.symm ▸ hcfg), hα,
    fun s hs => ?_, fun hsum hshift hcap₁ hcap₂ s hs => ?_⟩
  · rw [entering_weight hcover hs, entering_weight hcover hs]
    exact abs_shiftWeight_sub_le hcfg hα₀ hα _ _
  · -- two shares of one form, which comes closer to the old weight as the factor falls
    rw [hconf, weightOf_nextMap_shiftFree hold hrange hsum hcover (hshift.anti hload) hcap₂ _ hs,
      weightOf_nextMap_shiftFree hold hrange hsum hcover hshift hcap₁ _ hs]
    refine abs_share_sub_le hα₀ hα ?_ ?_
    · linarith [(smoothingFactor_default_mem l₁).2]
    · exact Finset.sum_nonneg fun t ht => by linarith [rawOf_gt hrange hcover ht]

/-- Three servers in a domain each, under no load and under full load. -/
theorem Scoreboard.load_conservative_apart :
    ∃ sb₁ sb₂, apart.updateScores (riskTrio (oddRisk (9 / 10) 1)) 0 5 = some sb₁ ∧
      apart.updateScores (riskTrio (oddRisk (9 / 10) 1)) 1 7 = some sb₂ ∧
      ∀ s ∈ apart.inner.keys, |weightOf sb₂.inner s - weightOf apart.inner s| ≤
        |weightOf sb₁.inner s - weightOf apart.inner s| := by
  have hreach : apart.Reachable ScoreboardConfig.default := ⟨_, _, [], rfl⟩
  have hcap : ∀ load, CapFree apart.inner (riskTrio (oddRisk (9 / 10) 1)) load :=
    isTrio_apart.capFree (fun _ => rfl) (by norm_num)
      fun s _ => oddRisk_mem (by norm_num) (by norm_num) s
  obtain ⟨sb₁, sb₂, h₁, h₂, -, -, hpublished⟩ := load_conservative hreach
    (isTrio_apart.cover (oddRisk (9 / 10) 1)) zero_le_one 5 7
  refine ⟨sb₁, sb₂, h₁, h₂, hpublished ?_ isTrio_apart.shiftFree_third (Or.inl (hcap 0))
    (Or.inl (hcap 1))⟩
  rw [isTrio_apart.totalWeight_eq]
  norm_num

end ScalableBooking.RouterCore
