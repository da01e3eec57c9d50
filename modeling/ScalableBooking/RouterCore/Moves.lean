import ScalableBooking.RouterCore.Entering
import ScalableBooking.RouterCore.PoolStep

/-!
# How far an update can move a weight

Smoothing takes a weight towards the raw weight of its prediction, and the max-shift clamp
keeps it near where it was. So before anything is computed, the old weight and the raw
weight that the prediction asks for say in which direction a server can move and how far:
`lowest` and `highest` are the ends of that range, whatever the smoothing factor is
(`entering_mem`).

The passes after the smoothing act on all servers at once, and whether they get in the way is
a matter of these ranges too. `CapsIdle` says that no domain can get above the cap, and
`FloorIdle` that no weight can get below the floor. Where both hold, an update only divides
by the sum (`weightOf_nextMap_idle`), and so it does where all servers are in one domain and
no weight gets near the floor (`weightOf_nextMap_single`).
-/

namespace ScalableBooking.RouterCore

variable {old : ScoreMap} {preds : Predictions} {load : ℝ} {now : Instant} {s : ServerId}
  {d : DomainId}

/-! ### Directions and ranges -/

/-- The prediction of the server asks for more than it has. -/
def AsksMore (old : ScoreMap) (preds : Predictions) (s : ServerId) : Prop :=
  s ∈ preds.keys ∧ weightOf old s < rawOf old preds s

/-- The prediction of the server asks for less than it has. -/
def AsksLess (old : ScoreMap) (preds : Predictions) (s : ServerId) : Prop :=
  s ∈ preds.keys ∧ rawOf old preds s < weightOf old s

open Classical in
/-- The lower end of the range a weight can move in. -/
noncomputable def lowest (old : ScoreMap) (preds : Predictions) (s : ServerId) : ℝ :=
  if AsksLess old preds s then
    weightOf old s - maxDelta ScoreboardConfig.default (weightOf old s)
  else weightOf old s

open Classical in
/-- The upper end of the range a weight can move in. -/
noncomputable def highest (old : ScoreMap) (preds : Predictions) (s : ServerId) : ℝ :=
  if AsksMore old preds s then
    weightOf old s + maxDelta ScoreboardConfig.default (weightOf old s)
  else weightOf old s

/-- No prediction is for a server that is not on the board. -/
def NoNewcomer (old : ScoreMap) (preds : Predictions) : Prop := preds.keys ⊆ old.keys

/-- No domain can get above the cap: at its highest it has at most the cap's share with
everybody else at the lowest. -/
def CapsIdle (old : ScoreMap) (preds : Predictions) : Prop :=
  ∀ d, (1 - ScoreboardConfig.default.domainCapacityFraction) *
      ∑ s ∈ old.keys with domainOf old s = some d, highest old preds s ≤
    ScoreboardConfig.default.domainCapacityFraction *
      ∑ s ∈ old.keys with domainOf old s ≠ some d, lowest old preds s

/-- No weight can get below the floor. -/
def FloorIdle (old : ScoreMap) (preds : Predictions) : Prop :=
  ∀ s ∈ old.keys, ScoreboardConfig.default.minWeight ≤ lowest old preds s

/-! ### What enters is in its range -/

theorem maxDelta_default (w : ℝ) :
    maxDelta ScoreboardConfig.default w = max w (3 / 100) / 10 := by
  rw [maxDelta, ScoreboardConfig.default_maxShiftFraction, ScoreboardConfig.default_minWeight]
  ring

theorem maxDelta_default_pos (w : ℝ) : 0 < maxDelta ScoreboardConfig.default w := by
  have := le_max_right w (3 / 100)
  rw [maxDelta_default]
  linarith

theorem lowest_le (old : ScoreMap) (preds : Predictions) (s : ServerId) :
    lowest old preds s ≤ weightOf old s := by
  have := maxDelta_default_pos (weightOf old s)
  unfold lowest
  split <;> linarith

/-- Without a prediction there is nowhere to go. -/
theorem lowest_of_notMem (hs : s ∉ preds.keys) : lowest old preds s = weightOf old s :=
  if_neg fun h => hs h.1

theorem highest_of_notMem (hs : s ∉ preds.keys) : highest old preds s = weightOf old s :=
  if_neg fun h => hs h.1

theorem le_highest (old : ScoreMap) (preds : Predictions) (s : ServerId) :
    weightOf old s ≤ highest old preds s := by
  have := maxDelta_default_pos (weightOf old s)
  unfold highest
  split <;> linarith

/-- No update takes a weight farther up than a tenth of itself or of the floor. -/
theorem highest_le (old : ScoreMap) (preds : Predictions) (s : ServerId) :
    highest old preds s ≤ 11 / 10 * max (weightOf old s) (3 / 100) := by
  have hmax := le_max_left (weightOf old s) (3 / 100)
  have hfloor := le_max_right (weightOf old s) (3 / 100)
  unfold highest
  split
  · rw [maxDelta_default]
    linarith
  · linarith

/-- Nor farther down. -/
theorem le_lowest (old : ScoreMap) (preds : Predictions) (s : ServerId) :
    weightOf old s - max (weightOf old s) (3 / 100) / 10 ≤ lowest old preds s := by
  have hfloor := le_max_right (weightOf old s) (3 / 100)
  unfold lowest
  split
  · rw [maxDelta_default]
  · linarith

/-- Smoothing and clamp stay between the old weight and the bound on the side of the raw
weight. -/
theorem shiftWeight_mem {a raw w : ℝ} (ha : a ∈ Set.Icc (0 : ℝ) 1) :
    (w ≤ raw → shiftWeight ScoreboardConfig.default a raw w ∈
      Set.Icc w (w + maxDelta ScoreboardConfig.default w)) ∧
    (raw ≤ w → shiftWeight ScoreboardConfig.default a raw w ∈
      Set.Icc (w - maxDelta ScoreboardConfig.default w) w) := by
  obtain ⟨ha₀, ha₁⟩ := ha
  have hδ := maxDelta_default_pos w
  refine ⟨fun hup => ⟨?_, clamp_le _ _ _⟩, fun hdown => ⟨le_clamp _ (by linarith), ?_⟩⟩
  · -- the smoothed weight and the upper bound are both at least `w`
    refine le_trans (le_min ?_ (by linarith)) (min_le_clamp _ _ _)
    nlinarith
  · refine (clamp_le_max _ _ _).trans (max_le ?_ (by linarith))
    nlinarith

/-- The weight with which a server of the board enters, with a prediction and without. -/
theorem entering_weight_cases (hs : s ∈ old.keys) :
    (s ∈ preds.keys ∧ (entering ScoreboardConfig.default old preds load).weight s =
        shiftWeight ScoreboardConfig.default (smoothingFactor ScoreboardConfig.default load)
          (rawOf old preds s) (weightOf old s)) ∨
      (s ∉ preds.keys ∧
        (entering ScoreboardConfig.default old preds load).weight s = weightOf old s) := by
  obtain ⟨sc, hsc⟩ := Finmap.exists_lookup_of_mem_keys hs
  show (_ ∧ enteringWeight _ _ (old.lookup s) (preds.lookup s) = _) ∨
    (_ ∧ enteringWeight _ _ (old.lookup s) (preds.lookup s) = _)
  cases hpred : preds.lookup s with
  | some pred =>
    refine Or.inl ⟨Finmap.mem_keys.mpr (Finmap.mem_of_lookup_eq_some hpred), ?_⟩
    rw [hsc, enteringWeight, rawOf, riskOf, healthAfter, errorOf,
      Finmap.readD_of_lookup hpred, Finmap.readD_of_lookup hpred, healthOf_of_lookup hsc,
      weightOf_of_lookup hsc, nextHealth, ScoreboardConfig.default_healthEmaBeta]
    norm_num
  | none =>
    refine Or.inr ⟨fun h => Finmap.lookup_eq_none.mp hpred (Finmap.mem_keys.mp h), ?_⟩
    rw [hsc, enteringWeight, weightOf_of_lookup hsc]

/-- **The range of an update.** Every server of the board enters the passes with a weight
between its `lowest` and its `highest`. -/
theorem entering_mem (hs : s ∈ old.keys) :
    (entering ScoreboardConfig.default old preds load).weight s ∈
      Set.Icc (lowest old preds s) (highest old preds s) := by
  have hα := smoothingFactor_mem ScoreboardConfig.default_valid load
  rcases @entering_weight_cases old preds load s hs with ⟨hp, hw⟩ | ⟨hp, hw⟩
  · obtain ⟨hup, hdown⟩ := @shiftWeight_mem _ (rawOf old preds s) (weightOf old s) hα
    rw [hw, lowest, highest]
    rcases lt_trichotomy (rawOf old preds s) (weightOf old s) with hraw | hraw | hraw
    · -- the only way is down
      rw [if_pos ⟨hp, hraw⟩, if_neg fun h : AsksMore old preds s => h.2.not_gt hraw]
      exact hdown hraw.le
    · -- nowhere to go
      rw [if_neg fun h : AsksLess old preds s => h.2.ne hraw,
        if_neg fun h : AsksMore old preds s => h.2.ne' hraw]
      exact ⟨(hup hraw.ge).1, (hdown hraw.le).2⟩
    · rw [if_neg fun h : AsksLess old preds s => h.2.not_gt hraw, if_pos ⟨hp, hraw⟩]
      exact hup hraw.le
  · rw [hw]
    exact ⟨lowest_le old preds s, le_highest old preds s⟩

theorem NoNewcomer.servers_eq (h : NoNewcomer old preds) :
    (entering ScoreboardConfig.default old preds load).servers = old.keys :=
  Finset.union_eq_left.mpr h

theorem NoNewcomer.keys_nextMap (h : NoNewcomer old preds) :
    (nextMap ScoreboardConfig.default old preds load now).keys = old.keys := by
  rw [RouterCore.keys_nextMap, Finset.union_eq_left.mpr h]

/-! ### The factors of the caps -/

section Factors

variable {cfg : ScoreboardConfig} {W : Weighing}

theorem Weighing.domainTotal_le_total (hW : ∀ s ∈ W.servers, 0 ≤ W.weight s) (d : DomainId) :
    W.domainTotal d ≤ W.total :=
  Finset.sum_le_sum_of_subset_of_nonneg (Finset.filter_subset _ _) fun s hs _ => hW s hs

/-- The caps scale by a factor between the cap and one. -/
theorem Weighing.capFactor_mem (hcfg : cfg.Valid) (hW : ∀ s ∈ W.servers, 0 ≤ W.weight s)
    (d : DomainId) : W.capFactor cfg d ∈ Set.Icc cfg.domainCapacityFraction 1 := by
  obtain ⟨hcap₀, hcap₁⟩ := hcfg.domainCapacityFraction_mem
  have hle := W.domainTotal_le_total hW d
  have hT : 0 ≤ W.total := Finset.sum_nonneg hW
  unfold Weighing.capFactor
  split
  · next hover =>
    -- a share above the cap is one of a positive total
    have hT₀ : 0 < W.total := by
      rcases hT.eq_or_lt with h | h
      · rw [← h, div_zero] at hover
        exact absurd hover hcap₀.not_gt
      · exact h
    rw [lt_div_iff₀ hT₀] at hover
    have hd : 0 < W.domainTotal d := (mul_nonneg hcap₀ hT).trans_lt hover
    refine ⟨?_, ?_⟩
    · rw [le_div_iff₀ hd]
      gcongr
    · rw [div_le_one hd]
      exact hover.le
  · exact ⟨hcap₁, le_rfl⟩

theorem Weighing.capped_le (hcfg : cfg.Valid) (hW : ∀ s ∈ W.servers, 0 ≤ W.weight s)
    (hs : s ∈ W.servers) : W.capped cfg s ≤ W.weight s :=
  mul_le_of_le_one_right (hW s hs) (W.capFactor_mem hcfg hW _).2

theorem Weighing.le_capped (hcfg : cfg.Valid) (hW : ∀ s ∈ W.servers, 0 ≤ W.weight s)
    (hs : s ∈ W.servers) : cfg.domainCapacityFraction * W.weight s ≤ W.capped cfg s := by
  rw [mul_comm]
  exact mul_le_mul_of_nonneg_left (W.capFactor_mem hcfg hW _).1 (hW s hs)

/-- With everybody in one domain, the factor is the cap. -/
theorem Weighing.capFactor_single (hcap : cfg.domainCapacityFraction < 1) (hT : 0 < W.total)
    (hone : ∀ s ∈ W.servers, W.domain s = d) :
    W.capFactor cfg d = cfg.domainCapacityFraction := by
  have htotal : W.domainTotal d = W.total := by
    rw [Weighing.domainTotal, Finset.filter_true_of_mem hone]
    rfl
  rw [Weighing.capFactor, htotal, div_self hT.ne', if_pos hcap, mul_div_cancel_right₀ _ hT.ne']

end Factors

/-! ### The published weight -/

section Published

variable {cfg : ScoreboardConfig}

theorem Weighing.flooredTotal_pos {W : Weighing} (hmin : 0 < cfg.minWeight)
    (hs : s ∈ W.servers) : 0 < W.flooredTotal cfg :=
  Finset.sum_pos (fun _ _ => hmin.trans_le (le_max_right _ _)) ⟨s, hs⟩

/-- The published weight: floored, over the divisor. -/
theorem weightOf_nextMap_eq (hcfg : cfg.Valid) (hmin : 0 < cfg.minWeight)
    (hold : WeightsNonneg old) (hs : s ∈ (entering cfg old preds load).servers) :
    weightOf (nextMap cfg old preds load now) s =
      (entering cfg old preds load).floored cfg s /
        (entering cfg old preds load).flooredTotal cfg := by
  have hcap := hcfg.domainCapacityFraction_mem.1
  have hT : 0 ≤ totalWeight (rebuildMap cfg old preds load now) :=
    totalWeight_nonneg (hold.rebuildMap hcfg)
  rw [weightOf_nextMap hmin ⟨s, hs⟩, flooredMap, totalWeight_floored_eq hcap hT,
    weightOf_floored hcap hT (by rwa [keys_rebuildMap]), weighing_rebuildMap]

end Published

/-! ### Updates that only divide -/

section Idle

/-- No domain enters the caps pass above the cap. -/
def CapFree (old : ScoreMap) (preds : Predictions) (load : ℝ) : Prop :=
  ∀ d, (entering ScoreboardConfig.default old preds load).domainTotal d ≤
    ScoreboardConfig.default.domainCapacityFraction *
      (entering ScoreboardConfig.default old preds load).total

/-- The weights that enter are not negative. -/
theorem entering_nonneg (hold : WeightsNonneg old) :
    ∀ s ∈ (entering ScoreboardConfig.default old preds load).servers,
      0 ≤ (entering ScoreboardConfig.default old preds load).weight s := by
  intro s _
  rw [← weighing_rebuildMap _ _ _ _ 0]
  exact (hold.rebuildMap ScoreboardConfig.default_valid).weightOf s

/-- Where no domain is above the cap, the caps scale nobody. -/
theorem CapFree.capped_eq (hold : WeightsNonneg old) (h : CapFree old preds load)
    (s : ServerId) :
    (entering ScoreboardConfig.default old preds load).capped ScoreboardConfig.default s =
      (entering ScoreboardConfig.default old preds load).weight s := by
  rw [Weighing.capped, Weighing.capFactor, if_neg, mul_one]
  exact not_lt.mpr (div_le_of_le_mul₀ (Finset.sum_nonneg (entering_nonneg hold)) (by norm_num)
    (h _))

/-- Where no domain is above the cap and no weight below the floor, a server is published with
its share of what enters. -/
theorem weightOf_nextMap_capFree (hold : WeightsNonneg old) (hcap : CapFree old preds load)
    (hfloor : ∀ t ∈ (entering ScoreboardConfig.default old preds load).servers,
      3 / 100 ≤ (entering ScoreboardConfig.default old preds load).weight t)
    (now : Instant) (hs : s ∈ (entering ScoreboardConfig.default old preds load).servers) :
    weightOf (nextMap ScoreboardConfig.default old preds load now) s =
      (entering ScoreboardConfig.default old preds load).weight s /
        (entering ScoreboardConfig.default old preds load).total := by
  have hfloored (t : ServerId)
      (ht : t ∈ (entering ScoreboardConfig.default old preds load).servers) :
      (entering ScoreboardConfig.default old preds load).floored ScoreboardConfig.default t =
        (entering ScoreboardConfig.default old preds load).weight t := by
    rw [Weighing.floored, hcap.capped_eq hold, ScoreboardConfig.default_minWeight]
    exact max_eq_left (hfloor t ht)
  rw [weightOf_nextMap_eq ScoreboardConfig.default_valid (by norm_num) hold hs, hfloored s hs,
    Weighing.flooredTotal, Finset.sum_congr rfl hfloored, Weighing.total]

theorem entering_domain_iff (hs : s ∈ old.keys) :
    (entering ScoreboardConfig.default old preds load).domain s = d ↔
      domainOf old s = some d :=
  weighing_domain_eq_iff hs

/-- Without newcomers the sums are over the board. -/
theorem NoNewcomer.domainTotal_eq (hnew : NoNewcomer old preds) (load : ℝ) (d : DomainId) :
    (entering ScoreboardConfig.default old preds load).domainTotal d =
      ∑ s ∈ old.keys with domainOf old s = some d,
        (entering ScoreboardConfig.default old preds load).weight s := by
  rw [Weighing.domainTotal, hnew.servers_eq,
    Finset.filter_congr fun s hs => entering_domain_iff hs]

theorem NoNewcomer.total_eq_add (hnew : NoNewcomer old preds) (load : ℝ) (d : DomainId) :
    (entering ScoreboardConfig.default old preds load).total =
      (entering ScoreboardConfig.default old preds load).domainTotal d +
        ∑ s ∈ old.keys with domainOf old s ≠ some d,
          (entering ScoreboardConfig.default old preds load).weight s := by
  rw [hnew.domainTotal_eq, Finset.sum_filter_add_sum_filter_not, Weighing.total, hnew.servers_eq]

/-- Idle caps leave every domain under the cap, wherever the weights end up. -/
theorem CapsIdle.capFree (hnew : NoNewcomer old preds) (h : CapsIdle old preds) (load : ℝ) :
    CapFree old preds load := by
  intro d
  set W := entering ScoreboardConfig.default old preds load with hW
  -- the domain at its highest, the others at their lowest
  have hin : W.domainTotal d ≤
      ∑ s ∈ old.keys with domainOf old s = some d, highest old preds s := by
    rw [hW, hnew.domainTotal_eq]
    exact Finset.sum_le_sum fun s hs => (entering_mem (Finset.mem_filter.mp hs).1).2
  have hout : ∑ s ∈ old.keys with domainOf old s ≠ some d, lowest old preds s ≤
      ∑ s ∈ old.keys with domainOf old s ≠ some d, W.weight s :=
    Finset.sum_le_sum fun s hs => (entering_mem (Finset.mem_filter.mp hs).1).1
  have hsplit := hnew.total_eq_add load d
  have hd := h d
  norm_num at hd ⊢
  linarith

/-- With idle caps and an idle floor a server is published with its share of what enters. -/
theorem weightOf_nextMap_idle (hold : WeightsNonneg old) (hnew : NoNewcomer old preds)
    (hcaps : CapsIdle old preds) (hfloor : FloorIdle old preds) (hs : s ∈ old.keys) :
    weightOf (nextMap ScoreboardConfig.default old preds load now) s =
      (entering ScoreboardConfig.default old preds load).weight s /
        (entering ScoreboardConfig.default old preds load).total := by
  refine weightOf_nextMap_capFree hold (hcaps.capFree hnew load) (fun t ht => ?_) now
    (hnew.servers_eq ▸ hs)
  rw [hnew.servers_eq] at ht
  rw [← ScoreboardConfig.default_minWeight]
  exact (hfloor t ht).trans (entering_mem ht).1

/-- In one domain the cap cancels out, as long as it takes nobody below the floor. -/
theorem weightOf_nextMap_single (hold : WeightsNonneg old) (hnew : NoNewcomer old preds)
    (hone : InOneDomain old d) (hfar : ∀ t ∈ old.keys, ScoreboardConfig.default.minWeight ≤
      ScoreboardConfig.default.domainCapacityFraction * lowest old preds t) (hs : s ∈ old.keys) :
    weightOf (nextMap ScoreboardConfig.default old preds load now) s =
      (entering ScoreboardConfig.default old preds load).weight s /
        (entering ScoreboardConfig.default old preds load).total := by
  set W := entering ScoreboardConfig.default old preds load with hW
  have hservers : W.servers = old.keys := hnew.servers_eq
  have hlow : ∀ t ∈ old.keys, ScoreboardConfig.default.minWeight ≤
      ScoreboardConfig.default.domainCapacityFraction * W.weight t := by
    intro t ht
    refine (hfar t ht).trans ?_
    rw [ScoreboardConfig.default_domainCapacityFraction]
    gcongr
    exact (entering_mem ht).1
  have hT : 0 < W.total := by
    rw [Weighing.total, hservers]
    refine Finset.sum_pos (fun t ht => ?_) ⟨s, hs⟩
    have := hlow t ht
    norm_num at this
    linarith
  -- everybody is scaled by the cap, and nobody needs the floor
  have hfloored : ∀ t ∈ W.servers, W.floored ScoreboardConfig.default t =
      ScoreboardConfig.default.domainCapacityFraction * W.weight t := by
    intro t ht
    have hdom : ∀ t ∈ W.servers, W.domain t = d := by
      intro t ht
      rw [hservers] at ht
      obtain ⟨sc, hsc⟩ := Finmap.exists_lookup_of_mem_keys ht
      rw [hW, entering_domain_iff ht, domainOf_of_lookup hsc, hone t sc hsc]
    rw [Weighing.floored, Weighing.capped, hdom t ht,
      Weighing.capFactor_single (by norm_num) hT hdom, mul_comm]
    exact max_eq_left (hlow t (hservers ▸ ht))
  rw [weightOf_nextMap_eq ScoreboardConfig.default_valid (by norm_num) hold (hservers ▸ hs),
    ← hW, hfloored s (hservers ▸ hs), Weighing.flooredTotal, Finset.sum_congr rfl hfloored,
    ← Finset.mul_sum]
  exact mul_div_mul_left _ _ (by norm_num)

end Idle

end ScalableBooking.RouterCore
