import ScalableBooking.RouterCore.Passes

/-!
# What goes into the passes over the whole board

Whether a bound survives the caps, the floor and the division depends on all servers at once.
The conditions that say so are about the inputs of an update: `entering` gives every server
the weight it enters these passes with, by the formula of its own old entry, its prediction
and the load, and the domain it is in.

A `Weighing` is what the passes look at. `capped`, `floored` and `flooredTotal` follow one
weight through them up to the division, and `weighing_rebuildMap` ties the inputs to the map
that `update_scores` works on.
-/

namespace ScalableBooking.RouterCore

/-- Servers with a weight each, in failure domains. -/
structure Weighing where
  servers : Finset ServerId
  weight : ServerId → ℝ
  domain : ServerId → DomainId

namespace Weighing

variable (W : Weighing) (cfg : ScoreboardConfig)

/-- The weight of all servers. -/
noncomputable def total : ℝ := ∑ s ∈ W.servers, W.weight s

/-- The weight of one domain. -/
noncomputable def domainTotal (d : DomainId) : ℝ :=
  ∑ s ∈ W.servers with W.domain s = d, W.weight s

/-- The factor that takes a domain above the cap down to it. -/
noncomputable def capFactor (d : DomainId) : ℝ :=
  if cfg.domainCapacityFraction < W.domainTotal d / W.total then
    cfg.domainCapacityFraction * W.total / W.domainTotal d
  else 1

/-- A weight after the caps. -/
noncomputable def capped (s : ServerId) : ℝ := W.weight s * W.capFactor cfg (W.domain s)

/-- A weight after the caps and the floor. -/
noncomputable def floored (s : ServerId) : ℝ := max (W.capped cfg s) cfg.minWeight

/-- The sum that normalisation divides by. -/
noncomputable def flooredTotal : ℝ := ∑ s ∈ W.servers, W.floored cfg s

end Weighing

/-! ### The inputs of an update -/

/-- The weight a server enters with: smoothed towards the raw weight of its prediction and
clamped, the old one without a prediction, the raw one without an old entry. -/
noncomputable def enteringWeight (cfg : ScoreboardConfig) (load : ℝ) :
    Option ServerScore → Option ServerPrediction → ℝ
  | some sc, some pred =>
    shiftWeight cfg (smoothingFactor cfg load)
      (rawWeight (effectiveRisk cfg pred) (nextHealth cfg sc.healthScore pred)) sc.weight
  | some sc, none => sc.weight
  | none, some pred => rawWeight (effectiveRisk cfg pred) (clamp pred.errorRate 0 1)
  | none, none => 0

/-- The servers of the old board and of the predictions with the weights they enter with. A
server without an entry is in domain `0`. -/
noncomputable def entering (cfg : ScoreboardConfig) (old : ScoreMap) (preds : Predictions)
    (load : ℝ) : Weighing where
  servers := old.keys ∪ preds.keys
  weight s := enteringWeight cfg load (old.lookup s) (preds.lookup s)
  domain s := (old.lookup s).elim ⟨0⟩ ServerScore.domain

variable {cfg : ScoreboardConfig} {m old : ScoreMap} {preds : Predictions} {load : ℝ}
  {now : Instant} {s : ServerId} {d : DomainId} {sc : ServerScore}

/-! ### The board as the passes see it -/

/-- What the passes look at on a board. -/
noncomputable def weighing (m : ScoreMap) : Weighing where
  servers := m.keys
  weight := weightOf m
  domain s := (m.lookup s).elim ⟨0⟩ ServerScore.domain

theorem weighing_domain_of_lookup (h : m.lookup s = some sc) :
    (weighing m).domain s = sc.domain := by
  simp only [weighing, h, Option.elim_some]

theorem weighing_domain_eq_iff (hs : s ∈ m.keys) :
    (weighing m).domain s = d ↔ domainOf m s = some d := by
  -- on the board the default domain is never used
  obtain ⟨sc, hsc⟩ := Finmap.exists_lookup_of_mem_keys hs
  rw [weighing_domain_of_lookup hsc, domainOf_of_lookup hsc, Option.some.injEq]

theorem total_weighing (m : ScoreMap) : (weighing m).total = totalWeight m := rfl

theorem domainTotal_weighing (m : ScoreMap) (d : DomainId) :
    (weighing m).domainTotal d = domainWeight m d := by
  rw [domainWeight_eq_sum]
  show ∑ s ∈ m.keys with (weighing m).domain s = d, weightOf m s = _
  rw [Finset.filter_congr fun s hs => weighing_domain_eq_iff hs]

theorem capFactor_weighing (cfg : ScoreboardConfig) (m : ScoreMap) (d : DomainId) :
    (weighing m).capFactor cfg d = capScale cfg m d := by
  rw [Weighing.capFactor, capScale, domainTotal_weighing, total_weighing]

/-- The rebuilt map is what enters. -/
theorem weighing_rebuildMap (cfg : ScoreboardConfig) (old : ScoreMap) (preds : Predictions)
    (load : ℝ) (now : Instant) :
    weighing (rebuildMap cfg old preds load now) = entering cfg old preds load := by
  -- server by server: the four ways an old entry and a prediction can be there or not
  have hlookup : ∀ s, weightOf (rebuildMap cfg old preds load now) s =
      enteringWeight cfg load (old.lookup s) (preds.lookup s) ∧
      ((rebuildMap cfg old preds load now).lookup s).elim ⟨0⟩ ServerScore.domain =
        (old.lookup s).elim (⟨0⟩ : DomainId) ServerScore.domain := by
    intro s
    cases hold : old.lookup s with
    | some sc =>
      cases hp : preds.lookup s with
      | some pred =>
        have h : (rebuildMap cfg old preds load now).lookup s = _ :=
          lookup_rebuildMap_refreshed hold hp
        rw [weightOf_of_lookup h, h]
        exact ⟨rfl, rfl⟩
      | none =>
        have h : (rebuildMap cfg old preds load now).lookup s = _ :=
          lookup_rebuildMap_kept hold hp
        rw [weightOf_of_lookup h, h]
        exact ⟨rfl, rfl⟩
    | none =>
      cases hp : preds.lookup s with
      | some pred =>
        have h : (rebuildMap cfg old preds load now).lookup s = _ :=
          lookup_rebuildMap_inserted hold hp
        rw [weightOf_of_lookup h, h]
        exact ⟨rfl, rfl⟩
      | none =>
        -- neither entry nor prediction, so not on the board
        have hs : s ∉ rebuildMap cfg old preds load now := by
          rw [← Finmap.mem_keys, keys_rebuildMap, Finset.mem_union, Finmap.mem_keys,
            Finmap.mem_keys, ← Finmap.lookup_isSome, ← Finmap.lookup_isSome, hold, hp]
          simp
        rw [weightOf, Finmap.readD_of_notMem hs, Finmap.lookup_eq_none.mpr hs]
        exact ⟨rfl, rfl⟩
  unfold weighing entering
  rw [keys_rebuildMap]
  congr 1
  · ext s
    exact (hlookup s).1
  · ext s
    rw [(hlookup s).2]

/-! ### Through the passes -/

theorem weightOf_applyDomainCaps_eq (hcap : 0 ≤ cfg.domainCapacityFraction)
    (hT : 0 ≤ totalWeight m) (hs : s ∈ m.keys) :
    weightOf (applyDomainCaps cfg m) s = (weighing m).capped cfg s := by
  obtain ⟨sc, hsc⟩ := Finmap.exists_lookup_of_mem_keys hs
  rw [Weighing.capped, weighing_domain_of_lookup hsc, capFactor_weighing]
  show _ = weightOf m s * _
  rcases hT.eq_or_lt with hT | hT
  · -- the pass returns early, and no share is above the cap
    rw [applyDomainCaps_of_nonpos hT.ge, capScale, ← hT, div_zero, if_neg hcap.not_gt, mul_one]
  · rw [weightOf_applyDomainCaps hT hsc]

theorem weightOf_floored (hcap : 0 ≤ cfg.domainCapacityFraction) (hT : 0 ≤ totalWeight m)
    (hs : s ∈ m.keys) :
    weightOf (applyFloor cfg (applyDomainCaps cfg m)) s = (weighing m).floored cfg s := by
  -- the caps pass drops nobody
  have hs' : s ∈ (applyDomainCaps cfg m).keys := by
    rwa [(isReweighing_applyDomainCaps cfg m).keys_eq]
  rw [weightOf_applyFloor hs', weightOf_applyDomainCaps_eq hcap hT hs, Weighing.floored]

theorem totalWeight_floored_eq (hcap : 0 ≤ cfg.domainCapacityFraction)
    (hT : 0 ≤ totalWeight m) :
    totalWeight (applyFloor cfg (applyDomainCaps cfg m)) = (weighing m).flooredTotal cfg := by
  -- one sum over one key set, summand by summand
  rw [totalWeight_eq_sum, (isReweighing_applyFloor cfg _).keys_eq,
    (isReweighing_applyDomainCaps cfg m).keys_eq]
  exact Finset.sum_congr rfl fun s hs => weightOf_floored hcap hT hs

end ScalableBooking.RouterCore
