import Mathlib.Algebra.BigOperators.Field
import ScalableBooking.RouterCore.Scoreboard

/-!
# What each pass of an update does

One specification lemma for every pass of `nextMap`, so that no later proof unfolds a pass.

The weights: `applyDomainCaps` multiplies by `capScale`, `applyFloor` takes the maximum with
the floor, `normalizeWeights` divides by the total. Everything else: the three passes are
reweighings (`IsReweighing`), so an entry of the published map is the rebuilt entry with
another weight (`exists_lookup_nextMap`), and the key set is the old one together with the
predicted servers (`keys_nextMap`).

The last section reads `updateScores` under a valid configuration: none of its clamps can
panic, so it always returns, and what it stores is `nextMap`.
-/

namespace ScalableBooking.RouterCore

variable {cfg : ScoreboardConfig} {m m' m'' : ScoreMap} {s : ServerId} {sc : ServerScore}
  {d : DomainId}

/-! ### Reading weights -/

theorem weightOf_of_lookup (h : m.lookup s = some sc) : weightOf m s = sc.weight :=
  Finmap.readD_of_lookup h

theorem totalWeight_eq_sum (m : ScoreMap) : totalWeight m = ∑ s ∈ m.keys, weightOf m s := rfl

/-- The failure domain of a server on the board. -/
def domainOf (m : ScoreMap) (s : ServerId) : Option DomainId :=
  (m.lookup s).map ServerScore.domain

theorem domainOf_of_lookup (h : m.lookup s = some sc) : domainOf m s = some sc.domain := by
  rw [domainOf, h, Option.map_some]

/-- The weight of a domain is the sum over its members. -/
theorem domainWeight_eq_sum (m : ScoreMap) (d : DomainId) :
    domainWeight m d = ∑ s ∈ m.keys with domainOf m s = some d, weightOf m s := by
  rw [Finset.sum_filter]
  refine Finset.sum_congr rfl fun s hs => ?_
  -- on a key both readings are the one of its entry
  obtain ⟨sc, hsc⟩ := Finmap.exists_lookup_of_mem_keys hs
  rw [Finmap.readD_of_lookup hsc, domainOf_of_lookup hsc, weightOf_of_lookup hsc]
  simp only [Option.some.injEq]

/-! ### Reweighing -/

@[simp] theorem keys_reweigh (g : ServerScore → ℝ) (m : ScoreMap) :
    (reweigh g m).keys = m.keys :=
  Finmap.keys_mapWithKey _ _

@[simp] theorem lookup_reweigh (g : ServerScore → ℝ) (m : ScoreMap) (s : ServerId) :
    (reweigh g m).lookup s = (m.lookup s).map fun sc => { sc with weight := g sc } :=
  Finmap.lookup_mapWithKey _ _ _

theorem weightOf_reweigh {g : ServerScore → ℝ} (h : m.lookup s = some sc) :
    weightOf (reweigh g m) s = g sc := by
  refine weightOf_of_lookup (?_ : _ = some { sc with weight := g sc })
  rw [lookup_reweigh, h, Option.map_some]

@[simp] theorem domainOf_reweigh (g : ServerScore → ℝ) (m : ScoreMap) (s : ServerId) :
    domainOf (reweigh g m) s = domainOf m s := by
  unfold domainOf
  rw [lookup_reweigh, Option.map_map]
  rfl

/-- `m'` is `m` with other weights. -/
def IsReweighing (m m' : ScoreMap) : Prop := ∃ g, m' = reweigh g m

theorem IsReweighing.refl (m : ScoreMap) : IsReweighing m m := by
  refine ⟨ServerScore.weight, Finmap.ext_lookup fun s => ?_⟩
  rw [lookup_reweigh]
  cases m.lookup s <;> rfl

theorem IsReweighing.trans (h : IsReweighing m m') (h' : IsReweighing m' m'') :
    IsReweighing m m'' := by
  obtain ⟨g, rfl⟩ := h
  obtain ⟨g', rfl⟩ := h'
  refine ⟨fun sc => g' { sc with weight := g sc }, Finmap.ext_lookup fun s => ?_⟩
  rw [lookup_reweigh, lookup_reweigh, lookup_reweigh, Option.map_map]
  rfl

theorem IsReweighing.keys_eq (h : IsReweighing m m') : m'.keys = m.keys := by
  obtain ⟨g, rfl⟩ := h
  exact keys_reweigh g m

theorem IsReweighing.domainOf_eq (h : IsReweighing m m') (s : ServerId) :
    domainOf m' s = domainOf m s := by
  obtain ⟨g, rfl⟩ := h
  exact domainOf_reweigh g m s

/-- An entry of a reweighing is an entry of the original with another weight. -/
theorem IsReweighing.exists_lookup (h : IsReweighing m m') (hs : m'.lookup s = some sc) :
    ∃ sc₀, m.lookup s = some sc₀ ∧ sc = { sc₀ with weight := sc.weight } := by
  obtain ⟨g, rfl⟩ := h
  rw [lookup_reweigh, Option.map_eq_some_iff] at hs
  obtain ⟨sc₀, h₀, rfl⟩ := hs
  exact ⟨sc₀, h₀, rfl⟩

/-! ### The initial board -/

/-- What `with_servers` puts on the board. -/
theorem lookup_withServers {serverDomains : List (ServerId × DomainId)} {created : ℕ → Instant}
    (h : (Scoreboard.withServers serverDomains cfg created).inner.lookup s = some sc) :
    ∃ d i, (s, d) ∈ serverDomains ∧ sc =
      { ServerScore.new d (created i) with
        weight := Scoreboard.initialWeight serverDomains } := by
  obtain ⟨⟨⟨s', d⟩, i⟩, he, rfl, rfl⟩ | h₀ := Finmap.exists_of_lookup_insertAll h
  · exact ⟨d, i, List.fst_mem_of_mem_zipIdx he, rfl⟩
  · -- the map starts empty
    rw [Finmap.lookup_empty] at h₀
    exact absurd h₀ (by simp)

theorem mem_withServers {serverDomains : List (ServerId × DomainId)} {created : ℕ → Instant} :
    s ∈ (Scoreboard.withServers serverDomains cfg created).inner ↔
      s ∈ serverDomains.map Prod.fst := by
  show s ∈ Finmap.insertAll _ _ _ _ ↔ _
  -- the index only carries the clock, the keys are the registered ids
  have hkeys : serverDomains.zipIdx.map (fun e => e.1.1) = serverDomains.map Prod.fst := by
    conv_rhs => rw [← List.zipIdx_map_fst 0 serverDomains, List.map_map]
    rfl
  rw [Finmap.mem_insertAll, hkeys]
  simp only [Finmap.notMem_empty, or_false]

/-- A registered server is on the initial board: neutral, with the initial weight, in one
of the domains it was registered with. -/
theorem exists_lookup_withServers {serverDomains : List (ServerId × DomainId)}
    (cfg : ScoreboardConfig) (created : ℕ → Instant) (h : s ∈ serverDomains.map Prod.fst) :
    ∃ d i, (s, d) ∈ serverDomains ∧
      (Scoreboard.withServers serverDomains cfg created).inner.lookup s = some
        { ServerScore.new d (created i) with
          weight := Scoreboard.initialWeight serverDomains } := by
  obtain ⟨sc, hsc⟩ := Finmap.mem_iff.mp (mem_withServers.mpr h)
  obtain ⟨d, i, hd, rfl⟩ := lookup_withServers hsc
  exact ⟨d, i, hd, hsc⟩

/-- With distinct ids a server is in the one domain it was registered with. -/
theorem lookup_withServers_of_nodup {serverDomains : List (ServerId × DomainId)}
    (cfg : ScoreboardConfig) (created : ℕ → Instant) (hnd : (serverDomains.map Prod.fst).Nodup)
    (h : (s, d) ∈ serverDomains) :
    ∃ i, (Scoreboard.withServers serverDomains cfg created).inner.lookup s = some
      { ServerScore.new d (created i) with
        weight := Scoreboard.initialWeight serverDomains } := by
  have hmem : s ∈ serverDomains.map Prod.fst := List.mem_map.mpr ⟨(s, d), h, rfl⟩
  obtain ⟨d', i, hd', hs⟩ := exists_lookup_withServers cfg created hmem
  -- with distinct ids the registration that was found is the one asked for
  have hd : (s, d') = (s, d) := List.inj_on_of_nodup_map hnd hd' h rfl
  obtain rfl : d' = d := congrArg Prod.snd hd
  exact ⟨i, hs⟩

/-! ### The domain caps -/

/-- The factor by which the caps pass scales the members of `d`. -/
noncomputable def capScale (cfg : ScoreboardConfig) (m : ScoreMap) (d : DomainId) : ℝ :=
  if cfg.domainCapacityFraction < domainWeight m d / totalWeight m then
    cfg.domainCapacityFraction * totalWeight m / domainWeight m d
  else 1

theorem isReweighing_applyDomainCaps (cfg : ScoreboardConfig) (m : ScoreMap) :
    IsReweighing m (applyDomainCaps cfg m) := by
  unfold applyDomainCaps
  split
  · exact IsReweighing.refl m
  · exact ⟨_, rfl⟩

theorem weightOf_applyDomainCaps (hT : 0 < totalWeight m) (h : m.lookup s = some sc) :
    weightOf (applyDomainCaps cfg m) s = weightOf m s * capScale cfg m sc.domain := by
  rw [applyDomainCaps, if_neg hT.not_ge, weightOf_reweigh h, weightOf_of_lookup h, capScale]
  split
  · rfl
  · rw [mul_one]

theorem applyDomainCaps_of_nonpos (hT : totalWeight m ≤ 0) : applyDomainCaps cfg m = m :=
  if_pos hT

/-- With a positive total the pass only ever scales by a non-negative factor: the branch
is taken where the domain's own weight is positive. -/
theorem capScale_nonneg (hcap : 0 ≤ cfg.domainCapacityFraction) (hT : 0 < totalWeight m)
    (d : DomainId) : 0 ≤ capScale cfg m d := by
  unfold capScale
  split
  · -- above a non-negative cap the domain has some weight
    next hover =>
    have hd : 0 < domainWeight m d := by
      have := hcap.trans_lt hover
      rwa [lt_div_iff₀ hT, zero_mul] at this
    positivity
  · exact zero_le_one

/-! ### The floor -/

theorem isReweighing_applyFloor (cfg : ScoreboardConfig) (m : ScoreMap) :
    IsReweighing m (applyFloor cfg m) := ⟨_, rfl⟩

theorem weightOf_applyFloor (hs : s ∈ m.keys) :
    weightOf (applyFloor cfg m) s = max (weightOf m s) cfg.minWeight := by
  obtain ⟨sc, hsc⟩ := Finmap.exists_lookup_of_mem_keys hs
  rw [applyFloor, weightOf_reweigh hsc, weightOf_of_lookup hsc]
  split
  · next h => exact (max_eq_right h.le).symm
  · next h => exact (max_eq_left (not_lt.mp h)).symm

/-! ### Normalisation -/

theorem isReweighing_normalizeWeights (m : ScoreMap) :
    IsReweighing m (normalizeWeights m) := by
  unfold normalizeWeights
  split
  · exact ⟨_, rfl⟩
  · exact IsReweighing.refl m

theorem weightOf_normalizeWeights (hT : 0 < totalWeight m) (s : ServerId) :
    weightOf (normalizeWeights m) s = weightOf m s / totalWeight m := by
  by_cases hs : s ∈ m
  · obtain ⟨sc, hsc⟩ := Finmap.mem_iff.mp hs
    rw [normalizeWeights, if_pos hT, weightOf_reweigh hsc, weightOf_of_lookup hsc]
  · -- off the board both sides read zero
    have hs' : s ∉ normalizeWeights m := by
      rwa [← Finmap.mem_keys, (isReweighing_normalizeWeights m).keys_eq, Finmap.mem_keys]
    unfold weightOf
    rw [Finmap.readD_of_notMem hs, Finmap.readD_of_notMem hs', zero_div]

/-- Division by the total makes the weights sum to one. -/
theorem totalWeight_normalizeWeights (hT : 0 < totalWeight m) :
    totalWeight (normalizeWeights m) = 1 := by
  rw [totalWeight_eq_sum, (isReweighing_normalizeWeights m).keys_eq]
  calc ∑ s ∈ m.keys, weightOf (normalizeWeights m) s
      = ∑ s ∈ m.keys, weightOf m s / totalWeight m :=
        Finset.sum_congr rfl fun s _ => weightOf_normalizeWeights hT s
    _ = totalWeight m / totalWeight m := by rw [← Finset.sum_div, totalWeight_eq_sum]
    _ = 1 := div_self hT.ne'

/-! ### The rebuilt map -/

section Rebuild

variable {old : ScoreMap} {preds : Predictions} {pred : ServerPrediction} {load : ℝ}
  {now : Instant}

variable (cfg old preds load now) in
theorem keys_rebuildMap : (rebuildMap cfg old preds load now).keys = old.keys ∪ preds.keys := by
  rw [rebuildMap, Finmap.keys_union, Finmap.keys_mapWithKey, Finmap.keys_mapWithKey]

theorem lookup_rebuildMap_refreshed (h : old.lookup s = some sc) (hp : preds.lookup s = some pred) :
    (rebuildMap cfg old preds load now).lookup s =
      some (refreshScore cfg (smoothingFactor cfg load) now sc pred) := by
  rw [rebuildMap, Finmap.lookup_union, Finmap.lookup_mapWithKey, h, Option.map_some, hp,
    Option.some_or]

theorem lookup_rebuildMap_kept (h : old.lookup s = some sc) (hp : preds.lookup s = none) :
    (rebuildMap cfg old preds load now).lookup s = some sc := by
  rw [rebuildMap, Finmap.lookup_union, Finmap.lookup_mapWithKey, h, Option.map_some, hp,
    Option.some_or]

theorem lookup_rebuildMap_inserted (h : old.lookup s = none) (hp : preds.lookup s = some pred) :
    (rebuildMap cfg old preds load now).lookup s = some (insertedScore cfg now pred) := by
  rw [rebuildMap, Finmap.lookup_union, Finmap.lookup_mapWithKey, h, Option.map_none,
    Option.none_or, Finmap.lookup_mapWithKey, hp, Option.map_some]

/-- Without predictions the rebuild changes nothing. -/
theorem rebuildMap_empty : rebuildMap cfg old ∅ load now = old := by
  refine Finmap.ext_lookup fun s => ?_
  cases h : old.lookup s with
  | some sc => exact lookup_rebuildMap_kept h (Finmap.lookup_empty s)
  | none =>
    rw [Finmap.lookup_eq_none, ← Finmap.mem_keys, keys_rebuildMap, Finmap.keys_empty,
      Finset.union_empty, Finmap.mem_keys]
    exact Finmap.lookup_eq_none.mp h

/-- The three ways a server gets onto the rebuilt map. -/
theorem lookup_rebuildMap_cases (h : (rebuildMap cfg old preds load now).lookup s = some sc) :
    (∃ sc₀ pred, old.lookup s = some sc₀ ∧ preds.lookup s = some pred ∧
      sc = refreshScore cfg (smoothingFactor cfg load) now sc₀ pred) ∨
    (old.lookup s = some sc ∧ preds.lookup s = none) ∨
    (∃ pred, old.lookup s = none ∧ preds.lookup s = some pred ∧
      sc = insertedScore cfg now pred) := by
  cases hold : old.lookup s with
  | some sc₀ =>
    cases hp : preds.lookup s with
    | some pred =>
      rw [lookup_rebuildMap_refreshed hold hp, Option.some.injEq] at h
      exact Or.inl ⟨sc₀, pred, rfl, rfl, h.symm⟩
    | none =>
      rw [lookup_rebuildMap_kept hold hp] at h
      exact Or.inr (Or.inl ⟨h, rfl⟩)
  | none =>
    cases hp : preds.lookup s with
    | some pred =>
      rw [lookup_rebuildMap_inserted hold hp, Option.some.injEq] at h
      exact Or.inr (Or.inr ⟨pred, rfl, rfl, h.symm⟩)
    | none =>
      -- an entry out of nowhere: the key set forbids it
      have hs : s ∈ (rebuildMap cfg old preds load now).keys :=
        Finmap.mem_keys.mpr (Finmap.mem_of_lookup_eq_some h)
      rw [keys_rebuildMap, Finset.mem_union, Finmap.mem_keys, Finmap.mem_keys] at hs
      rw [Finmap.lookup_eq_none] at hold hp
      exact absurd hs (by tauto)

/-! ### The whole update -/

/-- The map as the floor pass leaves it, the last one before normalisation. -/
noncomputable def flooredMap (cfg : ScoreboardConfig) (old : ScoreMap) (preds : Predictions)
    (load : ℝ) (now : Instant) : ScoreMap :=
  applyFloor cfg (applyDomainCaps cfg (rebuildMap cfg old preds load now))

variable (cfg old preds load now) in
theorem nextMap_eq : nextMap cfg old preds load now =
    normalizeWeights (flooredMap cfg old preds load now) := rfl

theorem isReweighing_flooredMap :
    IsReweighing (rebuildMap cfg old preds load now) (flooredMap cfg old preds load now) :=
  (isReweighing_applyDomainCaps cfg _).trans (isReweighing_applyFloor cfg _)

theorem isReweighing_nextMap :
    IsReweighing (rebuildMap cfg old preds load now) (nextMap cfg old preds load now) :=
  isReweighing_flooredMap.trans (isReweighing_normalizeWeights _)

variable (cfg old preds load now) in
theorem keys_flooredMap : (flooredMap cfg old preds load now).keys = old.keys ∪ preds.keys := by
  rw [isReweighing_flooredMap.keys_eq, keys_rebuildMap]

variable (cfg old preds load now) in
/-- The server set is the old one together with the predicted servers. -/
theorem keys_nextMap : (nextMap cfg old preds load now).keys = old.keys ∪ preds.keys := by
  rw [isReweighing_nextMap.keys_eq, keys_rebuildMap]

/-- An entry of the published map is the rebuilt entry with another weight. -/
theorem exists_lookup_nextMap (h : (nextMap cfg old preds load now).lookup s = some sc) :
    ∃ sc₀, (rebuildMap cfg old preds load now).lookup s = some sc₀ ∧
      sc = { sc₀ with weight := sc.weight } :=
  isReweighing_nextMap.exists_lookup h

theorem minWeight_le_weightOf_flooredMap (hs : s ∈ old.keys ∪ preds.keys) :
    cfg.minWeight ≤ weightOf (flooredMap cfg old preds load now) s := by
  rw [← keys_rebuildMap cfg old preds load now,
    ← (isReweighing_applyDomainCaps cfg _).keys_eq] at hs
  rw [flooredMap, weightOf_applyFloor hs]
  exact le_max_right _ _

/-- With a positive floor, the total that normalisation divides by is positive. -/
theorem totalWeight_flooredMap_pos (hmin : 0 < cfg.minWeight)
    (hne : (old.keys ∪ preds.keys).Nonempty) :
    0 < totalWeight (flooredMap cfg old preds load now) := by
  rw [totalWeight_eq_sum, keys_flooredMap]
  exact Finset.sum_pos (fun s hs => hmin.trans_le (minWeight_le_weightOf_flooredMap hs)) hne

/-- The published weight is the floored one divided by the sum of all floored ones. -/
theorem weightOf_nextMap (hmin : 0 < cfg.minWeight) (hne : (old.keys ∪ preds.keys).Nonempty)
    (s : ServerId) :
    weightOf (nextMap cfg old preds load now) s =
      weightOf (flooredMap cfg old preds load now) s /
        totalWeight (flooredMap cfg old preds load now) := by
  rw [nextMap_eq, weightOf_normalizeWeights (totalWeight_flooredMap_pos hmin hne)]

end Rebuild

/-! ### Updates under a valid configuration -/

section Valid

variable {preds : Predictions} {load : ℝ} {now : Instant}

theorem ScoreboardConfig.Valid.maxDelta_nonneg (hcfg : cfg.Valid) (w : ℝ) :
    0 ≤ maxDelta cfg w :=
  mul_nonneg hcfg.maxShiftFraction_mem.1 (hcfg.minWeight_mem.1.trans (le_max_right _ _))

/-- The smoothing factor of a valid configuration is a fraction, whatever the load. -/
theorem smoothingFactor_mem (hcfg : cfg.Valid) (load : ℝ) :
    smoothingFactor cfg load ∈ Set.Icc (0 : ℝ) 1 :=
  ⟨hcfg.minAlpha_mem.1.trans (le_clamp _ hcfg.minAlpha_le_maxAlpha),
    (clamp_le _ _ _).trans hcfg.maxAlpha_mem.2⟩

theorem rawWeight_nonneg (r h : ℝ) : 0 ≤ rawWeight r h := by
  unfold rawWeight
  positivity

/-- No clamp of an update under a valid configuration can panic. -/
theorem ScoreboardConfig.Valid.clampsValid (hcfg : cfg.Valid) (old : ScoreMap)
    (preds : Predictions) : ClampsValid cfg old preds := by
  refine ⟨hcfg.minAlpha_le_maxAlpha, fun s sc _ _ => ?_⟩
  have := hcfg.maxDelta_nonneg sc.weight
  linarith

/-- Under a valid configuration `update_scores` returns, with `nextMap` stored. -/
theorem Scoreboard.updateScores_eq {sb : Scoreboard} (hcfg : sb.config.Valid) :
    sb.updateScores preds load now =
      some { sb with inner := nextMap sb.config sb.inner preds load now } :=
  if_pos (hcfg.clampsValid _ _)

/-- Both writers are one update with the predictions the call carries. -/
theorem Scoreboard.write_eq {sb : Scoreboard} (hcfg : sb.config.Valid) (call : WriterCall) :
    sb.write call = some { sb with
      inner := nextMap sb.config sb.inner call.predictions call.clusterLoad call.now } := by
  cases call with
  | updateScores newPredictions clusterLoad now => exact updateScores_eq hcfg
  | updateSingleServer server risk confidence now => exact updateScores_eq hcfg

theorem Scoreboard.writes_cons (sb : Scoreboard) (call : WriterCall) (calls : List WriterCall) :
    sb.writes (call :: calls) = (sb.write call).bind fun sb' => sb'.writes calls := rfl

/-- **The run rule for writers.** A property of the board that every call of the sequence
keeps holds after the sequence, and the sequence returns. -/
theorem Scoreboard.writes_induction {I : ScoreMap → Prop} {sb : Scoreboard}
    {calls : List WriterCall} (hcfg : sb.config.Valid) (h₀ : I sb.inner)
    (hstep : ∀ m, ∀ call ∈ calls, I m →
      I (nextMap sb.config m call.predictions call.clusterLoad call.now)) :
    ∃ sb', sb.writes calls = some sb' ∧ sb'.config = sb.config ∧ I sb'.inner := by
  induction calls generalizing sb with
  | nil => exact ⟨sb, rfl, rfl, h₀⟩
  | cons call calls ih =>
    -- the board after the first call, on which the rest of the run begins
    let sb₁ : Scoreboard := { sb with
      inner := nextMap sb.config sb.inner call.predictions call.clusterLoad call.now }
    have hI₁ : I sb₁.inner := hstep _ call List.mem_cons_self h₀
    have hstep₁ : ∀ m, ∀ c ∈ calls, I m →
        I (nextMap sb.config m c.predictions c.clusterLoad c.now) :=
      fun m c hc => hstep m c (List.mem_cons_of_mem call hc)
    obtain ⟨sb', hsb', hconf, hI⟩ := @ih sb₁ hcfg hI₁ hstep₁
    refine ⟨sb', ?_, hconf, hI⟩
    rw [writes_cons, write_eq hcfg, Option.bind_some, hsb']

/-- Every call of a run meets `P` on the board it finds, with the predictions it carries. -/
def Scoreboard.CallsMeet (P : ScoreMap → Predictions → Prop) :
    Scoreboard → List WriterCall → Prop
  | _, [] => True
  | sb, call :: calls =>
    P sb.inner call.predictions ∧ ∀ sb', sb.write call = some sb' → sb'.CallsMeet P calls

/-- **The run rule for calls that meet a condition.** If every such call keeps `I` and
establishes `Q`, then `I` holds after the run, and so does `Q` if there was a call. -/
theorem Scoreboard.writes_induction_of_callsMeet {P : ScoreMap → Predictions → Prop}
    {I Q : ScoreMap → Prop} {sb : Scoreboard} {calls : List WriterCall} (hcfg : sb.config.Valid)
    (h₀ : I sb.inner) (hrun : sb.CallsMeet P calls)
    (hstep : ∀ m preds load now, I m → P m preds →
      I (nextMap sb.config m preds load now) ∧ Q (nextMap sb.config m preds load now)) :
    ∃ sb', sb.writes calls = some sb' ∧ I sb'.inner ∧ (calls ≠ [] → Q sb'.inner) := by
  induction calls generalizing sb with
  | nil => exact ⟨sb, rfl, h₀, fun h => absurd rfl h⟩
  | cons call calls ih =>
    obtain ⟨hP, hrest⟩ := hrun
    let sb₁ : Scoreboard := { sb with
      inner := nextMap sb.config sb.inner call.predictions call.clusterLoad call.now }
    have hwrite : sb.write call = some sb₁ := write_eq hcfg call
    obtain ⟨hI₁, hQ₁⟩ : I sb₁.inner ∧ Q sb₁.inner := hstep _ _ call.clusterLoad call.now h₀ hP
    obtain ⟨sb', hsb', hI, hQ⟩ := @ih sb₁ hcfg hI₁ (hrest sb₁ hwrite) hstep
    refine ⟨sb', ?_, hI, fun _ => ?_⟩
    · rw [writes_cons, hwrite, Option.bind_some, hsb']
    · -- without further calls the board is the one after this call
      cases calls with
      | nil =>
        obtain rfl := Option.some.inj hsb'
        exact hQ₁
      | cons _ _ => exact hQ (List.cons_ne_nil _ _)

end Valid

end ScalableBooking.RouterCore
