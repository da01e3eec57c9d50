import ScalableBooking.RouterCore.Passes

/-!
# Boards with a single failure domain

`ProxyState::new` registers every backend in `DomainId(0)`, and `update_scores` puts a new
server there too. On such a board the one domain always carries the whole weight, so the
caps pass scales everybody by the cap itself and the floored weight of a server is
`max (cap * w) min_weight`, `w` its rebuilt weight (`weightOf_flooredMap_oneDomain`).
Without the floor the cap drops out altogether (`weightOf_nextMap_oneDomain`).
-/

namespace ScalableBooking.RouterCore

variable {cfg : ScoreboardConfig} {m old : ScoreMap} {preds : Predictions} {load : ℝ}
  {now : Instant} {s : ServerId} {d : DomainId}

/-- Every server of the board is in the domain `d`. -/
def InOneDomain (m : ScoreMap) (d : DomainId) : Prop :=
  ∀ s sc, m.lookup s = some sc → sc.domain = d

theorem InOneDomain.domainWeight_eq (h : InOneDomain m d) :
    domainWeight m d = totalWeight m := by
  rw [domainWeight_eq_sum, totalWeight_eq_sum, Finset.filter_true_of_mem]
  -- every member of the board is a member of the domain
  intro s hs
  obtain ⟨sc, hsc⟩ := Finmap.exists_lookup_of_mem_keys hs
  rw [domainOf_of_lookup hsc, h s sc hsc]

/-- The whole weight is above a cap below one, and the pass scales by the cap. -/
theorem InOneDomain.capScale_eq (h : InOneDomain m d) (hcap : cfg.domainCapacityFraction < 1)
    (hT : 0 < totalWeight m) : capScale cfg m d = cfg.domainCapacityFraction := by
  rw [capScale, h.domainWeight_eq, div_self hT.ne', if_pos hcap, mul_div_cancel_right₀ _ hT.ne']

theorem InOneDomain.weightOf_applyDomainCaps (h : InOneDomain m d)
    (hcap : cfg.domainCapacityFraction < 1) (hT : 0 < totalWeight m) (hs : s ∈ m.keys) :
    weightOf (applyDomainCaps cfg m) s = cfg.domainCapacityFraction * weightOf m s := by
  obtain ⟨sc, hsc⟩ := Finmap.exists_lookup_of_mem_keys hs
  rw [RouterCore.weightOf_applyDomainCaps hT hsc, h s sc hsc, h.capScale_eq hcap hT, mul_comm]

/-- Refreshed and kept servers stay where they are, inserted ones land in domain `0`. -/
theorem InOneDomain.rebuildMap (h : InOneDomain old ⟨0⟩) :
    InOneDomain (rebuildMap cfg old preds load now) ⟨0⟩ := by
  intro s sc hs
  obtain ⟨sc₀, pred, h₀, -, rfl⟩ | ⟨h₀, -⟩ | ⟨pred, -, -, rfl⟩ := lookup_rebuildMap_cases hs
  · exact h s sc₀ h₀
  · exact h s sc h₀
  · rfl

theorem InOneDomain.nextMap (h : InOneDomain old ⟨0⟩) :
    InOneDomain (nextMap cfg old preds load now) ⟨0⟩ := by
  intro s sc hs
  obtain ⟨sc₀, h₀, hw⟩ := exists_lookup_nextMap hs
  rw [hw]
  exact h.rebuildMap s sc₀ h₀

/-! ### The board of a proxy -/

/-- The servers `ProxyState::new` makes for `n` backends. -/
def backendIds (n : ℕ) : List ServerId := (List.range n).map ServerId.mk

theorem length_backendIds (n : ℕ) : (backendIds n).length = n := by
  rw [backendIds, List.length_map, List.length_range]

theorem nodup_backendIds (n : ℕ) : (backendIds n).Nodup :=
  List.nodup_range.map fun _ _ h => congrArg ServerId.id h

/-- A pool registered in domain `0`. -/
def inDomainZero (pool : List ServerId) : List (ServerId × DomainId) :=
  pool.map fun s => (s, ⟨0⟩)

/-- The board `ProxyState::new` makes for a pool. -/
noncomputable def poolBoard (pool : List ServerId) (created : ℕ → Instant) : Scoreboard :=
  Scoreboard.withServers (inDomainZero pool) ScoreboardConfig.default created

section PoolBoard

variable {pool : List ServerId}

theorem inOneDomain_poolBoard (pool : List ServerId) (created : ℕ → Instant) :
    InOneDomain (poolBoard pool created).inner ⟨0⟩ := by
  intro s sc hs
  obtain ⟨d, i, hd, rfl⟩ := lookup_withServers hs
  obtain ⟨t, -, ht⟩ := List.mem_map.mp hd
  -- what `inDomainZero` registers, it registers in domain `0`
  exact (congrArg Prod.snd ht).symm

theorem keys_poolBoard (pool : List ServerId) (created : ℕ → Instant) :
    (poolBoard pool created).inner.keys = pool.toFinset := by
  ext s
  rw [Finmap.mem_keys, poolBoard, mem_withServers, inDomainZero, List.map_map,
    List.mem_toFinset]
  simp

/-- Every server of the pool starts neutral, with an equal share. -/
theorem lookup_poolBoard (created : ℕ → Instant) (hs : s ∈ pool) :
    ∃ i, (poolBoard pool created).inner.lookup s = some
      { ServerScore.new ⟨0⟩ (created i) with weight := 1 / (pool.length : ℝ) } := by
  have hmem : s ∈ (inDomainZero pool).map Prod.fst := by
    rw [inDomainZero, List.map_map]
    simpa using hs
  obtain ⟨d, i, hd, hlookup⟩ := exists_lookup_withServers ScoreboardConfig.default created hmem
  obtain ⟨t, -, ht⟩ := List.mem_map.mp hd
  obtain rfl : (⟨0⟩ : DomainId) = d := congrArg Prod.snd ht
  have hlen : (0 : ℝ) < (inDomainZero pool).length := by
    rw [inDomainZero, List.length_map]
    exact_mod_cast List.length_pos_of_mem hs
  refine ⟨i, ?_⟩
  rw [poolBoard, hlookup, Scoreboard.initialWeight, if_pos hlen, inDomainZero, List.length_map]

theorem weightOf_poolBoard (created : ℕ → Instant) (hs : s ∈ pool) :
    weightOf (poolBoard pool created).inner s = 1 / (pool.length : ℝ) := by
  obtain ⟨i, hi⟩ := lookup_poolBoard created hs
  rw [weightOf_of_lookup hi]

end PoolBoard

/-! ### Published weights -/

/-- Floored weights on a board with one domain. -/
theorem weightOf_flooredMap_oneDomain (h : InOneDomain old ⟨0⟩)
    (hcap : cfg.domainCapacityFraction < 1)
    (hT : 0 < totalWeight (rebuildMap cfg old preds load now)) (hs : s ∈ old.keys ∪ preds.keys) :
    weightOf (flooredMap cfg old preds load now) s =
      max (cfg.domainCapacityFraction * weightOf (rebuildMap cfg old preds load now) s)
        cfg.minWeight := by
  rw [← keys_rebuildMap cfg old preds load now] at hs
  have hs' : s ∈ (applyDomainCaps cfg (rebuildMap cfg old preds load now)).keys := by
    rwa [(isReweighing_applyDomainCaps cfg _).keys_eq]
  rw [flooredMap, weightOf_applyFloor hs', h.rebuildMap.weightOf_applyDomainCaps hcap hT hs]

/-- Where the floor lifts nobody, the cap cancels out against the normalisation and a
server is published with its share of the rebuilt weight. -/
theorem weightOf_nextMap_oneDomain (h : InOneDomain old ⟨0⟩)
    (hcap₀ : 0 < cfg.domainCapacityFraction) (hcap₁ : cfg.domainCapacityFraction < 1)
    (hT : 0 < totalWeight (rebuildMap cfg old preds load now))
    (hfloor : ∀ s ∈ old.keys ∪ preds.keys, cfg.minWeight ≤
      cfg.domainCapacityFraction * weightOf (rebuildMap cfg old preds load now) s)
    (hs : s ∈ old.keys ∪ preds.keys) :
    weightOf (RouterCore.nextMap cfg old preds load now) s =
      weightOf (rebuildMap cfg old preds load now) s /
        totalWeight (rebuildMap cfg old preds load now) := by
  -- nobody is lifted, so the floored weights are the rebuilt ones times the cap
  have hz : ∀ t ∈ old.keys ∪ preds.keys,
      weightOf (flooredMap cfg old preds load now) t =
        cfg.domainCapacityFraction * weightOf (rebuildMap cfg old preds load now) t := by
    intro t ht
    rw [weightOf_flooredMap_oneDomain h hcap₁ hT ht, max_eq_left (hfloor t ht)]
  -- and so is their sum
  have hZ : totalWeight (flooredMap cfg old preds load now) =
      cfg.domainCapacityFraction * totalWeight (rebuildMap cfg old preds load now) := by
    rw [totalWeight_eq_sum, keys_flooredMap, totalWeight_eq_sum, keys_rebuildMap,
      Finset.mul_sum]
    exact Finset.sum_congr rfl hz
  have hZ₀ : 0 < totalWeight (flooredMap cfg old preds load now) := by
    rw [hZ]
    exact mul_pos hcap₀ hT
  rw [nextMap_eq, weightOf_normalizeWeights hZ₀, hz s hs, hZ,
    mul_div_mul_left _ _ hcap₀.ne']

end ScalableBooking.RouterCore
