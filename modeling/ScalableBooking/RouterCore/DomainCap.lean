import ScalableBooking.RouterCore.Moves

/-!
# The domain capacity cap in the published map

`apply_domain_caps` brings every domain above the cap down to `cap * total`, where `total`
is the weight *before* the pass. Its docstring announces that the excess is redistributed;
the code throws it away. The total shrinks, and after normalisation a domain that was
scaled "exactly to the cap" is above it.

The accounting is by domain: the pass cuts `capExcess` off the board, the floor adds back
`floorLift` to a domain, and a domain below the cap has `capRoom` left. The cap holds iff the
weight the floor happens to add makes up for the weight that was cut
(`domainWeight_nextMap_le_iff`). Where the floor lifts nobody this means that no domain was
above the cap in the first place (`capRedistributed_of_no_lift`).

From the board and the predictions alone, this is settled where the ranges of the weights
settle it (`published_domainWeight_le`): if no domain can get above the cap and no weight below
the floor, the cap is met, and if a domain cannot help being above the cap, it is not.
-/

namespace ScalableBooking.RouterCore

variable {cfg : ScoreboardConfig} {m old : ScoreMap} {preds : Predictions} {load : ℝ}
  {now : Instant} {s : ServerId} {d : DomainId}

/-! ### The accounts of one update -/

/-- The failure domains on the board. -/
def domains (m : ScoreMap) : Finset DomainId :=
  m.keys.biUnion fun s => (domainOf m s).toFinset

section Accounts

variable (cfg : ScoreboardConfig) (W : Weighing)

/-- The weight the caps pass cuts off: what every domain has above the cap. -/
noncomputable def capExcess : ℝ :=
  ∑ d ∈ W.servers.image W.domain, max (W.domainTotal d - cfg.domainCapacityFraction * W.total) 0

/-- What a domain has left under the cap. -/
noncomputable def capRoom (d : DomainId) : ℝ :=
  max (cfg.domainCapacityFraction * W.total - W.domainTotal d) 0

/-- How far the floor lifts one server, after the caps. -/
noncomputable def serverLift (s : ServerId) : ℝ := max (cfg.minWeight - W.capped cfg s) 0

/-- How much the floor adds to one domain. -/
noncomputable def floorLift (d : DomainId) : ℝ :=
  ∑ s ∈ W.servers with W.domain s = d, serverLift cfg W s

/-- How much the floor adds to the whole board. -/
noncomputable def totalLift : ℝ := ∑ s ∈ W.servers, serverLift cfg W s

/-- The floor gives the domain room for what the caps cut off. -/
def CapRedistributed (d : DomainId) : Prop :=
  floorLift cfg W d + cfg.domainCapacityFraction * capExcess cfg W ≤
    cfg.domainCapacityFraction * totalLift cfg W + capRoom cfg W d

end Accounts

/-! ### Sums over domains -/

theorem mem_domains_of_lookup {sc : ServerScore} (h : m.lookup s = some sc) :
    sc.domain ∈ domains m := by
  refine Finset.mem_biUnion.mpr ⟨s, Finmap.mem_keys.mpr (Finmap.mem_of_lookup_eq_some h), ?_⟩
  rw [domainOf_of_lookup h, Option.toFinset_some, Finset.mem_singleton]

theorem totalWeight_eq_sum_domains (m : ScoreMap) :
    totalWeight m = ∑ d ∈ domains m, domainWeight m d := by
  unfold domainWeight Finmap.total
  rw [Finset.sum_comm, totalWeight_eq_sum]
  refine Finset.sum_congr rfl fun s hs => ?_
  obtain ⟨sc, hsc⟩ := Finmap.exists_lookup_of_mem_keys hs
  -- the server is counted in its own domain and in no other
  simp only [Finmap.readD_of_lookup hsc]
  rw [Finset.sum_ite_eq, if_pos (mem_domains_of_lookup hsc), weightOf_of_lookup hsc]

theorem image_domain_weighing (m : ScoreMap) :
    (weighing m).servers.image (weighing m).domain = domains m := by
  ext d
  rw [Finset.mem_image, domains, Finset.mem_biUnion]
  refine exists_congr fun s => and_congr_right fun hs => ?_
  rw [weighing_domain_eq_iff hs, Option.mem_toFinset, Option.mem_def]

theorem domainWeight_nonneg (hw : WeightsNonneg m) (d : DomainId) : 0 ≤ domainWeight m d := by
  rw [domainWeight_eq_sum]
  exact Finset.sum_nonneg fun s _ => hw.weightOf s

theorem domainWeight_le_totalWeight (hw : WeightsNonneg m) (d : DomainId) :
    domainWeight m d ≤ totalWeight m := by
  rw [domainWeight_eq_sum, totalWeight_eq_sum]
  apply Finset.sum_le_sum_of_subset_of_nonneg (Finset.filter_subset _ _)
  intro s _ _
  exact hw.weightOf s

theorem IsReweighing.domains_eq {m' : ScoreMap} (h : IsReweighing m m') :
    domains m' = domains m := by
  unfold domains
  rw [h.keys_eq]
  simp only [h.domainOf_eq]

/-! ### The caps pass by domain -/

theorem domainWeight_reweighing {m' : ScoreMap} (h : IsReweighing m m') (d : DomainId) :
    domainWeight m' d = ∑ s ∈ m.keys with domainOf m s = some d, weightOf m' s := by
  rw [domainWeight_eq_sum, h.keys_eq]
  simp only [h.domainOf_eq]

/-- Scaled or not, a member of `d` carries the factor of `d`. -/
theorem capped_of_domainOf (hs : domainOf m s = some d) :
    (weighing m).capped cfg s = weightOf m s * capScale cfg m d := by
  obtain ⟨sc, hsc, rfl⟩ := Option.map_eq_some_iff.mp hs
  rw [Weighing.capped, weighing_domain_of_lookup hsc, capFactor_weighing]
  rfl

/-- A domain leaves the caps pass with its own weight or with the cap, whichever is less. -/
theorem domainWeight_applyDomainCaps (hcap : 0 ≤ cfg.domainCapacityFraction)
    (hw : WeightsNonneg m) (d : DomainId) :
    domainWeight (applyDomainCaps cfg m) d =
      min (domainWeight m d) (cfg.domainCapacityFraction * totalWeight m) := by
  rcases (totalWeight_nonneg hw).eq_or_lt with hT | hT
  · -- nothing weighs anything, and the pass returns early
    have hd₀ : domainWeight m d = 0 :=
      le_antisymm ((domainWeight_le_totalWeight hw d).trans hT.ge) (domainWeight_nonneg hw d)
    rw [applyDomainCaps_of_nonpos hT.ge, hd₀, ← hT, mul_zero, min_self]
  · -- all members carry one factor, so the domain does
    have hscaled : domainWeight (applyDomainCaps cfg m) d =
        domainWeight m d * capScale cfg m d := by
      rw [domainWeight_reweighing (isReweighing_applyDomainCaps cfg m), domainWeight_eq_sum,
        Finset.sum_mul]
      refine Finset.sum_congr rfl fun s hs => ?_
      obtain ⟨hmem, hdom⟩ := Finset.mem_filter.mp hs
      rw [weightOf_applyDomainCaps_eq hcap hT.le hmem, capped_of_domainOf hdom]
    rw [hscaled, capScale]
    split
    · next hover =>
      -- scaled: the factor is the cap over the weight of the domain
      rw [lt_div_iff₀ hT] at hover
      have hd : 0 < domainWeight m d := (mul_nonneg hcap hT.le).trans_lt hover
      rw [min_eq_right hover.le, mul_div_cancel₀ _ hd.ne']
    · next hunder =>
      rw [not_lt, div_le_iff₀ hT] at hunder
      rw [mul_one, min_eq_left hunder]

theorem min_eq_sub_room (x c : ℝ) : min x c = c - max (c - x) 0 := by
  rcases le_total x c with h | h
  · rw [min_eq_left h, max_eq_left (sub_nonneg.mpr h)]
    ring
  · rw [min_eq_right h, max_eq_right (sub_nonpos.mpr h), sub_zero]

theorem min_eq_sub_excess (x c : ℝ) : min x c = x - max (x - c) 0 := by
  rw [min_comm, min_eq_sub_room]

theorem max_eq_add_lift (x f : ℝ) : max x f = x + max (f - x) 0 := by
  rcases le_total x f with h | h
  · rw [max_eq_right h, max_eq_left (sub_nonneg.mpr h)]
    ring
  · rw [max_eq_left h, max_eq_right (sub_nonpos.mpr h), add_zero]

/-- The caps pass takes exactly the excess off the total. -/
theorem totalWeight_applyDomainCaps (hcap : 0 ≤ cfg.domainCapacityFraction)
    (hw : WeightsNonneg m) :
    totalWeight (applyDomainCaps cfg m) = totalWeight m - capExcess cfg (weighing m) := by
  rw [totalWeight_eq_sum_domains, (isReweighing_applyDomainCaps cfg m).domains_eq]
  calc ∑ d ∈ domains m, domainWeight (applyDomainCaps cfg m) d
      = ∑ d ∈ domains m, (domainWeight m d -
          max (domainWeight m d - cfg.domainCapacityFraction * totalWeight m) 0) :=
        Finset.sum_congr rfl fun d _ => by
          rw [domainWeight_applyDomainCaps hcap hw, min_eq_sub_excess]
    -- the weights sum to the total, the cut-off parts to the excess
    _ = totalWeight m - capExcess cfg (weighing m) := by
        rw [Finset.sum_sub_distrib, ← totalWeight_eq_sum_domains, capExcess,
          image_domain_weighing]
        simp only [domainTotal_weighing, total_weighing]

/-! ### The floor by domain -/

theorem weightOf_floored_eq_add (hcap : 0 ≤ cfg.domainCapacityFraction) (hw : WeightsNonneg m)
    (hs : s ∈ m.keys) :
    weightOf (applyFloor cfg (applyDomainCaps cfg m)) s =
      weightOf (applyDomainCaps cfg m) s + serverLift cfg (weighing m) s := by
  have hs' : s ∈ (applyDomainCaps cfg m).keys := by
    rwa [(isReweighing_applyDomainCaps cfg m).keys_eq]
  rw [weightOf_applyFloor hs', max_eq_add_lift, serverLift,
    weightOf_applyDomainCaps_eq hcap (totalWeight_nonneg hw) hs]

theorem domainWeight_floored (hcap : 0 ≤ cfg.domainCapacityFraction) (hw : WeightsNonneg m)
    (d : DomainId) :
    domainWeight (applyFloor cfg (applyDomainCaps cfg m)) d =
      domainWeight (applyDomainCaps cfg m) d + floorLift cfg (weighing m) d := by
  have hre := isReweighing_applyDomainCaps cfg m
  rw [domainWeight_reweighing (hre.trans (isReweighing_applyFloor cfg _)),
    domainWeight_reweighing hre, floorLift]
  show _ = _ + ∑ s ∈ m.keys with (weighing m).domain s = d, _
  rw [Finset.filter_congr fun s hs => weighing_domain_eq_iff hs, ← Finset.sum_add_distrib]
  refine Finset.sum_congr rfl fun s hs => ?_
  exact weightOf_floored_eq_add hcap hw (Finset.mem_filter.mp hs).1

theorem totalWeight_floored (hcap : 0 ≤ cfg.domainCapacityFraction) (hw : WeightsNonneg m) :
    totalWeight (applyFloor cfg (applyDomainCaps cfg m)) =
      totalWeight (applyDomainCaps cfg m) + totalLift cfg (weighing m) := by
  have hre := isReweighing_applyDomainCaps cfg m
  rw [totalWeight_eq_sum, totalWeight_eq_sum, (isReweighing_applyFloor cfg _).keys_eq,
    hre.keys_eq, totalLift]
  show _ = _ + ∑ s ∈ m.keys, serverLift cfg (weighing m) s
  rw [← Finset.sum_add_distrib]
  exact Finset.sum_congr rfl fun s hs => weightOf_floored_eq_add hcap hw hs

/-! ### The published map -/

/-- Normalisation does not change which share of the total a domain has. -/
theorem domainWeight_normalizeWeights_le_iff (c : ℝ) (d : DomainId) :
    domainWeight (normalizeWeights m) d ≤ c * totalWeight (normalizeWeights m) ↔
      domainWeight m d ≤ c * totalWeight m := by
  by_cases hT : 0 < totalWeight m
  · -- numerator and total are divided by the same number
    have hd : domainWeight (normalizeWeights m) d = domainWeight m d / totalWeight m := by
      rw [domainWeight_reweighing (isReweighing_normalizeWeights m), domainWeight_eq_sum,
        Finset.sum_div]
      exact Finset.sum_congr rfl fun s _ => weightOf_normalizeWeights hT s
    rw [hd, totalWeight_normalizeWeights hT, mul_one, div_le_iff₀ hT]
  · rw [normalizeWeights, if_neg hT]

/-- The cap condition on the published map, account by account. -/
theorem domainWeight_nextMap_le_iff (hcfg : cfg.Valid) (hold : WeightsNonneg old)
    (d : DomainId) :
    domainWeight (nextMap cfg old preds load now) d ≤
        cfg.domainCapacityFraction * totalWeight (nextMap cfg old preds load now) ↔
      CapRedistributed cfg (entering cfg old preds load) d := by
  have hcap := hcfg.domainCapacityFraction_mem.1
  have hw : WeightsNonneg (rebuildMap cfg old preds load now) := hold.rebuildMap hcfg
  rw [nextMap, domainWeight_normalizeWeights_le_iff, domainWeight_floored hcap hw,
    totalWeight_floored hcap hw, domainWeight_applyDomainCaps hcap hw,
    totalWeight_applyDomainCaps hcap hw, min_eq_sub_room,
    ← weighing_rebuildMap cfg old preds load now, CapRedistributed, capRoom,
    domainTotal_weighing, total_weighing]
  -- both sides say the same, with the divisor written out account by account
  refine ⟨?_, ?_⟩ <;> intro h <;> linarith

section NoLift

variable {W : Weighing} (hcap : 0 < cfg.domainCapacityFraction) (hW : 0 ≤ W.total)
  (hlift : ∀ s ∈ W.servers, cfg.minWeight ≤ W.capped cfg s)

include hlift

theorem serverLift_of_no_lift : ∀ s ∈ W.servers, serverLift cfg W s = 0 := fun s hs =>
  max_eq_right (sub_nonpos.mpr (hlift s hs))

theorem totalLift_of_no_lift : totalLift cfg W = 0 :=
  Finset.sum_eq_zero (serverLift_of_no_lift hlift)

theorem floorLift_of_no_lift (d : DomainId) : floorLift cfg W d = 0 :=
  Finset.sum_eq_zero fun s hs => serverLift_of_no_lift hlift s (Finset.mem_filter.mp hs).1

include hcap hW

/-- Where the floor lifts nobody, the cap survives only in a domain that was not above it. -/
theorem domainTotal_le_of_no_lift (h : CapRedistributed cfg W d) :
    W.domainTotal d ≤ cfg.domainCapacityFraction * W.total := by
  by_contra hover
  rw [not_le] at hover
  have hT := mul_nonneg hcap.le hW
  -- an overweight domain has a member, so its excess is one of the summands
  have hd : d ∈ W.servers.image W.domain := by
    by_contra hd
    rw [Weighing.domainTotal, Finset.filter_eq_empty_iff.mpr, Finset.sum_empty] at hover
    · linarith
    · intro s hs hsd
      exact hd (Finset.mem_image.mpr ⟨s, hs, hsd⟩)
  -- excesses are not negative, so one of them is at most the sum
  have hexcess₀ : ∀ d ∈ W.servers.image W.domain,
      0 ≤ max (W.domainTotal d - cfg.domainCapacityFraction * W.total) 0 :=
    fun _ _ => le_max_right _ _
  have hle : W.domainTotal d - cfg.domainCapacityFraction * W.total ≤ capExcess cfg W :=
    (le_max_left _ _).trans (Finset.single_le_sum hexcess₀ hd)
  have hpos : 0 < cfg.domainCapacityFraction * capExcess cfg W :=
    mul_pos hcap (by linarith)
  -- an overweight domain has no room, and nothing was given back
  rw [CapRedistributed, floorLift_of_no_lift hlift, totalLift_of_no_lift hlift, capRoom,
    max_eq_right (by linarith)] at h
  linarith

/-- And it survives everywhere if no domain was above it. -/
theorem capRedistributed_of_no_lift :
    (∀ d, CapRedistributed cfg W d) ↔
      ∀ d, W.domainTotal d ≤ cfg.domainCapacityFraction * W.total := by
  refine ⟨fun h d => domainTotal_le_of_no_lift hcap hW hlift (h d), fun h d => ?_⟩
  -- nobody above the cap, nothing cut off
  have hexcess : capExcess cfg W = 0 :=
    Finset.sum_eq_zero fun d _ => max_eq_right (by linarith [h d])
  rw [CapRedistributed, floorLift_of_no_lift hlift, totalLift_of_no_lift hlift, hexcess]
  simp [capRoom]

end NoLift

/-! ### What the ranges settle -/

/-- The domain is above the cap wherever the weights end up in their ranges. -/
def CapExceeded (old : ScoreMap) (preds : Predictions) (d : DomainId) : Prop :=
  ScoreboardConfig.default.domainCapacityFraction *
      ∑ s ∈ old.keys with domainOf old s ≠ some d, highest old preds s <
    (1 - ScoreboardConfig.default.domainCapacityFraction) *
      ∑ s ∈ old.keys with domainOf old s = some d, lowest old preds s

/-- With the other domains at their highest, such a domain still enters above the cap. -/
theorem CapExceeded.lt_domainTotal (hnew : NoNewcomer old preds) (h : CapExceeded old preds d)
    (load : ℝ) :
    ScoreboardConfig.default.domainCapacityFraction *
        (entering ScoreboardConfig.default old preds load).total <
      (entering ScoreboardConfig.default old preds load).domainTotal d := by
  set W := entering ScoreboardConfig.default old preds load with hW
  have hin : ∑ s ∈ old.keys with domainOf old s = some d, lowest old preds s ≤
      W.domainTotal d := by
    rw [hW, hnew.domainTotal_eq]
    exact Finset.sum_le_sum fun s hs => (entering_mem (Finset.mem_filter.mp hs).1).1
  have hout : ∑ s ∈ old.keys with domainOf old s ≠ some d, W.weight s ≤
      ∑ s ∈ old.keys with domainOf old s ≠ some d, highest old preds s :=
    Finset.sum_le_sum fun s hs => (entering_mem (Finset.mem_filter.mp hs).1).2
  have hsplit := hnew.total_eq_add load d
  have hd : _ < _ := h
  norm_num at hd ⊢
  linarith

/-- Idle caps scale nobody, so an idle floor lifts nobody. -/
theorem FloorIdle.minWeight_le_capped (hold : WeightsNonneg old) (hnew : NoNewcomer old preds)
    (hcaps : CapsIdle old preds) (hfloor : FloorIdle old preds) (load : ℝ) :
    ∀ s ∈ (entering ScoreboardConfig.default old preds load).servers,
      ScoreboardConfig.default.minWeight ≤
        (entering ScoreboardConfig.default old preds load).capped ScoreboardConfig.default s := by
  intro s hs
  rw [(hcaps.capFree hnew load).capped_eq hold]
  rw [hnew.servers_eq] at hs
  exact (hfloor s hs).trans (entering_mem hs).1

/-- Two servers in domain `0`, one each in the domains `1` and `2`: the cap of `2/5` can be
met, and half of the weight is in domain `0`. -/
def fourServers : List (ServerId × DomainId) :=
  [(⟨0⟩, ⟨0⟩), (⟨1⟩, ⟨0⟩), (⟨2⟩, ⟨1⟩), (⟨3⟩, ⟨2⟩)]

/-- The board `with_servers` makes of them. -/
noncomputable def fourServersBoard : Scoreboard :=
  Scoreboard.withServers fourServers ScoreboardConfig.default fun i => i

theorem keys_fourServersBoard : fourServersBoard.inner.keys = {⟨0⟩, ⟨1⟩, ⟨2⟩, ⟨3⟩} := by
  ext s
  rw [Finmap.mem_keys, fourServersBoard, mem_withServers]
  simp [fourServers]

theorem entry_fourServersBoard (h : (s, d) ∈ fourServers) :
    domainOf fourServersBoard.inner s = some d ∧ weightOf fourServersBoard.inner s = 1 / 4 := by
  have hnd : (fourServers.map Prod.fst).Nodup := by simp [fourServers]
  have hinit : Scoreboard.initialWeight fourServers = 1 / 4 := by
    norm_num [Scoreboard.initialWeight, fourServers]
  obtain ⟨i, hi⟩ :=
    lookup_withServers_of_nodup ScoreboardConfig.default (fun i => i) hnd h
  exact ⟨domainOf_of_lookup hi, (weightOf_of_lookup hi).trans hinit⟩

theorem exists_domain_of_mem_fourServersBoard (hs : s ∈ fourServersBoard.inner.keys) :
    ∃ d, (s, d) ∈ fourServers ∧ (d = ⟨0⟩ ∨ d = ⟨1⟩ ∨ d = ⟨2⟩) := by
  rw [keys_fourServersBoard] at hs
  simp only [Finset.mem_insert, Finset.mem_singleton] at hs
  rcases hs with rfl | rfl | rfl | rfl <;> simp [fourServers]

theorem totalWeight_fourServersBoard : totalWeight fourServersBoard.inner = 1 := by
  -- four equal shares
  have hw : ∀ s ∈ fourServersBoard.inner.keys, weightOf fourServersBoard.inner s = 1 / 4 := by
    intro s hs
    obtain ⟨d, hd, -⟩ := exists_domain_of_mem_fourServersBoard hs
    exact (entry_fourServersBoard hd).2
  rw [totalWeight_eq_sum, Finset.sum_congr rfl hw, keys_fourServersBoard]
  simp

theorem domainWeight_fourServersBoard :
    domainWeight fourServersBoard.inner ⟨0⟩ = 1 / 2 ∧
      domainWeight fourServersBoard.inner ⟨1⟩ = 1 / 4 ∧
      domainWeight fourServersBoard.inner ⟨2⟩ = 1 / 4 := by
  obtain ⟨hd₀, hw₀⟩ := @entry_fourServersBoard ⟨0⟩ ⟨0⟩ (by simp [fourServers])
  obtain ⟨hd₁, hw₁⟩ := @entry_fourServersBoard ⟨1⟩ ⟨0⟩ (by simp [fourServers])
  obtain ⟨hd₂, hw₂⟩ := @entry_fourServersBoard ⟨2⟩ ⟨1⟩ (by simp [fourServers])
  obtain ⟨hd₃, hw₃⟩ := @entry_fourServersBoard ⟨3⟩ ⟨2⟩ (by simp [fourServers])
  simp only [domainWeight_eq_sum, keys_fourServersBoard, Finset.sum_filter]
  norm_num [hd₀, hd₁, hd₂, hd₃, hw₀, hw₁, hw₂, hw₃]

/-- After the caps everybody is still above the floor. -/
theorem minWeight_le_capped_fourServersBoard (hs : s ∈ fourServersBoard.inner.keys) :
    ScoreboardConfig.default.minWeight ≤
      (weighing fourServersBoard.inner).capped ScoreboardConfig.default s := by
  obtain ⟨hX₀, hX₁, hX₂⟩ := domainWeight_fourServersBoard
  obtain ⟨d, hd, hcases⟩ := exists_domain_of_mem_fourServersBoard hs
  obtain ⟨hdom, hw⟩ := entry_fourServersBoard hd
  rw [capped_of_domainOf hdom, hw, capScale, totalWeight_fourServersBoard]
  rcases hcases with rfl | rfl | rfl
  · norm_num [hX₀]
  · norm_num [hX₁]
  · norm_num [hX₂]

theorem card_domains_fourServersBoard : (domains fourServersBoard.inner).card = 3 := by
  have hdomains : domains fourServersBoard.inner = {⟨0⟩, ⟨1⟩, ⟨2⟩} := by
    unfold domains
    rw [keys_fourServersBoard]
    simp only [Finset.biUnion_insert, Finset.singleton_biUnion,
      (@entry_fourServersBoard ⟨0⟩ ⟨0⟩ (by simp [fourServers])).1,
      (@entry_fourServersBoard ⟨1⟩ ⟨0⟩ (by simp [fourServers])).1,
      (@entry_fourServersBoard ⟨2⟩ ⟨1⟩ (by simp [fourServers])).1,
      (@entry_fourServersBoard ⟨3⟩ ⟨2⟩ (by simp [fourServers])).1]
    decide
  rw [hdomains]
  rfl

theorem reachable_fourServersBoard : fourServersBoard.Reachable ScoreboardConfig.default :=
  ⟨fourServers, fun i => i, [], rfl⟩

/-- Three servers in a domain of their own. -/
noncomputable def threeServersBoard : Scoreboard :=
  Scoreboard.withServers [(⟨0⟩, ⟨0⟩), (⟨1⟩, ⟨1⟩), (⟨2⟩, ⟨2⟩)] ScoreboardConfig.default fun i => i

theorem keys_threeServersBoard : threeServersBoard.inner.keys = {⟨0⟩, ⟨1⟩, ⟨2⟩} := by
  ext s
  rw [Finmap.mem_keys, threeServersBoard, mem_withServers]
  simp

theorem entry_threeServersBoard (hs : s ∈ threeServersBoard.inner.keys) :
    domainOf threeServersBoard.inner s = some ⟨s.id⟩ ∧
      weightOf threeServersBoard.inner s = 1 / 3 := by
  have hinit : Scoreboard.initialWeight [(⟨0⟩, ⟨0⟩), (⟨1⟩, ⟨1⟩), (⟨2⟩, ⟨2⟩)] = 1 / 3 := by
    norm_num [Scoreboard.initialWeight]
  have hmem : (s, (⟨s.id⟩ : DomainId)) ∈
      [((⟨0⟩ : ServerId), (⟨0⟩ : DomainId)), (⟨1⟩, ⟨1⟩), (⟨2⟩, ⟨2⟩)] := by
    rw [keys_threeServersBoard] at hs
    simp only [Finset.mem_insert, Finset.mem_singleton] at hs
    rcases hs with rfl | rfl | rfl <;> simp
  obtain ⟨i, hi⟩ := lookup_withServers_of_nodup ScoreboardConfig.default (fun i => i)
    (by simp) hmem
  exact ⟨domainOf_of_lookup hi, (weightOf_of_lookup hi).trans hinit⟩

/-- Even with a domain ten percent up and the others ten percent down, no cap is exceeded. -/
theorem capsIdle_threeServersBoard (preds : Predictions) :
    CapsIdle threeServersBoard.inner preds := by
  have hentry {s : ServerId} (hs : s ∈ ({⟨0⟩, ⟨1⟩, ⟨2⟩} : Finset ServerId)) :
      domainOf threeServersBoard.inner s = some ⟨s.id⟩ ∧
        highest threeServersBoard.inner preds s ≤ 11 / 30 ∧
        9 / 30 ≤ lowest threeServersBoard.inner preds s := by
    obtain ⟨hdom, hw⟩ := entry_threeServersBoard (keys_threeServersBoard ▸ hs)
    have hhi := highest_le threeServersBoard.inner preds s
    have hlo := le_lowest threeServersBoard.inner preds s
    rw [hw] at hhi hlo
    norm_num at hhi hlo
    exact ⟨hdom, by linarith, by linarith⟩
  obtain ⟨hd₀, hu₀, hl₀⟩ := hentry (s := ⟨0⟩) (by simp)
  obtain ⟨hd₁, hu₁, hl₁⟩ := hentry (s := ⟨1⟩) (by simp)
  obtain ⟨hd₂, hu₂, hl₂⟩ := hentry (s := ⟨2⟩) (by simp)
  intro d
  simp only [keys_threeServersBoard, Finset.sum_filter]
  norm_num [hd₀, hd₁, hd₂]
  -- the domain is that of one of the three servers, or of none
  by_cases h₀ : (⟨0⟩ : DomainId) = d
  · subst h₀
    norm_num
    linarith
  by_cases h₁ : (⟨1⟩ : DomainId) = d
  · subst h₁
    norm_num
    linarith
  by_cases h₂ : (⟨2⟩ : DomainId) = d
  · subst h₂
    norm_num
    linarith
  · norm_num [h₀, h₁, h₂]
    linarith

/-- Domain `0` is exactly at the cap, and one of its two servers is below the floor. -/
noncomputable def lightServerBoard : Scoreboard where
  inner := Finmap.insertAll (fun e => e.1)
    (fun e => { ServerScore.new e.2.1 0 with weight := e.2.2 })
    [(⟨0⟩, ⟨0⟩, 0.39), (⟨1⟩, ⟨0⟩, 0.01), (⟨2⟩, ⟨1⟩, 0.3), (⟨3⟩, ⟨2⟩, 0.3)] ∅
  config := ScoreboardConfig.default

theorem keys_lightServerBoard : lightServerBoard.inner.keys = {⟨0⟩, ⟨1⟩, ⟨2⟩, ⟨3⟩} := by
  ext s
  rw [Finmap.mem_keys, lightServerBoard, Finmap.mem_insertAll]
  simp only [Finmap.notMem_empty, or_false]
  simp

/-- What is on the board. -/
theorem entry_lightServerBoard :
    (domainOf lightServerBoard.inner ⟨0⟩ = some ⟨0⟩ ∧
        weightOf lightServerBoard.inner ⟨0⟩ = 0.39) ∧
      (domainOf lightServerBoard.inner ⟨1⟩ = some ⟨0⟩ ∧
        weightOf lightServerBoard.inner ⟨1⟩ = 0.01) ∧
      (domainOf lightServerBoard.inner ⟨2⟩ = some ⟨1⟩ ∧
        weightOf lightServerBoard.inner ⟨2⟩ = 0.3) ∧
      (domainOf lightServerBoard.inner ⟨3⟩ = some ⟨2⟩ ∧
        weightOf lightServerBoard.inner ⟨3⟩ = 0.3) := by
  refine ⟨⟨?_, ?_⟩, ⟨?_, ?_⟩, ⟨?_, ?_⟩, ⟨?_, ?_⟩⟩ <;>
    simp [domainOf, weightOf, Finmap.readD, lightServerBoard, Finmap.insertAll,
      Finmap.lookup_insert, Finmap.lookup_insert_of_ne, ServerScore.new]

/-- **An idle floor is needed.** No domain is above the cap, nothing is predicted, and the floor
lifts the light server of the full domain: `42/102` of the weight is more than `2/5`. -/
theorem Scoreboard.floor_lifts_over_cap :
    CapsIdle lightServerBoard.inner ∅ ∧
      ∃ sb', lightServerBoard.updateScores ∅ 0 9 = some sb' ∧
        ¬ domainWeight sb'.inner ⟨0⟩ ≤
          ScoreboardConfig.default.domainCapacityFraction * totalWeight sb'.inner := by
  have hcfg := ScoreboardConfig.default_valid
  obtain ⟨⟨hd₀, hw₀⟩, ⟨hd₁, hw₁⟩, ⟨hd₂, hw₂⟩, ⟨hd₃, hw₃⟩⟩ := entry_lightServerBoard
  have hnone (s : ServerId) : s ∉ (∅ : Predictions).keys := by simp
  have hnew : NoNewcomer lightServerBoard.inner ∅ := by simp [NoNewcomer]
  have hold : WeightsNonneg lightServerBoard.inner := by
    intro s sc hs
    have hmem := Finmap.mem_keys.mpr (Finmap.mem_of_lookup_eq_some hs)
    rw [keys_lightServerBoard] at hmem
    simp only [Finset.mem_insert, Finset.mem_singleton] at hmem
    rw [← weightOf_of_lookup hs]
    rcases hmem with rfl | rfl | rfl | rfl <;> norm_num [hw₀, hw₁, hw₂, hw₃]
  have hcaps : CapsIdle lightServerBoard.inner ∅ := by
    intro d
    simp only [highest_of_notMem (hnone _), lowest_of_notMem (hnone _), keys_lightServerBoard,
      Finset.sum_filter]
    norm_num [hd₀, hd₁, hd₂, hd₃, hw₀, hw₁, hw₂, hw₃]
    -- the domain with two servers, the two others, and any that nobody is in
    by_cases h₀ : (⟨0⟩ : DomainId) = d
    · subst h₀
      norm_num
    by_cases h₁ : (⟨1⟩ : DomainId) = d
    · subst h₁
      norm_num
    by_cases h₂ : (⟨2⟩ : DomainId) = d
    · subst h₂
      norm_num
    · norm_num [h₀, h₁, h₂]
  refine ⟨hcaps, _, updateScores_eq hcfg, fun hle => ?_⟩
  have hd := (domainWeight_nextMap_le_iff hcfg hold ⟨0⟩).mp hle
  -- nobody is cut, so only the lift of the light server counts
  have hfree := hcaps.capFree hnew 0
  have hexcess : capExcess ScoreboardConfig.default
      (entering ScoreboardConfig.default lightServerBoard.inner ∅ 0) = 0 :=
    Finset.sum_eq_zero fun d _ => max_eq_right (by linarith [hfree d])
  have hweight {s : ServerId} (hs : s ∈ lightServerBoard.inner.keys) :
      (entering ScoreboardConfig.default lightServerBoard.inner ∅ 0).weight s =
        weightOf lightServerBoard.inner s := by
    obtain ⟨hlo, hhi⟩ := @entering_mem lightServerBoard.inner ∅ 0 s hs
    rw [lowest_of_notMem (hnone s)] at hlo
    rw [highest_of_notMem (hnone s)] at hhi
    exact le_antisymm hhi hlo
  have hlift {s : ServerId} (hs : s ∈ lightServerBoard.inner.keys) :
      serverLift ScoreboardConfig.default
        (entering ScoreboardConfig.default lightServerBoard.inner ∅ 0) s =
          if s = ⟨1⟩ then 1 / 50 else 0 := by
    rw [serverLift, hfree.capped_eq hold, hweight hs]
    rw [keys_lightServerBoard] at hs
    simp only [Finset.mem_insert, Finset.mem_singleton] at hs
    rcases hs with rfl | rfl | rfl | rfl <;> norm_num [hw₀, hw₁, hw₂, hw₃]
  have htotal : totalLift ScoreboardConfig.default
      (entering ScoreboardConfig.default lightServerBoard.inner ∅ 0) = 1 / 50 := by
    rw [totalLift, hnew.servers_eq, Finset.sum_congr rfl fun s hs => hlift hs,
      keys_lightServerBoard]
    simp
  have hfloor : floorLift ScoreboardConfig.default
      (entering ScoreboardConfig.default lightServerBoard.inner ∅ 0) ⟨0⟩ = 1 / 50 := by
    rw [floorLift, hnew.servers_eq, Finset.filter_congr fun s hs => entering_domain_iff hs,
      Finset.sum_congr rfl fun s hs => hlift (Finset.mem_filter.mp hs).1, Finset.sum_filter,
      keys_lightServerBoard]
    simp [hd₀, hd₁, hd₂, hd₃]
  have hroom : capRoom ScoreboardConfig.default
      (entering ScoreboardConfig.default lightServerBoard.inner ∅ 0) ⟨0⟩ = 0 := by
    rw [capRoom, hnew.domainTotal_eq, Weighing.total, hnew.servers_eq,
      Finset.sum_congr rfl fun s hs => hweight hs,
      Finset.sum_congr rfl fun s hs => hweight (Finset.mem_filter.mp hs).1, Finset.sum_filter,
      keys_lightServerBoard]
    norm_num [hd₀, hd₁, hd₂, hd₃, hw₀, hw₁, hw₂, hw₃]
  rw [CapRedistributed, hexcess, htotal, hfloor, hroom] at hd
  norm_num at hd

end ScalableBooking.RouterCore
