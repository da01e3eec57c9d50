import ScalableBooking.RouterCore.Newcomers

/-!
# The exploration floor in the published map

The floor pass lifts every weight to `min_weight`, and then every weight is divided by the sum
of all of them. Above one, the divisor takes whoever needed the floor below it again.

`minWeight_le_of_writes` is about runs whose calls all meet `FloorKept`: nobody joins, and the
sum cannot get above one (all servers are in one domain, which the caps pass scales down by far
more than anybody can move up, or nobody is asked up), or every weight is so far above the floor
that the largest possible sum does not take it there. The invariant is that the weights of the
board, those below the floor taken as the floor, add up to at most one.
-/

namespace ScalableBooking.RouterCore

variable {old : ScoreMap} {preds : Predictions} {load : ℝ} {now : Instant} {s : ServerId}

/-! ### The condition -/

/-- Every weight, scaled by `k` at its lowest, is at least the floor's share of the largest sum
that the weights can have. -/
def FloorFar (k : ℝ) (old : ScoreMap) (preds : Predictions) : Prop :=
  ∀ s ∈ old.keys, ScoreboardConfig.default.minWeight *
      ∑ t ∈ old.keys, max (highest old preds t) ScoreboardConfig.default.minWeight ≤
    k * lowest old preds s

/-- Why the division does not take anybody below the floor. -/
inductive FloorSafe (old : ScoreMap) (preds : Predictions) : Prop where
  /-- One domain is scaled by the cap, whatever is predicted. -/
  | oneDomain (d : DomainId) (h : InOneDomain old d)
  /-- Without a move up, the sum stays at most one. -/
  | nobodyAskedUp (h : ∀ s ∈ old.keys, ¬ AsksMore old preds s)
  /-- Nobody is scaled, and the floor is out of reach. -/
  | farUncut (hcaps : CapsIdle old preds) (hfar : FloorFar 1 old preds)
  /-- The floor is out of reach even for whoever is scaled. -/
  | far (hfar : FloorFar ScoreboardConfig.default.domainCapacityFraction old preds)

/-- What the floor asks of a board and the predictions for it. -/
structure FloorKept (old : ScoreMap) (preds : Predictions) : Prop where
  noNewcomer : NoNewcomer old preds
  floorSafe : FloorSafe old preds

/-! ### One update -/

/-- The weights of the board, those below the floor taken as the floor, add up to at most
one. -/
def RoomForFloor (m : ScoreMap) : Prop :=
  ∑ s ∈ m.keys, max (weightOf m s) ScoreboardConfig.default.minWeight ≤ 1

/-- Nobody is below the floor, if it can be given to everybody. -/
def FloorMet (m : ScoreMap) : Prop :=
  m.keys.card * ScoreboardConfig.default.minWeight ≤ 1 →
    ∀ s ∈ m.keys, ScoreboardConfig.default.minWeight ≤ weightOf m s

/-- What a run carries from board to board. -/
structure FloorInvariant (m : ScoreMap) : Prop where
  nonneg : WeightsNonneg m
  room : m.keys.card * ScoreboardConfig.default.minWeight ≤ 1 → RoomForFloor m

section Step

/-- A floored weight survives a divisor of at most one, and one that is at most the capped
weight over the floor. -/
theorem le_share_of_floored {y m Z : ℝ} (hm : 0 < m) (hZ : 0 < Z) (h : Z ≤ 1 ∨ m * Z ≤ y) :
    m ≤ max y m / Z := by
  rw [le_div_iff₀ hZ]
  rcases h with hone | hy
  · calc m * Z ≤ m * 1 := by gcongr
      _ ≤ max y m := by
        rw [mul_one]
        exact le_max_right _ _
  · exact hy.trans (le_max_left _ _)

variable (hold : WeightsNonneg old) (hnew : NoNewcomer old preds)

include hnew

/-- The divisor is at most the largest sum. -/
theorem flooredTotal_le {f : ServerId → ℝ}
    (hf : ∀ s ∈ old.keys, (entering ScoreboardConfig.default old preds load).capped
      ScoreboardConfig.default s ≤ max (f s) ScoreboardConfig.default.minWeight) :
    (entering ScoreboardConfig.default old preds load).flooredTotal ScoreboardConfig.default ≤
      ∑ s ∈ old.keys, max (f s) ScoreboardConfig.default.minWeight := by
  rw [Weighing.flooredTotal, hnew.servers_eq]
  exact Finset.sum_le_sum fun s hs => max_le (hf s hs) (le_max_right _ _)

include hold

theorem capped_le_highest (hs : s ∈ old.keys) :
    (entering ScoreboardConfig.default old preds load).capped ScoreboardConfig.default s ≤
      highest old preds s :=
  (Weighing.capped_le ScoreboardConfig.default_valid (entering_nonneg hold)
    (hnew.servers_eq ▸ hs)).trans (entering_mem hs).2

/-- In one domain everybody is scaled by the cap, and nobody ends above the old weight. -/
theorem InOneDomain.capped_le {d : DomainId} (hone : InOneDomain old d) (hs : s ∈ old.keys) :
    (entering ScoreboardConfig.default old preds load).capped ScoreboardConfig.default s ≤
      max (weightOf old s) ScoreboardConfig.default.minWeight := by
  set W := entering ScoreboardConfig.default old preds load with hW
  have hnonneg := @entering_nonneg old preds load hold
  have hmem : s ∈ W.servers := hnew.servers_eq ▸ hs
  have hdom : ∀ t ∈ W.servers, W.domain t = d := by
    intro t ht
    rw [hnew.servers_eq] at ht
    obtain ⟨sc, hsc⟩ := Finmap.exists_lookup_of_mem_keys ht
    rw [hW, entering_domain_iff ht, domainOf_of_lookup hsc, hone t sc hsc]
  have hhigh : W.weight s ≤ 11 / 10 * max (weightOf old s) (3 / 100) :=
    (entering_mem hs).2.trans (highest_le old preds s)
  rw [ScoreboardConfig.default_minWeight]
  rcases (Finset.sum_nonneg hnonneg).eq_or_lt with hT | hT
  · -- nobody weighs anything
    have hzero : W.weight s = 0 := (Finset.sum_eq_zero_iff_of_nonneg hnonneg).mp hT.symm s hmem
    rw [Weighing.capped, hzero, zero_mul]
    exact le_max_of_le_right (by norm_num)
  · rw [Weighing.capped, hdom s hmem, Weighing.capFactor_single (by norm_num) hT hdom]
    have hmax : 0 ≤ max (weightOf old s) (3 / 100) := le_max_of_le_right (by norm_num)
    rw [ScoreboardConfig.default_domainCapacityFraction]
    linarith

/-- One update that meets the condition publishes nobody below the floor. -/
theorem FloorSafe.minWeight_le (h : FloorSafe old preds) (hroom : RoomForFloor old)
    (hs : s ∈ old.keys) : ScoreboardConfig.default.minWeight ≤
      weightOf (nextMap ScoreboardConfig.default old preds load now) s := by
  have hcfg := ScoreboardConfig.default_valid
  have hmin : 0 < ScoreboardConfig.default.minWeight := by norm_num
  have hmem : s ∈ (entering ScoreboardConfig.default old preds load).servers :=
    hnew.servers_eq ▸ hs
  rw [weightOf_nextMap_eq hcfg hmin hold hmem, Weighing.floored]
  refine le_share_of_floored hmin (Weighing.flooredTotal_pos hmin hmem) ?_
  -- the divisor against the largest sum, for the two cases that need it
  have hhighest : (entering ScoreboardConfig.default old preds load).flooredTotal
      ScoreboardConfig.default ≤ _ :=
    flooredTotal_le hnew fun t ht => (capped_le_highest hold hnew ht).trans (le_max_left _ _)
  cases h with
  | oneDomain d hone =>
    exact Or.inl ((flooredTotal_le hnew fun t ht => hone.capped_le hold hnew ht).trans hroom)
  | nobodyAskedUp hnobody =>
    refine Or.inl ((flooredTotal_le hnew fun t ht => ?_).trans hroom)
    have hcapped := @capped_le_highest old preds load t hold hnew ht
    rw [highest, if_neg (hnobody t ht)] at hcapped
    exact hcapped.trans (le_max_left _ _)
  | farUncut hcaps hfar =>
    refine Or.inr ((mul_le_mul_of_nonneg_left hhighest hmin.le).trans ((hfar s hs).trans ?_))
    rw [(hcaps.capFree hnew load).capped_eq hold, one_mul]
    exact (entering_mem hs).1
  | far hfar =>
    refine Or.inr ((mul_le_mul_of_nonneg_left hhighest hmin.le).trans ((hfar s hs).trans ?_))
    refine le_trans ?_ (Weighing.le_capped hcfg (entering_nonneg hold) hmem)
    exact mul_le_mul_of_nonneg_left (entering_mem hs).1 (by norm_num)

end Step

/-! ### Every run -/

/-- The initial weights are equal and add up to at most one, so a floor that can be given to all
servers leaves room. -/
theorem roomForFloor_withServers (serverDomains : List (ServerId × DomainId))
    (created : ℕ → Instant)
    (hroom : (Scoreboard.withServers serverDomains ScoreboardConfig.default
      created).inner.keys.card * ScoreboardConfig.default.minWeight ≤ 1) :
    RoomForFloor (Scoreboard.withServers serverDomains ScoreboardConfig.default
      created).inner := by
  set m := (Scoreboard.withServers serverDomains ScoreboardConfig.default created).inner with hm
  have hw : ∀ s ∈ m.keys, weightOf m s = 1 / serverDomains.length := by
    intro s hs
    obtain ⟨sc, hsc⟩ := Finmap.exists_lookup_of_mem_keys hs
    obtain ⟨d, i, hd, rfl⟩ := lookup_withServers hsc
    have hlen : (0 : ℝ) < serverDomains.length := by
      exact_mod_cast List.length_pos_of_mem hd
    rw [weightOf_of_lookup hsc]
    exact if_pos hlen
  have hcard : (m.keys.card : ℝ) ≤ serverDomains.length := by
    have hkeys : m.keys = (serverDomains.map Prod.fst).toFinset := by
      ext s
      rw [Finmap.mem_keys, hm, mem_withServers, List.mem_toFinset]
    rw [hkeys]
    exact_mod_cast (List.toFinset_card_le _).trans_eq (List.length_map _)
  rw [RoomForFloor, Finset.sum_congr rfl fun s hs => by rw [hw s hs], Finset.sum_const,
    nsmul_eq_mul]
  rcases max_cases (1 / (serverDomains.length : ℝ)) ScoreboardConfig.default.minWeight with
    ⟨hmax, -⟩ | ⟨hmax, -⟩
  · rw [hmax]
    rw [mul_one_div]
    exact div_le_one_of_le₀ hcard (Nat.cast_nonneg _)
  · rw [hmax]
    exact hroom

/-- A published board with everybody at the floor or above leaves room for it. -/
theorem FloorMet.roomForFloor
    (h : FloorMet (nextMap ScoreboardConfig.default old preds load now))
    (hroom : (nextMap ScoreboardConfig.default old preds load now).keys.card *
      ScoreboardConfig.default.minWeight ≤ 1) :
    RoomForFloor (nextMap ScoreboardConfig.default old preds load now) := by
  rw [RoomForFloor, Finset.sum_congr rfl fun s hs => max_eq_left (h hroom s hs)]
  by_cases hne : (old.keys ∪ preds.keys).Nonempty
  · exact (totalWeight_nextMap (by norm_num) hne).le
  · rw [keys_nextMap, Finset.not_nonempty_iff_eq_empty.mp hne, Finset.sum_empty]
    exact zero_le_one

/-- One call that meets the condition. -/
theorem FloorKept.step (h : FloorKept old preds) (hinv : FloorInvariant old) :
    FloorInvariant (nextMap ScoreboardConfig.default old preds load now) ∧
      FloorMet (nextMap ScoreboardConfig.default old preds load now) := by
  obtain ⟨hold, hroom⟩ := hinv
  obtain ⟨hnew, hsafe⟩ := h
  have hmet : FloorMet (nextMap ScoreboardConfig.default old preds load now) := by
    intro h s hs
    rw [hnew.keys_nextMap] at h hs
    exact hsafe.minWeight_le hold hnew (hroom h) hs
  exact ⟨⟨weightsNonneg_nextMap ScoreboardConfig.default_valid, hmet.roomForFloor⟩, hmet⟩

/-- **When the published weights respect the floor.** In every run whose calls all meet the
condition on the board they find, every published board that has room for the floor has
nobody below it. -/
theorem Scoreboard.minWeight_le_of_writes (serverDomains : List (ServerId × DomainId))
    (created : ℕ → Instant) (calls : List WriterCall) (hcalls : calls ≠ [])
    (hrun : CallsMeet FloorKept
      (withServers serverDomains ScoreboardConfig.default created) calls) :
    ∃ sb', (withServers serverDomains ScoreboardConfig.default created).writes calls =
        some sb' ∧
      (sb'.inner.keys.card * ScoreboardConfig.default.minWeight ≤ 1 →
        ∀ s sc', sb'.inner.lookup s = some sc' →
          ScoreboardConfig.default.minWeight ≤ sc'.weight) := by
  have h₀ : FloorInvariant
      (withServers serverDomains ScoreboardConfig.default created).inner :=
    ⟨weightsNonneg_withServers _ _, roomForFloor_withServers _ _⟩
  obtain ⟨sb', hsb', -, hmet⟩ := writes_induction_of_callsMeet ScoreboardConfig.default_valid h₀
    hrun fun m preds load now hinv h => h.step hinv
  refine ⟨sb', hsb', fun hroom s sc' hs => ?_⟩
  rw [← weightOf_of_lookup hs]
  exact hmet hcalls hroom s (Finmap.mem_keys.mpr (Finmap.mem_of_lookup_eq_some hs))

/-- Two updates of a pool of two, with the second server at full risk first. -/
theorem Scoreboard.minWeight_le_of_writes_riskPair :
    ∃ sb', (poolBoard [⟨0⟩, ⟨1⟩] fun i => i).writes
        [.updateScores (riskPair 1) 0 9, .updateScores (riskPair 0) 0 12] = some sb' ∧
      (sb'.inner.keys.card * ScoreboardConfig.default.minWeight ≤ 1 →
        ∀ s sc', sb'.inner.lookup s = some sc' →
          ScoreboardConfig.default.minWeight ≤ sc'.weight) := by
  refine minWeight_le_of_writes _ _ _ (by simp) ?_
  have hkeys : (poolBoard [⟨0⟩, ⟨1⟩] fun i => i).inner.keys = [⟨0⟩, ⟨1⟩].toFinset :=
    keys_poolBoard _ _
  have hone : InOneDomain (poolBoard [⟨0⟩, ⟨1⟩] fun i => i).inner ⟨0⟩ :=
    inOneDomain_poolBoard _ _
  have hnew : NoNewcomer (poolBoard [⟨0⟩, ⟨1⟩] fun i => i).inner (riskPair 1) :=
    (keys_riskPair 1).le.trans hkeys.ge
  refine ⟨⟨hnew, .oneDomain _ hone⟩, fun sb₁ hsb₁ => ⟨?_, fun _ _ => trivial⟩⟩
  -- the second call finds the same servers in the same domain
  obtain rfl := Option.some.inj ((write_eq ScoreboardConfig.default_valid _).symm.trans hsb₁)
  refine ⟨(keys_riskPair 0).le.trans ?_, .oneDomain _ hone.nextMap⟩
  show _ ⊆ (nextMap ScoreboardConfig.default (poolBoard [⟨0⟩, ⟨1⟩] fun i => i).inner
    (riskPair 1) 0 9).keys
  rw [hnew.keys_nextMap, hkeys]

/-- **The floor is not met.** Six servers join a pool of five. The floor of `3/100` could be
given to all eleven, and the five are published with `1/35` each. -/
theorem Scoreboard.published_weight_below_floor :
    ∃ sb' sc', (poolBoard [⟨0⟩, ⟨1⟩, ⟨2⟩, ⟨3⟩, ⟨4⟩] fun i => i).updateScores
        (newcomers [⟨5⟩, ⟨6⟩, ⟨7⟩, ⟨8⟩, ⟨9⟩, ⟨10⟩]) 0 9 = some sb' ∧
      sb'.inner.keys.card * ScoreboardConfig.default.minWeight ≤ 1 ∧
      sb'.inner.lookup ⟨0⟩ = some sc' ∧ sc'.weight < ScoreboardConfig.default.minWeight := by
  set sb := poolBoard [⟨0⟩, ⟨1⟩, ⟨2⟩, ⟨3⟩, ⟨4⟩] fun i => i with hsb
  set preds := newcomers [⟨5⟩, ⟨6⟩, ⟨7⟩, ⟨8⟩, ⟨9⟩, ⟨10⟩] with hpreds
  have hkeys : (nextMap ScoreboardConfig.default sb.inner preds 0 9).keys =
      [⟨0⟩, ⟨1⟩, ⟨2⟩, ⟨3⟩, ⟨4⟩].toFinset ∪ [⟨5⟩, ⟨6⟩, ⟨7⟩, ⟨8⟩, ⟨9⟩, ⟨10⟩].toFinset := by
    rw [keys_nextMap, hsb, hpreds, keys_poolBoard, keys_newcomers]
  have hmem : (⟨0⟩ : ServerId) ∈ (nextMap ScoreboardConfig.default sb.inner preds 0 9).keys := by
    rw [hkeys]
    simp
  obtain ⟨sc', hsc'⟩ := Finmap.exists_lookup_of_mem_keys hmem
  refine ⟨_, sc', updateScores_eq ScoreboardConfig.default_valid, ?_, hsc', ?_⟩
  · show ((nextMap ScoreboardConfig.default sb.inner preds 0 9).keys.card : ℝ) * _ ≤ 1
    have hcard : (nextMap ScoreboardConfig.default sb.inner preds 0 9).keys.card = 11 := by
      rw [hkeys]
      rfl
    rw [hcard]
    norm_num
  · rw [← weightOf_of_lookup hsc', hsb, hpreds, weightOf_nextMap_newcomers (by simp) (by simp)
      (by simp) (by norm_num) (by simp)]
    norm_num

/-! ### Light servers apart -/

/-- `33` servers, each in a domain of its own. -/
noncomputable def apartBoard : Scoreboard :=
  Scoreboard.withServers ((backendIds 33).map fun s => (s, ⟨s.id⟩)) ScoreboardConfig.default
    fun i => i

/-- All of them but the first are predicted safe. -/
noncomputable def allButFirst : Predictions := newcomers ((backendIds 33).erase ⟨0⟩)

theorem keys_apartBoard : apartBoard.inner.keys = (backendIds 33).toFinset := by
  ext s
  rw [Finmap.mem_keys, apartBoard, mem_withServers, List.map_map, List.mem_toFinset]
  simp

theorem lookup_apartBoard (hs : s ∈ backendIds 33) :
    ∃ i : ℕ, apartBoard.inner.lookup s =
      some { ServerScore.new ⟨s.id⟩ i with weight := 1 / 33 } := by
  have hnd : (((backendIds 33).map fun s => (s, (⟨s.id⟩ : DomainId))).map Prod.fst).Nodup := by
    rw [List.map_map]
    exact (nodup_backendIds 33).map fun _ _ h => h
  have hinit : Scoreboard.initialWeight
      ((backendIds 33).map fun s => (s, (⟨s.id⟩ : DomainId))) = 1 / 33 := by
    rw [Scoreboard.initialWeight, List.length_map, length_backendIds]
    norm_num
  obtain ⟨i, hi⟩ := lookup_withServers_of_nodup ScoreboardConfig.default (fun i => i) hnd
    (List.mem_map.mpr ⟨s, hs, rfl⟩)
  rw [hinit] at hi
  exact ⟨i, hi⟩

/-- The first server stays where it is, the others move up by the whole bound. -/
theorem entering_apartBoard (hs : s ∈ backendIds 33) :
    (entering ScoreboardConfig.default apartBoard.inner allButFirst 0).weight s =
      if s = ⟨0⟩ then 1 / 33 else 1 / 30 := by
  obtain ⟨i, hi⟩ := lookup_apartBoard hs
  have hw : weightOf apartBoard.inner s = 1 / 33 := weightOf_of_lookup hi
  have hkey : s ∈ apartBoard.inner.keys := by
    rw [keys_apartBoard]
    exact List.mem_toFinset.mpr hs
  have hpred : s ∈ allButFirst.keys ↔ s ≠ ⟨0⟩ := by
    rw [allButFirst, keys_newcomers, List.mem_toFinset, (nodup_backendIds 33).mem_erase_iff]
    exact and_iff_left hs
  rcases @entering_weight_cases apartBoard.inner allButFirst 0 s hkey with ⟨hp, hx⟩ | ⟨hp, hx⟩
  · -- nothing has been observed and nothing is risky
    have hraw : rawOf apartBoard.inner allButFirst s = 1 := by
      have hc : clamp (0 : ℝ) 0 1 = 0 := clamp_of_mem le_rfl zero_le_one
      obtain ⟨pred, hpred⟩ := Finmap.exists_lookup_of_mem_keys hp
      obtain rfl := lookup_newcomers hpred
      rw [rawOf, healthAfter, healthOf_of_lookup hi, riskOf, errorOf,
        Finmap.readD_of_lookup hpred, Finmap.readD_of_lookup hpred]
      simp [rawWeight, effectiveRisk, hc, ServerScore.new]
    rw [hx, smoothingFactor_default_zero, hraw, hw, if_neg (hpred.mp hp)]
    show moved 1 (1 / 33) = 1 / 30
    rw [moved_eq, clamp_of_hi_le] <;> norm_num
  · rw [hx, hw, if_pos]
    by_contra hne
    exact hp (hpred.mpr hne)

/-- **Being safe is needed.** Nobody joins and `33` floors fit into one, and the one server that
is not predicted is published with `10/362`. -/
theorem Scoreboard.published_weight_below_floor_apart :
    NoNewcomer apartBoard.inner allButFirst ∧
      ∃ sb', apartBoard.updateScores allButFirst 0 9 = some sb' ∧
        sb'.inner.keys.card * ScoreboardConfig.default.minWeight ≤ 1 ∧
        weightOf sb'.inner ⟨0⟩ < ScoreboardConfig.default.minWeight := by
  have hnew : NoNewcomer apartBoard.inner allButFirst := by
    rw [NoNewcomer, allButFirst, keys_newcomers, keys_apartBoard]
    exact fun s hs => List.mem_toFinset.mpr (List.mem_of_mem_erase (List.mem_toFinset.mp hs))
  have hold : WeightsNonneg apartBoard.inner := weightsNonneg_withServers _ _
  set W := entering ScoreboardConfig.default apartBoard.inner allButFirst 0 with hW
  have hservers : W.servers = (backendIds 33).toFinset := hnew.servers_eq.trans keys_apartBoard
  have hx : ∀ s ∈ W.servers, W.weight s = if s = ⟨0⟩ then 1 / 33 else 1 / 30 := by
    intro s hs
    rw [hservers, List.mem_toFinset] at hs
    exact entering_apartBoard hs
  have hmem : (⟨0⟩ : ServerId) ∈ W.servers := by
    rw [hservers]
    decide
  -- `32` of them have `1/30`
  have htotal : W.total = 32 / 30 + 1 / 33 := by
    rw [Weighing.total, Finset.sum_congr rfl hx, hservers,
      ← Finset.add_sum_erase _ _ (hservers ▸ hmem), if_pos rfl,
      Finset.sum_congr rfl fun s hs => if_neg (Finset.ne_of_mem_erase hs), Finset.sum_const,
      Finset.card_erase_of_mem (hservers ▸ hmem),
      List.toFinset_card_of_nodup (nodup_backendIds 33), length_backendIds]
    norm_num
  have hfree : CapFree apartBoard.inner allButFirst 0 := by
    intro d
    -- a domain has one server at most
    have hone : {s ∈ W.servers | W.domain s = d} ⊆ {⟨d.id⟩} := by
      intro s hs
      obtain ⟨hmem, hd⟩ := Finset.mem_filter.mp hs
      rw [hservers, List.mem_toFinset] at hmem
      obtain ⟨i, hi⟩ := lookup_apartBoard hmem
      have hdom : W.domain s = ⟨s.id⟩ := by
        show (apartBoard.inner.lookup s).elim _ _ = _
        rw [hi]
        rfl
      rw [Finset.mem_singleton, ← hd, hdom]
    have hle : ∀ s ∈ W.servers, W.weight s ≤ 1 / 30 := by
      intro s hs
      rw [hx s hs]
      split <;> norm_num
    calc W.domainTotal d
        ≤ {s ∈ W.servers | W.domain s = d}.card • (1 / 30 : ℝ) :=
          Finset.sum_le_card_nsmul _ _ _ fun s hs => hle s (Finset.mem_filter.mp hs).1
      _ ≤ 1 • (1 / 30 : ℝ) := by
          gcongr
          exact (Finset.card_le_card hone).trans_eq (Finset.card_singleton _)
      _ ≤ ScoreboardConfig.default.domainCapacityFraction * W.total := by
          rw [htotal]
          norm_num
  refine ⟨hnew, _, updateScores_eq ScoreboardConfig.default_valid, ?_, ?_⟩
  · show ((nextMap ScoreboardConfig.default apartBoard.inner allButFirst 0 9).keys.card : ℝ) * _ ≤
      1
    rw [hnew.keys_nextMap, keys_apartBoard, List.toFinset_card_of_nodup (nodup_backendIds 33),
      length_backendIds]
    norm_num
  · show weightOf (nextMap ScoreboardConfig.default apartBoard.inner allButFirst 0 9) ⟨0⟩ < _
    rw [weightOf_nextMap_capFree hold hfree (fun t ht => ?_) 9 hmem, ← hW, htotal, hx _ hmem,
      if_pos rfl]
    · norm_num
    · rw [hx t ht]
      split <;> norm_num

end ScalableBooking.RouterCore
