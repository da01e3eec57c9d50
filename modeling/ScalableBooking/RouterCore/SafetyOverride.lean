import Mathlib.Analysis.Complex.ExponentialBounds
import ScalableBooking.RouterCore.PoolStep
import ScalableBooking.RouterCore.Router

/-!
# The safety override beats the weights

A threshold that is exceeded multiplies the effective weight by `1 / 10`, so the override
decides as long as no two base weights are ten times apart. They never are: on the board of
a proxy every weight is at most `exp 2` times every other one, whatever has been observed.

The bound is an invariant of `poolStep` (`poolStep_ratio`). Raw weights lie in `[exp (-2), 1]`
and so have the ratio by themselves; smoothing, the upper bound of the clamp, the floor and
the normalisation respect any ratio. The lower bound of the clamp respects it too, except
for a weight below the floor, where the clamp is wider than a tenth of the weight. There the
raw weight is above the old one and the lower bound is not reached (`moved_ratio`).

The other half is staleness. The router replaces a stale weight by an equal share, which
would break the ratio if it hit one candidate only. Before the first synchronisation the
weights are the equal share, and afterwards all scores have the same age (`SameAge`).
-/

namespace ScalableBooking.RouterCore

variable {S : Finset ServerId} {m : ScoreMap} {preds : Predictions} {now : Instant}
  {s : ServerId}

/-! ### The ratio through one step -/

theorem exp_two_lt_ten : Real.exp 2 < 10 := by
  have h3 : Real.exp 1 < 3 := Real.exp_one_lt_three
  have hpos : 0 < Real.exp 1 := Real.exp_pos 1
  calc Real.exp 2 = Real.exp 1 * Real.exp 1 := by
        rw [← Real.exp_add]
        norm_num
    _ < 10 := by nlinarith

theorem one_le_exp_two : 1 ≤ Real.exp 2 := Real.one_le_exp (by norm_num)

/-- Every raw weight is at least `exp (-2)`. -/
theorem exp_neg_two_le_rawWeight {r h : ℝ} (hr : r ≤ 1) (hh : h ≤ 1) :
    Real.exp (-2) ≤ rawWeight r h := by
  rw [rawWeight, ← Real.exp_add]
  apply Real.exp_le_exp.mpr
  linarith

theorem rawWeight_le_one {r h : ℝ} (hr : 0 ≤ r) (hh : 0 ≤ h) : rawWeight r h ≤ 1 := by
  rw [rawWeight, ← Real.exp_add]
  apply Real.exp_le_one_iff.mpr
  linarith

/-- Two raw weights are at most `exp 2` apart. -/
theorem rawWeight_ratio {r h r' h' : ℝ} (hr : 0 ≤ r) (hh : 0 ≤ h) (hr' : r' ≤ 1)
    (hh' : h' ≤ 1) : rawWeight r h ≤ Real.exp 2 * rawWeight r' h' := by
  -- the largest raw weight is one, the smallest `exp (-2)`
  have hone : Real.exp 2 * Real.exp (-2) = 1 := by
    rw [← Real.exp_add]
    norm_num
  calc rawWeight r h ≤ 1 := rawWeight_le_one hr hh
    _ = Real.exp 2 * Real.exp (-2) := hone.symm
    _ ≤ Real.exp 2 * rawWeight r' h' :=
        mul_le_mul_of_nonneg_left (exp_neg_two_le_rawWeight hr' hh') (Real.exp_pos 2).le

/-- Smoothing and the clamp respect a ratio, as long as raw weights are above the floor. -/
theorem moved_ratio {R raw raw' w w' : ℝ} (hR : 1 ≤ R) (hraw : raw ≤ R * raw')
    (hraw' : 3 / 100 ≤ raw') (hw : w ≤ R * w') : moved raw w ≤ R * moved raw' w' := by
  have hR₀ : 0 ≤ R := zero_le_one.trans hR
  -- the width of the clamp keeps the ratio, and so does the smoothed weight
  have hmax : max w (3 / 100) ≤ R * max w' (3 / 100) := by
    refine max_le ?_ ?_
    · exact hw.trans (mul_le_mul_of_nonneg_left (le_max_left _ _) hR₀)
    · have hfloor : (3 / 100 : ℝ) ≤ max w' (3 / 100) := le_max_right _ _
      nlinarith
  have hsmooth : 3 / 10 * raw + 7 / 10 * w ≤ R * (3 / 10 * raw' + 7 / 10 * w') := by linarith
  rw [moved_eq, moved_eq]
  rcases min_choice (max (3 / 10 * raw' + 7 / 10 * w') (w' - max w' (3 / 100) / 10))
    (w' + max w' (3 / 100) / 10) with hsel | hsel
  · -- the smaller one has not reached its upper bound
    unfold clamp
    rw [hsel]
    refine (min_le_left _ _).trans (max_le ?_ ?_)
    · exact hsmooth.trans (mul_le_mul_of_nonneg_left (le_max_left _ _) hR₀)
    · by_cases hlow : 3 / 100 ≤ w'
      · -- both lower bounds are proportional
        refine le_trans ?_ (mul_le_mul_of_nonneg_left (le_max_right _ _) hR₀)
        rw [max_eq_left hlow]
        have hself : w ≤ max w (3 / 100) := le_max_left _ _
        linarith
      · -- the smaller one moves up, so staying put is enough for it
        refine le_trans ?_ (mul_le_mul_of_nonneg_left (le_max_left _ _) hR₀)
        have hup : w' ≤ 3 / 10 * raw' + 7 / 10 * w' := by linarith
        have hδ : 0 ≤ max w (3 / 100) := le_trans (by norm_num) (le_max_right w (3 / 100))
        calc w - max w (3 / 100) / 10 ≤ w := by linarith
          _ ≤ R * w' := hw
          _ ≤ R * (3 / 10 * raw' + 7 / 10 * w') := mul_le_mul_of_nonneg_left hup hR₀
  · -- the smaller one is at its upper bound
    have hhi : clamp (3 / 10 * raw' + 7 / 10 * w') (w' - max w' (3 / 100) / 10)
        (w' + max w' (3 / 100) / 10) = w' + max w' (3 / 100) / 10 := hsel
    rw [hhi]
    refine (clamp_le _ _ _).trans ?_
    linarith

theorem settled_ratio {R raw raw' w w' : ℝ} (hR : 1 ≤ R)
    (h : moved raw w ≤ R * moved raw' w') : settled raw w ≤ R * settled raw' w' := by
  have hR₀ : 0 ≤ R := zero_le_one.trans hR
  unfold settled
  refine max_le ?_ ?_
  · have hleft : 2 / 5 * moved raw' w' ≤ max (2 / 5 * moved raw' w') (3 / 100) :=
      le_max_left _ _
    nlinarith
  · have hright : (3 / 100 : ℝ) ≤ max (2 / 5 * moved raw' w') (3 / 100) := le_max_right _ _
    nlinarith

/-- **A ratio that raw and old weights have is one the published weights have.** -/
theorem poolStep_ratio {R : ℝ} {raw w : ServerId → ℝ} {i j : ServerId} (hi : i ∈ S)
    (hR : 1 ≤ R) (hraw : raw i ≤ R * raw j) (hrawj : 3 / 100 ≤ raw j) (hw : w i ≤ R * w j) :
    poolStep S raw w i ≤ R * poolStep S raw w j := by
  -- both weights are divided by the same sum
  have hZ := sum_settled_pos hi raw w
  unfold poolStep
  rw [← mul_div_assoc]
  exact div_le_div_of_nonneg_right
    (settled_ratio hR (moved_ratio hR hraw hrawj hw)) hZ.le

/-! ### The invariant of a proxy's board -/

/-- Every entry is as old as every other one, or all weights are the equal share. -/
def SameAge (S : Finset ServerId) (m : ScoreMap) : Prop :=
  (∀ s ∈ S, weightOf m s = 1 / (S.card : ℝ)) ∨
    ∃ t, ∀ s sc, m.lookup s = some sc → sc.updatedAt = t

/-- What holds of a proxy's board between two synchronisations. -/
structure ProxyBoard (S : Finset ServerId) (m : ScoreMap) : Prop where
  isPool : IsPool S m
  ratio : ∀ i ∈ S, ∀ j ∈ S, weightOf m i ≤ Real.exp 2 * weightOf m j
  sameAge : SameAge S m

theorem proxyBoard_poolBoard {pool : List ServerId} (hnd : pool.Nodup)
    (created : ℕ → Instant) : ProxyBoard pool.toFinset (poolBoard pool created).inner where
  isPool := isPool_poolBoard pool created
  ratio := by
    intro i hi j hj
    -- at the start all weights are one and the same
    have hequal : weightOf (poolBoard pool created).inner i =
        weightOf (poolBoard pool created).inner j := by
      rw [weightOf_poolBoard created (List.mem_toFinset.mp hi),
        weightOf_poolBoard created (List.mem_toFinset.mp hj)]
    rw [hequal]
    have hpos := (isPool_poolBoard pool created).weight_pos j hj
    exact le_mul_of_one_le_left hpos.le one_le_exp_two
  sameAge := by
    refine Or.inl fun s hs => ?_
    rw [weightOf_poolBoard created (List.mem_toFinset.mp hs), List.toFinset_card_of_nodup hnd]

/-- A synchronisation that predicts the whole pool preserves the invariant. -/
theorem ProxyBoard.nextMap (h : ProxyBoard S m) (hp : preds.keys = S) (now : Instant) :
    ProxyBoard S (nextMap ScoreboardConfig.default m preds 0 now) where
  isPool := h.isPool.nextMap hp
  ratio := by
    intro i hi j hj
    have hri := riskOf_mem (hp.symm ▸ hi)
    have hrj := riskOf_mem (hp.symm ▸ hj)
    have hhi := h.isPool.healthAfter_mem hp hi
    have hhj := h.isPool.healthAfter_mem hp hj
    have hfloor : 3 / 100 ≤ rawOf m preds j := by
      -- `exp (-2)` is above a tenth
      have hten : (1 / 10 : ℝ) ≤ Real.exp (-2) := by
        rw [Real.exp_neg, ← one_div]
        exact one_div_le_one_div_of_le (Real.exp_pos 2) exp_two_lt_ten.le
      have hraw := exp_neg_two_le_rawWeight hrj.2 hhj.2
      unfold rawOf
      linarith
    rw [h.isPool.weightOf_nextMap hp hi, h.isPool.weightOf_nextMap hp hj]
    exact poolStep_ratio hi one_le_exp_two (rawWeight_ratio hri.1 hhi.1 hrj.2 hhj.2) hfloor
      (h.ratio i hi j hj)
  sameAge := by
    refine Or.inr ⟨now, fun s sc hsc => ?_⟩
    -- all entries were rewritten now
    have hnext : IsPool S (RouterCore.nextMap ScoreboardConfig.default m preds 0 now) :=
      h.isPool.nextMap hp
    have hs : s ∈ S := by
      rw [← hnext.keys_eq]
      exact Finmap.mem_keys.mpr (Finmap.mem_of_lookup_eq_some hsc)
    obtain ⟨sc', hsc', -, hnow⟩ := h.isPool.lookup_nextMap now hp hs
    rw [hsc', Option.some.injEq] at hsc
    rw [← hsc, hnow]

/-! ### Base weights -/

/-- The base weights of a router over a proxy's board are at most `exp 2` apart, at every
instant: fresh or stale, all of them are of one kind. -/
theorem ProxyBoard.baseOf_ratio {r : Router} (h : ProxyBoard S r.scoreboard.inner)
    (hlen : r.servers.length = S.card) (now : Instant) {a b : ServerId} (ha : a ∈ S)
    (hb : b ∈ S) : 0 < r.baseOf now b ∧ r.baseOf now a ≤ Real.exp 2 * r.baseOf now b := by
  obtain ⟨sa, hsa⟩ := Finmap.exists_lookup_of_mem_keys (h.isPool.keys_eq.symm ▸ ha)
  obtain ⟨sb, hsb⟩ := Finmap.exists_lookup_of_mem_keys (h.isPool.keys_eq.symm ▸ hb)
  have hcard : (0 : ℝ) < S.card := by
    exact_mod_cast Finset.card_pos.mpr ⟨a, ha⟩
  have hshare : (0 : ℝ) < 1 / S.card := one_div_pos.mpr hcard
  -- the equal share of the router is that of the pool
  have hbase : ∀ t sc, r.scoreboard.inner.lookup t = some sc → r.baseOf now t =
      if durationSince now sc.updatedAt < r.scoreboard.stalenessTtl then sc.weight
      else 1 / (S.card : ℝ) := by
    intro t sc htsc
    rw [Router.baseOf, htsc, Router.baseWeight, hlen]
  rw [hbase a sa hsa, hbase b sb hsb]
  rcases h.sameAge with hequal | ⟨t, hage⟩
  · -- no synchronisation yet: a fresh weight is the equal share too
    have hwa : sa.weight = 1 / (S.card : ℝ) := by
      rw [← weightOf_of_lookup hsa]
      exact hequal a ha
    have hwb : sb.weight = 1 / (S.card : ℝ) := by
      rw [← weightOf_of_lookup hsb]
      exact hequal b hb
    rw [hwa, hwb, ite_self, ite_self]
    exact ⟨hshare, le_mul_of_one_le_left hshare.le one_le_exp_two⟩
  · -- one age: both are fresh or both are stale
    rw [hage a sa hsa, hage b sb hsb]
    split
    · rw [← weightOf_of_lookup hsa, ← weightOf_of_lookup hsb]
      exact ⟨h.isPool.weight_pos b hb, h.ratio a ha b hb⟩
    · exact ⟨hshare, le_mul_of_one_le_left hshare.le one_le_exp_two⟩

/-- More exceeded thresholds mean a strictly smaller effective weight. -/
theorem ProxyBoard.effectiveOf_lt {r : Router} (h : ProxyBoard S r.scoreboard.inner)
    (hlen : r.servers.length = S.card) {fastSignals : SignalMap} {a b : ServerId}
    (ha : a ∈ S) (hb : b ∈ S)
    (hlt : r.exceeded (fastSignals.lookup b) < r.exceeded (fastSignals.lookup a)) :
    r.effectiveOf fastSignals now a < r.effectiveOf fastSignals now b := by
  obtain ⟨hpos, hratio⟩ := h.baseOf_ratio hlen now ha hb
  -- one more factor for `a`, and perhaps others
  obtain ⟨k, hk⟩ : ∃ k, r.exceeded (fastSignals.lookup a) =
      r.exceeded (fastSignals.lookup b) + 1 + k := ⟨_, (Nat.add_sub_of_le hlt).symm⟩
  have hpow : (0 : ℝ) < (1 / 10 : ℝ) ^ r.exceeded (fastSignals.lookup b) := by positivity
  have hbase₀ : 0 < r.baseOf now a := (h.baseOf_ratio hlen now ha ha).1
  rw [Router.effectiveOf_eq, Router.effectiveOf_eq, hk]
  calc r.baseOf now a * (1 / 10 : ℝ) ^ (r.exceeded (fastSignals.lookup b) + 1 + k)
      ≤ r.baseOf now a * (1 / 10 : ℝ) ^ (r.exceeded (fastSignals.lookup b) + 1) := by
        refine mul_le_mul_of_nonneg_left ?_ hbase₀.le
        exact pow_le_pow_of_le_one (by norm_num) (by norm_num) (Nat.le_add_right _ _)
    _ = r.baseOf now a / 10 * (1 / 10 : ℝ) ^ r.exceeded (fastSignals.lookup b) := by ring
    _ < r.baseOf now b * (1 / 10 : ℝ) ^ r.exceeded (fastSignals.lookup b) := by
        refine mul_lt_mul_of_pos_right ?_ hpow
        have hten := exp_two_lt_ten
        have hstep : Real.exp 2 * r.baseOf now b < 10 * r.baseOf now b :=
          mul_lt_mul_of_pos_right hten hpos
        linarith

/-! ### Every run of a proxy -/

/-- `sync_scoreboard`: an update with the given predictions at load zero. -/
noncomputable def syncCall (sync : Predictions × Instant) : WriterCall :=
  .updateScores sync.1 0 sync.2

/-- Every sequence of synchronisations of the whole pool leaves a proxy's board. -/
theorem proxyBoard_writes {pool : List ServerId} (hnd : pool.Nodup) (created : ℕ → Instant)
    {syncs : List (Predictions × Instant)}
    (hcover : ∀ sync ∈ syncs, sync.1.keys = pool.toFinset) :
    ∃ sb, (poolBoard pool created).writes (syncs.map syncCall) = some sb ∧
      sb.config = ScoreboardConfig.default ∧ ProxyBoard pool.toFinset sb.inner := by
  refine Scoreboard.writes_induction ScoreboardConfig.default_valid
    (proxyBoard_poolBoard hnd created) ?_
  intro m call hcall hm
  obtain ⟨sync, hsync, rfl⟩ := List.mem_map.mp hcall
  exact hm.nextMap (hcover sync hsync) sync.2

/-- Over the board `sb` and the pool `servers`, the override decides: whatever the
thresholds, the generator, the signals and the clock are, `choose_server` returns one of
its two candidates, and that one exceeds no more thresholds than the other. -/
def OverrideDecides (sb : Scoreboard) (servers : List ServerId) : Prop :=
  ∀ (safety : SafetyThresholds) (rngState : BitVec 64) (fastSignals : SignalMap)
    (now : Instant) (hpos : 0 < servers.length),
    let r : Router := ⟨sb, servers, safety, rngState⟩
    let a := (r.candidates hpos).1
    let b := (r.candidates hpos).2
    ((r.chooseServer fastSignals now).1 = some a ∧
        r.exceeded (fastSignals.lookup a) ≤ r.exceeded (fastSignals.lookup b)) ∨
      ((r.chooseServer fastSignals now).1 = some b ∧
        r.exceeded (fastSignals.lookup b) ≤ r.exceeded (fastSignals.lookup a))

theorem ProxyBoard.overrideDecides {pool : List ServerId} {sb : Scoreboard}
    (h : ProxyBoard pool.toFinset sb.inner) (hnd : pool.Nodup) (h1 : pool.length ≠ 1) :
    OverrideDecides sb pool := by
  intro safety rngState fastSignals now hpos r a b
  have hlen : r.servers.length = pool.toFinset.card :=
    (List.toFinset_card_of_nodup hnd).symm
  obtain ⟨ha, hb⟩ := r.candidates_mem hpos
  rw [r.chooseServer_eq_better hpos h1]
  obtain ⟨hwin, hle⟩ | ⟨hwin, hlt⟩ := r.better_spec fastSignals now a b
  · refine Or.inl ⟨congrArg some hwin, ?_⟩
    by_contra hmore
    exact hle.not_gt (h.effectiveOf_lt hlen (List.mem_toFinset.mpr ha)
      (List.mem_toFinset.mpr hb) (not_le.mp hmore))
  · refine Or.inr ⟨congrArg some hwin, ?_⟩
    by_contra hmore
    exact hlt.not_gt (h.effectiveOf_lt hlen (List.mem_toFinset.mpr hb)
      (List.mem_toFinset.mpr ha) (not_le.mp hmore))

/-- **The safety override beats the weights.** For a pool of two or more backends, every
sequence of synchronisations that predict the whole pool returns, and over the board it
leaves the override decides. -/
theorem Router.overrideDecides_writes {n : ℕ} (hn : 2 ≤ n) (created : ℕ → Instant)
    {syncs : List (Predictions × Instant)}
    (hcover : ∀ sync ∈ syncs, sync.1.keys = (backendIds n).toFinset) :
    ∃ sb, (poolBoard (backendIds n) created).writes (syncs.map syncCall) = some sb ∧
      OverrideDecides sb (backendIds n) := by
  obtain ⟨sb, hsb, -, hboard⟩ := proxyBoard_writes (nodup_backendIds n) created hcover
  have h1 : (backendIds n).length ≠ 1 := by
    rw [length_backendIds]
    omega
  exact ⟨sb, hsb, hboard.overrideDecides (nodup_backendIds n) h1⟩

/-- Two backends, synchronised twice. -/
theorem Router.overrideDecides_writes_riskPair :
    ∃ sb, (poolBoard (backendIds 2) fun i => i).writes
        ([(riskPair 1, 9), (riskPair 0, 12)].map syncCall) = some sb ∧
      OverrideDecides sb (backendIds 2) := by
  refine overrideDecides_writes le_rfl _ ?_
  intro sync hsync
  have hsync' : sync = (riskPair 1, 9) ∨ sync = (riskPair 0, 12) := by simpa using hsync
  rcases hsync' with rfl | rfl <;> exact keys_riskPair _

end ScalableBooking.RouterCore
