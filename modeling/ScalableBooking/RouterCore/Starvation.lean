import ScalableBooking.RouterCore.PoolStep
import ScalableBooking.RouterCore.Router

/-!
# Which servers can be chosen at all

The exploration floor keeps every published weight positive, but `choose_server` does not
draw servers in proportion to their weights. It compares two distinct candidates and the
larger effective weight wins, so a server is returned on some draw iff some other server of
the pool does not beat it (`exists_chooseServerAt_iff`). The one server with the strictly
lowest effective weight is never returned, whatever its weight is.

Effective weights are what the code computes, so the criterion is one about its own
arithmetic: it holds of every type of weights, `f64` and `ℝ` among them.
-/

namespace ScalableBooking.RouterCore

variable {s : ServerId}

namespace Router

/-- Two distinct servers are compared on some draw. -/
theorem exists_draw_of_ne {F : Type} {r : Router F} {t : ServerId} (hs : s ∈ r.servers)
    (ht : t ∈ r.servers) (hne : t ≠ s) :
    ∃ u v, r.servers.get u = s ∧ r.servers.get (avoidCollision u v) = t := by
  obtain ⟨u, rfl⟩ := List.mem_iff_get.mp hs
  obtain ⟨v, rfl⟩ := List.mem_iff_get.mp ht
  -- two positions, so there is no collision to resolve
  have huv : v ≠ u := by
    rintro rfl
    exact hne rfl
  exact ⟨u, v, rfl, by rw [avoidCollision_of_ne huv]⟩

section Criterion

variable {F : Type} [One F] [Mul F] [Div F] [NatCast F] [OfScientific F] [LE F] [DecidableLE F]
  {r : Router F} {fastSignals : SignalMap} {now : Instant}

/-- One of the two comparisons that `s` can have with `t` goes to `s`. The first candidate
wins ties, and the second one wins whenever the comparison fails, with a NaN too. -/
def NotBeatenBy (r : Router F) (fastSignals : SignalMap) (now : Instant) (s t : ServerId) :
    Prop :=
  r.effectiveOf fastSignals now t ≤ r.effectiveOf fastSignals now s ∨
    ¬ r.effectiveOf fastSignals now s ≤ r.effectiveOf fastSignals now t

/-- A server that is returned has been compared with another one and has not lost. -/
theorem exists_notBeatenBy_of_chooseServerAt (hnd : r.servers.Nodup)
    (h1 : r.servers.length ≠ 1) {u v : Fin r.servers.length}
    (huv : r.chooseServerAt fastSignals now u v = s) :
    ∃ t ∈ r.servers, t ≠ s ∧ r.NotBeatenBy fastSignals now s t := by
  rw [chooseServerAt_of_ne_one h1] at huv
  -- distinct positions hold distinct servers
  have hne : r.servers.get (avoidCollision u v) ≠ r.servers.get u := by
    intro h
    exact avoidCollision_ne h1 u v (hnd.injective_get h)
  unfold better at huv
  split at huv
  · next hle =>
    -- the first candidate is `s`, and its comparison has succeeded
    subst huv
    exact ⟨_, List.get_mem _ _, hne, Or.inl hle⟩
  · next hnle =>
    -- the second candidate is `s`, and the comparison of the first one has failed
    subst huv
    exact ⟨_, List.get_mem _ _, hne.symm, Or.inr hnle⟩

/-- A server that another one does not beat is returned on some draw of the two. -/
theorem exists_chooseServerAt_of_notBeatenBy (h1 : r.servers.length ≠ 1) {t : ServerId}
    (hs : s ∈ r.servers) (ht : t ∈ r.servers) (hne : t ≠ s)
    (hst : r.NotBeatenBy fastSignals now s t) :
    ∃ u v, r.chooseServerAt fastSignals now u v = s := by
  rcases hst with hle | hnle
  · -- draw `s` first, so that it also wins a tie
    obtain ⟨u, v, hu, hv⟩ := exists_draw_of_ne hs ht hne
    refine ⟨u, v, ?_⟩
    rw [chooseServerAt_of_ne_one h1, hu, hv, better, if_pos hle]
  · -- draw `s` second, so that it wins what fails for the other one
    obtain ⟨u, v, hu, hv⟩ := exists_draw_of_ne ht hs hne.symm
    refine ⟨u, v, ?_⟩
    rw [chooseServerAt_of_ne_one h1, hu, hv, better, if_neg hnle]

/-- **Which servers can be chosen.** In a pool of distinct servers, there is a pair of draws
on which `s` is returned iff `s` is alone or some other server does not beat it in the
comparison of their effective weights, whatever the arithmetic of the weights. -/
theorem exists_chooseServerAt_iff (hnd : r.servers.Nodup) (hs : s ∈ r.servers)
    (fastSignals : SignalMap) (now : Instant) :
    (∃ u v, r.chooseServerAt fastSignals now u v = s) ↔
      r.servers.length = 1 ∨ ∃ t ∈ r.servers, t ≠ s ∧ r.NotBeatenBy fastSignals now s t := by
  by_cases h1 : r.servers.length = 1
  · -- a pool of one returns its server without a draw
    have hpos : 0 < r.servers.length := by omega
    refine ⟨fun _ => Or.inl h1, fun _ => ⟨⟨0, hpos⟩, ⟨0, hpos⟩, ?_⟩⟩
    obtain ⟨⟨i, hi⟩, rfl⟩ := List.mem_iff_get.mp hs
    obtain rfl : i = 0 := by omega
    rw [chooseServerAt, if_pos h1]
  · refine ⟨?_, ?_⟩
    · rintro ⟨u, v, huv⟩
      exact Or.inr (exists_notBeatenBy_of_chooseServerAt hnd h1 huv)
    · rintro (h | ⟨t, ht, hne, hst⟩)
      · exact absurd h h1
      · exact exists_chooseServerAt_of_notBeatenBy h1 hs ht hne hst

end Criterion

/-- Over the reals one of the two effective weights is at most the other. -/
theorem notBeatenBy_iff_le {r : Router} {fastSignals : SignalMap} {now : Instant}
    {t : ServerId} : r.NotBeatenBy fastSignals now s t ↔
      r.effectiveOf fastSignals now t ≤ r.effectiveOf fastSignals now s := by
  refine ⟨?_, Or.inl⟩
  rintro (hle | hnle)
  · exact hle
  · exact (not_le.mp hnle).le

end Router

/-! ### Weights in `f64` -/

instance oneFloat : One Float := ⟨1.0⟩

instance natCastFloat : NatCast Float := ⟨Float.ofNat⟩

/-- A router over `f64` weights and the default knobs, with one fresh score and one server
without a score. -/
def floatRouter : Router Float where
  scoreboard :=
    ⟨Finmap.singleton ⟨0⟩ ⟨0.0, 1.0, 0.55, 0, ⟨0⟩, 0.0⟩,
      ⟨0.3, 0.10, 0.40, 0.03, 5 * 10 ^ 9, 0.05, 0.6, 0.0, 0.1⟩⟩
  servers := [⟨0⟩, ⟨1⟩]
  safety := SafetyThresholds.default
  rngState := 1

/-- The criterion in the arithmetic of the code. -/
theorem Router.exists_chooseServerAt_iff_float :
    (∃ u v, floatRouter.chooseServerAt ∅ 9 u v = ⟨1⟩) ↔
      floatRouter.servers.length = 1 ∨
        ∃ t ∈ floatRouter.servers, t ≠ ⟨1⟩ ∧ floatRouter.NotBeatenBy ∅ 9 ⟨1⟩ t :=
  exists_chooseServerAt_iff (by simp [floatRouter]) (by simp [floatRouter]) ∅ 9

/-! ### A pool of two with one risky server -/

/-- Two fresh backends, and one update that predicts the full risk for the second. -/
noncomputable def riskyBoard : ScoreMap :=
  nextMap ScoreboardConfig.default (poolBoard [⟨0⟩, ⟨1⟩] fun i => i).inner (riskPair 1) 0 9

/-- The safe server is moved up to the bound of the clamp, and `exp (-1)` is too little to
carry the risky one that far. -/
theorem weightOf_riskyBoard_lt : weightOf riskyBoard ⟨1⟩ < weightOf riskyBoard ⟨0⟩ := by
  have hpool : IsPool [⟨0⟩, ⟨1⟩].toFinset (poolBoard [⟨0⟩, ⟨1⟩] fun i => i).inner :=
    isPool_poolBoard _ _
  have hmem₀ : (⟨0⟩ : ServerId) ∈ [(⟨0⟩ : ServerId), ⟨1⟩] := by simp
  have hmem₁ : (⟨1⟩ : ServerId) ∈ [(⟨0⟩ : ServerId), ⟨1⟩] := by simp
  have hw₀ : weightOf (poolBoard [⟨0⟩, ⟨1⟩] fun i => i).inner ⟨0⟩ = 1 / 2 := by
    rw [weightOf_poolBoard _ hmem₀]
    norm_num
  have hw₁ : weightOf (poolBoard [⟨0⟩, ⟨1⟩] fun i => i).inner ⟨1⟩ = 1 / 2 := by
    rw [weightOf_poolBoard _ hmem₁]
    norm_num
  have hc₀ : clamp (0 : ℝ) 0 1 = 0 := clamp_of_mem le_rfl zero_le_one
  have hc₁ : clamp (1 : ℝ) 0 1 = 1 := clamp_of_mem zero_le_one le_rfl
  obtain ⟨hp₀, hp₁⟩ := lookup_riskPair 1
  -- nothing has been observed, so the raw weights differ by the risk alone
  have hraw₀ : rawOf (poolBoard [⟨0⟩, ⟨1⟩] fun i => i).inner (riskPair 1) ⟨0⟩ = 1 := by
    rw [rawOf_poolBoard _ hmem₀ hp₀]
    simp [effectiveRisk, hc₀, rawWeight]
  have hraw₁ : rawOf (poolBoard [⟨0⟩, ⟨1⟩] fun i => i).inner (riskPair 1) ⟨1⟩ =
      Real.exp (-1) := by
    rw [rawOf_poolBoard _ hmem₁ hp₁]
    simp [effectiveRisk, hc₀, hc₁, rawWeight]
  -- below `2/3`, smoothing does not reach the upper bound of the clamp
  have hexp : Real.exp (-1) < 2 / 3 := by
    have htwo : (2 : ℝ) ≤ Real.exp 1 := by linarith [Real.add_one_le_exp (1 : ℝ)]
    rw [Real.exp_neg, inv_lt_comm₀ (by positivity) (by norm_num)]
    linarith
  -- the safe server is at its upper bound, the risky one is not
  have hup : moved 1 (1 / 2) = 11 / 20 := by
    rw [moved_eq, clamp_of_hi_le] <;> norm_num
  have hlow : moved (Real.exp (-1)) (1 / 2) < 11 / 20 := by
    rw [moved_eq]
    refine (clamp_le_max _ _ _).trans_lt (max_lt ?_ ?_)
    · linarith
    · norm_num
  have hsettled : settled (Real.exp (-1)) (1 / 2) < settled 1 (1 / 2) := by
    unfold settled
    rw [hup]
    refine max_lt (lt_max_of_lt_left ?_) (lt_max_of_lt_left ?_)
    · linarith
    · norm_num
  unfold riskyBoard
  rw [hpool.weightOf_nextMap (keys_riskPair 1) (by simp),
    hpool.weightOf_nextMap (keys_riskPair 1) (by simp), poolStep, poolStep, hraw₀, hraw₁, hw₀,
    hw₁]
  exact div_lt_div_of_pos_right hsettled (sum_settled_pos (s := ⟨0⟩) (by simp) _ _)

/-- The router over that board, with every signal quiet. -/
noncomputable def riskyRouter : Router where
  scoreboard := ⟨riskyBoard, ScoreboardConfig.default⟩
  servers := [⟨0⟩, ⟨1⟩]
  safety := SafetyThresholds.default
  rngState := 1

/-- **A starved server.** The board is published by one default update of a fresh pool, all
weights are positive, no signal is tripped, and no pair of draws returns server `1`. -/
theorem Router.chooseServerAt_ne_risky :
    (poolBoard [⟨0⟩, ⟨1⟩] fun i => i).updateScores (riskPair 1) 0 9 =
        some riskyRouter.scoreboard ∧
      ⟨1⟩ ∈ riskyRouter.servers ∧
      ∀ u v, riskyRouter.chooseServerAt ∅ 9 u v ≠ ⟨1⟩ := by
  refine ⟨Scoreboard.updateScores_eq ScoreboardConfig.default_valid, by simp [riskyRouter], ?_⟩
  intro u v huv
  obtain ⟨t, ht, hne, hst⟩ := exists_notBeatenBy_of_chooseServerAt
    (show riskyRouter.servers.Nodup by simp [riskyRouter]) (by simp [riskyRouter]) huv
  have hle := notBeatenBy_iff_le.mp hst
  -- the only other server is the safe one
  obtain rfl : t = ⟨0⟩ := by
    have ht' : t = ⟨0⟩ ∨ t = ⟨1⟩ := by simpa [riskyRouter] using ht
    exact ht'.resolve_right hne
  -- both scores were refreshed at the instant of the decision
  have hfresh : ∀ s ∈ [(⟨0⟩ : ServerId), ⟨1⟩],
      riskyRouter.baseOf 9 s = weightOf riskyBoard s := by
    intro s hs
    obtain ⟨sc, hsc, -, hnow⟩ := (isPool_poolBoard [⟨0⟩, ⟨1⟩] fun i => i).lookup_nextMap 9
      (keys_riskPair 1) (List.mem_toFinset.mpr hs)
    have hsc' : riskyRouter.scoreboard.inner.lookup s = some sc := hsc
    rw [baseOf, hsc']
    show (if durationSince 9 sc.updatedAt < _ then sc.weight else _) = _
    rw [hnow, if_pos]
    · exact (weightOf_of_lookup hsc).symm
    simp [durationSince, riskyRouter, Scoreboard.stalenessTtl, ScoreboardConfig.default]
  rw [effectiveOf_eq, effectiveOf_eq, hfresh ⟨0⟩ (by simp), hfresh ⟨1⟩ (by simp)] at hle
  simp only [Finmap.lookup_empty, exceeded, pow_zero, mul_one] at hle
  exact absurd hle (not_le.mpr weightOf_riskyBoard_lt)

end ScalableBooking.RouterCore
