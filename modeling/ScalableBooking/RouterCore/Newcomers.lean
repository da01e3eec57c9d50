import ScalableBooking.RouterCore.Moves

/-!
# Servers that join a pool

A pool of one domain, and an update that predicts only servers which are not on the board
yet, all of them safe and healthy. Each newcomer is inserted with the raw weight one,
whatever the weights of the pool are, and the pool is diluted (`weightOf_nextMap_newcomers`).
-/

namespace ScalableBooking.RouterCore

variable {load : ℝ} {now : Instant} {s : ServerId}

/-- Predictions that find every server of the list safe and healthy. -/
noncomputable def newcomers (ids : List ServerId) : Predictions :=
  Finmap.insertAll id (fun _ => ⟨0, 0, 1, 0⟩) ids ∅

theorem mem_newcomers {ids : List ServerId} : s ∈ newcomers ids ↔ s ∈ ids := by
  rw [newcomers, Finmap.mem_insertAll, List.map_id]
  simp only [Finmap.notMem_empty, or_false]

theorem keys_newcomers (ids : List ServerId) : (newcomers ids).keys = ids.toFinset := by
  ext s
  rw [Finmap.mem_keys, mem_newcomers, List.mem_toFinset]

theorem lookup_newcomers {ids : List ServerId} {pred : ServerPrediction}
    (h : (newcomers ids).lookup s = some pred) : ⟨0, 0, 1, 0⟩ = pred := by
  obtain ⟨e, -, -, hpred⟩ | h₀ := Finmap.exists_of_lookup_insertAll h
  · exact hpred
  · rw [Finmap.lookup_empty] at h₀
    exact absurd h₀ (by simp)

theorem rawWeight_newcomer :
    rawWeight (effectiveRisk ScoreboardConfig.default ⟨0, 0, 1, 0⟩) (clamp 0 0 1) = 1 := by
  have h₀ : clamp (0 : ℝ) 0 1 = 0 := clamp_of_mem le_rfl zero_le_one
  simp [rawWeight, effectiveRisk, h₀]

section Pool

variable {pool ids : List ServerId} {created : ℕ → Instant}

theorem weightOf_rebuildMap_pool (hs : s ∈ pool) (hdisj : pool.Disjoint ids) :
    weightOf (rebuildMap ScoreboardConfig.default (poolBoard pool created).inner (newcomers ids)
      load now) s = 1 / (pool.length : ℝ) := by
  obtain ⟨i, hi⟩ := lookup_poolBoard created hs
  have hnew : (newcomers ids).lookup s = none :=
    Finmap.lookup_eq_none.mpr fun h => hdisj hs (mem_newcomers.mp h)
  rw [weightOf_of_lookup (lookup_rebuildMap_kept hi hnew)]

theorem weightOf_rebuildMap_newcomer (hs : s ∈ ids) (hdisj : pool.Disjoint ids) :
    weightOf (rebuildMap ScoreboardConfig.default (poolBoard pool created).inner (newcomers ids)
      load now) s = 1 := by
  have hold : (poolBoard pool created).inner.lookup s = none := by
    rw [Finmap.lookup_eq_none, ← Finmap.mem_keys, keys_poolBoard,
      List.mem_toFinset]
    exact fun hpool => hdisj hpool hs
  obtain ⟨pred, hpred⟩ := Finmap.mem_iff.mp (mem_newcomers.mpr hs)
  -- a prediction of the list, and all of them are the same
  obtain rfl := lookup_newcomers hpred
  rw [weightOf_of_lookup (lookup_rebuildMap_inserted hold hpred)]
  exact rawWeight_newcomer

/-- The pool keeps a total of one, and every newcomer adds one. -/
theorem totalWeight_rebuildMap_newcomers (hpool : pool.Nodup) (hne : pool ≠ [])
    (hids : ids.Nodup) (hdisj : pool.Disjoint ids) :
    totalWeight (rebuildMap ScoreboardConfig.default (poolBoard pool created).inner
      (newcomers ids) load now) = 1 + ids.length := by
  have hlen : (pool.length : ℝ) ≠ 0 := by
    exact_mod_cast (List.length_pos_of_ne_nil hne).ne'
  rw [totalWeight_eq_sum, keys_rebuildMap, keys_poolBoard, keys_newcomers,
    Finset.sum_union (List.disjoint_toFinset_iff_disjoint.mpr hdisj)]
  congr 1
  · rw [Finset.sum_congr rfl fun s hs =>
      weightOf_rebuildMap_pool (List.mem_toFinset.mp hs) hdisj]
    -- equal shares of one
    rw [Finset.sum_const, List.toFinset_card_of_nodup hpool, nsmul_eq_mul,
      mul_one_div_cancel hlen]
  · rw [Finset.sum_congr rfl fun s hs =>
      weightOf_rebuildMap_newcomer (List.mem_toFinset.mp hs) hdisj]
    -- one each
    rw [Finset.sum_const, List.toFinset_card_of_nodup hids, nsmul_eq_mul, mul_one]

/-- As long as the floor lifts nobody, the share of a pool member is diluted to
`1 / (1 + newcomers)` of what it was. -/
theorem weightOf_nextMap_newcomers (hpool : pool.Nodup) (hids : ids.Nodup)
    (hdisj : pool.Disjoint ids) (hlen : (pool.length : ℝ) ≤ 40 / 3) (hs : s ∈ pool) :
    weightOf (nextMap ScoreboardConfig.default (poolBoard pool created).inner (newcomers ids)
      load now) s = 1 / (pool.length : ℝ) / (1 + ids.length) := by
  have hlen₀ : (0 : ℝ) < pool.length := by
    exact_mod_cast List.length_pos_of_mem hs
  have hkeys : (poolBoard pool created).inner.keys = pool.toFinset :=
    keys_poolBoard _ _
  -- one domain and nobody lifted, so only the total matters
  have hT : totalWeight (rebuildMap ScoreboardConfig.default (poolBoard pool created).inner
      (newcomers ids) load now) = 1 + ids.length :=
    totalWeight_rebuildMap_newcomers hpool (List.ne_nil_of_mem hs) hids hdisj
  rw [weightOf_nextMap_oneDomain (inOneDomain_poolBoard _ _), hT,
    weightOf_rebuildMap_pool hs hdisj]
  · norm_num
  · norm_num
  · rw [hT]
    positivity
  · -- `2/5` of a share of at least `3/40` reaches the floor
    intro t ht
    rw [hkeys, keys_newcomers, Finset.mem_union, List.mem_toFinset, List.mem_toFinset] at ht
    rcases ht with ht | ht
    · rw [weightOf_rebuildMap_pool ht hdisj]
      have hshare : (3 : ℝ) / 40 ≤ 1 / pool.length := by
        rw [le_div_iff₀ hlen₀]
        linarith
      norm_num at hshare ⊢
      linarith
    · rw [weightOf_rebuildMap_newcomer ht hdisj]
      norm_num
  · rw [hkeys]
    exact Finset.mem_union_left _ (List.mem_toFinset.mpr hs)

end Pool

end ScalableBooking.RouterCore
