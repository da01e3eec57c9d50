import Mathlib.Analysis.Complex.ExponentialBounds
import ScalableBooking.RouterCore.DomainCap
import ScalableBooking.RouterCore.Newcomers

/-!
# The max-shift bound in the published map

The clamp keeps every weight within `max_delta` of where it was, and then every weight is
divided by the sum of all of them. The sum is not one in general: the clamp lets everybody
move the same way, a new server comes in with a raw weight of up to one, the caps shrink
whole domains. So the bound does not hold of the published map.

It holds after every update that meets `ShiftKept`, a condition on the board and on what the
predictions ask for (`shift_le_of_writes`). With weights that sum to one and passes that only
divide, a server with weight `w` whose own move is `m` is published at `(w + m) / (1 + m + D)`,
where `D` is what the others move. Asked up, it stays within the bound unless the others move
down by more than it can move itself; asked down, unless they move up by more; and not asked
at all, unless they move down by a tenth of nearly everything (`abs_share_sub_le_tenth`).
-/

namespace ScalableBooking.RouterCore

variable {old : ScoreMap} {preds : Predictions} {load : ℝ} {now : Instant} {s : ServerId}

/-! ### The condition -/

section Others

variable (old : ScoreMap) (preds : Predictions) (s : ServerId)

open Classical in
/-- The weight of the other servers that are asked up. -/
noncomputable def othersMore : ℝ :=
  ∑ t ∈ old.keys.erase s with AsksMore old preds t, weightOf old t

open Classical in
/-- The weight of the other servers that are asked down. -/
noncomputable def othersLess : ℝ :=
  ∑ t ∈ old.keys.erase s with AsksLess old preds t, weightOf old t

end Others

/-- No server is asked the other way by less than it weighs itself, and none is left alone
while ten elevenths of the weight are asked down. -/
structure Balanced (old : ScoreMap) (preds : Predictions) : Prop where
  more : ∀ s ∈ old.keys, AsksMore old preds s → othersLess old preds s ≤ weightOf old s
  less : ∀ s ∈ old.keys, AsksLess old preds s → othersMore old preds s ≤ weightOf old s
  others : ∀ s ∈ old.keys, othersLess old preds s ≤ 10 / 11

/-- The caps and the floor change nobody's share. -/
def PassesIdle (old : ScoreMap) (preds : Predictions) : Prop :=
  (CapsIdle old preds ∧ FloorIdle old preds) ∨
    ∃ d, InOneDomain old d ∧ ∀ s ∈ old.keys, ScoreboardConfig.default.minWeight ≤
      ScoreboardConfig.default.domainCapacityFraction * lowest old preds s

/-- What the max-shift bound asks of a board and the predictions for it. -/
structure ShiftKept (old : ScoreMap) (preds : Predictions) : Prop where
  noNewcomer : NoNewcomer old preds
  total_eq_one : totalWeight old = 1
  passesIdle : PassesIdle old preds
  balanced : Balanced old preds

/-! ### One share -/

/-- A share of a sum that is moved by the server's own `m` and by the others' `D`. -/
theorem abs_share_sub_le_tenth {w m D : ℝ} (hw : 0 ≤ w) (hm : |m| ≤ w / 10)
    (hlo : -((1 - w) / 10) ≤ D) (hhi : D ≤ (1 - w) / 10) (hdown : -(1 / 11) ≤ D)
    (hup : 0 < m → -(w / 10) ≤ D) (hless : m < 0 → D ≤ w / 10) :
    |(w + m) / (1 + (m + D)) - w| ≤ w / 10 := by
  obtain ⟨hm₀, hm₁⟩ := abs_le.mp hm
  have hX : 0 < 1 + (m + D) := by linarith
  have hw₁ : w ≤ 1 := by linarith
  rw [abs_le, neg_le_sub_iff_le_add, sub_le_iff_le_add, div_le_iff₀ hX, ← sub_le_iff_le_add,
    le_div_iff₀ hX]
  rcases lt_trichotomy m 0 with hneg | rfl | hpos
  · have hD := hless hneg
    refine ⟨by nlinarith, ?_⟩
    -- below ten elevenths the others' bound counts, above it what they weigh
    rcases le_total w (10 / 11) with hsmall | hlarge
    · nlinarith
    · nlinarith
  · exact ⟨by nlinarith, by nlinarith⟩
  · have hD := hup hpos
    refine ⟨by nlinarith, ?_⟩
    rcases le_total w (10 / 11) with hsmall | hlarge
    · nlinarith
    · nlinarith

/-! ### What the others move -/

section Moves

/-- From the floor on, the bound of a server is a tenth of its weight. -/
theorem maxDelta_of_floor {w : ℝ} (hw : 3 / 100 ≤ w) :
    maxDelta ScoreboardConfig.default w = w / 10 := by
  rw [maxDelta_default, max_eq_left hw]

variable (hw : ∀ t ∈ old.keys, 3 / 100 ≤ weightOf old t)

include hw

/-- The others move up by at most a tenth of those that are asked up. -/
theorem sum_moves_le (load : ℝ) (s : ServerId) :
    ∑ t ∈ old.keys.erase s, ((entering ScoreboardConfig.default old preds load).weight t -
      weightOf old t) ≤ othersMore old preds s / 10 := by
  rw [othersMore, Finset.sum_filter, Finset.sum_div]
  refine Finset.sum_le_sum fun t ht => ?_
  have hkey := Finset.mem_of_mem_erase ht
  have hx := (@entering_mem old preds load t hkey).2
  have hδ := maxDelta_of_floor (hw t hkey)
  unfold highest at hx
  split at hx
  · next hmore =>
    rw [if_pos hmore]
    linarith
  · next hmore =>
    rw [if_neg hmore]
    linarith

/-- And down by at most a tenth of those that are asked down. -/
theorem le_sum_moves (load : ℝ) (s : ServerId) :
    -(othersLess old preds s / 10) ≤ ∑ t ∈ old.keys.erase s,
      ((entering ScoreboardConfig.default old preds load).weight t - weightOf old t) := by
  rw [othersLess, Finset.sum_filter, Finset.sum_div, ← Finset.sum_neg_distrib]
  refine Finset.sum_le_sum fun t ht => ?_
  have hkey := Finset.mem_of_mem_erase ht
  have hx := (@entering_mem old preds load t hkey).1
  have hδ := maxDelta_of_floor (hw t hkey)
  unfold lowest at hx
  split at hx
  · next hless =>
    rw [if_pos hless]
    linarith
  · next hless =>
    rw [if_neg hless]
    linarith

/-- Whoever is asked is one of the others, and they have what the server has not. -/
theorem othersMore_le (htotal : totalWeight old = 1) (hs : s ∈ old.keys) :
    othersMore old preds s ≤ 1 - weightOf old s := by
  classical
  rw [← htotal, totalWeight_eq_sum, ← Finset.sum_erase_eq_sub hs]
  refine Finset.sum_le_sum_of_subset_of_nonneg (Finset.filter_subset _ _) fun t ht _ => ?_
  linarith [hw t (Finset.mem_of_mem_erase ht)]

theorem othersLess_le (htotal : totalWeight old = 1) (hs : s ∈ old.keys) :
    othersLess old preds s ≤ 1 - weightOf old s := by
  classical
  rw [← htotal, totalWeight_eq_sum, ← Finset.sum_erase_eq_sub hs]
  refine Finset.sum_le_sum_of_subset_of_nonneg (Finset.filter_subset _ _) fun t ht _ => ?_
  linarith [hw t (Finset.mem_of_mem_erase ht)]

end Moves

/-! ### One update -/

/-- Where the passes only divide, nobody is below the floor to begin with. -/
theorem PassesIdle.minWeight_le (h : PassesIdle old preds) :
    ∀ s ∈ old.keys, 3 / 100 ≤ weightOf old s := by
  intro s hs
  have hle := lowest_le old preds s
  rcases h with ⟨-, hfloor⟩ | ⟨d, -, hfar⟩
  · have := hfloor s hs
    norm_num at this
    linarith
  · have := hfar s hs
    norm_num at this
    linarith

theorem PassesIdle.weightOf_nextMap (h : PassesIdle old preds) (hold : WeightsNonneg old)
    (hnew : NoNewcomer old preds) (hs : s ∈ old.keys) :
    weightOf (nextMap ScoreboardConfig.default old preds load now) s =
      (entering ScoreboardConfig.default old preds load).weight s /
        (entering ScoreboardConfig.default old preds load).total := by
  rcases h with ⟨hcaps, hfloor⟩ | ⟨d, hone, hfar⟩
  · exact weightOf_nextMap_idle hold hnew hcaps hfloor hs
  · exact weightOf_nextMap_single hold hnew hone hfar hs

/-- One update that meets the condition keeps the bound. -/
theorem ShiftKept.abs_sub_le (h : ShiftKept old preds) (hold : WeightsNonneg old)
    (hs : s ∈ old.keys) :
    |weightOf (nextMap ScoreboardConfig.default old preds load now) s - weightOf old s| ≤
      maxDelta ScoreboardConfig.default (weightOf old s) := by
  obtain ⟨hnew, htotal, hpasses, hbalanced⟩ := h
  have hw := hpasses.minWeight_le
  have hδ := maxDelta_of_floor (hw s hs)
  rw [hpasses.weightOf_nextMap hold hnew hs, hδ]
  set W := entering ScoreboardConfig.default old preds load with hW
  -- the server's own move and that of the others
  set m := W.weight s - weightOf old s with hm
  set D := ∑ t ∈ old.keys.erase s, (W.weight t - weightOf old t) with hD
  have hx : W.weight s = weightOf old s + m := by
    rw [hm]
    ring
  have hX : W.total = 1 + (m + D) := by
    rw [hm, hD, ← htotal, totalWeight_eq_sum, Weighing.total, hnew.servers_eq,
      Finset.add_sum_erase _ (fun t => W.weight t - weightOf old t) hs, Finset.sum_sub_distrib]
    ring
  have hmove : m ∈ Set.Icc (lowest old preds s - weightOf old s)
      (highest old preds s - weightOf old s) := by
    obtain ⟨hlo, hhi⟩ := @entering_mem old preds load s hs
    exact ⟨by linarith, by linarith⟩
  have hlo := @le_sum_moves old preds hw load s
  have hhi := @sum_moves_le old preds hw load s
  have hmore := @othersMore_le old preds s hw htotal hs
  have hless := @othersLess_le old preds s hw htotal hs
  have hothers := hbalanced.others s hs
  rw [hx, hX]
  have hbound : |m| ≤ weightOf old s / 10 := by
    have h₁ := le_lowest old preds s
    have h₂ := highest_le old preds s
    rw [max_eq_left (hw s hs)] at h₁ h₂
    rw [abs_le]
    exact ⟨by linarith [hmove.1], by linarith [hmove.2]⟩
  refine abs_share_sub_le_tenth (by linarith [hw s hs]) hbound (by linarith) (by linarith)
    (by linarith) (fun hpos => ?_) (fun hneg => ?_)
  · -- who moves up has been asked up
    have hasked : AsksMore old preds s := by
      by_contra hnot
      rw [highest, if_neg hnot] at hmove
      linarith [hmove.2]
    linarith [hbalanced.more s hs hasked]
  · have hasked : AsksLess old preds s := by
      by_contra hnot
      rw [lowest, if_neg hnot] at hmove
      linarith [hmove.1]
    linarith [hbalanced.less s hs hasked]

/-! ### Every run -/

/-- Two servers that weigh the same are balanced, whatever is predicted for them. -/
theorem shiftKept_pair (hkeys : preds.keys ⊆ [⟨0⟩, ⟨1⟩].toFinset) :
    ShiftKept (poolBoard [⟨0⟩, ⟨1⟩] fun i => i).inner preds := by
  have hpool : (poolBoard [⟨0⟩, ⟨1⟩] fun i => i).inner.keys = [⟨0⟩, ⟨1⟩].toFinset :=
    keys_poolBoard _ _
  have hw : ∀ s ∈ (poolBoard [⟨0⟩, ⟨1⟩] fun i => i).inner.keys,
      weightOf (poolBoard [⟨0⟩, ⟨1⟩] fun i => i).inner s = 1 / 2 := by
    intro s hs
    rw [weightOf_poolBoard _ (List.mem_toFinset.mp (hpool ▸ hs))]
    norm_num
  have hlow : ∀ s ∈ (poolBoard [⟨0⟩, ⟨1⟩] fun i => i).inner.keys,
      3 / 100 ≤ weightOf (poolBoard [⟨0⟩, ⟨1⟩] fun i => i).inner s := by
    intro s hs
    rw [hw s hs]
    norm_num
  have htotal : totalWeight (poolBoard [⟨0⟩, ⟨1⟩] fun i => i).inner = 1 := by
    rw [totalWeight_eq_sum, Finset.sum_congr rfl hw, hpool]
    simp
  -- the other server weighs a half
  have hmore : ∀ s ∈ (poolBoard [⟨0⟩, ⟨1⟩] fun i => i).inner.keys,
      othersMore (poolBoard [⟨0⟩, ⟨1⟩] fun i => i).inner preds s ≤ 1 / 2 := by
    intro s hs
    have := @othersMore_le _ preds s hlow htotal hs
    rw [hw s hs] at this
    linarith
  have hless : ∀ s ∈ (poolBoard [⟨0⟩, ⟨1⟩] fun i => i).inner.keys,
      othersLess (poolBoard [⟨0⟩, ⟨1⟩] fun i => i).inner preds s ≤ 1 / 2 := by
    intro s hs
    have := @othersLess_le _ preds s hlow htotal hs
    rw [hw s hs] at this
    linarith
  refine ⟨hkeys.trans hpool.ge, htotal, Or.inr ⟨⟨0⟩, inOneDomain_poolBoard _ _, fun s hs => ?_⟩,
    fun s hs _ => ?_, fun s hs _ => ?_, fun s hs => ?_⟩
  · have := le_lowest (poolBoard [⟨0⟩, ⟨1⟩] fun i => i).inner preds s
    rw [hw s hs] at this
    norm_num at this ⊢
    linarith
  · rw [hw s hs]
    exact hless s hs
  · rw [hw s hs]
    exact hmore s hs
  · linarith [hless s hs]

/-- Some server of the board is moved beyond its bound by the update. -/
def ShiftExceeded (old : ScoreMap) (preds : Predictions) : Prop :=
  ∃ s ∈ old.keys, maxDelta ScoreboardConfig.default (weightOf old s) <
    |weightOf (nextMap ScoreboardConfig.default old preds 0 9) s - weightOf old s|

theorem noNewcomer_empty (old : ScoreMap) : NoNewcomer old ∅ := by simp [NoNewcomer]

/-- Nobody is asked anything. -/
theorem balanced_empty (old : ScoreMap) : Balanced old ∅ := by
  have hnone (s : ServerId) : s ∉ (∅ : Predictions).keys := by simp
  refine ⟨fun s _ h => absurd h.1 (hnone s), fun s _ h => absurd h.1 (hnone s), fun s _ => ?_⟩
  rw [othersLess, Finset.sum_filter, Finset.sum_eq_zero fun t _ => if_neg fun h => hnone t h.1]
  norm_num

/-- One server that is registered twice. -/
noncomputable def registeredTwice : Scoreboard :=
  Scoreboard.withServers [(⟨0⟩, ⟨0⟩), (⟨0⟩, ⟨0⟩)] ScoreboardConfig.default fun i => i

/-- It weighs a half, and a whole after any update. -/
theorem shiftExceeded_registeredTwice :
    Balanced registeredTwice.inner ∅ ∧ PassesIdle registeredTwice.inner ∅ ∧
      ShiftExceeded registeredTwice.inner ∅ := by
  have hkeys : registeredTwice.inner.keys = {⟨0⟩} := by
    ext s
    rw [Finmap.mem_keys, registeredTwice, mem_withServers]
    simp
  have hmem : (⟨0⟩ : ServerId) ∈ registeredTwice.inner.keys := by simp [hkeys]
  have hw : weightOf registeredTwice.inner ⟨0⟩ = 1 / 2 := by
    obtain ⟨sc, hsc⟩ := Finmap.exists_lookup_of_mem_keys hmem
    obtain ⟨d, i, -, rfl⟩ := lookup_withServers hsc
    rw [weightOf_of_lookup hsc]
    norm_num [Scoreboard.initialWeight]
  have hone : InOneDomain registeredTwice.inner ⟨0⟩ := by
    intro s sc hs
    obtain ⟨d, i, hd, rfl⟩ := lookup_withServers hs
    simp only [List.mem_cons, Prod.mk.injEq, List.not_mem_nil, or_false, or_self] at hd
    exact hd.2
  -- the published weights sum to one, and there is only one
  have hnext : weightOf (nextMap ScoreboardConfig.default registeredTwice.inner ∅ 0 9) ⟨0⟩ =
      1 := by
    have htotal := @totalWeight_nextMap ScoreboardConfig.default registeredTwice.inner ∅ 0 9
      (by norm_num) ⟨_, Finset.mem_union_left _ hmem⟩
    rwa [totalWeight_eq_sum, (noNewcomer_empty _).keys_nextMap, hkeys, Finset.sum_singleton]
      at htotal
  refine ⟨balanced_empty _, Or.inr ⟨_, hone, fun s hs => ?_⟩, ⟨0⟩, hmem, ?_⟩
  · rw [hkeys, Finset.mem_singleton] at hs
    subst hs
    rw [lowest_of_notMem (by simp), hw]
    norm_num
  · rw [hnext, hw, maxDelta_of_floor (by norm_num)]
    norm_num

/-- In the update without predictions that cuts domain `0`, its servers lose a ninth. -/
theorem shiftExceeded_fourServers :
    Balanced fourServersBoard.inner ∅ ∧ totalWeight fourServersBoard.inner = 1 ∧
      FloorIdle fourServersBoard.inner ∅ ∧ ShiftExceeded fourServersBoard.inner ∅ := by
  have hold : WeightsNonneg fourServersBoard.inner := weightsNonneg_withServers _ _
  have hmem : (⟨0⟩ : ServerId) ∈ fourServersBoard.inner.keys := by simp [keys_fourServersBoard]
  obtain ⟨hd₀, hw₀⟩ := @entry_fourServersBoard ⟨0⟩ ⟨0⟩ (by simp [fourServers])
  refine ⟨balanced_empty _, totalWeight_fourServersBoard, fun s hs => ?_, ⟨0⟩, hmem, ?_⟩
  · obtain ⟨d, hd, -⟩ := exists_domain_of_mem_fourServersBoard hs
    rw [lowest_of_notMem (by simp), (entry_fourServersBoard hd).2]
    norm_num
  · -- the servers of domain `0` are scaled by `4/5`, the two others keep their quarter
    have hfloored {s : ServerId} {d : DomainId} (h : (s, d) ∈ fourServers) :
        (weighing fourServersBoard.inner).floored ScoreboardConfig.default s =
          if d = ⟨0⟩ then 1 / 5 else 1 / 4 := by
      obtain ⟨hdom, hw⟩ := entry_fourServersBoard h
      have hs : s ∈ fourServersBoard.inner.keys := by
        rw [keys_fourServersBoard]
        simp only [fourServers, List.mem_cons, Prod.mk.injEq, List.not_mem_nil, or_false] at h
        simp only [Finset.mem_insert, Finset.mem_singleton]
        tauto
      obtain ⟨hX₀, hX₁, hX₂⟩ := domainWeight_fourServersBoard
      rw [Weighing.floored, max_eq_left (minWeight_le_capped_fourServersBoard hs),
        capped_of_domainOf hdom, hw, capScale, totalWeight_fourServersBoard]
      simp only [fourServers, List.mem_cons, Prod.mk.injEq, List.not_mem_nil, or_false] at h
      rcases h with ⟨-, rfl⟩ | ⟨-, rfl⟩ | ⟨-, rfl⟩ | ⟨-, rfl⟩ <;> norm_num [hX₀, hX₁, hX₂]
    have hnext : weightOf (nextMap ScoreboardConfig.default fourServersBoard.inner ∅ 0 9) ⟨0⟩ =
        2 / 9 := by
      rw [weightOf_nextMap_eq ScoreboardConfig.default_valid (by norm_num) hold
        (Finset.mem_union_left _ hmem), ← weighing_rebuildMap _ _ _ _ 9, rebuildMap_empty,
        hfloored (d := ⟨0⟩) (by simp [fourServers]), Weighing.flooredTotal]
      show _ / ∑ s ∈ fourServersBoard.inner.keys, _ = _
      rw [keys_fourServersBoard, Finset.sum_insert (by simp), Finset.sum_insert (by simp),
        Finset.sum_insert (by simp), Finset.sum_singleton,
        hfloored (d := ⟨0⟩) (by simp [fourServers]), hfloored (d := ⟨0⟩) (by simp [fourServers]),
        hfloored (d := ⟨1⟩) (by simp [fourServers]), hfloored (d := ⟨2⟩) (by simp [fourServers])]
      norm_num
    rw [hnext, hw₀, maxDelta_of_floor (by norm_num)]
    norm_num

/-- Ten backends that a newcomer has joined. -/
noncomputable def joinedBoard : ScoreMap :=
  nextMap ScoreboardConfig.default (poolBoard (backendIds 10) fun i => i).inner
    (newcomers [⟨10⟩]) 0 9

theorem keys_joinedBoard : joinedBoard.keys = insert ⟨10⟩ (backendIds 10).toFinset := by
  rw [joinedBoard, keys_nextMap, keys_poolBoard, keys_newcomers]
  decide

/-- The newcomer has one half of the weight and the others the other half. -/
theorem weightOf_joinedBoard : weightOf joinedBoard ⟨10⟩ = 1 / 2 ∧
    ∀ s ∈ backendIds 10, weightOf joinedBoard s = 1 / 20 := by
  have hw : ∀ s ∈ backendIds 10, weightOf joinedBoard s = 1 / 20 := by
    intro s hs
    rw [joinedBoard, weightOf_nextMap_newcomers (nodup_backendIds 10) (by simp)
      (by simp [backendIds]) (by norm_num [length_backendIds]) hs, length_backendIds]
    norm_num
  have htotal : totalWeight joinedBoard = 1 := by
    refine totalWeight_nextMap (by norm_num) ⟨⟨10⟩, Finset.mem_union_right _ ?_⟩
    rw [keys_newcomers]
    simp
  refine ⟨?_, hw⟩
  rw [totalWeight_eq_sum, keys_joinedBoard, Finset.sum_insert (by decide),
    Finset.sum_congr rfl fun s hs => hw s (List.mem_toFinset.mp hs), Finset.sum_const,
    List.toFinset_card_of_nodup (nodup_backendIds 10), length_backendIds] at htotal
  norm_num at htotal
  linarith

/-- The update after that lifts the ten to the floor, which takes a fifth of the newcomer's
weight away. -/
theorem shiftExceeded_joinedBoard :
    Balanced joinedBoard ∅ ∧ totalWeight joinedBoard = 1 ∧ InOneDomain joinedBoard ⟨0⟩ ∧
      ShiftExceeded joinedBoard ∅ := by
  obtain ⟨hnew, hpool⟩ := weightOf_joinedBoard
  have hmem : (⟨10⟩ : ServerId) ∈ joinedBoard.keys := by simp [keys_joinedBoard]
  have hone : InOneDomain joinedBoard ⟨0⟩ := (inOneDomain_poolBoard _ _).nextMap
  have hold : WeightsNonneg joinedBoard := by
    intro s sc hs
    have hkey := Finmap.mem_keys.mpr (Finmap.mem_of_lookup_eq_some hs)
    rw [keys_joinedBoard, Finset.mem_insert, List.mem_toFinset] at hkey
    rw [← weightOf_of_lookup hs]
    rcases hkey with rfl | hkey
    · norm_num [hnew]
    · norm_num [hpool s hkey]
  have htotal : totalWeight joinedBoard = 1 := by
    rw [totalWeight_eq_sum, keys_joinedBoard, Finset.sum_insert (by decide),
      Finset.sum_congr rfl fun s hs => hpool s (List.mem_toFinset.mp hs), Finset.sum_const,
      List.toFinset_card_of_nodup (nodup_backendIds 10), length_backendIds, hnew]
    norm_num
  refine ⟨balanced_empty _, htotal, hone, ⟨10⟩, hmem, ?_⟩
  -- the one domain is scaled by the cap, and the floor lifts what is then below it
  have hfloored {s : ServerId} (hs : s ∈ joinedBoard.keys) :
      (weighing joinedBoard).floored ScoreboardConfig.default s =
        max (2 / 5 * weightOf joinedBoard s) (3 / 100) := by
    obtain ⟨sc, hsc⟩ := Finmap.exists_lookup_of_mem_keys hs
    have hdom : domainOf joinedBoard s = some ⟨0⟩ := by
      rw [domainOf_of_lookup hsc, hone s sc hsc]
    rw [Weighing.floored, capped_of_domainOf hdom,
      hone.capScale_eq (by norm_num) (by rw [htotal]; norm_num),
      ScoreboardConfig.default_domainCapacityFraction, ScoreboardConfig.default_minWeight,
      mul_comm]
  have hnext : weightOf (nextMap ScoreboardConfig.default joinedBoard ∅ 0 9) ⟨10⟩ = 2 / 5 := by
    rw [weightOf_nextMap_eq ScoreboardConfig.default_valid (by norm_num) hold
      (Finset.mem_union_left _ hmem), ← weighing_rebuildMap _ _ _ _ 9, rebuildMap_empty,
      hfloored hmem, hnew, Weighing.flooredTotal]
    show _ / ∑ s ∈ joinedBoard.keys, _ = _
    rw [Finset.sum_congr rfl fun s hs => hfloored hs, keys_joinedBoard,
      Finset.sum_insert (by decide), hnew,
      Finset.sum_congr rfl fun s hs => by rw [hpool s (List.mem_toFinset.mp hs)],
      Finset.sum_const, List.toFinset_card_of_nodup (nodup_backendIds 10), length_backendIds]
    norm_num
  rw [hnext, hnew, maxDelta_of_floor (by norm_num)]
  norm_num

/-- One backend is predicted safe and the other one failing. -/
noncomputable def oneFailing (safe failing : ServerId) : Predictions :=
  (Finmap.singleton safe ⟨0, 0, 1, 0⟩).insert failing ⟨1, 0, 1, 1⟩

theorem reads_oneFailing {safe failing : ServerId} (hne : safe ≠ failing) :
    (oneFailing safe failing).keys = {safe, failing} ∧
      (riskOf (oneFailing safe failing) safe = 0 ∧ errorOf (oneFailing safe failing) safe = 0) ∧
      riskOf (oneFailing safe failing) failing = 1 ∧
      errorOf (oneFailing safe failing) failing = 1 := by
  have hc₀ : clamp (0 : ℝ) 0 1 = 0 := clamp_of_mem le_rfl zero_le_one
  have hc₁ : clamp (1 : ℝ) 0 1 = 1 := clamp_of_mem zero_le_one le_rfl
  have hsafe : (oneFailing safe failing).lookup safe = some ⟨0, 0, 1, 0⟩ :=
    (Finmap.lookup_insert_of_ne _ hne).trans Finmap.lookup_singleton_eq
  have hfailing : (oneFailing safe failing).lookup failing = some ⟨1, 0, 1, 1⟩ :=
    Finmap.lookup_insert _
  refine ⟨?_, ⟨?_, ?_⟩, ?_, ?_⟩
  · ext s
    rw [Finmap.mem_keys, oneFailing, Finmap.mem_insert, Finmap.mem_singleton]
    simp [or_comm]
  · rw [riskOf, Finmap.readD_of_lookup hsafe]
    simp [effectiveRisk, hc₀]
  · rw [errorOf, Finmap.readD_of_lookup hsafe]
    exact hc₀
  · rw [riskOf, Finmap.readD_of_lookup hfailing]
    simp [effectiveRisk, hc₁]
  · rw [errorOf, Finmap.readD_of_lookup hfailing]
    exact hc₁

/-- A failing backend is asked for less than a third, even if it never failed before. -/
theorem rawWeight_failing : rawWeight 1 (1 / 10) < 1 / 3 := by
  have hexp : (3 : ℝ) < Real.exp 1 * Real.exp (1 / 10) := by
    have h₁ := Real.exp_one_gt_d9
    have h₂ := Real.quadratic_le_exp_of_nonneg (show (0 : ℝ) ≤ 1 / 10 by norm_num)
    nlinarith
  calc rawWeight 1 (1 / 10) = (Real.exp 1 * Real.exp (1 / 10))⁻¹ := by
        rw [rawWeight, Real.exp_neg, Real.exp_neg, ← mul_inv]
    _ < 3⁻¹ := inv_strictAnti₀ (by norm_num) hexp
    _ = 1 / 3 := by norm_num

/-- The board after an update in which the second of two backends fails. -/
noncomputable def failedBoard : ScoreMap :=
  nextMap ScoreboardConfig.default (poolBoard [⟨0⟩, ⟨1⟩] fun i => i).inner
    (oneFailing ⟨0⟩ ⟨1⟩) 0 9

theorem isPool_failedBoard : IsPool {⟨0⟩, ⟨1⟩} failedBoard ∧
    (weightOf failedBoard ⟨0⟩ = 11 / 20 ∧ healthOf failedBoard ⟨0⟩ = 0) ∧
    weightOf failedBoard ⟨1⟩ = 9 / 20 ∧ healthOf failedBoard ⟨1⟩ = 1 / 10 := by
  have hne : (⟨0⟩ : ServerId) ≠ ⟨1⟩ := by decide
  obtain ⟨hkeys, ⟨hr₀, he₀⟩, hr₁, he₁⟩ := reads_oneFailing hne
  have hpool : IsPool {⟨0⟩, ⟨1⟩} (poolBoard [⟨0⟩, ⟨1⟩] fun i => i).inner :=
    isPool_poolBoard [⟨0⟩, ⟨1⟩] fun i => i
  have hw {s : ServerId} (hs : s ∈ [(⟨0⟩ : ServerId), ⟨1⟩]) :
      weightOf (poolBoard [⟨0⟩, ⟨1⟩] fun i => i).inner s = 1 / 2 := by
    rw [weightOf_poolBoard _ hs]
    norm_num
  have hh {s : ServerId} (hs : s ∈ [(⟨0⟩ : ServerId), ⟨1⟩]) :
      healthOf (poolBoard [⟨0⟩, ⟨1⟩] fun i => i).inner s = 0 := healthOf_poolBoard _ hs
  -- one is moved up by the whole bound, the other one down
  have hraw₀ : rawOf (poolBoard [⟨0⟩, ⟨1⟩] fun i => i).inner (oneFailing ⟨0⟩ ⟨1⟩) ⟨0⟩ = 1 := by
    rw [rawOf, healthAfter, hr₀, he₀, hh (by simp)]
    simp [rawWeight]
  have hraw₁ : rawOf (poolBoard [⟨0⟩, ⟨1⟩] fun i => i).inner (oneFailing ⟨0⟩ ⟨1⟩) ⟨1⟩ =
      rawWeight 1 (1 / 10) := by
    rw [rawOf, healthAfter, hr₁, he₁, hh (by simp)]
    norm_num
  have hup : moved 1 (1 / 2) = 11 / 20 := by
    rw [moved_eq, clamp_of_hi_le] <;> norm_num
  have hdown : moved (rawWeight 1 (1 / 10)) (1 / 2) = 9 / 20 := by
    have hraw := rawWeight_failing
    rw [moved_eq, clamp_of_le_lo] <;> norm_num
    linarith
  have hsettled₀ : settled 1 (1 / 2) = 11 / 50 := by
    rw [settled, hup]
    norm_num
  have hsettled₁ : settled (rawWeight 1 (1 / 10)) (1 / 2) = 9 / 50 := by
    rw [settled, hdown]
    norm_num
  refine ⟨hpool.nextMap hkeys, ⟨?_, ?_⟩, ?_, ?_⟩
  · rw [failedBoard, hpool.weightOf_nextMap hkeys (by simp), poolStep, Finset.sum_pair hne,
      hraw₀, hraw₁, hw (by simp), hw (by simp), hsettled₀, hsettled₁]
    norm_num
  · rw [failedBoard, hpool.healthOf_nextMap hkeys (by simp), healthAfter, he₀, hh (by simp)]
    norm_num
  · rw [failedBoard, hpool.weightOf_nextMap hkeys (by simp), poolStep, Finset.sum_pair hne,
      hraw₀, hraw₁, hw (by simp), hw (by simp), hsettled₀, hsettled₁]
    norm_num
  · rw [failedBoard, hpool.healthOf_nextMap hkeys (by simp), healthAfter, he₁, hh (by simp)]
    norm_num

/-- When the other one fails next, both end at a half: the lighter one is asked up by a tenth of
its weight, and the heavier one gives up more than that. -/
theorem shiftExceeded_failedBoard :
    NoNewcomer failedBoard (oneFailing ⟨1⟩ ⟨0⟩) ∧ totalWeight failedBoard = 1 ∧
      PassesIdle failedBoard (oneFailing ⟨1⟩ ⟨0⟩) ∧
      ShiftExceeded failedBoard (oneFailing ⟨1⟩ ⟨0⟩) := by
  have hne : (⟨0⟩ : ServerId) ≠ ⟨1⟩ := by decide
  obtain ⟨hkeys, ⟨hr₁, he₁⟩, hr₀, he₀⟩ := reads_oneFailing hne.symm
  obtain ⟨hpool, ⟨hw₀, hh₀⟩, hw₁, hh₁⟩ := isPool_failedBoard
  rw [Finset.pair_comm] at hkeys
  have htotal : totalWeight failedBoard = 1 := by
    rw [totalWeight_eq_sum, hpool.keys_eq, Finset.sum_pair hne, hw₀, hw₁]
    norm_num
  refine ⟨hkeys.le.trans hpool.keys_eq.ge, htotal, Or.inr ⟨_, hpool.oneDomain, fun s hs => ?_⟩,
    ⟨1⟩, by simp [hpool.keys_eq], ?_⟩
  · have hlow := le_lowest failedBoard (oneFailing ⟨1⟩ ⟨0⟩) s
    rw [hpool.keys_eq, Finset.mem_insert, Finset.mem_singleton] at hs
    rcases hs with rfl | rfl
    · rw [hw₀] at hlow
      norm_num at hlow ⊢
      linarith
    · rw [hw₁] at hlow
      norm_num at hlow ⊢
      linarith
  · have hraw₀ : rawOf failedBoard (oneFailing ⟨1⟩ ⟨0⟩) ⟨0⟩ = rawWeight 1 (1 / 10) := by
      rw [rawOf, healthAfter, hr₀, he₀, hh₀]
      norm_num
    have hraw₁ : 9 / 10 ≤ rawOf failedBoard (oneFailing ⟨1⟩ ⟨0⟩) ⟨1⟩ := by
      have hexp := Real.add_one_le_exp (-(9 / 100 : ℝ))
      rw [rawOf, healthAfter, hr₁, he₁, hh₁, rawWeight]
      norm_num at hexp ⊢
      linarith
    have hdown : settled (rawWeight 1 (1 / 10)) (11 / 20) = 99 / 500 := by
      have hraw := rawWeight_failing
      rw [settled, moved_eq, clamp_of_le_lo] <;> norm_num
      linarith
    have hup : settled (rawOf failedBoard (oneFailing ⟨1⟩ ⟨0⟩) ⟨1⟩) (9 / 20) = 99 / 500 := by
      rw [settled, moved_eq, clamp_of_hi_le] <;> norm_num
      linarith
    rw [hpool.weightOf_nextMap hkeys (by simp), poolStep, Finset.sum_pair hne, hraw₀, hw₀, hw₁,
      hdown, hup, maxDelta_of_floor (by norm_num)]
    norm_num

end ScalableBooking.RouterCore
