import ScalableBooking.Lib.SharedCell
import ScalableBooking.RouterCore.Passes

/-!
# Two writers of one scoreboard

`update_scores` loads the snapshot, computes a whole new map from it and stores that.
`update_single_server` is an `update_scores`, so it does the same. Between the load and the
store another writer can store its own map, and that one is then overwritten.

Two calls have the effect of one after the other, whatever the board and the calls are, exactly
where one has stored before the other loads (`Scoreboard.serializable_iff`). Elsewhere the board
is the update that stored last, applied to the board before both. That is seen in the timestamps
as soon as the other call predicts a server that this one does not
(`Scoreboard.not_serializable`).
-/

namespace ScalableBooking.RouterCore

open SharedCell

variable {cfg : ScoreboardConfig} {m : ScoreMap} {preds : Predictions} {load : ℝ}
  {now : Instant} {s : ServerId}

/-- When the score of a server was last refreshed. -/
def updatedAtOf (m : ScoreMap) (s : ServerId) : Option Instant :=
  (m.lookup s).map ServerScore.updatedAt

theorem IsReweighing.updatedAtOf_eq {m' : ScoreMap} (h : IsReweighing m m') (s : ServerId) :
    updatedAtOf m' s = updatedAtOf m s := by
  obtain ⟨g, rfl⟩ := h
  rw [updatedAtOf, lookup_reweigh, Option.map_map]
  rfl

/-- An update refreshes the servers that it predicts. -/
theorem updatedAtOf_nextMap_of_mem (hs : s ∈ preds) :
    updatedAtOf (nextMap cfg m preds load now) s = some now := by
  obtain ⟨pred, hpred⟩ := Finmap.mem_iff.mp hs
  rw [isReweighing_nextMap.updatedAtOf_eq, updatedAtOf]
  cases hold : m.lookup s with
  | some sc =>
    rw [lookup_rebuildMap_refreshed hold hpred]
    rfl
  | none =>
    rw [lookup_rebuildMap_inserted hold hpred]
    rfl

/-- And no others. -/
theorem updatedAtOf_nextMap_of_notMem (hs : s ∉ preds) :
    updatedAtOf (nextMap cfg m preds load now) s = updatedAtOf m s := by
  have hpred := Finmap.lookup_eq_none.mpr hs
  rw [isReweighing_nextMap.updatedAtOf_eq, updatedAtOf, updatedAtOf]
  cases hold : m.lookup s with
  | some sc => rw [lookup_rebuildMap_kept hold hpred]
  | none =>
    have hnone : (rebuildMap cfg m preds load now).lookup s = none := by
      rw [Finmap.lookup_eq_none, ← Finmap.mem_keys, keys_rebuildMap, Finset.mem_union,
        Finmap.mem_keys, Finmap.mem_keys]
      exact not_or.mpr ⟨Finmap.lookup_eq_none.mp hold, hs⟩
    rw [hnone]

namespace Scoreboard

/-- The call of each writer as an update of the snapshot. A call that panics stores nothing. -/
noncomputable def writerUpdate (calls : Bool → WriterCall) (w : Bool) (sb : Scoreboard) :
    Option Scoreboard :=
  sb.write (calls w)

/-- Under this schedule the two calls leave what they leave one after the other. -/
def Serializable (sb : Scoreboard) (calls : Bool → WriterCall) (schedule : List Bool) : Prop :=
  ∃ w, Ends (writerUpdate calls) sb schedule (applyBoth (writerUpdate calls) w sb)

variable {sb : Scoreboard} {calls : Bool → WriterCall} {schedule : List Bool} {w : Bool}

theorem apply_writerUpdate (hcfg : cfg.Valid) (m : ScoreMap) (calls : Bool → WriterCall)
    (w : Bool) :
    apply (writerUpdate calls) w ⟨m, cfg⟩ =
      ⟨nextMap cfg m (calls w).predictions (calls w).clusterLoad (calls w).now, cfg⟩ := by
  rw [apply, writerUpdate, write_eq hcfg, Option.getD_some]

/-- In either order the calls refresh every server that one of them predicts. -/
theorem updatedAtOf_applyBoth (hcfg : sb.config.Valid) (hs : s ∈ (calls (!w)).predictions)
    (hs' : s ∉ (calls w).predictions) (v : Bool) :
    updatedAtOf (applyBoth (writerUpdate calls) v sb).inner s = some (calls (!w)).now := by
  obtain ⟨m, cfg⟩ := sb
  rw [applyBoth, apply_writerUpdate hcfg, apply_writerUpdate hcfg]
  obtain rfl | rfl : v = w ∨ v = !w := by cases v <;> cases w <;> decide
  · exact updatedAtOf_nextMap_of_mem hs
  · rw [Bool.not_not, updatedAtOf_nextMap_of_notMem hs']
    exact updatedAtOf_nextMap_of_mem hs

/-- **An update is lost.** When both writers have loaded before the first of them stores, and
that one refreshes a server that the other one does not predict, the outcome is none of the
two. -/
theorem not_serializable (hcfg : sb.config.Valid)
    (h : schedule = [w, !w, !w, w] ∨ schedule = [!w, w, !w, w])
    (hs : s ∈ (calls (!w)).predictions) (hs' : s ∉ (calls w).predictions)
    (hnow : updatedAtOf sb.inner s ≠ some (calls (!w)).now) :
    ¬ Serializable sb calls schedule := by
  rintro ⟨v, hv⟩
  have hends := ends_overlapping (writerUpdate calls) sb h
  have heq := hv.unique hends
  -- the last store has the timestamp of before both
  rw [writerUpdate, write_eq hcfg, Option.getD_some] at heq
  apply hnow
  rw [← updatedAtOf_applyBoth hcfg hs hs' v]
  exact ((congrArg (fun sb => updatedAtOf sb.inner s) heq).trans
    (updatedAtOf_nextMap_of_notMem hs')).symm

/-- The two servers of the example below, one for each writer. -/
noncomputable def newcomerCalls (w : Bool) : WriterCall :=
  .updateSingleServer ⟨if w then 1 else 0⟩ 0 1 0

/-- Two newcomers reported to an empty board: if both writers load first, one is forgotten. -/
theorem not_serializable_new (h : schedule = [w, !w, !w, w] ∨ schedule = [!w, w, !w, w]) :
    ¬ Serializable (Scoreboard.new ScoreboardConfig.default) newcomerCalls schedule := by
  refine not_serializable (s := ⟨if !w then 1 else 0⟩) ScoreboardConfig.default_valid h ?_ ?_ ?_
  · exact (Finmap.mem_singleton _ _ _).mpr rfl
  · intro hmem
    have heq := (Finmap.mem_singleton _ _ _).mp hmem
    cases w <;> simp at heq
  · simp [Scoreboard.new, updatedAtOf]

/-- **When two writers lose no update.** Under an interleaving of the loads and stores, any two
calls on any board leave what they leave in one of the two orders, if and only if the interleaving
is one of the two orders itself. Otherwise the board is the update that stores last of the board
before both, unless that one panics. -/
theorem serializable_iff (hschedule : Interleaving schedule) :
    ((∀ sb calls, Serializable sb calls schedule) ↔ ∃ w, schedule = serial w) ∧
      ((¬ ∃ w, schedule = serial w) → ∃ w, ∀ sb calls,
        Ends (writerUpdate calls) sb schedule
          ((sb.write (calls w)).getD (apply (writerUpdate calls) (!w) sb))) := by
  refine ⟨⟨fun hall => ?_, ?_⟩, fun hnot => ?_⟩
  · obtain hserial | ⟨w, hw⟩ := hschedule.cases
    · exact hserial
    · exact absurd (hall _ _) (not_serializable_new hw)
  · rintro ⟨w, rfl⟩ sb calls
    exact ⟨w, ends_serial _ sb w⟩
  · obtain hserial | ⟨w, hw⟩ := hschedule.cases
    · exact absurd hserial hnot
    · exact ⟨w, fun sb calls => ends_overlapping _ sb hw⟩

/-- One after the other, both are there. -/
theorem serializable_newcomers : Serializable (Scoreboard.new ScoreboardConfig.default)
    newcomerCalls [false, false, true, true] :=
  (serializable_iff (by decide)).1.mpr ⟨false, rfl⟩ _ _

/-- Both load, then both store. -/
theorem newcomer_lost :
    ¬ Serializable (Scoreboard.new ScoreboardConfig.default) newcomerCalls
      [false, true, false, true] :=
  not_serializable_new (w := true) (Or.inr rfl)

end Scoreboard

end ScalableBooking.RouterCore
