import Mathlib.Data.Set.Basic
import Mathlib.Logic.Function.Basic

/-!
# A copy that follows a source through a queue of updates

A source gives a value to each key. Every write to it puts an update into a queue, and a copy of
some of its entries takes the updates from there, in their order. The copy *follows* the source if
an entry of it may be out of date only as long as an update of its key is in the queue; when the
queue is empty, the entries are those of the source (`Follows.eq`).

Updates can be lost. A loss does no harm just when each key of the copy that is lost with it
either has a later update or has already the value that was lost last (`Follows.lose_iff`).
-/

namespace ScalableBooking.Replica

variable {K V : Type*} [DecidableEq K]

/-- The last value that the queue has for a key. -/
def latest : List (K × V) → K → Option V
  | [], _ => none
  | (k', v) :: queue, k => (latest queue k).or (if k' = k then some v else none)

theorem latest_append (lost queue : List (K × V)) (k : K) :
    latest (lost ++ queue) k = (latest queue k).or (latest lost k) := by
  induction lost with
  | nil => simp [latest]
  | cons update lost ih =>
    obtain ⟨k', v⟩ := update
    rw [List.cons_append, latest, ih, latest, Option.or_assoc]

theorem latest_concat (queue : List (K × V)) (k' : K) (v : V) (k : K) :
    latest (queue ++ [(k', v)]) k = if k' = k then some v else latest queue k := by
  rw [latest_append, latest, latest, Option.none_or]
  split <;> rfl

/-- The queue leads the source, and an entry of the copy without an update is right. -/
structure Follows (source : K → V) (copy : Set (K × V)) (queue : List (K × V)) : Prop where
  leads : ∀ k v, latest queue k = some v → v = source k
  right : ∀ k v, (k, v) ∈ copy → latest queue k = none → v = source k

namespace Follows

variable {source : K → V} {copy copy' : Set (K × V)} {queue lost : List (K × V)}

/-- With nothing in the queue, the copy is right. -/
theorem eq (h : Follows source copy []) {k : K} {v : V} (hv : (k, v) ∈ copy) : v = source k :=
  h.right k v hv rfl

theorem empty (source : K → V) : Follows source ∅ [] where
  leads k v h := by cases h
  right k v h := absurd h (Set.notMem_empty _)

/-- The source is written, and the update put into the queue. -/
theorem write (h : Follows source copy queue) (k : K) (v : V) :
    Follows (Function.update source k v) copy (queue ++ [(k, v)]) := by
  refine ⟨?_, ?_⟩
  · intro k' v' hlatest
    rw [latest_concat] at hlatest
    by_cases hk : k = k'
    · subst hk
      rw [if_pos rfl] at hlatest
      rw [Function.update_self, Option.some.inj hlatest]
    · rw [if_neg hk] at hlatest
      rw [Function.update_of_ne (Ne.symm hk)]
      exact h.leads k' v' hlatest
  · intro k' v' hv' hlatest
    rw [latest_concat] at hlatest
    by_cases hk : k = k'
    · rw [if_pos hk] at hlatest
      cases hlatest
    · rw [if_neg hk] at hlatest
      rw [Function.update_of_ne (Ne.symm hk)]
      exact h.right k' v' hv' hlatest

/-- The copy takes the first update of the queue. -/
theorem receive {k : K} {v : V} (h : Follows source copy ((k, v) :: queue))
    (hcopy : ∀ k' v', (k', v') ∈ copy' → k' = k ∧ v' = v ∨ k' ≠ k ∧ (k', v') ∈ copy) :
    Follows source copy' queue := by
  refine ⟨?_, ?_⟩
  · intro k' v' hlatest
    refine h.leads k' v' ?_
    rw [latest, hlatest, Option.some_or]
  · intro k' v' hv' hlatest
    obtain ⟨rfl, rfl⟩ | ⟨hk, hv'⟩ := hcopy k' v' hv'
    · refine h.leads k' v' ?_
      rw [latest, hlatest, Option.none_or, if_pos rfl]
    · refine h.right k' v' hv' ?_
      rw [latest, hlatest, Option.none_or, if_neg (Ne.symm hk)]

/-- Updates are lost, those at the front of the queue. -/
theorem lose_iff (h : Follows source copy (lost ++ queue)) :
    Follows source copy queue ↔ ∀ k v v', (k, v) ∈ copy → latest lost k = some v' →
      latest queue k = none → v = v' := by
  -- what is last in the queue is right with or without the lost part
  have hqueue {k : K} {v : V} (hlatest : latest queue k = some v) : v = source k := by
    refine h.leads k v ?_
    rw [latest_append, hlatest, Option.some_or]
  -- the last lost value of a key is right if no later one is queued
  have hlost {k : K} {v' : V} (hv' : latest lost k = some v') (hnone : latest queue k = none) :
      v' = source k := by
    refine h.leads k v' ?_
    rw [latest_append, hnone, Option.none_or, hv']
  refine ⟨?_, ?_⟩
  · intro hfollows k v v' hv hv' hnone
    rw [hfollows.right k v hv hnone, hlost hv' hnone]
  · intro hspared
    refine ⟨fun k v => hqueue, ?_⟩
    intro k v hv hnone
    cases hv' : latest lost k with
    | none =>
      refine h.right k v hv ?_
      rw [latest_append, hnone, Option.none_or, hv']
    | some v' => rw [hspared k v v' hv hv' hnone, hlost hv' hnone]

/-- The copy is read anew, or some of its entries are dropped. -/
theorem copy_of_mem (h : Follows source copy queue)
    (hcopy : ∀ k v, (k, v) ∈ copy' → v = source k ∨ (k, v) ∈ copy) :
    Follows source copy' queue where
  leads := h.leads
  right k v hv hnone := (hcopy k v hv).elim id fun hv => h.right k v hv hnone

end Follows

end ScalableBooking.Replica
