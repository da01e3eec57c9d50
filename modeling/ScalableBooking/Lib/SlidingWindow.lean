import Mathlib.Data.List.TakeWhile
import Mathlib.Order.Basic

/-!
# Windows that are pruned when somebody looks

A queue of entries in the order in which they came, of which those that are too old no longer
count. Nobody removes an entry at the moment it becomes too old. Whoever comes to the queue drops
entries from its front, up to the first one that is not too old, at a time of its own.

When the entries are in order of age (`Ordered`), what is left after that is exactly what counts
(`prune_eq_filter`). So a queue that has lost nothing but old entries of a log
(`Keeps`) gives the number of entries of the log that count, whoever has pruned it before and
whenever that was (`Keeps.length_prune`).
-/

namespace ScalableBooking.SlidingWindow

variable {T α β : Type*} [Preorder T]

/-- Which entries are too old at a given time. They remain so. -/
structure Ageing (T α : Type*) [Preorder T] where
  stale : T → α → Bool
  stale_of_le : ∀ {t t' : T} {a : α}, t ≤ t' → stale t a = true → stale t' a = true

namespace Ageing

/-- Entries that carry something else beside. -/
def comap (w : Ageing T α) (f : β → α) : Ageing T β where
  stale t b := w.stale t (f b)
  stale_of_le := w.stale_of_le

variable (w : Ageing T α)

/-- Drop the entries at the front that are too old. -/
def prune (t : T) (entries : List α) : List α := entries.dropWhile (w.stale t)

/-- The entries are in order of age, the oldest first. -/
def Ordered (entries : List α) : Prop :=
  entries.Pairwise fun a b => ∀ t, w.stale t b = true → w.stale t a = true

/-- The entries are those of the log, without some that are too old at the time `t`. -/
def Keeps (t : T) (log entries : List α) : Prop :=
  ∃ old, log = old ++ entries ∧ ∀ a ∈ old, w.stale t a = true

variable {w} {t t' : T} {log entries : List α} {a : α}

theorem prune_map (f : β → α) (entries : List β) :
    w.prune t (entries.map f) = ((w.comap f).prune t entries).map f := by
  induction entries with
  | nil => rfl
  | cons b entries ih =>
    by_cases hb : w.stale t (f b) = true
    · simpa [prune, comap, hb] using ih
    · simp [prune, comap, hb]

theorem prune_sublist (t : T) (entries : List α) : (w.prune t entries).Sublist entries :=
  List.dropWhile_sublist _

/-- What is not too old is never dropped, in whatever order the entries are. -/
theorem mem_prune (ha : a ∈ entries) (hstale : w.stale t a = false) : a ∈ w.prune t entries := by
  induction entries with
  | nil => cases ha
  | cons b entries ih =>
    by_cases hb : w.stale t b = true
    · have hab : a ≠ b := by
        rintro rfl
        rw [hstale] at hb
        cases hb
      have hprune : w.prune t (b :: entries) = w.prune t entries := by simp [prune, hb]
      rw [hprune]
      exact ih ((List.mem_cons.mp ha).resolve_left hab)
    · have hprune : w.prune t (b :: entries) = b :: entries := by simp [prune, hb]
      rw [hprune]
      exact ha

/-- In order of age, what is left is what is not too old. -/
theorem prune_eq_filter (h : w.Ordered entries) :
    w.prune t entries = entries.filter fun a => !w.stale t a := by
  induction entries with
  | nil => rfl
  | cons b entries ih =>
    obtain ⟨hb, hrest⟩ := List.pairwise_cons.mp h
    by_cases hstale : w.stale t b = true
    · simpa [prune, hstale] using ih hrest
    · -- the first young entry ends the loop, and all that follow are younger
      have hfilter : entries.filter (fun a => !w.stale t a) = entries := by
        refine List.filter_eq_self.mpr ?_
        intro a ha
        simpa using fun hold => hstale (hb a ha t hold)
      simp [prune, hstale, hfilter]

namespace Keeps

theorem refl (w : Ageing T α) (t : T) (log : List α) : w.Keeps t log log :=
  ⟨[], rfl, by simp⟩

theorem later (h : w.Keeps t log entries) (ht : t ≤ t') : w.Keeps t' log entries := by
  obtain ⟨old, hlog, hold⟩ := h
  exact ⟨old, hlog, fun a ha => w.stale_of_le ht (hold a ha)⟩

theorem prune (h : w.Keeps t log entries) : w.Keeps t log (w.prune t entries) := by
  obtain ⟨old, hlog, hold⟩ := h
  refine ⟨old ++ entries.takeWhile (w.stale t), ?_, ?_⟩
  · rw [List.append_assoc, Ageing.prune, List.takeWhile_append_dropWhile]
    exact hlog
  · intro a ha
    obtain ha | ha := List.mem_append.mp ha
    · exact hold a ha
    · exact List.mem_takeWhile_imp ha

/-- A new entry comes into the log and into the queue. -/
theorem push (h : w.Keeps t log entries) (a : α) : w.Keeps t (log ++ [a]) (entries ++ [a]) := by
  obtain ⟨old, rfl, hold⟩ := h
  exact ⟨old, List.append_assoc _ _ _, hold⟩

theorem sublist (h : w.Keeps t log entries) : entries.Sublist log := by
  obtain ⟨old, rfl, -⟩ := h
  exact List.sublist_append_right old entries

/-- The number of entries that are left is the number of entries of the log that count. -/
theorem length_prune (h : w.Keeps t log entries) (hlog : w.Ordered log) :
    (w.prune t entries).length = log.countP fun a => !w.stale t a := by
  rw [prune_eq_filter (hlog.sublist h.sublist), ← List.countP_eq_length_filter]
  obtain ⟨old, rfl, hold⟩ := h
  have hnone : old.countP (fun a => !w.stale t a) = 0 := by
    refine List.countP_eq_zero.mpr ?_
    intro a ha
    simp [hold a ha]
  rw [List.countP_append, hnone, Nat.zero_add]

end Keeps

end Ageing

end ScalableBooking.SlidingWindow
