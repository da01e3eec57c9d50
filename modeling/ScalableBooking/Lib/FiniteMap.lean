import Mathlib.Data.Finmap
import Mathlib.Algebra.BigOperators.Group.Finset.Basic

/-!
# Finite maps, pass by pass

Mathlib's `Finmap` has `lookup`, `insert` and the left-biased union. A table that is
rewritten by several passes over all its entries also needs the pass itself and the
sum of a reading over the table:

* `Finmap.mapWithKey f m` rewrites every entry of `m` by `f` and keeps the key set;
* `Finmap.insertAll key val l m` runs an insertion loop over the list `l`;
* `Finmap.readD w m a` reads the entry at `a` through `w`, and is `0` off the key set;
* `Finmap.total w m` sums that reading over the key set.

Everything is characterised by `lookup`, so an iteration order is never involved.
-/

namespace Finmap

variable {α : Type*} [DecidableEq α] {β γ : α → Type*}

/-! ### Rewriting every entry -/

/-- Rewrite every entry by `f`, leaving the key set alone. -/
def mapWithKey (f : ∀ a, β a → γ a) (m : Finmap β) : Finmap γ :=
  keysLookupEquiv.symm ⟨(m.keys, fun a => (m.lookup a).map (f a)), fun a => by
    rw [Option.isSome_map, lookup_isSome, mem_keys]⟩

@[simp] theorem keys_mapWithKey (f : ∀ a, β a → γ a) (m : Finmap β) :
    (m.mapWithKey f).keys = m.keys :=
  keysLookupEquiv_symm_apply_keys _

@[simp] theorem lookup_mapWithKey (f : ∀ a, β a → γ a) (m : Finmap β) (a : α) :
    (m.mapWithKey f).lookup a = (m.lookup a).map (f a) :=
  keysLookupEquiv_symm_apply_lookup _ _

/-- A union reads the left map first. -/
theorem lookup_union (a : α) (s t : Finmap β) :
    (s ∪ t).lookup a = (s.lookup a).or (t.lookup a) := by
  by_cases h : a ∈ s
  · obtain ⟨b, hb⟩ := mem_iff.mp h
    rw [lookup_union_left h, hb, Option.some_or]
  · rw [lookup_union_right h, lookup_eq_none.mpr h, Option.none_or]

/-! ### Inserting a list of entries -/

section InsertAll

variable {ι : Type*} {V : Type*} {key : ι → α} {val : ι → V} {a : α}

/-- Insert the entries `key e ↦ val e` of a list from left to right, a later entry
overwriting an earlier one at the same key. -/
def insertAll (key : ι → α) (val : ι → V) (l : List ι) (m : Finmap fun _ : α => V) :
    Finmap fun _ : α => V :=
  l.foldl (fun m e => m.insert (key e) (val e)) m

theorem mem_insertAll {l : List ι} {m : Finmap fun _ : α => V} :
    a ∈ insertAll key val l m ↔ a ∈ l.map key ∨ a ∈ m := by
  induction l generalizing m with
  | nil => simp [insertAll]
  | cons e l ih =>
    -- the head goes into the accumulator, the hypothesis is about every accumulator
    show a ∈ insertAll key val l (m.insert (key e) (val e)) ↔ _
    rw [ih, mem_insert, List.map_cons, List.mem_cons]
    tauto

/-- An entry found after the insertions is one of the list or was there before. -/
theorem exists_of_lookup_insertAll {l : List ι} {m : Finmap fun _ : α => V} {v : V}
    (h : (insertAll key val l m).lookup a = some v) :
    (∃ e ∈ l, key e = a ∧ val e = v) ∨ m.lookup a = some v := by
  induction l generalizing m with
  | nil => exact Or.inr h
  | cons e l ih =>
    obtain ⟨e', he', hk, hv⟩ | hm := ih h
    · exact Or.inl ⟨e', List.mem_cons_of_mem e he', hk, hv⟩
    · -- it was in the map after the head: either the head put it there, or it is old
      by_cases hk : a = key e
      · subst hk
        rw [lookup_insert] at hm
        exact Or.inl ⟨e, List.mem_cons_self, rfl, Option.some.inj hm⟩
      · rw [lookup_insert_of_ne _ hk] at hm
        exact Or.inr hm

end InsertAll

/-! ### Reading through a function and summing -/

section Total

variable {V : Type*} {M : Type*} [AddCommMonoid M] {m : Finmap fun _ : α => V} {w : V → M} {a : α}

/-- The entry at `a` read through `w`, `0` when there is none. -/
def readD (w : V → M) (m : Finmap fun _ : α => V) (a : α) : M :=
  ((m.lookup a).map w).getD 0

/-- The sum of the readings over the key set. -/
def total (w : V → M) (m : Finmap fun _ : α => V) : M :=
  ∑ a ∈ m.keys, m.readD w a

theorem readD_of_lookup {v : V} (h : m.lookup a = some v) : m.readD w a = w v := by
  rw [readD, h, Option.map_some, Option.getD_some]

theorem readD_of_notMem (h : a ∉ m) : m.readD w a = 0 := by
  rw [readD, lookup_eq_none.mpr h, Option.map_none, Option.getD_none]

/-- On a key the reading is the reading of some entry. -/
theorem exists_lookup_of_mem_keys (h : a ∈ m.keys) : ∃ v, m.lookup a = some v :=
  mem_iff.mp (mem_keys.mp h)

end Total

end Finmap
