import ScalableBooking.Lib.FiniteMap

/-!
# Loops over a hash map

A hash map hands out its entries in an order of its own, and the body of a loop over it may fail,
which ends the loop. `forEntries` is such a loop, with the order as an argument.

What a loop does is proved with an invariant about the keys that are behind it (`foldlM_rule`,
`forEntries_rule`). The one that most loops need is here too: of a loop that fills a map, the keys
behind it have their new entries and all others are as they were before (`Filled`). At the end that
is one pass over the whole map, so the order has gone from the result (`Filled.eq_union`).
-/

namespace ScalableBooking.MapLoop

variable {κ α β ε σ : Type*}

/-- The order in which a hash map hands out its keys: each of them once. -/
structure IterationOrder (κ : Type*) where
  toList : Finset κ → List κ
  nodup : ∀ keys, (toList keys).Nodup
  mem_toList : ∀ keys k, k ∈ toList keys ↔ k ∈ keys

/-- A loop over a list whose body does not fail keeps its invariant. -/
theorem foldlM_rule {body : σ → κ → Except ε σ} {I : List κ → σ → Prop} {l : List κ} {s : σ}
    (hl : l.Nodup) (h₀ : I [] s)
    (hbody : ∀ done k s, k ∈ l → k ∉ done → I done s →
      ∃ s', body s k = .ok s' ∧ I (done ++ [k]) s') :
    ∃ s', l.foldlM body s = .ok s' ∧ I l s' := by
  -- on the rest of the list, with what is behind it
  suffices h : ∀ rest done s, done ++ rest = l → I done s →
      ∃ s', rest.foldlM body s = .ok s' ∧ I (done ++ rest) s' from h l [] s rfl h₀
  intro rest
  induction rest with
  | nil =>
    intro done s _ hI
    exact ⟨s, rfl, by rwa [List.append_nil]⟩
  | cons k rest ih =>
    intro done s hdone hI
    have hk : k ∉ done := by
      rw [← hdone, List.nodup_append] at hl
      exact fun hmem => hl.2.2 k hmem k List.mem_cons_self rfl
    obtain ⟨s₁, hs₁, hI₁⟩ := hbody done k s (by simp [← hdone]) hk hI
    obtain ⟨s', hs', hI'⟩ := ih (done ++ [k]) s₁ (by rw [← hdone]; simp) hI₁
    refine ⟨s', ?_, ?_⟩
    · rw [List.foldlM_cons, hs₁]
      exact hs'
    · rwa [List.append_assoc] at hI'

section Entries

variable [DecidableEq κ] {m : Finmap fun _ : κ => α} {order : IterationOrder κ}

/-- A loop over the entries of a map. -/
def forEntries (order : IterationOrder κ) (m : Finmap fun _ : κ => α) (s : σ)
    (body : σ → κ → α → Except ε σ) : Except ε σ :=
  (order.toList m.keys).foldlM (fun s k =>
    match m.lookup k with
    | some a => body s k a
    | none => pure s) s

theorem forEntries_rule {body : σ → κ → α → Except ε σ} {I : List κ → σ → Prop} {s : σ}
    (h₀ : I [] s)
    (hbody : ∀ done k a s, k ∉ done → m.lookup k = some a → I done s →
      ∃ s', body s k a = .ok s' ∧ I (done ++ [k]) s') :
    ∃ s', forEntries order m s body = .ok s' ∧ I (order.toList m.keys) s' := by
  refine foldlM_rule (order.nodup m.keys) h₀ ?_
  intro done k s hk hdone hI
  obtain ⟨a, ha⟩ := Finmap.mem_iff.mp (Finmap.mem_keys.mp ((order.mem_toList _ _).mp hk))
  obtain ⟨s', hs', hI'⟩ := hbody done k a s hdone ha hI
  refine ⟨s', ?_, hI'⟩
  show (match m.lookup k with | some a => body s k a | none => pure s) = .ok s'
  rw [ha]
  exact hs'

/-! ### Loops that fill a map -/

/-- The keys in `done` have the entries that `g` makes of those of `m`, the others those of `s₀`. -/
def Filled (m : Finmap fun _ : κ => α) (g : κ → α → β) (s₀ : Finmap fun _ : κ => β)
    (done : List κ) (s : Finmap fun _ : κ => β) : Prop :=
  ∀ k, s.lookup k = if k ∈ done then (m.lookup k).map (g k) else s₀.lookup k

namespace Filled

variable {g : κ → α → β} {s₀ s s' : Finmap fun _ : κ => β} {done : List κ} {k : κ} {a : α}

theorem nil : Filled m g s₀ [] s₀ := by
  intro k
  rw [if_neg List.not_mem_nil]

/-- The body gives one more key its entry, and leaves the others alone. -/
theorem snoc (h : Filled m g s₀ done s) (ha : m.lookup k = some a)
    (hk : s'.lookup k = some (g k a)) (hne : ∀ j, j ≠ k → s'.lookup j = s.lookup j) :
    Filled m g s₀ (done ++ [k]) s' := by
  intro j
  by_cases hj : j = k
  · subst hj
    rw [if_pos (by simp), ha, Option.map_some, hk]
  · rw [hne j hj, h j]
    -- nothing new at another key
    have hmem : j ∈ done ++ [k] ↔ j ∈ done := by simp [hj]
    simp only [hmem]

theorem insert (h : Filled m g s₀ done s) (ha : m.lookup k = some a) :
    Filled m g s₀ (done ++ [k]) (s.insert k (g k a)) :=
  h.snoc ha (Finmap.lookup_insert s) fun _ hj => Finmap.lookup_insert_of_ne s hj

/-- At the end of the loop. -/
theorem eq_union (h : Filled m g s₀ (order.toList m.keys) s) : s = m.mapWithKey g ∪ s₀ := by
  refine Finmap.ext_lookup fun k => ?_
  rw [h k, Finmap.lookup_union, Finmap.lookup_mapWithKey]
  by_cases hk : k ∈ m
  · rw [if_pos ((order.mem_toList _ _).mpr (Finmap.mem_keys.mpr hk))]
    obtain ⟨a, ha⟩ := Finmap.mem_iff.mp hk
    rw [ha, Option.map_some, Option.some_or]
  · rw [if_neg fun hmem => hk (Finmap.mem_keys.mp ((order.mem_toList _ _).mp hmem)),
      Finmap.lookup_eq_none.mpr hk, Option.map_none, Option.none_or]

/-- If the map was empty, or the loop rewrites the map it runs over, nothing old is left. -/
theorem eq_mapWithKey (h : Filled m g s₀ (order.toList m.keys) s) (hs₀ : s₀.keys ⊆ m.keys) :
    s = m.mapWithKey g := by
  rw [h.eq_union]
  refine Finmap.ext_lookup fun k => ?_
  rw [Finmap.lookup_union, Finmap.lookup_mapWithKey]
  cases hk : m.lookup k with
  | some a => rw [Option.map_some, Option.some_or]
  | none =>
    have hnot : k ∉ s₀.keys := by
      intro hmem
      exact Finmap.lookup_eq_none.mp hk (Finmap.mem_keys.mp (hs₀ hmem))
    rw [Option.map_none, Option.none_or, Finmap.lookup_eq_none, ← Finmap.mem_keys]
    exact hnot

end Filled

variable {g : κ → α → β} {s₀ : Finmap fun _ : κ => β}
  {body : (Finmap fun _ : κ => β) → κ → α → Except ε (Finmap fun _ : κ => β)}

/-- A loop that inserts what `g` makes of every entry is a pass over the map. -/
theorem forEntries_insert (hs₀ : s₀.keys ⊆ m.keys)
    (hbody : ∀ s k a, m.lookup k = some a → body s k a = .ok (s.insert k (g k a))) :
    forEntries order m s₀ body = .ok (m.mapWithKey g) := by
  have hloop : ∃ s, forEntries order m s₀ body = .ok s ∧
      Filled m g s₀ (order.toList m.keys) s := by
    refine forEntries_rule Filled.nil ?_
    intro done k a s _ ha hI
    exact ⟨_, hbody s k a ha, hI.insert ha⟩
  obtain ⟨s, hs, hfilled⟩ := hloop
  rw [hs, hfilled.eq_mapWithKey hs₀]

/-- A loop that does so only for keys that are not there yet. -/
theorem forEntries_insert_new
    (hbody : ∀ s k a, m.lookup k = some a →
      body s k a = .ok (if k ∈ s then s else s.insert k (g k a))) :
    forEntries order m s₀ body = .ok (s₀ ∪ m.mapWithKey g) := by
  -- at a key that is there already, the loop fills in the entry that is there
  let g' : κ → α → β := fun k a => (s₀.lookup k).getD (g k a)
  have hloop : ∃ s, forEntries order m s₀ body = .ok s ∧
      Filled m g' s₀ (order.toList m.keys) s := by
    refine forEntries_rule Filled.nil ?_
    intro done k a s hdone ha hI
    refine ⟨_, hbody s k a ha, ?_⟩
    have hlookup : s.lookup k = s₀.lookup k := by rw [hI k, if_neg hdone]
    by_cases hk : k ∈ s
    · obtain ⟨b, hb⟩ := Finmap.mem_iff.mp hk
      have hg : g' k a = b := by simp [g', ← hlookup, hb]
      rw [if_pos hk]
      refine hI.snoc ha ?_ fun _ _ => rfl
      rw [hb, hg]
    · have hnone : s₀.lookup k = none := hlookup.symm.trans (Finmap.lookup_eq_none.mpr hk)
      have hg : g' k a = g k a := by simp [g', hnone]
      rw [if_neg hk, ← hg]
      exact hI.insert ha
  obtain ⟨s, hs, hfilled⟩ := hloop
  rw [hs, hfilled.eq_union]
  congr 1
  refine Finmap.ext_lookup fun k => ?_
  rw [Finmap.lookup_union, Finmap.lookup_union, Finmap.lookup_mapWithKey, Finmap.lookup_mapWithKey]
  cases h₀ : s₀.lookup k <;> cases m.lookup k <;> simp [g', h₀]

end Entries

end ScalableBooking.MapLoop
