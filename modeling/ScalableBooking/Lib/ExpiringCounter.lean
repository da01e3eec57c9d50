import Mathlib.Algebra.Order.Group.Nat
import Mathlib.Data.Finset.Max
import Mathlib.Order.Interval.Finset.Nat

/-!
# Counters that expire

One key of a store, as a limiter uses it. A command creates the counter or raises it, and gives
its client the new value. Another one gives it a deadline, if it has none yet, a window ahead.
When the deadline has come the counter expires, and the next command begins a new life of the
key.

A life that has ended has lasted a window, because its deadline was set after it began. So
clients whose lives are two apart came a window apart (`Lifetimes.apart`), and a window of time
meets two lives (`card_le_of_window`). Within a life the clients are numbered: each has a value
of its own (`Lifetimes.distinct`), and none is left out (`Filled`).

A life need not get a deadline at all. Once it has one, it keeps it (`Doomed`), and the first
client of the next life is given `1` (`Begun`).
-/

namespace ScalableBooking.ExpiringCounter

/-! ### The key -/

/-- The value of a key, and when it expires. -/
structure Counter where
  value : ℕ
  expiresAt : Option ℕ
deriving DecidableEq, Repr

/-- What a client has been given: the value, the time and the life of the key. -/
structure Count where
  current : ℕ
  time : ℕ
  life : ℕ
deriving DecidableEq, Repr, Inhabited

/-- A key, with what its clients have been given and how many lives have begun. -/
@[ext]
structure Key (P : Type) where
  given : P → Option Count
  counter : Option Counter
  lives : ℕ
  clock : ℕ

namespace Key

variable {P : Type} [DecidableEq P]

omit [DecidableEq P] in
/-- The deadline of the counter is over, or there is none. -/
def Dead (k : Key P) : Prop :=
  ∀ counter, k.counter = some counter → ∃ t, counter.expiresAt = some t ∧ t < k.clock

/-- The client `p` is given the next value of the counter. -/
def raise (k : Key P) (p : P) (counter : Counter) : Key P :=
  { k with
    given := Function.update k.given p (some ⟨counter.value + 1, k.clock, k.lives⟩)
    counter := some { counter with value := counter.value + 1 } }

/-- The client `p` is given the first value of a new life. -/
def revive (k : Key P) (p : P) : Key P :=
  { k with
    given := Function.update k.given p (some ⟨1, k.clock, k.lives + 1⟩)
    counter := some ⟨1, none⟩
    lives := k.lives + 1 }

end Key

/-- What can happen to a key. -/
inductive Step {P : Type} [DecidableEq P] (window : ℕ) (k : Key P) : Key P → Prop where
  | tick (clock : ℕ) (h : k.clock ≤ clock) : Step window k { k with clock }
  | raise (p : P) (counter : Counter) (hp : k.given p = none) (h : k.counter = some counter) :
      Step window k (k.raise p counter)
  | revive (p : P) (hp : k.given p = none) (h : k.Dead) : Step window k (k.revive p)
  | deadline (value : ℕ) (h : k.counter = some ⟨value, none⟩) :
      Step window k { k with counter := some ⟨value, some (k.clock + window)⟩ }
  | expire (value t : ℕ) (h : k.counter = some ⟨value, some t⟩) (ht : t ≤ k.clock) :
      Step window k { k with counter := none }

/-! ### Lives -/

/-- What is known of the lives of a key, when the present one has begun at `bornAt`. Life `0` is
what was there at first. -/
structure Lifetimes {P : Type} (window : ℕ) (k : Key P) (bornAt : ℕ) : Prop where
  counted : ∀ p c, k.given p = some c → 1 ≤ c.current ∧ c.time ≤ k.clock ∧ c.life ≤ k.lives
  current : ∀ p c counter, k.given p = some c → c.life = k.lives → k.counter = some counter →
    c.current ≤ counter.value
  distinct : ∀ p q c c', k.given p = some c → k.given q = some c' → c.life = c'.life →
    c.current = c'.current → p = q
  before : ∀ p c, k.given p = some c → c.life < k.lives → c.time ≤ bornAt
  skipped : ∀ p c, k.given p = some c → c.life + 2 ≤ k.lives → c.time + window ≤ bornAt
  apart : ∀ p q c c', k.given p = some c → k.given q = some c' → c.life + 2 ≤ c'.life →
    c.time + window ≤ c'.time
  born : bornAt ≤ k.clock
  deadline : k.lives ≠ 0 → ∀ value t, k.counter = some ⟨value, some t⟩ → bornAt + window ≤ t
  gone : k.lives ≠ 0 → k.counter = none → bornAt + window ≤ k.clock

section Cases

variable {P : Type} [DecidableEq P] {given : P → Option Count} {p q : P} {c c₀ : Count}

/-- After `p` has been given something, the others have what they had. -/
theorem given_cases (h : Function.update given p (some c₀) q = some c) :
    q = p ∧ c = c₀ ∨ given q = some c := by
  by_cases hq : q = p
  · subst hq
    rw [Function.update_self] at h
    exact .inl ⟨rfl, (Option.some.inj h).symm⟩
  · rw [Function.update_of_ne hq] at h
    exact .inr h

end Cases

namespace Lifetimes

variable {P : Type} {window : ℕ} {k k' : Key P} {bornAt : ℕ}

theorem start (counter : Option Counter) (clock : ℕ) :
    Lifetimes window (P := P) ⟨fun _ => none, counter, 0, clock⟩ clock where
  counted p c hc := by cases hc
  current p c counter hc := by cases hc
  distinct p q c c' hc := by cases hc
  before p c hc := by cases hc
  skipped p c hc := by cases hc
  apart p q c c' hc := by cases hc
  born := Nat.le_refl _
  deadline hlives := absurd rfl hlives
  gone hlives := absurd rfl hlives

/-- A life that is over has lasted a window. -/
theorem window_of_dead (h : Lifetimes window k bornAt) (hlives : k.lives ≠ 0) (hdead : k.Dead) :
    bornAt + window ≤ k.clock := by
  cases hcounter : k.counter with
  | none => exact h.gone hlives hcounter
  | some counter =>
    obtain ⟨t, ht, hlt⟩ := hdead counter hcounter
    obtain ⟨value, expiresAt⟩ := counter
    cases ht
    exact Nat.le_of_lt (Nat.lt_of_le_of_lt (h.deadline hlives value t hcounter) hlt)

variable [DecidableEq P] {p : P} {counter : Counter}

theorem raise (h : Lifetimes window k bornAt) (hcounter : k.counter = some counter) :
    Lifetimes window (k.raise p counter) bornAt := by
  -- the new value is higher than those given before in this life
  have hnew {q : P} {c : Count} (hc : k.given q = some c) (hlife : c.life = k.lives) :
      c.current < counter.value + 1 :=
    Nat.lt_succ_of_le (h.current q c counter hc hlife hcounter)
  refine { h with counted := ?_, current := ?_, distinct := ?_, before := ?_, skipped := ?_,
                  apart := ?_, deadline := ?_, gone := ?_ }
  · intro q c hc
    obtain ⟨-, rfl⟩ | hc := given_cases hc
    · exact ⟨Nat.le_add_left _ _, Nat.le_refl _, Nat.le_refl _⟩
    · exact h.counted q c hc
  · rintro q c _ hc hlife ⟨⟩
    obtain ⟨-, rfl⟩ | hc := given_cases hc
    · exact Nat.le_refl _
    · exact Nat.le_of_lt (hnew hc hlife)
  · intro q r c c' hc hc' hlife hcurrent
    obtain ⟨rfl, rfl⟩ | hc := given_cases hc
    · obtain ⟨rfl, -⟩ | hc' := given_cases hc'
      · rfl
      · exact absurd hcurrent.symm (Nat.ne_of_lt (hnew hc' hlife.symm))
    · obtain ⟨-, rfl⟩ | hc' := given_cases hc'
      · exact absurd hcurrent (Nat.ne_of_lt (hnew hc hlife))
      · exact h.distinct q r c c' hc hc' hlife hcurrent
  · intro q c hc hlife
    obtain ⟨-, rfl⟩ | hc := given_cases hc
    · exact absurd hlife (Nat.lt_irrefl _)
    · exact h.before q c hc hlife
  · intro q c hc hlife
    obtain ⟨-, rfl⟩ | hc := given_cases hc
    · exact absurd (Nat.lt_of_succ_lt hlife) (Nat.lt_irrefl _)
    · exact h.skipped q c hc hlife
  · intro q r c c' hc hc' hlife
    obtain ⟨-, rfl⟩ | hc := given_cases hc
    · -- no life comes after the present one
      have hle : c'.life ≤ k.lives := by
        obtain ⟨-, rfl⟩ | hc' := given_cases hc'
        · exact Nat.le_refl _
        · exact (h.counted r c' hc').2.2
      exact absurd (Nat.lt_of_succ_lt (Nat.le_trans hlife hle)) (Nat.lt_irrefl _)
    · obtain ⟨-, rfl⟩ | hc' := given_cases hc'
      · exact Nat.le_trans (h.skipped q c hc hlife) h.born
      · exact h.apart q r c c' hc hc' hlife
  · rintro hlives value t heq
    obtain ⟨value', expiresAt⟩ := counter
    cases heq
    exact h.deadline hlives value' t hcounter
  · rintro - ⟨⟩

theorem revive (h : Lifetimes window k bornAt) (hdead : k.Dead) :
    Lifetimes window (k.revive p) k.clock := by
  -- whoever was served before the life that is over came a window ago
  have hwindow {q : P} {c : Count} (hc : k.given q = some c) (hlife : c.life + 2 ≤ k.lives + 1) :
      c.time + window ≤ k.clock := by
    have hlt : c.life < k.lives := Nat.le_of_succ_le_succ hlife
    have hle := h.window_of_dead (Nat.ne_zero_of_lt hlt) hdead
    exact Nat.le_trans (Nat.add_le_add_right (h.before q c hc hlt) _) hle
  have hnew {q : P} {c : Count} (hc : k.given q = some c) : c.life ≠ k.lives + 1 :=
    Nat.ne_of_lt (Nat.lt_succ_of_le (h.counted q c hc).2.2)
  refine ⟨?_, ?_, ?_, ?_, ?_, ?_, Nat.le_refl _, ?_, ?_⟩
  · intro q c hc
    obtain ⟨-, rfl⟩ | hc := given_cases hc
    · exact ⟨Nat.le_refl _, Nat.le_refl _, Nat.le_refl _⟩
    · obtain ⟨hone, htime, hlife⟩ := h.counted q c hc
      exact ⟨hone, htime, Nat.le_succ_of_le hlife⟩
  · rintro q c _ hc hlife ⟨⟩
    obtain ⟨-, rfl⟩ | hc := given_cases hc
    · exact Nat.le_refl _
    · exact absurd hlife (hnew hc)
  · intro q r c c' hc hc' hlife hcurrent
    obtain ⟨rfl, rfl⟩ | hc := given_cases hc
    · obtain ⟨rfl, -⟩ | hc' := given_cases hc'
      · rfl
      · exact absurd hlife.symm (hnew hc')
    · obtain ⟨-, rfl⟩ | hc' := given_cases hc'
      · exact absurd hlife (hnew hc)
      · exact h.distinct q r c c' hc hc' hlife hcurrent
  · intro q c hc hlife
    obtain ⟨-, rfl⟩ | hc := given_cases hc
    · exact Nat.le_refl _
    · exact (h.counted q c hc).2.1
  · intro q c hc hlife
    obtain ⟨-, rfl⟩ | hc := given_cases hc
    · exact absurd (Nat.lt_of_succ_lt hlife) (Nat.lt_irrefl _)
    · exact hwindow hc hlife
  · intro q r c c' hc hc' hlife
    obtain ⟨-, rfl⟩ | hc := given_cases hc
    · have hle : c'.life ≤ k.lives + 1 := by
        obtain ⟨-, rfl⟩ | hc' := given_cases hc'
        · exact Nat.le_refl _
        · exact Nat.le_succ_of_le (h.counted r c' hc').2.2
      exact absurd (Nat.lt_of_succ_lt (Nat.le_trans hlife hle)) (Nat.lt_irrefl _)
    · obtain ⟨-, rfl⟩ | hc' := given_cases hc'
      · exact hwindow hc hlife
      · exact h.apart q r c c' hc hc' hlife
  · rintro - value t ⟨⟩
  · rintro - ⟨⟩

/-- Whatever happens to a key, its lives stay in order. -/
theorem step (h : Lifetimes window k bornAt) (hs : Step window k k') :
    ∃ bornAt', Lifetimes window k' bornAt' := by
  cases hs with
  | tick clock hclock =>
    refine ⟨bornAt, { h with counted := ?_, born := ?_, gone := ?_ }⟩
    · intro p c hc
      obtain ⟨hone, htime, hlife⟩ := h.counted p c hc
      exact ⟨hone, Nat.le_trans htime hclock, hlife⟩
    · exact Nat.le_trans h.born hclock
    · intro hlives hnone
      exact Nat.le_trans (h.gone hlives hnone) hclock
  | raise p counter hp hcounter => exact ⟨bornAt, h.raise hcounter⟩
  | revive p hp hdead => exact ⟨k.clock, h.revive hdead⟩
  | deadline value hcounter =>
    refine ⟨bornAt, { h with current := ?_, deadline := ?_, gone := ?_ }⟩
    · rintro p c _ hc hlife ⟨⟩
      exact h.current p c ⟨value, none⟩ hc hlife hcounter
    · rintro - _ _ ⟨⟩
      -- set now, and the life has begun before
      exact Nat.add_le_add_right h.born _
    · rintro - ⟨⟩
  | expire value t hcounter ht =>
    refine ⟨bornAt, { h with current := ?_, deadline := ?_, gone := ?_ }⟩
    · rintro p c _ - - ⟨⟩
    · rintro - _ _ ⟨⟩
    · intro hlives _
      exact Nat.le_trans (h.deadline hlives value t hcounter) ht

end Lifetimes

/-! ### Counting -/

section Counting

variable {α T : Type*} {A : Finset α} {M : ℕ}

/-- Elements with numbers of their own from `1` to `M`. -/
theorem card_le_of_injOn (number : α → ℕ) (hinj : Set.InjOn number A)
    (hnumber : ∀ a ∈ A, 1 ≤ number a ∧ number a ≤ M) : A.card ≤ M := by
  have hmaps : Set.MapsTo number A (Finset.Icc 1 M) := by
    intro a ha
    exact Finset.mem_coe.mpr (Finset.mem_Icc.mpr (hnumber a ha))
  have hcard := Finset.card_le_card_of_injOn number hmaps hinj
  rwa [Nat.card_Icc, Nat.add_sub_cancel] at hcard

/-- If two lives apart means a window apart, a window meets at most two lives. -/
theorem card_le_of_window [Preorder T] [Add T] [AddRightMono T] (life : α → ℕ) (time : α → T)
    {t window : T} (hlife : ∀ l, (A.filter fun a => life a = l).card ≤ M)
    (hapart : ∀ a ∈ A, ∀ b ∈ A, life a + 2 ≤ life b → time a + window ≤ time b)
    (hwindow : ∀ a ∈ A, t ≤ time a ∧ time a < t + window) : A.card ≤ 2 * M := by
  classical
  obtain rfl | hne := A.eq_empty_or_nonempty
  · simp
  -- the earliest life in the window, and the one after it
  obtain ⟨a, ha, hmin⟩ := A.exists_min_image life hne
  have hsub : A ⊆ A.filter (fun b => life b = life a) ∪ A.filter fun b => life b = life a + 1 := by
    intro b hb
    have hlt : life b < life a + 2 := by
      by_contra hle
      have hle' := hapart a ha b hb (Nat.not_lt.mp hle)
      have hend := (add_le_add_left (hwindow a ha).1 window).trans hle'
      exact lt_irrefl _ (hend.trans_lt (hwindow b hb).2)
    have hge := hmin b hb
    rw [Finset.mem_union, Finset.mem_filter, Finset.mem_filter]
    by_cases hb' : life b = life a
    · exact .inl ⟨hb, hb'⟩
    · exact .inr ⟨hb, by omega⟩
  calc A.card ≤ _ := Finset.card_le_card hsub
    _ ≤ _ := Finset.card_union_le _ _
    _ ≤ M + M := Nat.add_le_add (hlife _) (hlife _)
    _ = 2 * M := (Nat.two_mul M).symm

end Counting

namespace Lifetimes

variable {P : Type} {window : ℕ} {k : Key P} {bornAt : ℕ} {A : Finset P} {M : ℕ}

/-- In one life at most `M` clients are given a value up to `M`. -/
theorem card_le_of_life (h : Lifetimes window k bornAt) {life : ℕ}
    (hA : ∀ p ∈ A, ∃ c, k.given p = some c ∧ c.life = life ∧ c.current ≤ M) : A.card ≤ M := by
  choose! count hgiven hlife hle using hA
  refine card_le_of_injOn (fun p => (count p).current) ?_ ?_
  · intro p hp q hq heq
    exact h.distinct p q _ _ (hgiven p hp) (hgiven q hq) ((hlife p hp).trans (hlife q hq).symm) heq
  · intro p hp
    exact ⟨(h.counted p _ (hgiven p hp)).1, hle p hp⟩

/-- In one window at most `2 * M` are. -/
theorem card_le_of_window (h : Lifetimes window k bornAt) {t : ℕ}
    (hA : ∀ p ∈ A, ∃ c, k.given p = some c ∧ c.current ≤ M ∧ t ≤ c.time ∧ c.time < t + window) :
    A.card ≤ 2 * M := by
  choose! count hgiven hle hwindow using hA
  refine ExpiringCounter.card_le_of_window (fun p => (count p).life) (fun p => (count p).time)
    ?_ ?_ hwindow
  · intro l
    have hlife : ∀ p ∈ A.filter fun p => (count p).life = l,
        ∃ c, k.given p = some c ∧ c.life = l ∧ c.current ≤ M := by
      intro p hp
      obtain ⟨hp, hl⟩ := Finset.mem_filter.mp hp
      exact ⟨count p, hgiven p hp, hl, hle p hp⟩
    exact h.card_le_of_life hlife
  · intro p hp q hq
    exact h.apart p q _ _ (hgiven p hp) (hgiven q hq)

end Lifetimes

/-! ### No value is left out -/

/-- Every value up to those of the counter and of the clients has been given to somebody in the
same life. -/
structure Filled {P : Type} (k : Key P) : Prop where
  counter : ∀ counter, k.counter = some counter → ∀ v, 1 ≤ v → v ≤ counter.value →
    ∃ p c, k.given p = some c ∧ c.life = k.lives ∧ c.current = v
  given : ∀ p c, k.given p = some c → ∀ v, 1 ≤ v → v ≤ c.current →
    ∃ q c', k.given q = some c' ∧ c'.life = c.life ∧ c'.current = v

namespace Filled

variable {P : Type} {window : ℕ} {k k' : Key P}

theorem start (clock : ℕ) : Filled (P := P) ⟨fun _ => none, none, 0, clock⟩ where
  counter counter h := by cases h
  given p c h := by cases h

variable [DecidableEq P] {p : P}

/-- A client is given the value after those that have been given. -/
theorem update (h : Filled k) {c : Count} {counter : Option Counter} {clock : ℕ}
    (hp : k.given p = none)
    (hvalue : ∀ x, counter = some x → x.value = c.current)
    (hbelow : ∀ v, 1 ≤ v → v < c.current →
      ∃ q c', k.given q = some c' ∧ c'.life = c.life ∧ c'.current = v) :
    Filled ⟨Function.update k.given p (some c), counter, c.life, clock⟩ := by
  have hkeep {q : P} {c' : Count} (hq : k.given q = some c') :
      Function.update k.given p (some c) q = some c' := by
    have hne : q ≠ p := by
      rintro rfl
      rw [hp] at hq
      cases hq
    rw [Function.update_of_ne hne, hq]
  -- the new count fills the place at its own value, the older ones those below
  have hnew (v : ℕ) (hv : 1 ≤ v) (hle : v ≤ c.current) :
      ∃ q c', Function.update k.given p (some c) q = some c' ∧ c'.life = c.life ∧
        c'.current = v := by
    obtain hlt | rfl := Nat.lt_or_eq_of_le hle
    · obtain ⟨q, c', hq, hc'⟩ := hbelow v hv hlt
      exact ⟨q, c', hkeep hq, hc'⟩
    · exact ⟨p, c, Function.update_self _ _ _, rfl, rfl⟩
  refine ⟨?_, ?_⟩
  · intro x hx v hv hle
    rw [hvalue x hx] at hle
    exact hnew v hv hle
  · intro q c' hq v hv hle
    obtain ⟨-, rfl⟩ | hq := given_cases hq
    · exact hnew v hv hle
    · obtain ⟨r, c'', hr, hc''⟩ := h.given q c' hq v hv hle
      exact ⟨r, c'', hkeep hr, hc''⟩

/-- Whatever happens to a key, no value is left out. -/
theorem step (h : Filled k) (hs : Step window k k') : Filled k' := by
  cases hs with
  | tick clock hclock => exact ⟨h.counter, h.given⟩
  | raise p counter hp hcounter =>
    refine h.update (c := ⟨counter.value + 1, k.clock, k.lives⟩) hp ?_ ?_
    · rintro _ ⟨⟩
      rfl
    · intro v hv hlt
      exact h.counter counter hcounter v hv (Nat.le_of_lt_succ hlt)
  -- the first count of a life has none below it
  | revive p hp hdead =>
    refine h.update (c := ⟨1, k.clock, k.lives + 1⟩) hp ?_ ?_
    · rintro _ ⟨⟩
      rfl
    · intro v hv hlt
      exact absurd hv (Nat.not_le_of_lt hlt)
  | deadline value hcounter =>
    refine ⟨?_, h.given⟩
    rintro _ ⟨⟩ v hv hle
    exact h.counter ⟨value, none⟩ hcounter v hv hle
  | expire value t hcounter ht =>
    refine ⟨?_, h.given⟩
    rintro _ ⟨⟩

omit [DecidableEq P] in
/-- A client that is given a value is one of as many in its life. -/
theorem exists_card (h : Filled k) {c : Count} (hp : k.given p = some c) :
    ∃ A : Finset P, A.card = c.current ∧
      ∀ q ∈ A, ∃ c', k.given q = some c' ∧ c'.life = c.life := by
  classical
  have hvalue : ∀ v ∈ Finset.Icc 1 c.current,
      ∃ q c', k.given q = some c' ∧ c'.life = c.life ∧ c'.current = v := by
    intro v hv
    obtain ⟨hone, hle⟩ := Finset.mem_Icc.mp hv
    exact h.given p c hp v hone hle
  have : Nonempty P := ⟨p⟩
  -- a request for each value up to this one, and no request for two
  choose! q count hgiven hlife hcurrent using hvalue
  have hinj : Set.InjOn q (Finset.Icc 1 c.current : Finset ℕ) := by
    intro v hv w hw heq
    have hv' := hgiven v hv
    rw [heq, hgiven w hw, Option.some.injEq] at hv'
    rw [← hcurrent v hv, ← hcurrent w hw, hv']
  refine ⟨(Finset.Icc 1 c.current).image q, ?_, ?_⟩
  · rw [Finset.card_image_of_injOn hinj, Nat.card_Icc, Nat.add_sub_cancel]
  · intro r hr
    obtain ⟨v, hv, rfl⟩ := Finset.mem_image.mp hr
    exact ⟨count v, hgiven v hv, hlife v hv⟩

end Filled

/-! ### From the deadline on -/

/-- A deadline is at most a window ahead. -/
def Near {P : Type} (window : ℕ) (k : Key P) : Prop :=
  ∀ value t, k.counter = some ⟨value, some t⟩ → t ≤ k.clock + window

/-- The life `life` ends by the time `t`, if it has not ended yet. -/
structure Doomed {P : Type} (life t : ℕ) (k : Key P) : Prop where
  begun : life ≤ k.lives
  deadline : k.lives = life → ∀ counter, k.counter = some counter →
    ∃ t', counter.expiresAt = some t' ∧ t' ≤ t

/-- Every life has begun with a client that was given `1`. -/
def Begun {P : Type} (k : Key P) : Prop :=
  ∀ life, 1 ≤ life → life ≤ k.lives → ∃ p c, k.given p = some c ∧ c.life = life ∧ c.current = 1

section Deadline

variable {P : Type} [DecidableEq P] {window : ℕ} {k k' : Key P} {life t : ℕ}

theorem Near.step (h : Near window k) (hs : Step window k k') : Near window k' := by
  cases hs with
  | tick clock hclock =>
    intro value t ht
    exact (h value t ht).trans (Nat.add_le_add_right hclock window)
  | raise p counter hp hcounter =>
    obtain ⟨value₀, expiresAt⟩ := counter
    rintro value t ⟨⟩
    exact h value₀ t hcounter
  | revive p hp hdead => rintro value t ⟨⟩
  | deadline value₀ hcounter =>
    rintro value t ⟨⟩
    exact Nat.le_refl _
  | expire value₀ t₀ hcounter ht => rintro value t ⟨⟩

theorem Doomed.step (h : Doomed life t k) (hs : Step window k k') : Doomed life t k' := by
  cases hs with
  | tick clock hclock => exact ⟨h.begun, h.deadline⟩
  | raise p counter hp hcounter =>
    refine ⟨h.begun, ?_⟩
    rintro hlife _ ⟨⟩
    exact h.deadline hlife counter hcounter
  | revive p hp hdead =>
    refine ⟨Nat.le_succ_of_le h.begun, fun hlife => ?_⟩
    exact absurd hlife (Nat.ne_of_gt (Nat.lt_succ_of_le h.begun))
  | deadline value hcounter =>
    refine ⟨h.begun, ?_⟩
    rintro hlife _ ⟨⟩
    -- a doomed life has its deadline already
    obtain ⟨t', ht', -⟩ := h.deadline hlife _ hcounter
    cases ht'
  | expire value t₀ hcounter ht =>
    refine ⟨h.begun, ?_⟩
    rintro - _ ⟨⟩

theorem Begun.step (h : Begun k) (hs : Step window k k') : Begun k' := by
  have hkeep {p : P} {c₀ : Count} (hp : k.given p = none) {q : P} {c : Count}
      (hq : k.given q = some c) : Function.update k.given p (some c₀) q = some c := by
    rw [Function.update_of_ne _ _ _, hq]
    rintro rfl
    rw [hp] at hq
    cases hq
  cases hs with
  | tick clock hclock => exact h
  | raise p counter hp hcounter =>
    intro life hone hlife
    obtain ⟨q, c, hq, hc⟩ := h life hone hlife
    exact ⟨q, c, hkeep hp hq, hc⟩
  | revive p hp hdead =>
    intro life hone hlife
    -- the new life begins with this count, the older ones have begun before
    obtain hle | rfl := Nat.le_or_eq_of_le_succ hlife
    · obtain ⟨q, c, hq, hc⟩ := h life hone hle
      exact ⟨q, c, hkeep hp hq, hc⟩
    · exact ⟨p, _, Function.update_self _ _ _, rfl, rfl⟩
  | deadline value hcounter => exact h
  | expire value t₀ hcounter ht => exact h

end Deadline

end ScalableBooking.ExpiringCounter
