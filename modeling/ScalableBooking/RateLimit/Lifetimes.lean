import ScalableBooking.RateLimit.Limiter

/-!
# At most twice the limit in every window

Counter and deadline of a key are set by different commands, of different requests. Whatever the
order of the commands, wherever requests are lost and whenever the key expires, one lifetime of
the key admits at most `RATE_LIMIT_MAX_REQUESTS` requests, and a window of
`RATE_LIMIT_WINDOW_SECONDS` at most twice that many (`admitted_of_run`).

Each key of Redis, taken alone, is an expiring counter (`State.keyAt_step`), so what is known of
those holds of it.
-/

namespace ScalableBooking.RateLimit

open ExpiringCounter

variable {P : Type} {env : Env} {requests : P → Request}

namespace State

/-- What the request `p` has been given. -/
def count (s : State P) (p : P) : Option Count := (s.phase p).count

/-- One key of Redis, with the requests that are counted under it. -/
def keyAt (requests : P → Request) (s : State P) (key : String) : Key P where
  given p := if (requests p).key = key then s.count p else none
  counter := s.redis key
  lives := s.lives key
  clock := s.clock

theorem keyAt_start (redis : String → Option Counter) (clock : ℕ) (key : String) :
    (State.start redis clock : State P).keyAt requests key =
      ⟨fun _ => none, redis key, 0, clock⟩ := by
  simp [keyAt, start, count, Phase.count]

theorem live_eq_some {s : State P} {key : String} {counter : Counter}
    (h : s.live key = some counter) : s.redis key = some counter :=
  (Option.filter_eq_some_iff.mp h).1

/-- A key that no command finds has expired. -/
theorem dead_of_live {s : State P} {key : String} (h : s.live key = none) :
    (s.keyAt requests key).Dead := by
  intro counter hcounter
  have hexpired := Option.filter_eq_none_iff.mp h counter hcounter
  cases ht : counter.expiresAt with
  | none => simp [ht] at hexpired
  | some t =>
    refine ⟨t, rfl, ?_⟩
    show t < s.clock
    simpa [ht] using hexpired

variable [DecidableEq P] {s s' : State P} {p : P} {phase : Phase}

/-- Going on with what it has been given, a request changes nothing for the others. -/
theorem count_goto (s : State P) (h : phase.count = s.count p) :
    (s.goto p phase).count = s.count := by
  ext1 q
  by_cases hq : q = p
  · subst hq
    simpa [count, goto] using h
  · simp [count, goto, hq]

/-- A request that is given something is given it under its own key. -/
theorem given_goto {c : Count} (s : State P) (hphase : phase.count = some c) (key : String) :
    ((s.goto p phase).keyAt requests key).given =
      if (requests p).key = key then Function.update (s.keyAt requests key).given p (some c)
      else (s.keyAt requests key).given := by
  ext1 q
  by_cases hq : q = p
  · subst hq
    by_cases hkey : (requests q).key = key
    · simpa [keyAt, hkey, count, goto] using hphase
    · simp [keyAt, hkey]
  · by_cases hkey : (requests p).key = key
    · simp [keyAt, hkey, hq, count, goto]
    · simp [keyAt, hkey, hq, count, goto]

/-- With what it has been given a request goes on unseen by Redis. -/
theorem keyAt_goto (hcount : phase.count = s.count p) (key : String) :
    (s.goto p phase).keyAt requests key = s.keyAt requests key := by
  refine Key.ext ?_ rfl rfl rfl
  simp only [keyAt, s.count_goto hcount]

/-- `INCR` raises the counter of its key, or begins a new life of it. -/
theorem keyAt_incr (s : State P) (hp : s.count p = none) (key : String) :
    Step env.window (s.keyAt requests key)
      (((s.incr (requests p).key).1.goto p
        (.counted (s.incr (requests p).key).2)).keyAt requests key) := by
  by_cases hkey : (requests p).key = key
  · subst hkey
    have hgiven : (s.keyAt requests (requests p).key).given p = none := by
      simp [keyAt, hp]
    cases hlive : s.live (requests p).key with
    | some counter =>
      have heq : ((s.incr (requests p).key).1.goto p
          (.counted (s.incr (requests p).key).2)).keyAt requests (requests p).key =
          (s.keyAt requests (requests p).key).raise p counter := by
        simp only [incr, hlive]
        refine Key.ext ?_ ?_ rfl rfl
        · rw [given_goto _ rfl, if_pos rfl]
          rfl
        · exact Function.update_self _ _ _
      rw [heq]
      exact .raise p counter hgiven (live_eq_some hlive)
    | none =>
      have heq : ((s.incr (requests p).key).1.goto p
          (.counted (s.incr (requests p).key).2)).keyAt requests (requests p).key =
          (s.keyAt requests (requests p).key).revive p := by
        simp only [incr, hlive]
        refine Key.ext ?_ ?_ ?_ rfl
        · rw [given_goto _ rfl, if_pos rfl]
          rfl
        · exact Function.update_self _ _ _
        · exact Function.update_self _ _ _
      rw [heq]
      exact .revive p hgiven (dead_of_live hlive)
  · -- the other keys are not touched
    have heq : ((s.incr (requests p).key).1.goto p
        (.counted (s.incr (requests p).key).2)).keyAt requests key = s.keyAt requests key := by
      simp only [incr]
      split
      · refine Key.ext ?_ ?_ rfl rfl
        · rw [given_goto _ rfl, if_neg hkey]
          rfl
        · exact Function.update_of_ne (Ne.symm hkey) _ _
      · refine Key.ext ?_ ?_ ?_ rfl
        · rw [given_goto _ rfl, if_neg hkey]
          rfl
        · exact Function.update_of_ne (Ne.symm hkey) _ _
        · exact Function.update_of_ne (Ne.symm hkey) _ _
    rw [heq]
    exact .tick _ (Nat.le_refl _)

/-- A command on one key leaves the others alone. -/
theorem keyAt_update {key' : String} {counter : Option Counter}
    (hstep : Step env.window (s.keyAt requests key') { s.keyAt requests key' with counter })
    (key : String) : Step env.window (s.keyAt requests key)
      ({ s with redis := Function.update s.redis key' counter }.keyAt requests key) := by
  by_cases hkey : key = key'
  · subst hkey
    simpa [keyAt, count] using hstep
  · have heq : { s with redis := Function.update s.redis key' counter }.keyAt requests key =
        s.keyAt requests key := by
      simp [keyAt, count, hkey]
    rw [heq]
    exact .tick _ (Nat.le_refl _)

omit [DecidableEq P] in
/-- Commands do not move the requests. -/
theorem phase_incr (s : State P) (key : String) : (s.incr key).1.phase = s.phase := by
  simp only [incr]
  split <;> rfl

omit [DecidableEq P] in
theorem phase_expireNx (s : State P) (key : String) (seconds : ℕ) :
    (s.expireNx key seconds).phase = s.phase := by
  simp only [expireNx]
  split <;> rfl

/-- `EXPIRE NX` gives a deadline to a key without one, or does nothing. -/
theorem keyAt_expireNx (s : State P) (key' key : String) :
    Step env.window (s.keyAt requests key)
      ((s.expireNx key' env.windowSeconds).keyAt requests key) := by
  simp only [expireNx]
  split
  · rename_i value hlive
    exact keyAt_update (.deadline value (live_eq_some hlive)) key
  · exact .tick _ (Nat.le_refl _)

/-- The request that sends it goes on unseen. -/
theorem keyAt_windowed {c : Count} (hp : s.phase p = .counted c) (key' key : String) (n : ℕ) :
    ((s.expireNx key' n).goto p (.windowed c)).keyAt requests key =
      (s.expireNx key' n).keyAt requests key := by
  refine keyAt_goto ?_ key
  rw [count, phase_expireNx, hp]
  rfl

/-- A request that only goes on. -/
theorem keyAt_forward {phase' : Phase} (hp : s.phase p = phase)
    (hcount : phase'.count = phase.count) (key : String) :
    Step env.window (s.keyAt requests key) ((s.goto p phase').keyAt requests key) := by
  have hcount' : phase'.count = s.count p := by rw [count, hp, hcount]
  rw [keyAt_goto hcount']
  exact .tick _ (Nat.le_refl _)

/-- What a step does, by the event. -/
inductive Effect (env : Env) (requests : P → Request) (s : State P) :
    Event P → State P → Prop where
  | tick (d : ℕ) : Effect env requests s (.tick d) { s with clock := s.clock + d }
  | exempt (p : P) (hp : s.phase p = .arrived) (h : (requests p).exempt = true) :
      Effect env requests s (.run p) (s.goto p .exempted)
  | incr (p : P) (hp : s.phase p = .arrived) (h : (requests p).exempt = false) :
      Effect env requests s (.run p)
        ((s.incr (requests p).key).1.goto p (.counted (s.incr (requests p).key).2))
  | expireNx (p : P) (c : Count) (hp : s.phase p = .counted c) :
      Effect env requests s (.run p)
        ((s.expireNx (requests p).key env.windowSeconds).goto p (.windowed c))
  | reject (p : P) (c : Count) (hp : s.phase p = .windowed c) (h : env.maxRequests < c.current) :
      Effect env requests s (.run p) (s.goto p (.rejected RateLimitError c))
  | pass (p : P) (c : Count) (hp : s.phase p = .windowed c) (h : c.current ≤ env.maxRequests) :
      Effect env requests s (.run p) (s.goto p (.admitted c))
  | crash (p : P) : Effect env requests s (.crash p) (s.goto p (.crashed (s.phase p).count))
  | expire (key : String) (value t : ℕ) (h : s.redis key = some ⟨value, some t⟩)
      (ht : t ≤ s.clock) :
      Effect env requests s (.expire key) { s with redis := Function.update s.redis key none }

theorem effect_of_step {e : Event P} (hs : s.step env requests e = some s') :
    Effect env requests s e s' := by
  cases e with
  | tick d =>
    cases hs
    exact .tick d
  | run p =>
    simp only [step] at hs
    split at hs
    · rename_i hp
      split at hs
      · rename_i hexempt
        cases hs
        exact .exempt p hp hexempt
      · rename_i hexempt
        cases hs
        exact .incr p hp (Bool.eq_false_of_not_eq_true hexempt)
    · rename_i c hp
      cases hs
      exact .expireNx p c hp
    · -- the verdict on the count that the request was given
      rename_i c hp
      split at hs
      · rename_i hlt
        cases hs
        exact .reject p c hp hlt
      · rename_i hle
        cases hs
        exact .pass p c hp (Nat.le_of_not_lt hle)
    · cases hs
  | crash p =>
    simp only [step] at hs
    split at hs
    case h_4 => cases hs
    all_goals
      cases hs
      exact .crash p
  | expire key =>
    obtain ⟨counter, hcounter, hs⟩ := Option.bind_eq_some_iff.mp hs
    obtain ⟨t, ht, hs⟩ := Option.bind_eq_some_iff.mp hs
    obtain ⟨hle, hs⟩ := Option.ite_none_right_eq_some.mp hs
    cases hs
    obtain ⟨value, expiresAt⟩ := counter
    cases ht
    exact .expire key value t hcounter hle

/-- Every step is a step of an expiring counter for each key. -/
theorem keyAt_step {e : Event P} (hs : s.step env requests e = some s') (key : String) :
    Step env.window (s.keyAt requests key) (s'.keyAt requests key) := by
  cases effect_of_step hs with
  | tick d => exact .tick _ (Nat.le_add_right _ _)
  | exempt p hp _ =>
    refine keyAt_forward hp ?_ key
    rfl
  | incr p hp _ =>
    refine s.keyAt_incr ?_ key
    rw [count, hp]
    rfl
  -- the phase keeps the count, so only the counter is new
  | expireNx p c hp =>
    rw [keyAt_windowed hp]
    exact s.keyAt_expireNx _ key
  | reject p c hp _ =>
    refine keyAt_forward hp ?_ key
    rfl
  | pass p c hp _ =>
    refine keyAt_forward hp ?_ key
    rfl
  | crash p =>
    refine keyAt_forward rfl ?_ key
    rfl
  | expire key' value t hcounter ht => exact keyAt_update (.expire value t hcounter ht) key

end State

/-! ### Runs -/

section Runs

variable [DecidableEq P] {s s' : State P}

/-- A property of expiring counters that every step keeps holds of every key in every run. -/
theorem State.keyAt_run {Q : Key P → Prop}
    (hQ : ∀ k k', Q k → Step env.window k k' → Q k') {key : String}
    (h : Q (s.keyAt requests key)) {es : List (Event P)}
    (hrun : s.run env requests es = some s') : Q (s'.keyAt requests key) := by
  induction es generalizing s with
  | nil =>
    cases hrun
    exact h
  | cons e es ih =>
    obtain ⟨s₁, hs, hrun⟩ := Option.bind_eq_some_iff.mp hrun
    exact ih (hQ _ _ h (State.keyAt_step hs key)) hrun

/-- The limiter admits up to the limit, and rejects above it. -/
structure Decided (env : Env) (s : State P) : Prop where
  admitted : ∀ p c, s.phase p = .admitted c → c.current ≤ env.maxRequests
  rejected : ∀ p e c, s.phase p = .rejected e c → e = RateLimitError ∧ env.maxRequests < c.current

/-- A request that goes on keeps this, if the phase it comes to does. -/
theorem Decided.goto (h : Decided env s) {p : P} {phase : Phase}
    (hphase : s'.phase = Function.update s.phase p phase)
    (hadmitted : ∀ c, phase = .admitted c → c.current ≤ env.maxRequests)
    (hrejected : ∀ e c, phase = .rejected e c → e = RateLimitError ∧ env.maxRequests < c.current) :
    Decided env s' := by
  refine ⟨?_, ?_⟩
  · intro q c hq
    rw [hphase] at hq
    by_cases hqp : q = p
    · subst hqp
      rw [Function.update_self] at hq
      exact hadmitted c hq
    · rw [Function.update_of_ne hqp] at hq
      exact h.admitted q c hq
  · intro q e c hq
    rw [hphase] at hq
    by_cases hqp : q = p
    · subst hqp
      rw [Function.update_self] at hq
      exact hrejected e c hq
    · rw [Function.update_of_ne hqp] at hq
      exact h.rejected q e c hq

theorem Decided.step (h : Decided env s) {e : Event P} (hs : s.step env requests e = some s') :
    Decided env s' := by
  cases State.effect_of_step hs with
  | tick d => exact ⟨h.admitted, h.rejected⟩
  | exempt p => exact h.goto rfl (fun _ hc => by cases hc) (fun _ _ hc => by cases hc)
  | incr p =>
    refine h.goto (congrArg (Function.update · p _) (s.phase_incr _)) ?_ ?_
    · exact fun _ hc => by cases hc
    · exact fun _ _ hc => by cases hc
  | expireNx p c =>
    refine h.goto (congrArg (Function.update · p _) (s.phase_expireNx _ _)) ?_ ?_
    · exact fun _ hc => by cases hc
    · exact fun _ _ hc => by cases hc
  | reject p c hp hlt =>
    -- rejected by the comparison, and with the one error
    have hrejected (e : AppError) (c' : Count)
        (hc : Phase.rejected RateLimitError c = .rejected e c') :
        e = RateLimitError ∧ env.maxRequests < c'.current := by
      cases hc
      exact ⟨rfl, hlt⟩
    exact h.goto rfl (fun _ hc => by cases hc) hrejected
  | pass p c hp hle =>
    have hadmitted (c' : Count) (hc : Phase.admitted c = .admitted c') :
        c'.current ≤ env.maxRequests := by
      cases hc
      exact hle
    exact h.goto rfl hadmitted (fun _ _ hc => by cases hc)
  | crash p => exact h.goto rfl (fun _ hc => by cases hc) (fun _ _ hc => by cases hc)
  | expire key => exact ⟨h.admitted, h.rejected⟩

omit [DecidableEq P] in
theorem Decided.start (redis : String → Option Counter) (clock : ℕ) :
    Decided env (.start redis clock : State P) where
  admitted p c hp := by cases hp
  rejected p e c hp := by cases hp

theorem Decided.run (h : Decided env s) {es : List (Event P)}
    (hrun : s.run env requests es = some s') : Decided env s' := by
  induction es generalizing s with
  | nil =>
    cases hrun
    exact h
  | cons e es ih =>
    obtain ⟨s₁, hs, hrun⟩ := Option.bind_eq_some_iff.mp hrun
    exact ih (h.step hs) hrun

/-- The request `p` was admitted, after it was counted as `c` under this key. -/
def State.Admitted (requests : P → Request) (s : State P) (key : String) (p : P) (c : Count) :
    Prop :=
  (requests p).key = key ∧ s.phase p = .admitted c

/-- In every run, from whatever is in Redis at first, one life of a key admits at most
`RATE_LIMIT_MAX_REQUESTS` requests, and every window of `RATE_LIMIT_WINDOW_SECONDS` at most twice
that many. -/
theorem admitted_of_run {redis : String → Option Counter} {clock : ℕ} {es : List (Event P)}
    (hrun : (State.start redis clock).run env requests es = some s) (key : String)
    (A : Finset P) :
    (∀ life, (∀ p ∈ A, ∃ c, s.Admitted requests key p c ∧ c.life = life) →
      A.card ≤ env.maxRequests) ∧
    ∀ t, (∀ p ∈ A, ∃ c, s.Admitted requests key p c ∧ t ≤ c.time ∧ c.time < t + env.window) →
      A.card ≤ 2 * env.maxRequests := by
  have hdecided := (Decided.start redis clock).run hrun
  obtain ⟨bornAt, hlives⟩ : ∃ bornAt, Lifetimes env.window (s.keyAt requests key) bornAt := by
    -- the births of the lives come into being along the run
    refine State.keyAt_run (Q := fun k => ∃ bornAt, Lifetimes env.window k bornAt) ?_ ?_ hrun
    · rintro k k' ⟨bornAt, hk⟩ hs
      exact hk.step hs
    · rw [State.keyAt_start]
      exact ⟨clock, Lifetimes.start _ _⟩
  have hgiven {p : P} {c : Count} (hp : s.Admitted requests key p c) :
      (s.keyAt requests key).given p = some c ∧ c.current ≤ env.maxRequests := by
    obtain ⟨hkey, hp⟩ := hp
    exact ⟨by simp [State.keyAt, hkey, State.count, hp, Phase.count], hdecided.admitted p c hp⟩
  refine ⟨?_, ?_⟩
  · intro life hA
    have hA' : ∀ p ∈ A, ∃ c, (s.keyAt requests key).given p = some c ∧ c.life = life ∧
        c.current ≤ env.maxRequests := by
      intro p hp
      obtain ⟨c, hadmitted, hlife⟩ := hA p hp
      exact ⟨c, (hgiven hadmitted).1, hlife, (hgiven hadmitted).2⟩
    exact hlives.card_le_of_life hA'
  · intro t hA
    refine hlives.card_le_of_window (t := t) ?_
    intro p hp
    obtain ⟨c, hadmitted, hwindow⟩ := hA p hp
    exact ⟨c, (hgiven hadmitted).1, (hgiven hadmitted).2, hwindow⟩

end Runs

/-- Two requests in a second. -/
def Env.two : Env where
  maxRequests := 2
  windowSeconds := 1
  maxRequests_pos := by decide
  windowSeconds_pos := by decide

/-- Two requests in the first life of the key, the second of them late, and two in the next. -/
def lateAndEarly : List (Event (Fin 4)) :=
  [.run 0, .run 0, .run 0, .tick 900, .run 1, .run 1, .run 1, .tick 101,
    .run 2, .run 3, .run 3, .run 2, .run 2, .run 3]

theorem admitted_of_run_lateAndEarly :
    ∃ s, (State.start (fun _ => none) 0).run .two (fun _ => ⟨none, some "10.0.0.1"⟩)
        lateAndEarly = some s ∧
      (∀ p ∈ ({1, 2, 3} : Finset (Fin 4)), ∃ c,
        s.Admitted (fun _ => ⟨none, some "10.0.0.1"⟩) "rate_limit:10.0.0.1" p c ∧
          900 ≤ c.time ∧ c.time < 900 + Env.two.window) ∧
      ({1, 2, 3} : Finset (Fin 4)).card ≤ 2 * Env.two.maxRequests := by
  obtain ⟨s, hrun, h₁, h₂, h₃⟩ : ∃ s,
      (State.start (fun _ => none) 0).run .two (fun _ => ⟨none, some "10.0.0.1"⟩) lateAndEarly =
        some s ∧ s.phase 1 = .admitted ⟨2, 900, 1⟩ ∧ s.phase 2 = .admitted ⟨1, 1001, 2⟩ ∧
          s.phase 3 = .admitted ⟨2, 1001, 2⟩ := ⟨_, rfl, rfl, rfl, rfl⟩
  have hA : ∀ p ∈ ({1, 2, 3} : Finset (Fin 4)), ∃ c,
      s.Admitted (fun _ => ⟨none, some "10.0.0.1"⟩) "rate_limit:10.0.0.1" p c ∧
        900 ≤ c.time ∧ c.time < 900 + Env.two.window := by
    intro p hp
    simp only [Finset.mem_insert, Finset.mem_singleton] at hp
    obtain rfl | rfl | rfl := hp
    · exact ⟨_, ⟨rfl, h₁⟩, by decide⟩
    · exact ⟨_, ⟨rfl, h₂⟩, by decide⟩
    · exact ⟨_, ⟨rfl, h₃⟩, by decide⟩
  exact ⟨s, hrun, hA, (admitted_of_run hrun _ _).2 900 hA⟩

end ScalableBooking.RateLimit
